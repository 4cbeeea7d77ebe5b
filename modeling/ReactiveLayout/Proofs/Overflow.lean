import ReactiveLayout.Proofs.Brackets
import ReactiveLayout.Proofs.Finiteness

/-! Formulas that leave the finite numbers. Only the reciprocal of a divisor is watched when a formula is compiled; a
sum or a product that overflows goes on as an infinite number, or as none. The result is then not finite either, since
no operation leads back, except where the overflow was in a divisor: that divides to zero. -/
namespace ReactiveLayout

/-- Every expression that a name is bound to is finite. -/
structure Scope.IsFinite {K : Type} [Scalar K] (s : Scope K) : Prop where
  formulas : ∀ name e, s.formulas.get? name = some e → e.IsFinite
  prebuilt : ∀ name e, s.prebuilt.get? name = some e → e.IsFinite

theorem Scope.IsFinite.binding? {s : Scope Float} (finite : s.IsFinite) {name : String} {e : Affine Float}
    (bound : s.binding? name = some e) : e.IsFinite := by
  unfold Scope.binding? at bound
  split at bound
  · cases bound
    exact Affine.isFinite_quantity _
  · split at bound
    · rename_i formula
      exact finite.formulas name e (bound ▸ formula)
    · exact finite.prebuilt name e bound

theorem Affine.divide_overflow {K : Type} [Scalar K] {a b : Affine K} (isConstant : b.isConstant = true)
    (nonzero : (b.offset == 0) = false) (reciprocal : Scalar.isFinite (1 / b.offset) = false) :
    a.divide b = .error (.overflow a b.offset) := by
  simp [divide, isConstant, nonzero, reciprocal]

namespace Formula

section
variable {K : Type} [Scalar K] {owner : String} {scope : Scope K}

theorem Sentence.unique {elements : List (Term K)} {e other : Affine K} (first : Sentence scope elements e)
    (second : Sentence scope elements other) : e = other := by
  have compiled : compile "" elements scope = .ok e := compile_of_sentence first
  exact Except.ok.inj (compiled.symm.trans (compile_of_sentence second))

theorem Sentence.odd {elements : List (Term K)} {e : Affine K} (sentence : Sentence scope elements e) :
    elements.length % 2 = 1 := by
  cases sentence with
  | alternation length => omega

theorem continues_cons_iff {value e : Affine K} {op : Operator} {term : Term K} {back : List (Term K)} :
    Continues scope value (.token (.operator op) :: term :: back) e ↔
      ∃ x next, Operand scope term x ∧ value.apply op x = .ok next ∧ Continues scope next back e := by
  constructor
  · rintro ⟨steps, stand, folded⟩
    cases steps with
    | nil => cases stand
    | cons step rest =>
      obtain ⟨next, applied, further⟩ := foldlM_cons_ok folded
      cases stand with
      | cons first behind =>
        cases first
        cases behind with
        | cons second later =>
          cases second with
          | operand operand => exact ⟨_, next, operand, applied, rest, later, further⟩
  · rintro ⟨x, next, operand, applied, rest, later, further⟩
    refine ⟨(op, x) :: rest, .cons (.operator op) (.cons (.operand operand) later), ?_⟩
    rw [List.foldlM_cons, applied]
    exact further

/-- What stands in front of the last operator is a sentence of its own. -/
theorem sentence_step_iff {front : List (Term K)} {op : Operator} {term : Term K} {e : Affine K} :
    Sentence scope (front ++ [.token (.operator op), term]) e ↔
      ∃ acc x, Sentence scope front acc ∧ Operand scope term x ∧ acc.apply op x = .ok e := by
  have done (value : Affine K) : Continues scope value [] e ↔ value = e := by
    constructor
    · rintro ⟨steps, none, folded⟩
      cases steps with
      | nil => exact Except.ok.inj folded
      | cons step rest => cases none
    · rintro rfl
      exact ⟨[], .nil, rfl⟩
  constructor
  · intro sentence
    have odd : front.length % 2 = 1 := by
      have odd := sentence.odd
      rw [List.length_append, List.length_cons, List.length_singleton] at odd
      omega
    obtain ⟨acc, reached, further⟩ := (sentence_append_iff odd).mp sentence
    obtain ⟨x, next, operand, applied, last⟩ := continues_cons_iff.mp further
    obtain rfl := (done next).mp last
    exact ⟨acc, x, reached, operand, applied⟩
  · rintro ⟨acc, x, reached, operand, applied⟩
    have further : Continues scope acc [.token (.operator op), term] e :=
      continues_cons_iff.mpr ⟨x, e, operand, applied, (done e).mpr rfl⟩
    exact (sentence_append_iff reached.odd).mpr ⟨acc, reached, further⟩

/-- Induction on operands and sentences at once, where a sentence is an operand or has an operator and an operand behind
a shorter one. -/
theorem language_steps {P : Term K → Affine K → Prop} {Q : List (Term K) → Affine K → Prop}
    (number : ∀ value, Scalar.isFinite value = true → P (.number value) (.constant value))
    (reference : ∀ name e, scope.binding? name = some e → P (.reference name) e)
    (array : ∀ inner e, Q inner e → P (.array inner) e)
    (built : ∀ primitive e, scope.primitive primitive = .ok e → P (.built primitive) e)
    (single : ∀ term x, P term x → Q [term] x)
    (step : ∀ front op term acc x e, Sentence scope front acc → Operand scope term x → acc.apply op x = .ok e →
      Q front acc → P term x → Q (front ++ [.token (.operator op), term]) e) :
    (∀ term x, Operand scope term x → P term x) ∧ ∀ elements e, Sentence scope elements e → Q elements e := by
  have both := language_induction (P := fun term x => Operand scope term x ∧ P term x)
    (Q := fun elements e => Sentence scope elements e ∧ Q elements e)
    (fun value finite => ⟨.number finite, number value finite⟩)
    (fun name e bound => ⟨.reference bound, reference name e bound⟩)
    (fun inner e known => ⟨.array known.1, array inner e known.2⟩)
    (fun primitive e resolved => ⟨operand_built_iff.mpr resolved, built primitive e resolved⟩) ?_
  · exact ⟨fun term x operand => (both.1 term x operand).2, fun elements e sentence => (both.2 elements e sentence).2⟩
  intro elements start steps e stand folded
  induction steps using List.reverseRecOn generalizing elements e with
  | nil =>
    cases folded
    cases stand with
    | cons first none =>
      cases none
      cases first with
      | operand known => exact ⟨sentence_singleton_iff.mpr known.1, single _ _ known.2⟩
  | append_singleton early last ih =>
    obtain ⟨acc, reached, applied⟩ := foldlM_append_ok folded
    obtain ⟨e, applied, done⟩ := foldlM_cons_ok applied
    cases done
    rw [woven_append] at stand
    obtain ⟨front, back, rfl, earlier, behind⟩ : ∃ front back, elements = front ++ back ∧
        List.Forall₂ (Stands fun term x => Operand scope term x ∧ P term x) front (woven start early) ∧
        List.Forall₂ (Stands fun term x => Operand scope term x ∧ P term x) back [.operator last.1, .operand last.2] :=
      ⟨_, _, (List.take_append_drop _ _).symm, List.forall₂_take_append _ _ _ stand,
        List.forall₂_drop_append _ _ _ stand⟩
    obtain ⟨sentence, known⟩ := ih _ _ earlier reached
    cases behind with
    | cons operator behind =>
      cases operator
      cases behind with
      | cons operand none =>
        cases none
        cases operand with
        | operand operand =>
          exact ⟨sentence_step_iff.mpr ⟨acc, last.2, sentence, operand.1, applied⟩,
            step front last.1 _ acc last.2 _ sentence operand.1 applied known operand.2⟩

theorem compile_of_stands {elements : List (Term K)} {start : Affine K} {steps : List (Operator × Affine K)}
    (stand : List.Forall₂ (Stands (Operand scope)) elements (woven start steps)) :
    compile owner elements scope =
      (steps.foldlM (fun (acc : Affine K) step => acc.apply step.1 step.2) start).mapError .nonlinear := by
  have scanned : scan owner scope none elements = .ok (woven start steps) := by
    refine scan_woven (stand.imp fun term p stands => ?_) none
    cases stands with
    | operand operand => exact .operand (language_reads.1 term _ operand)
    | operator op => exact .operator op
  rw [compile, scanned]
  exact reduceFrom_steps start steps

theorem compile_step_error {front : List (Term K)} {op : Operator} {term : Term K} {acc x : Affine K}
    {cause : Affine.Nonlinear K} (sentence : Sentence scope front acc) (operand : Operand scope term x)
    (failed : acc.apply op x = .error cause) :
    compile owner (front ++ [.token (.operator op), term]) scope = .error (.nonlinear cause) := by
  obtain ⟨start, steps, stand, folded⟩ := sentence_iff.mp sentence
  have further : List.Forall₂ (Stands (Operand scope)) (front ++ [.token (.operator op), term])
      (woven start (steps ++ [(op, x)])) := by
    rw [woven_append]
    exact List.rel_append stand (.cons (.operator op) (.cons (.operand operand) .nil))
  rw [compile_of_stands further, List.foldlM_append, folded]
  change Except.mapError _ (acc.apply op x >>= fun next => pure next) = _
  rw [failed]
  rfl

theorem compile_behind_error {front : List (Term K)} {op : Operator} {term : Term K} {acc x : Affine K}
    {cause : Affine.Nonlinear K} (sentence : Sentence scope front acc) (operand : Operand scope term x)
    (failed : acc.apply op x = .error cause) (back : List (Term K)) :
    ∃ fault, compile owner (front ++ .token (.operator op) :: term :: back) scope = .error fault := by
  cases answer : compile owner (front ++ .token (.operator op) :: term :: back) scope with
  | error fault => exact ⟨fault, rfl⟩
  | ok e =>
    obtain ⟨value, reached, further⟩ := (sentence_append_iff sentence.odd).mp (sentence_of_compile answer)
    obtain rfl := reached.unique sentence
    obtain ⟨y, next, other, applied, _⟩ := continues_cons_iff.mp further
    obtain rfl : x = y := (sentence_singleton_iff.mpr operand).unique (sentence_singleton_iff.mpr other)
    cases failed.symm.trans applied

theorem overflow_of_apply {op : Operator} {a b e : Affine K} {d : K} (failed : a.apply op b = .error (.overflow e d)) :
    Scalar.isFinite (1 / d) = false := by
  cases op with
  | add | subtract => cases failed
  | multiply =>
    simp only [Affine.apply, Affine.times] at failed
    split_ifs at failed
    cases failed
  | divide =>
    simp only [Affine.apply, Affine.divide] at failed
    split_ifs at failed with nonconstant zero reciprocal
    · cases failed
    · cases failed
    · cases failed
      exact Bool.eq_false_iff.mpr reciprocal

theorem overflow_of_reduce {pieces : List (Piece K)} {e : Affine K} {d : K}
    (failed : reduce owner pieces = .error (.nonlinear (.overflow e d))) : Scalar.isFinite (1 / d) = false := by
  have behind (acc : Affine K) (pieces : List (Piece K))
      (failed : reduceFrom owner acc pieces = .error (.nonlinear (.overflow e d))) :
      Scalar.isFinite (1 / d) = false := by
    fun_induction reduceFrom owner acc pieces with
    | case1 | case4 | case5 => cases failed
    | case2 acc op operand rest cause stopped =>
      cases failed
      exact overflow_of_apply stopped
    | case3 acc op operand rest next applied ih => exact ih failed
  cases pieces with
  | nil => cases failed
  | cons first rest =>
    cases first with
    | operator op => cases failed
    | operand start => exact behind start rest failed

mutual

theorem overflow_of_piece : ∀ (term : Term K) {previous : Option (Piece K)} {e : Affine K} {d : K},
    piece owner scope previous term = .error (.nonlinear (.overflow e d)) → Scalar.isFinite (1 / d) = false
  | .number value, _, _, _, failed => by
    rw [piece] at failed
    split at failed <;> cases failed
  | .descriptor value, _, _, _, failed => by
    rw [piece] at failed
    split at failed <;> cases failed
  | .producer source, _, _, _, failed => by
    rw [piece] at failed
    cases failed
  | .token token, previous, _, _, failed => by
    rw [piece] at failed
    cases token with
    | operator op =>
      simp only [tokenPiece, operatorPiece] at failed
      split at failed <;> cases failed
    | comparator | strict | strength => cases failed
  | .reference name, _, _, _, failed => by
    rw [piece, Scope.lookup] at failed
    cases bound : scope.binding? name <;> rw [bound] at failed <;> cases failed
  | .built primitive, _, _, _, failed => by
    rw [piece] at failed
    cases primitive with
    | strength strength => cases failed
    | quantity | expression =>
      simp only [builtPiece, Scope.primitive, Scope.accept] at failed
      split at failed <;> cases failed
  | .array elements, _, _, _, failed => by
    rw [piece] at failed
    cases scanned : scan owner scope none elements with
    | error fault =>
      rw [scanned] at failed
      cases failed
      exact overflow_of_scan elements scanned
    | ok pieces =>
      rw [scanned] at failed
      cases reduced : reduce owner pieces with
      | error fault =>
        simp only [reduced, Except.map] at failed
        cases failed
        exact overflow_of_reduce reduced
      | ok x =>
        simp only [reduced, Except.map] at failed
        cases failed

theorem overflow_of_scan : ∀ (elements : List (Term K)) {previous : Option (Piece K)} {e : Affine K} {d : K},
    scan owner scope previous elements = .error (.nonlinear (.overflow e d)) → Scalar.isFinite (1 / d) = false
  | [], _, _, _, failed => by
    rw [scan] at failed
    cases failed
  | term :: rest, previous, _, _, failed => by
    rw [scan] at failed
    cases read : piece owner scope previous term with
    | error fault =>
      rw [read] at failed
      cases failed
      exact overflow_of_piece term read
    | ok next =>
      cases scanned : scan owner scope (some next) rest with
      | error fault =>
        simp only [read, scanned] at failed
        cases failed
        exact overflow_of_scan rest scanned
      | ok pieces =>
        simp only [read, scanned] at failed
        cases failed

end

mutual

/-- The operands whose value lies outside the finite numbers although the scope is finite. -/
inductive StraysAlone (scope : Scope K) : Term K → Prop where
  | expression {e : Affine K} (outside : ¬ e.IsFinite) : StraysAlone scope (.built (.expression e))
  | array {elements : List (Term K)} (inner : Strays scope elements) : StraysAlone scope (.array elements)

/-- The arrays that leave the finite numbers: in an operation on two finite values, or with an operand that lies outside
already and is no divisor. -/
inductive Strays (scope : Scope K) : List (Term K) → Prop where
  | start {term : Term K} (operand : StraysAlone scope term) : Strays scope [term]
  | earlier {front : List (Term K)} (op : Operator) (term : Term K) (before : Strays scope front) :
      Strays scope (front ++ [.token (.operator op), term])
  | operand (front : List (Term K)) {op : Operator} {term : Term K} (undivided : op ≠ .divide)
      (operand : StraysAlone scope term) : Strays scope (front ++ [.token (.operator op), term])
  | overflow {front : List (Term K)} {op : Operator} {term : Term K} {acc x e : Affine K}
      (left : Sentence scope front acc) (leftFinite : acc.IsFinite) (right : Operand scope term x)
      (rightFinite : x.IsFinite) (applied : acc.apply op x = .ok e) (outside : ¬ e.IsFinite) :
      Strays scope (front ++ [.token (.operator op), term])

end

theorem strays_singleton_iff {term : Term K} : Strays scope [term] ↔ StraysAlone scope term := by
  constructor
  · generalize single : [term] = elements
    rintro strays
    have longer (front : List (Term K)) (first second : Term K) : [term] ≠ front ++ [first, second] := by
      intro same
      have length := congrArg List.length same
      rw [List.length_append] at length
      simp at length
    cases strays with
    | start operand => exact List.singleton_injective single ▸ operand
    | earlier | operand | overflow => exact absurd single (longer _ _ _)
  · exact .start

theorem strays_step {front : List (Term K)} {op : Operator} {term : Term K}
    (strays : Strays scope (front ++ [.token (.operator op), term])) :
    Strays scope front ∨ (op ≠ .divide ∧ StraysAlone scope term) ∨
      ∃ e, Sentence scope (front ++ [.token (.operator op), term]) e ∧ ¬ e.IsFinite := by
  generalize spelled : front ++ [.token (.operator op), term] = elements at strays
  have split {other : List (Term K)} {op' : Operator} {term' : Term K}
      (same : front ++ [.token (.operator op), term] = other ++ [.token (.operator op'), term']) :
      front = other ∧ op = op' ∧ term = term' := by
    obtain ⟨rfl, last⟩ := List.append_inj' same rfl
    cases last
    exact ⟨rfl, rfl, rfl⟩
  cases strays with
  | start operand =>
    have length := congrArg List.length spelled
    rw [List.length_append] at length
    simp at length
  | earlier op' term' before =>
    obtain ⟨rfl, rfl, rfl⟩ := split spelled
    exact .inl before
  | operand front' undivided operand =>
    obtain ⟨rfl, rfl, rfl⟩ := split spelled
    exact .inr (.inl ⟨undivided, operand⟩)
  | overflow left leftFinite right rightFinite applied outside =>
    exact .inr (.inr ⟨_, sentence_step_iff.mpr ⟨_, _, left, right, applied⟩, outside⟩)

end

/-- In a finite scope, what an array comes to is finite exactly if the array does not stray. -/
theorem isFinite_iff_not_strays {scope : Scope Float} (finite : scope.IsFinite) :
    (∀ term x, Operand scope term x → (x.IsFinite ↔ ¬ StraysAlone scope term)) ∧
      ∀ elements e, Sentence scope elements e → (e.IsFinite ↔ ¬ Strays scope elements) := by
  apply language_steps
  · intro value inside
    exact iff_of_true ⟨inside, fun _ member => nomatch member⟩ (fun strays => nomatch strays)
  · intro name e bound
    exact iff_of_true (finite.binding? bound) (fun strays => nomatch strays)
  · intro inner e known
    refine known.trans (not_congr ⟨.array, fun strays => ?_⟩)
    cases strays with
    | array inner => exact inner
  · intro primitive e resolved
    cases primitive with
    | strength strength => cases resolved
    | quantity id =>
      obtain ⟨rfl, _⟩ := Scope.accept_ok_iff.mp resolved
      exact iff_of_true (Affine.isFinite_quantity id) (fun strays => nomatch strays)
    | expression built =>
      obtain ⟨rfl, _⟩ := Scope.accept_ok_iff.mp resolved
      refine ⟨fun inside strays => ?_, fun stays => of_not_not fun outside => stays (.expression outside)⟩
      cases strays with
      | expression outside => exact outside inside
  · intro term x known
    exact known.trans (not_congr strays_singleton_iff.symm)
  · intro front op term acc x e left right applied leftKnown rightKnown
    constructor
    · intro inside strays
      obtain ⟨leftFinite, rightFinite⟩ := Affine.isFinite_of_apply applied inside
      rcases strays_step strays with before | ⟨undivided, operand⟩ | ⟨other, sentence, outside⟩
      · exact leftKnown.mp leftFinite before
      · exact rightKnown.mp (rightFinite undivided) operand
      · exact outside (sentence.unique (sentence_step_iff.mpr ⟨acc, x, left, right, applied⟩) ▸ inside)
    · intro stays
      have leftFinite : acc.IsFinite := leftKnown.mpr fun before => stays (.earlier op term before)
      by_contra outside
      by_cases rightFinite : x.IsFinite
      · exact stays (.overflow left leftFinite right rightFinite applied outside)
      · have operand : StraysAlone scope term := of_not_not fun alone => rightFinite (rightKnown.mpr alone)
        by_cases divided : op = .divide
        · subst divided
          exact outside (Affine.isFinite_divide leftFinite rightFinite applied)
        · exact stays (.operand front divided operand)

/-- In a finite scope an array that compiles comes to a finite expression exactly if it does not stray; straying is no
error. The only overflow that is one is that of the reciprocal of a divisor: it is reported for nothing else, and
nothing behind such a division saves the array. -/
theorem finite_unless_strays {scope : Scope Float} (finite : scope.IsFinite) (owner : String)
    (elements : List (Term Float)) :
    (∀ e, compile owner elements scope = .ok e → (e.IsFinite ↔ ¬ Strays scope elements)) ∧
      (∀ acc d, compile owner elements scope = .error (.nonlinear (.overflow acc d)) →
        Scalar.isFinite (1 / d) = false) ∧
      ∀ acc term x, compile owner elements scope = .ok acc → Operand scope term x → x.isConstant = true →
        (x.offset == 0) = false → Scalar.isFinite (1 / x.offset) = false →
        compile owner (elements ++ [.token (.operator .divide), term]) scope =
            .error (.nonlinear (.overflow acc x.offset)) ∧
          ∀ back, ∃ fault,
            compile owner (elements ++ .token (.operator .divide) :: term :: back) scope = .error fault := by
  refine ⟨fun e compiled => (isFinite_iff_not_strays finite).2 elements e (sentence_of_compile compiled), ?_, ?_⟩
  · intro acc d failed
    rw [compile] at failed
    cases scanned : scan owner scope none elements with
    | error fault =>
      rw [scanned] at failed
      cases failed
      exact overflow_of_scan elements scanned
    | ok pieces =>
      rw [scanned] at failed
      exact overflow_of_reduce failed
  · intro acc term x compiled operand isConstant nonzero reciprocal
    have sentence := sentence_of_compile compiled
    have divided : acc.apply .divide x = .error (.overflow acc x.offset) :=
      Affine.divide_overflow isConstant nonzero reciprocal
    exact ⟨compile_step_error sentence operand divided, compile_behind_error sentence operand divided⟩

theorem ok_of_toOption {ε α : Type} {answer : Except ε α} {x : α} (found : answer.toOption = some x) :
    answer = .ok x := by
  cases answer with
  | error fault => cases found
  | ok y => exact congrArg Except.ok (Option.some.inj found)

/-- One quantity, and a formula close to the largest number. -/
def vast : Scope Float :=
  ⟨⟨[⟨"width", 0⟩]⟩, NameTable.empty.insert "peak" (.constant 1e308), ∅⟩

theorem vast_isFinite : vast.IsFinite where
  formulas := fun name e bound => by
    simp only [vast, NameTable.get?_insert] at bound
    split at bound
    · cases bound
      exact ⟨by decide +kernel, fun _ member => nomatch member⟩
    · cases bound
  prebuilt := fun name e bound => nomatch bound

/-- `["width", "*", 2, "+", "peak", op, "peak"]` -/
def summit (op : Operator) : List (Term Float) :=
  [.reference "width", .token (.operator .multiply), .number 2, .token (.operator .add), .reference "peak",
    .token (.operator op), .reference "peak"]

/-- Two peaks leave the finite numbers when they are added, and stay among them when they are subtracted. To divide by
a number that is too small is an error. -/
theorem finite_unless_strays_summit :
    vast.IsFinite ∧ Strays vast (summit .add) ∧ ¬ Strays vast (summit .subtract) ∧
      compile "f" [.reference "peak", .token (.operator .divide), .number 1e-320] vast =
        .error (.nonlinear (.overflow (.constant 1e308) 1e-320)) := by
  have added : compile "f" (summit .add) vast = .ok ⟨[(0, 2)], 1 / 0⟩ := ok_of_toOption (by decide +kernel)
  have subtracted : compile "f" (summit .subtract) vast = .ok ⟨[(0, 2)], 0⟩ := ok_of_toOption (by decide +kernel)
  have outside : ¬ (⟨[(0, 2)], 1 / 0⟩ : Affine Float).IsFinite := by
    intro inside
    exact absurd inside.offset (by decide +kernel)
  have inside : (⟨[(0, 2)], 0⟩ : Affine Float).IsFinite := by
    refine ⟨by decide +kernel, fun t member => ?_⟩
    obtain rfl := List.mem_singleton.mp member
    decide +kernel
  have strays := ((finite_unless_strays vast_isFinite "f" (summit .add)).1 _ added).not.mp outside
  have stays := ((finite_unless_strays vast_isFinite "f" (summit .subtract)).1 _ subtracted).mp inside
  have peak : compile "f" [.reference "peak"] vast = .ok (.constant 1e308) := ok_of_toOption (by decide +kernel)
  have divisor : Operand vast (.number 1e-320) (.constant 1e-320) := .number (by decide +kernel)
  have divided := ((finite_unless_strays vast_isFinite "f" [.reference "peak"]).2.2 _ _ _ peak divisor rfl
    (by decide +kernel) (by decide +kernel)).1
  exact ⟨vast_isFinite, of_not_not strays, stays, divided⟩

/-- A sum of two finite numbers compiles to infinity, and a divisor that overflows is lost without a trace. -/
theorem sum_overflows :
    compile "f" [.number 1e308, .token (.operator .add), .number 1e308] ⟨.empty, ∅, ∅⟩ =
        .ok (.constant (1 / 0 : Float)) ∧
      compile "f" [.number 1, .token (.operator .divide),
        .array [.number 1e308, .token (.operator .multiply), .number 10]] ⟨.empty, ∅, ∅⟩ = .ok (.constant (0 : Float)) ∧
      ¬ ∀ scope : Scope Float, scope.IsFinite →
        ∀ owner elements e, compile owner elements scope = .ok e → e.IsFinite := by
  have summed : compile "f" [.number 1e308, .token (.operator .add), .number 1e308] ⟨.empty, ∅, ∅⟩ =
      .ok (.constant (1 / 0 : Float)) := ok_of_toOption (by decide +kernel)
  refine ⟨summed, ok_of_toOption (by decide +kernel), fun always => ?_⟩
  have nothing : (⟨.empty, ∅, ∅⟩ : Scope Float).IsFinite := by
    constructor <;> (intro name e bound; cases bound)
  exact absurd (always _ nothing _ _ _ summed).offset (by decide +kernel)

end Formula
end ReactiveLayout
