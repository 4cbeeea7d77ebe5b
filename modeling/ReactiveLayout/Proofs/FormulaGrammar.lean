import Mathlib
import ReactiveLayout.Formula
import ReactiveLayout.Proofs.QuantityTable
import ReactiveLayout.Proofs.References

/-! The language of formula arrays, told by position and without the compiler: operands stand at the even places and
operators between them, and the operators apply from left to right. The compiler goes through an array twice, once to
scan it into pieces and once to fold these. The pieces of an array of the language are woven from its operands and
operators; a scan that succeeds reads every element as what it stands for, and only woven pieces can be folded. -/
namespace ReactiveLayout
variable {K : Type} [Scalar K]

namespace Scope
variable {s : Scope K}

theorem lookup_ok_iff {name : String} {e : Affine K} : s.lookup name = .ok e ↔ s.binding? name = some e := by
  unfold lookup
  cases s.binding? name <;> simp

omit [Scalar K] in
theorem accept_ok_iff {e accepted : Affine K} :
    s.accept e = .ok accepted ↔ accepted = e ∧ ∀ id ∈ e.quantities, id < s.quantities.size := by
  unfold accept
  cases found : e.quantities.find? fun id => !s.quantities.contains id with
  | some id =>
    have unknown : ¬ id < s.quantities.size := by
      intro known
      simpa [QuantityTable.contains_iff.mpr known] using List.find?_some found
    simp only [reduceCtorEq, false_iff, not_and]
    exact fun _ all => unknown (all id (List.mem_of_find?_eq_some found))
  | none =>
    have known : ∀ id ∈ e.quantities, id < s.quantities.size := by
      simpa [QuantityTable.contains_iff] using List.find?_eq_none.mp found
    simp only [Except.ok.injEq, eq_comm, and_iff_left known]

end Scope

namespace Formula

mutual

/-- The terms that are operands, each with the expression that it stands for. -/
inductive Operand (scope : Scope K) : Term K → Affine K → Prop where
  | number {value : K} (finite : Scalar.isFinite value = true) : Operand scope (.number value) (.constant value)
  | reference {name : String} {e : Affine K} (bound : scope.binding? name = some e) : Operand scope (.reference name) e
  | array {elements : List (Term K)} {e : Affine K} (inner : Sentence scope elements e) :
      Operand scope (.array elements) e
  | quantity {id : QuantityId} (known : ∀ other ∈ (Affine.quantity id : Affine K).quantities, other < scope.quantities.size) :
      Operand scope (.built (.quantity id)) (.quantity id)
  | expression {e : Affine K} (known : ∀ id ∈ e.quantities, id < scope.quantities.size) :
      Operand scope (.built (.expression e)) e

/-- The arrays of the language, each with the expression that it comes to. A step is an operator with the operand behind
it; it applies to all that stands in front of it. -/
inductive Sentence (scope : Scope K) : List (Term K) → Affine K → Prop where
  | alternation {elements : List (Term K)} {start e : Affine K} {steps : List (Operator × Affine K)}
      (length : elements.length = 2 * steps.length + 1)
      (even : ∀ i term x, elements[2 * i]? = some term → (start :: steps.map (·.2))[i]? = some x → Operand scope term x)
      (odd : ∀ i op, (steps.map (·.1))[i]? = some op → elements[2 * i + 1]? = some (.token (.operator op)))
      (folded : steps.foldlM (fun acc step => acc.apply step.1 step.2) start = .ok e) :
      Sentence scope elements e

end

/-- The pieces of an array that starts with an operand and goes on with steps. -/
def woven (start : Affine K) (steps : List (Operator × Affine K)) : List (Piece K) :=
  .operand start :: steps.flatMap fun step => [.operator step.1, .operand step.2]

omit [Scalar K] in
@[simp] theorem woven_nil (start : Affine K) : woven start [] = [.operand start] := rfl

omit [Scalar K] in
@[simp] theorem woven_cons (start : Affine K) (step : Operator × Affine K) (rest : List (Operator × Affine K)) :
    woven start (step :: rest) = .operand start :: .operator step.1 :: woven step.2 rest := rfl

/-- An operator stands for itself, and any other element for an operand that `R` relates it to. -/
inductive Stands (R : Term K → Affine K → Prop) : Term K → Piece K → Prop where
  | operand {term : Term K} {x : Affine K} (stands : R term x) : Stands R term (.operand x)
  | operator (op : Operator) : Stands R (.token (.operator op)) (.operator op)

omit [Scalar K] in
/-- Elements that stand for woven pieces, by position. -/
theorem forall₂_woven_iff {R : Term K → Affine K → Prop} {elements : List (Term K)} {start : Affine K}
    {steps : List (Operator × Affine K)} : List.Forall₂ (Stands R) elements (woven start steps) ↔
      elements.length = 2 * steps.length + 1 ∧
      (∀ i term x, elements[2 * i]? = some term → (start :: steps.map (·.2))[i]? = some x → R term x) ∧
      ∀ i op, (steps.map (·.1))[i]? = some op → elements[2 * i + 1]? = some (.token (.operator op)) := by
  induction steps generalizing elements start with
  | nil =>
    constructor
    · intro stand
      cases stand with
      | cons first none =>
        cases none
        cases first with
        | operand stands =>
          refine ⟨rfl, ?_, ?_⟩
          · intro i term x here operand
            cases i with
            | zero =>
              cases here
              cases operand
              exact stands
            | succ i => simp at operand
          · intro i op here
            simp at here
    · rintro ⟨length, even, _⟩
      obtain ⟨term, rfl⟩ := List.length_eq_one_iff.mp length
      exact .cons (.operand (even 0 term start rfl rfl)) .nil
  | cons step rest ih =>
    constructor
    · intro stand
      cases stand with
      | cons first behind =>
        cases behind with
        | cons second later =>
          obtain ⟨length, even, odd⟩ := ih.mp later
          cases first with
          | operand stands =>
            cases second with
            | operator op =>
              refine ⟨by simp only [List.length_cons, length]; omega, ?_, ?_⟩
              · intro i term x here operand
                cases i with
                | zero =>
                  cases here
                  cases operand
                  exact stands
                | succ i => exact even i term x here operand
              · intro i op here
                cases i with
                | zero =>
                  cases here
                  rfl
                | succ i => exact odd i op here
    · rintro ⟨length, even, odd⟩
      match elements, length with
      | first :: second :: later, length =>
        have operator := odd 0 step.1 rfl
        obtain rfl : second = .token (.operator step.1) := Option.some.inj operator
        refine .cons (.operand (even 0 first start rfl rfl)) (.cons (.operator step.1) (ih.mpr ⟨?_, ?_, ?_⟩))
        · simp only [List.length_cons] at length
          omega
        · intro i term x here operand
          exact even (i + 1) term x here operand
        · intro i op here
          exact odd (i + 1) op here

variable {owner : String} {scope : Scope K} {previous : Option (Piece K)}

omit [Scalar K] in
theorem map_operand_ok_iff {answer : Except (CompileError K) (Affine K)} {p : Piece K} :
    answer.map Piece.operand = .ok p ↔ ∃ e, answer = .ok e ∧ p = .operand e := by
  cases answer with
  | error e => simp [Except.map]
  | ok e => simp [Except.map, eq_comm]

theorem builtPiece_ok_iff {primitive : Primitive K} {p : Piece K} :
    builtPiece owner scope primitive = .ok p ↔ ∃ e, scope.primitive primitive = .ok e ∧ p = .operand e := by
  cases primitive with
  | strength strength => simp [builtPiece, Scope.primitive]
  | quantity id | expression e => exact map_operand_ok_iff

theorem compile_ok_iff {elements : List (Term K)} {e : Affine K} :
    compile owner elements scope = .ok e ↔ ∃ pieces, scan owner scope none elements = .ok pieces ∧ reduce owner pieces = .ok e := by
  unfold compile
  cases scan owner scope none elements with
  | error e => simp
  | ok pieces => simp

theorem piece_reference_ok_iff {name : String} {p : Piece K} :
    piece owner scope previous (.reference name) = .ok p ↔ ∃ e, scope.binding? name = some e ∧ p = .operand e := by
  simp only [piece, map_operand_ok_iff, Scope.lookup_ok_iff]

theorem piece_array_ok_iff {elements : List (Term K)} {p : Piece K} :
    piece owner scope previous (.array elements) = .ok p ↔ ∃ e, compile owner elements scope = .ok e ∧ p = .operand e := by
  rw [piece, compile]
  cases scan owner scope none elements with
  | error e => simp
  | ok pieces => exact map_operand_ok_iff

theorem scan_cons_ok_iff {term : Term K} {rest : List (Term K)} {pieces : List (Piece K)} :
    scan owner scope previous (term :: rest) = .ok pieces ↔ ∃ first later, piece owner scope previous term = .ok first ∧
      scan owner scope (some first) rest = .ok later ∧ pieces = first :: later := by
  rw [scan]
  cases piece owner scope previous term with
  | error e => simp
  | ok first =>
    cases run : scan owner scope (some first) rest with
    | error e => simp [run]
    | ok later => simp [run, eq_comm]

theorem operand_built_iff {primitive : Primitive K} {e : Affine K} :
    Operand scope (.built primitive) e ↔ scope.primitive primitive = .ok e := by
  constructor
  · intro operand
    cases operand with
    | quantity known => exact Scope.accept_ok_iff.mpr ⟨rfl, known⟩
    | expression known => exact Scope.accept_ok_iff.mpr ⟨rfl, known⟩
  · intro resolved
    cases primitive with
    | strength strength => cases resolved
    | quantity id =>
      obtain ⟨rfl, known⟩ := Scope.accept_ok_iff.mp resolved
      exact .quantity known
    | expression built =>
      obtain ⟨rfl, known⟩ := Scope.accept_ok_iff.mp resolved
      exact .expression known

theorem sentence_iff {elements : List (Term K)} {e : Affine K} : Sentence scope elements e ↔
    ∃ start steps, List.Forall₂ (Stands (Operand scope)) elements (woven start steps) ∧
      steps.foldlM (fun acc step => acc.apply step.1 step.2) start = .ok e := by
  constructor
  · intro sentence
    cases sentence with
    | alternation length even odd folded => exact ⟨_, _, forall₂_woven_iff.mpr ⟨length, even, odd⟩, folded⟩
  · rintro ⟨start, steps, stand, folded⟩
    obtain ⟨length, even, odd⟩ := forall₂_woven_iff.mp stand
    exact .alternation length even odd folded

/-- Induction on operands and sentences at once, where a sentence has its pieces in place of its positions. -/
theorem language_induction {P : Term K → Affine K → Prop} {Q : List (Term K) → Affine K → Prop}
    (number : ∀ value, Scalar.isFinite value = true → P (.number value) (.constant value))
    (reference : ∀ name e, scope.binding? name = some e → P (.reference name) e)
    (array : ∀ inner e, Q inner e → P (.array inner) e)
    (built : ∀ primitive e, scope.primitive primitive = .ok e → P (.built primitive) e)
    (alternation : ∀ elements start steps e, List.Forall₂ (Stands P) elements (woven start steps) →
      steps.foldlM (fun acc step => acc.apply step.1 step.2) start = .ok e → Q elements e) :
    (∀ term x, Operand scope term x → P term x) ∧ ∀ elements e, Sentence scope elements e → Q elements e := by
  have operands (term : Term K) (x : Affine K) (operand : Operand scope term x) : P term x := by
    refine @Operand.rec K _ scope (fun term x _ => P term x) (fun elements e _ => Q elements e)
      ?_ ?_ ?_ ?_ ?_ ?_ term x operand
    · intro value finite
      exact number value finite
    · intro name e bound
      exact reference name e bound
    · intro inner e _ ih
      exact array inner e ih
    · intro id known
      exact built (.quantity id) _ (operand_built_iff.mp (.quantity known))
    · intro e known
      exact built (.expression e) e (operand_built_iff.mp (.expression known))
    · intro elements start e steps length _ odd folded ih
      exact alternation elements start steps e (forall₂_woven_iff.mpr ⟨length, ih, odd⟩) folded
  refine ⟨operands, fun elements e sentence => ?_⟩
  obtain ⟨start, steps, stand, folded⟩ := sentence_iff.mp sentence
  refine alternation elements start steps e (stand.imp fun term p stands => ?_) folded
  cases stands with
  | operand operand => exact .operand (operands term _ operand)
  | operator op => exact .operator op

/-- The fold takes the steps at the front one by one, and fails with the first that does not apply. -/
theorem reduceFrom_append (acc : Affine K) (steps : List (Operator × Affine K)) (rest : List (Piece K)) :
    reduceFrom owner acc (steps.flatMap (fun step => [.operator step.1, .operand step.2]) ++ rest) =
      ((steps.foldlM (fun (acc : Affine K) step => acc.apply step.1 step.2) acc).mapError .nonlinear).bind
        fun e => reduceFrom owner e rest := by
  induction steps generalizing acc with
  | nil => rfl
  | cons step more ih =>
    rw [List.flatMap_cons, List.append_assoc, List.cons_append, List.cons_append, List.nil_append, reduceFrom,
      List.foldlM_cons]
    cases acc.apply step.1 step.2 with
    | error cause => rfl
    | ok next => exact ih next

theorem reduceFrom_steps (acc : Affine K) (steps : List (Operator × Affine K)) :
    reduceFrom owner acc (steps.flatMap fun step => [.operator step.1, .operand step.2]) =
      (steps.foldlM (fun (acc : Affine K) step => acc.apply step.1 step.2) acc).mapError .nonlinear := by
  rw [← List.append_nil (steps.flatMap _), reduceFrom_append]
  cases steps.foldlM (fun (acc : Affine K) step => acc.apply step.1 step.2) acc <;> rfl

/-- The operators of steps applied from left to right. -/
theorem reduceFrom_ok_iff {acc e : Affine K} {pieces : List (Piece K)} :
    reduceFrom owner acc pieces = .ok e ↔ ∃ steps : List (Operator × Affine K),
      pieces = steps.flatMap (fun step => [.operator step.1, .operand step.2]) ∧
        steps.foldlM (fun acc step => acc.apply step.1 step.2) acc = .ok e := by
  constructor
  · intro done
    fun_induction reduceFrom owner acc pieces with
    | case1 acc =>
      cases done
      exact ⟨[], rfl, rfl⟩
    | case3 acc op operand rest next applied ih =>
      obtain ⟨steps, rfl, folded⟩ := ih done
      refine ⟨(op, operand) :: steps, rfl, ?_⟩
      rw [List.foldlM_cons, applied]
      exact folded
    | case2 | case4 | case5 => cases done
  · rintro ⟨steps, rfl, folded⟩
    rw [reduceFrom_steps, folded]
    rfl

theorem reduce_ok_iff {e : Affine K} {pieces : List (Piece K)} :
    reduce owner pieces = .ok e ↔ ∃ start steps, pieces = woven start steps ∧
      steps.foldlM (fun acc step => acc.apply step.1 step.2) start = .ok e := by
  cases pieces with
  | nil =>
    constructor
    · intro impossible
      cases impossible
    · rintro ⟨start, steps, same, _⟩
      cases same
  | cons first rest =>
    cases first with
    | operator op =>
      constructor
      · intro impossible
        cases impossible
      · rintro ⟨start, steps, same, _⟩
        cases same
    | operand start =>
      rw [reduce, reduceFrom_ok_iff]
      constructor
      · rintro ⟨steps, rfl, folded⟩
        exact ⟨start, steps, rfl, folded⟩
      · rintro ⟨_, steps, same, folded⟩
        cases same
        exact ⟨steps, rfl, folded⟩

/-- Elements that stand for what they are read as behind any piece are scanned as woven: what stands in front of an
operator is an operand. -/
theorem scan_woven {elements : List (Term K)} {start : Affine K} {steps : List (Operator × Affine K)}
    (stand : List.Forall₂ (Stands fun term x => ∀ previous, piece owner scope previous term = .ok (.operand x)) elements
      (woven start steps)) (previous : Option (Piece K)) :
    scan owner scope previous elements = .ok (woven start steps) := by
  induction steps generalizing elements start previous with
  | nil =>
    cases stand with
    | cons first none =>
      cases none
      cases first with
      | operand read => exact scan_cons_ok_iff.mpr ⟨_, _, read previous, rfl, rfl⟩
  | cons step rest ih =>
    cases stand with
    | cons first behind =>
      cases behind with
      | cons second later =>
        cases first with
        | operand read =>
          cases second with
          | operator op =>
            have operator : piece owner scope (some (.operand start)) (.token (.operator step.1)) =
                .ok (.operator step.1) := by
              simp only [piece, tokenPiece, operatorPiece]
            have behind := scan_cons_ok_iff.mpr ⟨_, _, operator, ih later _, rfl⟩
            exact scan_cons_ok_iff.mpr ⟨_, _, read previous, behind, rfl⟩

mutual

theorem stands_of_piece : ∀ (term : Term K) {previous : Option (Piece K)} {p : Piece K},
    piece owner scope previous term = .ok p → Stands (Operand scope) term p
  | .number value, _, _, read => by
    rw [piece] at read
    split at read
    · rename_i finite
      cases read
      exact .operand (.number finite)
    · cases read
  | .descriptor value, _, _, read => by
    rw [piece] at read
    split at read <;> cases read
  | .producer source, _, _, read => by
    rw [piece] at read
    cases read
  | .token token, previous, _, read => by
    rw [piece] at read
    cases token with
    | operator op =>
      simp only [tokenPiece, operatorPiece] at read
      split at read
      · cases read
        exact .operator op
      · cases read
    | comparator | strict | strength => cases read
  | .reference name, _, _, read => by
    obtain ⟨e, bound, rfl⟩ := piece_reference_ok_iff.mp read
    exact .operand (.reference bound)
  | .built primitive, _, _, read => by
    rw [piece, builtPiece_ok_iff] at read
    obtain ⟨e, resolved, rfl⟩ := read
    exact .operand (operand_built_iff.mpr resolved)
  | .array elements, _, _, read => by
    obtain ⟨e, compiled, rfl⟩ := piece_array_ok_iff.mp read
    obtain ⟨pieces, scanned, reduced⟩ := compile_ok_iff.mp compiled
    obtain ⟨start, steps, rfl, folded⟩ := reduce_ok_iff.mp reduced
    exact .operand (.array (sentence_iff.mpr ⟨start, steps, stands_of_scan elements scanned, folded⟩))

theorem stands_of_scan : ∀ (elements : List (Term K)) {previous : Option (Piece K)} {pieces : List (Piece K)},
    scan owner scope previous elements = .ok pieces → List.Forall₂ (Stands (Operand scope)) elements pieces
  | [], _, _, scanned => by
    rw [scan] at scanned
    cases scanned
    exact .nil
  | term :: rest, _, _, scanned => by
    obtain ⟨first, later, read, run, rfl⟩ := scan_cons_ok_iff.mp scanned
    exact .cons (stands_of_piece term read) (stands_of_scan rest run)

end

theorem sentence_of_compile {elements : List (Term K)} {e : Affine K} (compiled : compile owner elements scope = .ok e) :
    Sentence scope elements e := by
  obtain ⟨pieces, scanned, reduced⟩ := compile_ok_iff.mp compiled
  obtain ⟨start, steps, rfl, folded⟩ := reduce_ok_iff.mp reduced
  exact sentence_iff.mpr ⟨start, steps, stands_of_scan elements scanned, folded⟩

/-- An operand is read as its expression whatever stands in front of it, and an array of the language compiles. -/
theorem language_reads : (∀ term x, Operand scope term x → ∀ previous, piece owner scope previous term = .ok (.operand x)) ∧
    ∀ elements e, Sentence scope elements e → compile owner elements scope = .ok e := by
  apply language_induction
  · intro value finite previous
    simp only [piece, finite, if_true]
  · intro name e bound previous
    exact piece_reference_ok_iff.mpr ⟨e, bound, rfl⟩
  · intro inner e compiled previous
    exact piece_array_ok_iff.mpr ⟨e, compiled, rfl⟩
  · intro primitive e resolved previous
    rw [piece, builtPiece_ok_iff]
    exact ⟨e, resolved, rfl⟩
  · intro elements start steps e stand folded
    exact compile_ok_iff.mpr ⟨_, scan_woven stand none, reduce_ok_iff.mpr ⟨start, steps, rfl, folded⟩⟩

theorem compile_of_sentence {elements : List (Term K)} {e : Affine K} (sentence : Sentence scope elements e) :
    compile owner elements scope = .ok e := language_reads.2 elements e sentence

theorem operand_array_iff {inner : List (Term K)} {x : Affine K} :
    Operand scope (.array inner) x ↔ compile owner inner scope = .ok x := by
  constructor
  · intro operand
    cases operand with
    | array sentence => exact compile_of_sentence sentence
  · intro compiled
    exact .array (sentence_of_compile compiled)

/-- The compiler accepts exactly the arrays of the language, whoever owns them, and an array comes to the fold of its
operands. A nested array is an operand if it compiles itself; every other array, nested or not, is refused. -/
theorem compile_ok_iff_sentence (owner : String) (elements : List (Term K)) (scope : Scope K) :
    (∀ e, compile owner elements scope = .ok e ↔ Sentence scope elements e) ∧
      (∀ inner x, Operand scope (.array inner) x ↔ compile owner inner scope = .ok x) ∧
      ((∃ e, Sentence scope elements e) ∨ ∃ fault, compile owner elements scope = .error fault) := by
  refine ⟨fun e => ⟨sentence_of_compile, compile_of_sentence⟩, fun inner x => operand_array_iff, ?_⟩
  cases answer : compile owner elements scope with
  | ok e => exact .inl ⟨e, sentence_of_compile answer⟩
  | error fault => exact .inr ⟨fault, rfl⟩

/-- There is no precedence: the second operator applies to the sum. -/
example : compile "size" [.number 2, .token (.operator .add), .number 3, .token (.operator .multiply), .number 4]
    (⟨.empty, ∅, ∅⟩ : Scope Rat) = .ok (.constant 20) := by cbv

end Formula
end ReactiveLayout
