import ReactiveLayout.Proofs.NameTable
import ReactiveLayout.Proofs.Rewriting

/-! Expressions that existed before the build. One is used by the name that it has in the scope, or by standing in the
array itself as a built term. Only the built term is checked: its quantities must exist, while what a name is bound to is
taken as it is. So both ways agree on an expression exactly when it mentions existing quantities only; any other is
accepted by name and refused wherever it stands itself. -/
namespace ReactiveLayout
open Formula

section
variable {K : Type}

/-- The name is bound to an expression that existed before the build, and to nothing that the build has made. -/
structure Scope.Assumes (s : Scope K) (name : String) (e : Affine K) : Prop where
  noQuantity : s.quantities.id? name = none
  noFormula : s.formulas.get? name = none
  prebuilt : s.prebuilt.get? name = some e

/-- One mention of a name makes room for an expression. -/
inductive Inlines (name : String) (e : Affine K) : List (Term K) → List (Term K) → Prop where
  | mention (front back : List (Term K)) :
      Inlines name e (front ++ .reference name :: back) (front ++ .built (.expression e) :: back)

/-- A term stands among some elements, at any depth. -/
inductive Holds (term : Term K) : List (Term K) → Prop where
  | here {elements : List (Term K)} (member : term ∈ elements) : Holds term elements
  | inside {inner elements : List (Term K)} (member : .array inner ∈ elements) (deeper : Holds term inner) :
      Holds term elements

end

variable {K : Type} [Scalar K] {s : Scope K} {name : String} {e : Affine K}

/-- Arrays and operands of rules come to the same whether they mention the name or have the expression in its place,
and one of the two is refused only if the other is. -/
def InlinesAlike (s : Scope K) (name : String) (e : Affine K) : Prop :=
  (∀ owner elements others, Rewrites (Inlines name e) elements others →
    ∀ x, compile owner elements s = .ok x ↔ compile owner others s = .ok x) ∧
  ∀ old new, Rewrites (Inlines name e) [old] [new] → ∀ x, Rule.operand s old = .ok x ↔ Rule.operand s new = .ok x

theorem Scope.Assumes.binding? (assumed : s.Assumes name e) : s.binding? name = some e := by
  unfold Scope.binding?
  rw [assumed.noQuantity, assumed.noFormula, assumed.prebuilt]

theorem Scope.Assumes.operand_iff (assumed : s.Assumes name e) {x : Affine K} :
    Operand s (.reference name) x ↔ x = e := by
  constructor
  · intro operand
    cases operand with
    | reference bound => exact Option.some.inj (bound.symm.trans assumed.binding?)
  · rintro rfl
    exact .reference assumed.binding?

theorem operand_expression_iff {x : Affine K} :
    Operand s (.built (.expression e)) x ↔ x = e ∧ ∀ id ∈ e.quantities, id < s.quantities.size :=
  operand_built_iff.trans Scope.accept_ok_iff

theorem inlines_keepsSentences (assumed : s.Assumes name e) (known : ∀ id ∈ e.quantities, id < s.quantities.size) :
    KeepsSentences s (Inlines name e) := by
  intro elements others inlines x
  cases inlines with
  | mention front back =>
    refine sentence_replace (by simp) (by simp) (fun x => ?_) front back x
    rw [assumed.operand_iff, operand_expression_iff, and_iff_left known]

theorem operand_of_mem {elements : List (Term K)} {x : Affine K} (sentence : Sentence s elements x) {term : Term K}
    (member : term ∈ elements) (noToken : ∀ token, term ≠ .token token) : ∃ y, Operand s term y := by
  obtain ⟨start, steps, stand, _⟩ := Formula.sentence_iff.mp sentence
  obtain ⟨i, bound, rfl⟩ := List.mem_iff_getElem.mp member
  have stands := stand.get bound (stand.length_eq ▸ bound)
  obtain ⟨y, _, operand⟩ := (stands_iff_of_noToken noToken).mp stands
  exact ⟨y, operand⟩

/-- What is no operand cannot stand in an accepted array at any depth. -/
theorem Holds.operand {term : Term K} (noToken : ∀ token, term ≠ .token token) {elements : List (Term K)}
    (holds : Holds term elements) {x : Affine K} (sentence : Sentence s elements x) : ∃ y, Operand s term y := by
  induction holds generalizing x with
  | here member => exact operand_of_mem sentence member noToken
  | inside member _ ih =>
    obtain ⟨y, nested⟩ := operand_of_mem sentence member (by simp)
    exact ih (operand_nested_iff.mp nested)

theorem inlinesAlike_of_known (assumed : s.Assumes name e) (known : ∀ id ∈ e.quantities, id < s.quantities.size) :
    InlinesAlike s name e := by
  refine ⟨fun owner elements others rewritten x => ?_, fun old new rewritten x => ?_⟩
  · exact rewritten.compile_iff (inlines_keepsSentences assumed known) owner x
  · rw [Rule.operand_ok_iff, Rule.operand_ok_iff]
    exact rewritten.operand_iff (inlines_keepsSentences assumed known) x

theorem known_of_inlinesAlike (assumed : s.Assumes name e) (alike : InlinesAlike s name e) :
    ∀ id ∈ e.quantities, id < s.quantities.size := by
  have named : Rule.operand s (.reference name) = .ok e := Rule.operand_ok_iff.mpr (assumed.operand_iff.mpr rfl)
  have inlined := (alike.2 _ _ (.step (.mention [] [])) e).mp named
  exact (operand_expression_iff.mp (Rule.operand_ok_iff.mp inlined)).2

omit [Scalar K] in
theorem refused_of_missing {missing : QuantityId}
    (found : e.quantities.find? (fun id => !s.quantities.contains id) = some missing) :
    s.accept e = .error (.missingReference (quantityText missing)) := by
  rw [Scope.accept, found]

theorem compile_refused {fault : CompileError K} (refused : s.accept e = .error fault) (owner : String) :
    compile owner [.built (.expression e)] s = .error fault := by
  simp only [compile, scan, piece, builtPiece, Scope.primitive, refused, Except.map]

/-- The two ways to use an expression that existed before agree exactly when it mentions existing quantities only. Any
other comes to itself by name, and as a term it is refused, for the first quantity that is missing, with all around it. -/
theorem inlinesAlike_iff_known (assumed : s.Assumes name e) :
    (InlinesAlike s name e ↔ ∀ id ∈ e.quantities, id < s.quantities.size) ∧
      ∀ missing, e.quantities.find? (fun id => !s.quantities.contains id) = some missing →
        (∀ owner, compile owner [.reference name] s = .ok e) ∧ Rule.operand s (.reference name) = .ok e ∧
        (∀ owner, compile owner [.built (.expression e)] s = .error (.missingReference (quantityText missing))) ∧
        Rule.operand s (.built (.expression e)) = .error (.missingReference (quantityText missing)) ∧
        ∀ owner elements, Holds (.built (.expression e)) elements → ∃ fault, compile owner elements s = .error fault := by
  refine ⟨⟨known_of_inlinesAlike assumed, inlinesAlike_of_known assumed⟩, fun missing found => ?_⟩
  have named : Operand s (.reference name) e := assumed.operand_iff.mpr rfl
  have refused := refused_of_missing found
  refine ⟨fun owner => compile_of_sentence (sentence_singleton_iff.mpr named), Rule.operand_ok_iff.mpr named,
    compile_refused refused, refused, fun owner elements holds => ?_⟩
  cases answer : compile owner elements s with
  | error fault => exact ⟨fault, rfl⟩
  | ok x =>
    obtain ⟨y, operand⟩ := holds.operand (by simp) (sentence_of_compile answer)
    have accepted : s.accept e = .ok y := operand_built_iff.mp operand
    rw [refused] at accepted
    cases accepted

/-- A scope with one quantity and two expressions, of which `edge` is another layout's. -/
def borrowing (K : Type) [Scalar K] : Scope K :=
  ⟨⟨[⟨"width", 0⟩]⟩, ∅, (NameTable.empty.insert "edge" (.quantity 5)).insert "breadth" (.quantity 0)⟩

theorem borrowing_assumes_edge : (borrowing K).Assumes "edge" (.quantity 5) :=
  ⟨rfl, rfl, by simp [borrowing, NameTable.get?_insert]⟩

theorem borrowing_assumes_breadth : (borrowing K).Assumes "breadth" (.quantity 0) :=
  ⟨rfl, rfl, NameTable.get?_insert_self _ _ _⟩

/-- `[["edge", "*", 2], "+", "width"]` with `edge` itself in the place of its name. -/
def borrowed : List (Term Rat) :=
  [.array [.built (.expression (.quantity 5)), .token (.operator .multiply), .number 2], .token (.operator .add),
    .reference "width"]

/-- By name `edge` is the sixth quantity of a layout that has one; `breadth` may be used either way. -/
theorem inlinesAlike_iff_known_borrowing :
    ((borrowing Rat).Assumes "edge" (.quantity 5) ∧ ¬ InlinesAlike (borrowing Rat) "edge" (.quantity 5) ∧
      (Affine.quantity 5 : Affine Rat).quantities.find? (fun id => !(borrowing Rat).quantities.contains id) = some 5 ∧
      compile "size" [.reference "edge"] (borrowing Rat) = .ok (.quantity 5) ∧
      compile "size" [.built (.expression (.quantity 5))] (borrowing Rat) = .error (.missingReference "q5") ∧
      Holds (.built (.expression (.quantity 5))) borrowed ∧
      ∃ fault, compile "size" borrowed (borrowing Rat) = .error fault) ∧
    (borrowing Rat).Assumes "breadth" (.quantity 0) ∧ InlinesAlike (borrowing Rat) "breadth" (.quantity 0) := by
  obtain ⟨alike, refused⟩ := inlinesAlike_iff_known (borrowing_assumes_edge (K := Rat))
  have foreign : ¬ ∀ id ∈ (Affine.quantity 5 : Affine Rat).quantities, id < (borrowing Rat).quantities.size := by
    decide +kernel
  have missing : (Affine.quantity 5 : Affine Rat).quantities.find? (fun id => !(borrowing Rat).quantities.contains id) =
      some 5 := by
    decide +kernel
  have holds : Holds (.built (.expression (.quantity 5))) borrowed :=
    .inside List.mem_cons_self (.here List.mem_cons_self)
  have known : ∀ id ∈ (Affine.quantity 0 : Affine Rat).quantities, id < (borrowing Rat).quantities.size := by
    decide +kernel
  obtain ⟨named, _, inlined, _, deeper⟩ := refused 5 missing
  exact ⟨⟨borrowing_assumes_edge, fun both => foreign (alike.mp both), missing, named "size", inlined "size", holds,
      deeper "size" borrowed holds⟩,
    borrowing_assumes_breadth, (inlinesAlike_iff_known borrowing_assumes_breadth).1.mpr known⟩

/-- Not every expression may be used either way: `edge` passes by name only. -/
theorem named_expression_unchecked :
    (∀ owner, compile owner [.reference "edge"] (borrowing Float) = .ok (.quantity 5)) ∧
      (∀ owner, compile owner [.built (.expression (.quantity 5))] (borrowing Float) = .error (.missingReference "q5")) ∧
      ¬ ∀ (s : Scope Float) (name : String) (e : Affine Float), s.Assumes name e → InlinesAlike s name e := by
  have missing : (Affine.quantity 5 : Affine Float).quantities.find?
      (fun id => !(borrowing Float).quantities.contains id) = some 5 := by
    decide +kernel
  have named : Operand (borrowing Float) (.reference "edge") (.quantity 5) := borrowing_assumes_edge.operand_iff.mpr rfl
  refine ⟨fun owner => compile_of_sentence (sentence_singleton_iff.mpr named),
    compile_refused (refused_of_missing missing), fun everywhere => ?_⟩
  have known := known_of_inlinesAlike borrowing_assumes_edge (everywhere _ _ _ borrowing_assumes_edge)
  revert known
  decide +kernel

end ReactiveLayout
