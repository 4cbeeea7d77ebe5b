import ReactiveLayout.Proofs.ReferenceGraph
import ReactiveLayout.Proofs.Rewriting

/-! Brackets that change nothing. Operators apply from left to right, so an array may be bracketed up to any of its
operands, and an array of one element is that element. The compiler of formulas, the one of rules and the planner each go
through nested arrays on their own; all three answer for the bracketed text what they answer for the plain one. -/
namespace ReactiveLayout

namespace Term
variable {K : Type}

/-- A term inside so many arrays of one element. -/
def nest : Nat → Term K → Term K
  | 0, term => term
  | depth + 1, term => .array [nest depth term]

@[simp] theorem references_nest (depth : Nat) (term : Term K) : (nest depth term).references = term.references := by
  induction depth with
  | zero => rfl
  | succ depth ih => simp only [nest, references, referencesOfAll, ih, List.append_nil]

end Term

namespace Formula

section
variable {K : Type}

/-- One place gets brackets: an operand any number of them, or an array one pair from its start to one of its operands,
which is at an odd length. -/
inductive Bracketed : List (Term K) → List (Term K) → Prop where
  | wrap (depth : Nat) (front back : List (Term K)) {operand : Term K} (noToken : ∀ token, operand ≠ .token token) :
      Bracketed (front ++ operand :: back) (front ++ operand.nest depth :: back)
  | group (front back : List (Term K)) (odd : front.length % 2 = 1) : Bracketed (front ++ back) (.array front :: back)

theorem Bracketed.references {elements others : List (Term K)} (bracketed : Bracketed elements others) :
    Term.referencesOfAll elements = Term.referencesOfAll others := by
  cases bracketed with
  | wrap depth front back noToken =>
    simp only [Plan.referencesOfAll_append, Term.referencesOfAll, Term.references_nest]
  | group front back odd => simp only [Plan.referencesOfAll_append, Term.referencesOfAll, Term.references]

theorem Rewrites.references {elements others : List (Term K)} (rewritten : Rewrites Bracketed elements others) :
    Term.referencesOfAll elements = Term.referencesOfAll others := by
  induction rewritten with
  | refl => rfl
  | step here => exact here.references
  | inside front back _ ih => simp only [Plan.referencesOfAll_append, Term.referencesOfAll, Term.references, ih]
  | trans _ _ first second => exact first.trans second

end

variable {K : Type} [Scalar K] {scope : Scope K}

theorem operand_nest_iff (depth : Nat) {term : Term K} {e : Affine K} :
    Operand scope (term.nest depth) e ↔ Operand scope term e := by
  induction depth with
  | zero => rfl
  | succ depth ih => exact operand_nested_iff.trans (sentence_singleton_iff.trans ih)

omit [Scalar K] in
theorem nest_noToken {term : Term K} (noToken : ∀ token, term ≠ .token token) (depth : Nat) :
    ∀ token, term.nest depth ≠ .token token := by
  cases depth with
  | zero => exact noToken
  | succ depth => simp [Term.nest]

/-- What follows a value in an array: operators, each with the operand behind it, which lead from the value to `e`. -/
def Continues (scope : Scope K) (value : Affine K) (elements : List (Term K)) (e : Affine K) : Prop :=
  ∃ steps : List (Operator × Affine K), List.Forall₂ (Stands (Operand scope)) elements
      (steps.flatMap fun step => [.operator step.1, .operand step.2]) ∧
    steps.foldlM (fun acc step => acc.apply step.1 step.2) value = .ok e

omit [Scalar K] in
theorem woven_append (start : Affine K) (early late : List (Operator × Affine K)) :
    woven start (early ++ late) =
      woven start early ++ late.flatMap fun step => [.operator step.1, .operand step.2] := by
  simp only [woven, List.flatMap_append, List.cons_append]

omit [Scalar K] in
theorem length_woven (start : Affine K) (steps : List (Operator × Affine K)) :
    (woven start steps).length = 2 * steps.length + 1 := by
  induction steps generalizing start with
  | nil => rfl
  | cons step rest ih =>
    rw [woven_cons, List.length_cons, List.length_cons, ih, List.length_cons]
    omega

/-- An array is read up to any operand first, and then on from what it came to there. -/
theorem sentence_append_iff {front back : List (Term K)} (odd : front.length % 2 = 1) {e : Affine K} :
    Sentence scope (front ++ back) e ↔ ∃ value, Sentence scope front value ∧ Continues scope value back e := by
  constructor
  · intro sentence
    obtain ⟨start, steps, stand, folded⟩ := sentence_iff.mp sentence
    have length := stand.length_eq
    rw [List.length_append, length_woven] at length
    obtain ⟨early, late, rfl, half⟩ : ∃ early late, steps = early ++ late ∧ 2 * early.length + 1 = front.length := by
      refine ⟨steps.take (front.length / 2), steps.drop (front.length / 2), (List.take_append_drop _ _).symm, ?_⟩
      rw [List.length_take]
      omega
    rw [← length_woven start] at half
    rw [woven_append] at stand
    obtain ⟨value, reached, further⟩ := foldlM_append_ok folded
    refine ⟨value, sentence_iff.mpr ⟨start, early, ?_, reached⟩, late, ?_, further⟩
    · simpa only [List.take_left, List.take_left' half] using List.forall₂_take front.length stand
    · simpa only [List.drop_left, List.drop_left' half] using List.forall₂_drop front.length stand
  · rintro ⟨value, first, late, later, further⟩
    obtain ⟨start, early, stand, reached⟩ := sentence_iff.mp first
    refine sentence_iff.mpr ⟨start, early ++ late, ?_, ?_⟩
    · rw [woven_append]
      exact List.rel_append stand later
    · rw [List.foldlM_append, reached]
      exact further

theorem bracketed_keepsSentences : KeepsSentences scope Bracketed := by
  intro elements others bracketed e
  cases bracketed with
  | wrap depth front back noToken =>
    exact sentence_replace noToken (nest_noToken noToken depth) (fun x => (operand_nest_iff depth).symm) front back e
  | group front back odd =>
    have single : [Term.array front].length % 2 = 1 := rfl
    rw [← List.singleton_append, sentence_append_iff odd, sentence_append_iff single]
    simp only [sentence_singleton_iff, operand_nested_iff]

omit [Scalar K] in
theorem Rewrites.mem_bracketed {elements others : List (Term K)} (rewritten : Rewrites Bracketed elements others) :
    (elements = [] ↔ others = []) ∧
      ∀ term ∈ others, term ∈ elements ∨ ∃ inner, inner ≠ [] ∧ term = .array inner := by
  induction rewritten with
  | refl => exact ⟨Iff.rfl, fun term member => .inl member⟩
  | step here =>
    cases here with
    | wrap depth front back noToken =>
      refine ⟨by simp, fun term member => ?_⟩
      rcases List.mem_append.mp member with early | late
      · exact .inl (List.mem_append_left _ early)
      · rcases List.mem_cons.mp late with rfl | behind
        · cases depth with
          | zero => exact .inl (List.mem_append_right _ List.mem_cons_self)
          | succ depth => exact .inr ⟨_, List.cons_ne_nil _ _, rfl⟩
        · exact .inl (List.mem_append_right _ (List.mem_cons_of_mem _ behind))
    | group front back odd =>
      have filled : front ≠ [] := by
        rintro rfl
        cases odd
      refine ⟨by simp [filled], fun term member => ?_⟩
      rcases List.mem_cons.mp member with rfl | behind
      · exact .inr ⟨front, filled, rfl⟩
      · exact .inl (List.mem_append_right _ behind)
  | inside front back deeper ih =>
    refine ⟨by simp, fun term member => ?_⟩
    rcases List.mem_append.mp member with early | late
    · exact .inl (List.mem_append_left _ early)
    · rcases List.mem_cons.mp late with rfl | behind
      · rename_i inner others
        by_cases empty : others = []
        · obtain rfl := ih.1.mpr empty
          exact .inl (List.mem_append_right _ (empty ▸ List.mem_cons_self))
        · exact .inr ⟨others, empty, rfl⟩
      · exact .inl (List.mem_append_right _ (List.mem_cons_of_mem _ behind))
  | trans _ _ first second =>
    refine ⟨first.1.trans second.1, fun term member => ?_⟩
    rcases second.2 term member with middle | array
    · exact first.2 term middle
    · exact .inr array

end Formula

namespace Rule
open Formula
variable {K : Type}

/-- Tuples with the same terms up to brackets in the left side, or in the right side of a relation. -/
inductive SideBracketed : List (Term K) → List (Term K) → Prop where
  | left {old new : Term K} (rewritten : Rewrites Bracketed [old] [new]) (rest : List (Term K)) :
      SideBracketed (old :: rest) (new :: rest)
  | right {old new : Term K} (left : Term K) (comparator : Comparator) (rewritten : Rewrites Bracketed [old] [new])
      (rest : List (Term K)) :
      SideBracketed (left :: .token (.comparator comparator) :: old :: rest)
        (left :: .token (.comparator comparator) :: new :: rest)

theorem leads_of_bracketed {old new : Term K} (rewritten : Rewrites Bracketed [old] [new]) (leads : Leads old) :
    Leads new := by
  rcases rewritten.mem_bracketed.2 new List.mem_cons_self with same | ⟨inner, filled, rfl⟩
  · exact List.mem_singleton.mp same ▸ leads
  · exact filled

variable [Scalar K] {scope : Scope K}

theorem operand_of_bracketed {old new : Term K} (rewritten : Rewrites Bracketed [old] [new]) {x : Affine K}
    (operand : Operand scope old x) : Operand scope new x :=
  (rewritten.operand_iff bracketed_keepsSentences x).mp operand

theorem writes_of_sideBracketed {tuple other : List (Term K)} (bracketed : SideBracketed tuple other) {rule : Rule K}
    (writes : Writes scope tuple rule) : Writes scope other rule := by
  cases bracketed with
  | left rewritten rest =>
    cases writes with
    | relation length first leads leftOperand second third rightOperand fourth fifth =>
      cases first
      exact .relation length rfl (leads_of_bracketed rewritten leads) (operand_of_bracketed rewritten leftOperand)
        second third rightOperand fourth fifth
    | stay length first leads operand second third =>
      cases first
      exact .stay length rfl (leads_of_bracketed rewritten leads) (operand_of_bracketed rewritten operand) second third
  | right left comparator rewritten rest =>
    cases writes with
    | relation length first leads leftOperand second third rightOperand fourth fifth =>
      cases third
      exact .relation length first leads leftOperand second rfl (operand_of_bracketed rewritten rightOperand) fourth
        fifth
    | stay length first leads operand second third => cases second

end Rule

namespace Plan
open Formula Term
variable {K : Type}

/-- Terms that are the same up to brackets inside an array. -/
inductive Rebracketed : Term K → Term K → Prop where
  | refl (term : Term K) : Rebracketed term term
  | array {elements others : List (Term K)} (rewritten : Rewrites Bracketed elements others) :
      Rebracketed (.array elements) (.array others)

def RebracketedTables (terms others : NameTable (Term K)) : Prop :=
  List.Forall₂ (fun entry other => entry.1 = other.1 ∧ Rebracketed entry.2 other.2) terms.entries others.entries

theorem RebracketedTables.names {terms others : NameTable (Term K)} (alike : RebracketedTables terms others) :
    terms.names = others.names := by
  unfold RebracketedTables at alike
  unfold NameTable.names
  generalize terms.entries = entries, others.entries = otherEntries at alike ⊢
  induction alike with
  | nil => rfl
  | cons first _ ih => rw [List.map_cons, List.map_cons, first.1, ih]

theorem RebracketedTables.get? {terms others : NameTable (Term K)} (alike : RebracketedTables terms others) (name : String) :
    Option.Rel Rebracketed (terms.get? name) (others.get? name) := by
  unfold RebracketedTables at alike
  unfold NameTable.get?
  generalize terms.entries = entries, others.entries = otherEntries at alike ⊢
  induction alike with
  | nil => exact .none
  | cons first _ ih =>
    rw [NameTable.lookup_cons, NameTable.lookup_cons, first.1]
    split
    · exact .some first.2
    · exact ih

/-- Brackets keep the graph of references: the names, the arrays among them and what these refer to. -/
theorem RebracketedTables.sameGraph {terms others : NameTable (Term K)} (alike : RebracketedTables terms others) :
    SameGraph terms others := by
  have arrays (name : String) : IsArray terms name ↔ IsArray others name := by
    have bound := alike.get? name
    unfold IsArray
    generalize terms.get? name = term, others.get? name = other at bound ⊢
    cases bound with
    | none => simp
    | some same => cases same <;> simp
  refine ⟨fun name => by rw [alike.names], arrays, fun name elements otherElements array otherArray => ?_⟩
  have bound := alike.get? name
  rw [array, otherArray] at bound
  have references : referencesOfAll elements = referencesOfAll otherElements := by
    cases bound with
    | some same =>
      cases same with
      | refl => rfl
      | array rewritten => exact rewritten.references
  have shapes (name : String) : (arrayOf? terms name).isSome = (arrayOf? others name).isSome :=
    Bool.eq_iff_iff.mpr (isSome_arrayOf?_iff.trans ((arrays name).trans isSome_arrayOf?_iff.symm))
  simp only [arrayReferences, references, shapes]

variable [Scalar K]

theorem atoms_rebracketed {entries others : List (String × Term K)}
    (alike : List.Forall₂ (fun entry other => entry.1 = other.1 ∧ Rebracketed entry.2 other.2) entries others) :
    atoms entries = atoms others := by
  induction alike with
  | nil => rfl
  | @cons entry other rest more first _ ih =>
    obtain ⟨name, term⟩ := entry
    obtain ⟨otherName, otherTerm⟩ := other
    obtain ⟨rfl, same⟩ := first
    cases same with
    | refl => rw [atoms, atoms, ih]
    | array rewritten => exact ih

theorem RebracketedTables.order {terms others : NameTable (Term K)} (alike : RebracketedTables terms others) :
    order terms = order others := by
  have visits : visit terms [] = visit others [] := by
    funext placed name
    exact alike.sameGraph.visit [] placed name
  rw [Plan.order, Plan.order, atoms_rebracketed alike, alike.names, visits]

end Plan

open Formula

variable {K : Type} [Scalar K]

/-- Arrays that differ in brackets only compile alike, an accepted rule stays the rule that it is when one of its sides
gets brackets, and the order in which a table is built, or what stands against one, does not hang on the brackets in its
arrays. -/
theorem redundant_brackets :
    (∀ (scope : Scope K) (owner : String) (elements others : List (Term K)), Rewrites Bracketed elements others →
      ∀ e, compile owner elements scope = .ok e ↔ compile owner others scope = .ok e) ∧
    (∀ (scope : Scope K) (tuple other : List (Term K)) (rule : Rule K), Rule.SideBracketed tuple other →
      Rule.compile scope tuple = .ok rule → Rule.compile scope other = .ok rule) ∧
    ∀ terms others : NameTable (Term K), Plan.RebracketedTables terms others → Plan.order terms = Plan.order others := by
  refine ⟨fun scope owner elements others rewritten e => ?_, fun scope tuple other rule bracketed compiled => ?_,
    fun terms others alike => alike.order⟩
  · exact rewritten.compile_iff bracketed_keepsSentences owner e
  · exact Rule.compile_of_writes (Rule.writes_of_sideBracketed bracketed (Rule.writes_of_compile compiled))

/-- `[[2, "*", "width"], "+", 3, "*", 4]`. -/
def plainArray : List (Term Rat) :=
  [.array [.number 2, .token (.operator .multiply), .reference "width"], .token (.operator .add), .number 3,
    .token (.operator .multiply), .number 4]

/-- `[[[2, "*", [["width"]]], "+", 3], "*", 4]`. -/
def bracketedArray : List (Term Rat) :=
  [.array [.array [.number 2, .token (.operator .multiply), .array [.array [.reference "width"]]],
      .token (.operator .add), .number 3],
    .token (.operator .multiply), .number 4]

theorem plainArray_bracketed : Rewrites Bracketed plainArray bracketedArray := by
  have wrapped : Rewrites Bracketed [.number 2, .token (.operator .multiply), .reference "width"]
      [.number (2 : Rat), .token (.operator .multiply), .array [.array [.reference "width"]]] :=
    .step (.wrap 2 [.number 2, .token (.operator .multiply)] [] (by simp))
  exact .trans (.inside [] _ wrapped) (.step (.group [_, .token (.operator .add), .number 3] _ rfl))

def widthScope : Scope Rat := ⟨⟨[⟨"width", 5⟩]⟩, ∅, ∅⟩

/-- `area` is built from `width`, which is an array itself. -/
def areaTable (area : List (Term Rat)) : NameTable (Term Rat) :=
  .ofList [("area", .array area), ("width", .array [.number 5])]

/-- Both arrays come to `8 * width + 12`. -/
theorem redundant_brackets_area :
    (Rewrites Bracketed plainArray bracketedArray ∧ compile "area" plainArray widthScope = .ok ⟨[(0, 8)], 12⟩ ∧
      compile "area" bracketedArray widthScope = .ok ⟨[(0, 8)], 12⟩) ∧
    (Rule.SideBracketed [.reference "width", .token (.comparator .equal), .array plainArray]
        [.reference "width", .token (.comparator .equal), .array bracketedArray] ∧
      Rule.compile widthScope [.reference "width", .token (.comparator .equal), .array plainArray] =
        .ok ⟨.relation ⟨[(0, 1)], 0⟩ .equal ⟨[(0, 8)], 12⟩, .medium, 0⟩ ∧
      Rule.compile widthScope [.reference "width", .token (.comparator .equal), .array bracketedArray] =
        .ok ⟨.relation ⟨[(0, 1)], 0⟩ .equal ⟨[(0, 8)], 12⟩, .medium, 0⟩) ∧
    Plan.RebracketedTables (areaTable plainArray) (areaTable bracketedArray) ∧
    Plan.order (areaTable plainArray) = .ok ⟨["width", "area"]⟩ ∧
    Plan.order (areaTable bracketedArray) = .ok ⟨["width", "area"]⟩ := by
  obtain ⟨arrays, rules, plans⟩ := redundant_brackets (K := Rat)
  have array : compile "area" plainArray widthScope = .ok ⟨[(0, 8)], 12⟩ := by cbv
  have side : Rule.SideBracketed [.reference "width", .token (.comparator .equal), .array plainArray]
      [.reference "width", .token (.comparator .equal), .array bracketedArray] :=
    .right _ .equal (.inside [] [] plainArray_bracketed) []
  have rule : Rule.compile widthScope [.reference "width", .token (.comparator .equal), .array plainArray] =
      .ok ⟨.relation ⟨[(0, 1)], 0⟩ .equal ⟨[(0, 8)], 12⟩, .medium, 0⟩ := by cbv
  have tables : Plan.RebracketedTables (areaTable plainArray) (areaTable bracketedArray) := by
    exact .cons ⟨rfl, .array plainArray_bracketed⟩ (.cons ⟨rfl, .refl _⟩ .nil)
  have plan : Plan.order (areaTable plainArray) = .ok ⟨["width", "area"]⟩ := by cbv
  exact ⟨⟨plainArray_bracketed, array, (arrays widthScope "area" _ _ plainArray_bracketed _).mp array⟩,
    ⟨side, rule, rules widthScope _ _ _ side rule⟩, tables, plan, (plans _ _ tables).symm.trans plan⟩

end ReactiveLayout
