import Mathlib
import ReactiveLayout.Proofs.FormulaGrammar

/-! The pieces that the scan of an array hands to the fold. The scan looks one piece back before it takes an operator, so
in its pieces every operator stands behind an operand. The fold takes an operand and then an operator and an operand at a
time; of its errors, that of a leading operator is out of reach, and that of an operator without a right-hand operand is
left for the last element of the array. -/
namespace ReactiveLayout.Formula
variable {K : Type} [Scalar K] {owner : String} {scope : Scope K} {previous : Option (Piece K)}

theorem previous_of_piece_operator {term : Term K} {op : Operator}
    (read : piece owner scope previous term = .ok (.operator op)) : ∃ e, previous = some (.operand e) := by
  cases stands_of_piece term read
  simp only [piece, tokenPiece] at read
  unfold operatorPiece at read
  split at read
  · rename_i e
    exact ⟨e, rfl⟩
  · cases read

/-- In front of an operator stands an operand, or `previous` is one where the operator is the first piece. -/
theorem operand_of_scan_operator {elements : List (Term K)} {pieces : List (Piece K)}
    (scanned : scan owner scope previous elements = .ok pieces) {i : Nat} {op : Operator}
    (here : pieces[i]? = some (.operator op)) : ∃ e, (previous :: pieces.map some)[i]? = some (some (.operand e)) := by
  -- With each element the scan moves on, and so does what is meant by `previous`.
  induction elements generalizing previous pieces i with
  | nil =>
    rw [scan] at scanned
    cases scanned
    cases here
  | cons term rest ih =>
    obtain ⟨first, later, read, run, rfl⟩ := scan_cons_ok_iff.mp scanned
    cases i with
    | zero =>
      cases here
      obtain ⟨e, rfl⟩ := previous_of_piece_operator read
      exact ⟨e, rfl⟩
    | succ i => exact ih run here

theorem Stands.operator_iff {term : Term K} {p : Piece K} (stands : Stands (Operand scope) term p) (op : Operator) :
    p = .operator op ↔ term = .token (.operator op) := by
  cases stands with
  | operand operand =>
    refine iff_of_false nofun ?_
    rintro rfl
    cases operand
  | operator other => simp

theorem getElem?_operator_iff {elements : List (Term K)} {pieces : List (Piece K)}
    (stand : List.Forall₂ (Stands (Operand scope)) elements pieces) (i : Nat) (op : Operator) :
    pieces[i]? = some (.operator op) ↔ elements[i]? = some (.token (.operator op)) := by
  induction stand generalizing i with
  | nil => simp
  | cons first _ ih =>
    cases i with
    | zero => simpa using first.operator_iff op
    | succ i => exact ih i

/-- Pieces as the fold takes them: one for each element, an operator exactly where its token stands, but none in front and
none behind another. -/
structure WellShaped (elements : List (Term K)) (pieces : List (Piece K)) : Prop where
  length : pieces.length = elements.length
  operators : ∀ (i : Nat) (op : Operator), pieces[i]? = some (.operator op) ↔ elements[i]? = some (.token (.operator op))
  front : ∀ op : Operator, pieces.head? ≠ some (.operator op)
  apart : ∀ (i : Nat) (op other : Operator), pieces[i]? = some (.operator op) → pieces[i + 1]? ≠ some (.operator other)

theorem wellShaped_of_scan {elements : List (Term K)} {pieces : List (Piece K)}
    (scanned : scan owner scope none elements = .ok pieces) : WellShaped elements pieces where
  length := (stands_of_scan elements scanned).length_eq.symm
  operators := getElem?_operator_iff (stands_of_scan elements scanned)
  front op here := by
    rw [List.head?_eq_getElem?] at here
    obtain ⟨e, before⟩ := operand_of_scan_operator scanned here
    cases before
  apart i op other here next := by
    obtain ⟨e, before⟩ := operand_of_scan_operator scanned next
    rw [List.getElem?_cons_succ, List.getElem?_map, here] at before
    cases before

omit [Scalar K] in
theorem WellShaped.rest_eq_nil {elements : List (Term K)} {front rest : List (Piece K)} {op : Operator}
    (shaped : WellShaped elements (front ++ .operator op :: rest)) (alone : ∀ x, rest.head? ≠ some (.operand x)) :
    rest = [] := by
  cases rest with
  | nil => rfl
  | cons next later =>
    cases next with
    | operand x => exact absurd rfl (alone x)
    | operator other =>
      refine absurd ?_ (shaped.apart front.length op other (by simp))
      rw [List.getElem?_append_right (by omega)]
      simp

omit [Scalar K] in
theorem WellShaped.getLast?_eq {elements : List (Term K)} {front : List (Piece K)} {op : Operator}
    (shaped : WellShaped elements (front ++ [.operator op])) : elements.getLast? = some (.token (.operator op)) := by
  have length : elements.length = front.length + 1 := by simpa using shaped.length.symm
  rw [List.getLast?_eq_getElem?, length]
  exact (shaped.operators front.length op).mp (by simp)

theorem reduceFrom_alone (acc : Affine K) (op : Operator) {rest : List (Piece K)}
    (alone : ∀ x, rest.head? ≠ some (.operand x)) :
    reduceFrom owner acc (.operator op :: rest) = .error (.malformedFormula owner (.missingRight op)) := by
  cases rest with
  | nil => rfl
  | cons next later =>
    cases next with
    | operand x => exact absurd rfl (alone x)
    | operator other => rfl

/-- The fold misses a right-hand operand at the first operator that no operand stands behind, once the steps in front of it
have been applied. -/
theorem reduceFrom_missingRight_iff {acc : Affine K} {pieces : List (Piece K)} {name : String} {op : Operator} :
    reduceFrom owner acc pieces = .error (.malformedFormula name (.missingRight op)) ↔
      name = owner ∧ ∃ (steps : List (Operator × Affine K)) (rest : List (Piece K)),
        pieces = steps.flatMap (fun step => [.operator step.1, .operand step.2]) ++ .operator op :: rest ∧
          (∃ e, steps.foldlM (fun acc step => acc.apply step.1 step.2) acc = .ok e) ∧ ∀ x, rest.head? ≠ some (.operand x) := by
  constructor
  · intro missing
    fun_induction reduceFrom owner acc pieces with
    | case1 | case2 | case5 => cases missing
    | case3 acc first operand pieces next applied ih =>
      obtain ⟨own, steps, rest, rfl, ⟨e, folded⟩, alone⟩ := ih missing
      refine ⟨own, (first, operand) :: steps, rest, rfl, ⟨e, ?_⟩, alone⟩
      rw [List.foldlM_cons, applied]
      exact folded
    | case4 acc first pieces unpaired =>
      cases missing
      refine ⟨rfl, [], pieces, rfl, ⟨acc, rfl⟩, fun x here => ?_⟩
      obtain ⟨later, rfl⟩ := List.head?_eq_some_iff.mp here
      exact unpaired x later rfl
  · rintro ⟨rfl, steps, rest, rfl, ⟨e, folded⟩, alone⟩
    rw [reduceFrom_append, folded]
    exact reduceFrom_alone e op alone

theorem reduceFrom_ne_missingLeft (acc : Affine K) (pieces : List (Piece K)) (name : String) (op : Operator) :
    reduceFrom owner acc pieces ≠ .error (.malformedFormula name (.missingLeft op)) := by
  fun_induction reduceFrom owner acc pieces with
  | case3 acc first operand pieces next applied ih => exact ih
  | case1 | case2 | case4 | case5 =>
    intro impossible
    cases impossible

theorem WellShaped.reduce_ne_missingLeft {elements : List (Term K)} {pieces : List (Piece K)}
    (shaped : WellShaped elements pieces) (name : String) (op : Operator) :
    reduce owner pieces ≠ .error (.malformedFormula name (.missingLeft op)) := by
  cases pieces with
  | nil =>
    intro impossible
    cases impossible
  | cons first rest =>
    cases first with
    | operator other => exact absurd rfl (shaped.front other)
    | operand e => exact reduceFrom_ne_missingLeft e rest name op

theorem WellShaped.reduce_missingRight_iff {elements : List (Term K)} {pieces : List (Piece K)}
    (shaped : WellShaped elements pieces) (name : String) (op : Operator) :
    reduce owner pieces = .error (.malformedFormula name (.missingRight op)) ↔
      name = owner ∧ ∃ start steps, pieces = woven start steps ++ [.operator op] ∧
        ∃ e, steps.foldlM (fun acc step => acc.apply step.1 step.2) start = .ok e := by
  cases pieces with
  | nil =>
    constructor
    · intro impossible
      cases impossible
    · rintro ⟨-, start, steps, same, -⟩
      cases same
  | cons first behind =>
    cases first with
    | operator other => exact absurd rfl (shaped.front other)
    | operand x =>
      rw [reduce, reduceFrom_missingRight_iff]
      refine and_congr_right fun _ => ?_
      constructor
      · rintro ⟨steps, rest, rfl, folded, alone⟩
        rw [← List.cons_append] at shaped
        obtain rfl := shaped.rest_eq_nil alone
        exact ⟨x, steps, rfl, folded⟩
      · rintro ⟨start, steps, same, folded⟩
        cases same
        refine ⟨steps, [], rfl, folded, fun e here => ?_⟩
        cases here

/-- Where the scan of an array gets to its end, its pieces are well shaped, and the array comes to what they fold to. The
fold then never finds an operator in front, and an operator without a right-hand operand is the last element, met when all
steps in front of it have been applied. -/
theorem scan_wellShaped (owner : String) (elements : List (Term K)) (scope : Scope K) (pieces : List (Piece K))
    (scanned : scan owner scope none elements = .ok pieces) :
    compile owner elements scope = reduce owner pieces ∧ WellShaped elements pieces ∧
      (∀ name op, reduce owner pieces ≠ .error (.malformedFormula name (.missingLeft op))) ∧
      ∀ name op, reduce owner pieces = .error (.malformedFormula name (.missingRight op)) ↔
        name = owner ∧ elements.getLast? = some (.token (.operator op)) ∧ ∃ start steps,
          pieces = woven start steps ++ [.operator op] ∧
            ∃ e, steps.foldlM (fun acc step => acc.apply step.1 step.2) start = .ok e := by
  have shaped := wellShaped_of_scan scanned
  refine ⟨by rw [compile, scanned], shaped, shaped.reduce_ne_missingLeft, fun name op => ?_⟩
  rw [shaped.reduce_missingRight_iff]
  refine and_congr_right fun _ => (and_iff_right_of_imp ?_).symm
  rintro ⟨start, steps, rfl, -⟩
  exact shaped.getLast?_eq

/-- The scan takes an operator at the end of an array, and leaves it to the fold to refuse it. -/
theorem scan_wellShaped_dangling :
    let elements : List (Term Rat) := [.number 2, .token (.operator .add),
      .array [.number 3, .token (.operator .multiply), .number 4], .token (.operator .subtract)]
    ∃ pieces : List (Piece Rat), scan "size" ⟨.empty, ∅, ∅⟩ none elements = .ok pieces ∧ WellShaped elements pieces ∧
      compile "size" elements ⟨.empty, ∅, ∅⟩ = .error (.malformedFormula "size" (.missingRight .subtract)) := by
  intro elements
  have scanned : scan "size" (⟨.empty, ∅, ∅⟩ : Scope Rat) none elements =
      .ok (woven (.constant 2) [(.add, .constant 12)] ++ [.operator .subtract]) := by cbv
  obtain ⟨folds, shaped, -, missing⟩ := scan_wellShaped "size" elements ⟨.empty, ∅, ∅⟩ _ scanned
  refine ⟨_, scanned, shaped, ?_⟩
  rw [folds, missing]
  exact ⟨rfl, rfl, _, _, rfl, .constant 14, by cbv⟩

end ReactiveLayout.Formula
