import Mathlib.Data.List.Basic
import ReactiveLayout.Affine

/-! The form in which expressions are stored. It hangs on the tests for zero behind every sum and every product and on
no law of arithmetic, so rounding, underflow and values that are no numbers leave it as it is. -/
namespace ReactiveLayout.Affine
variable {K : Type} [Scalar K]

/-- What a binary operation on two expressions can come to. -/
inductive Combines (a b : Affine K) : Affine K → Prop where
  | plus : Combines a b (a.plus b)
  | minus : Combines a b (a.minus b)
  | times {e : Affine K} (multiplied : a.times b = .ok e) : Combines a b e
  | divide {e : Affine K} (divided : a.divide b = .ok e) : Combines a b e
  | apply {op : Operator} {e : Affine K} (applied : a.apply op b = .ok e) : Combines a b e

/-- The expressions that can be made out of numbers and quantities. -/
inductive Arises : Affine K → Prop where
  | constant (value : K) : Arises (.constant value)
  | quantity (id : QuantityId) : Arises (.quantity id)
  | term (id : QuantityId) (coefficient : K) : Arises (.term id coefficient)
  | neg {e : Affine K} (arises : Arises e) : Arises e.neg
  | combined {a b e : Affine K} (left : Arises a) (right : Arises b) (combines : Combines a b e) : Arises e

/-- All binary operations come down to sums and multiples of their operands. -/
theorem Combines.sum_or_multiple {a b e : Affine K} (combines : Combines a b e) :
    e = a.plus b ∨ e = a.plus (b.scale (-1)) ∨ ∃ factor, e = a.scale factor ∨ e = b.scale factor := by
  have product {e : Affine K} (multiplied : a.times b = .ok e) : ∃ factor, e = a.scale factor ∨ e = b.scale factor := by
    rw [Affine.times] at multiplied
    split at multiplied
    · cases multiplied
      exact ⟨b.offset, .inl rfl⟩
    · split at multiplied
      · cases multiplied
        exact ⟨a.offset, .inr rfl⟩
      · cases multiplied
  have quotient {e : Affine K} (divided : a.divide b = .ok e) : ∃ factor, e = a.scale factor ∨ e = b.scale factor := by
    rw [Affine.divide] at divided
    split at divided
    · cases divided
    · split at divided
      · cases divided
      · dsimp only at divided
        split at divided
        · cases divided
          exact ⟨1 / b.offset, .inl rfl⟩
        · cases divided
  cases combines with
  | plus => exact .inl rfl
  | minus => exact .inr (.inl rfl)
  | times multiplied => exact .inr (.inr (product multiplied))
  | divide divided => exact .inr (.inr (quotient divided))
  | @apply op _ applied =>
    cases op with
    | add =>
      cases applied
      exact .inl rfl
    | subtract =>
      cases applied
      exact .inr (.inl rfl)
    | multiply => exact .inr (.inr (product applied))
    | divide => exact .inr (.inr (quotient applied))

theorem mem_addTerm {id : QuantityId} {coefficient : K} {terms : List (QuantityId × K)} {t : QuantityId × K}
    (member : t ∈ addTerm id coefficient terms) : t.1 = id ∨ t ∈ terms := by
  have fresh {rest : List (QuantityId × K)}
      (member : t ∈ if (0 + coefficient == 0) then rest else (id, 0 + coefficient) :: rest) : t.1 = id ∨ t ∈ rest := by
    split at member
    · exact .inr member
    · rcases List.mem_cons.mp member with rfl | later
      · exact .inl rfl
      · exact .inr later
  induction terms with
  | nil => exact fresh member
  | cons first rest ih =>
    obtain ⟨other, c⟩ := first
    rw [addTerm] at member
    split at member
    · exact fresh member
    · split at member
      · rename_i same
        split at member
        · exact .inr (List.mem_cons_of_mem _ member)
        · rcases List.mem_cons.mp member with rfl | later
          · exact .inl same.symm
          · exact .inr (List.mem_cons_of_mem _ later)
      · rcases List.mem_cons.mp member with rfl | later
        · exact .inr List.mem_cons_self
        · exact (ih later).imp_right (List.mem_cons_of_mem _)

theorem quantities_quantity {id other : QuantityId} (member : other ∈ (quantity id : Affine K).quantities) :
    other = id := by
  obtain ⟨t, among, rfl⟩ := List.mem_map.mp member
  exact (mem_addTerm among).resolve_right List.not_mem_nil

theorem quantities_plus {a b : Affine K} {id : QuantityId} (member : id ∈ (a.plus b).quantities) :
    id ∈ a.quantities ∨ id ∈ b.quantities := by
  have folded (added terms : List (QuantityId × K)) {t : QuantityId × K}
      (member : t ∈ added.foldl (fun terms t => addTerm t.1 t.2 terms) terms) :
      t ∈ terms ∨ t.1 ∈ added.map (·.1) := by
    induction added generalizing terms with
    | nil => exact .inl member
    | cons first rest ih =>
      rcases ih (addTerm first.1 first.2 terms) member with early | late
      · rcases mem_addTerm early with new | old
        · exact .inr (new ▸ List.mem_cons_self)
        · exact .inl old
      · exact .inr (List.mem_cons_of_mem _ late)
  obtain ⟨t, among, rfl⟩ := List.mem_map.mp member
  exact (folded b.terms a.terms among).imp_left List.mem_map_of_mem

theorem quantities_scale {e : Affine K} {factor : K} {id : QuantityId} (member : id ∈ (e.scale factor).quantities) :
    id ∈ e.quantities := by
  obtain ⟨t, among, rfl⟩ := List.mem_map.mp member
  obtain ⟨source, stored, rfl⟩ := List.mem_map.mp (List.mem_filter.mp among).1
  exact List.mem_map.mpr ⟨source, stored, rfl⟩

theorem Combines.quantities {a b e : Affine K} (combines : Combines a b e) {id : QuantityId}
    (member : id ∈ e.quantities) : id ∈ a.quantities ∨ id ∈ b.quantities := by
  rcases combines.sum_or_multiple with rfl | rfl | ⟨factor, rfl | rfl⟩
  · exact quantities_plus member
  · exact (quantities_plus member).imp_right quantities_scale
  · exact .inl (quantities_scale member)
  · exact .inr (quantities_scale member)

/-- Terms by increasing quantity, none of whose coefficients equals zero. -/
structure IsNormal (terms : List (QuantityId × K)) : Prop where
  increasing : terms.Pairwise fun s t => s.1 < t.1
  nonzero : ∀ t ∈ terms, (t.2 == 0) = false

theorem isNormal_nil : IsNormal ([] : List (QuantityId × K)) := ⟨.nil, fun _ member => (nomatch member)⟩

theorem isNormal_cons {first : QuantityId × K} {rest : List (QuantityId × K)} :
    IsNormal (first :: rest) ↔ (∀ t ∈ rest, first.1 < t.1) ∧ (first.2 == 0) = false ∧ IsNormal rest := by
  constructor
  · rintro ⟨increasing, nonzero⟩
    obtain ⟨below, increasing⟩ := List.pairwise_cons.mp increasing
    exact ⟨below, nonzero first List.mem_cons_self, increasing, fun t later => nonzero t (List.mem_cons_of_mem _ later)⟩
  · rintro ⟨below, head, increasing, nonzero⟩
    refine ⟨List.pairwise_cons.mpr ⟨below, increasing⟩, fun t member => ?_⟩
    rcases List.mem_cons.mp member with rfl | later
    · exact head
    · exact nonzero t later

/-- The cases are those of the insertion: in front of all terms, at the term of the quantity, or further behind. -/
theorem IsNormal.addTerm {terms : List (QuantityId × K)} (normal : IsNormal terms) (id : QuantityId) (coefficient : K) :
    IsNormal (Affine.addTerm id coefficient terms) := by
  have fresh {rest : List (QuantityId × K)} (normal : IsNormal rest) (below : ∀ t ∈ rest, id < t.1) :
      IsNormal (if (0 + coefficient == 0) then rest else (id, 0 + coefficient) :: rest) := by
    split
    · exact normal
    · rename_i nonzero
      exact isNormal_cons.mpr ⟨below, Bool.eq_false_iff.mpr nonzero, normal⟩
  induction terms with
  | nil => exact fresh isNormal_nil fun _ member => (nomatch member)
  | cons first rest ih =>
    obtain ⟨other, c⟩ := first
    obtain ⟨below, head, later⟩ := isNormal_cons.mp normal
    rw [Affine.addTerm]
    split
    · rename_i inFront
      refine fresh normal fun t member => ?_
      rcases List.mem_cons.mp member with rfl | behind
      · exact inFront
      · exact Nat.lt_trans inFront (below t behind)
    · rename_i notBefore
      split
      · split
        · exact later
        · rename_i nonzero
          exact isNormal_cons.mpr ⟨below, Bool.eq_false_iff.mpr nonzero, later⟩
      · rename_i different
        refine isNormal_cons.mpr ⟨fun t member => ?_, head, ih later⟩
        rcases mem_addTerm member with new | old
        · exact new ▸ Nat.lt_of_le_of_ne (Nat.le_of_not_lt notBefore) (Ne.symm different)
        · exact below t old

theorem IsNormal.plus {a : Affine K} (normal : IsNormal a.terms) (b : Affine K) : IsNormal (a.plus b).terms :=
  List.foldlRecOn (motive := IsNormal) b.terms _ normal fun _ normal t _ => normal.addTerm t.1 t.2

theorem IsNormal.scale {e : Affine K} (normal : IsNormal e.terms) (factor : K) : IsNormal (e.scale factor).terms where
  increasing :=
    have scaled : (e.terms.map fun t => (t.1, t.2 * factor)).Pairwise fun s t => s.1 < t.1 :=
      List.pairwise_map.mpr normal.increasing
    scaled.filter _
  nonzero _ member := by simpa using (List.mem_filter.mp member).2

theorem Arises.normal {e : Affine K} (arises : Arises e) : IsNormal e.terms := by
  induction arises with
  | constant => exact isNormal_nil
  | quantity id => exact isNormal_nil.addTerm id 1
  | term id coefficient => exact isNormal_nil.addTerm id coefficient
  | neg _ ih => exact ih.scale (-1)
  | @combined a b _ _ _ combines left right =>
    rcases combines.sum_or_multiple with rfl | rfl | ⟨factor, rfl | rfl⟩
    · exact left.plus b
    · exact left.plus (b.scale (-1))
    · exact left.scale factor
    · exact right.scale factor

theorem coefficient_of_mem {e : Affine K} (normal : IsNormal e.terms) {t : QuantityId × K} (member : t ∈ e.terms) :
    e.coefficient t.1 = t.2 := by
  obtain ⟨terms, offset⟩ := e
  rw [coefficient]
  induction terms with
  | nil => cases member
  | cons first rest ih =>
    obtain ⟨below, _, later⟩ := isNormal_cons.mp normal
    rw [List.lookup_cons]
    rcases List.mem_cons.mp member with rfl | behind
    · rw [beq_self_eq_true, Option.getD_some]
    · rw [beq_eq_false_iff_ne.mpr (Nat.ne_of_gt (below t behind))]
      exact ih later behind

theorem coefficient_of_notMem {e : Affine K} {id : QuantityId} (absent : id ∉ e.quantities) : e.coefficient id = 0 := by
  have unknown : e.terms.lookup id = none := by
    rw [List.lookup_eq_none_iff]
    intro t member
    exact bne_iff_ne.mpr fun same => absent (List.mem_map.mpr ⟨t, member, same.symm⟩)
  rw [coefficient, unknown, Option.getD_none]

/-- How an expression is stored, and what its readers make of that. -/
structure WellStored (e : Affine K) : Prop where
  nonzero : ∀ t ∈ e.terms, (t.2 == 0) = false
  increasing : e.quantities.Pairwise (· < ·)
  stored : ∀ t ∈ e.terms, e.coefficient t.1 = t.2
  missing : ∀ id, id ∉ e.quantities → e.coefficient id = 0
  constant : e.isConstant = true ↔ e.quantities = []

/-- No zero coefficient is ever stored, whatever numbers an expression was made of: each is well stored, and the result
of a binary operation mentions only quantities of its operands. -/
theorem arises_wellStored :
    (∀ e : Affine K, Arises e → WellStored e) ∧
      ∀ a b e : Affine K, Combines a b e → ∀ id ∈ e.quantities, id ∈ a.quantities ∨ id ∈ b.quantities := by
  refine ⟨fun e arises => ?_, fun a b e combines id member => combines.quantities member⟩
  have normal := arises.normal
  refine ⟨normal.nonzero, List.pairwise_map.mpr normal.increasing, fun t member => coefficient_of_mem normal member,
    fun id absent => coefficient_of_notMem absent, ?_⟩
  rw [isConstant, List.isEmpty_iff, Affine.quantities, List.map_eq_nil_iff]

/-- A quantity cancels, a coefficient that is no number stays, and the smallest coefficient is lost in a product. -/
theorem arises_wellStored_float :
    let noNumber : Affine Float := .term 2 (0.0 / 0.0)
    let sum := ((Affine.quantity 0).plus noNumber).plus (.term 1 5e-324)
    let difference := sum.minus (.quantity 0)
    let product := difference.scale 0.25
    (difference.quantities = [1, 2] ∧ WellStored difference) ∧ (product.quantities = [2] ∧ WellStored product) ∧
      ∀ id ∈ product.quantities,
        id ∈ difference.quantities ∨ id ∈ (Affine.constant 0.25 : Affine Float).quantities := by
  intro noNumber sum difference product
  have summed : Arises sum :=
    .combined (.combined (.quantity 0) (.term 2 (0.0 / 0.0)) .plus) (.term 1 5e-324) .plus
  have cancelled : Arises difference := .combined summed (.quantity 0) .minus
  have multiplied : Combines difference (.constant 0.25) product := .times rfl
  exact ⟨⟨by decide +kernel, arises_wellStored.1 difference cancelled⟩,
    ⟨by decide +kernel, arises_wellStored.1 product (.combined cancelled (.constant 0.25) multiplied)⟩,
    arises_wellStored.2 difference (.constant 0.25) product multiplied⟩

end ReactiveLayout.Affine
