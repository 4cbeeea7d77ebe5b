import Mathlib.Tactic.Common
import ReactiveLayout.Proofs.NameTable
import ReactiveLayout.Proofs.Tick

/-! What a resolution reports, told of all quantities at once. The settling goes through the table and the values last
reported side by side; here both are read by number, so that a report is the list of moves from a baseline and the next
baseline is the old one overwritten by these moves. -/
namespace ReactiveLayout
variable {K : Type} [Scalar K]

/-- The value last reported for a quantity, or zero if there is none. -/
def Scheduler.baseline (s : Scheduler K) (id : QuantityId) : K := s.reported.getD id 0

namespace Loop
variable (tolerance : K) (values : QuantityId → Option K) (baseline : QuantityId → K)

/-- The value of a quantity, if it has moved from a baseline. -/
def move? (id : QuantityId) : Option K := (values id).filter fun value => moved tolerance value (baseline id)

/-- The quantities that have moved from a baseline, with their values, in the order of their numbers. -/
def moves (t : QuantityTable K) : List (String × K) :=
  t.entries.zipIdx.filterMap fun entry => (move? tolerance values baseline entry.2).map fun value => (entry.1.name, value)

variable {tolerance values baseline}

theorem move?_eq_some_iff {id : QuantityId} {value : K} :
    move? tolerance values baseline id = some value ↔
      values id = some value ∧ moved tolerance value (baseline id) = true := by
  rw [move?, Option.filter_eq_some_iff]

theorem mem_moves {t : QuantityTable K} {name : String} {value : K} :
    (name, value) ∈ moves tolerance values baseline t ↔
      ∃ id q, t.entries[id]? = some q ∧ q.name = name ∧ move? tolerance values baseline id = some value := by
  simp only [moves, List.mem_filterMap, Option.map_eq_some_iff, Prod.mk.injEq]
  constructor
  · rintro ⟨⟨q, id⟩, member, _, moves, named, rfl⟩
    exact ⟨id, q, List.mem_zipIdx_iff_getElem?.mp member, named, moves⟩
  · rintro ⟨id, q, found, named, moves⟩
    exact ⟨(q, id), List.mem_zipIdx_iff_getElem?.mpr found, value, moves, named, rfl⟩

theorem names_moves_sublist (t : QuantityTable K) :
    ((moves tolerance values baseline t).map (·.1)).Sublist t.names := by
  have picked (entries : List (Quantity K × Nat)) :
      ((entries.filterMap fun entry => (move? tolerance values baseline entry.2).map fun value =>
        (entry.1.name, value)).map (·.1)).Sublist (entries.map (·.1.name)) := by
    induction entries with
    | nil => exact .slnil
    | cons entry rest ih =>
      cases settled : move? tolerance values baseline entry.2 with
      | none =>
        rw [List.filterMap_cons_none (by rw [settled, Option.map_none])]
        exact ih.cons _
      | some value =>
        rw [List.filterMap_cons_some (by rw [settled, Option.map_some])]
        exact ih.cons_cons _
  have names : t.entries.zipIdx.map (·.1.name) = t.names := by
    rw [QuantityTable.names, ← List.zipIdx_map_fst 0 t.entries, List.map_map, List.zipIdx_map_fst]
    rfl
  exact names ▸ picked t.entries.zipIdx

/-- With every name once, a name is looked up in the moves by its number. -/
theorem lookup_moves {t : QuantityTable K} (unique : t.names.Nodup) {id : QuantityId} {q : Quantity K}
    (found : t.entries[id]? = some q) :
    (moves tolerance values baseline t).lookup q.name = move? tolerance values baseline id := by
  have single : ((moves tolerance values baseline t).map (·.1)).Nodup := unique.sublist (names_moves_sublist t)
  cases settled : move? tolerance values baseline id with
  | some value => exact NameTable.lookup_of_mem single (mem_moves.mpr ⟨id, q, found, rfl, settled⟩)
  | none =>
    rw [← Option.not_isSome_iff_eq_none, NameTable.lookup_isSome_iff]
    intro listed
    obtain ⟨⟨_, value⟩, member, rfl⟩ := List.mem_map.mp listed
    obtain ⟨other, next, foundToo, named, moves⟩ := mem_moves.mp member
    have same : other = id := by
      have number := (QuantityTable.id?_eq_some_iff unique).mpr ⟨next, foundToo, named⟩
      exact Option.some.inj (number.symm.trans ((QuantityTable.id?_eq_some_iff unique).mpr ⟨q, found, rfl⟩))
    rw [← same, moves] at settled
    cases settled

section
variable {id : QuantityId} {reported : List K}

/-- The heads of the two lists are aligned with the baseline, and so are the tails. -/
theorem aligned_cons (aligned : ∀ i, baseline (id + i) = reported.getD i 0) :
    baseline id = reported.headD 0 ∧ ∀ i, baseline (id + 1 + i) = reported.tail.getD i 0 := by
  constructor
  · have first := aligned 0
    cases reported <;> exact first
  · intro i
    have next := aligned (i + 1)
    rw [← Nat.add_assoc, Nat.add_right_comm] at next
    cases reported <;> exact next

/-- One quantity is settled by its own move, and the later ones do not depend on it. -/
theorem settle_cons_eq (q : Quantity K) (rest : List (Quantity K)) (first : baseline id = reported.headD 0) :
    let later := settle tolerance values (id + 1) rest reported.tail
    let move := move? tolerance values baseline id
    settle tolerance values id (q :: rest) reported =
      ⟨{ q with value := (values id).getD q.value } :: later.entries, move.getD (baseline id) :: later.reported,
        (move.map fun value => (q.name, value)).toList ++ later.changes⟩ := by
  dsimp only
  rcases settle_cons tolerance values id q rest reported with ⟨known, same⟩ | ⟨value, known, far, same⟩ |
    ⟨value, known, near, same⟩
  · rw [same, move?, known, first]
    rfl
  · rw [same, move?, known, first, Option.filter_some, if_pos far]
    rfl
  · rw [same, move?, known, first, Option.filter_some, if_neg near]
    rfl

theorem settle_changes (entries : List (Quantity K)) (aligned : ∀ i, baseline (id + i) = reported.getD i 0) :
    (settle tolerance values id entries reported).changes = (entries.zipIdx id).filterMap fun entry =>
      (move? tolerance values baseline entry.2).map fun value => (entry.1.name, value) := by
  induction entries generalizing id reported with
  | nil => rfl
  | cons q rest ih =>
    obtain ⟨first, later⟩ := aligned_cons aligned
    rw [settle_cons_eq q rest first, List.zipIdx_cons, ih later]
    cases settled : move? tolerance values baseline id with
    | none =>
      rw [List.filterMap_cons_none (by rw [settled, Option.map_none])]
      rfl
    | some value =>
      rw [List.filterMap_cons_some (by rw [settled, Option.map_some])]
      rfl

theorem settle_reported (entries : List (Quantity K)) (aligned : ∀ i, baseline (id + i) = reported.getD i 0) (i : Nat) :
    (settle tolerance values id entries reported).reported.getD i 0 =
      if i < entries.length then (move? tolerance values baseline (id + i)).getD (baseline (id + i))
      else baseline (id + i) := by
  induction entries generalizing id reported i with
  | nil => exact (aligned i).symm
  | cons q rest ih =>
    obtain ⟨first, later⟩ := aligned_cons aligned
    rw [settle_cons_eq q rest first]
    cases i with
    | zero => rfl
    | succ i =>
      rw [List.getD_cons_succ, ih later, List.length_cons, Nat.add_right_comm id 1 i, ← Nat.add_assoc]
      simp only [Nat.add_lt_add_iff_right]

theorem length_settle_reported (entries : List (Quantity K)) :
    (settle tolerance values id entries reported).reported.length = max entries.length reported.length := by
  induction entries generalizing id reported with
  | nil => exact (Nat.zero_max _).symm
  | cons q rest ih =>
    rcases settle_cons tolerance values id q rest reported with ⟨_, same⟩ | ⟨_, _, _, same⟩ | ⟨_, _, _, same⟩
    all_goals
      rw [same, List.length_cons, ih, List.length_cons, List.length_tail]
      omega

end

variable {σ : Type} [Solver σ K] (l : Loop K σ)

omit [Solver σ K] in
theorem baseline_aligned (i : Nat) : l.scheduler.baseline (0 + i) = l.scheduler.reported.getD i 0 := by
  rw [Nat.zero_add, Scheduler.baseline]

theorem changes_collect : l.collect.1.changes =
    moves l.scheduler.tolerance (Solver.value? l.solver) l.scheduler.baseline l.quantities :=
  settle_changes l.quantities.entries (baseline_aligned l)

theorem baseline_collect (id : QuantityId) : l.collect.2.scheduler.baseline id =
    if id < l.quantities.size then
      (move? l.scheduler.tolerance (Solver.value? l.solver) l.scheduler.baseline id).getD (l.scheduler.baseline id)
    else l.scheduler.baseline id := by
  have settled : l.collect.2.scheduler.baseline id = _ :=
    settle_reported l.quantities.entries (baseline_aligned l) id
  rwa [Nat.zero_add] at settled

theorem reported_collect_length :
    l.collect.2.scheduler.reported.length = max l.quantities.size l.scheduler.reported.length :=
  length_settle_reported l.quantities.entries

end Loop
end ReactiveLayout
