import Mathlib
import ReactiveLayout.Proofs.References

/-! Lists without repeats that stand for lists with them: each element once, in the order of first occurrence. Where one
more element comes up, a list of this kind stays as it is if it has the element already, and takes it at its end if not. -/
namespace ReactiveLayout

section
variable {α : Type} [BEq α] [LawfulBEq α] {names found : List α} {first later : α}

/-- The first occurrence of one element is in front of every occurrence of the other. -/
def MetBefore (names : List α) (first later : α) : Prop := names.idxOf first < names.idxOf later

theorem MetBefore.concat (met : MetBefore names first later) (early : first ∈ names) (late : later ∈ names) (next : α) :
    MetBefore (names ++ [next]) first later := by
  rw [MetBefore, List.idxOf_append_of_mem early, List.idxOf_append_of_mem late]
  exact met

theorem metBefore_next (early : first ∈ names) {next : α} (fresh : next ∉ names) :
    MetBefore (names ++ [next]) first next := by
  rw [MetBefore, List.idxOf_append_of_mem early, List.idxOf_append_of_notMem fresh]
  exact Nat.lt_of_lt_of_le (List.idxOf_lt_length_of_mem early) (Nat.le_add_right _ _)

omit [LawfulBEq α] in
theorem nodup_of_metBefore (ordered : found.Pairwise (MetBefore names)) : found.Nodup :=
  List.Pairwise.imp (fun {first later} (met : MetBefore names first later) (same : first = later) =>
    Nat.ne_of_lt met (congrArg names.idxOf same)) ordered

theorem pairwise_metBefore_concat (ordered : found.Pairwise (MetBefore names)) (known : found ⊆ names) (next : α) :
    found.Pairwise (MetBefore (names ++ [next])) :=
  ordered.imp_of_mem fun early late met => met.concat (known early) (known late) next

theorem pairwise_metBefore_next (ordered : found.Pairwise (MetBefore names)) (known : found ⊆ names) {next : α}
    (fresh : next ∉ names) : (found ++ [next]).Pairwise (MetBefore (names ++ [next])) := by
  refine List.pairwise_append.mpr ⟨pairwise_metBefore_concat ordered known next, List.pairwise_singleton _ _, ?_⟩
  intro first member last here
  obtain rfl := List.mem_singleton.mp here
  exact metBefore_next (known member) fresh

end

namespace Plan

theorem gather_concat (seen names : List String) (next : String) :
    gather seen (names ++ [next]) =
      if next ∈ gather seen names then gather seen names else gather seen names ++ [next] := by
  rw [gather_append]
  rfl

/-- Gathering adds the names that were not seen before, in the order of their first occurrence. -/
theorem gather_eq_append (seen names : List String) : ∃ found, gather seen names = seen ++ found ∧
    (∀ name, name ∈ found ↔ name ∉ seen ∧ name ∈ names) ∧ found.Pairwise (MetBefore names) := by
  induction names using List.reverseRecOn with
  | nil => exact ⟨[], (List.append_nil seen).symm, by simp, List.Pairwise.nil⟩
  | append_singleton names next ih =>
    obtain ⟨found, gathered, members, ordered⟩ := ih
    have known : found ⊆ names := fun name member => ((members name).mp member).2
    rw [gather_concat, gathered]
    by_cases old : next ∈ seen ++ found
    · rw [if_pos old]
      refine ⟨found, rfl, fun name => ?_, pairwise_metBefore_concat ordered known next⟩
      have same : next ∉ seen → next ∈ found := (List.mem_append.mp old).resolve_left
      grind
    · rw [if_neg old]
      have fresh : next ∉ names := fun occurs => by grind
      refine ⟨found ++ [next], List.append_assoc .., fun name => ?_, pairwise_metBefore_next ordered known fresh⟩
      grind

end Plan
end ReactiveLayout
