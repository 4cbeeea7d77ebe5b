import ReactiveLayout.Plan

/-! The names that a term refers to, read off the term alone, and the proof that the traversal of the planner finds
exactly these. What the planner refuses or places is then stated on `references`, without the list that it threads. -/
namespace ReactiveLayout
variable {K : Type}

theorem foldlM_cons_ok {α β ε : Type} {step : β → α → Except ε β} {first : α} {rest : List α} {start final : β}
    (run : (first :: rest).foldlM step start = .ok final) :
    ∃ middle, step start first = .ok middle ∧ rest.foldlM step middle = .ok final := by
  rw [List.foldlM_cons] at run
  cases stepped : step start first with
  | error e =>
    rw [stepped] at run
    cases run
  | ok middle =>
    rw [stepped] at run
    exact ⟨middle, rfl, run⟩

theorem foldlM_append_ok {α β ε : Type} {step : β → α → Except ε β} {early late : List α} {start final : β}
    (run : (early ++ late).foldlM step start = .ok final) :
    ∃ middle, early.foldlM step start = .ok middle ∧ late.foldlM step middle = .ok final := by
  rw [List.foldlM_append] at run
  cases first : early.foldlM step start with
  | error e =>
    rw [first] at run
    cases run
  | ok middle =>
    rw [first] at run
    exact ⟨middle, rfl, run⟩

namespace Term

mutual

/-- The names that a term refers to, at any depth and as often as they stand there, in the order of reading. -/
def references : Term K → List String
  | .reference name => [name]
  | .array elements => referencesOfAll elements
  | .number _ | .descriptor _ | .token _ | .producer _ | .built _ => []

def referencesOfAll : List (Term K) → List String
  | [] => []
  | term :: rest => term.references ++ referencesOfAll rest

end

theorem classify_eq_array_iff [Scalar K] {term : Term K} {elements : List (Term K)} :
    term.classify = .ok (.array elements) ↔ term = .array elements := by
  cases term with
  | number value | descriptor value =>
    by_cases finite : Scalar.isFinite value = true <;> simp [classify, kind?, finite]
  | reference | token | producer | array | built => simp [classify, kind?]

end Term

namespace Plan
open Term

/-- Adds names to those seen before, each once and where it is first met. -/
def gather (seen names : List String) : List String :=
  names.foldl (fun seen name => if name ∈ seen then seen else seen ++ [name]) seen

theorem gather_append (seen first second : List String) :
    gather seen (first ++ second) = gather (gather seen first) second :=
  List.foldl_append

theorem mem_gather (names : List String) (seen : List String) (name : String) :
    name ∈ gather seen names ↔ name ∈ seen ∨ name ∈ names := by
  induction names generalizing seen with
  | nil => simp [gather]
  | cons first rest ih =>
    have step : gather seen (first :: rest) = gather (if first ∈ seen then seen else seen ++ [first]) rest := rfl
    rw [step, ih, List.mem_cons]
    split
    · rename_i known
      constructor
      · rintro (old | later)
        · exact .inl old
        · exact .inr (.inr later)
      · rintro (old | rfl | later)
        · exact .inl old
        · exact .inl known
        · exact .inr later
    · simp only [List.mem_append, List.mem_singleton, or_assoc]

mutual

/-- The traversal of one term refuses the owner's own name and gathers every other. -/
theorem mentions_eq (owner : String) : ∀ (term : Term K) (seen : List String),
    mentions owner term seen =
      if owner ∈ term.references then .error (.selfReference owner) else .ok (gather seen term.references)
  | .reference name, seen => by
    by_cases same : name = owner
    · simp [mentions, references, same]
    · simp [mentions, references, gather, same, Ne.symm same]
  | .array elements, seen => by
    rw [mentions, references]
    exact mentionsOfAll_eq owner elements seen
  | .number _, _ | .descriptor _, _ | .token _, _ | .producer _, _ | .built _, _ => by
    simp [mentions, references, gather]

theorem mentionsOfAll_eq (owner : String) : ∀ (elements : List (Term K)) (seen : List String),
    mentionsOfAll owner elements seen =
      if owner ∈ referencesOfAll elements then .error (.selfReference owner)
      else .ok (gather seen (referencesOfAll elements))
  | [], seen => by simp [mentionsOfAll, referencesOfAll, gather]
  | term :: rest, seen => by
    rw [mentionsOfAll, mentions_eq owner term seen, referencesOfAll]
    by_cases own : owner ∈ term.references
    · simp [own]
    · simp only [own, if_false, List.mem_append, false_or]
      rw [mentionsOfAll_eq owner rest, gather_append]

end

end Plan
end ReactiveLayout
