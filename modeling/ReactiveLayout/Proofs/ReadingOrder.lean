import Mathlib
import ReactiveLayout.Proofs.FirstOccurrence

/-! What the planner collects of an array, told by places. A reference stands at a path: each step picks an element of the
array reached before. Paths in their lexical order are the order of reading, depth first and from left to right, and the
collection goes by it: it adds every name that occurs, where it occurs first, unless the name was seen before. -/
namespace ReactiveLayout
variable {K : Type}

namespace Term

/-- The name stands as a reference at a path into the term. -/
inductive RefersAt : Term K → List Nat → String → Prop where
  | here (name : String) : RefersAt (.reference name) [] name
  | inside {elements : List (Term K)} {i : Nat} {term : Term K} {path : List Nat} {name : String}
      (found : elements[i]? = some term) (deeper : RefersAt term path name) : RefersAt (.array elements) (i :: path) name

/-- The first name occurs in the term in front of every occurrence of the second. -/
def ReadBefore (term : Term K) (first later : String) : Prop :=
  ∃ path, term.RefersAt path first ∧ ∀ other, term.RefersAt other later → path < other

mutual

def occurrences : Term K → List (List Nat × String)
  | .reference name => [([], name)]
  | .array elements => occurrencesFrom 0 elements
  | .number _ | .descriptor _ | .token _ | .producer _ | .built _ => []

def occurrencesFrom (i : Nat) : List (Term K) → List (List Nat × String)
  | [] => []
  | term :: rest => term.occurrences.map (fun place => (i :: place.1, place.2)) ++ occurrencesFrom (i + 1) rest

end

theorem mem_occurrencesFrom_iff {i : Nat} {elements : List (Term K)} {path : List Nat} {name : String} :
    (path, name) ∈ occurrencesFrom i elements ↔
      ∃ j term below, elements[j]? = some term ∧ path = (i + j) :: below ∧ (below, name) ∈ term.occurrences := by
  induction elements generalizing i with
  | nil => simp [occurrencesFrom]
  | cons first rest ih =>
    rw [occurrencesFrom, List.mem_append, ih, List.mem_map]
    constructor
    · rintro (⟨⟨below, _⟩, stands, same⟩ | ⟨j, term, below, found, rfl, stands⟩)
      · cases same
        exact ⟨0, first, below, rfl, rfl, stands⟩
      · exact ⟨j + 1, term, below, found, by rw [Nat.add_right_comm, Nat.add_assoc], stands⟩
    · rintro ⟨j, term, below, found, rfl, stands⟩
      cases j with
      | zero =>
        cases found
        exact .inl ⟨(below, name), stands, rfl⟩
      | succ j => exact .inr ⟨j, term, below, found, by rw [Nat.add_right_comm, Nat.add_assoc], stands⟩

/-- The induction is on the path, which leads down into the term. -/
theorem mem_occurrences_iff {term : Term K} {path : List Nat} {name : String} :
    (path, name) ∈ term.occurrences ↔ term.RefersAt path name := by
  induction path generalizing term with
  | nil =>
    cases term with
    | reference other =>
      rw [occurrences, List.mem_singleton]
      constructor
      · intro same
        cases same
        exact .here name
      · intro refers
        cases refers
        rfl
    | array elements =>
      rw [occurrences, mem_occurrencesFrom_iff]
      constructor
      · rintro ⟨_, _, _, _, impossible, _⟩
        cases impossible
      · intro refers
        cases refers
    | number | descriptor | token | producer | built =>
      constructor
      · intro none
        cases none
      · intro refers
        cases refers
  | cons i path ih =>
    cases term with
    | array elements =>
      rw [occurrences, mem_occurrencesFrom_iff]
      constructor
      · rintro ⟨j, term, below, found, same, stands⟩
        obtain ⟨rfl, rfl⟩ := List.cons.inj same
        exact .inside (by rwa [Nat.zero_add]) (ih.mp stands)
      · intro refers
        cases refers with
        | inside found deeper => exact ⟨i, _, path, found, by rw [Nat.zero_add], ih.mpr deeper⟩
    | reference other =>
      constructor
      · intro stands
        cases List.mem_singleton.mp stands
      · intro refers
        cases refers
    | number | descriptor | token | producer | built =>
      constructor
      · intro none
        cases none
      · intro refers
        cases refers

mutual

theorem occurrences_names : ∀ term : Term K, term.occurrences.map (·.2) = term.references
  | .reference name => rfl
  | .array elements => by
    rw [occurrences, references]
    exact occurrencesFrom_names 0 elements
  | .number _ | .descriptor _ | .token _ | .producer _ | .built _ => rfl

theorem occurrencesFrom_names : ∀ (i : Nat) (elements : List (Term K)),
    (occurrencesFrom i elements).map (·.2) = referencesOfAll elements
  | _, [] => rfl
  | i, term :: rest => by
    rw [occurrencesFrom, referencesOfAll, List.map_append, List.map_map, occurrencesFrom_names (i + 1) rest,
      ← occurrences_names term]
    rfl

end

mutual

theorem occurrences_sorted : ∀ term : Term K, term.occurrences.Pairwise fun first later => first.1 < later.1
  | .reference name => List.pairwise_singleton _ _
  | .array elements => by
    rw [occurrences]
    exact occurrencesFrom_sorted 0 elements
  | .number _ | .descriptor _ | .token _ | .producer _ | .built _ => List.Pairwise.nil

theorem occurrencesFrom_sorted : ∀ (i : Nat) (elements : List (Term K)),
    (occurrencesFrom i elements).Pairwise fun first later => first.1 < later.1
  | _, [] => List.Pairwise.nil
  | i, term :: rest => by
    rw [occurrencesFrom, List.pairwise_append, List.pairwise_map]
    refine ⟨(occurrences_sorted term).imp fun before => List.cons_lt_cons_iff.mpr (.inr ⟨rfl, before⟩),
      occurrencesFrom_sorted (i + 1) rest, ?_⟩
    intro first here later there
    obtain ⟨place, _, rfl⟩ := List.mem_map.mp here
    obtain ⟨path, name⟩ := later
    obtain ⟨j, _, below, _, rfl, _⟩ := mem_occurrencesFrom_iff.mp there
    exact List.cons_lt_cons_iff.mpr (.inl (by omega))

end

theorem mem_references_iff {term : Term K} {name : String} : name ∈ term.references ↔ ∃ path, term.RefersAt path name := by
  rw [← occurrences_names term, List.mem_map]
  constructor
  · rintro ⟨⟨path, _⟩, stands, rfl⟩
    exact ⟨path, mem_occurrences_iff.mp stands⟩
  · rintro ⟨path, refers⟩
    exact ⟨(path, name), mem_occurrences_iff.mpr refers, rfl⟩

/-- In a row of places that goes up, the name that is met first has a place below all places of the other. -/
theorem exists_first_place {places : List (List Nat × String)} {first later : String}
    (sorted : places.Pairwise fun early late => early.1 < late.1) (met : MetBefore (places.map (·.2)) first later) :
    ∃ path, (path, first) ∈ places ∧ ∀ other, (other, later) ∈ places → path < other := by
  induction places with
  | nil => exact absurd met (Nat.lt_irrefl _)
  | cons place rest ih =>
    obtain ⟨path, name⟩ := place
    obtain ⟨least, sorted⟩ := List.pairwise_cons.mp sorted
    rw [MetBefore, List.map_cons] at met
    -- The front cannot be the later name, since that would then be met before any other.
    have different : name ≠ later := by
      rintro rfl
      rw [List.idxOf_cons_self] at met
      exact Nat.not_lt_zero _ met
    have behind {other : List Nat} (stands : (other, later) ∈ (path, name) :: rest) : (other, later) ∈ rest := by
      refine (List.mem_cons.mp stands).resolve_left fun same => ?_
      cases same
      exact different rfl
    by_cases here : name = first
    · subst here
      exact ⟨path, List.mem_cons_self, fun other stands => least _ (behind stands)⟩
    · rw [List.idxOf_cons_ne _ here, List.idxOf_cons_ne _ different] at met
      obtain ⟨path, stands, below⟩ := ih sorted (Nat.lt_of_succ_lt_succ met)
      exact ⟨path, List.mem_cons_of_mem _ stands, fun other there => below other (behind there)⟩

theorem readBefore_of_metBefore {term : Term K} {first later : String} (met : MetBefore term.references first later) :
    term.ReadBefore first later := by
  obtain ⟨path, stands, below⟩ := exists_first_place (occurrences_sorted term) (occurrences_names term ▸ met)
  exact ⟨path, mem_occurrences_iff.mp stands, fun other refers => below other (mem_occurrences_iff.mpr refers)⟩

end Term

namespace Plan
open Term

/-- The collection fails exactly if the owner stands among the elements as a reference, at whatever depth. Otherwise it
adds to the names seen before, which it keeps without repeats, every other name that stands there: each once, in the order
in which they are read first. -/
theorem mentionsOfAll_reads (owner : String) (elements : List (Term K)) (seen : List String) (unique : seen.Nodup) :
    (mentionsOfAll owner elements seen = .error (.selfReference owner) ↔
      ∃ path, (Term.array elements).RefersAt path owner) ∧
    ((∃ path, (Term.array elements).RefersAt path owner) ∨ ∃ found,
      mentionsOfAll owner elements seen = .ok (seen ++ found) ∧ (seen ++ found).Nodup ∧
        (∀ name, name ∈ found ↔ name ∉ seen ∧ ∃ path, (Term.array elements).RefersAt path name) ∧
        found.Pairwise (Term.array elements).ReadBefore) := by
  have refers (name : String) : name ∈ referencesOfAll elements ↔ ∃ path, (Term.array elements).RefersAt path name := by
    rw [← mem_references_iff, references]
  rw [mentionsOfAll_eq, ← refers owner]
  by_cases own : owner ∈ referencesOfAll elements
  · exact ⟨iff_of_true (if_pos own) own, .inl own⟩
  · obtain ⟨found, gathered, members, ordered⟩ := gather_eq_append seen (referencesOfAll elements)
    have fresh : (seen ++ found).Nodup := by
      refine List.nodup_append.mpr ⟨unique, nodup_of_metBefore ordered, ?_⟩
      rintro name old _ new rfl
      exact ((members name).mp new).1 old
    refine ⟨iff_of_false (by rw [if_neg own]; exact nofun) own, .inr ⟨found, ?_, fresh, fun name => ?_, ?_⟩⟩
    · rw [if_neg own, gathered]
    · rw [members name, refers name]
    · refine ordered.imp fun met => readBefore_of_metBefore ?_
      rwa [references]

/-- Of four names at three depths one was seen before, and `area` is not among them. -/
theorem mentionsOfAll_reads_nested :
    let elements : List (Term Rat) := [.reference "width", .token (.operator .add),
      .array [.reference "depth", .array [.reference "side"], .reference "width"], .array [.reference "scale"]]
    ["depth", "unit"].Nodup ∧
      mentionsOfAll "area" elements ["depth", "unit"] = .ok (["depth", "unit"] ++ ["width", "side", "scale"]) ∧
      ¬ (∃ path, (Term.array elements).RefersAt path "area") ∧
      mentionsOfAll "side" elements ["depth", "unit"] = .error (.selfReference "side") ∧
      ∃ path, (Term.array elements).RefersAt path "side" := by
  intro elements
  have unique : ["depth", "unit"].Nodup := by decide
  have collects : mentionsOfAll "area" elements ["depth", "unit"] =
      .ok (["depth", "unit"] ++ ["width", "side", "scale"]) := by cbv
  have refuses : mentionsOfAll "side" elements ["depth", "unit"] = .error (.selfReference "side") := by cbv
  refine ⟨unique, collects, fun stands => ?_, refuses, (mentionsOfAll_reads "side" elements _ unique).1.mp refuses⟩
  have failed := (mentionsOfAll_reads "area" elements _ unique).1.mpr stands
  rw [collects] at failed
  cases failed

end Plan
end ReactiveLayout
