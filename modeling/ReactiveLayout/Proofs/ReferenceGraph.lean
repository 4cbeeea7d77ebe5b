import ReactiveLayout.Proofs.Refusal

/-! The planner sees a table as a graph: its names, which of them are arrays, and for each array the arrays that it
mentions, in the order of first mention. A visit of any other name leaves everything as it is, at every point of the
traversal, so two tables with one graph are visited step by step alike. -/
namespace ReactiveLayout.Plan
open Term
variable {K : Type}

theorem filter_gather (p : String → Bool) (seen names : List String) :
    (gather seen names).filter p = gather (seen.filter p) (names.filter p) := by
  induction names generalizing seen with
  | nil => rfl
  | cons first rest ih =>
    have step (seen names : List String) :
        gather seen (first :: names) = gather (if first ∈ seen then seen else seen ++ [first]) names := rfl
    rw [step, ih]
    by_cases picked : p first = true
    · rw [List.filter_cons_of_pos picked, step]
      by_cases known : first ∈ seen <;> simp [known, picked]
    · rw [List.filter_cons_of_neg picked]
      by_cases known : first ∈ seen <;> simp [known, picked]

theorem isSome_arrayOf?_iff {terms : NameTable (Term K)} {name : String} :
    (arrayOf? terms name).isSome = true ↔ IsArray terms name := by
  simp only [Option.isSome_iff_exists, arrayOf?_eq_some_iff, IsArray]

/-- The arrays of a table that some terms refer to, at any depth, each once and in the order of first mention. -/
def arrayReferences (terms : NameTable (Term K)) (elements : List (Term K)) : List String :=
  gather [] ((referencesOfAll elements).filter fun name => (arrayOf? terms name).isSome)

/-- Two tables have the same names, the same arrays among them, and the same references among these. -/
structure SameGraph (terms others : NameTable (Term K)) : Prop where
  names : ∀ name, name ∈ terms.names ↔ name ∈ others.names
  arrays : ∀ name, IsArray terms name ↔ IsArray others name
  references : ∀ name elements otherElements, terms.get? name = some (.array elements) →
    others.get? name = some (.array otherElements) →
    arrayReferences terms elements = arrayReferences others otherElements

/-- The names of a table, each array with its references to arrays. -/
def graph (terms : NameTable (Term K)) : List (String × Option (List String)) :=
  terms.names.map fun name => (name, (arrayOf? terms name).map (arrayReferences terms))

theorem SameGraph.of_graph {terms others : NameTable (Term K)} (same : graph terms = graph others) :
    SameGraph terms others := by
  have names : terms.names = others.names := by
    simpa [graph, Function.comp_def] using congrArg (List.map (·.1)) same
  have each (name : String) :
      (arrayOf? terms name).map (arrayReferences terms) = (arrayOf? others name).map (arrayReferences others) := by
    by_cases declared : name ∈ terms.names
    · rw [graph, graph, ← names] at same
      exact congrArg Prod.snd (List.map_inj_left.mp same name declared)
    · have missing {terms : NameTable (Term K)} (absent : name ∉ terms.names) : arrayOf? terms name = none := by
        refine Option.eq_none_iff_forall_ne_some.mpr fun elements array => absent ?_
        exact NameTable.mem_names_of_get? (arrayOf?_eq_some_iff.mp array)
      rw [missing declared, missing (names ▸ declared)]
      rfl
  refine ⟨fun name => by rw [names], fun name => ?_, fun name elements otherElements array otherArray => ?_⟩
  · rw [← isSome_arrayOf?_iff, ← isSome_arrayOf?_iff, ← Option.isSome_map, each name, Option.isSome_map]
  · have alike := each name
    rw [arrayOf?_eq_some_iff.mpr array, arrayOf?_eq_some_iff.mpr otherArray] at alike
    exact Option.some.inj alike

theorem mem_arrayReferences {terms : NameTable (Term K)} {elements : List (Term K)} {name : String} :
    name ∈ arrayReferences terms elements ↔ name ∈ referencesOfAll elements ∧ (arrayOf? terms name).isSome = true := by
  rw [arrayReferences, mem_gather, List.mem_filter]
  simp

theorem referencesOfAll_append (front back : List (Term K)) :
    referencesOfAll (front ++ back) = referencesOfAll front ++ referencesOfAll back := by
  induction front with
  | nil => rfl
  | cons term rest ih => rw [List.cons_append, referencesOfAll, ih, referencesOfAll, List.append_assoc]

/-- A term that tells the planner nothing behind some others: it refers to no array, or to one that these refer to. -/
def Silent (terms : NameTable (Term K)) (front : List (Term K)) : Term K → Prop
  | .reference name => ¬ IsArray terms name ∨ name ∈ referencesOfAll front
  | .array _ => False
  | .number _ | .descriptor _ | .token _ | .producer _ | .built _ => True

theorem arrayReferences_silent {terms : NameTable (Term K)} {front : List (Term K)} {term : Term K}
    (silent : Silent terms front term) (back : List (Term K)) :
    arrayReferences terms (front ++ term :: back) = arrayReferences terms (front ++ back) := by
  have unheard (none : term.references = []) :
      arrayReferences terms (front ++ term :: back) = arrayReferences terms (front ++ back) := by
    simp only [arrayReferences, referencesOfAll_append, referencesOfAll, none, List.nil_append]
  cases term with
  | number | descriptor | token | producer | built => exact unheard rfl
  | array => cases silent
  | reference name =>
    simp only [arrayReferences, referencesOfAll_append, referencesOfAll, references, List.filter_append, gather_append]
    by_cases array : (arrayOf? terms name).isSome = true
    · have known : name ∈ gather [] ((referencesOfAll front).filter fun name => (arrayOf? terms name).isSome) := by
        have early := silent.resolve_left (not_not.mpr (isSome_arrayOf?_iff.mp array))
        exact (mem_gather _ _ _).mpr (.inr (List.mem_filter.mpr ⟨early, array⟩))
      rw [List.filter_singleton, array, cond_true]
      exact congrArg (gather · _) (if_pos known)
    · rw [List.filter_singleton, Bool.eq_false_iff.mpr array, cond_false]
      rfl

theorem arrayReferences_nested (terms : NameTable (Term K)) (front inner back : List (Term K)) :
    arrayReferences terms (front ++ .array inner :: back) = arrayReferences terms (front ++ (inner ++ back)) := by
  simp only [arrayReferences, referencesOfAll_append, referencesOfAll, references]

/-- Names that are no arrays can be left out of a round of visits. -/
theorem foldlM_visit_filter (terms : NameTable (Term K)) (visiting names placed : List String) :
    names.foldlM (visit terms visiting) placed =
      (names.filter fun name => (arrayOf? terms name).isSome).foldlM (visit terms visiting) placed := by
  induction names generalizing placed with
  | nil => rfl
  | cons first rest ih =>
    cases array : arrayOf? terms first with
    | none =>
      have idle : visit terms visiting placed first = .ok placed := by rw [visit_eq, array]
      rw [List.filter_cons_of_neg (by simp [array]), List.foldlM_cons, idle]
      exact ih placed
    | some elements =>
      rw [List.filter_cons_of_pos (by simp [array]), List.foldlM_cons, List.foldlM_cons]
      congr 1
      funext middle
      exact ih middle

theorem visit_array {terms : NameTable (Term K)} {name : String} {elements : List (Term K)}
    (array : arrayOf? terms name = some elements) (visiting placed : List String) :
    visit terms visiting placed name =
      if name ∈ placed then .ok placed
      else if name ∈ visiting then .error (.cyclicReference (visiting.dropWhile (· != name) ++ [name]))
      else if name ∈ arrayReferences terms elements then .error (.selfReference name)
      else ((arrayReferences terms elements).foldlM (visit terms (visiting ++ [name])) placed).map (· ++ [name]) := by
  have own : name ∈ arrayReferences terms elements ↔ name ∈ referencesOfAll elements := by
    rw [mem_arrayReferences, array]
    simp
  rw [visit_eq, array]
  dsimp only
  rw [foldlM_visit_filter, filter_gather, List.filter_nil, ← arrayReferences]
  simp only [own]
  cases (arrayReferences terms elements).foldlM (visit terms (visiting ++ [name])) placed <;> rfl

theorem SameGraph.arrayOf? {terms others : NameTable (Term K)} (same : SameGraph terms others) (name : String) :
    (Plan.arrayOf? terms name).isSome = (Plan.arrayOf? others name).isSome :=
  Bool.eq_iff_iff.mpr (isSome_arrayOf?_iff.trans ((same.arrays name).trans isSome_arrayOf?_iff.symm))

/-- The induction is on the arrays that are not being visited. -/
theorem SameGraph.visit {terms others : NameTable (Term K)} (same : SameGraph terms others)
    (visiting placed : List String) (name : String) :
    Plan.visit terms visiting placed name = Plan.visit others visiting placed name := by
  induction size : (unvisited terms visiting).length using Nat.strong_induction_on
    generalizing visiting placed name with
  | _ size ih =>
    have alike := same.arrayOf? name
    cases array : Plan.arrayOf? terms name with
    | none =>
      rw [array] at alike
      have otherAtom : Plan.arrayOf? others name = none :=
        Option.isNone_iff_eq_none.mp (Option.isSome_eq_false_iff.mp alike.symm)
      rw [visit_eq, visit_eq, array, otherAtom]
    | some elements =>
      rw [array] at alike
      obtain ⟨otherElements, otherArray⟩ := Option.isSome_iff_exists.mp alike.symm
      have references := same.references name elements otherElements (arrayOf?_eq_some_iff.mp array)
        (arrayOf?_eq_some_iff.mp otherArray)
      rw [visit_array array, visit_array otherArray, references]
      by_cases ring : name ∈ visiting
      · simp only [ring, if_true]
      · have fewer := size ▸ unvisited_length_lt array ring
        have inside : Plan.visit terms (visiting ++ [name]) = Plan.visit others (visiting ++ [name]) := by
          funext placed next
          exact ih _ fewer (visiting ++ [name]) placed next rfl
        rw [inside]

variable [Scalar K]

def AtomsBuildable (terms : NameTable (Term K)) : Prop :=
  ∀ name term, terms.get? name = some term → (∀ elements, term ≠ .array elements) → term.IsAtom

theorem atoms_buildable {terms : NameTable (Term K)} (buildable : AtomsBuildable terms) :
    atoms terms.entries = .ok (terms.names.filter fun name => (arrayOf? terms name).isNone) := by
  have listed (entries : List (String × Term K))
      (each : ∀ entry ∈ entries, (∀ elements, entry.2 ≠ .array elements) → entry.2.IsAtom) :
      ∃ names, atoms entries = .ok names := by
    induction entries with
    | nil => exact ⟨[], rfl⟩
    | cons entry rest ih =>
      obtain ⟨name, term⟩ := entry
      obtain ⟨names, rest_ok⟩ := ih fun entry member => each entry (List.mem_cons_of_mem _ member)
      by_cases array : ∃ elements, term = .array elements
      · obtain ⟨elements, rfl⟩ := array
        exact ⟨names, rest_ok⟩
      · have isAtom := each (name, term) List.mem_cons_self (not_exists.mp array)
        exact ⟨name :: names, by rw [atoms_cons isAtom, rest_ok]; rfl⟩
  obtain ⟨names, ok⟩ := listed terms.entries fun entry member =>
    buildable entry.1 entry.2 (NameTable.get?_of_mem member)
  rw [ok, atoms_ok (fun _ member => NameTable.get?_of_mem member) ok]
  rfl

theorem atomsBuildable_of_ok {terms : NameTable (Term K)} {names : List String}
    (listed : atoms terms.entries = .ok names) : AtomsBuildable terms :=
  fun _ _ found notArray => isAtom_of_atoms_ok listed (NameTable.mem_of_get? found) notArray

/-- Where no name is refused by itself, only an array that mentions itself or a ring stands against a plan. -/
theorem order_error_of_buildable {terms : NameTable (Term K)} (buildable : AtomsBuildable terms) {e : CompileError K}
    (failed : order terms = .error e) : (∃ name, e = .selfReference name) ∨ ∃ chain, e = .cyclicReference chain := by
  have blamed := order_blames failed
  unfold Blames at blamed
  split at blamed
  · exact .inl ⟨_, rfl⟩
  · exact .inr ⟨_, rfl⟩
  · exact (buildable _ _ blamed (by simp)).elim
  · exact (buildable _ _ blamed (by simp)).elim
  · obtain ⟨name, value, found, rfl | rfl, infinite⟩ := blamed
    · exact absurd (buildable _ _ found (by simp)) (by simp [Term.IsAtom, infinite])
    · exact absurd (buildable _ _ found (by simp)) (by simp [Term.IsAtom, infinite])
  · exact blamed.elim

theorem SameGraph.order {terms others : NameTable (Term K)} (same : SameGraph terms others)
    (buildable : AtomsBuildable terms) (otherBuildable : AtomsBuildable others) :
    Plan.order terms = Plan.order others := by
  have names : terms.names = others.names := NameTable.eq_of_ordered terms.ordered others.ordered same.names
  have visits : Plan.visit terms [] = Plan.visit others [] := by
    funext placed name
    exact same.visit [] placed name
  have atoms : (fun name => (Plan.arrayOf? terms name).isNone) = fun name => (Plan.arrayOf? others name).isNone := by
    funext name
    rw [← Option.not_isSome, ← Option.not_isSome, same.arrayOf? name]
  rw [Plan.order, Plan.order, atoms_buildable buildable, atoms_buildable otherBuildable, names, atoms]
  dsimp only
  rw [visits]

/-- The plan, or the self-reference or ring that stands against it, hangs on the graph of references alone. Terms that
refer to no further array have no part in this graph, and neither has nesting. -/
theorem order_of_sameGraph :
    (∀ terms others : NameTable (Term K), AtomsBuildable terms → AtomsBuildable others → SameGraph terms others →
      order terms = order others ∧
        ∀ e, order terms = .error e → (∃ name, e = .selfReference name) ∨ ∃ chain, e = .cyclicReference chain) ∧
    (∀ (terms : NameTable (Term K)) (front back : List (Term K)) (term : Term K), Silent terms front term →
      arrayReferences terms (front ++ term :: back) = arrayReferences terms (front ++ back)) ∧
    ∀ (terms : NameTable (Term K)) (front inner back : List (Term K)),
      arrayReferences terms (front ++ .array inner :: back) = arrayReferences terms (front ++ (inner ++ back)) :=
  ⟨fun _ _ buildable otherBuildable same =>
      ⟨same.order buildable otherBuildable, fun _ failed => order_error_of_buildable buildable failed⟩,
    fun _ _ back _ silent => arrayReferences_silent silent back, arrayReferences_nested⟩

def looseKnot : NameTable (Term Rat) := .ofList [
  ("area", .array [.array [.reference "width", .reference "width"], .number 3, .reference "side", .reference "width"]),
  ("entry", .array [.reference "side", .reference "margin", .reference "outer"]),
  ("inner", .array [.reference "outer", .token (.operator .add), .reference "outer"]),
  ("outer", .array [.reference "width", .reference "nowhere", .reference "inner"]),
  ("side", .array [.reference "margin"]),
  ("width", .array [.array [.reference "side"]]),
  ("margin", .number 2)]

def pinnedKnot : NameTable (Term Rat) := knot.insert "margin" (.descriptor 8)

theorem order_of_sameGraph_knot :
    order pinnedKnot = order looseKnot ∧ order pinnedKnot = .error (.cyclicReference ["outer", "inner", "outer"]) ∧
      arrayReferences looseKnot [.reference "side", .reference "nowhere", .reference "outer"] =
        arrayReferences looseKnot [.reference "side", .reference "outer"] := by
  have buildable : AtomsBuildable pinnedKnot :=
    atomsBuildable_of_ok (show atoms pinnedKnot.entries = .ok ["margin"] by cbv)
  have otherBuildable : AtomsBuildable looseKnot :=
    atomsBuildable_of_ok (show atoms looseKnot.entries = .ok ["margin"] by cbv)
  have same : SameGraph pinnedKnot looseKnot := .of_graph (by cbv)
  have silent : Silent looseKnot [.reference "side"] (.reference "nowhere") :=
    .inl fun array => absurd (isSome_arrayOf?_iff.mpr array) (Bool.eq_false_iff.mp (by cbv))
  exact ⟨(order_of_sameGraph.1 pinnedKnot looseKnot buildable otherBuildable same).1, by cbv,
    order_of_sameGraph.2.1 looseKnot [.reference "side"] [.reference "outer"] (.reference "nowhere") silent⟩

end ReactiveLayout.Plan
