import Mathlib
import ReactiveLayout.Proofs.ReferenceGraph

/-! The way of the planner through a table, call by call. The planner follows references through the table and not a term
into its parts, so it is not plain that it comes to an end: here its visits are told once more with a bound on how deep
they may go into each other, and with a record of all that happens. On every way there, also on one that ends in an error,
the arrays being visited are a trail without a name twice, apart from what is placed. So there are never more of them than
arrays in the table, a bound above that number changes nothing, and no array is entered again. -/
namespace ReactiveLayout.Plan
open Term
variable {K : Type}

/-- The call for a name, with the chain of arrays that led to it and the names placed by then. -/
structure Visit where
  visiting : List String
  placed : List String
  name : String
deriving Repr, DecidableEq

/-- What the planner does on its way: it visits an array, or it collects the names that one mentions. -/
inductive Move where
  | visit (call : Visit)
  | collect (owner : String)

def Move.visit? : Move → Option Visit
  | .visit call => some call
  | .collect _ => none

def Move.owner? : Move → Option String
  | .visit _ => none
  | .collect owner => some owner

def visits (moves : List Move) : List Visit := moves.filterMap Move.visit?

def collected (moves : List Move) : List String := moves.filterMap Move.owner?

/-- The names placed in the end or an error, if it came to that within the bound, with all moves up to there. -/
abbrev Journey (K : Type) := Option (Except (CompileError K) (List String)) × List Move

def visitAllWithin (visitor : List String → String → Journey K) : List String → List String → Journey K
  | [], placed => (some (.ok placed), [])
  | name :: rest, placed =>
    match visitor placed name with
    | (some (.ok placed), early) =>
      let later := visitAllWithin visitor rest placed
      (later.1, early ++ later.2)
    | stopped => stopped

/-- An array is entered: its mentions are collected, and it is placed if what happens inside is answered so. -/
def entered (call : Visit) (inside : Journey K) : Journey K :=
  (inside.1.map (·.map (· ++ [call.name])), .visit call :: .collect call.name :: inside.2)

/-- Places a name as `visit` does, with at most `depth` visits inside each other. -/
def visitWithin (terms : NameTable (Term K)) (depth : Nat) (visiting placed : List String) (name : String) : Journey K :=
  match arrayOf? terms name with
  | none => (some (.ok placed), [])
  | some elements =>
    match depth with
    | 0 => (none, [])
    | depth + 1 =>
      let call : Visit := ⟨visiting, placed, name⟩
      if name ∈ placed then (some (.ok placed), [.visit call])
      else if name ∈ visiting then
        (some (.error (.cyclicReference (visiting.dropWhile (· != name) ++ [name]))), [.visit call])
      else
        entered call <|
          match mentionsOfAll name elements [] with
          | .error e => (some (.error e), [])
          | .ok mentioned => visitAllWithin (visitWithin terms depth (visiting ++ [name])) mentioned placed

theorem visitAllWithin_answer {visitor : List String → String → Journey K}
    {step : List String → String → Except (CompileError K) (List String)}
    (each : ∀ placed name, (visitor placed name).1 = some (step placed name)) (names placed : List String) :
    (visitAllWithin visitor names placed).1 = some (names.foldlM step placed) := by
  induction names generalizing placed with
  | nil => rfl
  | cons name rest ih =>
    have first := each placed name
    rw [visitAllWithin, List.foldlM_cons]
    generalize visitor placed name = journey at first
    obtain ⟨_, moves⟩ := journey
    obtain rfl := first
    cases step placed name with
    | error e => rfl
    | ok middle => exact ih middle

theorem visitWithin_array {terms : NameTable (Term K)} {name : String} {elements : List (Term K)}
    (array : arrayOf? terms name = some elements) (depth : Nat) (visiting placed : List String) :
    visitWithin terms (depth + 1) visiting placed name =
      if name ∈ placed then (some (.ok placed), [.visit ⟨visiting, placed, name⟩])
      else if name ∈ visiting then
        (some (.error (.cyclicReference (visiting.dropWhile (· != name) ++ [name]))), [.visit ⟨visiting, placed, name⟩])
      else entered ⟨visiting, placed, name⟩ <|
        if name ∈ referencesOfAll elements then (some (.error (.selfReference name)), [])
        else visitAllWithin (visitWithin terms depth (visiting ++ [name])) (gather [] (referencesOfAll elements)) placed := by
  rw [visitWithin, array]
  dsimp only
  rw [mentionsOfAll_eq]
  by_cases own : name ∈ referencesOfAll elements <;> simp only [own, if_true, if_false]

theorem visitWithin_answer (terms : NameTable (Term K)) {depth : Nat} {visiting : List String}
    (enough : (unvisited terms visiting).length < depth) (placed : List String) (name : String) :
    (visitWithin terms depth visiting placed name).1 = some (visit terms visiting placed name) := by
  induction depth generalizing visiting placed name with
  | zero => exact absurd enough (Nat.not_lt_zero _)
  | succ depth ih =>
    cases array : arrayOf? terms name with
    | none => rw [visitWithin, visit_eq, array]
    | some elements =>
      rw [visitWithin_array array, visit_eq, array]
      dsimp only
      split
      · rfl
      · split
        · rfl
        · rename_i fresh
          have fewer := Nat.lt_of_lt_of_le (unvisited_length_lt array fresh) (Nat.le_of_lt_succ enough)
          split
          · rfl
          · rw [entered, visitAllWithin_answer (ih fewer)]
            cases (gather [] (referencesOfAll elements)).foldlM (visit terms (visiting ++ [name])) placed <;> rfl

def successors (terms : NameTable (Term K)) (name : String) : List String :=
  ((arrayOf? terms name).map (arrayReferences terms)).getD []

def arraysOf (terms : NameTable (Term K)) (names : List String) : List String :=
  names.filter fun name => (arrayOf? terms name).isSome

/-- What holds of every journey over some names, wherever it ends. -/
structure Walks (terms : NameTable (Term K)) (visiting names placed : List String) (journey : Journey K) : Prop where
  /-- The arrays being visited are a trail, and none of them is placed. -/
  trails : ∀ call ∈ visits journey.2, Trail terms call.visiting call.name ∧ call.visiting.Disjoint call.placed
  once : (collected journey.2).Nodup
  entered : ∀ name ∈ collected journey.2, name ∈ arrayNames terms ∧ name ∉ placed ∧ name ∉ visiting
  /-- What is placed in the end was placed before or entered on the way. -/
  final : ∀ final, journey.1 = some (.ok final) → ∀ name, name ∈ final ↔ name ∈ placed ∨ name ∈ collected journey.2
  few : (visits journey.2).length ≤
    (arraysOf terms names).length + ((collected journey.2).map fun name => (successors terms name).length).sum

variable {terms : NameTable (Term K)} {visiting names first second placed middle : List String} {name : String}

theorem visits_append (early late : List Move) : visits (early ++ late) = visits early ++ visits late :=
  List.filterMap_append

theorem collected_append (early late : List Move) : collected (early ++ late) = collected early ++ collected late :=
  List.filterMap_append

theorem eq_of_placed : ∀ final, (some (.ok placed) : Option (Except (CompileError K) (List String))) = some (.ok final) →
    final = placed := fun _ ended => (Except.ok.inj (Option.some.inj ended)).symm

theorem Walks.still (terms : NameTable (Term K)) (visiting names : List String) {placed : List String}
    {answer : Option (Except (CompileError K) (List String))} (same : ∀ final, answer = some (.ok final) → final = placed) :
    Walks terms visiting names placed (answer, []) where
  trails _ member := absurd member List.not_mem_nil
  once := List.nodup_nil
  entered _ member := absurd member List.not_mem_nil
  final final ended name := by
    obtain rfl := same final ended
    exact ⟨.inl, fun old => old.elim (fun old => old) fun none => absurd none List.not_mem_nil⟩
  few := Nat.zero_le _

theorem Walks.turned {elements : List (Term K)} (array : arrayOf? terms name = some elements)
    (trail : Trail terms visiting name) (apart : visiting.Disjoint placed)
    {answer : Option (Except (CompileError K) (List String))} (same : ∀ final, answer = some (.ok final) → final = placed) :
    Walks terms visiting [name] placed (answer, [.visit ⟨visiting, placed, name⟩]) := by
  have still := Walks.still terms visiting [name] same
  refine ⟨fun call member => ?_, still.once, still.entered, still.final, ?_⟩
  · obtain rfl := List.mem_singleton.mp member
    exact ⟨trail, apart⟩
  · have isArray : arraysOf terms [name] = [name] := List.filter_cons_of_pos (by simp [array])
    rw [isArray]
    exact Nat.le_add_right _ _

/-- A visit that enters its array: what happens inside does not come back to it. -/
theorem Walks.enter {elements : List (Term K)} {inside : Journey K} (array : arrayOf? terms name = some elements)
    (trail : Trail terms visiting name) (apart : visiting.Disjoint placed) (unplaced : name ∉ placed)
    (fresh : name ∉ visiting) (few : (arraysOf terms names).length ≤ (successors terms name).length)
    (walks : Walks terms (visiting ++ [name]) names placed inside) :
    Walks terms visiting [name] placed (Plan.entered ⟨visiting, placed, name⟩ inside) := by
  have isArray : arraysOf terms [name] = [name] := List.filter_cons_of_pos (by simp [array])
  have deeper (other : String) (member : other ∈ collected inside.2) : other ∉ visiting ∧ other ≠ name := by
    have free := (walks.entered other member).2.2
    exact ⟨fun old => free (List.mem_append_left _ old), fun same => free (by simp [same])⟩
  refine ⟨?_, ?_, ?_, ?_, ?_⟩
  · intro call member
    rcases List.mem_cons.mp member with rfl | later
    · exact ⟨trail, apart⟩
    · exact walks.trails call later
  · exact List.nodup_cons.mpr ⟨fun again => (deeper name again).2 rfl, walks.once⟩
  · intro other member
    rcases List.mem_cons.mp member with rfl | later
    · exact ⟨mem_arrayNames_of_arrayOf? array, unplaced, fresh⟩
    · obtain ⟨isArray, unplaced, _⟩ := walks.entered other later
      exact ⟨isArray, unplaced, (deeper other later).1⟩
  · intro final ended other
    obtain ⟨answer, answered, mapped⟩ := Option.map_eq_some_iff.mp ended
    cases answer with
    | error e => cases mapped
    | ok inner =>
      cases mapped
      have whole : collected (Plan.entered ⟨visiting, placed, name⟩ inside).2 = name :: collected inside.2 := rfl
      rw [whole, List.mem_append, walks.final inner answered other, List.mem_singleton, List.mem_cons, or_assoc]
      exact or_congr_right Or.comm
  · have visited : (visits (Plan.entered ⟨visiting, placed, name⟩ inside).2).length = (visits inside.2).length + 1 := rfl
    have whole : collected (Plan.entered ⟨visiting, placed, name⟩ inside).2 = name :: collected inside.2 := rfl
    have within := walks.few
    rw [visited, whole, isArray, List.map_cons, List.sum_cons, List.length_singleton]
    omega

theorem Walks.cut {journey : Journey K} (walks : Walks terms visiting first placed journey) (second : List String) :
    Walks terms visiting (first ++ second) placed journey := by
  refine ⟨walks.trails, walks.once, walks.entered, walks.final, Nat.le_trans walks.few (Nat.add_le_add_right ?_ _)⟩
  rw [arraysOf, arraysOf, List.filter_append, List.length_append]
  exact Nat.le_add_right _ _

/-- What is entered later is not placed by then, so it was not entered before. -/
theorem Walks.trans {early : List Move} {later : Journey K}
    (front : Walks terms visiting first placed (some (.ok middle), early)) (back : Walks terms visiting second middle later) :
    Walks terms visiting (first ++ second) placed (later.1, early ++ later.2) := by
  have reached := front.final middle rfl
  refine ⟨?_, ?_, ?_, ?_, ?_⟩
  · intro call member
    rw [visits_append] at member
    exact (List.mem_append.mp member).elim (front.trails call) (back.trails call)
  · rw [collected_append]
    refine List.nodup_append.mpr ⟨front.once, back.once, ?_⟩
    rintro name before _ again rfl
    exact (back.entered name again).2.1 ((reached name).mpr (.inr before))
  · intro name member
    rw [collected_append] at member
    rcases List.mem_append.mp member with before | after
    · exact front.entered name before
    · obtain ⟨isArray, unplaced, free⟩ := back.entered name after
      exact ⟨isArray, fun old => unplaced ((reached name).mpr (.inl old)), free⟩
  · intro final ended name
    rw [collected_append, List.mem_append, back.final final ended name, reached name, or_assoc]
  · have before := front.few
    have after := back.few
    rw [visits_append, collected_append, arraysOf, List.filter_append, List.length_append, List.length_append,
      List.map_append, List.sum_append]
    unfold arraysOf at before after
    dsimp only at before
    omega

theorem Walks.disjoint {moves : List Move} (walks : Walks terms visiting names placed (some (.ok middle), moves))
    (apart : visiting.Disjoint placed) : visiting.Disjoint middle := by
  intro name here there
  rcases (walks.final middle rfl name).mp there with old | entered
  · exact apart here old
  · exact (walks.entered name entered).2.2 here

theorem visitAllWithin_walks {visitor : List String → String → Journey K}
    (each : ∀ name ∈ names, ∀ placed, visiting.Disjoint placed → Walks terms visiting [name] placed (visitor placed name))
    (apart : visiting.Disjoint placed) : Walks terms visiting names placed (visitAllWithin visitor names placed) := by
  induction names generalizing placed with
  | nil => exact .still terms visiting [] eq_of_placed
  | cons name rest ih =>
    have first := each name List.mem_cons_self placed apart
    rw [visitAllWithin]
    generalize visitor placed name = journey at first
    split
    · exact first.trans (ih (fun next member => each next (List.mem_cons_of_mem _ member)) (first.disjoint apart))
    · exact first.cut rest

/-- The induction is on the depth. Each reference of an array that is entered prolongs its trail. -/
theorem visitWithin_walks (depth : Nat) (trail : Trail terms visiting name) (apart : visiting.Disjoint placed) :
    Walks terms visiting [name] placed (visitWithin terms depth visiting placed name) := by
  induction depth generalizing visiting placed name with
  | zero =>
    rw [visitWithin]
    split
    · exact .still terms visiting [name] eq_of_placed
    · exact .still terms visiting [name] fun _ ended => nomatch ended
  | succ depth ih =>
    cases array : arrayOf? terms name with
    | none =>
      rw [visitWithin, array]
      exact .still terms visiting [name] eq_of_placed
    | some elements =>
      have mentions (other : String) : Mentions terms name other ↔ other ∈ referencesOfAll elements := by
        simp only [Mentions, ← arrayOf?_eq_some_iff, array]
        simp
      rw [visitWithin_array array]
      split
      · exact .turned array trail apart eq_of_placed
      · rename_i unplaced
        split
        · exact .turned array trail apart fun _ ended => nomatch ended
        · rename_i fresh
          split
          · -- An array that mentions itself is refused after its mentions were collected, before any of them is visited.
            refine .enter array trail apart unplaced fresh (Nat.zero_le _) (.still terms _ [] fun _ ended => nomatch ended)
          · rename_i notOwn
            have noSelf : ¬ Mentions terms name name := mt (mentions name).mp notOwn
            have few : arraysOf terms (gather [] (referencesOfAll elements)) = successors terms name := by
              rw [arraysOf, filter_gather, successors, array]
              rfl
            refine .enter array trail apart unplaced fresh (Nat.le_of_eq (congrArg List.length few)) ?_
            refine visitAllWithin_walks (fun next member placed apart => ih (trail.enter fresh noSelf ?_) apart) ?_
            · exact (mentions next).mpr (by simpa using (mem_gather _ _ _).mp member)
            · exact List.disjoint_append_left.mpr ⟨apart, List.singleton_disjoint.mpr unplaced⟩

theorem Trail.length_le (trail : Trail terms visiting name) : visiting.length ≤ (arrayNames terms).length := by
  refine List.Nodup.length_le_of_subset trail.unique fun other member => ?_
  obtain ⟨elements, array⟩ := trail.arrays other member
  exact mem_arrayNames_of_arrayOf? (arrayOf?_eq_some_iff.mpr array)

variable [Scalar K]

/-- The order of a table as `order` finds it, with at most `depth` visits inside each other. -/
def orderWithin (terms : NameTable (Term K)) (depth : Nat) : Option (Except (CompileError K) Plan) × List Move :=
  match atoms terms.entries with
  | .error e => (some (.error e), [])
  | .ok names =>
    let journey := visitAllWithin (visitWithin terms depth []) terms.names names
    (journey.1.map (·.map Plan.mk), journey.2)

theorem orderWithin_answer {terms : NameTable (Term K)} {depth : Nat} (enough : (arrayNames terms).length < depth) :
    (orderWithin terms depth).1 = some (order terms) := by
  have all : unvisited terms [] = arrayNames terms := by simp [unvisited]
  rw [orderWithin, order]
  cases atoms terms.entries with
  | error e => rfl
  | ok names =>
    dsimp only
    rw [visitAllWithin_answer (visitWithin_answer terms (all ▸ enough))]
    cases terms.names.foldlM (visit terms []) names <;> rfl

/-- From the start nothing is visited, so every array is the beginning of a trail. The names placed at first are no
arrays. -/
theorem orderWithin_walks (terms : NameTable (Term K)) (depth : Nat) :
    ∃ (placed : List String) (journey : Journey K), Walks terms [] terms.names placed journey ∧
      (∀ name ∈ placed, name ∉ arrayNames terms) ∧
      orderWithin terms depth = (journey.1.map (·.map Plan.mk), journey.2) := by
  unfold orderWithin
  cases listed : atoms terms.entries with
  | error e =>
    exact ⟨[], (some (.error e), []), .still terms [] terms.names (fun _ ended => nomatch ended), nofun, rfl⟩
  | ok names =>
    refine ⟨names, _, visitAllWithin_walks (fun name _ placed apart => ?_) (List.disjoint_nil_left names), ?_, rfl⟩
    · exact visitWithin_walks depth (.start terms name) apart
    · intro name atom array
      rw [atoms_ok (fun _ member => NameTable.get?_of_mem member) listed] at atom
      obtain ⟨elements, array⟩ := mem_arrayNames_iff.mp array
      simp [array] at atom

theorem collected_nodup (terms : NameTable (Term K)) (depth : Nat) : (collected (orderWithin terms depth).2).Nodup := by
  obtain ⟨placed, journey, walks, _, same⟩ := orderWithin_walks terms depth
  rw [same]
  exact walks.once

theorem mem_collected_iff {terms : NameTable (Term K)} {depth : Nat} {plan : Plan} (ordered : order terms = .ok plan)
    (ended : (orderWithin terms depth).1 = some (.ok plan)) (name : String) :
    name ∈ collected (orderWithin terms depth).2 ↔ name ∈ arrayNames terms := by
  obtain ⟨placed, journey, walks, atoms, same⟩ := orderWithin_walks terms depth
  rw [same] at ended ⊢
  constructor
  · exact fun member => (walks.entered name member).1
  · intro array
    obtain ⟨answer, answered, mapped⟩ := Option.map_eq_some_iff.mp ended
    cases answer with
    | error e => cases mapped
    | ok final =>
      cases mapped
      have planned : name ∈ final := (mem_order_iff ordered name).mpr (mem_names_of_mem_arrayNames array)
      exact ((walks.final final answered name).mp planned).resolve_left fun atom => atoms name atom array

theorem sum_map_le_of_subset {names others : List String} (unique : names.Nodup) (subset : names ⊆ others)
    (count : String → Nat) : (names.map count).sum ≤ (others.map count).sum := by
  obtain ⟨listed, same, sublist⟩ := List.subperm_of_subset unique subset
  rw [← (same.map count).sum_eq]
  exact (sublist.map count).sum_le_sum fun _ _ => Nat.zero_le _

/-- Ordering comes to an end on every table, however its arrays refer to each other: it takes no more visits inside each
other than there are arrays, and one. At every visit the arrays that led there are a trail: none stands there twice, each
mentions the next, and none is placed, so they are no more than the table has. The mentions of an array are collected once
at most, and once for every array behind a plan; there are no more visits than arrays and references between arrays. -/
theorem order_enters_once (terms : NameTable (Term K)) :
    (∀ depth, (arrayNames terms).length < depth → (orderWithin terms depth).1 = some (order terms) ∧
      ∀ plan, order terms = .ok plan → (collected (orderWithin terms depth).2).Perm (arrayNames terms)) ∧
    ∀ depth, let moves := (orderWithin terms depth).2
      (∀ call ∈ visits moves, Trail terms call.visiting call.name ∧ call.visiting.Disjoint call.placed ∧
        call.visiting.length ≤ (arrayNames terms).length) ∧
      (collected moves).Nodup ∧
      (visits moves).length ≤
        (arrayNames terms).length + ((arrayNames terms).map fun name => (successors terms name).length).sum := by
  constructor
  · intro depth enough
    have answer := orderWithin_answer enough
    refine ⟨answer, fun plan ordered => ?_⟩
    have ended : (orderWithin terms depth).1 = some (.ok plan) := by rw [answer, ordered]
    refine (List.perm_ext_iff_of_nodup (collected_nodup terms depth) (terms.names_nodup.filter _)).mpr ?_
    exact mem_collected_iff ordered ended
  · intro depth
    obtain ⟨placed, journey, walks, _, same⟩ := orderWithin_walks terms depth
    rw [same]
    refine ⟨fun call member => ?_, walks.once, Nat.le_trans walks.few (Nat.add_le_add_left ?_ _)⟩
    · obtain ⟨trail, apart⟩ := walks.trails call member
      exact ⟨trail, apart, trail.length_le⟩
    · exact sum_map_le_of_subset walks.once (fun name member => (walks.entered name member).1) _

/-- The visit of `knot` that closes its ring: it comes from `entry`, when three arrays are placed. -/
def closing : Visit := ⟨["entry", "outer", "inner"], ["side", "width", "area"], "outer"⟩

theorem order_enters_once_knot :
    (arrayNames knot).length = 6 ∧ (orderWithin knot 7).1 = some (order knot) ∧
      order knot = .error (.cyclicReference ["outer", "inner", "outer"]) ∧
      collected (orderWithin knot 7).2 = ["area", "width", "side", "entry", "outer", "inner"] ∧
      closing ∈ visits (orderWithin knot 7).2 ∧ Trail knot ["entry", "outer", "inner"] "outer" ∧
      closing.visiting.Disjoint closing.placed := by
  have arrays : (arrayNames knot).length = 6 := by cbv
  have met : (visits (orderWithin knot 7).2)[9]? = some closing := by cbv
  obtain ⟨ends, enters⟩ := order_enters_once knot
  obtain ⟨trail, apart, _⟩ := (enters 7).1 closing (List.mem_of_getElem? met)
  exact ⟨arrays, (ends 7 (by omega)).1, by cbv, by cbv, List.mem_of_getElem? met, trail, apart⟩

end ReactiveLayout.Plan
