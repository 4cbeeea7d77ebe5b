import ReactiveLayout.CompileError
import ReactiveLayout.NameTable

/-! The order in which the names of a specification are built. Names that are not arrays come first, by name; each
array follows the arrays that it mentions, first mentioned first. So the plan hangs on the graph of references
alone, and a ring of references is refused with its chain. -/
namespace ReactiveLayout

/-- Names in the order in which they are built. -/
structure Plan where
  names : List String
deriving Repr, DecidableEq

namespace Plan
variable {K : Type}

def position? (p : Plan) (name : String) : Option Nat := p.names.findIdx? (· == name)

mutual

/-- Adds the names that a term mentions, at any depth, to those seen before, each once and in the order of reading.
The owner may not be among them. -/
def mentions (owner : String) : Term K → List String → Except (CompileError K) (List String)
  | .reference name, seen =>
    if name = owner then .error (.selfReference owner)
    else .ok (if name ∈ seen then seen else seen ++ [name])
  | .array elements, seen => mentionsOfAll owner elements seen
  | .number _, seen | .descriptor _, seen | .token _, seen | .producer _, seen | .built _, seen => .ok seen

def mentionsOfAll (owner : String) : List (Term K) → List String → Except (CompileError K) (List String)
  | [], seen => .ok seen
  | term :: rest, seen =>
    match mentions owner term seen with
    | .error e => .error e
    | .ok seen => mentionsOfAll owner rest seen

end

def arrayOf? (terms : NameTable (Term K)) (name : String) : Option (List (Term K)) :=
  match terms.get? name with
  | some (.array elements) => some elements
  | _ => none

def arrayNames (terms : NameTable (Term K)) : List String :=
  terms.names.filter fun name => (arrayOf? terms name).isSome

def unvisited (terms : NameTable (Term K)) (visiting : List String) : List String :=
  (arrayNames terms).filter fun name => !visiting.contains name

theorem mem_names_of_lookup {α : Type} {name : String} {value : α} {entries : List (String × α)}
    (h : entries.lookup name = some value) : name ∈ entries.map (·.1) := by
  induction entries with
  | nil => simp at h
  | cons entry rest ih =>
    obtain ⟨n, v⟩ := entry
    rw [List.lookup_cons] at h
    split at h
    · rename_i same
      simp only [List.map_cons, List.mem_cons]
      exact .inl (by simpa using same)
    · simp only [List.map_cons, List.mem_cons]
      exact .inr (ih h)

theorem mem_arrayNames_of_arrayOf? {terms : NameTable (Term K)} {name : String} {elements : List (Term K)}
    (h : arrayOf? terms name = some elements) : name ∈ arrayNames terms := by
  refine List.mem_filter.mpr ⟨?_, by simp [h]⟩
  unfold arrayOf? at h
  split at h
  · rename_i found
    exact mem_names_of_lookup found
  · cases h

/-- Entering an array that is not being visited leaves fewer of them. -/
theorem unvisited_length_lt {terms : NameTable (Term K)} {visiting : List String} {name : String}
    {elements : List (Term K)} (array : arrayOf? terms name = some elements) (fresh : ¬ name ∈ visiting) :
    (unvisited terms (visiting ++ [name])).length < (unvisited terms visiting).length := by
  have smaller : unvisited terms (visiting ++ [name]) =
      (unvisited terms visiting).filter fun n => !decide (n = name) := by
    unfold unvisited
    rw [List.filter_filter]
    congr 1
    funext n
    simp [Bool.and_comm]
  rw [smaller]
  refine List.length_filter_lt_length_iff_exists.mpr ⟨name, ?_, by simp⟩
  exact List.mem_filter.mpr ⟨mem_arrayNames_of_arrayOf? array, by simpa using fresh⟩

/-- Places a name behind the arrays that it mentions. A name that is no array, or is placed already, changes nothing;
`visiting` is the chain of arrays that led here, and to meet one of them again closes a ring. -/
def visit (terms : NameTable (Term K)) (visiting placed : List String) (name : String) :
    Except (CompileError K) (List String) :=
  match _array : arrayOf? terms name with
  | none => .ok placed
  | some elements =>
    if name ∈ placed then .ok placed
    else if _ring : name ∈ visiting then
      .error (.cyclicReference (visiting.dropWhile (· != name) ++ [name]))
    else
      match mentionsOfAll name elements [] with
      | .error e => .error e
      | .ok mentioned =>
        match mentioned.foldlM (fun placed next => visit terms (visiting ++ [name]) placed next) placed with
        | .error e => .error e
        | .ok placed => .ok (placed ++ [name])
termination_by (unvisited terms visiting).length
decreasing_by exact unvisited_length_lt _array _ring

variable [Scalar K]

/-- The names that are not arrays, in order, if each is declared as something that can be built. -/
def atoms : List (String × Term K) → Except (CompileError K) (List String)
  | [] => .ok []
  | (name, term) :: rest =>
    match term.classify with
    | .error e => .error e
    | .ok (.array _) => atoms rest
    | .ok (.reference reference) => .error (.atomicReference name reference)
    | .ok (.token token) => .error (.unresolvableTerm (.tokenDefinition name token))
    | .ok (.literal _) | .ok (.descriptor _) | .ok (.producer _) | .ok (.built _) =>
      match atoms rest with
      | .error e => .error e
      | .ok names => .ok (name :: names)

def order (terms : NameTable (Term K)) : Except (CompileError K) Plan :=
  match atoms terms.entries with
  | .error e => .error e
  | .ok names =>
    match terms.names.foldlM (fun placed name => visit terms [] placed name) names with
    | .error e => .error e
    | .ok names => .ok ⟨names⟩

end Plan
end ReactiveLayout
