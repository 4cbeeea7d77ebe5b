import ReactiveLayout.Solver

/-! A solver that does not optimise. It keeps a record of the calls made to it, and a resolution applies the pending
suggestions in their order and then the values that it was told to force. It shows how its callers behave. -/
namespace ReactiveLayout

inductive Call (K : Type) where
  | register (id : QuantityId) (initial : K) (strength : Strength)
  | suggest (id : QuantityId) (value : K)
  | resolve
  | addRules (count : Nat)

/-- Values by quantity, in increasing order of the quantities. -/
abbrev ValueMap (K : Type) := List (QuantityId × K)

namespace ValueMap
variable {K : Type}

def set (id : QuantityId) (value : K) : ValueMap K → ValueMap K
  | [] => [(id, value)]
  | entry :: rest =>
    if id < entry.1 then (id, value) :: entry :: rest
    else if id = entry.1 then (id, value) :: rest
    else entry :: set id value rest

def update (values : ValueMap K) (id : QuantityId) (value : K) : ValueMap K :=
  if (values.lookup id).isSome then set id value values else values

end ValueMap

structure Recorder (K : Type) where
  calls : List (Call K) := []
  values : ValueMap K := []
  pending : List (QuantityId × K) := []
  forced : ValueMap K := []
  rejected : List QuantityId := []
  rules : List (Rule K) := []

namespace Recorder
variable {K : Type}

def log (r : Recorder K) (call : Call K) : Recorder K := { r with calls := r.calls ++ [call] }

def clearCalls (r : Recorder K) : Recorder K := { r with calls := [] }

def reject (r : Recorder K) (id : QuantityId) : Recorder K :=
  { r with rejected := if id ∈ r.rejected then r.rejected else r.rejected ++ [id] }

/-- From now on, settles a quantity at a value whenever it resolves. -/
def force (r : Recorder K) (id : QuantityId) (value : K) : Recorder K :=
  { r with forced := r.forced.set id value }

def resolveCount (r : Recorder K) : Nat := r.calls.countP fun | .resolve => true | _ => false

/-- The suggestions of the record, in order, whether refused or not. -/
def suggestions (r : Recorder K) : List (QuantityId × K) :=
  r.calls.filterMap fun | .suggest id value => some (id, value) | _ => none

/-- The quantities of the registrations of the record, in order, whether refused or not. -/
def registered (r : Recorder K) : List QuantityId :=
  r.calls.filterMap fun | .register id _ _ => some id | _ => none

/-- A quantity registered again is refused, but takes the new initial value. -/
def register (id : QuantityId) (initial : K) (strength : Strength) (r : Recorder K) :
    Reply (SolverError K) Unit (Recorder K) :=
  let logged := r.log (.register id initial strength)
  if strength = .required then (.error (.requiredAdjustable id), logged)
  else
    let written := { logged with values := logged.values.set id initial }
    if (r.values.lookup id).isSome then (.error (.duplicateAdjustable id), written) else (.ok (), written)

def suggest (id : QuantityId) (value : K) (r : Recorder K) : Reply (SolverError K) Unit (Recorder K) :=
  let logged := r.log (.suggest id value)
  if (r.values.lookup id).isNone then (.error (.unknownQuantity id), logged)
  else if id ∈ r.rejected then (.error (.suggestionRejected id value "rejected by test"), logged)
  else (.ok (), { logged with pending := logged.pending ++ [(id, value)] })

def resolve (r : Recorder K) : Reply (SolverError K) Unit (Recorder K) :=
  let suggested := r.pending.foldl (fun values s => values.set s.1 s.2) r.values
  let settled := r.forced.foldl (fun values f => values.update f.1 f.2) suggested
  (.ok (), { r.log .resolve with pending := [], values := settled })

def addRules (rules : List (Rule K)) (r : Recorder K) : Reply (SolverError K) Unit (Recorder K) :=
  (.ok (), { r.log (.addRules rules.length) with rules := r.rules ++ rules })

instance : Solver (Recorder K) K where
  register := register
  isAdjustable r id := (r.values.lookup id).isSome
  suggest := suggest
  resolve := resolve
  addRules := addRules
  value? r id := r.values.lookup id

end Recorder
end ReactiveLayout
