import ReactiveLayout.Model
import ReactiveLayout.Settings

/-! The tick of a running layout: call every producer, suggest what they answered and what was queued, resolve, and
report what moved. Every producer is called before the first suggestion is made, and the solver resolves at most
once. -/
namespace ReactiveLayout

inductive LayoutError (K : Type) where
  | compile (error : CompileError K)
  | solver (error : SolverError K)
  /-- The producer of the named quantity did not yield a number. -/
  | producer (name : String) (source : ProducerError K)
  | config (error : ConfigError K)
  | unknownQuantity (name : String)

def LayoutError.ofBuild {K : Type} : BuildError K → LayoutError K
  | .compile error => .compile error
  | .solver error => .solver error

def LayoutError.message {K : Type} [Scalar K] : LayoutError K → String
  | compile error => error.message
  | solver error => error.message
  | producer name source => "Producer for '" ++ name ++ "' failed: " ++ source.message
  | config error => error.message
  | unknownQuantity name => "Unknown quantity '" ++ name ++ "'"

/-- The values that moved on one tick, in the order of the quantities. -/
structure ChangeSet (K : Type) where
  changes : List (String × K)

namespace ChangeSet
variable {K : Type}

def empty : ChangeSet K := ⟨[]⟩
def get? (c : ChangeSet K) (name : String) : Option K := c.changes.lookup name
def contains (c : ChangeSet K) (name : String) : Bool := (c.get? name).isSome
def size (c : ChangeSet K) : Nat := c.changes.length
def isEmpty (c : ChangeSet K) : Bool := c.changes.isEmpty
def names (c : ChangeSet K) : List String := c.changes.map (·.1)
def toTable (c : ChangeSet K) : NameTable K := .ofList c.changes

end ChangeSet

structure Scheduler (K : Type) where
  producers : List (QuantityId × Producer K)
  /-- Suggestions queued for the next tick, at most one for each quantity. -/
  pending : List (QuantityId × K) := []
  /-- The value last reported for each quantity, by number. -/
  reported : List K
  tolerance : K
  ticks : Nat := 0

/-- A scheduler with the table and the solver that it works on. -/
structure Loop (K σ : Type) where
  scheduler : Scheduler K
  quantities : QuantityTable K
  solver : σ

namespace Scheduler
variable {K : Type}

/-- A scheduler that takes the values of a table as reported. -/
def start (producers : List (QuantityId × Producer K)) (quantities : QuantityTable K) (tolerance : K) :
    Scheduler K :=
  { producers, reported := quantities.entries.map (·.value), tolerance }

def isReactive (s : Scheduler K) (id : QuantityId) : Bool := s.producers.any fun p => p.1 == id

/-- Replaces the value queued for a quantity where it stands, or queues it last. -/
def enqueue (id : QuantityId) (value : K) : List (QuantityId × K) → List (QuantityId × K)
  | [] => [(id, value)]
  | entry :: rest => if entry.1 = id then (id, value) :: rest else entry :: enqueue id value rest

def queue (s : Scheduler K) (id : QuantityId) (value : K) : Scheduler K :=
  { s with pending := enqueue id value s.pending }

end Scheduler

namespace Loop
variable {K σ : Type} [Scalar K]

/-- Calls producers in turn, up to the first without a number; the answers and the producers afterwards. -/
def produceAll (pointer : Pointer K) (quantities : QuantityTable K) :
    List (QuantityId × Producer K) → Except (LayoutError K) (List (QuantityId × K)) × List (QuantityId × Producer K)
  | [] => (.ok [], [])
  | (id, producer) :: rest =>
    match producer.produce pointer with
    | (.error source, called) => (.error (.producer ((quantities.name? id).getD "") source), (id, called) :: rest)
    | (.ok value, called) =>
      match produceAll pointer quantities rest with
      | (.error e, rest) => (.error e, (id, called) :: rest)
      | (.ok values, rest) => (.ok ((id, value) :: values), (id, called) :: rest)

/-- Whether a value counts as moved from what was last reported. -/
def moved (tolerance value reported : K) : Bool :=
  if 0 < tolerance then decide (tolerance < Scalar.magnitude (value - reported)) else !(value == reported)

/-- What a resolution comes to: the quantities with their new values, what counts as reported, and the changes. -/
structure Settled (K : Type) where
  entries : List (Quantity K)
  reported : List K
  changes : List (String × K)

/-- Takes the values of the quantities from `id` on over from `values`. A quantity without a value there stays as it
is, and one that was never reported counts as reported at zero. -/
def settle (tolerance : K) (values : QuantityId → Option K) : QuantityId → List (Quantity K) → List K → Settled K
  | _, [], reported => ⟨[], reported, []⟩
  | id, q :: rest, reported =>
    let baseline := reported.headD 0
    let later := settle tolerance values (id + 1) rest reported.tail
    match values id with
    | none => ⟨q :: later.entries, baseline :: later.reported, later.changes⟩
    | some value =>
      if moved tolerance value baseline then
        ⟨{ q with value } :: later.entries, value :: later.reported, (q.name, value) :: later.changes⟩
      else ⟨{ q with value } :: later.entries, baseline :: later.reported, later.changes⟩

variable [Solver σ K]

def suggestAll : List (QuantityId × K) → σ → Reply (SolverError K) Unit σ
  | [], solver => (.ok (), solver)
  | (id, value) :: rest, solver =>
    match Solver.suggest id value solver with
    | (.error e, solver) => (.error e, solver)
    | (.ok (), solver) => suggestAll rest solver

/-- Takes the resolved values over into the table and reports what moved. -/
def collect (l : Loop K σ) : ChangeSet K × Loop K σ :=
  let settled := settle l.scheduler.tolerance (Solver.value? l.solver) 0 l.quantities.entries l.scheduler.reported
  (⟨settled.changes⟩,
    { l with
      scheduler := { l.scheduler with reported := settled.reported }
      quantities := ⟨settled.entries⟩ })

/-- Runs one tick with the pointer at a position. The queue is emptied whether the tick succeeds or not, and an
error leaves the table and what counts as reported as they were. -/
def tick (pointer : Pointer K) (l : Loop K σ) : Reply (LayoutError K) (ChangeSet K) (Loop K σ) :=
  match produceAll pointer l.quantities l.scheduler.producers with
  | (.error e, producers) => (.error e, { l with scheduler := { l.scheduler with producers, pending := [] } })
  | (.ok produced, producers) =>
    let scheduler := { l.scheduler with producers, pending := [] }
    let suggestions := produced ++ l.scheduler.pending
    match suggestAll suggestions l.solver with
    | (.error e, solver) => (.error (.solver e), { l with scheduler, solver })
    | (.ok (), solver) =>
      let completed := { scheduler with ticks := scheduler.ticks + 1 }
      if suggestions.isEmpty && l.scheduler.ticks != 0 then (.ok .empty, { l with scheduler := completed, solver })
      else
        match Solver.resolve solver with
        | (.error e, solver) => (.error (.solver e), { l with scheduler := completed, solver })
        | (.ok (), solver) =>
          let (changes, l) := collect { l with scheduler := completed, solver }
          (.ok changes, l)

end Loop
end ReactiveLayout
