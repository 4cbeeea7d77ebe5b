import ReactiveLayout.Engine
import ReactiveLayout.Simplex

/-! The engine that settles a layout. Every editable variable is drawn to the value last suggested for it. Constraints
at required strength hold exactly; among the points where they do, a settling takes one that minimises the sum of all
other violations, each times its level. The search is exact: it runs on rationals, and only its result is rounded to
scalars. A constraint whose form has no finite offset holds everywhere or nowhere; where it holds it is no constraint,
and where it does not it only draws to one side. -/
namespace ReactiveLayout

/-- An editable variable: what was suggested for it and what the last settling gave it. -/
structure Adjustable (K : Type) where
  id : QuantityId
  level : K
  suggested : K
  value : K
  /-- Its coordinate in a point where all required constraints hold. -/
  anchor : Rat

structure Optimizer (K : Type) where
  adjustables : List (Adjustable K) := []
  constraints : List (Constraint K) := []

variable {K : Type} [Scalar K]

def Affine.exact (e : Affine K) : Affine Rat :=
  ⟨e.terms.map fun t => (t.1, Scalar.toRat t.2), Scalar.toRat e.offset⟩

namespace Constraint

/-- Whether the form can come to zero. A form whose offset is not finite lies on one side of zero everywhere. -/
def isNear (c : Constraint K) : Bool := Scalar.isFinite c.form.offset

/-- The side of zero on which a form lies that is not near. -/
def side (c : Constraint K) : Rat := if c.form.offset < 0 then -1 else 1

def holdsAt (c : Constraint K) (point : QuantityId → Rat) : Bool :=
  c.comparator.holdsAt (if c.isNear then c.form.exact.evaluate point else c.side)

/-- Whether the constraint holds nowhere, since its form lies on the wrong side of zero. -/
def isLost (c : Constraint K) : Bool := !c.isNear && !c.comparator.holdsAt c.side

/-- How much farther a lost form lies on the wrong side for one unit of a quantity. -/
def slope (c : Constraint K) (id : QuantityId) : Rat := c.side * c.form.exact.coefficient id

def penalty (c : Constraint K) : Simplex.Cost := if c.isHard then ⟨1, 0⟩ else ⟨0, Scalar.toRat c.level⟩

end Constraint

namespace Optimizer

def find? (m : Optimizer K) (id : QuantityId) : Option (Adjustable K) := m.adjustables.find? (·.id == id)

/-- The value that the last settling gave a variable; one that is not editable counts as zero. -/
def valueAt (m : Optimizer K) (id : QuantityId) : K := ((m.find? id).map (·.value)).getD 0

def target (m : Optimizer K) (id : QuantityId) : Rat := ((m.find? id).map fun a => Scalar.toRat a.suggested).getD 0

/-- The point known to satisfy the required constraints. -/
def anchored (m : Optimizer K) (id : QuantityId) : Rat := ((m.find? id).map (·.anchor)).getD 0

/-- The form of one constraint as the difference of its parts above and below zero, one of which is basic at the
suggestions and the other a column. -/
structure Split where
  basic : Nat
  basicCost : Simplex.Cost
  other : Nat
  otherCost : Simplex.Cost
  constant : Rat
  slopes : List Rat

/-- Splits the form of a constraint; `above` and the next number are the variables of its parts. -/
def split (m : Optimizer K) (c : Constraint K) (above : Nat) : Split :=
  let form := c.form.exact
  let start := form.evaluate m.target
  let slopes := m.adjustables.flatMap fun (a : Adjustable K) =>
    let slope := form.coefficient a.id
    [slope, -slope]
  let aboveCost := if c.comparator = .greaterOrEqual then .zero else c.penalty
  let belowCost := if c.comparator = .lessOrEqual then .zero else c.penalty
  if 0 ≤ start then ⟨above, aboveCost, above + 1, belowCost, start, slopes⟩
  else ⟨above + 1, belowCost, above, aboveCost, -start, slopes.map fun slope => -slope⟩

/-- The dictionary of an optimisation, from the prices of one unit of each quantity's distance from its suggestion and
of the quantity itself. The variables come in pairs, the parts above and below zero of those distances, and then of
the forms of the constraints that are near. -/
def dictionary (m : Optimizer K) (distance : Adjustable K → Rat) (pull : QuantityId → Rat)
    (constraints : List (Constraint K)) : Simplex.Dictionary :=
  let draws := m.adjustables.zipIdx.flatMap fun ((a : Adjustable K), j) =>
    [(2 * j, (⟨0, distance a + pull a.id⟩ : Simplex.Cost)), (2 * j + 1, ⟨0, distance a - pull a.id⟩)]
  let splits := (constraints.filter (·.isNear)).zipIdx.map fun (c, i) => m.split c (2 * (m.adjustables.length + i))
  let columns := draws ++ splits.map fun s => (s.other, s.otherCost)
  let rows := splits.zipIdx.map fun (s, i) =>
    let units := (List.range splits.length).map fun k => if k = i then 1 else 0
    ({ basic := s.basic, constant := s.constant, coefficients := s.slopes ++ units } : Simplex.Row)
  let prices := (splits.zip rows).foldl
    (fun prices (s, row) => List.zipWith (fun p c => p.addMultiple c s.basicCost) prices row.coefficients)
    (columns.map (·.2))
  { columns := columns.map (·.1), rows, prices }

/-- The dictionary of a resolution. A lost constraint costs its level for every unit that its form lies farther off. -/
def settling (m : Optimizer K) (constraints : List (Constraint K)) : Simplex.Dictionary :=
  let lost := constraints.filter (·.isLost)
  let pull (id : QuantityId) := (lost.map fun c => Scalar.toRat c.level * c.slope id).sum
  m.dictionary (fun a => Scalar.toRat a.level) pull constraints

/-- The dictionary of an approach to a lost constraint, as near as the required constraints allow. -/
def approach (m : Optimizer K) (c : Constraint K) : Simplex.Dictionary :=
  m.dictionary (fun _ => 0) c.slope (m.constraints.filter (·.isHard))

def optimum (m : Optimizer K) (constraints : List (Constraint K)) : List Rat :=
  let d := (m.settling constraints).optimize
  m.adjustables.zipIdx.map fun (a, j) => Scalar.toRat a.suggested + d.valueOf (2 * j) - d.valueOf (2 * j + 1)

def anchorAt (m : Optimizer K) (coordinates : List Rat) : Optimizer K :=
  { m with adjustables := List.zipWith (fun a x => { a with anchor := x }) m.adjustables coordinates }

def satisfiesHard (constraints : List (Constraint K)) (point : QuantityId → Rat) : Bool :=
  constraints.all fun c => !c.isHard || c.holdsAt point

def reanchor? (m : Optimizer K) (constraints : List (Constraint K)) : Option (Optimizer K) :=
  if satisfiesHard constraints m.anchored then some m
  else
    let moved := m.anchorAt (m.optimum constraints)
    if satisfiesHard constraints moved.anchored then some moved else none

def addEdit (id : QuantityId) (level : K) (m : Optimizer K) : Reply Engine.EditError Unit (Optimizer K) :=
  if (m.find? id).isSome then (.error .duplicate, m)
  else if level < Strength.required.level then
    (.ok (), { m with adjustables := m.adjustables ++ [⟨id, level, 0, 0, 0⟩] })
  else (.error .required, m)

/-- The variable drawn to a new value. Once it has been drawn to a value that is not finite, no move leads back. -/
def redraw (value : K) (a : Adjustable K) : Adjustable K :=
  { a with suggested := if Scalar.isFinite a.suggested then value else a.suggested - a.suggested }

/-- Draws a variable to a value. As long as there is no constraint, its anchor follows. -/
def suggest (id : QuantityId) (value : K) (m : Optimizer K) : Reply Engine.SuggestError Unit (Optimizer K) :=
  if (m.find? id).isNone then (.error .unknown, m)
  else
    let anchored (a : Adjustable K) := if m.constraints.isEmpty then { a with anchor := Scalar.toRat value } else a
    (.ok (), { m with adjustables := m.adjustables.map fun a => if a.id = id then anchored (redraw value a) else a })

/-- A settled zero has no sign. -/
def unsigned (x : K) : K := if x == 0 then 0 else x

/-- Takes the suggestions as they are if they violate nothing, and else the optimum. Rounding aside, the result
satisfies the required constraints: should an optimum not do so, the anchors are taken. -/
def settle (m : Optimizer K) : Optimizer K :=
  if m.constraints.all fun c => c.holdsAt m.target then
    { m with adjustables := m.adjustables.map fun a => { a with value := unsigned a.suggested } }
  else
    let moved := m.anchorAt (m.optimum m.constraints)
    let chosen := if satisfiesHard m.constraints moved.anchored then moved else m
    { chosen with adjustables := chosen.adjustables.map fun a => { a with value := Scalar.ofRat a.anchor } }

def addConstraint (c : Constraint K) (m : Optimizer K) : Reply Engine.ConstraintError Unit (Optimizer K) :=
  let constraints := m.constraints ++ [c]
  if c.isLost then
    let d := if c.isHard then m.approach c else m.settling constraints
    if d.isUnbounded then (.error .unbounded, m)
    else if c.isHard then (.error .unsatisfiable, m)
    else (.ok (), { m with constraints })
  else if c.isHard then
    match m.reanchor? constraints with
    | some moved => (.ok (), { moved with constraints })
    | none => (.error .unsatisfiable, m)
  else (.ok (), { m with constraints })

instance : Engine (Optimizer K) K where
  fresh := {}
  addEdit := addEdit
  isEdit m id := (m.find? id).isSome
  suggest := suggest
  addConstraint := addConstraint
  settle := settle
  value := valueAt

end Optimizer

abbrev Minimizer (K : Type) [Scalar K] := EngineSolver (Optimizer K) K

end ReactiveLayout
