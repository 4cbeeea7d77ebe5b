import ReactiveLayout.CompileError
import ReactiveLayout.QuantityTable

/-! What the names of a specification mean at one moment of the build. A built name hides an expression of the same
name that existed before, and a quantity hides a formula. -/
namespace ReactiveLayout

/-- The quantities and formulas built so far, and the expressions that existed before. -/
structure Scope (K : Type) where
  quantities : QuantityTable K
  formulas : NameTable (Affine K)
  prebuilt : NameTable (Affine K)

namespace Scope
variable {K : Type} [Scalar K]

def binding? (s : Scope K) (name : String) : Option (Affine K) :=
  match s.quantities.id? name with
  | some id => some (.quantity id)
  | none =>
    match s.formulas.get? name with
    | some e => some e
    | none => s.prebuilt.get? name

def lookup (s : Scope K) (name : String) : Except (CompileError K) (Affine K) :=
  match s.binding? name with
  | some e => .ok e
  | none => .error (.missingReference name)

/-- Takes an expression as it is, if every quantity that it mentions exists. -/
def accept (s : Scope K) (e : Affine K) : Except (CompileError K) (Affine K) :=
  match e.quantities.find? fun id => !s.quantities.contains id with
  | some id => .error (.missingReference (quantityText id))
  | none => .ok e

/-- The expression of a built primitive. A strength has none. -/
def primitive (s : Scope K) : Primitive K → Except (CompileError K) (Affine K)
  | .quantity id => s.accept (.quantity id)
  | .expression e => s.accept e
  | .strength strength => .error (.unresolvableTerm (.strengthOperand strength))

end Scope
end ReactiveLayout
