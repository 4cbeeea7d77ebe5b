import ReactiveLayout.NameTable
import ReactiveLayout.Term

/-! A layout as it is declared: named quantities and formulas, rules as tuples of terms, and expressions that exist
before the build. The tables are ordered by name, so nothing hangs on the order of declaration. -/
namespace ReactiveLayout

structure Specification (K : Type) where
  quantities : NameTable (Term K) := ∅
  formulas : NameTable (Term K) := ∅
  rules : List (List (Term K)) := []
  prebuilt : NameTable (Affine K) := ∅

namespace Specification
variable {K : Type}

def declare (s : Specification K) (name : String) (term : Term K) : Specification K :=
  { s with quantities := s.quantities.insert name term }

def define (s : Specification K) (name : String) (term : Term K) : Specification K :=
  { s with formulas := s.formulas.insert name term }

/-- The tuple of a term: an array is its elements, any other term stands alone. -/
def tupleOf : Term K → List (Term K)
  | .array elements => elements
  | term => [term]

def require (s : Specification K) (tuple : Term K) : Specification K :=
  { s with rules := s.rules ++ [tupleOf tuple] }

def assume (s : Specification K) (name : String) (e : Affine K) : Specification K :=
  { s with prebuilt := s.prebuilt.insert name e }

end Specification
end ReactiveLayout
