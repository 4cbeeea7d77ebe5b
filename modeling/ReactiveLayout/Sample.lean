import ReactiveLayout.Specification

/-! Specifications to try a layout on: a box that follows a dragging pointer but stays inside the region from 20 to
400 and keeps at least its size of 200, and a constant beside a producer. -/
namespace ReactiveLayout.Sample
variable {K : Type} [Scalar K]

private def num (value : Int) : Term K := .number (Scalar.ofRat value)

private def formula (elements : List (Term K)) : Term K := .array elements

/-- A box whose left and top edges follow the pointer. Its right edge is counted from 125 further left, so it may
extend past the region on that side by as much. -/
def dragBox : Specification K :=
  let atLeast (name : String) (bound : Int) : Term K :=
    formula [.ofText name, .ofText ">=", num bound, .ofText "required"]
  let atMost (name : String) (bound : Int) : Term K :=
    formula [.ofText name, .ofText "<=", num bound, .ofText "required"]
  let spec : Specification K := {}
  spec
    |>.declare "width" (num 200)
    |>.declare "height" (num 200)
    |>.declare "left" (.producer .pointerX)
    |>.declare "top" (.producer .pointerY)
    |>.define "right" (formula [.ofText "left", .ofText "+", .ofText "width", .ofText "-", num 125])
    |>.define "bottom" (formula [.ofText "top", .ofText "+", .ofText "height"])
    |>.require (atLeast "width" 200)
    |>.require (atLeast "height" 200)
    |>.require (atLeast "left" 20)
    |>.require (atLeast "top" 20)
    |>.require (atMost "right" 400)
    |>.require (atMost "bottom" 400)

def constantAndProducer : Specification K :=
  let spec : Specification K := {}
  spec
    |>.declare "a" (num 1)
    |>.declare "b" (.producer (.constant (Scalar.ofRat 2)))

end ReactiveLayout.Sample
