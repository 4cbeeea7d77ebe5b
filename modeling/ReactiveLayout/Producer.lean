import ReactiveLayout.Scalar

/-! Inputs that change over time. A producer answers each call with a number or a failure of its own; what it
answers may depend on how often it was called before and on where the pointer is. -/
namespace ReactiveLayout

/-- The position of the pointing device when a tick is run. -/
structure Pointer (K : Type) where
  x : K
  y : K

/-- A source of numbers, together with the count of its calls so far. -/
structure Producer (K : Type) where
  sample : Pointer K → Nat → Except String K
  calls : Nat := 0

inductive ProducerError (K : Type) where
  | failed (reason : String)
  | nonFinite (value : K)

namespace Producer
variable {K : Type} [Scalar K]

/-- A producer that goes through a list of answers and stays at the last. Without answers it yields zero. -/
def script (answers : List (Except String K)) : Producer K where
  sample _ call := (answers[min call (answers.length - 1)]?).getD (.ok 0)

def constant (value : K) : Producer K where
  sample _ _ := .ok value

def pointerX : Producer K where
  sample pointer _ := .ok pointer.x

def pointerY : Producer K where
  sample pointer _ := .ok pointer.y

/-- Calls the producer once. Only a finite number is an answer. -/
def produce (p : Producer K) (pointer : Pointer K) : Except (ProducerError K) K × Producer K :=
  let answer := match p.sample pointer p.calls with
    | .error reason => .error (.failed reason)
    | .ok value => if Scalar.isFinite value then .ok value else .error (.nonFinite value)
  (answer, { p with calls := p.calls + 1 })

end Producer

def ProducerError.message {K : Type} [Scalar K] : ProducerError K → String
  | failed reason => "Producer failed: " ++ reason
  | nonFinite value => "Producer returned a non-finite value (" ++ Scalar.text value ++ ")"

end ReactiveLayout
