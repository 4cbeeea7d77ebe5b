import ReactiveLayout.Specification

/-! A specification as a document can hold it: numbers, texts and lists. It has no producers, nothing built and
nothing that exists before. -/
namespace ReactiveLayout.Document

/-- A quantity, written as its value or as a record of its value. -/
inductive QuantityEntry (K : Type) where
  | number (value : K)
  | descriptor (value : K)

/-- A formula or an element of a rule. -/
inductive TermEntry (K : Type) where
  | number (value : K)
  | text (value : String)
  | list (items : List (TermEntry K))

structure Blueprint (K : Type) where
  quantities : NameTable (QuantityEntry K) := ∅
  formulas : NameTable (TermEntry K) := ∅
  rules : List (List (TermEntry K)) := []

variable {K : Type}

def QuantityEntry.toTerm : QuantityEntry K → Term K
  | number value => .number value
  | descriptor value => .descriptor value

mutual

/-- The term of an entry. A text is a token if it spells one, and a reference otherwise. -/
def TermEntry.toTerm : TermEntry K → Term K
  | .number value => .number value
  | .text value => .ofText value
  | .list items => .array (TermEntry.toTerms items)

def TermEntry.toTerms : List (TermEntry K) → List (Term K)
  | [] => []
  | item :: rest => item.toTerm :: TermEntry.toTerms rest

end

def Blueprint.toSpecification (b : Blueprint K) : Specification K where
  quantities := b.quantities.map QuantityEntry.toTerm
  formulas := b.formulas.map TermEntry.toTerm
  rules := b.rules.map TermEntry.toTerms

end ReactiveLayout.Document
