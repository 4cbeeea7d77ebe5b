import Mathlib.Logic.Function.Basic
import ReactiveLayout.Document.Blueprint
import ReactiveLayout.Proofs.NameTable

/-! Specifications read back as documents. A token has one spelling and a spelling at most one token, so the text of a
token or of a reference is known from its term; with that a document is known from its specification, and what can be
read back is exactly what comes from documents. Every part stands at the same place in both. -/
namespace ReactiveLayout

namespace Token

def symbols : List String :=
  ["+", "-", "*", "/", "<=", ">=", "=", "<", ">", "weak", "medium", "strong", "required"]

theorem parse?_symbol (t : Token) : parse? t.symbol = some t := by
  cases t with
  | operator op => cases op <;> rfl
  | comparator comparator => cases comparator <;> rfl
  | strict comparator => cases comparator <;> rfl
  | strength strength => cases strength <;> rfl

theorem symbol_of_parse? {text : String} {t : Token} (parsed : parse? text = some t) : t.symbol = text := by
  unfold parse? at parsed
  split at parsed
  case h_10 =>
    obtain ⟨strength, named, rfl⟩ := Option.map_eq_some_iff.mp parsed
    unfold Strength.ofName? at named
    split at named <;> cases named <;> rfl
  all_goals cases parsed; rfl

/-- A token is read from its own spelling and from no other text. -/
theorem parse?_eq_some_iff {text : String} {t : Token} : parse? text = some t ↔ t.symbol = text :=
  ⟨symbol_of_parse?, fun spelled => spelled ▸ parse?_symbol t⟩

theorem mem_symbols_iff {text : String} : text ∈ symbols ↔ ∃ t, parse? text = some t := by
  constructor
  · intro member
    simp only [symbols, List.mem_cons, List.not_mem_nil, or_false] at member
    rcases member with rfl | rfl | rfl | rfl | rfl | rfl | rfl | rfl | rfl | rfl | rfl | rfl | rfl <;> exact ⟨_, rfl⟩
  · rintro ⟨t, parsed⟩
    obtain rfl := symbol_of_parse? parsed
    cases t with
    | operator op => cases op <;> decide
    | comparator comparator => cases comparator <;> decide
    | strict comparator => cases comparator <;> decide
    | strength strength => cases strength <;> decide

end Token

variable {K : Type}

namespace NameTable
variable {α β : Type}

/-- The entries that can be read, each under its name. -/
def filterMap (read : α → Option β) (t : NameTable α) : NameTable β where
  entries := t.entries.filterMap fun e => (read e.2).map fun value => (e.1, value)
  ordered := by
    refine t.ordered.sublist ?_
    rw [List.map_filterMap]
    have names (entries : List (String × α)) :
        (entries.filterMap fun e => ((read e.2).map fun value => (e.1, value)).map (·.1)).Sublist
          (entries.map (·.1)) := by
      induction entries with
      | nil => exact .slnil
      | cons e rest ih =>
        cases readable : read e.2 with
        | none => simpa [readable] using ih.cons e.1
        | some value => simpa [readable] using ih.cons_cons e.1
    exact names t.entries

/-- The table of what is read, if every entry can be read. -/
def traverse? (read : α → Option β) (t : NameTable α) : Option (NameTable β) :=
  if t.entries.all fun e => (read e.2).isSome then some (t.filterMap read) else none

theorem traverse?_eq_some_iff {read : α → Option β} {write : β → α} (inverse : ∀ x y, read x = some y ↔ write y = x)
    {t : NameTable α} {u : NameTable β} : t.traverse? read = some u ↔ u.map write = t := by
  constructor
  · intro found
    unfold traverse? at found
    split at found
    · rename_i readable
      obtain rfl := Option.some.inj found
      have entries (list : List (String × α)) (readable : list.all (fun e => (read e.2).isSome) = true) :
          (list.filterMap fun e => (read e.2).map fun value => (e.1, value)).map (fun e => (e.1, write e.2)) =
            list := by
        induction list with
        | nil => rfl
        | cons e rest ih =>
          rw [List.all_cons, Bool.and_eq_true] at readable
          obtain ⟨value, here⟩ := Option.isSome_iff_exists.mp readable.1
          simp only [List.filterMap_cons, here, Option.map_some, List.map_cons, ih readable.2, (inverse _ _).mp here]
      obtain ⟨list, ordered⟩ := t
      have same := entries list readable
      simp only [NameTable.map, NameTable.filterMap, NameTable.mk.injEq]
      exact same
    · cases found
  · rintro rfl
    have back (value : β) : read (write value) = some value := (inverse _ _).mpr rfl
    have readable : (u.map write).entries.all (fun e => (read e.2).isSome) = true := by
      simp [NameTable.map, back]
    obtain ⟨list, ordered⟩ := u
    rw [traverse?, if_pos readable]
    simp [NameTable.map, NameTable.filterMap, List.filterMap_map, back]

end NameTable

namespace Document

/-- The quantity that a term was written as. -/
def QuantityEntry.ofTerm? : Term K → Option (QuantityEntry K)
  | .number value => some (.number value)
  | .descriptor value => some (.descriptor value)
  | _ => none

theorem QuantityEntry.ofTerm?_eq_some_iff (term : Term K) (entry : QuantityEntry K) :
    ofTerm? term = some entry ↔ entry.toTerm = term := by
  cases term <;> cases entry <;> simp [ofTerm?, toTerm, eq_comm]

mutual

/-- The entry that a term was written as. A reference that spells a token cannot be written. -/
def TermEntry.ofTerm? : Term K → Option (TermEntry K)
  | .number value => some (.number value)
  | .token token => some (.text token.symbol)
  | .reference name => if name ∈ Token.symbols then none else some (.text name)
  | .array elements => (TermEntry.ofTerms? elements).map .list
  | .descriptor _ | .producer _ | .built _ => none

def TermEntry.ofTerms? : List (Term K) → Option (List (TermEntry K))
  | [] => some []
  | term :: rest =>
    match TermEntry.ofTerm? term, TermEntry.ofTerms? rest with
    | some entry, some entries => some (entry :: entries)
    | _, _ => none

end

mutual

theorem TermEntry.toTerm_of_ofTerm? : ∀ (term : Term K) {entry : TermEntry K},
    ofTerm? term = some entry → entry.toTerm = term
  | .number value, _, read => by
    cases read
    rfl
  | .token token, _, read => by
    cases read
    simp only [toTerm, Term.ofText, Token.parse?_symbol]
  | .reference name, _, read => by
    rw [ofTerm?] at read
    split at read
    · cases read
    · rename_i foreign
      obtain rfl := Option.some.inj read
      have none : Token.parse? name = none :=
        Option.eq_none_iff_forall_ne_some.mpr fun t parsed => foreign (Token.mem_symbols_iff.mpr ⟨t, parsed⟩)
      simp only [toTerm, Term.ofText, none]
  | .array elements, _, read => by
    obtain ⟨items, inner, rfl⟩ := Option.map_eq_some_iff.mp read
    rw [toTerm, toTerms_of_ofTerms? elements inner]
  | .descriptor _, _, read | .producer _, _, read | .built _, _, read => by cases read

theorem TermEntry.toTerms_of_ofTerms? : ∀ (terms : List (Term K)) {entries : List (TermEntry K)},
    ofTerms? terms = some entries → toTerms entries = terms
  | [], _, read => by
    cases read
    rfl
  | term :: rest, _, read => by
    rw [ofTerms?] at read
    split at read
    · rename_i entry entries first later
      cases read
      rw [toTerms, toTerm_of_ofTerm? term first, toTerms_of_ofTerms? rest later]
    · cases read

end

mutual

theorem TermEntry.ofTerm?_toTerm : ∀ entry : TermEntry K, ofTerm? entry.toTerm = some entry
  | .number value => rfl
  | .text name => by
    rw [toTerm, Term.ofText]
    cases parsed : Token.parse? name with
    | some t =>
      obtain rfl := Token.parse?_eq_some_iff.mp parsed
      rfl
    | none =>
      have foreign : name ∉ Token.symbols := by
        rintro member
        obtain ⟨t, spelled⟩ := Token.mem_symbols_iff.mp member
        rw [parsed] at spelled
        cases spelled
      simp only [ofTerm?, foreign, if_false]
  | .list items => by rw [toTerm, ofTerm?, ofTerms?_toTerms items, Option.map_some]

theorem TermEntry.ofTerms?_toTerms : ∀ entries : List (TermEntry K), ofTerms? (toTerms entries) = some entries
  | [] => rfl
  | entry :: rest => by rw [toTerms, ofTerms?, ofTerm?_toTerm entry, ofTerms?_toTerms rest]

end

theorem TermEntry.ofTerm?_eq_some_iff (term : Term K) (entry : TermEntry K) :
    ofTerm? term = some entry ↔ entry.toTerm = term :=
  ⟨toTerm_of_ofTerm? term, fun written => written ▸ ofTerm?_toTerm entry⟩

theorem TermEntry.ofTerms?_eq_some_iff (terms : List (Term K)) (entries : List (TermEntry K)) :
    ofTerms? terms = some entries ↔ toTerms entries = terms :=
  ⟨toTerms_of_ofTerms? terms, fun written => written ▸ ofTerms?_toTerms entries⟩

theorem TermEntry.foreign_of_toTerm {name : String} (entry : TermEntry K) (spelled : entry.toTerm = .reference name) :
    name ∉ Token.symbols := by
  have read : ofTerm? (.reference name) = some entry := spelled ▸ ofTerm?_toTerm entry
  rw [ofTerm?] at read
  split at read
  · cases read
  · assumption

theorem TermEntry.toTerms_eq_map (entries : List (TermEntry K)) : toTerms entries = entries.map toTerm := by
  induction entries with
  | nil => rfl
  | cons entry rest ih => rw [toTerms, ih, List.map_cons]

theorem mapM_eq_some_iff {α β : Type} {read : α → Option β} {write : β → α}
    (inverse : ∀ x y, read x = some y ↔ write y = x) {list : List α} {others : List β} :
    list.mapM read = some others ↔ others.map write = list := by
  induction list generalizing others with
  | nil => simp [eq_comm]
  | cons x rest ih =>
    simp only [List.mapM_cons, Option.bind_eq_bind, Option.bind_eq_some_iff, inverse, ih, Option.pure_def,
      Option.some.injEq, List.map_eq_cons_iff]
    constructor
    · rintro ⟨y, first, later, second, rfl⟩
      exact ⟨y, later, rfl, first, second⟩
    · rintro ⟨y, later, rfl, first, second⟩
      exact ⟨y, first, later, second, rfl⟩

namespace Blueprint

/-- The document that a specification was written as. Nothing that exists before can be written. -/
def ofSpecification? (s : Specification K) : Option (Blueprint K) :=
  if s.prebuilt.entries.isEmpty then
    (s.quantities.traverse? QuantityEntry.ofTerm?).bind fun quantities =>
      (s.formulas.traverse? TermEntry.ofTerm?).bind fun formulas =>
        (s.rules.mapM TermEntry.ofTerms?).map fun rules => { quantities, formulas, rules }
  else none

theorem ofSpecification?_eq_some_iff {s : Specification K} {b : Blueprint K} :
    ofSpecification? s = some b ↔ b.toSpecification = s := by
  unfold ofSpecification?
  constructor
  · intro read
    split at read
    · rename_i nothing
      obtain ⟨quantities, first, read⟩ := Option.bind_eq_some_iff.mp read
      obtain ⟨formulas, second, read⟩ := Option.bind_eq_some_iff.mp read
      obtain ⟨rules, third, rfl⟩ := Option.map_eq_some_iff.mp read
      obtain ⟨_, _, _, ⟨prebuilt, ordered⟩⟩ := s
      obtain rfl : prebuilt = [] := List.isEmpty_iff.mp nothing
      simp only [toSpecification, Specification.mk.injEq]
      exact ⟨(NameTable.traverse?_eq_some_iff QuantityEntry.ofTerm?_eq_some_iff).mp first,
        (NameTable.traverse?_eq_some_iff TermEntry.ofTerm?_eq_some_iff).mp second,
        (mapM_eq_some_iff TermEntry.ofTerms?_eq_some_iff).mp third, rfl⟩
    · cases read
  · rintro rfl
    have first : (b.quantities.map QuantityEntry.toTerm).traverse? QuantityEntry.ofTerm? = some b.quantities :=
      (NameTable.traverse?_eq_some_iff QuantityEntry.ofTerm?_eq_some_iff).mpr rfl
    have second : (b.formulas.map TermEntry.toTerm).traverse? TermEntry.ofTerm? = some b.formulas :=
      (NameTable.traverse?_eq_some_iff TermEntry.ofTerm?_eq_some_iff).mpr rfl
    have third : (b.rules.map TermEntry.toTerms).mapM TermEntry.ofTerms? = some b.rules :=
      (mapM_eq_some_iff TermEntry.ofTerms?_eq_some_iff).mpr rfl
    simp only [toSpecification, first, second, third, Option.bind_some, Option.map_some]
    rfl

end Blueprint

/-- Where a term stands in a document: inside a formula or inside an element of a rule, along positions in lists. -/
inductive Place where
  | formula (name : String) (path : List Nat)
  | element (rule index : Nat) (path : List Nat)

def TermEntry.at? : TermEntry K → List Nat → Option (TermEntry K)
  | entry, [] => some entry
  | .list items, i :: path => items[i]?.bind fun item => item.at? path
  | _, _ :: _ => none

def Blueprint.at? (b : Blueprint K) : Place → Option (TermEntry K)
  | .formula name path => (b.formulas.get? name).bind fun entry => entry.at? path
  | .element rule index path => ((b.rules[rule]?).bind fun tuple => tuple[index]?).bind fun entry => entry.at? path

end Document

def Term.at? : Term K → List Nat → Option (Term K)
  | term, [] => some term
  | .array elements, i :: path => elements[i]?.bind fun element => element.at? path
  | _, _ :: _ => none

def Specification.at? (s : Specification K) : Document.Place → Option (Term K)
  | .formula name path => (s.formulas.get? name).bind fun term => term.at? path
  | .element rule index path => ((s.rules[rule]?).bind fun tuple => tuple[index]?).bind fun term => term.at? path

namespace Document

theorem TermEntry.at?_toTerm (path : List Nat) (entry : TermEntry K) :
    entry.toTerm.at? path = (entry.at? path).map toTerm := by
  induction path generalizing entry with
  | nil => cases entry <;> rfl
  | cons i path ih =>
    cases entry with
    | number value => rfl
    | text name =>
      rw [toTerm, Term.ofText]
      cases Token.parse? name <;> rfl
    | list items =>
      rw [toTerm, Term.at?, TermEntry.at?, toTerms_eq_map, List.getElem?_map]
      cases items[i]? with
      | none => rfl
      | some item => exact ih item

namespace Blueprint
variable (b : Blueprint K)

/-- Every part of a document, and nothing else, has its term at the same place of the specification. -/
theorem at?_toSpecification (place : Place) : b.toSpecification.at? place = (b.at? place).map TermEntry.toTerm := by
  cases place with
  | formula name path =>
    have found : b.toSpecification.formulas.get? name = (b.formulas.get? name).map TermEntry.toTerm :=
      NameTable.get?_map ..
    rw [Specification.at?, Blueprint.at?, found]
    cases b.formulas.get? name with
    | none => rfl
    | some entry => exact entry.at?_toTerm path
  | element rule index path =>
    have found : b.toSpecification.rules[rule]? = (b.rules[rule]?).map TermEntry.toTerms := List.getElem?_map ..
    rw [Specification.at?, Blueprint.at?, found]
    cases b.rules[rule]? with
    | none => rfl
    | some tuple =>
      rw [Option.map_some, Option.bind_some, Option.bind_some, TermEntry.toTerms_eq_map, List.getElem?_map]
      cases tuple[index]? with
      | none => rfl
      | some entry => exact entry.at?_toTerm path

/-- What the specification of a document keeps of it. -/
structure Preserves (b : Blueprint K) (s : Specification K) : Prop where
  quantityNames : s.quantities.names = b.quantities.names
  formulaNames : s.formulas.names = b.formulas.names
  ruleLengths : s.rules.map List.length = b.rules.map List.length
  quantities : ∀ name, s.quantities.get? name = (b.quantities.get? name).map QuantityEntry.toTerm
  places : ∀ place, s.at? place = (b.at? place).map TermEntry.toTerm
  tokens : ∀ place text, b.at? place = some (.text text) →
    ((∃ t, s.at? place = some (.token t) ∧ t.symbol = text) ↔ text ∈ Token.symbols)
  references : ∀ place text, b.at? place = some (.text text) →
    (s.at? place = some (.reference text) ↔ text ∉ Token.symbols)
  foreign : ∀ place name, s.at? place = some (.reference name) → name ∉ Token.symbols

theorem preserves_toSpecification : b.Preserves b.toSpecification where
  quantityNames := NameTable.names_map ..
  formulaNames := NameTable.names_map ..
  ruleLengths := by
    simp only [toSpecification, List.map_map]
    refine List.map_congr_left fun tuple _ => ?_
    simp only [Function.comp_apply, TermEntry.toTerms_eq_map, List.length_map]
  quantities := fun name => NameTable.get?_map ..
  places := b.at?_toSpecification
  tokens := fun place text here => by
    rw [at?_toSpecification, here, Option.map_some, Token.mem_symbols_iff, TermEntry.toTerm, Term.ofText]
    cases parsed : Token.parse? text with
    | none => simp
    | some t => simp [Token.parse?_eq_some_iff.mp parsed]
  references := fun place text here => by
    rw [at?_toSpecification, here, Option.map_some, Token.mem_symbols_iff, TermEntry.toTerm, Term.ofText]
    cases Token.parse? text <;> simp
  foreign := fun place name here => by
    rw [at?_toSpecification] at here
    obtain ⟨entry, _, spelled⟩ := Option.map_eq_some_iff.mp here
    exact entry.foreign_of_toTerm spelled

/-- A specification reads back as the document that it comes from, and as nothing if it comes from none. So different
documents have different specifications, and each keeps the names, the rules, all nesting and every text. -/
theorem conversion_faithful :
    (∀ (b : Blueprint K) (s : Specification K), ofSpecification? s = some b ↔ b.toSpecification = s) ∧
      Function.Injective (toSpecification : Blueprint K → Specification K) ∧
      ∀ b : Blueprint K, b.Preserves b.toSpecification := by
  refine ⟨fun b s => ofSpecification?_eq_some_iff, fun b c same => ?_, preserves_toSpecification⟩
  have first : ofSpecification? b.toSpecification = some b := ofSpecification?_eq_some_iff.mpr rfl
  have second : ofSpecification? b.toSpecification = some c := ofSpecification?_eq_some_iff.mpr same.symm
  exact Option.some.inj (first.symm.trans second)

end Blueprint

end Document
end ReactiveLayout
