import Mathlib.Data.String.Basic
import ReactiveLayout.NameTable

/-! Names in the order of their bytes. Tables compare names character by character, which comes to the same: a greater
character has greater bytes, whatever stands behind it, because its first byte tells how many there are and the digits
of its number follow from the highest down. -/
namespace ReactiveLayout.NameTable

/-- The bytes of a name in UTF-8. -/
def bytes (name : String) : List UInt8 := name.toUTF8.data.toList

theorem bytes_eq (name : String) : bytes name = name.toList.flatMap String.utf8EncodeChar := by
  rw [bytes, String.toUTF8_eq_toByteArray, ← String.utf8Encode_toList, List.utf8Encode, List.data_toByteArray]

/-- The second letter takes two bytes. -/
example : bytes "aé" = [0x61, 0xC3, 0xA9] := by cbv

theorem byte_lt {m n : Nat} (small : n < 256) (below : m < n) : UInt8.ofNat m < UInt8.ofNat n := by
  rw [UInt8.lt_iff_toNat_lt, UInt8.toNat_ofNat', UInt8.toNat_ofNat']
  omega

theorem cons_lt {m n : Nat} (small : n < 256) (below : m < n) (xs ys : List UInt8) :
    UInt8.ofNat m :: xs < UInt8.ofNat n :: ys :=
  List.cons_lt_cons_iff.mpr (.inl (byte_lt small below))

/-- Where two bytes may be equal, what stands behind them decides. -/
theorem cons_lt_of_le {m n : Nat} {xs ys : List UInt8} (small : n < 256) (atMost : m ≤ n) (later : m = n → xs < ys) :
    UInt8.ofNat m :: xs < UInt8.ofNat n :: ys := by
  rcases Nat.lt_or_eq_of_le atMost with below | same
  · exact cons_lt small below xs ys
  · exact List.cons_lt_cons_iff.mpr (.inr ⟨congrArg UInt8.ofNat same, later same⟩)

theorem encode_lt {c d : Char} (below : c < d) (xs ys : List UInt8) :
    String.utf8EncodeChar c ++ xs < String.utf8EncodeChar d ++ ys := by
  have below : c.val.toNat < d.val.toNat := below
  have top : d.val.toNat < 1114112 := by
    rcases d.valid with low | high
    · exact Nat.lt_trans low (by decide)
    · exact high.2
  unfold String.utf8EncodeChar
  dsimp only
  generalize c.val.toNat = v at below
  generalize d.val.toNat = w at below top
  -- The cases are on how many bytes the smaller character has, and then the greater.
  split
  · repeat' split
    all_goals exact cons_lt (by omega) (by omega) _ _
  · split
    · split
      · omega
      · split
        · apply cons_lt_of_le (by omega) (by omega)
          intro high
          exact cons_lt (by omega) (by omega) _ _
        · split
          all_goals exact cons_lt (by omega) (by omega) _ _
    · split
      · split
        · omega
        · split
          · omega
          · split
            · apply cons_lt_of_le (by omega) (by omega)
              intro high
              apply cons_lt_of_le (by omega) (by omega)
              intro middle
              exact cons_lt (by omega) (by omega) _ _
            · exact cons_lt (by omega) (by omega) _ _
      · split
        · omega
        · split
          · omega
          · split
            · omega
            · apply cons_lt_of_le (by omega) (by omega)
              intro high
              apply cons_lt_of_le (by omega) (by omega)
              intro second
              apply cons_lt_of_le (by omega) (by omega)
              intro third
              exact cons_lt (by omega) (by omega) _ _

theorem flatMap_encode_lt {a b : List Char} (below : a < b) :
    a.flatMap String.utf8EncodeChar < b.flatMap String.utf8EncodeChar := by
  induction below with
  | @nil c rest =>
    obtain ⟨first, later, encoded⟩ := List.exists_cons_of_ne_nil (String.utf8EncodeChar_ne_nil (c := c))
    rw [List.flatMap_nil, List.flatMap_cons, encoded]
    exact List.nil_lt_cons _ _
  | cons _ ih =>
    rw [List.flatMap_cons, List.flatMap_cons]
    exact List.append_left_lt ih
  | rel first =>
    rw [List.flatMap_cons, List.flatMap_cons]
    exact encode_lt first _ _

theorem bytes_lt_iff {a b : String} : bytes a < bytes b ↔ a < b := by
  have forward {a b : String} (below : a < b) : bytes a < bytes b := by
    rw [bytes_eq, bytes_eq]
    exact flatMap_encode_lt below
  constructor
  · intro below
    rcases lt_trichotomy a b with less | rfl | greater
    · exact less
    · exact absurd below (List.lt_irrefl _)
    · exact absurd below (List.lt_asymm (forward greater))
  · exact forward

end ReactiveLayout.NameTable
