import Mathlib.Data.List.Lex
import Mathlib.Data.String.Basic

/-!
# The bytes of a text

A text is determined by its UTF-8 bytes, and texts are in the order of their
code points exactly if their bytes are in order. A character with a smaller
code point has a smaller byte at the first place where the two encodings
differ, and there is such a place before either of them ends.
-/

namespace ExperimentSuite

namespace Text

/-- The UTF-8 bytes of a text. -/
def bytes (s : String) : List UInt8 :=
  s.toUTF8.toList

theorem toList_byteArray (b : ByteArray) : b.toList = b.data.toList := by
  have hloop : ∀ (i : Nat) (read : List UInt8),
      ByteArray.toList.loop b i read = read.reverse ++ b.data.toList.drop i := by
    intro i read
    fun_induction ByteArray.toList.loop b i read with
    | case1 i read hlt ih =>
        have hlen : i < b.data.toList.length := hlt
        have hget : b.get! i = b.data.toList[i] := getElem!_pos b.data i hlt
        rw [ih, List.reverse_cons, List.append_assoc, hget, List.drop_eq_getElem_cons hlen]
        rfl
    | case2 i read hge =>
        rw [List.drop_eq_nil_of_le (by simpa using Nat.le_of_not_lt hge), List.append_nil]
  exact hloop 0 []

/-- The bytes of a text are those of its characters. -/
theorem bytes_eq_flatMap (s : String) : bytes s = s.toList.flatMap String.utf8EncodeChar := by
  have hs : s.toUTF8 = s.toList.utf8Encode := by
    rw [← String.toByteArray_ofList, String.ofList_toList]
    rfl
  rw [bytes, toList_byteArray, hs, List.utf8Encode, List.toList_data_toByteArray]

theorem bytes_injective : Function.Injective bytes := by
  intro s t h
  rw [bytes, bytes, toList_byteArray, toList_byteArray, Array.toList_inj] at h
  exact String.toByteArray_inj.mp (ByteArray.ext h)

/-- The encodings of two characters compare like the characters, whatever follows them. -/
theorem utf8EncodeChar_append_lt {a b : Char} (h : a < b) (p q : List UInt8) :
    String.utf8EncodeChar a ++ p < String.utf8EncodeChar b ++ q := by
  have hlt : a.val.toNat < b.val.toNat := h
  have hbound : b.val.toNat < 0x110000 := by
    rcases b.valid with hvalid | ⟨-, hvalid⟩
    · exact hvalid.trans (by decide)
    · exact hvalid
  simp only [String.utf8EncodeChar]
  generalize a.val.toNat = m at *
  generalize b.val.toNat = n at *
  -- One case for each pair of lengths. A longer encoding has a greater first byte.
  split_ifs <;>
    simp only [List.cons_append, List.nil_append, List.cons_lt_cons_iff, UInt8.lt_iff_toNat_lt,
      UInt8.toNat_ofNat', ← UInt8.toNat_inj]
  any_goals omega
  -- Of two encodings with four bytes the first groups of bits may be the same.
  rcases (Nat.div_le_div_right hlt.le : m / 262144 ≤ n / 262144).lt_or_eq with hfirst | hfirst
  · omega
  · refine .inr ⟨by rw [hfirst], ?_⟩
    rcases (Nat.div_le_div_right hlt.le : m / 4096 ≤ n / 4096).lt_or_eq with hsecond | hsecond
    · omega
    · refine .inr ⟨by rw [hsecond], ?_⟩
      omega

theorem flatMap_utf8EncodeChar_lt {as bs : List Char} (h : as < bs) :
    as.flatMap String.utf8EncodeChar < bs.flatMap String.utf8EncodeChar := by
  induction h with
  | @nil b bs =>
      obtain ⟨first, rest, hb⟩ := List.exists_cons_of_ne_nil
        (String.utf8EncodeChar_ne_nil (c := b))
      rw [List.flatMap_cons, hb]
      exact List.nil_lt_cons ..
  | rel hab => exact utf8EncodeChar_append_lt hab _ _
  | cons _ ih => exact List.append_left_lt ih

/-- Texts are in order exactly if their bytes are. -/
theorem bytes_lt_iff {s t : String} : bytes s < bytes t ↔ s < t := by
  have hmono : ∀ {s t : String}, s < t → bytes s < bytes t := by
    intro s t h
    rw [bytes_eq_flatMap, bytes_eq_flatMap]
    exact flatMap_utf8EncodeChar_lt (String.lt_iff_toList_lt.mp h)
  refine ⟨fun h => ?_, hmono⟩
  rcases lt_trichotomy s t with hlt | rfl | hgt
  · exact hlt
  · exact absurd h (List.lt_irrefl _)
  · exact absurd h (List.lt_asymm (hmono hgt))

end Text

end ExperimentSuite
