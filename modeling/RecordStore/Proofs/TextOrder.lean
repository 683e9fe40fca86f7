import Mathlib.Tactic.SplitIfs
import RecordStore.Bytes

/-! # The order of texts and of their bytes

A character with a smaller code has the smaller UTF-8 form, whatever follows the two. So texts
compare by code points exactly as their UTF-8 forms compare by bytes.
-/

namespace RecordStore.Bytes

theorem ofText_eq_flatMap (s : String) : ofText s = s.toList.flatMap String.utf8EncodeChar := by
  have h : s.toByteArray = s.toList.utf8Encode := by
    rw [← String.toByteArray_ofList, String.ofList_toList]
  rw [ofText, h, List.utf8Encode, List.data_toByteArray]

theorem utf8EncodeChar_append_lt {c d : Char} (h : c < d) (x y : Bytes) :
    String.utf8EncodeChar c ++ x < String.utf8EncodeChar d ++ y := by
  have hlt : c.val.toNat < d.val.toNat := h
  have hmax : d.val.toNat < 0x110000 := by
    have hvalid := d.valid
    simp only [UInt32.isValidChar, Nat.isValidChar] at hvalid
    omega
  -- the digits of a code to the base 64, each from the one before it
  have hdiv₂ : ∀ n, n / 4096 = n / 64 / 64 := fun n => by rw [Nat.div_div_eq_div_mul]
  have hdiv₃ : ∀ n, n / 262144 = n / 64 / 64 / 64 := fun n => by
    rw [Nat.div_div_eq_div_mul, Nat.div_div_eq_div_mul]
  simp only [String.utf8EncodeChar, hdiv₂, hdiv₃]
  generalize c.val.toNat = m at hlt ⊢
  generalize d.val.toNat = n at hlt hmax ⊢
  split_ifs <;>
    simp only [List.cons_append, List.nil_append, List.cons_lt_cons_iff, UInt8.lt_iff_toNat_lt,
      ← UInt8.toNat_inj, UInt8.toNat_ofNat'] <;>
    omega

theorem utf8EncodeChar_append_pos (c : Char) (x : Bytes) :
    [] < String.utf8EncodeChar c ++ x := by
  rw [String.utf8EncodeChar]
  split_ifs <;> exact List.nil_lt_cons _ _

theorem flatMap_utf8EncodeChar_lt {a b : List Char} (h : a < b) :
    a.flatMap String.utf8EncodeChar < b.flatMap String.utf8EncodeChar := by
  induction h with
  | nil => exact utf8EncodeChar_append_pos _ _
  | rel h => exact utf8EncodeChar_append_lt h _ _
  | cons _ ih => exact List.append_left_lt ih

theorem ofText_lt_ofText {a b : String} (h : a < b) : ofText a < ofText b := by
  rw [ofText_eq_flatMap, ofText_eq_flatMap]
  exact flatMap_utf8EncodeChar_lt (String.lt_iff.mp h)

/-- Texts are ordered in full, so what takes smaller texts to smaller bytes takes no others
there. -/
theorem lt_iff_of_increasing {f : String → Bytes} (hf : ∀ a b, a < b → f a < f b) {a b : String} :
    f a < f b ↔ a < b := by
  constructor
  · intro h
    by_cases hlt : a < b
    · exact hlt
    · have hne : b ≠ a := by
        rintro rfl
        exact List.lt_irrefl _ h
      have hgt : b < a := Std.lt_of_le_of_ne (String.not_lt.mp hlt) hne
      exact (List.lt_asymm h (hf b a hgt)).elim
  · exact hf a b

end RecordStore.Bytes
