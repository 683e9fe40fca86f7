import RecordStore.Operation
import RecordStore.Proofs.TextOrder
import RecordStore.Proofs.Unpacking

/-! # The order of stored keys

Stored keys compare as the row keys do, and different row keys are stored differently. The keys
from the first row of a table up to its range end are the rows of that table and no others.
-/

namespace RecordStore

open RecordStore.Tuple

theorem UInt8.zero_lt_of_ne {c : UInt8} (h : c ≠ 0) : 0 < c := by
  have hne : c.toNat ≠ 0 := fun e => h (UInt8.toNat_inj.mp e)
  rw [UInt8.lt_iff_toNat_lt, UInt8.toNat_zero]
  omega

theorem lt_cons_escape_mark {x : Bytes} (h : x.head? ≠ some 0xFF) (y : Bytes) : x < 0xFF :: y := by
  cases x with
  | nil => exact List.nil_lt_cons _ _
  | cons c x =>
    have hc : c.toNat ≠ 255 := fun e => h (congrArg some (UInt8.toNat_inj.mp e))
    have hmax := c.toNat_lt
    refine List.cons_lt_cons_iff.mpr (.inl ?_)
    rw [UInt8.lt_iff_toNat_lt]
    simp only [UInt8.reduceToNat]
    omega

/-- Of two ended runs the smaller one is escaped to the smaller bytes. -/
theorem Tuple.escape_lt {a b x : Bytes} (h : a < b) (hx : x.head? ≠ some 0xFF) (y : Bytes) :
    escape a ++ 0 :: x < escape b ++ 0 :: y := by
  induction h with
  | @nil c rest =>
    by_cases hc : c = 0
    · simpa [hc] using lt_cons_escape_mark hx _
    · simp [hc, List.cons_lt_cons_iff, UInt8.zero_lt_of_ne hc]
  | @rel c as d bs h =>
    have hd : d ≠ 0 := by
      rintro rfl
      simp [UInt8.lt_iff_toNat_lt] at h
    by_cases hc : c = 0
    · simp [hc, hd, List.cons_lt_cons_iff, UInt8.zero_lt_of_ne hd]
    · simp [hc, hd, List.cons_lt_cons_iff, h]
  | @cons c as bs _ ih =>
    simp only [escape_cons, List.append_assoc]
    exact List.append_left_lt ih

namespace Key

theorem pack_eq (key : String) : pack key = textCode :: (escape (.ofText key) ++ [0]) := by
  simp [pack, Element.pack, Element.packInner]

theorem pack_injective {a b : String} (h : pack a = pack b) : a = b := by
  have hun : unpack (pack a) = unpack (pack b) := by rw [h]
  simpa only [pack, unpack_of_pack, Except.ok.injEq, List.cons.injEq, Element.text.injEq,
    and_true] using hun

theorem pack_inj {a b : String} : pack a = pack b ↔ a = b :=
  ⟨pack_injective, congrArg pack⟩

theorem pack_lt_pack {a b : String} (h : a < b) : pack a < pack b := by
  rw [pack_eq, pack_eq, List.cons_lt_cons_iff]
  exact .inr ⟨rfl, escape_lt (Bytes.ofText_lt_ofText h) (by simp) _⟩

theorem pack_lt_pack_iff {a b : String} : pack a < pack b ↔ a < b :=
  Bytes.lt_iff_of_increasing fun _ _ => pack_lt_pack

theorem toList_row (db table id : String) :
    (row db table id).toList = db.toList ++ ':' :: table.toList ++ ':' :: id.toList := by
  simp [row]

theorem eq_colon_of_lt {c : Char} (hc : ¬ c < ':') (hc' : c < ';') : c = ':' := by
  have hge : ¬ c.val.toNat < 58 := hc
  have hlt : c.val.toNat < 59 := hc'
  refine Char.ext (UInt32.toNat_inj.mp ?_)
  change c.val.toNat = 58
  omega

/-- The texts from a stem with a colon and more up to the stem with a semicolon are those that
continue the stem with a colon themselves. -/
theorem colon_range_iff {stem start s : List Char} :
    ¬ s < stem ++ ':' :: start ∧ s < stem ++ [';'] ↔
      ∃ id, s = stem ++ ':' :: id ∧ ¬ id < start := by
  induction stem generalizing s with
  | nil =>
    cases s with
    | nil => simp
    | cons c rest =>
      simp only [List.nil_append, List.cons_lt_cons_iff, List.not_lt_nil, and_false, or_false,
        List.cons.injEq]
      constructor
      · rintro ⟨hstart, hend⟩
        obtain rfl := eq_colon_of_lt (fun h => hstart (.inl h)) hend
        exact ⟨rest, ⟨rfl, rfl⟩, fun h => hstart (.inr ⟨rfl, h⟩)⟩
      · rintro ⟨id, ⟨rfl, rfl⟩, hid⟩
        exact ⟨by simpa using hid, by decide⟩
  | cons a stem ih =>
    cases s with
    | nil => simp
    | cons c rest =>
      simp only [List.cons_append, List.cons_lt_cons_iff, List.cons.injEq]
      by_cases hca : c = a
      · subst hca
        simpa using ih (s := rest)
      · simp only [hca, false_and, or_false, exists_false, iff_false, not_and]
        exact fun h => h

theorem pack_mem_colon_range_iff {stem start key : String} :
    ¬ pack key < pack (stem ++ ":" ++ start) ∧ pack key < pack (stem ++ ";") ↔
      ∃ id, key = stem ++ ":" ++ id ∧ ¬ id < start := by
  have hcolon : ∀ id : String, (stem ++ ":" ++ id).toList = stem.toList ++ ':' :: id.toList := by
    simp
  have hend : (stem ++ ";").toList = stem.toList ++ [';'] := by simp
  simp only [pack_lt_pack_iff, String.lt_iff, hcolon, hend, colon_range_iff]
  constructor
  · rintro ⟨id, hkey, hid⟩
    refine ⟨.ofList id, ?_, by simpa using hid⟩
    rw [← String.toList_inj, hkey, hcolon, String.toList_ofList]
  · rintro ⟨id, rfl, hid⟩
    exact ⟨id.toList, hcolon id, hid⟩

/-- The stored keys from a row of a table up to the table's range end are the rows of the table
whose ids are not before the id of that row. -/
theorem pack_mem_range_iff {db table start key : String} :
    ¬ pack key < pack (row db table start) ∧ pack key < pack (rangeEnd table (some db)) ↔
      ∃ id, key = row db table id ∧ ¬ id < start :=
  pack_mem_colon_range_iff

/-- The bounds of a scan hold the rows of the table from an id on and nothing else, whatever
characters the names and ids are made of. So it is without a database too. -/
theorem pack_within_bounds_iff (db table start key : String) :
    (pack (row db table start) ≤ pack key ∧ pack key < pack (rangeEnd table (some db)) ↔
        ∃ id, key = row db table id ∧ start ≤ id) ∧
      (pack (table ++ ":" ++ start) ≤ pack key ∧ pack key < pack (rangeEnd table none) ↔
        ∃ id, key = table ++ ":" ++ id ∧ start ≤ id) :=
  ⟨pack_mem_range_iff, pack_mem_colon_range_iff⟩

/-- A row key whose id has a surrogate in it has no stored form. -/
theorem packText_of_surrogate :
    let t : BrokenText := ⟨[0xD800], rfl⟩
    packText (rowFrom "DB" "t" (.broken t)) = .error (.broken (t.after (row "DB" "t" ""))) := rfl

end Key
end RecordStore
