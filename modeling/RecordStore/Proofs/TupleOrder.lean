import RecordStore.Proofs.KeyOrder
import RecordStore.Proofs.PackedValues

/-! # The order of packed tuples

Elements are ordered by kind first: nothing, bytes, texts, tuples. Within a kind bytes and texts
have their own order, and tuples are compared element by element. Packed tuples compare byte by byte
as the tuples do, because what ends a run or a tuple is smaller than whatever continues it.
-/

namespace RecordStore.Tuple

namespace Element

def rank : Element → Nat
  | .null => 0
  | .bytes _ => 1
  | .text _ => 2
  | .nested _ => 3

inductive Before : Element → Element → Prop
  | rank {e f : Element} : e.rank < f.rank → Before e f
  | bytes {a b : Bytes} : a < b → Before (.bytes a) (.bytes b)
  | text {s t : String} : s < t → Before (.text s) (.text t)
  | nested {es fs : List Element} : List.Lex Before es fs → Before (.nested es) (.nested fs)

def code : Element → UInt8
  | .null => nullCode
  | .bytes _ => bytesCode
  | .text _ => textCode
  | .nested _ => nestedCode

theorem code_cons_lt {e f : Element} (h : e.rank < f.rank) (x y : Bytes) :
    e.code :: x < f.code :: y := by
  refine List.cons_lt_cons_iff.mpr (.inl ?_)
  cases e <;> cases f <;> simp_all [rank, code, nullCode, bytesCode, textCode, nestedCode]

theorem exists_packInner_eq (e : Element) : ∃ body, e.packInner = e.code :: body := by
  cases e <;> exact ⟨_, rfl⟩

theorem exists_pack_eq (e : Element) : ∃ body, e.pack = e.code :: body := by
  cases e <;> exact ⟨_, rfl⟩

/-- The end of a tuple is smaller than any element that continues it, a null among them. -/
theorem zero_cons_lt_packInner_append {x : Bytes} (hx : x.head? ≠ some 0xFF) (e : Element)
    (y : Bytes) : 0 :: x < e.packInner ++ y := by
  cases e with
  | null => exact List.cons_lt_cons_iff.mpr (.inr ⟨rfl, lt_cons_escape_mark hx y⟩)
  | bytes b => exact List.cons_lt_cons_iff.mpr (.inl (by decide))
  | text s => exact List.cons_lt_cons_iff.mpr (.inl (by decide))
  | nested items => exact List.cons_lt_cons_iff.mpr (.inl (by decide))

mutual

/-- Of two elements the smaller one packs to the smaller bytes, whatever may follow the two. -/
theorem packInner_append_lt {x : Bytes} (hx : x.head? ≠ some 0xFF) (y : Bytes) :
    (e f : Element) → Before e f → e.packInner ++ x < f.packInner ++ y
  | e, f, .rank h => by
    obtain ⟨body, he⟩ := e.exists_packInner_eq
    obtain ⟨body', hf⟩ := f.exists_packInner_eq
    rw [he, hf]
    exact code_cons_lt h _ _
  | .bytes a, .bytes b, .bytes h => by
    simpa [packInner, List.cons_lt_cons_iff] using escape_lt h hx y
  | .text s, .text t, .text h => by
    simpa [packInner, List.cons_lt_cons_iff] using escape_lt (Bytes.ofText_lt_ofText h) hx y
  | .nested es, .nested fs, .nested h => by
    simpa [packInner, List.cons_lt_cons_iff] using packInnerAll_append_lt hx y es fs h

theorem packInnerAll_append_lt {x : Bytes} (hx : x.head? ≠ some 0xFF) (y : Bytes) :
    (es fs : List Element) → List.Lex Before es fs →
      packInnerAll es ++ 0 :: x < packInnerAll fs ++ 0 :: y
  | [], f :: fs, .nil => by
    rw [packInnerAll, packInnerAll, List.append_assoc]
    exact zero_cons_lt_packInner_append hx f _
  | e :: es, f :: fs, .rel h => by
    have hzero : (0 :: x).head? ≠ some 0xFF := by simp
    rw [packInnerAll, packInnerAll, List.append_assoc, List.append_assoc]
    exact packInner_append_lt (head?_packInnerAll_append es hzero) _ e f h
  | e :: es, _ :: fs, .cons h => by
    rw [packInnerAll, packInnerAll, List.append_assoc, List.append_assoc]
    exact List.append_left_lt (packInnerAll_append_lt hx y es fs h)

end

/-- Outside a tuple a null packs to less, and comes before all else still. -/
theorem pack_append_lt {x : Bytes} (hx : x.head? ≠ some 0xFF) (y : Bytes) {e f : Element}
    (h : Before e f) : e.pack ++ x < f.pack ++ y := by
  cases h with
  | rank h =>
    obtain ⟨body, he⟩ := e.exists_pack_eq
    obtain ⟨body', hf⟩ := f.exists_pack_eq
    rw [he, hf]
    exact code_cons_lt h _ _
  | bytes h => exact packInner_append_lt hx y _ _ (.bytes h)
  | text h => exact packInner_append_lt hx y _ _ (.text h)
  | nested h => exact packInner_append_lt hx y _ _ (.nested h)

mutual

theorem before_trichotomy : (e f : Element) → Before e f ∨ e = f ∨ Before f e
  | .null, .null => .inr (.inl rfl)
  | .bytes a, .bytes b => by
    rcases Std.lt_trichotomy a b with h | rfl | h
    · exact .inl (.bytes h)
    · exact .inr (.inl rfl)
    · exact .inr (.inr (.bytes h))
  | .text s, .text t => by
    rcases Std.lt_trichotomy s t with h | rfl | h
    · exact .inl (.text h)
    · exact .inr (.inl rfl)
    · exact .inr (.inr (.text h))
  | .nested es, .nested fs => by
    rcases lex_trichotomy es fs with h | rfl | h
    · exact .inl (.nested h)
    · exact .inr (.inl rfl)
    · exact .inr (.inr (.nested h))
  | .null, .bytes _ | .null, .text _ | .null, .nested _ | .bytes _, .text _ | .bytes _, .nested _
  | .text _, .nested _ => .inl (.rank (by simp [rank]))
  | .bytes _, .null | .text _, .null | .text _, .bytes _ | .nested _, .null | .nested _, .bytes _
  | .nested _, .text _ => .inr (.inr (.rank (by simp [rank])))

theorem lex_trichotomy : (es fs : List Element) →
    List.Lex Before es fs ∨ es = fs ∨ List.Lex Before fs es
  | [], [] => .inr (.inl rfl)
  | [], _ :: _ => .inl .nil
  | _ :: _, [] => .inr (.inr .nil)
  | e :: es, f :: fs => by
    rcases before_trichotomy e f with h | rfl | h
    · exact .inl (.rel h)
    · rcases lex_trichotomy es fs with h | rfl | h
      · exact .inl (.cons h)
      · exact .inr (.inl rfl)
      · exact .inr (.inr (.cons h))
    · exact .inr (.inr (.rel h))

end

end Element

open Element

theorem pack_lt_of_lex {es fs : List Element} (h : List.Lex Before es fs) : pack es < pack fs := by
  induction h with
  | @nil f fs =>
    obtain ⟨body, hf⟩ := f.exists_pack_eq
    rw [pack_cons, hf]
    exact List.nil_lt_cons _ _
  | @rel e es f fs h =>
    rw [pack_cons, pack_cons]
    exact pack_append_lt (head?_pack es) _ h
  | cons _ ih =>
    rw [pack_cons, pack_cons]
    exact List.append_left_lt ih

theorem pack_inj {es fs : List Element} : pack es = pack fs ↔ es = fs := by
  constructor
  · intro h
    have hun : unpack (pack es) = unpack (pack fs) := by rw [h]
    rw [unpack_of_pack, unpack_of_pack] at hun
    exact Except.ok.inj hun
  · exact congrArg pack

theorem pack_lt_pack_iff {es fs : List Element} : pack es < pack fs ↔ List.Lex Before es fs := by
  constructor
  · intro h
    rcases lex_trichotomy es fs with hlex | rfl | hlex
    · exact hlex
    · exact (List.lt_irrefl _ h).elim
    · exact (List.lt_asymm h (pack_lt_of_lex hlex)).elim
  · exact pack_lt_of_lex

end RecordStore.Tuple

namespace RecordStore.Value

open RecordStore.Tuple RecordStore.Tuple.Element

/-- Packing keeps the order of tuples, and packs alike only what is read back alike. -/
theorem packAll_order {as bs : List Value} {es fs : List Element}
    (ha : List.Forall₂ ReadsAs as es) (hb : List.Forall₂ ReadsAs bs fs) :
    ∃ a b, packAll as = .ok a ∧ packAll bs = .ok b ∧ (a < b ↔ List.Lex Before es fs) ∧
      (a = b ↔ es = fs) :=
  ⟨_, _, packAll_eq_ok_iff.mpr ⟨es, ha, rfl⟩, packAll_eq_ok_iff.mpr ⟨fs, hb, rfl⟩,
    pack_lt_pack_iff, pack_inj⟩

/-- A tuple comes before the one with a null more. -/
theorem packAll_order_of_one_more_null :
    let as : List Value := [.buffer [0], .list [.text "a"], .null]
    let bs : List Value := [.bytes [0], .tuple [.text "a", .null]]
    ∃ es fs, List.Forall₂ ReadsAs as es ∧ List.Forall₂ ReadsAs bs fs ∧ List.Lex Before es fs ∧
      ∃ a b, packAll as = .ok a ∧ packAll bs = .ok b ∧ a < b ∧ a ≠ b := by
  intro as bs
  have ha : List.Forall₂ ReadsAs as [.bytes [0], .nested [.text "a"], .null] :=
    (toElements_eq_ok_iff as).mp rfl
  have hb : List.Forall₂ ReadsAs bs [.bytes [0], .nested [.text "a", .null]] :=
    (toElements_eq_ok_iff bs).mp rfl
  have hlex : List.Lex Before [.bytes [0], .nested [.text "a"], .null]
      [.bytes [0], .nested [.text "a", .null]] := .cons (.rel (.nested (.cons .nil)))
  obtain ⟨a, b, hpack, hpack', hlt, heq⟩ := packAll_order ha hb
  exact ⟨_, _, ha, hb, hlex, a, b, hpack, hpack', hlt.mpr hlex, fun h => by simpa using heq.mp h⟩

end RecordStore.Value
