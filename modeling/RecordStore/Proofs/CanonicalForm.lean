import RecordStore.Proofs.PackedValues

/-! # Packed tuples are canonical

Unpacking keeps track of the bytes read so far: they are always the packed form of the elements read
and of the tuples that are still open. So what unpacking accepts is what packing makes of its
answer, and all else is refused.
-/

namespace RecordStore.Tuple

theorem exists_escape_of_terminatorFrom {start pos n : Nat} {data : Bytes}
    (h : terminatorFrom start pos data = .ok n) : ∃ raw rest,
      data = escape raw ++ 0 :: rest ∧ rest.head? ≠ some 0xFF ∧ n = pos + (escape raw).length := by
  fun_induction terminatorFrom start pos data with
  | case1 start pos rest ih =>
    obtain ⟨raw, rest', rfl, hrest, rfl⟩ := ih h
    refine ⟨0 :: raw, rest', by simp, hrest, ?_⟩
    simp only [escape_cons, if_true, List.length_append, List.length_cons, List.length_nil]
    omega
  | case2 start pos rest hmark =>
    obtain rfl := Except.ok.inj h
    refine ⟨[], rest, rfl, ?_, rfl⟩
    intro hhead
    obtain ⟨rest', rfl⟩ := List.head?_eq_some_iff.mp hhead
    exact hmark rest' rfl
  | case3 start pos b rest _ hzero ih =>
    obtain ⟨raw, rest', rfl, hrest, rfl⟩ := ih h
    have hb : b ≠ 0 := hzero
    refine ⟨b :: raw, rest', by simp [hb], hrest, ?_⟩
    simp only [escape_cons, hb, if_false, List.length_append, List.length_cons, List.length_nil]
    omega
  | case4 start pos => cases h

theorem eq_escape_of_findTerminator {n : Nat} {data : Bytes} (h : findTerminator data 0 = .ok n) :
    data = escape (unescape (data.take n)) ++ 0 :: data.drop (n + 1) := by
  obtain ⟨raw, rest, rfl, -, rfl⟩ := exists_escape_of_terminatorFrom h
  rw [Nat.zero_add, unescape_take_escape, drop_escape]

theorem Element.pack_of_ne_null {e : Element} (h : e ≠ .null) : e.pack = e.packInner := by
  cases e with
  | null => exact (h rfl).elim
  | bytes b => rfl
  | text s => rfl
  | nested items => rfl

theorem Element.packInnerAll_concat (es : List Element) (e : Element) :
    packInnerAll (es ++ [e]) = packInnerAll es ++ e.packInner := by
  induction es with
  | nil => simp [packInnerAll]
  | cons e' es ih => simp [packInnerAll, ih]

theorem pack_concat (es : List Element) (e : Element) : pack (es ++ [e]) = pack es ++ e.pack := by
  simp [pack]

/-- The bytes read once `items` are the elements, last first, of the innermost tuple that is open,
and `outer` those of the tuples around it. -/
def packOpen : List (List Element) → List Element → Bytes
  | [], items => pack items.reverse
  | above :: outer, items =>
    packOpen outer above ++ nestedCode :: Element.packInnerAll items.reverse

section Open

variable {outer : List (List Element)} {above items : List Element}

theorem packOpen_cons {e : Element} (h : e ≠ .null) :
    packOpen outer (e :: items) = packOpen outer items ++ e.packInner := by
  cases outer with
  | nil => rw [packOpen, packOpen, List.reverse_cons, pack_concat, Element.pack_of_ne_null h]
  | cons above outer =>
    rw [packOpen, packOpen, List.reverse_cons, Element.packInnerAll_concat, List.append_assoc,
      List.cons_append]

theorem packOpen_null : packOpen [] (.null :: items) = packOpen [] items ++ [nullCode] := by
  rw [packOpen, packOpen, List.reverse_cons, pack_concat, Element.pack]

theorem packOpen_innerNull :
    packOpen (above :: outer) (.null :: items) =
      packOpen (above :: outer) items ++ [nullCode, 0xFF] := by
  rw [packOpen, packOpen, List.reverse_cons, Element.packInnerAll_concat, List.append_assoc,
    List.cons_append, Element.packInner]

theorem packOpen_close :
    packOpen outer (.nested items.reverse :: above) =
      packOpen (above :: outer) items ++ [nullCode] := by
  rw [packOpen_cons (by simp), packOpen, Element.packInner, List.append_assoc]
  rfl

theorem packOpen_open : packOpen (items :: outer) [] = packOpen outer items ++ [nestedCode] := rfl

end Open

/-- Whatever is accepted, the bytes read before it with the bytes accepted are a packed tuple. -/
theorem pack_of_unpackFrom {room : Option Nat} {pos : Nat} {outer : List (List Element)}
    {items elements : List Element} {data : Bytes}
    (h : unpackFrom room pos outer items data = .ok elements) :
    pack elements = packOpen outer items ++ data := by
  fun_induction unpackFrom room pos outer items data with
  | case1 pos items =>
    obtain rfl := Except.ok.inj h
    rw [List.append_nil, packOpen]
  | case2 => cases h
  | case3 pos items rest ih => rw [ih h, packOpen_null, List.append_assoc, List.singleton_append]
  | case4 pos items rest above outer hmark ih =>
    obtain ⟨rest', rfl⟩ := List.head?_eq_some_iff.mp hmark
    rw [ih h, packOpen_innerNull, List.append_assoc]
    rfl
  | case5 pos items rest above outer hmark ih =>
    simp only [List.unattach_reverse, List.unattach_attach] at ih
    rw [ih h, packOpen_close, List.append_assoc, List.singleton_append]
  | case6 => cases h
  | case7 => cases h
  | case8 pos outer items rest _ n hend raw next _ _ ih =>
    rw [ih h, packOpen_cons (by simp), List.append_assoc]
    conv_rhs => rw [eq_escape_of_findTerminator hend]
    simp [Element.packInner, raw]
  | case9 => cases h
  | case10 pos outer items code rest hnull _ hcode n hend raw next hbytes s hs ih =>
    obtain rfl : code = textCode := hcode.resolve_left hbytes
    have hraw : raw = .ofText s := Bytes.toText?_eq_some_iff.mp hs
    rw [ih h, packOpen_cons (by simp), List.append_assoc]
    conv_rhs => rw [eq_escape_of_findTerminator hend]
    simp [Element.packInner, raw, ← hraw]
  | case11 pos outer items rest _ _ _ ih =>
    rw [ih h, packOpen_open, List.append_assoc, List.singleton_append]
  | case12 => cases h

theorem unpack_eq_ok_iff {data : Bytes} {elements : List Element} :
    unpack data = .ok elements ↔ pack elements = data := by
  constructor
  · intro h
    exact pack_of_unpackFrom h
  · rintro rfl
    exact unpack_of_pack elements

/-- An element is too deep only inside as many open tuples as there is room for, and a byte of its
own opened each of them. -/
theorem exists_limit_of_tooDeep {room : Option Nat} {pos : Nat} {outer : List (List Element)}
    {items : List Element} {data : Bytes}
    (h : unpackFrom room pos outer items data = .error .tooDeep) :
    ∃ limit ∈ room, limit ≤ outer.length + data.count nestedCode := by
  have hlater : ∀ (n : Nat) (code : UInt8) (rest : Bytes), (rest.drop n).count nestedCode ≤
      (code :: rest).count nestedCode := fun n code rest =>
    ((List.drop_sublist n rest).trans (List.sublist_cons_self code rest)).count_le _
  have hmore : ∀ {depth m n : Nat}, m ≤ n → (∃ limit ∈ room, limit ≤ depth + m) →
      ∃ limit ∈ room, limit ≤ depth + n := fun hle ⟨limit, hlimit, h⟩ =>
    ⟨limit, hlimit, Nat.le_trans h (Nat.add_le_add_left hle _)⟩
  fun_induction unpackFrom room pos outer items data with
  | case1 => cases h
  | case2 => cases h
  | case3 pos items rest ih => exact hmore (hlater 0 _ _) (ih h)
  | case4 pos items rest above outer _ ih =>
    rw [← List.drop_one] at ih h
    exact hmore (hlater _ _ _) (ih h)
  | case5 pos items rest above outer _ ih =>
    simp only [List.unattach_reverse, List.unattach_attach] at ih
    obtain ⟨limit, hlimit, hle⟩ := ih h
    have hcount := hlater 0 nullCode rest
    rw [List.drop_zero] at hcount
    exact ⟨limit, hlimit, by rw [List.length_cons]; omega⟩
  | case6 pos outer items code rest _ hfull =>
    obtain ⟨limit, hlimit, hle⟩ := (Option.any_eq_true _ _).mp hfull
    exact ⟨limit, hlimit, Nat.le_trans (of_decide_eq_true hle) (Nat.le_add_right _ _)⟩
  | case7 => cases h
  | case8 pos outer items rest _ n _ raw next _ _ ih => exact hmore (hlater _ _ _) (ih h)
  | case9 => cases h
  | case10 pos outer items code rest _ _ _ n _ raw next _ s _ ih =>
    exact hmore (hlater _ _ _) (ih h)
  | case11 pos outer items rest _ _ _ ih =>
    obtain ⟨limit, hlimit, hle⟩ := ih h
    refine ⟨limit, hlimit, ?_⟩
    rw [List.count_cons_self]
    rw [List.length_cons] at hle
    omega
  | case12 => cases h

theorem unpack_ne_tooDeep (data : Bytes) : unpack data ≠ .error .tooDeep := fun h => by
  obtain ⟨limit, hlimit, -⟩ := exists_limit_of_tooDeep h
  cases hlimit

theorem pack_of_unpackWithin {limit : Nat} {data : Bytes} {elements : List Element}
    (h : unpackWithin limit data = .ok elements) : pack elements = data := pack_of_unpackFrom h

theorem exists_packAll_iff {data : Bytes} :
    (∃ items, Value.packAll items = .ok data) ↔ ∃ elements, pack elements = data := by
  constructor
  · rintro ⟨items, h⟩
    obtain ⟨elements, -, rfl⟩ := Value.packAll_eq_ok_iff.mp h
    exact ⟨elements, rfl⟩
  · rintro ⟨elements, rfl⟩
    refine ⟨Value.ofElements elements, ?_⟩
    rw [Value.packAll, Value.toElements_ofElements]
    rfl

theorem unpack_eq_error_iff {data : Bytes} :
    (∃ e, unpack data = .error e) ↔ ∀ items, Value.packAll items ≠ .ok data := by
  rw [← not_exists, exists_packAll_iff]
  simp only [← unpack_eq_ok_iff]
  cases unpack data with
  | error e => simp
  | ok elements => simp

/-- Unpacking accepts exactly what packing produces, and each tuple in one form only. -/
theorem unpack_exact (data : Bytes) :
    ((∃ elements, unpack data = .ok elements ∧ pack elements = data) ∨
        ∃ e, unpack data = .error e) ∧
      ((∃ e, unpack data = .error e) ↔ ∀ items, Value.packAll items ≠ .ok data) ∧
      (∀ other elements, unpack data = .ok elements → unpack other = .ok elements →
        data = other) ∧
      unpack data ≠ .error .tooDeep := by
  refine ⟨?_, unpack_eq_error_iff, ?_, unpack_ne_tooDeep data⟩
  · cases h : unpack data with
    | error e => exact .inr ⟨e, rfl⟩
    | ok elements => exact .inl ⟨elements, rfl, unpack_eq_ok_iff.mp h⟩
  · intro other elements h hother
    rw [← unpack_eq_ok_iff.mp h, ← unpack_eq_ok_iff.mp hother]

/-- A tuple that ends in its last null is not closed, and one byte more closes it. -/
theorem unpack_exact_of_last_null :
    (∀ items, Value.packAll items ≠ .ok [5, 0, 0xFF]) ∧
      ∀ other, unpack other = .ok [.nested [.null]] → [5, 0, 0xFF, 0] = other := by
  constructor
  · exact (unpack_exact _).2.1.mp ⟨.unterminatedTuple, by decide +kernel⟩
  · intro other hother
    exact (unpack_exact _).2.2.1 other _ (by decide +kernel) hother

end RecordStore.Tuple
