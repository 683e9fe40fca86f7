import RecordStore.Tuple.Unpack

/-! # Unpacking what was packed

An escaped run followed by a zero byte is found whole, whatever comes after it, as long as that does
not begin with `FF`. No packed element begins with `FF`, so unpacking takes elements apart where
packing put them together, if there is room for the tuples that it has to open on the way.
-/

namespace RecordStore.Tuple

@[simp] theorem unescape_escape (raw : Bytes) : unescape (escape raw) = raw := by
  induction raw with
  | nil => rfl
  | cons b rest ih =>
    by_cases hb : b = 0
    · simp [hb, unescape, ih]
    · simp [hb, unescape, ih]

theorem terminatorFrom_zero {start pos : Nat} {rest : Bytes} (h : rest.head? ≠ some 0xFF) :
    terminatorFrom start pos (0 :: rest) = .ok pos := by
  cases rest with
  | nil => simp [terminatorFrom]
  | cons b rest =>
    have hb : b ≠ 0xFF := by simpa using h
    simp [terminatorFrom, hb]

theorem terminatorFrom_cons_of_ne {start pos : Nat} {b : UInt8} {rest : Bytes} (hb : b ≠ 0) :
    terminatorFrom start pos (b :: rest) = terminatorFrom start (pos + 1) rest := by
  rw [terminatorFrom]
  · exact fun _ e => (hb e).elim
  · exact hb

theorem terminatorFrom_escape {start pos : Nat} (raw : Bytes) {rest : Bytes}
    (h : rest.head? ≠ some 0xFF) :
    terminatorFrom start pos (escape raw ++ 0 :: rest) = .ok (pos + (escape raw).length) := by
  induction raw generalizing start pos with
  | nil => simpa using terminatorFrom_zero h
  | cons b raw ih =>
    by_cases hb : b = 0
    · simp only [hb, escape_cons, if_true, List.cons_append, List.nil_append, terminatorFrom, ih,
        List.length_cons]
      congr 1
      omega
    · simp only [escape_cons, hb, if_false, List.cons_append, List.nil_append,
        terminatorFrom_cons_of_ne hb, ih, List.length_cons]
      congr 1
      omega

theorem findTerminator_escape (raw : Bytes) {rest : Bytes} (h : rest.head? ≠ some 0xFF) :
    findTerminator (escape raw ++ 0 :: rest) 0 = .ok (escape raw).length := by
  simp [findTerminator, terminatorFrom_escape raw h]

theorem unescape_take_escape (raw rest : Bytes) :
    unescape ((escape raw ++ 0 :: rest).take (escape raw).length) = raw := by
  rw [List.take_left, unescape_escape]

theorem drop_escape (raw rest : Bytes) :
    (escape raw ++ 0 :: rest).drop ((escape raw).length + 1) = rest := by
  simp

namespace Element

mutual

def depth : Element → Nat
  | .nested items => depthAll items
  | _ => 0

def depthAll : List Element → Nat
  | [] => 0
  | e :: rest => max (e.depth + 1) (depthAll rest)

end

end Element

section Element

variable {room : Option Nat} {pos : Nat} {outer : List (List Element)} {items : List Element}
  {rest : Bytes}

theorem any_le_eq_false {n : Nat} (h : ∀ limit ∈ room, n < limit) :
    room.any (· ≤ n) = false := by
  cases room with
  | none => rfl
  | some limit => simpa using h limit rfl

theorem unpackFrom_bytes (hroom : ∀ limit ∈ room, outer.length < limit) (b : Bytes)
    (h : rest.head? ≠ some 0xFF) :
    unpackFrom room pos outer items (bytesCode :: (escape b ++ 0 :: rest)) =
      unpackFrom room (pos + 1 + (escape b).length + 1) outer (.bytes b :: items) rest := by
  have hnull : bytesCode ≠ nullCode := by decide
  rw [unpackFrom.eq_def]
  simp only [hnull, if_false, any_le_eq_false hroom, Bool.false_eq_true, true_or, if_true,
    findTerminator_escape b h, unescape_take_escape, drop_escape]

theorem unpackFrom_text (hroom : ∀ limit ∈ room, outer.length < limit) (s : String)
    (h : rest.head? ≠ some 0xFF) :
    unpackFrom room pos outer items (textCode :: (escape (.ofText s) ++ 0 :: rest)) =
      unpackFrom room (pos + 1 + (escape (.ofText s)).length + 1) outer (.text s :: items) rest := by
  have hnull : textCode ≠ nullCode := by decide
  have hbytes : textCode ≠ bytesCode := by decide
  rw [unpackFrom.eq_def]
  simp only [hnull, hbytes, if_false, any_le_eq_false hroom, Bool.false_eq_true, or_true, if_true,
    findTerminator_escape _ h, unescape_take_escape, drop_escape, Bytes.toText?_ofText]

theorem unpackFrom_open (hroom : ∀ limit ∈ room, outer.length < limit) :
    unpackFrom room pos outer items (nestedCode :: rest) =
      unpackFrom room (pos + 1) (items :: outer) [] rest := by
  have hnull : nestedCode ≠ nullCode := by decide
  have hrun : ¬ (nestedCode = bytesCode ∨ nestedCode = textCode) := by decide
  rw [unpackFrom.eq_def]
  simp only [hnull, hrun, if_false, any_le_eq_false hroom, Bool.false_eq_true, if_true]

theorem unpackFrom_close {above : List Element} (h : rest.head? ≠ some 0xFF) :
    unpackFrom room pos (above :: outer) items (0 :: rest) =
      unpackFrom room (pos + 1) outer (.nested items.reverse :: above) rest := by
  rw [unpackFrom.eq_def]
  simp only [nullCode, if_true, h, if_false]

theorem unpackFrom_innerNull {above : List Element} :
    unpackFrom room pos (above :: outer) items (nullCode :: 0xFF :: rest) =
      unpackFrom room (pos + 2) (above :: outer) (.null :: items) rest := by
  rw [unpackFrom.eq_def]
  simp only [if_true, List.head?_cons, List.tail_cons]

theorem unpackFrom_null :
    unpackFrom room pos [] items (nullCode :: rest) =
      unpackFrom room (pos + 1) [] (.null :: items) rest := by
  rw [unpackFrom.eq_def]
  simp only [if_true]

end Element

/-- No packed element begins with the byte that marks an escaped zero. -/
theorem Element.head?_packInner_append (e : Element) (rest : Bytes) :
    (e.packInner ++ rest).head? ≠ some 0xFF := by
  cases e <;> simp [packInner, nullCode, bytesCode, textCode, nestedCode]

theorem head?_packInnerAll_append (es : List Element) {rest : Bytes} (h : rest.head? ≠ some 0xFF) :
    (Element.packInnerAll es ++ rest).head? ≠ some 0xFF := by
  cases es with
  | nil => exact h
  | cons e es =>
    rw [Element.packInnerAll, List.append_assoc]
    exact e.head?_packInner_append _

theorem Element.head?_pack_append (e : Element) (rest : Bytes) :
    (e.pack ++ rest).head? ≠ some 0xFF := by
  cases e <;> simp [pack, packInner, nullCode, bytesCode, textCode, nestedCode]

theorem head?_pack (es : List Element) : (pack es).head? ≠ some 0xFF := by
  cases es with
  | nil => simp
  | cons e es =>
    rw [pack_cons]
    exact e.head?_pack_append _

variable {room : Option Nat}

mutual

/-- An element that packs alike inside a tuple and outside is read back from either place, and put
before those read so far. -/
theorem unpackFrom_packInner (pos : Nat) (outer : List (List Element)) (items : List Element)
    {rest : Bytes} (h : rest.head? ≠ some 0xFF) : (e : Element) → e ≠ .null →
    (∀ limit ∈ room, outer.length + e.depth < limit) →
    ∃ pos', unpackFrom room pos outer items (e.packInner ++ rest) =
      unpackFrom room pos' outer (e :: items) rest
  | .null, hnull, _ => (hnull rfl).elim
  | .bytes b, _, hroom => by
    simp only [Element.packInner, List.cons_append, List.append_assoc, List.nil_append]
    exact ⟨_, unpackFrom_bytes hroom b h⟩
  | .text s, _, hroom => by
    simp only [Element.packInner, List.cons_append, List.append_assoc, List.nil_append]
    exact ⟨_, unpackFrom_text hroom s h⟩
  | .nested es, _, hroom => by
    have hzero : (0 :: rest).head? ≠ some 0xFF := by simp
    have houter : ∀ limit ∈ room, outer.length < limit := fun limit hlimit =>
      Nat.lt_of_le_of_lt (Nat.le_add_right _ _) (hroom limit hlimit)
    obtain ⟨pos', hes⟩ := unpackFrom_packInnerAll (pos + 1) items outer [] hzero es hroom
    refine ⟨pos' + 1, ?_⟩
    simp only [Element.packInner, List.cons_append, List.append_assoc, List.nil_append]
    rw [unpackFrom_open houter, hes, unpackFrom_close h, List.append_nil, List.reverse_reverse]

theorem unpackFrom_packInnerAll (pos : Nat) (above : List Element) (outer : List (List Element))
    (items : List Element) {rest : Bytes} (h : rest.head? ≠ some 0xFF) : (es : List Element) →
    (∀ limit ∈ room, outer.length + Element.depthAll es < limit) →
    ∃ pos', unpackFrom room pos (above :: outer) items (Element.packInnerAll es ++ rest) =
      unpackFrom room pos' (above :: outer) (es.reverse ++ items) rest
  | [], _ => ⟨pos, rfl⟩
  | e :: es, hroom => by
    have hroomHead : ∀ limit ∈ room, (above :: outer).length + e.depth < limit :=
      fun limit hlimit => by
        have := hroom limit hlimit
        rw [Element.depthAll] at this
        rw [List.length_cons]
        omega
    have hroomTail : ∀ limit ∈ room, outer.length + Element.depthAll es < limit :=
      fun limit hlimit => by
        have := hroom limit hlimit
        rw [Element.depthAll] at this
        omega
    obtain ⟨pos₁, he⟩ : ∃ pos₁, unpackFrom room pos (above :: outer) items
        (e.packInner ++ (Element.packInnerAll es ++ rest)) =
          unpackFrom room pos₁ (above :: outer) (e :: items) (Element.packInnerAll es ++ rest) := by
      by_cases hnull : e = .null
      · exact hnull ▸ ⟨_, unpackFrom_innerNull⟩
      · exact unpackFrom_packInner _ _ _ (head?_packInnerAll_append es h) e hnull hroomHead
    obtain ⟨pos₂, hes⟩ := unpackFrom_packInnerAll pos₁ above outer (e :: items) h es hroomTail
    refine ⟨pos₂, ?_⟩
    rw [Element.packInnerAll, List.append_assoc, he, hes, List.reverse_cons, List.append_assoc,
      List.singleton_append]

end

theorem unpackFrom_packElement (pos : Nat) (items : List Element) {rest : Bytes}
    (h : rest.head? ≠ some 0xFF) (e : Element) (hroom : ∀ limit ∈ room, e.depth < limit) :
    ∃ pos', unpackFrom room pos [] items (e.pack ++ rest) =
      unpackFrom room pos' [] (e :: items) rest := by
  have hroom' : ∀ limit ∈ room, ([] : List (List Element)).length + e.depth < limit := by
    simpa using hroom
  cases e with
  | null => exact ⟨_, unpackFrom_null⟩
  | bytes b => exact unpackFrom_packInner _ _ _ h (.bytes b) (by simp) hroom'
  | text s => exact unpackFrom_packInner _ _ _ h (.text s) (by simp) hroom'
  | nested es => exact unpackFrom_packInner _ _ _ h (.nested es) (by simp) hroom'

theorem unpackFrom_pack (pos : Nat) (items es : List Element)
    (hroom : ∀ e ∈ es, ∀ limit ∈ room, e.depth < limit) :
    unpackFrom room pos [] items (pack es) = .ok (items.reverse ++ es) := by
  induction es generalizing pos items with
  | nil =>
    rw [pack_nil, unpackFrom.eq_def]
    simp
  | cons e es ih =>
    obtain ⟨pos', he⟩ := unpackFrom_packElement pos items (head?_pack es) e
      (hroom e List.mem_cons_self)
    rw [pack_cons, he, ih _ _ fun e he => hroom e (List.mem_cons_of_mem _ he)]
    simp

theorem unpack_of_pack (items : List Element) : unpack (pack items) = .ok items :=
  unpackFrom_pack 0 [] items nofun

theorem unpackWithin_of_pack {limit : Nat} {items : List Element}
    (h : ∀ e ∈ items, e.depth < limit) : unpackWithin limit (pack items) = .ok items :=
  unpackFrom_pack 0 [] items fun e he _ hlimit => Option.some.inj hlimit ▸ h e he

end RecordStore.Tuple
