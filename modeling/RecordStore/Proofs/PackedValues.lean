import Mathlib.Data.List.Forall2
import RecordStore.Proofs.Unpacking
import RecordStore.Value

/-! # Packing values

The values that a packed tuple can hold are those built from nothing, bytes, buffers and texts by
tuples and lists. Unpacking gives back what was packed, a buffer as bytes and a list as a tuple.
-/

namespace RecordStore.Value

open RecordStore.Tuple (Element unpack unpack_of_pack)

/-- What a value that can be packed is read back as. -/
inductive ReadsAs : Value → Element → Prop
  | null : ReadsAs .null .null
  | text (s : String) : ReadsAs (.text s) (.text s)
  | bytes (b : Bytes) : ReadsAs (.bytes b) (.bytes b)
  | buffer (b : Bytes) : ReadsAs (.buffer b) (.bytes b)
  | tuple {items : List Value} {elements : List Element} :
      List.Forall₂ ReadsAs items elements → ReadsAs (.tuple items) (.nested elements)
  | list {items : List Value} {elements : List Element} :
      List.Forall₂ ReadsAs items elements → ReadsAs (.list items) (.nested elements)

theorem nested_map_eq_ok_iff {r : Except Value (List Element)} {e : Element} :
    Element.nested <$> r = .ok e ↔ ∃ elements, r = .ok elements ∧ e = .nested elements := by
  cases r with
  | error v => simp [Functor.map, Except.map]
  | ok elements => simp [Functor.map, Except.map, eq_comm]

theorem toElements_cons_eq_ok_iff {v : Value} {rest : List Value} {elements : List Element} :
    toElements (v :: rest) = .ok elements ↔
      ∃ e es, v.toElement = .ok e ∧ toElements rest = .ok es ∧ elements = e :: es := by
  rw [toElements]
  cases v.toElement with
  | error v' => simp [bind, Except.bind]
  | ok e =>
    cases toElements rest with
    | error v' => simp [bind, Except.bind]
    | ok es => simp [bind, Except.bind, pure, Except.pure, eq_comm]

mutual

theorem toElement_eq_ok_iff : (v : Value) → {e : Element} → v.toElement = .ok e ↔ ReadsAs v e
  | .null, e | .text _, e | .bytes _, e | .buffer _, e => by
    rw [toElement, Except.ok.injEq]
    constructor
    · rintro rfl
      constructor
    · intro h
      cases h
      rfl
  | .tuple items, e => by
    rw [toElement, nested_map_eq_ok_iff]
    constructor
    · rintro ⟨elements, h, rfl⟩
      exact .tuple ((toElements_eq_ok_iff items).mp h)
    · rintro (_ | _ | _ | _ | h)
      exact ⟨_, (toElements_eq_ok_iff items).mpr h, rfl⟩
  | .list items, e => by
    rw [toElement, nested_map_eq_ok_iff]
    constructor
    · rintro ⟨elements, h, rfl⟩
      exact .list ((toElements_eq_ok_iff items).mp h)
    · rintro (_ | _ | _ | _ | _ | h)
      exact ⟨_, (toElements_eq_ok_iff items).mpr h, rfl⟩
  | .boolean _, e | .integer _, e | .real _, e | .broken _, e | .map _, e => by
    constructor
    · nofun
    · nofun

theorem toElements_eq_ok_iff : (items : List Value) → {elements : List Element} →
    toElements items = .ok elements ↔ List.Forall₂ ReadsAs items elements
  | [], elements => by rw [toElements, Except.ok.injEq, List.forall₂_nil_left_iff, eq_comm]
  | v :: rest, elements => by
    simp only [toElements_cons_eq_ok_iff, List.forall₂_cons_left_iff, toElement_eq_ok_iff v,
      toElements_eq_ok_iff rest]

end

/-- Values pack exactly if they can be read back, and to the packed form of what they are read back
as. -/
theorem packAll_eq_ok_iff {items : List Value} {data : Bytes} :
    packAll items = .ok data ↔
      ∃ elements, List.Forall₂ ReadsAs items elements ∧ data = Tuple.pack elements := by
  simp only [packAll, ← toElements_eq_ok_iff]
  cases toElements items with
  | error v => simp [Functor.map, Except.map]
  | ok elements => simp [Functor.map, Except.map, eq_comm]

/-- Unpacking undoes packing, to any depth. -/
theorem unpack_packAll {items : List Value} {elements : List Element}
    (h : List.Forall₂ ReadsAs items elements) :
    ∃ data, packAll items = .ok data ∧ unpack data = .ok elements :=
  ⟨_, packAll_eq_ok_iff.mpr ⟨elements, h, rfl⟩, unpack_of_pack elements⟩

/-- Zero bytes in runs and nothing inside tuples are told from the ends of runs and tuples. -/
theorem unpack_packAll_of_zeros :
    let items : List Value :=
      [.null, .buffer [0, 0xFF], .tuple [.null, .list [.text "a\x00", .null], .tuple []], .bytes []]
    let elements : List Element :=
      [.null, .bytes [0, 0xFF], .nested [.null, .nested [.text "a\x00", .null], .nested []],
        .bytes []]
    let data : Bytes :=
      [0, 1, 0, 0xFF, 0xFF, 0, 5, 0, 0xFF, 5, 2, 97, 0, 0xFF, 0, 0, 0xFF, 0, 5, 0, 0, 1, 0]
    List.Forall₂ ReadsAs items elements ∧ packAll items = .ok data ∧
      unpack data = .ok elements := by
  intro items elements data
  have hreads : List.Forall₂ ReadsAs items elements := (toElements_eq_ok_iff items).mp rfl
  obtain ⟨data', hpack, hunpack⟩ := unpack_packAll hreads
  have hdata : packAll items = .ok data := by rfl
  obtain rfl : data' = data := Except.ok.inj (hpack.symm.trans hdata)
  exact ⟨hreads, hdata, hunpack⟩

end RecordStore.Value
