import Mathlib.Data.List.Perm.Subperm
import Mathlib.Data.List.Sort
import Mathlib.Data.Set.List
import RecordStore.Operation
import RecordStore.Proofs.Catalog
import RecordStore.Proofs.DecodedRecords

/-! # The order of fields

Fields that hold the same under each name can still be in different orders, and then they are packed
to different bytes. All that is read from such bytes is the same again but for its order.
-/

namespace RecordStore

open RecordStore.Tuple (Element pack unpack pack_inj)

theorem optionRel_refl {α : Type} {R : α → α → Prop} (h : ∀ a, R a a) (x : Option α) :
    Option.Rel R x x := by
  cases x with
  | none => exact .none
  | some a => exact .some (h a)

theorem isSome_eq_of_rel {α β : Type} {R : α → β → Prop} {x : Option α} {y : Option β}
    (h : Option.Rel R x y) : x.isSome = y.isSome := by
  cases h <;> rfl

namespace Fields

variable {α β : Type} {a b a' b' : Fields α} {name : String}

/-- The fields are the same but for their order. -/
def Agree (a b : Fields α) : Prop := ∀ name, a.get? name = b.get? name

theorem Agree.refl (a : Fields α) : a.Agree a := fun _ => rfl

theorem Agree.symm (h : a.Agree b) : b.Agree a := fun name => (h name).symm

theorem get?_map (f : α → β) (a : Fields α) (name : String) :
    (a.map f).get? name = (a.get? name).map f := by
  simp only [get?, map, List.find?_map, Option.map_map, Function.comp_def]

theorem get?_putAll {pairs : List (String × α)} (h : (pairs.map Prod.fst).Nodup) (a : Fields α) :
    (a.putAll pairs).get? name =
      ((pairs.find? (·.1 = name)).map Prod.snd).or (a.get? name) := by
  induction pairs generalizing a with
  | nil => rfl
  | cons p rest ih =>
    rw [List.map_cons, List.nodup_cons] at h
    rw [putAll, List.foldl_cons, ← putAll, ih h.2, get?_put]
    by_cases hname : p.1 = name
    · have hrest : rest.find? (·.1 = name) = none := by
        rw [List.find?_eq_none]
        rintro q hq hqname
        exact h.1 (hname ▸ of_decide_eq_true hqname ▸ List.mem_map_of_mem hq)
      simp [hname, hrest]
    · simp [hname, Ne.symm hname]

theorem get?_overlay (a b : Fields α) (name : String) :
    (a.overlay b).get? name = (b.get? name).or (a.get? name) :=
  get?_putAll b.distinct a

theorem Agree.overlay (ha : a.Agree a') (hb : b.Agree b') :
    (a.overlay b).Agree (a'.overlay b') := fun name => by
  rw [get?_overlay, get?_overlay, ha, hb]

theorem Agree.map (h : a.Agree b) (f : α → β) : (a.map f).Agree (b.map f) := fun name => by
  rw [get?_map, get?_map, h]

theorem agree_of_map {f : α → β} (hf : Function.Injective f) (h : (a.map f).Agree (b.map f)) :
    a.Agree b := fun name => by
  have hname := h name
  rw [get?_map, get?_map] at hname
  exact Option.map_injective hf hname

theorem isEmpty_eq_true_iff : a.isEmpty = true ↔ ∀ name, a.get? name = none := by
  constructor
  · intro h name
    rw [get?, List.isEmpty_iff.mp h]
    rfl
  · intro h
    obtain ⟨_ | ⟨⟨name, value⟩, rest⟩, distinct⟩ := a
    · rfl
    · have hname := h name
      simp [get?] at hname

theorem Agree.isEmpty (h : a.Agree b) : a.isEmpty = b.isEmpty := by
  rw [Bool.eq_iff_iff, isEmpty_eq_true_iff, isEmpty_eq_true_iff]
  exact forall_congr' fun name => by rw [h]

theorem exists_map_of_range {f : α → β} {c : Fields β}
    (h : ∀ p ∈ c.entries, p.2 ∈ Set.range f) : ∃ d : Fields α, c = d.map f := by
  have hentries : c.entries ∈ Set.range (List.map fun q : String × α => (q.1, f q.2)) := by
    rw [Set.range_list_map]
    rintro ⟨name, y⟩ hp
    obtain ⟨x, hx⟩ := h _ hp
    exact ⟨(name, x), congrArg (name, ·) hx⟩
  obtain ⟨entries, hentries⟩ := hentries
  have hdistinct : (entries.map Prod.fst).Nodup := by
    have hc := c.distinct
    rwa [← hentries, List.map_map] at hc
  exact ⟨⟨entries, hdistinct⟩, ext_entries hentries.symm⟩

/-- Fields that agree with images have only images for values. -/
theorem exists_map_of_agree {f : α → β} {c : Fields β} (h : (a.map f).Agree c) :
    ∃ d : Fields α, c = d.map f := by
  refine exists_map_of_range ?_
  rintro ⟨name, y⟩ hp
  have hname := (h name).trans (get?_eq_some_iff.mpr hp)
  rw [get?_map, Option.map_eq_some_iff] at hname
  obtain ⟨x, -, hx⟩ := hname
  exact ⟨x, hx⟩

/-- Equal collections agree in all that equivalent values have in common. -/
theorem agree_of_sameBy {same : α → α → Bool} {f : α → β}
    (hf : ∀ x y, same x y = true → f x = f y) (h : a.sameBy same b = true) :
    (a.map f).Agree (b.map f) := by
  rw [sameBy, Bool.and_eq_true, beq_iff_eq, List.all_eq_true] at h
  obtain ⟨hlength, hall⟩ := h
  have hfound : ∀ {name x}, a.get? name = some x → ∃ y, b.get? name = some y ∧ f x = f y := by
    intro name x hx
    have hany := hall _ (get?_eq_some_iff.mp hx)
    cases hy : b.get? name with
    | none => simp [hy] at hany
    | some y => exact ⟨y, rfl, hf x y (by simpa [hy] using hany)⟩
  have hsubset : a.names ⊆ b.names := by
    intro name hname
    rw [← isSome_get?_iff] at hname ⊢
    obtain ⟨x, hx⟩ := Option.isSome_iff_exists.mp hname
    obtain ⟨y, hy, -⟩ := hfound hx
    rw [hy]
    rfl
  have hnames : a.names.Perm b.names :=
    (List.subperm_of_subset a.distinct hsubset).perm_of_length_le (by simp [names, hlength])
  intro name
  rw [get?_map, get?_map]
  cases hx : a.get? name with
  | some x =>
    obtain ⟨y, hy, hxy⟩ := hfound hx
    rw [hy, Option.map_some, Option.map_some, hxy]
  | none =>
    have hname : b.get? name = none := by
      rw [← Option.not_isSome_iff_eq_none, isSome_get?_iff, ← hnames.mem_iff, ← isSome_get?_iff, hx]
      exact Bool.false_ne_true
    rw [hname]

/-- Collections that agree are equal, if each of their values is equal to itself. -/
theorem Agree.sameBy {same : α → α → Bool} (h : a.Agree b)
    (hself : ∀ p ∈ a.entries, same p.2 p.2 = true) : a.sameBy same b = true := by
  have hnames : a.names.Perm b.names :=
    (List.perm_ext_iff_of_nodup a.distinct b.distinct).mpr fun name => by
      change name ∈ a.names ↔ name ∈ b.names
      rw [← isSome_get?_iff, ← isSome_get?_iff, h]
  have hlength : a.entries.length = b.entries.length := by simpa [names] using hnames.length_eq
  rw [Fields.sameBy, Bool.and_eq_true, beq_iff_eq, List.all_eq_true]
  refine ⟨hlength, fun p hp => ?_⟩
  rw [← h, get?_eq_some_iff.mpr hp, Option.any_some]
  exact hself p hp

end Fields

namespace Value

def element? (v : Value) : Option Element := v.toElement.toOption

theorem toOption_map {ε α β : Type} (f : α → β) (r : Except ε α) :
    (f <$> r).toOption = r.toOption.map f := by
  cases r <;> rfl

theorem toOption_toElements_cons (v : Value) (rest : List Value) :
    (toElements (v :: rest)).toOption =
      v.element?.bind fun e => (toElements rest).toOption.map (e :: ·) := by
  rw [toElements, element?]
  cases v.toElement with
  | error _ => rfl
  | ok e => cases toElements rest <;> rfl

mutual

theorem element?_of_same : (a b : Value) → a.same b = true → a.element? = b.element?
  | .null, b, h | .text _, b, h | .bytes _, b, h | .buffer _, b, h => by
    cases b <;> simp_all [same, number?, element?, toElement]
  | .boolean _, b, h | .integer _, b, h | .real _, b, h | .broken _, b, h | .map _, b, h => by
    cases b <;> simp_all [same, number?, element?, toElement, Except.toOption]
  | .tuple items, b, h => by
    cases b with
    | tuple items' =>
      rw [same] at h
      rw [element?, element?, toElement, toElement, toOption_map, toOption_map,
        elements?_of_same items items' h]
    | _ => simp [same, number?] at h
  | .list items, b, h => by
    cases b with
    | list items' =>
      rw [same] at h
      rw [element?, element?, toElement, toElement, toOption_map, toOption_map,
        elements?_of_same items items' h]
    | _ => simp [same, number?] at h

theorem elements?_of_same : (as bs : List Value) → sameAll as bs = true →
    (toElements as).toOption = (toElements bs).toOption
  | [], [], _ => rfl
  | [], _ :: _, h => by simp [sameAll] at h
  | _ :: _, [], h => by simp [sameAll] at h
  | a :: as, b :: bs, h => by
    rw [sameAll, Bool.and_eq_true] at h
    rw [toOption_toElements_cons, toOption_toElements_cons, element?_of_same a b h.1,
      elements?_of_same as bs h.2]

end

end Value

namespace Fields

/-- What the values are packed as is the same but for its order. -/
def PackAlike (v w : Fields Value) : Prop := (v.map Value.element?).Agree (w.map Value.element?)

theorem PackAlike.refl (v : Fields Value) : v.PackAlike v := Agree.refl _

theorem PackAlike.overlay {r r' : Record} {v w : Fields Value} (hr : r.Agree r')
    (h : v.PackAlike w) :
    ((r.map Value.text).overlay v).PackAlike ((r'.map Value.text).overlay w) := by
  unfold PackAlike
  rw [map_overlay, map_overlay]
  exact ((hr.map Value.text).map Value.element?).overlay h

def cell (p : String × Element) : Element := .nested [.text p.1, p.2]

theorem cell_injective : Function.Injective cell := by
  rintro ⟨name, e⟩ ⟨name', e'⟩ h
  simpa [cell] using h

theorem toElement_pair (name : String) (v : Value) :
    (Value.tuple [.text name, v]).toElement = (fun e => cell (name, e)) <$> v.toElement := by
  rw [Value.toElement, Value.toElements, Value.toElements, Value.toElements]
  cases v.toElement <;> rfl

theorem toElements_of_cells {entries : List (String × Value)} {cells : List (String × Element)}
    (h : entries.map (fun p => (p.1, p.2.element?)) = cells.map fun p => (p.1, some p.2)) :
    Value.toElements (entries.map fun p => .tuple [.text p.1, p.2]) = .ok (cells.map cell) := by
  induction cells generalizing entries with
  | nil =>
    obtain rfl := List.map_eq_nil_iff.mp h
    rfl
  | cons p cells ih =>
    obtain ⟨⟨name, v⟩, rest, rfl, hp, hrest⟩ := List.map_eq_cons_iff.mp h
    obtain ⟨rfl, hv⟩ := Prod.mk.inj hp
    have hv' : v.toElement = .ok p.2 := by
      unfold Value.element? at hv
      cases hv'' : v.toElement <;> simp_all [Except.toOption]
    rw [List.map_cons, Value.toElements, toElement_pair, hv', ih hrest]
    rfl

theorem toElements_error {entries : List (String × Value)}
    (h : ∃ p ∈ entries, p.2.element? = none) :
    ∃ x, Value.toElements (entries.map fun p => .tuple [.text p.1, p.2]) = .error x := by
  induction entries with
  | nil =>
    obtain ⟨_, hp, -⟩ := h
    cases hp
  | cons q rest ih =>
    rw [List.map_cons, Value.toElements, toElement_pair]
    cases hq : q.2.toElement with
    | error x => exact ⟨x, rfl⟩
    | ok e =>
      obtain ⟨p, hp, hnone⟩ := h
      have hrest : p ∈ rest := by
        rcases List.mem_cons.mp hp with rfl | hp
        · rw [Value.element?, hq] at hnone
          cases hnone
        · exact hp
      obtain ⟨x, hx⟩ := ih ⟨p, hrest, hnone⟩
      exact ⟨x, by rw [hx]; rfl⟩

theorem encode_cases (v : Fields Value) :
    (∃ f : Fields Element, v.map Value.element? = f.map some ∧
      v.encode = .ok (pack (f.entries.map cell))) ∨
    (∀ f : Fields Element, v.map Value.element? ≠ f.map some) ∧ ∃ x, v.encode = .error x := by
  by_cases h : ∃ f : Fields Element, v.map Value.element? = f.map some
  · obtain ⟨f, hf⟩ := h
    refine .inl ⟨f, hf, ?_⟩
    rw [encode, toElements_of_cells (congrArg Fields.entries hf)]
    rfl
  · have hnone : ∃ p ∈ v.entries, p.2.element? = none := by
      by_contra hall
      refine h (exists_map_of_range ?_)
      rintro ⟨name, _⟩ hp
      obtain ⟨q, hq, ⟨⟩⟩ := List.mem_map.mp hp
      obtain ⟨e, he⟩ := Option.ne_none_iff_exists.mp fun hnone => hall ⟨q, hq, hnone⟩
      exact ⟨e, he⟩
    obtain ⟨x, hx⟩ := toElements_error hnone
    exact .inr ⟨not_exists.mp h, x, by rw [encode, hx]; rfl⟩

end Fields

namespace Record

open Fields

/-- Packed elements are a record if all of them are texts. -/
theorem decode_cells {f : Fields Element} {r : Record} :
    decode (pack (f.entries.map cell)) = .ok r ↔ f = r.map Element.text := by
  rw [decode_eq_ok_iff]
  constructor
  · rintro ⟨pairs, hpack, rfl⟩
    have hcells : f.entries = pairs.map fun p => (p.1, Element.text p.2) := by
      refine cell_injective.list_map ?_
      rw [← pack_inj.mp hpack, List.map_map]
      rfl
    have hpairs : (ofList pairs).entries = pairs := by
      have hdistinct := f.distinct
      rw [hcells, List.map_map] at hdistinct
      exact entries_ofList_eq_iff.mpr hdistinct
    exact ext_entries (hcells.trans (congrArg (List.map _) hpairs.symm))
  · rintro rfl
    refine ⟨r.entries, ?_, ofList_entries r⟩
    rw [packPairs, Fields.map, List.map_map]
    rfl

/-- Both are records and these agree, or neither is a record. -/
def Equivalent (data data' : Bytes) : Prop :=
  Option.Rel Agree (decode data).toOption (decode data').toOption

theorem Equivalent.refl (data : Bytes) : Equivalent data data := optionRel_refl Agree.refl _

theorem equivalent_of_cells {f g : Fields Element} (h : f.Agree g) :
    Equivalent (pack (f.entries.map cell)) (pack (g.entries.map cell)) := by
  have hrecord : ∀ {f g : Fields Element} {r : Record}, f.Agree g →
      decode (pack (f.entries.map cell)) = .ok r →
      ∃ r' : Record, decode (pack (g.entries.map cell)) = .ok r' ∧ r.Agree r' := by
    intro f g r h hr
    obtain rfl := decode_cells.mp hr
    obtain ⟨r', rfl⟩ := exists_map_of_agree h
    exact ⟨r', decode_cells.mpr rfl, agree_of_map (fun _ _ heq => Element.text.inj heq) h⟩
  unfold Equivalent
  cases hf : decode (pack (f.entries.map cell)) with
  | ok r =>
    obtain ⟨r', hg, hr⟩ := hrecord h hf
    rw [hg]
    exact .some hr
  | error e =>
    cases hg : decode (pack (g.entries.map cell)) with
    | error e' => exact .none
    | ok r' =>
      obtain ⟨r, hf', -⟩ := hrecord h.symm hg
      rw [hf] at hf'
      cases hf'

theorem select_agree {r r' : Record} (p : Projection) (h : r.Agree r') :
    Option.Rel Agree (select p r) (select p r') := by
  have hget : r.get? = r'.get? := funext h
  unfold select
  rw [h.isEmpty, hget]
  split
  · exact .none
  · split
    · exact .some h
    · exact optionRel_refl Agree.refl _

theorem read_equivalent {data data' : Bytes} (p : Projection) (h : Equivalent data data') :
    (∃ e e', read p data = .error e ∧ read p data' = .error e') ∨
      ∃ x y, read p data = .ok x ∧ read p data' = .ok y ∧ Option.Rel Agree x y := by
  unfold Equivalent at h
  unfold read
  cases hd : decode data <;> cases hd' : decode data' <;> rw [hd, hd'] at h <;> cases h
  · exact .inl ⟨_, _, rfl, rfl⟩
  · next hr => exact .inr ⟨_, _, rfl, rfl, select_agree p hr⟩

end Record

namespace Fields

theorem PackAlike.encode {v w : Fields Value} (h : v.PackAlike w) :
    (∃ x y, v.encode = .error x ∧ w.encode = .error y) ∨
      ∃ data data', v.encode = .ok data ∧ w.encode = .ok data' ∧
        Record.Equivalent data data' := by
  unfold PackAlike at h
  rcases v.encode_cases with ⟨f, hf, hv⟩ | ⟨hnone, x, hv⟩
  · rw [hf] at h
    obtain ⟨g, hg⟩ := exists_map_of_agree h
    rw [hg] at h
    have hagree : f.Agree g := agree_of_map (Option.some_injective _) h
    rcases w.encode_cases with ⟨g', hg', hw⟩ | ⟨hnone, -⟩
    · obtain rfl : g = g' := map_injective (fun _ _ => Option.some.inj) (hg.symm.trans hg')
      exact .inr ⟨_, _, hv, hw, Record.equivalent_of_cells hagree⟩
    · exact (hnone g hg).elim
  · rcases w.encode_cases with ⟨g, hg, -⟩ | ⟨-, y, hw⟩
    · rw [hg] at h
      obtain ⟨f, hf⟩ := exists_map_of_agree h.symm
      exact (hnone f hf).elim
    · exact .inl ⟨x, y, hv, hw⟩

end Fields

inductive Action.PackAlike : Action → Action → Prop where
  | read (p : Projection) (slot : Option String) : PackAlike (.read p slot) (.read p slot)
  | insert {v w : Fields Value} : v.PackAlike w → PackAlike (.insert v) (.insert w)
  | update {v w : Fields Value} : v.PackAlike w → PackAlike (.update v) (.update w)
  | delete : PackAlike .delete .delete

theorem Action.PackAlike.refl (a : Action) : a.PackAlike a := by
  cases a with
  | read p slot => exact .read p slot
  | insert v => exact .insert (.refl v)
  | update v => exact .update (.refl v)
  | delete => exact .delete

theorem Projection.ofList_eq_iff {names names' : List String} :
    ofList names = ofList names' ↔ ∀ name, name ∈ names ↔ name ∈ names' := by
  constructor
  · intro h name
    rw [← mem_ofList, h, mem_ofList]
  · intro h
    have hirrefl : Std.Irrefl fun x y : String => x < y := ⟨String.lt_irrefl⟩
    have hantisymm : Std.Antisymm fun x y : String => x < y :=
      ⟨fun x y hxy hyx => (String.lt_asymm hxy hyx).elim⟩
    have hnames : (ofList names).names = (ofList names').names :=
      List.Pairwise.eq_of_mem_iff (ofList names).ascending (ofList names').ascending fun name => by
        rw [mem_ofList, mem_ofList, h]
    generalize ofList names = p at hnames
    generalize ofList names' = q at hnames
    obtain ⟨_, _⟩ := p
    obtain ⟨_, _⟩ := q
    exact Projection.mk.injEq .. ▸ hnames

namespace Operation

variable {a b : Operation}

/-- The operations are equal and name the same slot, if any. -/
def Interchangeable (a b : Operation) : Prop := a = b ∨ a.same b = true ∧ a.slot? = b.slot?

theorem Interchangeable.refl (a : Operation) : a.Interchangeable a := .inl rfl

theorem Interchangeable.packAlike (h : a.Interchangeable b) :
    a.table = b.table ∧ a.key = b.key ∧ a.action.PackAlike b.action := by
  rcases h with rfl | ⟨hsame, hslot⟩
  · exact ⟨rfl, rfl, .refl _⟩
  obtain ⟨table, key, action⟩ := a
  obtain ⟨table', key', action'⟩ := b
  simp only [same, Bool.and_eq_true, beq_iff_eq] at hsame
  obtain ⟨⟨rfl, rfl⟩, haction⟩ := hsame
  refine ⟨rfl, rfl, ?_⟩
  split at haction
  · obtain rfl := eq_of_beq haction
    obtain rfl : _ = _ := hslot
    exact .read _ _
  · exact .insert (Fields.agree_of_sameBy Value.element?_of_same haction)
  · exact .update (Fields.agree_of_sameBy Value.element?_of_same haction)
  · exact .delete
  · cases haction

theorem Interchangeable.slot_eq (h : a.Interchangeable b) : a.slot? = b.slot? := by
  rcases h with rfl | ⟨-, hslot⟩
  · rfl
  · exact hslot

/-- Reads are interchangeable if they ask for the same names, listed in whatever way. -/
theorem read_interchangeable_iff {table key : String} {names names' : List String}
    {slot slot' : Option String} :
    Interchangeable ⟨table, key, .read (.ofList names) slot⟩
        ⟨table, key, .read (.ofList names') slot'⟩ ↔
      (∀ name, name ∈ names ↔ name ∈ names') ∧ slot = slot' := by
  rw [← Projection.ofList_eq_iff]
  constructor
  · intro h
    obtain ⟨-, -, haction⟩ := h.packAlike
    generalize Projection.ofList names = p at haction
    generalize Projection.ofList names' = q at haction
    cases haction
    exact ⟨rfl, rfl⟩
  · rintro ⟨hp, rfl⟩
    rw [hp]
    exact .refl _

theorem agree_of_packAlike_text {r r' : Record}
    (h : (r.map Value.text).PackAlike (r'.map Value.text)) : r.Agree r' := by
  have hinjective : Function.Injective fun s => (Value.text s).element? := fun s s' heq => by
    simpa [Value.element?, Value.toElement, Except.toOption] using heq
  simp only [Fields.PackAlike, Fields.map, List.map_map] at h
  exact Fields.agree_of_map hinjective h

theorem sameBy_text {r r' : Record} (h : r.Agree r') :
    (r.map Value.text).sameBy Value.same (r'.map Value.text) = true := by
  refine (h.map Value.text).sameBy fun p hp => ?_
  obtain ⟨q, -, rfl⟩ := List.mem_map.mp hp
  simp [Value.same]

theorem insert_interchangeable_iff {table key : String} {r r' : Record} :
    Interchangeable ⟨table, key, .insert (r.map .text)⟩ ⟨table, key, .insert (r'.map .text)⟩ ↔
      r.Agree r' := by
  constructor
  · intro h
    obtain ⟨-, -, haction⟩ := h.packAlike
    cases haction with
    | insert hv => exact agree_of_packAlike_text hv
  · exact fun h => .inr ⟨by simp [same, sameBy_text h], rfl⟩

theorem update_interchangeable_iff {table key : String} {r r' : Record} :
    Interchangeable ⟨table, key, .update (r.map .text)⟩ ⟨table, key, .update (r'.map .text)⟩ ↔
      r.Agree r' := by
  constructor
  · intro h
    obtain ⟨-, -, haction⟩ := h.packAlike
    cases haction with
    | update hv => exact agree_of_packAlike_text hv
  · exact fun h => .inr ⟨by simp [same, sameBy_text h], rfl⟩

theorem slots_eq {ops ops' : List Operation} (h : List.Forall₂ Interchangeable ops ops') :
    ops.filterMap slot? = ops'.filterMap slot? := by
  induction h with
  | nil => rfl
  | cons hop _ ih => rw [List.filterMap_cons, List.filterMap_cons, hop.slot_eq, ih]

end Operation

end RecordStore
