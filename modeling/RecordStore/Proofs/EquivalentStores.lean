import RecordStore.Proofs.FieldOrder
import RecordStore.Proofs.PairedRuns
import RecordStore.Store.Connection

/-! # Stores with equivalent values

Two stores have the same keys, and equivalent values under them. Whatever is asked of them, they
answer alike, or fail alike, and they stay equivalent if equivalent values are written.
-/

namespace RecordStore

def Keyed {κ α β : Type} (V : α → β → Prop) : List (κ × α) → List (κ × β) → Prop :=
  List.Forall₂ fun p q => p.1 = q.1 ∧ V p.2 q.2

namespace Keyed

variable {κ α β : Type} {V : α → β → Prop} {l : List (κ × α)} {l' : List (κ × β)}

theorem refl {V : α → α → Prop} (hV : ∀ a, V a a) (l : List (κ × α)) : Keyed V l l :=
  List.forall₂_same.mpr fun _ _ => ⟨rfl, hV _⟩

theorem filter {f : κ × α → Bool} {g : κ × β → Bool} (hf : ∀ p q, p.1 = q.1 → f p = g q)
    (h : Keyed V l l') : Keyed V (l.filter f) (l'.filter g) := by
  induction h with
  | nil => exact .nil
  | @cons p q _ _ hp _ ih =>
    rw [List.filter_cons, List.filter_cons, hf p q hp.1]
    split
    · exact .cons hp ih
    · exact ih

theorem find? {f : κ × α → Bool} {g : κ × β → Bool} (hf : ∀ p q, p.1 = q.1 → f p = g q)
    (h : Keyed V l l') :
    Option.Rel V ((l.find? f).map Prod.snd) ((l'.find? g).map Prod.snd) := by
  induction h with
  | nil => exact .none
  | @cons p q _ _ hp _ ih =>
    rw [List.find?_cons, List.find?_cons, hf p q hp.1]
    split
    · exact .some hp.2
    · exact ih

theorem isEmpty_eq (h : Keyed V l l') : l.isEmpty = l'.isEmpty := by
  cases h <;> rfl

end Keyed

namespace KeyMap

variable {α β : Type} {V : α → β → Prop} {m : KeyMap α} {m' : KeyMap β} {key : Bytes}

theorem keyed_get? (h : Keyed V m.entries m'.entries) (key : Bytes) :
    Option.Rel V (m.get? key) (m'.get? key) :=
  h.find? fun _ _ hkey => by rw [hkey]

theorem keyed_insert (h : Keyed V m.entries m'.entries) {a : α} {b : β} (hab : V a b) :
    Keyed V (m.insert key a).entries (m'.insert key b).entries := by
  suffices hinsert : ∀ {l : List (Bytes × α)} {l' : List (Bytes × β)}, Keyed V l l' →
      Keyed V (insertEntry key a l) (insertEntry key b l') from hinsert h
  intro l l' h
  induction h with
  | nil => exact .cons ⟨rfl, hab⟩ .nil
  | @cons p q _ _ hp hrest ih =>
    rw [insertEntry, insertEntry, hp.1]
    split
    · exact .cons ⟨rfl, hab⟩ (.cons hp hrest)
    · split
      · exact .cons ⟨rfl, hab⟩ hrest
      · exact .cons hp ih

theorem keyed_write (h : Keyed V m.entries m'.entries) {a : Option α} {b : Option β}
    (hab : Option.Rel V a b) : Keyed V (m.write key a).entries (m'.write key b).entries := by
  cases hab with
  | none => exact h.filter fun _ _ hkey => by rw [hkey]
  | some hab => exact keyed_insert h hab

theorem keyed_range (h : Keyed V m.entries m'.entries) (first last : Bytes) :
    Keyed V (m.range first last).entries (m'.range first last).entries :=
  h.filter fun _ _ hkey => by rw [hkey]

theorem keyed_take (h : Keyed V m.entries m'.entries) (count : Nat) :
    Keyed V (m.take count).entries (m'.take count).entries :=
  List.forall₂_take count h

theorem keyed_overlay (h : Keyed V m.entries m'.entries) {writes : KeyMap (Option α)}
    {writes' : KeyMap (Option β)} (hwrites : Keyed (Option.Rel V) writes.entries writes'.entries) :
    Keyed V (m.overlay writes).entries (m'.overlay writes').entries := by
  unfold overlay
  suffices hfold : ∀ {l : List (Bytes × Option α)} {l' : List (Bytes × Option β)},
      Keyed (Option.Rel V) l l' → ∀ {m : KeyMap α} {m' : KeyMap β}, Keyed V m.entries m'.entries →
        Keyed V (l.foldl (fun acc p => acc.write p.1 p.2) m).entries
          (l'.foldl (fun acc p => acc.write p.1 p.2) m').entries from hfold hwrites h
  intro l l' hl
  induction hl with
  | nil => exact id
  | cons hp _ ih =>
    intro m m' h
    rw [List.foldl_cons, List.foldl_cons, hp.1]
    exact ih (keyed_write h hp.2)

end KeyMap

/-- The faults differ at most in what they say about a record. -/
inductive Fault.Equivalent : Fault → Fault → Prop where
  | refl (e : Fault) : Equivalent e e
  | decode (d d' : DecodeError) : Equivalent (.decode d) (.decode d')
  | unpackable (v v' : Value) : Equivalent (.unpackable v) (.unpackable v')

theorem Fault.kind_decode_ne (d : DecodeError) : (Fault.decode d).kind ≠ .database := by
  unfold kind
  split <;> simp_all

theorem Fault.kind_unpackable_ne (v : Value) : (Fault.unpackable v).kind ≠ .database := by
  cases v <;> nofun

theorem Fault.Equivalent.isDatabase_iff {e e' : Fault} (h : e.Equivalent e') :
    e.kind = .database ↔ e'.kind = .database := by
  cases h with
  | refl => rfl
  | decode d d' => exact iff_of_false (kind_decode_ne d) (kind_decode_ne d')
  | unpackable v v' => exact iff_of_false (kind_unpackable_ne v) (kind_unpackable_ne v')

inductive Table.Equivalent : Table → Table → Prop where
  | missing : Equivalent .missing .missing
  | barred : Equivalent .barred .barred
  | holding {m m' : KeyMap Bytes} : Keyed Record.Equivalent m.entries m'.entries →
      Equivalent (.holding m) (.holding m')

inductive Store.Equivalent : Store → Store → Prop where
  | mk {tableName : String} {table table' : Table} {reachable isOpen : Bool}
      {closeFault : Option Fault} {links : List Link} : table.Equivalent table' →
      Equivalent ⟨tableName, table, reachable, isOpen, closeFault, links⟩
        ⟨tableName, table', reachable, isOpen, closeFault, links⟩

inductive Transaction.Equivalent : Transaction → Transaction → Prop where
  | active {b : Buffer} {writes : KeyMap (Option Bytes)} :
      Keyed (Option.Rel Record.Equivalent) b.writes.entries writes.entries →
      Equivalent (.active b) (.active { b with writes })
  | finished : Equivalent .finished .finished

structure Connection.Equivalent (c d : Connection) : Prop where
  store : c.store.Equivalent d.store
  transaction : c.transaction.Equivalent d.transaction

namespace Store

variable {s t : Store}

theorem Equivalent.tables (h : s.Equivalent t) : s.table.Equivalent t.table := by
  obtain ⟨htable⟩ := h
  exact htable

theorem hasTable_eq (h : s.Equivalent t) : s.hasTable = t.hasTable := by
  obtain ⟨htable⟩ := h
  cases htable <;> rfl

theorem lend_equivalent (h : s.Equivalent t) :
    s.lend.1 = t.lend.1 ∧ s.lend.2.Equivalent t.lend.2 := by
  obtain @⟨_, _, _, _, _, _, links, htable⟩ := h
  cases links with
  | nil => exact ⟨rfl, .mk htable⟩
  | cons l links => exact ⟨rfl, .mk htable⟩

theorem takeBack_equivalent (h : s.Equivalent t) (l : Link) :
    (s.takeBack l).Equivalent (t.takeBack l) := by
  obtain ⟨htable⟩ := h
  unfold takeBack
  dsimp only
  split
  · exact .mk htable
  · exact .mk htable

end Store

namespace Buffer

variable {s t : Store} {b : Buffer} {writes : KeyMap (Option Bytes)} {first last : Bytes}
  {limit : Int}

theorem keyed_pending (h : Keyed (Option.Rel Record.Equivalent) b.writes.entries writes.entries)
    (first last : Bytes) : Keyed (Option.Rel Record.Equivalent) (b.pending first last).entries
      (Buffer.pending { b with writes } first last).entries := by
  unfold pending
  dsimp only
  split
  · exact KeyMap.keyed_range h first last
  · exact .nil

theorem wanted_eq (h : Keyed (Option.Rel Record.Equivalent) b.writes.entries writes.entries) :
    b.wanted first last limit = Buffer.wanted { b with writes } first last limit := by
  unfold wanted KeyMap.size
  rw [(keyed_pending h first last).length_eq]

theorem asksTooMuch_eq (h : Keyed (Option.Rel Record.Equivalent) b.writes.entries writes.entries) :
    b.asksTooMuch first last limit = Buffer.asksTooMuch { b with writes } first last limit := by
  unfold asksTooMuch
  rw [wanted_eq h]

theorem find?_equivalent
    (h : Keyed (Option.Rel Record.Equivalent) b.writes.entries writes.entries) (key : Bytes) :
    Option.Rel (Option.Rel Record.Equivalent) (b.find? key)
      (Buffer.find? { b with writes } key) := by
  unfold find?
  dsimp only
  split
  · exact KeyMap.keyed_get? h key
  · exact .none

end Buffer

namespace Transaction

open Attempt (Alike)

variable {s t : Store} {x y : Transaction} {key first last : Bytes} {limit : Int}

theorem begin_equivalent (h : s.Equivalent t) (readYourWrites : Bool) :
    Alike Fault.Equivalent (fun p q => p.1.Equivalent q.1 ∧ p.2.Equivalent q.2)
      (begin readYourWrites s) (begin readYourWrites t) := by
  obtain ⟨hlink, hlend⟩ := s.lend_equivalent h
  unfold begin
  rw [show s.isOpen = t.isOpen by cases h; rfl, show s.reachable = t.reachable by cases h; rfl]
  split
  · exact .error (.refl _)
  · split
    · exact .error (.refl _)
    · dsimp only
      rw [hlink]
      exact .ok ⟨.active .nil, hlend⟩

theorem fetch_equivalent (h : s.Equivalent t) (key : Bytes) :
    Alike Fault.Equivalent (Option.Rel Record.Equivalent) (fetch s key) (fetch t key) := by
  obtain ⟨htable⟩ := h
  cases htable with
  | missing | barred => exact .error (.refl _)
  | holding hm => exact .ok (KeyMap.keyed_get? hm key)

theorem get_equivalent (h : s.Equivalent t) (hxy : x.Equivalent y) (key : Bytes) :
    Alike Fault.Equivalent (Alike Fault.Equivalent (Option.Rel Record.Equivalent)) (x.get s key)
      (y.get t key) := by
  cases hxy with
  | finished => exact .error (.refl _)
  | @active b writes hwrites =>
    have hfind := Buffer.find?_equivalent hwrites key
    have hopen : s.isOpen = t.isOpen := by cases h; rfl
    unfold get
    dsimp only
    rw [hopen]
    generalize b.find? key = found at hfind
    generalize Buffer.find? { b with writes } key = found' at hfind
    cases hfind with
    | some hvalue => exact .ok (.ok hvalue)
    | none =>
      dsimp only
      split
      · exact .ok (fetch_equivalent h key)
      · exact .error (.refl _)

theorem set_equivalent (hxy : x.Equivalent y) {data data' : Bytes}
    (hdata : Record.Equivalent data data') :
    Alike Fault.Equivalent Transaction.Equivalent (x.set key data) (y.set key data') := by
  cases hxy with
  | finished => exact .error (.refl _)
  | active hwrites =>
    unfold set
    dsimp only
    split
    · exact .error (.refl _)
    · exact .ok (.active (KeyMap.keyed_insert hwrites (.some hdata)))

theorem clear_equivalent (hxy : x.Equivalent y) :
    Alike Fault.Equivalent Transaction.Equivalent (x.clear key) (y.clear key) := by
  cases hxy with
  | finished => exact .error (.refl _)
  | active hwrites => exact .ok (.active (KeyMap.keyed_insert hwrites .none))

theorem afterGet_equivalent (h : s.Equivalent t) (hxy : x.Equivalent y) :
    (x.afterGet s key).Equivalent (y.afterGet t key) := by
  cases hxy with
  | finished => exact .finished
  | @active b writes hwrites =>
    have hlink : b.linkAfterGet s key = Buffer.linkAfterGet { b with writes } t key := by
      have hfind := Buffer.find?_equivalent hwrites key
      unfold Buffer.linkAfterGet
      rw [s.hasTable_eq h, show s.isOpen = t.isOpen by cases h; rfl,
        isSome_eq_of_rel hfind]
    unfold afterGet
    dsimp only
    rw [← hlink]
    exact .active hwrites

theorem afterRange_equivalent (h : s.Equivalent t) (hxy : x.Equivalent y) :
    (x.afterRange s first last limit).Equivalent (y.afterRange t first last limit) := by
  cases hxy with
  | finished => exact .finished
  | @active b writes hwrites =>
    have hlink : b.linkAfterRange s first last limit =
        Buffer.linkAfterRange { b with writes } t first last limit := by
      unfold Buffer.linkAfterRange
      rw [s.hasTable_eq h, Buffer.asksTooMuch_eq hwrites]
    unfold afterRange
    dsimp only
    rw [← hlink]
    exact .active hwrites

theorem range_equivalent (h : s.Equivalent t) (hxy : x.Equivalent y) :
    Alike Fault.Equivalent (Keyed Record.Equivalent) (x.range s first last limit)
      (y.range t first last limit) := by
  cases hxy with
  | finished => exact .error (.refl _)
  | @active b writes hwrites =>
    unfold range
    dsimp only
    rw [← Buffer.asksTooMuch_eq hwrites, s.hasTable_eq h]
    split
    · exact .error (.refl _)
    · have hpending := Buffer.keyed_pending hwrites first last
      obtain ⟨htable⟩ := h
      cases htable with
      | missing | barred => exact .error (.refl _)
      | holding hm =>
        have hrows := KeyMap.keyed_range hm first last
        dsimp only
        split
        · exact .ok (KeyMap.keyed_overlay hrows hpending)
        · rw [← Buffer.wanted_eq hwrites]
          exact .ok (KeyMap.keyed_take
            (KeyMap.keyed_overlay (KeyMap.keyed_take hrows _) hpending) _)

theorem commit_equivalent (h : s.Equivalent t) (hxy : x.Equivalent y) :
    Alike Fault.Equivalent Eq (x.commit s).1 (y.commit t).1 ∧
      (x.commit s).2.Equivalent (y.commit t).2 := by
  cases hxy with
  | finished => exact ⟨.error (.refl _), h⟩
  | @active b writes hwrites =>
    have hempty := hwrites.isEmpty_eq
    have hlink : b.linkAfterWrites s = Buffer.linkAfterWrites { b with writes } t := by
      unfold Buffer.linkAfterWrites
      rw [s.hasTable_eq h, hempty]
    have hback := s.takeBack_equivalent h (b.linkAfterWrites s)
    unfold commit
    dsimp only
    rw [← hlink, ← hempty]
    split
    · exact ⟨.error (.refl _), hback⟩
    · split
      · exact ⟨.ok rfl, hback⟩
      · obtain ⟨htable⟩ := h
        cases htable with
        | missing | barred => exact ⟨.error (.refl _), hback⟩
        | holding hm =>
          refine ⟨.ok rfl, ?_⟩
          generalize Store.takeBack _ _ = u at hback
          generalize Store.takeBack _ _ = v at hback
          cases hback
          exact .mk (.holding (KeyMap.keyed_overlay hm hwrites))

theorem rollback_equivalent (h : s.Equivalent t) (hxy : x.Equivalent y) :
    Alike Fault.Equivalent Eq (x.rollback s).1 (y.rollback t).1 ∧
      (x.rollback s).2.Equivalent (y.rollback t).2 := by
  cases hxy with
  | finished => exact ⟨.error (.refl _), h⟩
  | active hwrites =>
    refine ⟨?_, s.takeBack_equivalent h _⟩
    unfold rollback
    dsimp only
    split
    · exact .error (.refl _)
    · exact .ok rfl

theorem refuse_equivalent (hxy : x.Equivalent y) : x.refuse.Equivalent y.refuse := by
  cases hxy with
  | finished => exact .finished
  | active hwrites => exact .active hwrites

end Transaction

namespace Store

open Attempt (Matches)

variable {s t : Store}

theorem look_equivalent (h : s.Equivalent t) : s.look.Equivalent t.look := by
  obtain ⟨hlink, hlend⟩ := s.lend_equivalent h
  unfold look
  dsimp only
  rw [hlink, s.hasTable_eq h]
  exact takeBack_equivalent hlend _

theorem created_equivalent (h : s.Equivalent t) :
    Option.Rel Table.Equivalent s.created? t.created? := by
  obtain @⟨name, table, table', _, _, _, _, htable⟩ := h
  unfold created? tableUse
  dsimp only
  cases TableUse.ofName name with
  | builtIn => exact .some htable
  | exact =>
    cases htable with
    | missing => exact .some (.holding .nil)
    | barred => exact .some .barred
    | holding hm => exact .some (.holding hm)
  | shortened =>
    cases htable with
    | missing => exact .some (.holding .nil)
    | barred | holding => exact .none
  | barred =>
    cases htable with
    | missing => exact .some .barred
    | barred | holding => exact .none
  | refused => exact .none

theorem ensureTable_matches :
    Matches Store.Equivalent Fault.Equivalent Eq ensureTable ensureTable := by
  intro s t h
  have hcreated := created_equivalent h
  unfold ensureTable
  rw [show s.reachable = t.reachable by cases h; rfl,
    show s.tableName = t.tableName by cases h; rfl]
  split
  · exact ⟨.error (.refl _), h⟩
  · cases hs : s.created? <;> cases ht : t.created? <;> rw [hs, ht] at hcreated <;> cases hcreated
    · exact ⟨.error (.refl _), look_equivalent h⟩
    · next htable =>
      refine ⟨.ok rfl, look_equivalent ?_⟩
      cases h
      exact .mk htable

theorem dropTable_equivalent (h : s.Equivalent t) : s.dropTable.Equivalent t.dropTable := by
  obtain @⟨name, table, table', _, _, _, _, htable⟩ := h
  unfold dropTable tableUse
  dsimp only
  cases TableUse.ofName name with
  | exact => exact .mk .missing
  | shortened | barred | builtIn | refused => exact .mk htable

theorem named_equivalent (h : s.Equivalent t) :
    Option.Rel (fun m m' => Keyed Record.Equivalent m.entries m'.entries) s.named? t.named? := by
  obtain @⟨name, table, table', _, _, _, _, htable⟩ := h
  unfold named? tableUse
  dsimp only
  cases TableUse.ofName name with
  | exact =>
    cases htable with
    | missing | barred => exact .none
    | holding hm => exact .some hm
  | shortened | barred | builtIn | refused => exact .none

theorem close_matches : Matches Store.Equivalent Eq Eq close close := by
  rintro s t ⟨htable⟩
  unfold close
  dsimp only
  split
  · exact ⟨.error rfl, .mk htable⟩
  · exact ⟨.ok rfl, .mk htable⟩

end Store

namespace Connection

open Attempt (Alike Matches)

variable {key first last : Bytes} {limit : Int} {c d : Connection}

theorem ask_matches {α β : Type} {A : α → β → Prop} {f : Store → Transaction → Except Fault α}
    {g : Store → Transaction → Except Fault β} {after : Store → Transaction → Transaction}
    (hask : ∀ s t x y, s.Equivalent t → x.Equivalent y →
      Alike Fault.Equivalent A (f s x) (g t y) ∧ (after s x).Equivalent (after t y)) :
    Matches Connection.Equivalent Fault.Equivalent A (ask f after) (ask g after) :=
  fun c d h =>
    have ⟨hanswer, hafter⟩ := hask c.store d.store c.transaction d.transaction h.store h.transaction
    ⟨hanswer, h.store, hafter⟩

theorem get_matches (key : Bytes) :
    Matches Connection.Equivalent Fault.Equivalent
      (Alike Fault.Equivalent (Option.Rel Record.Equivalent)) (backend.get key) (backend.get key) :=
  ask_matches fun _ _ _ _ hs hx =>
    ⟨Transaction.get_equivalent hs hx key, Transaction.afterGet_equivalent hs hx⟩

theorem range_matches (first last : Bytes) (limit : Int) :
    Matches Connection.Equivalent Fault.Equivalent (Keyed Record.Equivalent)
      (backend.range first last limit) (backend.range first last limit) :=
  ask_matches fun _ _ _ _ hs hx =>
    ⟨Transaction.range_equivalent hs hx, Transaction.afterRange_equivalent hs hx⟩

theorem buffer_matches {f g : Transaction → Except Fault Transaction}
    (hfg : ∀ x y, x.Equivalent y → Alike Fault.Equivalent Transaction.Equivalent (f x) (g y)) :
    Matches Connection.Equivalent Fault.Equivalent Eq (buffer f) (buffer g) := by
  intro c d h
  have hchange := hfg c.transaction d.transaction h.transaction
  unfold buffer
  cases hf : f c.transaction <;> cases hg : g d.transaction <;> rw [hf, hg] at hchange <;>
    cases hchange
  · next he => exact ⟨.error he, h⟩
  · next hx => exact ⟨.ok rfl, h.store, hx⟩

theorem set_matches (key : Bytes) {data data' : Bytes} (h : Record.Equivalent data data') :
    Matches Connection.Equivalent Fault.Equivalent Eq (backend.set key data)
      (backend.set key data') :=
  buffer_matches fun _ _ hx => Transaction.set_equivalent hx h

theorem clear_matches (key : Bytes) :
    Matches Connection.Equivalent Fault.Equivalent Eq (backend.clear key) (backend.clear key) :=
  buffer_matches fun _ _ hx => Transaction.clear_equivalent hx

theorem commit_matches : Matches Connection.Equivalent Fault.Equivalent Eq commit commit :=
  fun _ _ h =>
    have ⟨hanswer, hafter⟩ := Transaction.commit_equivalent h.store h.transaction
    ⟨hanswer, hafter, .finished⟩

theorem rollback_matches : Matches Connection.Equivalent Fault.Equivalent Eq rollback rollback :=
  fun _ _ h =>
    have ⟨hanswer, hafter⟩ := Transaction.rollback_equivalent h.store h.transaction
    ⟨hanswer, hafter, .finished⟩

theorem begin_matches (readYourWrites : Bool) :
    Matches Connection.Equivalent Fault.Equivalent Eq (backend.begin readYourWrites)
      (backend.begin readYourWrites) := by
  intro c d h
  have hbegin := Transaction.begin_equivalent h.store readYourWrites
  simp only [backend]
  cases hc : Transaction.begin readYourWrites c.store <;>
    cases hd : Transaction.begin readYourWrites d.store <;> rw [hc, hd] at hbegin <;> cases hbegin
  · next he => exact ⟨.error he, h⟩
  · next hx => exact ⟨.ok rfl, hx.2, hx.1⟩

theorem abandon_equivalent {e e' : Fault} (he : e.Equivalent e') (h : c.Equivalent d) :
    (abandon e c).1.Equivalent (abandon e' d).1 ∧ (abandon e c).2.Equivalent (abandon e' d).2 := by
  obtain ⟨hanswer, hafter⟩ := rollback_matches c d h
  refine ⟨?_, hafter⟩
  unfold abandon
  dsimp only
  simp only [← he.isDatabase_iff]
  split
  · next hkind =>
    cases he with
    | refl => exact .refl _
    | decode d => exact (Fault.kind_decode_ne d hkind).elim
    | unpackable v => exact (Fault.kind_unpackable_ne v hkind).elim
  · generalize (rollback c).1 = r at hanswer
    generalize (rollback d).1 = r' at hanswer
    cases hanswer with
    | ok => exact he
    | error he' => exact he'

theorem backend_endsAlike :
    backend.EndsAlike Connection.Equivalent Fault.Equivalent backend where
  begin := begin_matches
  commit := commit_matches
  abandon he h := abandon_equivalent he h

end Connection

inductive Transaction.Reply.Equivalent : Transaction.Reply → Transaction.Reply → Prop where
  | done : Equivalent .done .done
  | value {v w : Option Bytes} : Option.Rel Record.Equivalent v w → Equivalent (.value v) (.value w)
  | entries {l l' : List (Bytes × Bytes)} : Keyed Record.Equivalent l l' →
      Equivalent (.entries l) (.entries l')

namespace Connection

open Attempt (Alike IsLoop Matches matches_change matches_pure)
open Transaction (Reply Step)

theorem perform_matches (st : Step) :
    Matches Connection.Equivalent Fault.Equivalent Reply.Equivalent (perform st) (perform st) := by
  have hdone : ∀ {m : Attempt Connection Unit},
      Matches Connection.Equivalent Fault.Equivalent Eq m m →
      Matches Connection.Equivalent Fault.Equivalent Reply.Equivalent ((fun _ => Reply.done) <$> m)
        ((fun _ => Reply.done) <$> m) := fun hm => hm.map fun _ _ _ => .done
  cases st with
  | get key =>
    refine ask_matches fun s t x y hs hx => ⟨?_, Transaction.afterGet_equivalent hs hx⟩
    have hget := Transaction.get_equivalent hs hx key
    cases hx' : x.get s key <;> cases hy' : y.get t key <;> rw [hx', hy'] at hget <;> cases hget
    · next he => exact .error he
    · next hrow => exact hrow.map fun _ _ hv => .value hv
  | set key value => exact hdone (set_matches key (.refl value))
  | clear key => exact hdone (clear_matches key)
  | range first last limit =>
    exact ask_matches fun s t x y hs hx =>
      ⟨(Transaction.range_equivalent hs hx).map fun _ _ hl => .entries hl,
        Transaction.afterRange_equivalent hs hx⟩
  | commit => exact hdone commit_matches
  | rollback => exact hdone rollback_matches
  | refuse =>
    exact hdone (matches_change fun _ _ h => ⟨h.store, Transaction.refuse_equivalent h.transaction⟩)

theorem performAll_matches (steps : List Step) :
    Matches Connection.Equivalent Fault.Equivalent (List.Forall₂ Reply.Equivalent)
      (performAll steps) (performAll steps) := by
  have hloop : IsLoop perform List.cons performAll := ⟨⟨[], rfl⟩, fun _ _ => rfl⟩
  refine hloop.matches hloop (I := Eq) (matches_pure .nil) ?_ (fun _ _ _ _ => .cons)
    (List.forall₂_refl _)
  rintro st _ rfl
  exact perform_matches st

end Connection

theorem Store.run_matches {α β : Type} {A : α → β → Prop} {m : Attempt Connection α}
    {m' : Attempt Connection β}
    (hm : Attempt.Matches Connection.Equivalent Fault.Equivalent A m m') :
    Attempt.Matches Store.Equivalent Fault.Equivalent A (Store.run m) (Store.run m') := by
  intro s t h
  have hrun := Connection.backend_endsAlike.run hm ⟨s, .finished⟩ ⟨t, .finished⟩ ⟨h, .finished⟩
  exact ⟨hrun.1, hrun.2.store⟩

end RecordStore
