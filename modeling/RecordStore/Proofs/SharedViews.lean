import RecordStore.Proofs.Agreement
import RecordStore.Proofs.InTurn
import RecordStore.Proofs.RangeReads
import RecordStore.Proofs.SharedBatch

/-! # What a client sees of a store

Two stores that have the same rows under some keys look alike to whoever reads no others. So a
client whose rows and slots nobody else touches finds them as if nobody else were there.
-/

namespace RecordStore

variable {K : Bytes → Prop} {S : String → Prop}

/-- The stores differ at most in rows of other keys, and in their links. -/
structure Store.AgreesOn (K : Bytes → Prop) (s t : Store) : Prop where
  isOpen : s.isOpen = t.isOpen
  reachable : s.reachable = t.reachable
  closeFault : s.closeFault = t.closeFault
  hasTable : s.hasTable = t.hasTable
  rows {key : Bytes} : K key → s.table.rows key = t.table.rows key

inductive Transaction.Alike : Transaction → Transaction → Prop where
  | active (b : Buffer) (link : Link) : Alike (.active b) (.active { b with link })
  | finished : Alike .finished .finished

structure Connection.AgreesOn (K : Bytes → Prop) (c d : Connection) : Prop where
  store : c.store.AgreesOn K d.store
  transaction : c.transaction.Alike d.transaction

theorem Table.entries?_eq_some_iff {t : Table} {D : KeyMap Bytes} :
    t.entries? = some D ↔ t = .holding D := by
  cases t <;> simp [entries?]

namespace Store.AgreesOn

variable {s t : Store}

theorem refl (s : Store) : s.AgreesOn K s := ⟨rfl, rfl, rfl, rfl, fun _ => rfl⟩

theorem relink (h : s.AgreesOn K t) (links links' : List Link) :
    Store.AgreesOn K { s with links } { t with links := links' } :=
  ⟨h.isOpen, h.reachable, h.closeFault, h.hasTable, h.rows⟩

theorem lend (h : s.AgreesOn K t) : s.lend.2.AgreesOn K t.lend.2 := by
  obtain ⟨links, hs⟩ := s.lend_snd
  obtain ⟨links', ht⟩ := t.lend_snd
  rw [hs, ht]
  exact h.relink links links'

theorem takeBack (h : s.AgreesOn K t) (l l' : Link) :
    (s.takeBack l).AgreesOn K (t.takeBack l') := by
  obtain ⟨links, hs⟩ := s.takeBack_eq l
  obtain ⟨links', ht⟩ := t.takeBack_eq l'
  rw [hs, ht]
  exact h.relink links links'

theorem close (h : s.AgreesOn K t) : s.close.1 = t.close.1 ∧ s.close.2.AgreesOn K t.close.2 := by
  unfold Store.close
  rw [h.closeFault]
  cases t.closeFault with
  | some e => exact ⟨rfl, h⟩
  | none =>
    exact ⟨congrArg Except.ok h.isOpen, rfl, h.reachable, rfl, h.hasTable, h.rows⟩

theorem tables (h : s.AgreesOn K t) :
    (∃ D D', s.table = .holding D ∧ t.table = .holding D' ∧
      ∀ key, K key → D.get? key = D'.get? key) ∨
    s.table.entries? = none ∧ t.table.entries? = none := by
  have hsame : s.table.entries?.isSome = t.table.entries?.isSome := h.hasTable
  cases hs : s.table.entries? with
  | none =>
    rw [hs] at hsame
    exact .inr ⟨rfl, Option.isSome_eq_false_iff.mp hsame.symm |> Option.isNone_iff_eq_none.mp⟩
  | some D =>
    rw [hs] at hsame
    obtain ⟨D', ht⟩ := Option.isSome_iff_exists.mp hsame.symm
    rw [Table.entries?_eq_some_iff] at hs ht
    refine .inl ⟨D, D', hs, ht, fun key hkey => ?_⟩
    have hrows := h.rows hkey
    rw [hs, ht] at hrows
    exact hrows

end Store.AgreesOn

theorem KeyMap.range_congr {D D' : KeyMap Bytes} {first last : Bytes}
    (h : ∀ key, ¬ key < first → key < last → D.get? key = D'.get? key) :
    D.range first last = D'.range first last := by
  apply eq_of_get?
  intro key
  rw [get?_range, get?_range]
  split
  · next hrange => exact h key hrange.1 hrange.2
  · rfl

namespace Transaction

variable {s t : Store}

theorem fetch_of_none (h : s.table.entries? = none) (key : Bytes) :
    fetch s key = .error .getFailed := by
  unfold fetch
  split
  · next D hD => simp [hD, Table.entries?] at h
  · rfl

theorem fetch_congr (h : s.AgreesOn K t) {key : Bytes} (hkey : K key) :
    fetch s key = fetch t key := by
  rcases h.tables with ⟨D, D', hs, ht, hrows⟩ | ⟨hs, ht⟩
  · simp only [fetch, hs, ht, hrows key hkey]
  · rw [fetch_of_none hs, fetch_of_none ht]

theorem get_congr (h : s.AgreesOn K t) {key : Bytes} (hkey : K key) {x y : Transaction}
    (hxy : x.Alike y) : x.get s key = y.get t key := by
  cases hxy with
  | active b link => simp only [get, Buffer.find?, h.isOpen, fetch_congr h hkey]
  | finished => rfl

theorem toOption_range_of_none (h : s.table.entries? = none) (first last : Bytes) (limit : Int)
    (x : Transaction) : (x.range s first last limit).toOption = none := by
  cases x with
  | finished => rfl
  | active b =>
    rw [range]
    split
    · rfl
    · split
      · next D hD => simp [hD, Table.entries?] at h
      · rfl

theorem toOption_range_congr (h : s.AgreesOn K t) {first last : Bytes}
    (hrange : ∀ key, ¬ key < first → key < last → K key) (limit : Int) {x y : Transaction}
    (hxy : x.Alike y) :
    (x.range s first last limit).toOption = (y.range t first last limit).toOption := by
  rcases h.tables with ⟨D, D', hs, ht, hrows⟩ | ⟨hs, ht⟩
  · have hsame : D.range first last = D'.range first last :=
      KeyMap.range_congr fun key hfirst hlast => hrows key (hrange key hfirst hlast)
    cases hxy with
    | finished => rfl
    | active b link =>
      by_cases hasks : b.asksTooMuch first last limit = true
      · have hasks' : Buffer.asksTooMuch { b with link } first last limit = true := hasks
        rw [range, range, if_pos hasks, if_pos hasks']
        rfl
      · have hasks' : ¬ Buffer.asksTooMuch { b with link } first last limit = true := hasks
        simp only [range, if_neg hasks, if_neg hasks', hs, ht, hsame]
        rfl
  · rw [toOption_range_of_none hs, toOption_range_of_none ht]

section Commit

variable {b : Buffer}

theorem commit_of_idle (h : ¬ (b.refused = false ∧ b.writes.entries.isEmpty = false)) :
    (Transaction.active b).commit s =
      (if b.refused then .error .commitFailed else .ok (), s.takeBack (b.linkAfterWrites s)) := by
  rw [commit]
  cases hrefused : b.refused with
  | true => rfl
  | false =>
    have hempty : b.writes.entries.isEmpty = true := by simpa [hrefused] using h
    simp [hempty]

theorem commit_of_holding (h : b.refused = false ∧ b.writes.entries.isEmpty = false)
    {D : KeyMap Bytes} (hs : s.table = .holding D) :
    (Transaction.active b).commit s = (.ok (),
      { s.takeBack (b.linkAfterWrites s) with table := .holding (D.overlay b.writes) }) := by
  simp [commit, h.1, h.2, hs]

theorem commit_of_none (h : b.refused = false ∧ b.writes.entries.isEmpty = false)
    (hs : s.table.entries? = none) : (Transaction.active b).commit s =
      (.error .commitFailed, s.takeBack (b.linkAfterWrites s)) := by
  cases htable : s.table with
  | holding D => simp [htable, Table.entries?] at hs
  | _ => simp [commit, h.1, h.2, htable]

end Commit

theorem commit_snd (x : Transaction) (s : Store) : ∃ table links,
    (x.commit s).2 = { s with table, links } ∧ table.entries?.isSome = s.hasTable := by
  cases x with
  | finished => exact ⟨s.table, s.links, rfl, rfl⟩
  | active b =>
    obtain ⟨links, hback⟩ := s.takeBack_eq (b.linkAfterWrites s)
    by_cases hwrites : b.refused = false ∧ b.writes.entries.isEmpty = false
    · cases hs : s.table.entries? with
      | none =>
        rw [commit_of_none hwrites hs, hback]
        exact ⟨s.table, links, rfl, rfl⟩
      | some D =>
        have hD := Table.entries?_eq_some_iff.mp hs
        rw [commit_of_holding hwrites hD, hback]
        exact ⟨_, links, rfl, by rw [Store.hasTable, hs]; rfl⟩
    · rw [commit_of_idle hwrites, hback]
      exact ⟨s.table, links, rfl, rfl⟩

end Transaction

namespace Connection

open Attempt (Respects)

variable {c d : Connection}

theorem respects_ask {α : Type} {f : Store → Transaction → Except Fault α}
    {after : Store → Transaction → Transaction}
    (hf : ∀ {s t : Store} {x y : Transaction}, s.AgreesOn K t → x.Alike y →
      (f s x).toOption = (f t y).toOption)
    (hafter : ∀ (s t : Store) {x y : Transaction}, x.Alike y → (after s x).Alike (after t y)) :
    Respects (AgreesOn K) (ask f after) :=
  fun _ _ h => ⟨hf h.store h.transaction, h.store, hafter _ _ h.transaction⟩

theorem respects_begin (readYourWrites : Bool) :
    Respects (AgreesOn K) (backend.begin readYourWrites) := by
  intro c d h
  simp only [backend, Transaction.begin, h.store.isOpen, h.store.reachable]
  cases d.store.isOpen with
  | false => exact ⟨rfl, h⟩
  | true =>
    cases d.store.reachable with
    | false => exact ⟨rfl, h⟩
    | true => exact ⟨rfl, h.store.lend, .active _ _⟩

theorem respects_buffer {f : Transaction → Except Fault Transaction}
    (hf : ∀ {x y : Transaction}, x.Alike y →
      (∃ e, f x = .error e ∧ f y = .error e) ∨ ∃ x' y', f x = .ok x' ∧ f y = .ok y' ∧ x'.Alike y') :
    Respects (AgreesOn K) (buffer f) := by
  intro c d h
  rcases hf h.transaction with ⟨e, hx, hy⟩ | ⟨x, y, hx, hy, hxy⟩
  · simp only [buffer, hx, hy]
    exact ⟨trivial, h⟩
  · simp only [buffer, hx, hy]
    exact ⟨trivial, h.store, hxy⟩

theorem respects_set (key value : Bytes) : Respects (AgreesOn K) (backend.set key value) := by
  apply respects_buffer
  intro x y hxy
  cases hxy with
  | finished => exact .inl ⟨_, rfl, rfl⟩
  | active b link =>
    by_cases hkey : maxKeyBytes < key.length
    · exact .inl ⟨_, if_pos hkey, if_pos hkey⟩
    · exact .inr ⟨_, _, if_neg hkey, if_neg hkey, .active _ link⟩

theorem respects_clear (key : Bytes) : Respects (AgreesOn K) (backend.clear key) := by
  apply respects_buffer
  intro x y hxy
  cases hxy with
  | finished => exact .inl ⟨_, rfl, rfl⟩
  | active b link => exact .inr ⟨_, _, rfl, rfl, .active _ link⟩

theorem respects_commit : Respects (AgreesOn K) commit := by
  rintro ⟨s, _⟩ ⟨t, _⟩ ⟨h, b, link⟩
  -- The links given back may differ, and so may the rows of other keys; no answer depends on them.
  · have hback := h.takeBack (b.linkAfterWrites s) (Buffer.linkAfterWrites { b with link } t)
    simp only [commit]
    by_cases hwrites : b.refused = false ∧ b.writes.entries.isEmpty = false
    · rcases h.tables with ⟨D, D', hs, ht, hrows⟩ | ⟨hs, ht⟩
      · rw [Transaction.commit_of_holding hwrites hs,
          Transaction.commit_of_holding (b := { b with link }) hwrites ht]
        refine ⟨rfl, ⟨hback.isOpen, hback.reachable, hback.closeFault, rfl, ?_⟩, .finished⟩
        intro key hkey
        simp only [Table.rows, KeyMap.get?_overlay, hrows key hkey]
      · rw [Transaction.commit_of_none hwrites hs,
          Transaction.commit_of_none (b := { b with link }) hwrites ht]
        exact ⟨rfl, hback, .finished⟩
    · rw [Transaction.commit_of_idle hwrites,
        Transaction.commit_of_idle (b := { b with link }) hwrites]
      exact ⟨rfl, hback, .finished⟩
  · exact ⟨rfl, h, .finished⟩

theorem respects_rollback : Respects (AgreesOn K) rollback := by
  rintro ⟨s, _⟩ ⟨t, _⟩ ⟨h, b, link⟩
  · exact ⟨rfl, h.takeBack b.link link, .finished⟩
  · exact ⟨rfl, h, .finished⟩

/-- What a transaction does is the same on stores that look alike. -/
theorem backend_respects : backend.Respects (AgreesOn K) K where
  begin := respects_begin
  get hkey := respects_ask (fun h hxy => congrArg _ (Transaction.get_congr h hkey hxy))
    fun s t x y hxy => by cases hxy <;> constructor
  set := respects_set
  clear := respects_clear
  range limit hrange := respects_ask
    (fun h hxy => Transaction.toOption_range_congr h hrange limit hxy)
    fun s t x y hxy => by cases hxy <;> constructor
  commit := respects_commit
  rollback := respects_rollback
  abandon e e' s t h := (respects_rollback s t h).2

theorem preserves_frame (s : Store) :
    backend.Preserves fun c => Store.AgreesOn (fun _ => False) c.store s where
  toKeeps := keeps_store fun t => t.AgreesOn (fun _ => False) s
  begin h hc := by
    rcases begin_cases h with ⟨_, rfl⟩ | ⟨_, _, _, links, _, rfl⟩
    · exact hc
    · exact hc.relink links s.links
  commit {c _ _} h hc := by
    obtain ⟨table, links, hcommit, htable⟩ := c.transaction.commit_snd c.store
    obtain ⟨-, rfl⟩ := Prod.mk.inj h
    exact (congrArg (fun t => Store.AgreesOn (fun _ => False) t s) hcommit).mpr
      ⟨hc.isOpen, hc.reachable, hc.closeFault, htable.trans hc.hasTable, False.elim⟩
  abandon {c} e hc := by
    obtain ⟨links, h⟩ := abandon_eq e c
    exact (congrArg (fun c' => Store.AgreesOn (fun _ => False) c'.store s) h).mpr
      (hc.relink links s.links)

end Connection

namespace Batch

variable {rows : Rows} {ops : List Operation} {key : Bytes}

theorem after_of_apart (h : ∀ op ∈ ops, Key.pack op.key ≠ key) :
    after rows ops key = rows key := by
  rw [after_apply, lastMerge_of_apart h, Option.none_or, leaveAll_apply, lastLeft_of_apart h,
    Option.getD_none]

end Batch

/-- What is shared differs at most in rows of other keys, in other slots, in the links, and in what
was reported and counted. -/
structure Shared.AgreesOn (K : Bytes → Prop) (S : String → Prop) (w w' : Shared) : Prop where
  store : w.store.AgreesOn K w'.store
  slots : w.footprint.AgreesOn S w'.footprint

namespace Shared

open Batch

variable {w w' : Shared} {ops : List Operation}

theorem rows_execute_of_apart {key : Bytes} (h : ∀ op ∈ ops, Key.pack op.key ≠ key) :
    (w.execute ops).2.store.table.rows key = w.store.table.rows key := by
  by_cases hne : ops = []
  · subst hne
    rfl
  rw [execute_store]
  rcases hrun : (Connection.backend.beside Footprint).run (body Connection.backend ops)
    ((⟨w.store, .finished⟩ : Connection), w.footprint) with ⟨e | status, t'⟩
  · have htable : t'.1.store.table = w.store.table := run_error Connection.transactional hrun
    rw [execute_of_run_error hne hrun, htable]
  · obtain ⟨-, -, hrows, -⟩ := run_ok Connection.transactional hrun
    have hafter : t'.1.store.table.rows = after w.store.table.rows ops := hrows
    rw [execute_of_run_ok hne hrun, hafter, after_of_apart h]

namespace AgreesOn

theorem report_left (h : w.AgreesOn K S w') (e : Event) : (w.report e).AgreesOn K S w' :=
  ⟨h.store, h.slots⟩

theorem report (h : w.AgreesOn K S w') (e e' : Event) :
    (w.report e).AgreesOn K S (w'.report e') :=
  ⟨h.store, h.slots⟩

theorem connections (h : w.AgreesOn K S w') :
    Attempt.Both (Connection.AgreesOn K) (Footprint.AgreesOn S)
      ((⟨w.store, .finished⟩ : Connection), w.footprint)
      ((⟨w'.store, .finished⟩ : Connection), w'.footprint) :=
  ⟨⟨h.store, .finished⟩, h.slots⟩

theorem execute (h : w.AgreesOn K S w') (hops : ∀ op ∈ ops, K (Key.pack op.key)) :
    (w.execute ops).1 = (w'.execute ops).1 ∧
      (w.execute ops).2.AgreesOn K S (w'.execute ops).2 := by
  obtain ⟨hstatus, hconnection, hslots⟩ :=
    execute_respects Connection.backend_respects hops h.connections
  exact ⟨hstatus, hconnection.store, hslots⟩

theorem scan (h : w.AgreesOn K S w') {db table : String} {start : Text}
    (hrange : ∀ f, Key.packText (Key.rowFrom db table start) = .ok f → ∀ key, ¬ key < f →
      key < Key.pack (Key.rangeEnd table (some db)) → K key) (limit : Int) (p : Projection) :
    (w.scan db table start limit p).1 = (w'.scan db table start limit p).1 ∧
      (w.scan db table start limit p).2.AgreesOn K S (w'.scan db table start limit p).2 := by
  obtain ⟨hanswer, hconnection, hslots⟩ :=
    Scan.scan_respects Connection.backend_respects hrange limit p h.connections
  exact ⟨hanswer, hconnection.store, hslots⟩

theorem close (h : w.AgreesOn K S w') :
    w.close.1 = w'.close.1 ∧ w.close.2.AgreesOn K S w'.close.2 := by
  obtain ⟨hresult, hstore⟩ := h.store.close
  simp only [Shared.close]
  rcases hw : w.store.close with ⟨e | wasOpen, s⟩ <;> rcases hw' : w'.store.close with
    ⟨e' | wasOpen', t⟩ <;> rw [hw, hw'] at hresult hstore
  · obtain rfl := Except.error.inj hresult
    exact ⟨rfl, hstore, h.slots⟩
  · cases hresult
  · cases hresult
  · obtain rfl := Except.ok.inj hresult
    refine ⟨rfl, ?_⟩
    cases wasOpen with
    | true => exact ⟨hstore, h.slots⟩
    | false => exact ⟨hstore, h.slots⟩

/-- A batch on other keys that names no such slots makes no difference. -/
theorem execute_left (h : w.AgreesOn K S w') (hkeys : ∀ op ∈ ops, ¬ K (Key.pack op.key))
    (hslots : ∀ op ∈ ops, ∀ name, op.slot? = some name → ¬ S name) :
    (w.execute ops).2.AgreesOn K S w' := by
  have hframe : (w.execute ops).2.store.AgreesOn (fun _ => False) w.store :=
    execute_preserves (Connection.preserves_frame w.store) ops
      (⟨w.store, .finished⟩, w.footprint) (.refl w.store)
  refine ⟨⟨hframe.isOpen.trans h.store.isOpen, hframe.reachable.trans h.store.reachable,
    hframe.closeFault.trans h.store.closeFault, hframe.hasTable.trans h.store.hasTable, ?_⟩, ?_⟩
  · intro key hkey
    have hapart : ∀ op ∈ ops, Key.pack op.key ≠ key := fun op hop heq => hkeys op hop (heq ▸ hkey)
    rw [rows_execute_of_apart hapart, h.store.rows hkey]
  · intro name hname
    have hsame : w.footprint.slot name = (w.execute ops).2.footprint.slot name :=
      execute_slots (b := Connection.backend)
        (t := ((⟨w.store, .finished⟩ : Connection), w.footprint)) hslots name hname
    rw [← hsame, h.slots name hname]

end AgreesOn

end Shared

end RecordStore
