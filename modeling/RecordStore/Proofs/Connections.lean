import RecordStore.Proofs.KeyMap
import RecordStore.Proofs.Transactional

/-! # Connections are transactional

The backend that a store offers. What its transaction sees is the committed table with the buffered
writes on top, and this is what a commit makes of the table.
-/

namespace RecordStore

namespace Store

theorem lend_snd (s : Store) : ∃ links, s.lend.2 = { s with links } := by
  rw [lend]
  split
  · exact ⟨s.links, rfl⟩
  · next links _ => exact ⟨links, rfl⟩

theorem takeBack_eq (l : Link) (s : Store) : ∃ links, s.takeBack l = { s with links } := by
  rw [takeBack]
  split
  · exact ⟨s.links ++ [l], rfl⟩
  · exact ⟨s.links, rfl⟩

/-- Whether transactions can be carried out: the store is open, and its table is in reach. -/
def Ready (s : Store) : Prop := s.isOpen = true ∧ s.reachable = true ∧ ∃ D, s.table = .holding D

end Store

namespace Connection

variable {c c' : Connection}

/-- The committed table, changed as the transaction is to change it. -/
def rows (c : Connection) : Rows :=
  match c.transaction with
  | .active b => fun key => (b.writes.get? key).getD (c.store.table.rows key)
  | .finished => c.store.table.rows

def Running (c : Connection) : Prop := ∃ b, c.transaction = .active b ∧ b.readYourWrites = true

theorem begin_cases {readYourWrites : Bool} {r : Except Fault Unit}
    (h : backend.begin readYourWrites c = (r, c')) :
    ((∃ e, r = .error e) ∧ c' = c) ∨
      (r = .ok () ∧ c.store.isOpen = true ∧ c.store.reachable = true ∧ ∃ links link,
        c' = ⟨{ c.store with links }, .active ⟨readYourWrites, .empty, false, link⟩⟩) := by
  obtain ⟨store, transaction⟩ := c
  obtain ⟨links, hlend⟩ := store.lend_snd
  simp only [backend, Transaction.begin] at h
  split at h
  · next t store' hbegin =>
    cases hopen : store.isOpen
    · simp [hopen] at hbegin
    · cases hreachable : store.reachable
      · simp [hopen, hreachable] at hbegin
      · simp only [hopen, hreachable, Bool.not_true, Bool.false_eq_true, if_false,
          Except.ok.injEq, Prod.mk.injEq] at hbegin
        obtain ⟨rfl, rfl⟩ := hbegin
        cases h
        exact .inr ⟨rfl, rfl, rfl, links, store.lend.1, by rw [hlend]⟩
  · next e hbegin =>
    cases h
    exact .inl ⟨⟨e, rfl⟩, rfl⟩

theorem begin_ok (hopen : c.store.isOpen = true) (hreachable : c.store.reachable = true)
    (readYourWrites : Bool) : ∃ links link, backend.begin readYourWrites c =
      (.ok (), ⟨{ c.store with links }, .active ⟨readYourWrites, .empty, false, link⟩⟩) := by
  rcases hbegin : backend.begin readYourWrites c with ⟨r, c'⟩
  rcases begin_cases hbegin with ⟨⟨e, rfl⟩, rfl⟩ | ⟨rfl, -, -, links, link, rfl⟩
  · simp only [backend, Transaction.begin, hopen, hreachable] at hbegin
    simp at hbegin
  · exact ⟨links, link, rfl⟩

theorem rows_afterGet (key : Bytes) (c : Connection) :
    (⟨c.store, c.transaction.afterGet c.store key⟩ : Connection).rows = c.rows := by
  obtain ⟨store, _ | _⟩ := c <;> rfl

theorem running_afterGet (key : Bytes) (hc : c.Running) :
    (⟨c.store, c.transaction.afterGet c.store key⟩ : Connection).Running := by
  obtain ⟨store, transaction⟩ := c
  obtain ⟨b, rfl, hb⟩ := hc
  exact ⟨_, rfl, hb⟩

theorem get_value (hc : c.Running) {key : Bytes} {row : Option Bytes}
    (h : c.transaction.get c.store key = .ok (.ok row)) : row = c.rows key := by
  obtain ⟨store, transaction⟩ := c
  obtain ⟨b, rfl, hb⟩ := hc
  simp only [Transaction.get, Buffer.find?, hb, if_true] at h
  simp only [rows]
  cases hbuffered : b.writes.get? key with
  | some buffered =>
    simp only [hbuffered, Except.ok.injEq] at h
    exact h.symm
  | none =>
    simp only [hbuffered] at h
    split at h
    · simp only [Except.ok.injEq, Transaction.fetch] at h
      split at h
      · next D hD =>
        simp only [hD, Table.rows, Option.getD_none]
        exact (Except.ok.inj h).symm
      · cases h
    · cases h

theorem buffer_cases {f : Transaction → Except Fault Transaction} {r : Except Fault Unit}
    (h : buffer f c = (r, c')) : (∃ e, r = .error e ∧ c' = c) ∨
      ∃ t, f c.transaction = .ok t ∧ r = .ok () ∧ c' = ⟨c.store, t⟩ := by
  simp only [buffer] at h
  split at h
  · next t ht =>
    cases h
    exact .inr ⟨t, ht, rfl, rfl⟩
  · next e _ =>
    cases h
    exact .inl ⟨e, rfl, rfl⟩

end Connection

namespace Transaction

theorem set_eq_ok_iff {t t' : Transaction} {key value : Bytes} :
    t.set key value = .ok t' ↔ ∃ b, t = .active b ∧ key.length ≤ maxKeyBytes ∧
      t' = .active { b with writes := b.writes.insert key (some value) } := by
  cases t with
  | finished => simp [set]
  | active b =>
    simp only [set]
    split
    · next h => simp [Nat.not_le.mpr h]
    · next h => simp [Nat.not_lt.mp h, eq_comm]

theorem clear_eq_ok_iff {t t' : Transaction} {key : Bytes} :
    t.clear key = .ok t' ↔ ∃ b, t = .active b ∧
      t' = .active { b with writes := b.writes.insert key none } := by
  cases t <;> simp [clear, eq_comm]

end Transaction

namespace Connection

variable {c c' : Connection}

theorem rows_insert (store : Store) (b : Buffer) (key : Bytes) (value : Option Bytes) :
    rows ⟨store, .active { b with writes := b.writes.insert key value }⟩ =
      Function.update (rows ⟨store, .active b⟩) key value := by
  refine funext fun other => ?_
  simp only [rows, KeyMap.get?_insert, Function.update_apply]
  split <;> rfl

theorem commit_cases {r : Except Fault Unit} (h : commit c = (r, c')) :
    (∃ e links, r = .error e ∧ c' = ⟨{ c.store with links }, .finished⟩) ∨
      ∃ b links table, c.transaction = .active b ∧ b.refused = false ∧ r = .ok () ∧
        c' = ⟨{ c.store with links, table }, .finished⟩ ∧ table.rows = c.rows ∧
        ((∃ D, c.store.table = .holding D) → ∃ D, table = .holding D) := by
  obtain ⟨store, transaction⟩ := c
  cases transaction with
  | finished =>
    cases h
    exact .inl ⟨_, store.links, rfl, rfl⟩
  | active b =>
    obtain ⟨links, hback⟩ := store.takeBack_eq (b.linkAfterWrites store)
    simp only [commit, Transaction.commit, hback] at h
    split at h
    · cases h
      exact .inl ⟨_, links, rfl, rfl⟩
    · next hrefused =>
      split at h
      · next hempty =>
        cases h
        refine .inr ⟨b, links, store.table, rfl, by simpa using hrefused, rfl, rfl, ?_, id⟩
        have hnone : ∀ key, b.writes.get? key = none := fun key => by
          rw [KeyMap.get?, List.isEmpty_iff.mp hempty]
          rfl
        simp [rows, hnone]
      · split at h
        · next D hD =>
          cases h
          refine .inr ⟨b, links, _, rfl, by simpa using hrefused, rfl, rfl, ?_, fun _ => ⟨_, rfl⟩⟩
          ext1 key
          simp only [rows, Table.rows, hD, KeyMap.get?_overlay]
        · cases h
          exact .inl ⟨_, links, rfl, rfl⟩

theorem abandon_eq (e : Fault) (c : Connection) :
    ∃ links, (abandon e c).2 = ⟨{ c.store with links }, .finished⟩ := by
  obtain ⟨store, _ | b⟩ := c
  · obtain ⟨links, hback⟩ := store.takeBack_eq (Buffer.link ‹_›)
    exact ⟨links, by simp [abandon, rollback, Transaction.rollback, hback]⟩
  · exact ⟨store.links, rfl⟩

theorem rollback_of_active (s : Store) {b : Buffer} (hb : b.refused = false) :
    ∃ links, rollback ⟨s, .active b⟩ = (.ok (), ⟨{ s with links }, .finished⟩) := by
  obtain ⟨links, hback⟩ := s.takeBack_eq b.link
  exact ⟨links, by simp [rollback, Transaction.rollback, hb, hback]⟩

/-- A write either fails and changes nothing, or is buffered on top of those before it. -/
def Buffers (key : Bytes) (value : Option Bytes) (c : Connection) (r : Except Fault Unit)
    (c' : Connection) : Prop :=
  (∃ e, r = .error e ∧ c' = c) ∨ ∃ b, c.transaction = .active b ∧ r = .ok () ∧
    c' = ⟨c.store, .active { b with writes := b.writes.insert key value }⟩

theorem buffers_of_set {key value : Bytes} {r : Except Fault Unit}
    (h : backend.set key value c = (r, c')) : Buffers key (some value) c r c' := by
  rcases buffer_cases h with hfail | ⟨t, ht, rfl, rfl⟩
  · exact .inl hfail
  · obtain ⟨b, hb, -, rfl⟩ := Transaction.set_eq_ok_iff.mp ht
    exact .inr ⟨b, hb, rfl, rfl⟩

theorem buffers_of_clear {key : Bytes} {r : Except Fault Unit}
    (h : backend.clear key c = (r, c')) : Buffers key none c r c' := by
  rcases buffer_cases h with hfail | ⟨t, ht, rfl, rfl⟩
  · exact .inl hfail
  · obtain ⟨b, hb, rfl⟩ := Transaction.clear_eq_ok_iff.mp ht
    exact .inr ⟨b, hb, rfl, rfl⟩

section Buffers

variable {key : Bytes} {value : Option Bytes} {r : Except Fault Unit}

theorem Buffers.store_eq (h : Buffers key value c r c') : c'.store = c.store := by
  rcases h with ⟨_, _, rfl⟩ | ⟨_, _, _, rfl⟩
  · rfl
  · rfl

theorem Buffers.running (h : Buffers key value c r c') (hc : c.Running) : c'.Running := by
  rcases h with ⟨_, _, rfl⟩ | ⟨b, hb, _, rfl⟩
  · exact hc
  · obtain ⟨b', hb', hread⟩ := hc
    obtain rfl : b = b' := by simpa [hb] using hb'
    exact ⟨_, rfl, hread⟩

theorem Buffers.rows_eq (h : Buffers key value c (.ok ()) c') :
    c'.rows = Function.update c.rows key value := by
  rcases h with ⟨_, hr, _⟩ | ⟨b, hb, _, rfl⟩
  · cases hr
  · have hc : c.rows = rows ⟨c.store, .active b⟩ := by rw [← hb]
    rw [rows_insert, hc]

end Buffers

theorem keeps_store (P : Store → Prop) : backend.Keeps fun c => P c.store where
  get h hP := by
    cases h
    exact hP
  set h hP := by
    rw [(buffers_of_set h).store_eq]
    exact hP
  clear h hP := by
    rw [(buffers_of_clear h).store_eq]
    exact hP

theorem keeps_running : backend.Keeps Running where
  get h hc := by
    cases h
    exact running_afterGet _ hc
  set h hc := (buffers_of_set h).running hc
  clear h hc := (buffers_of_clear h).running hc

def transactional : backend.Transactional where
  table c := c.store.table
  rows := rows
  Running := Running
  begin_table h := by
    rcases begin_cases h with ⟨_, rfl⟩ | ⟨_, _, _, _, _, rfl⟩
    · rfl
    · rfl
  begin_rows h := by
    rcases begin_cases h with ⟨⟨_, hr⟩, _⟩ | ⟨_, _, _, _, _, rfl⟩
    · cases hr
    · rfl
  begin_running h := by
    rcases begin_cases h with ⟨⟨_, hr⟩, _⟩ | ⟨_, _, _, _, _, rfl⟩
    · cases hr
    · exact ⟨_, rfl, rfl⟩
  keeps_table t := keeps_store (·.table = t)
  keeps_running := keeps_running
  get_rows h := by
    obtain ⟨-, rfl⟩ := Prod.mk.inj h
    exact rows_afterGet _ _
  get_value hc h := get_value hc (Prod.mk.inj h).1
  set_rows h := (buffers_of_set h).rows_eq
  clear_rows h := (buffers_of_clear h).rows_eq
  commit_rows h := by
    rcases commit_cases h with ⟨_, _, hr, _⟩ | ⟨b, links, table, _, _, _, rfl, htable, _⟩
    · cases hr
    · exact htable
  commit_table h := by
    rcases commit_cases h with ⟨_, _, _, rfl⟩ | ⟨b, links, table, _, _, hr, _, _⟩
    · rfl
    · cases hr
  abandon_table c e := by
    obtain ⟨links, h⟩ := abandon_eq e c
    exact congrArg (·.store.table) h

theorem preserves_ready : backend.Preserves fun c => c.store.Ready where
  toKeeps := keeps_store Store.Ready
  begin h hc := by
    rcases begin_cases h with ⟨_, rfl⟩ | ⟨_, _, _, _, _, rfl⟩
    · exact hc
    · exact hc
  commit h hc := by
    rcases commit_cases h with ⟨_, _, _, rfl⟩ | ⟨b, links, table, _, _, _, rfl, _, htable⟩
    · exact hc
    · exact ⟨hc.1, hc.2.1, htable hc.2.2⟩
  abandon {c} e hc := by
    obtain ⟨links, h⟩ := abandon_eq e c
    exact (congrArg (fun c' : Connection => c'.store.Ready) h).mpr hc

/-- A transaction in use that the database will not refuse to end, on a store that is ready. -/
def Healthy (c : Connection) : Prop :=
  c.store.Ready ∧ ∃ b, c.transaction = .active b ∧ b.refused = false

theorem Healthy.buffer (hc : c.Healthy) {f : Transaction → Except Fault Transaction} {key : Bytes}
    {value : Option Bytes} (hf : ∀ b, f (.active b) =
      .ok (.active { b with writes := b.writes.insert key value })) :
    ∃ c', buffer f c = (.ok (), c') ∧ c'.Healthy := by
  obtain ⟨hready, b, hactive, hb⟩ := hc
  refine ⟨⟨c.store, .active { b with writes := b.writes.insert key value }⟩, ?_, hready, _, rfl,
    hb⟩
  simp only [Connection.buffer, hactive, hf]

theorem serves : backend.Serves Healthy where
  get {c} key hc := by
    obtain ⟨⟨hopen, hreachable, D, hD⟩, b, hactive, hb⟩ := hc
    have hget : ∃ row, c.transaction.get c.store key = .ok (.ok row) := by
      rw [hactive, Transaction.get]
      cases b.find? key with
      | some buffered => exact ⟨buffered, rfl⟩
      | none => exact ⟨D.get? key, by simp only [hopen, if_true, Transaction.fetch, hD]⟩
    obtain ⟨row, hrow⟩ := hget
    refine ⟨row, _, Prod.ext hrow rfl, ⟨hopen, hreachable, D, hD⟩, ?_⟩
    simp only [backend, ask, hactive, Transaction.afterGet]
    exact ⟨_, rfl, hb⟩
  set value hc hkey := hc.buffer fun b => Transaction.set_eq_ok_iff.mpr ⟨b, rfl, hkey, rfl⟩
  clear key hc := hc.buffer fun b => Transaction.clear_eq_ok_iff.mpr ⟨b, rfl, rfl⟩
  commit {c} hc := by
    obtain ⟨⟨-, -, D, hD⟩, b, hactive, hb⟩ := hc
    have hcommit : (commit c).1 = .ok () := by
      simp only [commit, Transaction.commit, hactive, hb, hD, Bool.false_eq_true, if_false]
      split <;> rfl
    exact ⟨_, Prod.ext hcommit rfl⟩

end Connection
end RecordStore
