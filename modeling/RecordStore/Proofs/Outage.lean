import RecordStore.Proofs.BatchFaults
import RecordStore.Proofs.Connections

/-! # Outages

Faults of the database that strike a transaction from outside, at any of its calls or when a result
is awaited. Under every outage a batch on a store is carried out as a whole or not at all.
-/

namespace RecordStore

structure Outage where
  begin : Option Fault
  /-- The faults of calls, which are counted from the begin of the transaction. -/
  call : Nat → Option Fault
  /-- The faults of results that are awaited, by the call that asked for them. -/
  result : Nat → Option Fault
  /-- Whether the database refuses to end the transaction. -/
  refuses : Bool

namespace Outage

/-- Count a call, and fail instead of making it if there is a fault for it. -/
def counted {α : Type} (o : Outage) (m : Attempt Connection α) : Attempt (Connection × Nat) α :=
  fun t =>
    match o.call t.2 with
    | some e => (.error e, t.1, t.2 + 1)
    | none => ((m t.1).1, (m t.1).2, t.2 + 1)

def backend (o : Outage) : Backend (Connection × Nat) :=
  { Connection.backend.beside Nat with
    begin := fun readYourWrites t =>
      match o.begin, Connection.backend.begin readYourWrites t.1 with
      | some e, _ => (.error e, t)
      | none, (.error e, c) => (.error e, c, t.2)
      | none, (.ok (), c) =>
        (.ok (), ⟨c.store, if o.refuses then c.transaction.refuse else c.transaction⟩, 0)
    get := fun key t =>
      let (r, t') := o.counted (Connection.backend.get key) t
      ((o.result t.2).elim r fun e => r.map fun _ => .error e, t')
    set := fun key value => o.counted (Connection.backend.set key value)
    clear := fun key => o.counted (Connection.backend.clear key) }

variable {o : Outage} {t t' : Connection × Nat} {key : Bytes}

theorem counted_cases {α : Type} {m : Attempt Connection α} {r : Except Fault α}
    (h : o.counted m t = (r, t')) :
    ((∃ e, r = .error e) ∧ t'.1 = t.1) ∨ m t.1 = (r, t'.1) := by
  rw [counted] at h
  split at h
  · next e _ =>
    cases h
    exact .inl ⟨⟨e, rfl⟩, rfl⟩
  · cases h
    exact .inr rfl

theorem get_cases {r : Except Fault (Except Fault (Option Bytes))}
    (h : o.backend.get key t = (r, t')) : ((∃ e, r = .error e) ∧ t'.1 = t.1) ∨
      ∃ r', Connection.backend.get key t.1 = (r', t'.1) ∧
        (r = r' ∨ ∃ e, r = r'.map fun _ => .error e) := by
  rcases hcounted : o.counted (Connection.backend.get key) t with ⟨r₀, t₀⟩
  simp only [backend, hcounted, Prod.mk.injEq] at h
  obtain ⟨rfl, rfl⟩ := h
  rcases counted_cases hcounted with ⟨⟨e, rfl⟩, hfst⟩ | hget
  · refine .inl ⟨⟨e, ?_⟩, hfst⟩
    cases o.result t.2 <;> rfl
  · refine .inr ⟨r₀, hget, ?_⟩
    cases o.result t.2 with
    | none => exact .inl rfl
    | some e => exact .inr ⟨e, rfl⟩

theorem begin_cases {r : Except Fault Unit} (h : o.backend.begin true t = (r, t')) :
    ((∃ e, r = .error e) ∧ t'.1 = t.1) ∨ (r = .ok () ∧ ∃ links link,
      t'.1 = ⟨{ t.1.store with links }, .active ⟨true, .empty, o.refuses, link⟩⟩) := by
  simp only [backend] at h
  split at h
  · next e _ =>
    cases h
    exact .inl ⟨⟨e, rfl⟩, rfl⟩
  · next e c _ hbegin =>
    cases h
    rcases Connection.begin_cases hbegin with ⟨_, rfl⟩ | ⟨hr, _⟩
    · exact .inl ⟨⟨e, rfl⟩, rfl⟩
    · cases hr
  · next c _ hbegin =>
    cases h
    rcases Connection.begin_cases hbegin with ⟨⟨_, hr⟩, _⟩ | ⟨_, _, _, links, link, rfl⟩
    · cases hr
    · refine .inr ⟨rfl, links, link, ?_⟩
      cases o.refuses <;> rfl

theorem keeps {P : Connection → Prop} (hP : Connection.backend.Keeps P) :
    o.backend.Keeps fun t => P t.1 where
  get h ht := by
    rcases get_cases h with ⟨_, hfst⟩ | ⟨_, hget, _⟩
    · exact hfst ▸ ht
    · exact hP.get hget ht
  set h ht := by
    rcases counted_cases h with ⟨_, hfst⟩ | hset
    · exact hfst ▸ ht
    · exact hP.set hset ht
  clear h ht := by
    rcases counted_cases h with ⟨_, hfst⟩ | hclear
    · exact hfst ▸ ht
    · exact hP.clear hclear ht

def transactional (o : Outage) : o.backend.Transactional where
  table t := t.1.store.table
  rows t := t.1.rows
  Running t := t.1.Running
  begin_table h := by
    rcases begin_cases h with ⟨_, hfst⟩ | ⟨_, _, _, hfst⟩
    · rw [hfst]
    · rw [hfst]
  begin_rows h := by
    rcases begin_cases h with ⟨⟨_, hr⟩, _⟩ | ⟨_, _, _, hfst⟩
    · cases hr
    · rw [hfst]
      rfl
  begin_running h := by
    rcases begin_cases h with ⟨⟨_, hr⟩, _⟩ | ⟨_, _, _, hfst⟩
    · cases hr
    · exact ⟨_, congrArg Connection.transaction hfst, rfl⟩
  keeps_table table := keeps (Connection.transactional.keeps_table table)
  keeps_running := keeps Connection.keeps_running
  get_rows h := by
    rcases get_cases h with ⟨⟨_, hr⟩, _⟩ | ⟨r, hget, _⟩
    · cases hr
    · exact Prod.mk.inj hget |>.2 ▸ Connection.rows_afterGet _ _
  get_value ht h := by
    rcases get_cases h with ⟨⟨_, hr⟩, _⟩ | ⟨r, hget, rfl | ⟨e, hr⟩⟩
    · cases hr
    · exact Connection.transactional.get_value ht hget
    · cases r with
      | error e' => cases hr
      | ok row => cases hr
  set_rows h := by
    rcases counted_cases h with ⟨⟨_, hr⟩, _⟩ | hset
    · cases hr
    · exact Connection.transactional.set_rows hset
  clear_rows h := by
    rcases counted_cases h with ⟨⟨_, hr⟩, _⟩ | hclear
    · cases hr
    · exact Connection.transactional.clear_rows hclear
  commit_rows h := by
    obtain ⟨c, hcommit, rfl⟩ := Attempt.onFirst_eq_iff.mp h
    exact Connection.transactional.commit_rows hcommit
  commit_table h := by
    obtain ⟨c, hcommit, rfl⟩ := Attempt.onFirst_eq_iff.mp h
    exact Connection.transactional.commit_table hcommit
  abandon_table t e := Connection.transactional.abandon_table t.1 e

end Outage

end RecordStore
