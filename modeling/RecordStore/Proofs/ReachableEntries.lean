import RecordStore.Proofs.AcceptedOperations
import RecordStore.Proofs.BatchMeaning
import RecordStore.Proofs.StoredEntries
import RecordStore.Proofs.UnbatchedSessions

/-! # Entries of reachable sessions

However a session gets on from an empty table, no stored key is too long. If every write is that of
a record of texts, then every entry is a packed key with the packed form of such a record.
-/

namespace RecordStore

variable {P : Bytes → Bytes → Prop}

/-- A packed key with the packed form of a record. -/
def Record.IsEntry (key data : Bytes) : Prop :=
  ∃ name r, key = Key.pack name ∧ data = Record.encode r

def Transaction.Step.Encoded : Step → Prop
  | .set key value => Record.IsEntry key value
  | _ => True

theorem Transaction.Step.Encoded.admits {st : Step} (h : st.Encoded) :
    st.Admits Record.IsEntry := by
  cases st with
  | set key value => exact fun _ => h
  | _ => trivial

theorem Operation.Textual.admits {op : Operation} (h : op.Textual) : op.Admits Record.IsEntry := by
  unfold Admits
  split
  · next values haction =>
    intro data hencode _
    obtain ⟨r, rfl⟩ := h.insert haction
    rw [Record.encode_map_text] at hencode
    cases hencode
    exact ⟨op.key, r, rfl, rfl⟩
  · next values haction =>
    intro old data _ hmerge
    obtain ⟨new, rfl⟩ := h.update haction
    obtain ⟨_, r, -, -, -, rfl⟩ := Batch.merge_text_iff.mp hmerge
    exact ⟨op.key, r.overlay new, rfl, rfl⟩
  · trivial

theorem Store.holds_dropTable {s : Store} (h : s.table.Holds P) : s.dropTable.table.Holds P := by
  unfold dropTable
  split
  · intro key data hrow
    cases hrow
  · exact h

theorem Store.holds_ensureTable {s : Store} (h : s.table.Holds P) :
    s.ensureTable.2.table.Holds P := by
  unfold Table.Holds
  rw [s.rows_ensureTable]
  exact h

namespace Client

variable {c : Client} {call : Call} {w : Shared}

/-- What a client has queued, and the operation that a call brings, are what it can write. -/
theorem call_holds (hqueue : ∀ op ∈ c.queue.operations, op.Admits P)
    (hcall : ∀ op, call.operation? c.settings.dbText = some op → op.Admits P)
    (h : w.store.table.Holds P) : (c.call call w).2.2.store.table.Holds P ∧
      ∀ op ∈ (c.call call w).2.1.queue.operations, op.Admits P := by
  have hqueued : ∀ op ∈ (c.queuedWith call).operations, op.Admits P := fun op hop =>
    (mem_queuedWith.mp hop).elim (hqueue op) (hcall op)
  have heffects := c.effects_call call w
  constructor
  · split at heffects
    · have htable : (c.call call w).2.2.store.table = (c.carryOut call w).2.store.table :=
        congrArg (·.1.1) heffects
      have hannounce : (c.announce call w).store.table.Holds P := by
        unfold announce
        cases call.operation? c.settings.dbText <;> exact h
      rw [htable]
      exact Shared.execute_holds hannounce hqueued
    · have htable : (c.call call w).2.2.store.table = w.store.table := congrArg (·.1.1) heffects
      rw [htable]
      exact h
  · obtain ⟨queue, closed, hclient, hkept⟩ := c.call_client call w
    rw [hclient]
    exact fun op hop => hqueued op (hkept op hop)

end Client

namespace Session

open Attempt

/-- The condition holds of all that is stored or can be stored without another write. -/
structure Holds (P : Bytes → Bytes → Prop) (s : Session) : Prop where
  table : s.shared.store.table.Holds P
  transactions {name : String} {t : Transaction} : s.transactions.get? name = some t → t.Holds P
  queues {name : String} {c : Client} : s.clients.get? name = some c →
    ∀ op ∈ c.queue.operations, op.Admits P

def Step.Admits (P : Bytes → Bytes → Prop) : Step → Prop
  | .call _ c => ∀ db op, c.operation? db = some op → op.Admits P
  | .within _ st => st.Admits P
  | .run steps _ => ∀ st ∈ steps, st.Admits P
  | .put key values => ∀ data, values.encode = .ok data →
      (Key.pack key).length ≤ maxKeyBytes → P (Key.pack key) data
  | .putRaw key data => (Key.pack key).length ≤ maxKeyBytes → P (Key.pack key) data
  | .execute ops => ∀ op ∈ ops, op.Admits P
  | _ => True

def Step.Encoded : Step → Prop
  | .call _ c => ∀ db op, c.operation? db = some op → op.Textual
  | .within _ st => st.Encoded
  | .run steps _ => ∀ st ∈ steps, st.Encoded
  | .put _ values => ∃ r : Record, values = r.map Value.text
  | .putRaw _ data => ∃ r : Record, data = r.encode
  | .execute ops => ∀ op ∈ ops, op.Textual
  | _ => True

variable {s : Session} {st : Step}

theorem holds_of_blank (h : s.Blank) : s.Holds P where
  table key data hrow := by
    rw [h.rows] at hrow
    cases hrow
  transactions ht := by
    rw [h.transactions] at ht
    cases ht
  queues hc := by
    rw [h.queues hc]
    nofun

theorem keeps_onStore {α : Type} {m : Attempt Store α}
    (hm : m.Keeps fun store => store.table.Holds P) : (onStore m).Keeps (Holds P) :=
  fun _ h => ⟨hm _ h.table, h.transactions, h.queues⟩

theorem keeps_storeRun {α : Type} {m : Attempt Connection α}
    (hm : m.Keeps (Connection.Holds P)) : (onStore (Store.run m)).Keeps (Holds P) :=
  keeps_onStore fun _ h => Store.holds_run h fun hopened => hm _ hopened

theorem keeps_scripted {steps : List Transaction.Step} (h : ∀ st ∈ steps, st.Admits P)
    (fault : Option Fault) : (scripted steps fault).Keeps (Connection.Holds P) := by
  refine (Connection.keeps_performAll h).bind fun replies => ?_
  cases fault with
  | none => exact keeps_pure _
  | some e => exact keeps_fail e

theorem Holds.put_client (h : s.Holds P) {c : Client} (hc : ∀ op ∈ c.queue.operations, op.Admits P)
    (name : String) : Holds P { s with clients := s.clients.put name c } := by
  refine ⟨h.table, h.transactions, fun {other c'} hc' => ?_⟩
  rw [Fields.get?_put] at hc'
  split at hc'
  · cases hc'
    exact hc
  · exact h.queues hc'

theorem Holds.put_transaction (h : s.Holds P) {t : Transaction} (ht : t.Holds P) (name : String) :
    Holds P { s with transactions := s.transactions.put name t } := by
  refine ⟨h.table, fun {other t'} ht' => ?_, h.queues⟩
  rw [Fields.get?_put] at ht'
  split at ht'
  · cases ht'
    exact ht
  · exact h.transactions ht'

theorem Holds.change_shared (h : s.Holds P) {w : Shared} (hw : w.store.table.Holds P) :
    Holds P { s with shared := w } := ⟨hw, h.transactions, h.queues⟩

theorem keeps_perform (hst : st.Admits P) : (perform st).Keeps (Holds P) := by
  cases st with
  | newClient name =>
    intro s h
    have hnew : ∀ op ∈ (Client.new s.settings false).queue.operations, op.Admits P := nofun
    exact h.put_client hnew name
  | call name call =>
    refine (keeps_callClient fun s c h hc => ?_).map _
    obtain ⟨htable, hqueue⟩ := Client.call_holds (h.queues hc) (hst c.settings.dbText) h.table
    exact (h.change_shared htable).put_client hqueue name
  | begin name readYourWrites =>
    refine (keeps_beginTransaction fun s t store h ht => ?_).bind fun _ => keeps_pure _
    have hbegin := Connection.keeps_begin (P := P) readYourWrites
      ⟨s.shared.store, .finished⟩ (Connection.holds_finished h.table)
    simp only [Connection.backend, ht] at hbegin
    exact (h.change_shared hbegin.table).put_transaction hbegin.transaction name
  | within name st =>
    refine (keeps_stepTransaction fun s t h ht => ?_).map _
    have hperform := Connection.keeps_perform hst ⟨s.shared.store, t⟩ ⟨h.table, h.transactions ht⟩
    exact (h.change_shared hperform.table).put_transaction hperform.transaction name
  | run steps fault => exact (keeps_storeRun (keeps_scripted hst fault)).map _
  | put key values =>
    refine (keeps_storeRun ?_).bind fun _ => keeps_pure _
    split
    · exact keeps_fail _
    · next data hencode => exact Connection.keeps_set (hst data hencode)
  | putRaw key data =>
    exact (keeps_storeRun (Connection.keeps_set hst)).bind fun _ => keeps_pure _
  | lookUp key p =>
    have hget : (Transaction.Step.get (Key.pack key)).Admits P := trivial
    exact keeps_lookUp (keeps_storeRun (Connection.keeps_perform hget))
  | execute ops => exact fun s h => h.change_shared (Shared.execute_holds h.table hst)
  | scan db table start limit p =>
    intro s h
    have htable : (s.shared.scan db table start limit p).2.store.table = s.shared.store.table :=
      congrArg (·.1.1) (s.shared.effects_scan db table start limit p)
    have hscan : (s.shared.scan db table start limit p).2.store.table.Holds P := by
      rw [htable]
      exact h.table
    exact h.change_shared hscan
  | slots | dump | metrics => exact fun _ h => h
  | observeBatch status size => exact keeps_observeBatch fun _ s h => h.change_shared h.table
  | observeScan status => exact keeps_observeScan fun _ s h => h.change_shared h.table
  | ensureTable =>
    exact (keeps_onStore fun _ => Store.holds_ensureTable).bind fun _ => keeps_pure _
  | dropTable =>
    exact (keeps_onStore (m := change Store.dropTable) fun _ => Store.holds_dropTable).bind fun _ =>
      keeps_pure _
  | closeStore =>
    refine Keeps.bind (fun s h => ?_) fun _ => keeps_pure _
    have htable : s.shared.close.2.store.table = s.shared.store.table :=
      congrArg (·.1.1) s.shared.effects_close
    have hclose : s.shared.close.2.store.table.Holds P := by
      rw [htable]
      exact h.table
    exact h.change_shared hclose
  | breakClose fault => exact (keeps_onStore fun _ h => h).bind fun _ => keeps_pure _

theorem keeps_step (hst : st.Admits P) : Keeps (Holds P) (step st) :=
  fun _ h => keeps_perform hst _ (h.change_shared h.table)

/-- Sessions that nothing was done in, and those that come of them by steps that are allowed. A body
that is run in a transaction of its own may take the steps allowed in a transaction. -/
inductive Reachable (allowed : Step → Prop) (allowedWithin : Transaction.Step → Prop) :
    Session → Prop where
  | blank {s : Session} : s.Blank → Reachable allowed allowedWithin s
  | step {s : Session} {st : Step} : Reachable allowed allowedWithin s → allowed st →
      Reachable allowed allowedWithin (step st s).2
  | run {s : Session} {α : Type} {body : Body α} : Reachable allowed allowedWithin s →
      (∀ x ∈ body.history s.shared.store.opened, allowedWithin x.1) →
      Reachable allowed allowedWithin (onStore (Store.run body.perform) s).2

variable {allowed : Step → Prop} {allowedWithin : Transaction.Step → Prop}

theorem Reachable.final (h : s.Reachable allowed allowedWithin) {steps : List Step}
    (hsteps : ∀ st ∈ steps, allowed st) :
    (final Session.step s steps).Reachable allowed allowedWithin := by
  induction steps generalizing s with
  | nil => exact h
  | cons st rest ih =>
    rw [List.forall_mem_cons] at hsteps
    exact ih (h.step hsteps.1) hsteps.2

/-- What holds of all that may be written holds of all that is stored. -/
theorem Reachable.holds (h : s.Reachable allowed allowedWithin)
    (hallowed : ∀ st, allowed st → st.Admits P)
    (hwithin : ∀ st, allowedWithin st → st.Admits P) : s.Holds P := by
  induction h with
  | blank hblank => exact holds_of_blank hblank
  | step _ hst ih => exact keeps_step (hallowed _ hst) _ ih
  | run _ hbody ih =>
    refine ⟨?_, ih.transactions, ih.queues⟩
    exact Store.holds_run ih.table fun hopened =>
      Body.holds_perform hopened fun x hx => hwithin _ (hbody x hx)

theorem Step.admits_short (st : Step) : st.Admits Short := by
  cases st with
  | call name c => exact fun _ op _ => op.admits_short
  | within name st => exact st.admits_short
  | run steps fault => exact fun st _ => st.admits_short
  | put key values => exact fun _ _ => id
  | putRaw key data => exact id
  | execute ops => exact fun op _ => op.admits_short
  | _ => trivial

theorem Step.Encoded.admits (h : st.Encoded) : st.Admits Record.IsEntry := by
  cases st with
  | call name c => exact fun db op hop => (h db op hop).admits
  | within name st => exact h.admits
  | run steps fault => exact fun st hst => (h st hst).admits
  | put key values =>
    intro data hencode _
    obtain ⟨r, rfl⟩ := h
    rw [Record.encode_map_text] at hencode
    cases hencode
    exact ⟨key, r, rfl, rfl⟩
  | putRaw key data =>
    intro _
    obtain ⟨r, rfl⟩ := h
    exact ⟨key, r, rfl, rfl⟩
  | execute ops => exact fun op hop => (h op hop).admits
  | _ => trivial

/-- Whatever was done in a session, no stored key is too long, and no update that finds a record
fails because of its key. If only records of texts were written, then the entries are such records
under packed keys, and each of them can be decoded. -/
theorem reachable_isWellFormed (h : s.Reachable allowed allowedWithin) :
    (∀ key data, s.shared.store.table.rows key = some data → key.length ≤ 255) ∧
      (∀ ops f p u data, Batch.Reaches Connection.backend ops (⟨s.shared.store, .finished⟩, f) p u →
        p.outcome = .ok (.merged data) →
          (Connection.backend.set (Key.pack p.key) data u.1).1 = .ok ()) ∧
      ((∀ st, allowed st → st.Encoded) → (∀ st, allowedWithin st → st.Encoded) →
        ∀ key data, s.shared.store.table.rows key = some data →
          ∃ name r, key = Key.pack name ∧ data = Record.encode r ∧ Record.decode data = .ok r) := by
  have hshort : s.shared.store.table.Holds Short :=
    (h.holds (fun st _ => st.admits_short) fun st _ => st.admits_short).table
  refine ⟨fun key data hrow => hshort hrow, fun ops f p u data hreaches houtcome =>
    Batch.set_of_reaches hshort hreaches houtcome, fun hallowed hwithin key data hrow => ?_⟩
  have hentries : s.Holds Record.IsEntry :=
    h.holds (fun st hst => (hallowed st hst).admits) fun st hst => (hwithin st hst).admits
  obtain ⟨name, r, rfl, rfl⟩ := hentries.table hrow
  exact ⟨name, r, rfl, rfl, Record.decode_of_encode r⟩

theorem reachable_isWellFormed_of_long_keys :
    let r : Record := .ofList [("f", "1")]
    let r' : Record := .ofList [("g", "2")]
    let long := "".pushn 'k' 255
    let s₀ : Session := ⟨⟨{ Store.new "kv" true with table := .holding .empty }, .empty⟩,
      ⟨.text "db", 2⟩, .ofList [("x", .new ⟨.text "db", 2⟩ false)], .empty⟩
    let steps : List Step := [.call "x" (.insert "t" "a" (r.map .text)), .begin "a" true,
      .within "a" (.set (Key.pack "b") r.encode), .call "x" (.update "t" "a" (r'.map .text)),
      .within "a" (.clear (Key.pack long)), .within "a" (.set (Key.pack long) r.encode),
      .put long (r.map .text), .within "a" .commit, .within "a" (.set (Key.pack "c") r.encode),
      .execute [⟨"t", "db:t:a", .delete⟩, ⟨"t", long, .insert (r.map .text)⟩]]
    let last := final Session.step s₀ steps
    last.Reachable Step.Encoded Transaction.Step.Encoded ∧
      (∀ key data, last.shared.store.table.rows key = some data → key.length ≤ 255 ∧
        ∃ name r, key = Key.pack name ∧ data = Record.encode r ∧ Record.decode data = .ok r) ∧
      (∃ p u data, Batch.Reaches Connection.backend [⟨"t", "b", .update (r'.map .text)⟩]
        (⟨last.shared.store, .finished⟩, .empty) p u ∧ p.outcome = .ok (.merged data) ∧
          (Connection.backend.set (Key.pack p.key) data u.1).1 = .ok ()) ∧
      last.shared.store.table.entries?.map KeyMap.entries = some
        [(Key.pack "b", r.encode), (Key.pack "db:t:a", Record.encode (r.overlay r'))] := by
  intro r r' long s₀ steps last
  have h₀ : s₀.Blank := by
    refine ⟨fun _ => rfl, rfl, fun {name c} hc => ?_, fun _ => rfl⟩
    have hmem : (name, c) ∈ [("x", Client.new ⟨.text "db", 2⟩ false)] :=
      Fields.get?_eq_some_iff.mp hc
    rw [(Prod.mk.inj (List.mem_singleton.mp hmem)).2]
    rfl
  have hsteps : ∀ st ∈ steps, st.Encoded := by
    simp only [steps, List.forall_mem_cons, List.not_mem_nil, false_imp_iff, implies_true, and_true]
    refine ⟨?_, trivial, ⟨_, _, rfl, rfl⟩, ?_, trivial, ⟨_, _, rfl, rfl⟩, ⟨r, rfl⟩, trivial,
      ⟨_, _, rfl, rfl⟩, ?_⟩
    · rintro db op ⟨⟩
      exact ⟨r, rfl⟩
    · rintro db op ⟨⟩
      exact ⟨r', rfl⟩
    · simp only [Step.Encoded, List.forall_mem_cons, List.not_mem_nil, false_imp_iff, implies_true,
        and_true]
      exact ⟨⟨.empty, rfl⟩, r, rfl⟩
  have hreachable : last.Reachable Step.Encoded Transaction.Step.Encoded :=
    Reachable.final (.blank h₀) hsteps
  have hrow : last.shared.store.table.rows (Key.pack "b") = some r.encode := by decide +kernel
  have hready : last.shared.store.Ready := by
    refine ⟨by decide +kernel, by decide +kernel, ?_⟩
    cases htable : last.shared.store.table with
    | holding D => exact ⟨D, rfl⟩
    | _ =>
      rw [htable] at hrow
      cases hrow
  let p : Batch.Pending := ⟨"b", .update (r'.map .text), .ok (some r.encode)⟩
  have hask : Batch.ask last.shared.store.table.rows [⟨"t", "b", .update (r'.map .text)⟩] = [p] :=
    congrArg (fun row => [Batch.Pending.mk "b" (.update (r'.map .text)) (.ok row)]) hrow
  have houtcome : p.outcome = .ok (.merged (Record.encode (r.overlay r'))) :=
    Batch.settle_update_eq_merged_iff.mpr (Batch.merge_text_iff.mpr
      ⟨_, r, rfl, Record.decode_of_encode r, rfl, rfl⟩)
  obtain ⟨hshort, hmerges, hentries⟩ := reachable_isWellFormed hreachable
  obtain ⟨u, hu⟩ := Batch.reaches_of_ready hready (by simp [Batch.Sendable]) hask .empty
  exact ⟨hreachable, fun key data hrow => ⟨hshort key data hrow,
    hentries (fun _ => id) (fun _ => id) key data hrow⟩,
    ⟨p, u, _, hu, houtcome, hmerges _ _ _ _ _ hu houtcome⟩, by decide +kernel⟩

end Session

end RecordStore
