import RecordStore.Proofs.BatchRun
import RecordStore.Proofs.Connections
import RecordStore.Proofs.Runs
import RecordStore.Session

/-! # What session steps leave alone

A step changes the client or the transaction of its own name, and what is shared. All that is said
of the other clients and transactions stays true.
-/

namespace RecordStore

namespace Store

theorem table_look (s : Store) : s.look.table = s.table := by
  obtain ⟨links, hlend⟩ := s.lend_snd
  obtain ⟨links', hback⟩ := s.lend.2.takeBack_eq (s.lend.1.look s.hasTable)
  have hlook : s.look = s.lend.2.takeBack (s.lend.1.look s.hasTable) := rfl
  rw [hlook, hback, hlend]

theorem rows_ensureTable (s : Store) : s.ensureTable.2.table.rows = s.table.rows := by
  have hcreated : ∀ table, s.created? = some table → table.rows = s.table.rows := by
    intro table htable
    unfold created? at htable
    split at htable
    · cases htable
      rfl
    · next hmissing =>
      cases htable
      rw [hmissing]
      rfl
    · cases htable
      rfl
    · next hmissing =>
      cases htable
      rw [hmissing]
      rfl
    · next hmissing =>
      cases htable
      rw [hmissing]
      rfl
    · cases htable
  unfold ensureTable
  split
  · rfl
  · split
    · next table htable =>
      rw [table_look]
      exact hcreated table htable
    · rw [table_look]

end Store

theorem Footprint.metrics_declareAll (names : List String) (f : Footprint) :
    (names.foldl declare f).metrics = f.metrics := by
  induction names generalizing f with
  | nil => rfl
  | cons name rest ih => exact ih _

theorem Fields.put_eq_self {α : Type} {fields : Fields α} {name : String} {value : α}
    (h : fields.get? name = some value) : fields.put name value = fields := by
  have hentries : ∀ entries : List (String × α),
      (entries.find? (·.1 = name)).map Prod.snd = some value →
        putEntry name value entries = entries := by
    intro entries hfind
    induction entries with
    | nil => cases hfind
    | cons entry rest ih =>
      rw [List.find?_cons] at hfind
      by_cases hname : entry.1 = name
      · simp only [hname, decide_true, Option.map_some, Option.some.injEq] at hfind
        rw [putEntry, if_pos hname, ← hname, ← hfind]
      · simp only [hname, decide_false] at hfind
        rw [putEntry, if_neg hname, ih hfind]
  exact ext_entries (hentries fields.entries h)

namespace Session

open Attempt

def Step.client? : Step → Option String
  | .newClient name | .call name _ => some name
  | _ => none

def Step.transaction? : Step → Option String
  | .begin name _ | .within name _ => some name
  | _ => none

variable {P : Session → Prop} {st : Step} {name : String}

/-! Each part of a step keeps a condition if the change that it makes does. -/

theorem keeps_callClient {call : Client.Call}
    (h : ∀ s c, P s → s.clients.get? name = some c →
      P { s with
        shared := (c.call call s.shared).2.2
        clients := s.clients.put name (c.call call s.shared).2.1 }) :
    Keeps P (callClient name call) := by
  intro s hs
  unfold callClient
  split
  · exact hs
  · next c hc => exact h s c hs hc

theorem keeps_beginTransaction {readYourWrites : Bool}
    (h : ∀ s t store, P s → Transaction.begin readYourWrites s.shared.store = .ok (t, store) →
      P { s with
        shared := { s.shared with store }
        transactions := s.transactions.put name t }) :
    Keeps P (beginTransaction name readYourWrites) := by
  intro s hs
  unfold beginTransaction
  split
  · exact hs
  · next t store ht => exact h s t store hs ht

theorem keeps_stepTransaction {st : Transaction.Step}
    (h : ∀ s t, P s → s.transactions.get? name = some t →
      let c := (Connection.perform st ⟨s.shared.store, t⟩).2
      P { s with
        shared := { s.shared with store := c.store }
        transactions := s.transactions.put name c.transaction }) :
    Keeps P (stepTransaction name st) := by
  intro s hs
  unfold stepTransaction
  split
  · exact hs
  · next t ht => exact h s t hs ht

theorem keeps_lookUp {key : String} {p : Projection}
    (h : Keeps P (onStore (Store.run (Connection.perform (.get (Key.pack key)))))) :
    Keeps P (perform (.lookUp key p)) := by
  refine h.bind fun reply => ?_
  split
  · split
    · exact keeps_fail _
    · exact keeps_pure _
  · exact keeps_pure _

theorem keeps_observeBatch {status : Value} {size : Int} (h : ∀ f, Keeps P (onFootprint f)) :
    Keeps P (perform (.observeBatch status size)) := by
  refine (keeps_ofExcept _).bind fun _ => (h _).bind fun _ =>
    Keeps.bind (fun s hs => ?_) fun _ => keeps_pure _
  unfold reportSize
  split
  · exact hs
  · exact h _ s hs

theorem keeps_observeScan {status : Value} (h : ∀ f, Keeps P (onFootprint f)) :
    Keeps P (perform (.observeScan status)) :=
  (keeps_ofExcept _).bind fun _ => (h _).bind fun _ => keeps_pure _

theorem keeps_onShared {α : Type} (hshared : ∀ s w, P s → P { s with shared := w })
    (m : Attempt Shared α) : Keeps P (onShared m) := fun s h => hshared s _ h

theorem keeps_onFootprint (hshared : ∀ s w, P s → P { s with shared := w })
    (f : Footprint → Footprint) : Keeps P (onFootprint f) :=
  keeps_change fun s h => hshared s _ h

/-- A condition that does not depend on what is shared is kept by a step, unless it depends on the
client or the transaction of the step. -/
theorem step_keeps (hshared : ∀ s w, P s → P { s with shared := w })
    (hclient : ∀ name ∈ st.client?, ∀ s c, P s → P { s with clients := s.clients.put name c })
    (htransaction : ∀ name ∈ st.transaction?, ∀ s t, P s →
      P { s with transactions := s.transactions.put name t }) : Keeps P (step st) := by
  have hstore : ∀ {α} (m : Attempt Store α), Keeps P (onStore m) := fun m =>
    keeps_onShared hshared _
  suffices hperform : Keeps P (perform st) from fun s h => hperform _ (hshared s _ h)
  cases st with
  | newClient name =>
    exact (keeps_change fun s h => hclient name rfl s _ h).bind fun _ => keeps_pure _
  | call name call =>
    exact (keeps_callClient fun s c h _ => hclient name rfl _ _ (hshared s _ h)).map _
  | begin name readYourWrites =>
    exact (keeps_beginTransaction fun s t store h _ =>
      htransaction name rfl _ t (hshared s _ h)).bind fun _ => keeps_pure _
  | within name st =>
    exact (keeps_stepTransaction fun s t h _ => htransaction name rfl _ _ (hshared s _ h)).map _
  | run steps fault => exact (hstore _).map _
  | lookUp key p => exact keeps_lookUp (hstore _)
  | execute operations => exact keeps_onShared hshared _
  | scan db table start limit p => exact keeps_onShared hshared _
  | slots | dump | metrics => exact fun _ h => h
  | observeBatch status size => exact keeps_observeBatch (keeps_onFootprint hshared)
  | observeScan status => exact keeps_observeScan (keeps_onFootprint hshared)
  | closeStore => exact (keeps_onShared hshared _).bind fun _ => keeps_pure _
  | _ => exact (hstore _).bind fun _ => keeps_pure _

/-- What is shared when a step is carried out: no events, and the slots that it names are known. -/
def met (s : Session) (st : Step) : Shared :=
  { s.shared with
    footprint := st.slotNames.foldl Footprint.declare { s.shared.footprint with events := [] } }

theorem step_eq (st : Step) (s : Session) : step st s = perform st { s with shared := s.met st } :=
  rfl

theorem metrics_met (s : Session) (st : Step) :
    (s.met st).footprint.metrics = s.shared.footprint.metrics :=
  Footprint.metrics_declareAll ..

theorem clients_step_of_ne (h : name ∉ st.client?) (s : Session) :
    (step st s).2.clients.get? name = s.clients.get? name := by
  refine step_keeps (P := fun s' => s'.clients.get? name = s.clients.get? name)
    (fun _ _ h' => h') (fun other hother s' c h' => ?_) (fun _ _ _ _ h' => h') s rfl
  have hne : name ≠ other := fun heq => h (heq ▸ hother)
  rw [Fields.get?_put, if_neg hne]
  exact h'

theorem clients_step (h : st.client? = none) (s : Session) : (step st s).2.clients = s.clients := by
  refine step_keeps (P := fun s' => s'.clients = s.clients) (fun _ _ h' => h')
    (fun other hother => ?_) (fun _ _ _ _ h' => h') s rfl
  rw [h] at hother
  cases hother

theorem transactions_step_of_ne (h : name ∉ st.transaction?) (s : Session) :
    (step st s).2.transactions.get? name = s.transactions.get? name := by
  refine step_keeps (P := fun s' => s'.transactions.get? name = s.transactions.get? name)
    (fun _ _ h' => h') (fun _ _ _ _ h' => h') (fun other hother s' t h' => ?_) s rfl
  have hne : name ≠ other := fun heq => h (heq ▸ hother)
  rw [Fields.get?_put, if_neg hne]
  exact h'

structure Blank (s : Session) : Prop where
  rows (key : Bytes) : s.shared.store.table.rows key = none
  metrics : s.shared.footprint.metrics = .zero
  queues {name : String} {c : Client} : s.clients.get? name = some c → c.queue = .empty
  transactions (name : String) : s.transactions.get? name = none

theorem blank_of_withTable {props : Properties} {s : Session} (h : withTable props = .ok s) :
    s.Blank ∧ s.clients = .empty := by
  simp only [withTable, bind, Except.bind] at h
  split at h
  · cases h
  · split at h
    · cases h
    · next client _ store _ =>
      have hrows := (Store.new store.tableName true).rows_ensureTable
      split at h
      · cases h
      · next s' hensure =>
        rw [hensure] at hrows
        cases h
        exact ⟨⟨fun key => congrFun hrows key, rfl, nofun, fun _ => rfl⟩, rfl⟩

theorem blank_of_withoutTable {props : Properties} {reachable : Bool} {s : Session}
    (h : withoutTable props reachable = .ok s) : s.Blank := by
  simp only [withoutTable, bind, Except.bind] at h
  split at h
  · cases h
  · split at h
    · cases h
    · cases h
      exact ⟨fun _ => rfl, rfl, nofun, fun _ => rfl⟩

theorem blank_of_start {mode : Mode} {props : Properties} {s : Session}
    (h : start mode props = .ok s) : s.Blank := by
  cases mode with
  | shared => exact (blank_of_withTable h).1
  | owned =>
    simp only [start, bind, Except.bind] at h
    split at h
    · cases h
    · next s' hs' =>
      obtain ⟨hblank, hclients⟩ := blank_of_withTable hs'
      cases h
      refine ⟨hblank.rows, hblank.metrics, fun {name c} hc => ?_, hblank.transactions⟩
      rw [hclients, Fields.get?_put] at hc
      split at hc
      · cases hc
        rfl
      · cases hc
  | bare | unreachable => exact blank_of_withoutTable h

end Session

end RecordStore
