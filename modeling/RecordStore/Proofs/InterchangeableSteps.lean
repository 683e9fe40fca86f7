import RecordStore.Proofs.EquivalentClients
import RecordStore.Session

/-! # Interchangeable operations

Operations that are equal and name the same slot can stand for each other in a session. Everything
is answered alike, and the same is counted; the slots hold records that agree, and the table has the
same keys with equivalent values.
-/

namespace RecordStore

open Attempt (Alike Matches alike_refl matches_change matches_fail matches_ofExcept matches_pure)

theorem Table.Equivalent.refl (t : Table) : t.Equivalent t := by
  cases t with
  | missing => exact .missing
  | barred => exact .barred
  | holding entries => exact .holding (.refl Record.Equivalent.refl _)

theorem Store.Equivalent.refl (s : Store) : s.Equivalent s := .mk (.refl s.table)

theorem Transaction.Equivalent.refl (t : Transaction) : t.Equivalent t := by
  cases t with
  | active b => exact .active (.refl (optionRel_refl Record.Equivalent.refl) _)
  | finished => exact .finished

theorem Client.Equivalent.refl (c : Client) : c.Equivalent c :=
  .mk (List.forall₂_same.mpr fun op _ => .refl op)

theorem Footprint.Equivalent.refl (f : Footprint) : f.Equivalent f :=
  ⟨.refl Fields.Agree.refl _, rfl⟩

theorem Footprint.Equivalent.declareAll {f f' : Footprint} (h : f.Equivalent f')
    (names : List String) :
    (names.foldl Footprint.declare f).Equivalent
      (names.foldl Footprint.declare f') := by
  induction names generalizing f f' with
  | nil => exact h
  | cons name rest ih => exact ih (h.declare name)

structure Session.Equivalent (s t : Session) : Prop where
  shared : s.shared.Equivalent t.shared
  settings : s.settings = t.settings
  clients : Keyed Client.Equivalent s.clients.entries t.clients.entries
  transactions : Keyed Transaction.Equivalent s.transactions.entries t.transactions.entries

namespace Session

/-- The steps bring operations that are interchangeable one by one, or are the same. -/
inductive Step.Interchangeable : Step → Step → Prop where
  | refl (st : Step) : Interchangeable st st
  | call (name : String) {call call' : Client.Call} : call.Interchangeable call' →
      Interchangeable (.call name call) (.call name call')
  | execute {ops ops' : List Operation} : List.Forall₂ Operation.Interchangeable ops ops' →
      Interchangeable (.execute ops) (.execute ops')

inductive Answer.Equivalent : Answer → Answer → Prop where
  | done : Equivalent .done .done
  | client {r r' : Client.Reply} : r.Equivalent r' → Equivalent (.client r) (.client r')
  | transaction {r r' : Transaction.Reply} : r.Equivalent r' →
      Equivalent (.transaction r) (.transaction r')
  | replies {l l' : List Transaction.Reply} : List.Forall₂ Transaction.Reply.Equivalent l l' →
      Equivalent (.replies l) (.replies l')
  | row {x y : Option (Option Record)} : Option.Rel (Option.Rel Fields.Agree) x y →
      Equivalent (.row x) (.row y)
  | slots {a b : Fields Record} : Keyed Fields.Agree a.entries b.entries →
      Equivalent (.slots a) (.slots b)
  | dump {x y : Option (KeyMap Bytes)} :
      Option.Rel (fun m m' => Keyed Record.Equivalent m.entries m'.entries) x y →
      Equivalent (.dump x) (.dump y)
  | metrics {m m' : Metrics} : m = m' → Equivalent (.metrics m) (.metrics m')

variable {s t : Session} {st st' : Step} {name : String}

theorem Equivalent.refl (s : Session) : s.Equivalent s :=
  ⟨⟨.refl _, .refl _⟩, rfl, .refl Client.Equivalent.refl _, .refl Transaction.Equivalent.refl _⟩

theorem Equivalent.pending_eq (h : s.Equivalent t) (name : String) :
    s.pending name = t.pending name := by
  have hclient := Fields.keyed_get? h.clients name
  unfold pending
  generalize s.clients.get? name = x at hclient
  generalize t.clients.get? name = y at hclient
  cases hclient with
  | none => rfl
  | some hc => exact hc.operations.length_eq

theorem slotNames_call {call : Client.Call} {db : String} {op : Operation}
    (h : call.operation? db = some op) : (Step.call name call).slotNames = op.slot?.toList := by
  cases call <;> cases h <;> rfl

theorem slotNames_eq (h : st.Interchangeable st') : st.slotNames = st'.slotNames := by
  cases h with
  | refl => rfl
  | call name hcall =>
    rcases hcall with rfl | hcall
    · rfl
    · obtain ⟨op, op', h, h', hop⟩ := hcall ""
      rw [slotNames_call h, slotNames_call h', hop.slot_eq]
  | execute hops => exact Operation.slots_eq hops

theorem Equivalent.met (h : s.Equivalent t) (hst : st.Interchangeable st') :
    (s.met st).Equivalent (t.met st') := by
  have hslots : Footprint.Equivalent { s.shared.footprint with events := [] }
      { t.shared.footprint with events := [] } :=
    ⟨h.shared.footprint.slots, h.shared.footprint.metrics⟩
  unfold Session.met
  rw [slotNames_eq hst]
  exact ⟨h.shared.store, hslots.declareAll _⟩

/-! Each part of a step goes along with itself on equivalent sessions. -/

section Parts

variable {α β : Type} {A : α → β → Prop}

theorem onShared_matches {m : Attempt Shared α} {m' : Attempt Shared β}
    (hm : Matches Shared.Equivalent Fault.Equivalent A m m') :
    Matches Session.Equivalent Fault.Equivalent A (onShared m) (onShared m') :=
  fun _ _ h => ⟨(hm _ _ h.shared).1, (hm _ _ h.shared).2, h.settings, h.clients, h.transactions⟩

theorem onStore_matches {m : Attempt Store α} {m' : Attempt Store β}
    (hm : Matches Store.Equivalent Fault.Equivalent A m m') :
    Matches Session.Equivalent Fault.Equivalent A (onStore m) (onStore m') :=
  onShared_matches (Shared.withStore_matches hm)

theorem onFootprint_matches {g : Footprint → Footprint}
    (hg : ∀ f f', f.Equivalent f' → (g f).Equivalent (g f')) :
    Matches Session.Equivalent Fault.Equivalent Eq (onFootprint g) (onFootprint g) :=
  matches_change fun _ _ h =>
    ⟨⟨h.shared.store, hg _ _ h.shared.footprint⟩, h.settings, h.clients, h.transactions⟩

theorem callClient_matches {call call' : Client.Call} (hcall : call.Interchangeable call') :
    Matches Session.Equivalent Fault.Equivalent Client.Reply.Equivalent (callClient name call)
      (callClient name call') := by
  intro s t h
  have hclient := Fields.keyed_get? h.clients name
  unfold callClient
  cases hs : s.clients.get? name <;> cases ht : t.clients.get? name <;> rw [hs, ht] at hclient <;>
    cases hclient
  · exact ⟨.error (.refl _), h⟩
  · next c d hc =>
    have hserved := Client.call_served hc h.shared hcall
    exact ⟨hserved.reply, hserved.shared, h.settings,
      Fields.keyed_put h.clients name hserved.client, h.transactions⟩

theorem beginTransaction_matches (readYourWrites : Bool) :
    Matches Session.Equivalent Fault.Equivalent Eq (beginTransaction name readYourWrites)
      (beginTransaction name readYourWrites) := by
  intro s t h
  have hbegin := Transaction.begin_equivalent h.shared.store readYourWrites
  unfold beginTransaction
  cases hs : Transaction.begin readYourWrites s.shared.store <;>
    cases ht : Transaction.begin readYourWrites t.shared.store <;> rw [hs, ht] at hbegin <;>
    cases hbegin
  · next he => exact ⟨.error he, h⟩
  · next hx =>
    exact ⟨.ok rfl, ⟨hx.2, h.shared.footprint⟩, h.settings, h.clients,
      Fields.keyed_put h.transactions name hx.1⟩

theorem stepTransaction_matches (st : Transaction.Step) :
    Matches Session.Equivalent Fault.Equivalent Transaction.Reply.Equivalent
      (stepTransaction name st) (stepTransaction name st) := by
  intro s t h
  have htransaction := Fields.keyed_get? h.transactions name
  unfold stepTransaction
  cases hs : s.transactions.get? name <;> cases ht : t.transactions.get? name <;>
    rw [hs, ht] at htransaction <;> cases htransaction
  · exact ⟨.error (.refl _), h⟩
  · next x y hxy =>
    obtain ⟨hreply, hafter⟩ := Connection.perform_matches st ⟨s.shared.store, x⟩
      ⟨t.shared.store, y⟩ ⟨h.shared.store, hxy⟩
    exact ⟨hreply, ⟨hafter.store, h.shared.footprint⟩, h.settings, h.clients,
      Fields.keyed_put h.transactions name hafter.transaction⟩

theorem reportSize_matches (size : Int) :
    Matches Session.Equivalent Fault.Equivalent Eq (reportSize size) (reportSize size) := by
  intro s t h
  unfold reportSize
  rw [h.shared.footprint.metrics]
  split
  · exact ⟨.error (.refl _), h⟩
  · next metrics _ =>
    exact onFootprint_matches (g := fun f => { f with metrics })
      (fun _ _ hf => ⟨hf.slots, rfl⟩) s t h

theorem scripted_matches (steps : List Transaction.Step) (fault : Option Fault) :
    Matches Connection.Equivalent Fault.Equivalent (List.Forall₂ Transaction.Reply.Equivalent)
      (scripted steps fault) (scripted steps fault) := by
  refine (Connection.performAll_matches steps).bind fun l l' hl => ?_
  cases fault with
  | none => exact matches_pure hl
  | some e => exact matches_fail (.refl e)

theorem lookUp_matches (key : String) (p : Projection) :
    Matches Session.Equivalent Fault.Equivalent Answer.Equivalent (perform (.lookUp key p))
      (perform (.lookUp key p)) := by
  refine (onStore_matches (Store.run_matches (Connection.perform_matches _))).bind
    fun r r' hr => ?_
  cases hr with
  | done | entries => exact matches_pure (.row .none)
  | value hvalue =>
    cases hvalue with
    | none => exact matches_pure (.row .none)
    | some hdata =>
      dsimp only
      rcases Record.read_equivalent p hdata with ⟨e, e', hs, ht⟩ | ⟨x, y, hs, ht, hxy⟩
      · rw [hs, ht]
        exact matches_fail (.decode e e')
      · rw [hs, ht]
        exact matches_pure (.row (.some hxy))

end Parts

theorem execute_matches {ops ops' : List Operation}
    (hops : List.Forall₂ Operation.Interchangeable ops ops') :
    Matches Session.Equivalent Fault.Equivalent Answer.Equivalent (perform (.execute ops))
      (perform (.execute ops')) := by
  refine onShared_matches fun w v h => ?_
  obtain ⟨hstatus, hafter⟩ := Shared.execute_equivalent h hops
  dsimp only
  rw [hstatus]
  exact ⟨.ok (.client (.status _)), hafter⟩

theorem perform_matches (st : Step) :
    Matches Session.Equivalent Fault.Equivalent Answer.Equivalent (perform st) (perform st) := by
  have hdone : ∀ {m : Attempt Session Unit},
      Matches Session.Equivalent Fault.Equivalent Eq m m →
      Matches Session.Equivalent Fault.Equivalent Answer.Equivalent
        (m >>= fun _ => pure Answer.done) (m >>= fun _ => pure Answer.done) :=
    fun hm => hm.answer fun _ _ _ => .done
  have hset : ∀ key {data : Bytes}, Matches Connection.Equivalent Fault.Equivalent Eq
      (Connection.buffer (·.set key data)) (Connection.buffer (·.set key data)) :=
    fun key _ => Connection.set_matches key (.refl _)
  cases st with
  | newClient name =>
    exact hdone (matches_change fun s t h => ⟨h.shared, h.settings,
      Fields.keyed_put h.clients name (h.settings ▸ .refl _), h.transactions⟩)
  | call name call => exact (callClient_matches (.inl rfl)).map fun _ _ => .client
  | begin name readYourWrites => exact hdone (beginTransaction_matches readYourWrites)
  | within name st => exact (stepTransaction_matches st).map fun _ _ => .transaction
  | run steps fault =>
    exact (onStore_matches (Store.run_matches (scripted_matches steps fault))).map
      fun _ _ => .replies
  | put key values =>
    refine hdone (onStore_matches (Store.run_matches ?_))
    cases values.encode with
    | error v => exact matches_fail (.refl _)
    | ok data => exact hset _
  | putRaw key data => exact hdone (onStore_matches (Store.run_matches (hset _)))
  | lookUp key p => exact lookUp_matches key p
  | execute ops => exact execute_matches (List.forall₂_same.mpr fun op _ => .refl op)
  | scan db table start limit p =>
    refine onShared_matches fun w v h => ?_
    obtain ⟨hstatus, hrecords, hafter⟩ := Shared.scan_equivalent h db table start limit p
    dsimp only
    rw [hstatus]
    exact ⟨.ok (.client (.scanned _ hrecords)), hafter⟩
  | slots => exact fun s t h => ⟨.ok (.slots h.shared.footprint.slots), h⟩
  | dump => exact fun s t h => ⟨.ok (.dump (Store.named_equivalent h.shared.store)), h⟩
  | metrics => exact fun s t h => ⟨.ok (.metrics h.shared.footprint.metrics), h⟩
  | observeBatch status size =>
    refine (matches_ofExcept (alike_refl Fault.Equivalent.refl _)).bind fun status _ hstatus => ?_
    subst hstatus
    refine Matches.bind (onFootprint_matches fun f f' hf => ?_)
      fun _ _ _ => hdone (reportSize_matches size)
    exact ⟨hf.slots, congrArg (·.countBatch status) hf.metrics⟩
  | observeScan status =>
    refine (matches_ofExcept (alike_refl Fault.Equivalent.refl _)).bind fun status _ hstatus => ?_
    subst hstatus
    exact hdone (onFootprint_matches fun f f' hf => hf.observeScan status)
  | ensureTable => exact hdone (onStore_matches Store.ensureTable_matches)
  | dropTable =>
    exact hdone (onStore_matches (matches_change fun _ _ h => Store.dropTable_equivalent h))
  | closeStore =>
    exact hdone (onShared_matches (Shared.close_matches.imp_fault fun e _ he => he ▸ .refl e))
  | breakClose fault =>
    refine hdone (onStore_matches (matches_change fun s t h => ?_))
    obtain ⟨htable⟩ := h
    exact .mk htable

theorem step_equivalent (hst : st.Interchangeable st') (h : s.Equivalent t) :
    Alike Fault.Equivalent Answer.Equivalent (step st s).1 (step st' t).1 ∧
      (step st s).2.Equivalent (step st' t).2 := by
  have hmet : Session.Equivalent { s with shared := s.met st } { t with shared := t.met st' } :=
    ⟨h.met hst, h.settings, h.clients, h.transactions⟩
  rw [step_eq, step_eq]
  cases hst with
  | refl => exact perform_matches st _ _ hmet
  | call name hcall => exact (callClient_matches hcall).map (fun _ _ => .client) _ _ hmet
  | execute hops => exact execute_matches hops _ _ hmet

/-- In every session, operations can be replaced by others that are equal to them and name the same
slot: by insertions and updates of the same text fields in another order, and by reads of the same
names listed in another way. -/
theorem trace_interchangeable :
    (∀ (s : Session) {steps steps' : List Step}, List.Forall₂ Step.Interchangeable steps steps' →
      List.Forall₂ (fun x y => Alike Fault.Equivalent Answer.Equivalent x.1 y.1 ∧
          (∀ name, x.2.pending name = y.2.pending name) ∧
          x.2.shared.footprint.metrics = y.2.shared.footprint.metrics ∧
          Keyed Fields.Agree x.2.shared.footprint.slots.entries
            y.2.shared.footprint.slots.entries ∧
          x.2.shared.store.table.Equivalent y.2.shared.store.table)
        (trace step s steps) (trace step s steps')) ∧
    ∀ table key, (∀ r r' : Record,
      (Operation.Interchangeable ⟨table, key, .insert (r.map .text)⟩
        ⟨table, key, .insert (r'.map .text)⟩ ↔ r.Agree r') ∧
      (Operation.Interchangeable ⟨table, key, .update (r.map .text)⟩
        ⟨table, key, .update (r'.map .text)⟩ ↔ r.Agree r')) ∧
      ∀ names names' slot slot', Operation.Interchangeable
        ⟨table, key, .read (.ofList names) slot⟩ ⟨table, key, .read (.ofList names') slot'⟩ ↔
          (∀ name, name ∈ names ↔ name ∈ names') ∧ slot = slot' := by
  refine ⟨fun s steps steps' hsteps => ?_, fun table key => ⟨fun r r' =>
    ⟨Operation.insert_interchangeable_iff, Operation.update_interchangeable_iff⟩,
    fun names names' slot slot' => Operation.read_interchangeable_iff⟩⟩
  have hrun := forall₂_trace_of_forall₂ (fun _ _ _ _ => step_equivalent) hsteps (Equivalent.refl s)
  exact hrun.imp fun x y ⟨hanswer, hafter⟩ => ⟨hanswer, hafter.pending_eq,
    hafter.shared.footprint.metrics, hafter.shared.footprint.slots, hafter.shared.store.tables⟩

/-- A row is inserted and updated with its fields in another order, and read with the names listed
twice. What is stored is not the same. -/
theorem trace_interchangeable_of_reordered :
    let s : Session := ⟨⟨{ Store.new "kv" true with table := .holding .empty }, .empty⟩,
      ⟨.text "db", 3⟩, .empty, .empty⟩
    let row : Record := .ofList [("f", "1"), ("g", "2")]
    let row' : Record := .ofList [("g", "2"), ("f", "1")]
    let steps (row : Record) (names : List String) : List Step :=
      [.newClient "c", .call "c" (.insert "t" "k" (row.map .text)),
        .call "c" (.update "t" "k" (row.map .text)),
        .call "c" (.read "t" "k" (.ofList names) (some "r")), .dump]
    row.encode ≠ row'.encode ∧
      List.Forall₂ (fun x y => Alike Fault.Equivalent Answer.Equivalent x.1 y.1 ∧
          (∀ name, x.2.pending name = y.2.pending name) ∧
          x.2.shared.footprint.metrics = y.2.shared.footprint.metrics ∧
          Keyed Fields.Agree x.2.shared.footprint.slots.entries
            y.2.shared.footprint.slots.entries ∧
          x.2.shared.store.table.Equivalent y.2.shared.store.table)
        (trace step s (steps row ["f", "g"])) (trace step s (steps row' ["g", "f", "g"])) := by
  intro s row row' steps
  obtain ⟨hrun, hops⟩ := trace_interchangeable
  have hrow : row.Agree row' := by
    intro name
    simp only [row, row', Fields.ofList, Fields.putAll, List.foldl, Fields.get?_put]
    by_cases hf : name = "f"
    · simp [hf]
    · simp [hf]
  refine ⟨by decide +kernel, hrun s (.cons (.refl _) (.cons (.call "c" (.inr fun db => ?_))
    (.cons (.call "c" (.inr fun db => ?_)) (.cons (.call "c" (.inr fun db => ?_))
      (.cons (.refl _) .nil)))))⟩
  · exact ⟨_, _, rfl, rfl, ((hops "t" (Key.row db "t" "k")).1 row row').1.mpr hrow⟩
  · exact ⟨_, _, rfl, rfl, ((hops "t" (Key.row db "t" "k")).1 row row').2.mpr hrow⟩
  · exact ⟨_, _, rfl, rfl, ((hops "t" (Key.row db "t" "k")).2 _ _ _ _).mpr ⟨by simp, rfl⟩⟩

end Session

end RecordStore
