import RecordStore.Proofs.CatalogSteps
import RecordStore.Proofs.Runs
import RecordStore.Session

/-! # Sessions whose clients do not batch

Any number of clients share a store whose table starts empty. Whatever they call, and in whatever
order, the answers, the slots and the stored rows are those of one catalog.
-/

namespace RecordStore

/-- A client in use with nothing queued, whose every call is a batch of its own. -/
structure Client.Unbatched (c : Client) : Prop where
  size : c.settings.batchSize ≤ 1
  queue : c.queue = .empty
  closed : c.closed = false

namespace Client

variable {c : Client} {w : Shared}

theorem submit_of_unbatched (hc : c.Unbatched) (op : Operation) :
    c.submit op w = ((w.execute [op]).1, c, (w.execute [op]).2) := by
  obtain ⟨settings, ownsStore, queue, closed⟩ := c
  obtain rfl : queue = .empty := hc.queue
  have hsize : settings.batchSize ≤ 1 := hc.size
  have hflush : (Queue.empty.append op).shouldFlush settings.batchSize = true := by
    apply decide_eq_true
    rw [Queue.size_append, max_eq_right (by omega)]
    exact Int.ofNat_le.mpr (Nat.le_add_left 1 _)
  rw [submit, if_pos hflush]
  rfl

theorem request_of_unbatched (hc : c.Unbatched) (verb table id : String) (action : Action) :
    c.request verb table id action w =
      let key := Key.row c.settings.dbText table id
      let answer := (w.report (.called verb key)).execute [⟨table, key, action⟩]
      (.ok (.status answer.1), c, answer.2) := by
  simp only [request, submit_of_unbatched hc, rowKey]

end Client

namespace Catalog

variable {M : Catalog} {w : Shared} {c : Client}

theorem Agrees.report (h : Agrees M w) (e : Event) : Agrees M (w.report e) :=
  ⟨h.ready, h.rows, h.short, h.slots⟩

def Request.Countable : Request → Prop
  | .scan _ _ count _ => count ≤ Buffer.maxLimit
  | _ => True

theorem Agrees.perform (h : Agrees M w) (hc : c.Unbatched) {verb table id : String}
    {action : Action} {status : Status} {M' : Catalog}
    (hexecute : ∀ w, Agrees M w → let op := ⟨table, Key.row c.settings.dbText table id, action⟩
      (w.execute [op]).1 = status ∧ Agrees M' (w.execute [op]).2) :
    ∃ w', c.request verb table id action w = (.ok (.status status), c, w') ∧ Agrees M' w' := by
  obtain ⟨hstatus, hagrees⟩ := hexecute _ (h.report (.called verb (c.rowKey table id)))
  refine ⟨_, ?_, hagrees⟩
  rw [Client.request_of_unbatched hc, ← hstatus]
  rfl

theorem Agrees.call (h : Agrees M w) (hc : c.Unbatched) {request : Request}
    (hcount : request.Countable) :
    ∃ w', c.call request.toCall w = (.ok (M.step c.settings.dbText request).1, c, w') ∧
      Agrees (M.step c.settings.dbText request).2 w' := by
  have hopen : ¬ c.closed = true := by simp [hc.closed]
  cases request with
  | read table id p slot =>
    have hcall : c.call (.read table id p slot) w = c.request "read" table id (.read p slot) w :=
      if_neg hopen
    rw [Request.toCall, hcall, step]
    cases hselected : (M.records.get? (Key.row c.settings.dbText table id)).bind
        (Record.project p) with
    | none => exact h.perform hc fun w hw => hw.read_error hselected
    | some r => exact h.perform hc fun w hw => hw.read_ok hselected
  | insert table id values =>
    have hcall : c.call (.insert table id (values.map Value.text)) w =
        c.request "insert" table id (.insert (values.map Value.text)) w := if_neg hopen
    rw [Request.toCall, hcall, step]
    by_cases hkey : (Key.pack (Key.row c.settings.dbText table id)).length ≤ maxKeyBytes
    · rw [if_pos hkey]
      exact h.perform hc fun w hw => hw.insert hkey values
    · rw [if_neg hkey]
      exact h.perform hc fun w hw => hw.insert_long hkey values
  | update table id values =>
    have hcall : c.call (.update table id (values.map Value.text)) w =
        c.request "update" table id (.update (values.map Value.text)) w := if_neg hopen
    rw [Request.toCall, hcall, step]
    cases hrecord : M.records.get? (Key.row c.settings.dbText table id) with
    | none => exact h.perform hc fun w hw => hw.update_error fun r hr => by simp [hrecord] at hr
    | some r =>
      by_cases hr : r.isEmpty = true
      · simp only [if_pos hr]
        refine h.perform hc fun w hw => hw.update_error ?_
        intro r' hr'
        rw [hrecord] at hr'
        exact Option.some.inj hr' ▸ hr
      · simp only [if_neg hr]
        exact h.perform hc fun w hw => hw.update_ok hrecord hr
  | delete table id =>
    have hcall : c.call (.delete table id) w = c.request "delete" table id .delete w :=
      if_neg hopen
    rw [Request.toCall, hcall, step]
    exact h.perform hc fun w hw => hw.delete
  | scan table start count p =>
    obtain ⟨links, f, hslots, hscan⟩ :=
      scan_of_mirrors h.ready h.rows c.settings.dbText table start hcount p
    have hcall : c.call (.scan table start count p) w =
        let answer := w.scan c.settings.dbText table start count p
        (.ok (.scanned answer.1.1 answer.1.2), c, answer.2) := if_neg hopen
    have hagrees : Agrees M ⟨{ w.store with links }, f⟩ :=
      ⟨h.ready, h.rows, h.short, fun name => by rw [← h.slots, Footprint.slot, hslots]; rfl⟩
    rw [Request.toCall, hcall, hscan, step]
    cases ((M.slice c.settings.dbText table start count).map Prod.snd).mapM (Record.project p) with
    | none => exact ⟨_, rfl, hagrees⟩
    | some records => exact ⟨_, rfl, hagrees⟩

end Catalog

theorem Footprint.slot_declare (f : Footprint) (name other : String) :
    (f.declare name).slot other = f.slot other := by
  rw [declare, slot, Fields.get?_put]
  split
  · next h => rw [h, Option.getD_some]
  · rfl

theorem Footprint.slot_declareAll (names : List String) (f : Footprint) (other : String) :
    (names.foldl declare f).slot other = f.slot other := by
  induction names generalizing f with
  | nil => rfl
  | cons name rest ih => rw [List.foldl_cons, ih, slot_declare]

namespace Session

variable {s s₀ : Session} {M : Catalog}

/-- A session on an open store whose table is empty, with clients that do not batch. -/
structure Fresh (s : Session) : Prop where
  isOpen : s.shared.store.isOpen = true
  reachable : s.shared.store.reachable = true
  empty : s.shared.store.table = .holding .empty
  unbatched : ∀ name c, s.clients.get? name = some c → c.Unbatched

/-- The stored rows are exactly the records of a catalog in stored form, and the slots are its
slots. -/
structure Shows (s : Session) (M : Catalog) : Prop where
  rows : ∃ D, s.shared.store.table = .holding D ∧ Catalog.Mirrors D.get? M.records
  slots : ∀ name, s.shared.footprint.slot name = M.slots name

def dbOf (s : Session) (client : String) : String :=
  (s.clients.get? client).elim "" (·.settings.dbText)

def serve (call : String × Catalog.Request) : Session → Except Fault Answer × Session :=
  step (.call call.1 call.2.toCall)

def promise (db : String → String) (call : String × Catalog.Request) (M : Catalog) :
    Client.Reply × Catalog :=
  M.step (db call.1) call.2

structure Admits (s : Session) (call : String × Catalog.Request) : Prop where
  known : ∃ c, s.clients.get? call.1 = some c
  countable : call.2.Countable

/-- What holds of a session along its calls: it agrees with a catalog, and its clients are those
that it began with. -/
structure Tracks (s₀ s : Session) (M : Catalog) : Prop where
  agrees : Catalog.Agrees M s.shared
  clients : ∀ name, s.clients.get? name = s₀.clients.get? name

theorem Fresh.tracks (h : s.Fresh) : Tracks s s ⟨.empty, s.shared.footprint.slot⟩ := by
  refine ⟨⟨⟨h.isOpen, h.reachable, _, h.empty⟩, ?_, nofun, fun _ => rfl⟩, fun _ => rfl⟩
  rw [h.empty]
  intro key data
  constructor
  · intro hrow
    cases hrow
  · rintro ⟨_, _, hr, -⟩
    cases hr

theorem Tracks.shows (h : Tracks s₀ s M) : s.Shows M := by
  obtain ⟨D, hD⟩ := h.agrees.ready.2.2
  have hrows := h.agrees.rows
  rw [hD] at hrows
  exact ⟨⟨D, hD, hrows⟩, h.agrees.slots⟩

/-- What a call starts from: no events, and the slot that it names is known. -/
def entered (s : Session) (call : Client.Call) : Shared :=
  { s.shared with
    footprint := (Step.call "" call).slotNames.foldl Footprint.declare
      { s.shared.footprint with events := [] } }

theorem agrees_entered (h : Catalog.Agrees M s.shared) (call : Client.Call) :
    Catalog.Agrees M (s.entered call) := by
  refine ⟨h.ready, h.rows, h.short, ?_⟩
  intro name
  rw [entered, Footprint.slot_declareAll]
  exact h.slots name

theorem step_call {name : String} {c : Client} (hc : s.clients.get? name = some c)
    (call : Client.Call) :
    step (.call name call) s =
      let r := c.call call (s.entered call)
      (r.1.map .client, { s with shared := r.2.2, clients := s.clients.put name r.2.1 }) := by
  have hslots : (Step.call name call).slotNames = (Step.call "" call).slotNames := by
    cases call <;> rfl
  have hclient : callClient name call { s with shared := s.entered call } =
      let r := c.call call (s.entered call)
      (r.1, { s with shared := r.2.2, clients := s.clients.put name r.2.1 }) := by
    simp only [callClient, hc]
  rw [step, hslots, perform, Attempt.map_apply]
  exact congrArg (fun x : Except Fault Client.Reply × Session => (x.1.map Answer.client, x.2))
    hclient

theorem Tracks.serve (h₀ : s₀.Fresh) {call : String × Catalog.Request} (hcall : s₀.Admits call)
    (h : Tracks s₀ s M) :
    (serve call s).1 = .ok (.client (promise s₀.dbOf call M).1) ∧
      Tracks s₀ (serve call s).2 (promise s₀.dbOf call M).2 := by
  obtain ⟨c, hc₀⟩ := hcall.known
  have hdb : s₀.dbOf call.1 = c.settings.dbText := by rw [dbOf, hc₀, Option.elim_some]
  have hc : s.clients.get? call.1 = some c := (h.clients call.1).trans hc₀
  obtain ⟨w, hclient, hagrees⟩ :=
    (agrees_entered h.agrees call.2.toCall).call (h₀.unbatched _ c hc₀) hcall.countable
  rw [promise, hdb, Session.serve, step_call hc, hclient]
  refine ⟨rfl, hagrees, ?_⟩
  intro name
  rw [Fields.get?_put]
  split
  · next hname => rw [hname, hc₀]
  · exact h.clients name

/-- Whatever clients that do not batch call, in whatever order, every answer is that of the catalog,
and so are the stored rows and the slots after every call. -/
theorem refines_catalog (h : s.Fresh) {calls : List (String × Catalog.Request)}
    (hcalls : ∀ call ∈ calls, s.Admits call) :
    List.Forall₂ (fun x y => x.1 = .ok (.client y.1) ∧ x.2.Shows y.2)
      (trace serve s calls)
      (trace (promise s.dbOf) ⟨.empty, s.shared.footprint.slot⟩ calls) := by
  have hstep : ∀ call ∈ calls, ∀ s' M, Tracks s s' M →
      (serve call s').1 = .ok (.client (promise s.dbOf call M).1) ∧
        Tracks s (serve call s').2 (promise s.dbOf call M).2 :=
    fun call hmem _ _ htracks => htracks.serve h (hcalls call hmem)
  have hsimulates : List.Forall₂ _ (trace serve s calls) _ :=
    forall₂_trace (Q := fun answer reply => answer = Except.ok (Answer.client reply)) hstep h.tracks
  exact hsimulates.imp fun _ _ hboth => ⟨hboth.1, hboth.2.shows⟩

theorem refines_catalog_of_two_clients :
    let clients : Fields Client :=
      .ofList [("x", .new ⟨.text "db", 0⟩ false), ("y", .new ⟨.text "other", 1⟩ false)]
    let s : Session := ⟨⟨{ Store.new "kv" true with table := .holding .empty }, .empty⟩,
      ⟨.text "db", 0⟩, clients, .empty⟩
    let calls : List (String × Catalog.Request) :=
      [("x", .insert "t" "k" (.ofList [("f", "1")])), ("y", .update "t" "k" (.ofList [("g", "2")])),
        ("x", .update "t" "k" (.ofList [("g", "2")])), ("x", .read "t" "k" .all (some "r")),
        ("y", .scan "t" "" 0 .all), ("x", .scan "t" "" 1 .all), ("x", .delete "t" "k")]
    let answers := trace serve s calls
    let promises := trace (promise s.dbOf) ⟨.empty, s.shared.footprint.slot⟩ calls
    s.Fresh ∧ (∀ call ∈ calls, s.Admits call) ∧
      List.Forall₂ (fun x y => x.1 = .ok (.client y.1) ∧ x.2.Shows y.2) answers promises ∧
      promises.map Prod.fst = [.status .ok, .status .error, .status .ok, .status .ok,
        .scanned .ok [], .scanned .ok [.ofList [("f", "1"), ("g", "2")]], .status .ok] := by
  intro clients s calls answers promises
  have hclients : ∀ name c, s.clients.get? name = some c → c.Unbatched := by
    intro name c hc
    rw [Fields.get?_eq_some_iff] at hc
    have hmem : (name, c) ∈ [("x", Client.new ⟨.text "db", 0⟩ false),
        ("y", Client.new ⟨.text "other", 1⟩ false)] := hc
    simp only [List.mem_cons, Prod.mk.injEq, List.not_mem_nil, or_false] at hmem
    rcases hmem with ⟨-, rfl⟩ | ⟨-, rfl⟩
    · exact ⟨by decide, rfl, rfl⟩
    · exact ⟨by decide, rfl, rfl⟩
  have hfresh : s.Fresh := ⟨rfl, rfl, rfl, hclients⟩
  have hcount : ∀ n : Int, n ≤ 1 → n ≤ Buffer.maxLimit := fun n hn => hn.trans (by decide)
  have hx : ∃ c, s.clients.get? "x" = some c := ⟨_, rfl⟩
  have hy : ∃ c, s.clients.get? "y" = some c := ⟨_, rfl⟩
  have hcalls : ∀ call ∈ calls, s.Admits call := by
    simp only [calls, List.forall_mem_cons, List.not_mem_nil, false_imp_iff, implies_true, and_true]
    exact ⟨⟨hx, trivial⟩, ⟨hy, trivial⟩, ⟨hx, trivial⟩, ⟨hx, trivial⟩, ⟨hy, hcount 0 (by decide)⟩,
      ⟨hx, hcount 1 (by decide)⟩, ⟨hx, trivial⟩⟩
  exact ⟨hfresh, hcalls, refines_catalog hfresh hcalls, by decide +kernel⟩

/-- An insert under a short key is refused if the text of a field has a surrogate in it. -/
theorem step_refuses_surrogate :
    let s : Session := ⟨⟨{ Store.new "kv" true with table := .holding .empty }, .empty⟩,
      ⟨.text "DB", 0⟩, .ofList [("x", .new ⟨.text "DB", 0⟩ false)], .empty⟩
    let after := step (.call "x" (.insert "t" "k"
      (.ofList [("f", Value.ofText (.broken ⟨[0xD800], rfl⟩))]))) s
    let key := Key.pack (Key.row "DB" "t" "k")
    s.Fresh ∧ key.length ≤ maxKeyBytes ∧ after.1 = .ok (.client (.status .error)) ∧
      after.2.shared.store.table.rows key = none := by
  intro s after key
  have hclients : ∀ name c, s.clients.get? name = some c → c.Unbatched := by
    intro name c hc
    rw [Fields.get?_eq_some_iff] at hc
    obtain ⟨-, rfl⟩ := Prod.mk.inj (List.mem_singleton.mp hc)
    exact ⟨by decide, rfl, rfl⟩
  exact ⟨⟨rfl, rfl, rfl, hclients⟩, by decide +kernel, rfl, by decide +kernel⟩

end Session
end RecordStore
