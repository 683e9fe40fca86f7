import RecordStore.Proofs.AcceptedOperations
import RecordStore.Proofs.Counts
import RecordStore.Proofs.SessionSteps
import RecordStore.Proofs.UnbatchedSessions

/-! # Metrics account for sessions

Along any session, failures included, the metrics are those of the batches that were carried out and
the scans that were made, and each operation that a client accepted is in one batch or is queued.
-/

namespace RecordStore

namespace Batch

theorem lasts_metrics (m : Metrics) : Lasts fun f => f.metrics = m where
  trace p {f} h := by
    unfold Pending.trace
    split
    · exact h
    · next r slot _ => cases slot <;> exact h
    · exact h
  report _ {_} h := h

end Batch

namespace Shared

open Batch

theorem metrics_execute {ops : List Operation} (hops : ops ≠ []) (w : Shared) :
    (w.execute ops).2.footprint.metrics =
      w.footprint.metrics.observeBatch (w.execute ops).1 ops.length := by
  rw [execute_footprint, execute_fst]
  rcases hrun : (Connection.backend.beside Footprint).run (body Connection.backend ops)
    ((⟨w.store, .finished⟩ : Connection), w.footprint) with ⟨e | status, t⟩
  · have hmetrics : t.2.metrics = w.footprint.metrics := run_lasts (lasts_metrics _) hrun rfl
    rw [execute_of_run_error hops hrun, ← hmetrics]
    rfl
  · have hmetrics : t.2.metrics = w.footprint.metrics := run_lasts (lasts_metrics _) hrun rfl
    rw [execute_of_run_ok hops hrun, ← hmetrics]
    rfl

theorem metrics_scan (w : Shared) (db table : String) (start : Text) (limit : Int)
    (p : Projection) :
    (w.scan db table start limit p).2.footprint.metrics =
      w.footprint.metrics.observeScan (w.scan db table start limit p).1.1 := by
  simp only [scan, Scan.scan]
  split <;> rfl

end Shared

namespace Client

def scan? (call : Call) (s : Client × Shared) : Option Status :=
  match call with
  | .scan table start count p =>
    if s.1.closed then none else some (s.2.scan s.1.settings.dbText table start count p).1.1
  | _ => none

variable {c : Client} {call : Call} {w : Shared} {batches : List (List Operation × Status)}
  {scans : List Status}

theorem queuedWith_ne_nil (h : c.isDue call = true) : (c.queuedWith call).operations ≠ [] := by
  rw [operations_queuedWith]
  cases hop : call.operation? c.settings.dbText with
  | none => simpa using (clears_of_isDue hop h).2
  | some op => simp

theorem metrics_drained (c : Client) (w : Shared) : (c.drained w).footprint.metrics =
    if c.queue.isEmpty then w.footprint.metrics
    else (w.execute c.queue.operations).2.footprint.metrics := by
  unfold drained
  split
  · rfl
  · dsimp only
    split <;> rfl

theorem metrics_cleanup (c : Client) (w : Shared) :
    (c.cleanup w).2.2.footprint.metrics = (c.drained w).footprint.metrics := by
  have hclose := (c.drained w).metrics_close
  rw [cleanup_eq]
  dsimp only
  split
  · split <;> next h => rw [h] at hclose; exact hclose
  · rfl

theorem accounts_carryOut (h : w.footprint.metrics.Accounts batches scans)
    (hdue : c.isDue call = true) :
    (c.carryOut call w).2.footprint.metrics.Accounts (batches ++ (batch? call (c, w)).toList)
      scans := by
  have hannounce : (c.announce call w).footprint.metrics = w.footprint.metrics := by
    unfold announce
    cases call.operation? c.settings.dbText <;> rfl
  have hbatch : batch? call (c, w) =
      some ((c.queuedWith call).operations, (c.carryOut call w).1) := if_pos hdue
  rw [hbatch, carryOut, Shared.metrics_execute (queuedWith_ne_nil hdue), hannounce]
  exact h.observeBatch _ _

theorem accounts_call (h : w.footprint.metrics.Accounts batches scans) :
    (c.call call w).2.2.footprint.metrics.Accounts (batches ++ (batch? call (c, w)).toList)
      (scans ++ (scan? call (c, w)).toList) := by
  have hidle : c.isDue call = false →
      w.footprint.metrics.Accounts (batches ++ (batch? call (c, w)).toList) scans := fun hdue => by
    rw [batch?_eq_none_iff.mpr hdue, Option.toList_none, List.append_nil]
    exact h
  have hnoScan : scan? call (c, w) = none →
      scans ++ (scan? call (c, w)).toList = scans := fun hscan => by
    rw [hscan, Option.toList_none, List.append_nil]
  by_cases hclosed : c.closed = true
  · have hscan : scan? call (c, w) = none := by
      cases call <;> first | rfl | exact if_pos hclosed
    rw [hnoScan hscan, call_of_closed hclosed]
    exact hidle (isDue_of_closed hclosed)
  have hopen : c.closed = false := by simpa using hclosed
  cases call with
  | scan table start count p =>
    have hscan : scan? (.scan table start count p) (c, w) =
        some (w.scan c.settings.dbText table start count p).1.1 := if_neg hclosed
    rw [hscan, call_scan hopen]
    dsimp only
    rw [w.metrics_scan]
    exact (hidle (c.isDue_scan table start count p)).observeScan _
  | flush =>
    rw [hnoScan rfl, flush_eq hopen]
    split
    · next hdue => exact accounts_carryOut h hdue
    · next hdue => exact hidle (by simpa using hdue)
  | cleanup =>
    have hcall : c.call .cleanup w = c.cleanup w := if_neg hclosed
    have hdue : c.isDue .cleanup = !c.queue.isEmpty := isDue_cleanup hopen
    rw [hnoScan rfl, hcall, metrics_cleanup, metrics_drained]
    split
    · next hempty => exact hidle (by rw [hdue, hempty]; rfl)
    · next hempty =>
      have hdue' : c.isDue .cleanup = true := by rw [hdue]; simpa using hempty
      exact accounts_carryOut h hdue'
  | _ =>
    rw [hnoScan rfl, call_submits hopen rfl]
    split
    · next hdue => exact accounts_carryOut h hdue
    · next hdue => exact hidle (by simpa using hdue)

theorem conserves_call (c : Client) (call : Call) (w : Shared) :
    ((batch? call (c, w)).elim 0 fun x => x.1.length) + (c.call call w).2.1.queue.size =
      c.queue.size +
        (if c.closed then none else call.operation? c.settings.dbText).toList.length := by
  have hlength := congrArg List.length (c.accepted_attend (call, w))
  have hanswer : ((answer? call (c, w)).map Prod.fst).toList.length =
      (if c.closed then none else call.operation? c.settings.dbText).toList.length := by
    rw [answer?_eq]
    split
    · rfl
    · cases call.operation? c.settings.dbText <;> rfl
  rw [List.length_append, List.length_append, hanswer] at hlength
  have hbatch : ((batch? call (c, w)).elim 0 fun x => x.1.length) =
      ((batch? call (c, w)).map Prod.fst).toList.flatten.length := by
    cases batch? call (c, w) with
    | none => rfl
    | some x => simp
  rw [hbatch]
  exact hlength

end Client

theorem sum_putEntry {α : Type} (f : α → Nat) (name : String) (value : α)
    (entries : List (String × α)) :
    ((putEntry name value entries).map (f ·.2)).sum +
        ((entries.find? (·.1 = name)).map Prod.snd).elim 0 f =
      (entries.map (f ·.2)).sum + f value := by
  induction entries with
  | nil => simp [putEntry]
  | cons entry rest ih =>
    by_cases hname : entry.1 = name
    · simp only [putEntry, hname, if_true, List.map_cons, List.sum_cons, List.find?_cons,
        decide_true, Option.map_some, Option.elim_some]
      omega
    · simp only [putEntry, hname, if_false, List.map_cons, List.sum_cons, List.find?_cons,
        decide_false]
      omega

namespace Session

open Client (Call)

/-- A step that counts a batch or a scan that was never carried out. -/
def Step.forges : Step → Bool
  | .observeBatch .. | .observeScan .. => true
  | _ => false

def Step.measured : Step → Bool
  | .call .. | .execute _ | .scan .. | .observeBatch .. | .observeScan _ => true
  | _ => false

/-- The batch that a step carries out, with the verdict on it: one of a client, or operations that
are executed directly, if there are any. -/
def batch? : Step × Session → Option (List Operation × Status)
  | (.call name call, s) => (s.clients.get? name).bind fun c =>
    Client.batch? call (c, s.entered call)
  | (.execute ops, s) =>
    if ops.isEmpty then none else some (ops, ((s.met (.execute ops)).execute ops).1)
  | _ => none

def scan? : Step × Session → Option Status
  | (.call name call, s) =>
    (s.clients.get? name).bind fun c => Client.scan? call (c, s.entered call)
  | (.scan db table start limit p, s) =>
    some ((s.met (.scan db table start limit p)).scan db table start limit p).1.1
  | _ => none

def accepted? : Step × Session → Option Operation
  | (.call name call, s) => (s.clients.get? name).bind fun c =>
    if c.closed then none else call.operation? c.settings.dbText
  | _ => none

/-- The client that gives up its name to a new one. -/
def replaced? : Step × Session → Option Client
  | (.newClient name, s) => s.clients.get? name
  | _ => none

def pendingAll (s : Session) : Nat := (s.clients.names.map s.pending).sum

variable {s : Session} {st : Step} {batches : List (List Operation × Status)} {scans : List Status}

open Attempt in
theorem metrics_step (hst : st.measured = false) (s : Session) :
    (step st s).2.shared.footprint.metrics = s.shared.footprint.metrics := by
  let P := fun s' : Session => s'.shared.footprint.metrics = s.shared.footprint.metrics
  have hstore : ∀ {α} (m : Attempt Store α), Keeps P (onStore m) := fun _ _ h => h
  suffices hperform : Keeps P (perform st) from hperform _ (s.metrics_met st)
  cases st with
  | call | execute | scan | observeBatch | observeScan => cases hst
  | begin name readYourWrites =>
    exact (keeps_beginTransaction fun _ _ _ h _ => h).bind fun _ => keeps_pure _
  | within name st => exact (keeps_stepTransaction fun _ _ h _ => h).map _
  | run steps fault => exact (hstore _).map _
  | lookUp key p => exact keeps_lookUp (hstore _)
  | newClient | slots | dump | metrics => exact fun _ h => h
  | closeStore =>
    refine Keeps.bind (fun s' h => ?_) fun _ => keeps_pure _
    exact s'.shared.metrics_close.trans h
  | _ => exact (hstore _).bind fun _ => keeps_pure _

theorem step_call_of_none {name : String} (h : s.clients.get? name = none) (call : Call) :
    (step (.call name call) s).2 = { s with shared := s.met (.call name call) } := by
  simp only [step_eq, perform, Attempt.map_apply, callClient, h]

theorem accounts_step (h : s.shared.footprint.metrics.Accounts batches scans)
    (hst : st.forges = false) :
    (step st s).2.shared.footprint.metrics.Accounts (batches ++ (batch? (st, s)).toList)
      (scans ++ (scan? (st, s)).toList) := by
  have hmet : (s.met st).footprint.metrics.Accounts batches scans := by rwa [metrics_met]
  by_cases hidle : st.measured = false
  · have hbatch : batch? (st, s) = none := by cases st <;> first | rfl | cases hidle
    have hscan : scan? (st, s) = none := by cases st <;> first | rfl | cases hidle
    rw [metrics_step hidle, hbatch, hscan, Option.toList_none, Option.toList_none, List.append_nil,
      List.append_nil]
    exact h
  cases st with
  | call name call =>
    rw [batch?, scan?]
    cases hc : s.clients.get? name with
    | none =>
      rw [step_call_of_none hc, Option.bind_none, Option.bind_none, Option.toList_none,
        Option.toList_none, List.append_nil, List.append_nil]
      exact hmet
    | some c =>
      have hentered : (s.entered call).footprint.metrics.Accounts batches scans := by
        rwa [← metrics_met s (.call "" call)] at h
      rw [step_call hc]
      exact Client.accounts_call hentered
  | execute ops =>
    have hstep : (step (.execute ops) s).2.shared = ((s.met (.execute ops)).execute ops).2 := rfl
    have hscan : scan? (.execute ops, s) = none := rfl
    rw [hstep, hscan, Option.toList_none, List.append_nil]
    by_cases hops : ops = []
    · have hbatch : batch? (.execute ops, s) = none := if_pos (by rw [hops]; rfl)
      rw [hbatch, Option.toList_none, List.append_nil, hops]
      rwa [hops] at hmet
    · have hbatch : batch? (.execute ops, s) =
          some (ops, ((s.met (.execute ops)).execute ops).1) := if_neg (by simpa using hops)
      rw [hbatch, Shared.metrics_execute hops]
      exact hmet.observeBatch _ _
  | scan db table start limit p =>
    have hstep : (step (.scan db table start limit p) s).2.shared =
      ((s.met (.scan db table start limit p)).scan db table start limit p).2 := rfl
    have hbatch : batch? (.scan db table start limit p, s) = none := rfl
    rw [hstep, hbatch, Option.toList_none, List.append_nil, Shared.metrics_scan]
    exact hmet.observeScan _
  | observeBatch | observeScan => cases hst
  | _ => exact (hidle rfl).elim

theorem pendingAll_eq (s : Session) :
    s.pendingAll = (s.clients.entries.map (·.2.queue.size)).sum := by
  have hpending : ∀ p ∈ s.clients.entries, s.pending p.1 = p.2.queue.size := fun p hp => by
    rw [pending, Fields.get?_eq_some_iff.mpr hp, Option.elim_some]
  rw [pendingAll, Fields.names, List.map_map]
  exact congrArg List.sum (List.map_congr_left hpending)

theorem pendingAll_put (s : Session) (name : String) (c : Client) :
    pendingAll { s with clients := s.clients.put name c } +
        (s.clients.get? name).elim 0 (·.queue.size) = s.pendingAll + c.queue.size := by
  rw [pendingAll_eq, pendingAll_eq]
  exact sum_putEntry (·.queue.size) name c s.clients.entries

theorem pendingAll_congr {s s' : Session} (h : s'.clients = s.clients) :
    s'.pendingAll = s.pendingAll := by
  rw [pendingAll_eq, pendingAll_eq, h]

theorem pendingAll_of_blank (h : s.Blank) : s.pendingAll = 0 := by
  have hnone : ∀ n ∈ s.clients.entries.map (·.2.queue.size), n = 0 := by
    simp only [List.mem_map]
    rintro n ⟨p, hp, rfl⟩
    rw [h.queues (Fields.get?_eq_some_iff.mpr hp)]
    rfl
  rw [pendingAll_eq]
  exact List.sum_eq_zero hnone

def carriedOut (batches : List (List Operation × Status)) : Nat :=
  (batches.map (·.1.length)).sum

def leftWith (clients : List Client) : Nat := (clients.map (·.queue.size)).sum

/-- No operation appears or disappears in a step: what it carries out, and what is queued after it,
was queued before or is accepted in it. -/
theorem conserves_step (hst : ∀ ops, st = .execute ops → ops = []) (s : Session) :
    carriedOut (batch? (st, s)).toList + (step st s).2.pendingAll +
        leftWith (replaced? (st, s)).toList = s.pendingAll + (accepted? (st, s)).toList.length := by
  by_cases hclient : st.client? = none
  · have hbatch : batch? (st, s) = none := by
      cases st with
      | execute ops => exact if_pos (by rw [hst ops rfl]; rfl)
      | newClient | call => cases hclient
      | _ => rfl
    have haccepted : accepted? (st, s) = none := by cases st <;> first | rfl | cases hclient
    have hreplaced : replaced? (st, s) = none := by cases st <;> first | rfl | cases hclient
    rw [hbatch, haccepted, hreplaced, pendingAll_congr (clients_step hclient s)]
    simp [carriedOut, leftWith]
  cases st with
  | newClient name =>
    have hafter : (step (.newClient name) s).2.clients =
      s.clients.put name (.new s.settings false) := rfl
    have hput := s.pendingAll_put name (.new s.settings false)
    have hpending : (step (.newClient name) s).2.pendingAll =
      pendingAll { s with clients := s.clients.put name (.new s.settings false) } :=
        pendingAll_congr hafter
    have hleft : leftWith (s.clients.get? name).toList =
        (s.clients.get? name).elim 0 (·.queue.size) := by
      cases s.clients.get? name <;> rfl
    have hempty : (Client.new s.settings false).queue.size = 0 := rfl
    rw [hempty] at hput
    rw [hpending, replaced?, hleft]
    exact (Nat.add_assoc ..).trans ((Nat.zero_add _).trans hput)
  | call name call =>
    cases hc : s.clients.get? name with
    | none =>
      have hafter : (step (.call name call) s).2.clients = s.clients := by
        rw [step_call_of_none hc]
      simp [batch?, accepted?, replaced?, hc, pendingAll_congr hafter, carriedOut, leftWith]
    | some c =>
      have hput := s.pendingAll_put name (c.call call (s.entered call)).2.1
      have hpending : (step (.call name call) s).2.pendingAll =
          pendingAll { s with clients := s.clients.put name (c.call call (s.entered call)).2.1 } :=
        pendingAll_congr (by rw [step_call hc])
      have hcall := c.conserves_call call (s.entered call)
      have hbatch : carriedOut (Client.batch? call (c, s.entered call)).toList =
          (Client.batch? call (c, s.entered call)).elim 0 fun x => x.1.length := by
        cases Client.batch? call (c, s.entered call) <;> simp [carriedOut]
      rw [hc, Option.elim_some] at hput
      have hleft : leftWith (replaced? (.call name call, s)).toList = 0 := rfl
      rw [hpending, hleft, batch?, accepted?, hc, Option.bind_some, Option.bind_some, hbatch]
      omega
  | _ => exact (hclient rfl).elim

theorem carriedOut_append (before after : List (List Operation × Status)) :
    carriedOut (before ++ after) = carriedOut before + carriedOut after := by
  rw [carriedOut, List.map_append, List.sum_append]
  rfl

theorem leftWith_append (before after : List Client) :
    leftWith (before ++ after) = leftWith before + leftWith after := by
  rw [leftWith, List.map_append, List.sum_append]
  rfl

def Accounted (past : List (Step × Session)) (s : Session) : Prop :=
  s.shared.footprint.metrics.Accounts (past.filterMap batch?) (past.filterMap scan?)

theorem Accounted.step {past : List (Step × Session)} (h : Accounted past s)
    (hst : st.forges = false) : Accounted (past ++ [(st, s)]) (step st s).2 := by
  rw [Accounted, filterMap_concat, filterMap_concat]
  exact accounts_step h hst

/-- Of what was pending at first or accepted so far, each operation was carried out, is pending, or
is left with a client that gave up its name. -/
def Conserved (s₀ : Session) (past : List (Step × Session)) (s : Session) : Prop :=
  carriedOut (past.filterMap batch?) + s.pendingAll + leftWith (past.filterMap replaced?) =
    s₀.pendingAll + (past.filterMap accepted?).length

theorem Conserved.step {s₀ : Session} {past : List (Step × Session)} (h : Conserved s₀ past s)
    (hst : ∀ ops, st = .execute ops → ops = []) :
    Conserved s₀ (past ++ [(st, s)]) (step st s).2 := by
  have hstep := conserves_step hst s
  unfold Conserved at h ⊢
  rw [filterMap_concat, filterMap_concat, filterMap_concat, carriedOut_append, leftWith_append,
    List.length_append]
  omega

/-- Whatever is done in a session, its metrics are those of the batches that were carried out and of
the scans that were made. If all batches come from clients, the operations that they hold and those
that are pending are the ones that open clients were given. -/
theorem metrics_account {s₀ : Session} (h₀ : s₀.Blank) {steps : List Step}
    (hsteps : ∀ st ∈ steps, st.forges = false) :
    let past := visits step s₀ steps
    let last := final step s₀ steps
    let m := last.shared.footprint.metrics
    m.Accounts (past.filterMap batch?) (past.filterMap scan?) ∧
      ((∀ ops, .execute ops ∈ steps → ops = []) →
        m.sizeSum + last.pendingAll + leftWith (past.filterMap replaced?) =
          (past.filterMap accepted?).length) := by
  intro past last m
  have hzero : Accounted [] s₀ := by
    rw [Accounted, h₀.metrics]
    exact .zero
  have haccounted : Accounted past last :=
    visits_induction (fun st hst _ _ h => h.step (hsteps st hst)) hzero
  refine ⟨haccounted, fun hexecute => ?_⟩
  have hstart : Conserved s₀ [] s₀ := by simp [Conserved, carriedOut, leftWith]
  have hconserved : Conserved s₀ past last :=
    visits_induction (fun st hst _ _ h => h.step fun ops heq => hexecute ops (heq ▸ hst)) hstart
  have hsizeSum : m.sizeSum = carriedOut (past.filterMap batch?) := haccounted.sizeSum
  rw [Conserved, pendingAll_of_blank h₀, Nat.zero_add] at hconserved
  rw [hsizeSum, ← hconserved]
  omega

theorem metrics_account_of_failing_batches :
    let s₀ : Session := ⟨⟨Store.new "kv" false, .empty⟩, ⟨.text "db", 2⟩,
      .ofList [("x", .new ⟨.text "db", 2⟩ false), ("y", .new ⟨.text "db", 3⟩ false)], .empty⟩
    let steps : List Step := [.call "x" (.insert "t" "a" .empty), .call "y" (.delete "t" "b"),
      .call "x" (.read "t" "a" .all (some "r")), .call "y" (.scan "t" "" 0 .all),
      .call "x" (.delete "t" "c"), .call "x" .cleanup, .call "x" (.delete "t" "d"),
      .call "x" (.scan "t" "" 0 .all), .newClient "y", .call "y" (.delete "t" "e"), .execute []]
    let past := visits step s₀ steps
    let last := final step s₀ steps
    let m := last.shared.footprint.metrics
    s₀.Blank ∧ (∀ st ∈ steps, st.forges = false) ∧ (∀ ops, .execute ops ∈ steps → ops = []) ∧
      m.Accounts (past.filterMap batch?) (past.filterMap scan?) ∧
      m.sizeSum + last.pendingAll + leftWith (past.filterMap replaced?) =
        (past.filterMap accepted?).length ∧
      m.sizeSum = 3 ∧ m.batches.error = 2 ∧ m.cumulativeSizes.take 3 = [1, 2, 2] ∧
      m.scans.error = 1 ∧ last.pendingAll = 1 ∧ leftWith (past.filterMap replaced?) = 1 := by
  intro s₀ steps past last m
  have hqueues : ∀ p ∈ [("x", Client.new ⟨.text "db", 2⟩ false),
      ("y", Client.new ⟨.text "db", 3⟩ false)], p.2.queue = .empty := by
    simp [Client.new]
  have h₀ : s₀.Blank := ⟨fun _ => rfl, rfl, fun hc => hqueues _ (Fields.get?_eq_some_iff.mp hc),
    fun _ => rfl⟩
  have hsteps : ∀ st ∈ steps, st.forges = false := by simp [steps, Step.forges]
  have hexecute : ∀ ops, .execute ops ∈ steps → ops = [] := by simp [steps]
  obtain ⟨haccounts, hconserved⟩ := metrics_account h₀ hsteps
  exact ⟨h₀, hsteps, hexecute, haccounts, hconserved hexecute, by decide +kernel, by decide +kernel,
    by decide +kernel, by decide +kernel, by decide +kernel, by decide +kernel⟩

end Session

end RecordStore
