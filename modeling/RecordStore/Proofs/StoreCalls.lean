import RecordStore.Proofs.BatchFaults
import RecordStore.Proofs.PairedRuns
import RecordStore.Store.Recorder

/-! # The calls that a batch makes

A batch calls its backend in two rounds inside one transaction. In the first every operation makes
its call, in the second every merged record is written. A fault that is raised ends the round it is
raised in; a fault that is only awaited shows in the second round. Which calls a batch makes is
settled by the answers to the calls before.
-/

namespace RecordStore

/-- What a backend makes of a call. -/
inductive StoreCall.Answer where
  | done
  /-- The result that is awaited for a read, which can be a fault. -/
  | row (r : Except Fault (Option Bytes))
  | raised (e : Fault)

def StoreCall.Answer.ofResult {α : Type} (answer : α → Answer) : Except Fault α → Answer
  | .ok a => answer a
  | .error e => .raised e

structure Exchange where
  call : StoreCall
  answer : StoreCall.Answer

namespace Backend

variable {σ α : Type}

def listed (call : StoreCall) (answer : α → StoreCall.Answer) (m : Attempt σ α) :
    Attempt (σ × List Exchange) α := fun s =>
  let (r, s') := m s.1
  (r, s', s.2 ++ [⟨call, .ofResult answer r⟩])

/-- The backend with a list of the calls made to it. Abandoning a transaction is the backend's own
doing and no call. -/
def traced (b : Backend σ) : Backend (σ × List Exchange) where
  begin readYourWrites := listed (.begin readYourWrites) (fun _ => .done) (b.begin readYourWrites)
  get key := listed (.get key) .row (b.get key)
  set key value := listed (.set key value) (fun _ => .done) (b.set key value)
  clear key := listed (.clear key) (fun _ => .done) (b.clear key)
  range first last limit :=
    listed (.range first last limit) (fun _ => .done) (b.range first last limit)
  commit := listed .commit (fun _ => .done) b.commit
  rollback := listed .rollback (fun _ => .done) b.rollback
  abandon e s :=
    let (e', s') := b.abandon e s.1
    (e', s', s.2)

end Backend

def Operation.call? (op : Operation) : Option StoreCall :=
  match op.action with
  | .insert values => values.encode.toOption.map (.set (Key.pack op.key) ·)
  | .delete => some (.clear (Key.pack op.key))
  | .read .. | .update _ => some (.get (Key.pack op.key))

def Exchange.pending? (op : Operation) (x : Exchange) : Option Batch.Pending :=
  match op.request?, x.answer with
  | some request, .row row => some ⟨op.key, request, row⟩
  | _, _ => none

namespace Batch

/-- The call of the operation raised no fault: it was a write, or the row is awaited. -/
inductive Sent (op : Operation) : Exchange → Prop where
  | write {call : StoreCall} : op.request? = none → op.call? = some call → Sent op ⟨call, .done⟩
  | ask {call : StoreCall} {row : Except Fault (Option Bytes)} : op.request? ≠ none →
      op.call? = some call → Sent op ⟨call, .row row⟩

/-- The operation could not be sent: its call raised a fault, or its fields cannot be packed and it
made none. -/
inductive NotSent (op : Operation) : List Exchange → Prop where
  | unpackable : op.call? = none → NotSent op []
  | raised {call : StoreCall} {e : Fault} : op.call? = some call → NotSent op [⟨call, .raised e⟩]

def awaited (ops : List Operation) (sent : List Exchange) : List Pending :=
  (ops.zip sent).filterMap fun p => p.2.pending? p.1

/-- The request is an update that finds a record with fields in it, and this comes of packing the
merged record. -/
def Pending.Merges (p : Pending) (packed : Except Value Bytes) : Prop :=
  ∃ values data r, p.request = .update values ∧ p.row = .ok (some data) ∧
    Record.decode data = .ok r ∧ r.isEmpty = false ∧
    packed = ((r.map Value.text).overlay values).encode

/-- The request was resolved, with one write if there is a merged record. -/
inductive Pending.Resolved (p : Pending) : List Exchange → Prop where
  | plain {row : Option Bytes} : p.row = .ok row →
      (∀ data, row = some data → ∃ r, Record.decode data = .ok r) →
      (∀ packed, ¬ p.Merges packed) → p.Resolved []
  | merged {data : Bytes} : p.Merges (.ok data) →
      p.Resolved [⟨.set (Key.pack p.key) data, .done⟩]

/-- The request could not be resolved; only a merged record that could not be written shows in a
call. -/
inductive Pending.Unresolved (p : Pending) : List Exchange → Prop where
  | row {e : Fault} : p.row = .error e → p.Unresolved []
  | decode {data : Bytes} {e : DecodeError} : p.row = .ok (some data) →
      Record.decode data = .error e → p.Unresolved []
  | merge {v : Value} : p.Merges (.error v) → p.Unresolved []
  | write {data : Bytes} {e : Fault} : p.Merges (.ok data) →
      p.Unresolved [⟨.set (Key.pack p.key) data, .raised e⟩]

inductive Calls (ops : List Operation) : List Exchange → Prop where
  | notBegun (e : Fault) : Calls ops [⟨.begin true, .raised e⟩]
  | notSent {before rest : List Operation} {op : Operation} {sent last : List Exchange} :
      ops = before ++ op :: rest → List.Forall₂ Sent before sent → NotSent op last →
      Calls ops (⟨.begin true, .done⟩ :: (sent ++ last))
  | unresolved {before rest : List Pending} {p : Pending} {sent last : List Exchange}
      {written : List (List Exchange)} : List.Forall₂ Sent ops sent →
      awaited ops sent = before ++ p :: rest → List.Forall₂ Pending.Resolved before written →
      p.Unresolved last → Calls ops (⟨.begin true, .done⟩ :: (sent ++ (written.flatten ++ last)))
  | committed {sent : List Exchange} {written : List (List Exchange)} {answer : StoreCall.Answer} :
      List.Forall₂ Sent ops sent → List.Forall₂ Pending.Resolved (awaited ops sent) written →
      (answer = .done ∨ ∃ e, answer = .raised e) →
      Calls ops (⟨.begin true, .done⟩ :: (sent ++ (written.flatten ++ [⟨.commit, answer⟩])))

section Traced

variable {σ : Type} {b : Backend σ} {op : Operation} {ops : List Operation}
  {s s' : σ × List Exchange} {t t' : (σ × List Exchange) × Footprint} {p : Pending}
  {pending : List Pending} {e : Fault}

theorem listed_eq_iff {α : Type} {call : StoreCall} {answer : α → StoreCall.Answer}
    {m : Attempt σ α} {r : Except Fault α} :
    Backend.listed call answer m s = (r, s') ↔ ∃ u, m s.1 = (r, u) ∧
      s' = (u, s.2 ++ [⟨call, .ofResult answer r⟩]) := by
  unfold Backend.listed
  rcases m s.1 with ⟨r', u⟩
  simp only [Prod.mk.injEq]
  constructor
  · rintro ⟨rfl, rfl⟩
    exact ⟨u, ⟨rfl, rfl⟩, rfl⟩
  · rintro ⟨_, ⟨rfl, rfl⟩, rfl⟩
    exact ⟨rfl, rfl⟩

theorem call?_of_request (h : op.request? ≠ none) : op.call? = some (.get (Key.pack op.key)) := by
  unfold Operation.request? at h
  unfold Operation.call?
  split at h <;> simp_all

theorem send_traced_ok {sent : Option Pending} (h : send b.traced op s = (.ok sent, s')) :
    ∃ x, s'.2 = s.2 ++ [x] ∧ Sent op x ∧ sent = x.pending? op := by
  rcases send_cases h with ⟨_, _, _, _, hr, _⟩ | ⟨values, data, r, haction, hencode, hset, hr⟩ |
    ⟨r, haction, hclear, hr⟩ | ⟨request, r, hrequest, hget, hr⟩
  · cases hr
  · cases r with
    | error e => simp [Except.map] at hr
    | ok _ =>
      obtain ⟨u, -, rfl⟩ := listed_eq_iff.mp hset
      refine ⟨_, rfl, .write (by simp [Operation.request?, haction]) ?_, ?_⟩
      · simp [Operation.call?, haction, hencode, Except.toOption]
      · simpa [Except.map, Exchange.pending?, Operation.request?, haction] using hr
  · cases r with
    | error e => simp [Except.map] at hr
    | ok _ =>
      obtain ⟨u, -, rfl⟩ := listed_eq_iff.mp hclear
      refine ⟨_, rfl, .write (by simp [Operation.request?, haction]) ?_, ?_⟩
      · simp [Operation.call?, haction]
      · simpa [Except.map, Exchange.pending?, Operation.request?, haction] using hr
  · cases r with
    | error e => simp [Except.map] at hr
    | ok row =>
      obtain ⟨u, -, rfl⟩ := listed_eq_iff.mp hget
      have hne : op.request? ≠ none := by simp [hrequest]
      refine ⟨_, rfl, .ask hne (call?_of_request hne), ?_⟩
      simpa [Except.map, Exchange.pending?, StoreCall.Answer.ofResult, hrequest] using hr

theorem send_traced_error (h : send b.traced op s = (.error e, s')) :
    ∃ last, s'.2 = s.2 ++ last ∧ NotSent op last := by
  rcases send_cases h with ⟨values, v, haction, hencode, _, rfl⟩ |
    ⟨values, data, r, haction, hencode, hset, hr⟩ | ⟨r, haction, hclear, hr⟩ |
    ⟨request, r, hrequest, hget, hr⟩
  · refine ⟨[], (List.append_nil _).symm, .unpackable ?_⟩
    simp [Operation.call?, haction, hencode, Except.toOption]
  · cases r with
    | ok _ => simp [Except.map] at hr
    | error e' =>
      obtain ⟨u, -, rfl⟩ := listed_eq_iff.mp hset
      exact ⟨_, rfl, .raised (by simp [Operation.call?, haction, hencode, Except.toOption])⟩
  · cases r with
    | ok _ => simp [Except.map] at hr
    | error e' =>
      obtain ⟨u, -, rfl⟩ := listed_eq_iff.mp hclear
      exact ⟨_, rfl, .raised (by simp [Operation.call?, haction])⟩
  · cases r with
    | ok _ => simp [Except.map] at hr
    | error e' =>
      obtain ⟨u, -, rfl⟩ := listed_eq_iff.mp hget
      exact ⟨_, rfl, .raised (call?_of_request (by simp [hrequest]))⟩

theorem dispatch_traced_ok (h : dispatch b.traced ops s = (.ok pending, s')) :
    ∃ sent, s'.2 = s.2 ++ sent ∧ List.Forall₂ Sent ops sent ∧ pending = awaited ops sent := by
  induction ops generalizing s pending with
  | nil =>
    cases h
    exact ⟨[], (List.append_nil _).symm, .nil, rfl⟩
  | cons op rest ih =>
    obtain ⟨_, u, others, hsend, hrest, rfl⟩ := dispatch_cons_eq_ok_iff.mp h
    obtain ⟨x, hu, hx, rfl⟩ := send_traced_ok hsend
    obtain ⟨sent, hs', hsent, rfl⟩ := ih hrest
    refine ⟨x :: sent, by simp [hs', hu], .cons hx hsent, ?_⟩
    rw [awaited, awaited, List.zip_cons_cons, List.filterMap_cons]
    cases x.pending? op <;> rfl

theorem outcome_eq_merged_iff {data : Bytes} :
    p.outcome = .ok (.merged data) ↔ p.Merges (.ok data) := by
  obtain ⟨key, request, row⟩ := p
  simp only [Pending.Merges]
  rcases row with e' | _ | stored
  · simp [Pending.outcome, Except.bind]
  · simp [Pending.outcome, Except.bind, settle]
  · cases request with
    | read q slot =>
      have hread : settle (.read q slot) (some stored) ≠ .ok (.merged data) := by
        rw [settle]
        split <;> simp
      simpa [Pending.outcome, Except.bind] using hread
    | update values =>
      cases hdecode : Record.decode stored with
      | error d =>
        simp [Pending.outcome, Except.bind, settle, Record.read, hdecode, Functor.map, Except.map]
      | ok r =>
        cases hr : r.isEmpty
        · cases hmerge : ((r.map Value.text).overlay values).encode <;>
            simp [Pending.outcome, Except.bind, settle, Record.read, hdecode, Functor.map,
              Except.map, Record.select_all, hr, hmerge, eq_comm (a := data)]
        · simp [Pending.outcome, Except.bind, settle, Record.read, hdecode, Functor.map,
            Except.map, Record.select_all, hr]

theorem row_of_outcome_ok {outcome : Outcome} (h : p.outcome = .ok outcome) :
    ∃ row, p.row = .ok row ∧ ∀ data, row = some data → ∃ r, Record.decode data = .ok r := by
  obtain ⟨row, hrow⟩ := row_of_outcome ⟨outcome, h⟩
  refine ⟨row, hrow, ?_⟩
  rintro data rfl
  cases hdecode : Record.decode data with
  | ok r => exact ⟨r, rfl⟩
  | error d =>
    have hfails := outcome_eq_error_iff.mpr (.inr (.inl ⟨data, d, hrow, hdecode, rfl⟩))
    rw [h] at hfails
    cases hfails

theorem not_merges_of_outcome {outcome : Outcome} (h : p.outcome = .ok outcome)
    (hmerged : ∀ data, p.outcome ≠ .ok (.merged data)) (packed : Except Value Bytes) :
    ¬ p.Merges packed := by
  cases packed with
  | ok data => exact fun hm => hmerged data (outcome_eq_merged_iff.mpr hm)
  | error v =>
    rintro ⟨values, data, r, hrequest, hrow, hdecode, hr, hv⟩
    have hfails := outcome_eq_error_iff.mpr
      (.inr (.inr ⟨data, values, r, v, hrow, hrequest, hdecode, hr, hv.symm, rfl⟩))
    rw [h] at hfails
    cases hfails

theorem resolve_traced_ok {status : Status} (h : resolve b.traced p t = (.ok status, t')) :
    ∃ written, t'.1.2 = t.1.2 ++ written ∧ p.Resolved written := by
  rcases resolve_cases h with ⟨_, _, hr, _⟩ | ⟨data, r, u, houtcome, hset, hr, rfl⟩ |
    ⟨⟨outcome, houtcome⟩, hmerged, _, rfl⟩
  · cases hr
  · cases r with
    | error e => simp [Except.map] at hr
    | ok _ =>
      obtain ⟨u', -, rfl⟩ := listed_eq_iff.mp hset
      exact ⟨_, rfl, .merged (outcome_eq_merged_iff.mp houtcome)⟩
  · obtain ⟨row, hrow, hdecode⟩ := row_of_outcome_ok houtcome
    exact ⟨[], (List.append_nil _).symm,
      .plain hrow hdecode (not_merges_of_outcome houtcome hmerged)⟩

theorem resolve_traced_error (h : resolve b.traced p t = (.error e, t')) :
    ∃ last, t'.1.2 = t.1.2 ++ last ∧ p.Unresolved last := by
  rcases resolve_cases h with ⟨e', houtcome, _, rfl⟩ | ⟨data, r, u, houtcome, hset, hr, rfl⟩ |
    ⟨_, _, hr, _⟩
  · refine ⟨[], (List.append_nil _).symm, ?_⟩
    rcases outcome_eq_error_iff.mp houtcome with hrow | ⟨data, d, hrow, hdecode, -⟩ |
      ⟨data, values, r, v, hrow, hrequest, hdecode, hr, hv, -⟩
    · exact .row hrow
    · exact .decode hrow hdecode
    · exact .merge ⟨values, data, r, hrequest, hrow, hdecode, hr, hv.symm⟩
  · cases r with
    | ok _ => simp [Except.map] at hr
    | error e' =>
      obtain ⟨u', -, rfl⟩ := listed_eq_iff.mp hset
      exact ⟨_, rfl, .write (outcome_eq_merged_iff.mp houtcome)⟩
  · cases hr

theorem resolveAll_traced_ok {statuses : List Status}
    (h : resolveAll b.traced pending t = (.ok statuses, t')) :
    ∃ written, t'.1.2 = t.1.2 ++ written.flatten ∧
      List.Forall₂ Pending.Resolved pending written := by
  induction pending generalizing t statuses with
  | nil =>
    cases h
    exact ⟨[], (List.append_nil _).symm, .nil⟩
  | cons p rest ih =>
    obtain ⟨_, u, others, hp, hrest, rfl⟩ := resolveAll_cons_eq_ok_iff.mp h
    obtain ⟨log, hu, hlog⟩ := resolve_traced_ok hp
    obtain ⟨written, ht', hwritten⟩ := ih hrest
    exact ⟨log :: written, by rw [ht', hu, List.append_assoc, List.flatten_cons],
      .cons hlog hwritten⟩

theorem body_traced_error {s₁ : σ} {begun : Exchange} {f : Footprint}
    (h : body b.traced ops ((s₁, [begun]), f) = (.error e, t')) :
    ∃ log, t'.1.2 = begun :: log ∧
      ((∃ before op rest sent last, ops = before ++ op :: rest ∧ List.Forall₂ Sent before sent ∧
        NotSent op last ∧ log = sent ++ last) ∨
      ∃ before p rest sent written last, List.Forall₂ Sent ops sent ∧
        awaited ops sent = before ++ p :: rest ∧ List.Forall₂ Pending.Resolved before written ∧
        p.Unresolved last ∧ log = sent ++ (written.flatten ++ last)) := by
  rcases body_eq_error_iff.mp h with ⟨s₂, hdispatch, rfl⟩ | ⟨pending, s₂, hdispatch, hresolve⟩
  · obtain ⟨before, op, rest, _, u, rfl, hbefore, hop⟩ := dispatch_isLoop.eq_error_iff.mp hdispatch
    obtain ⟨sent, hu, hsent, -⟩ := dispatch_traced_ok hbefore
    obtain ⟨last, hs₂, hlast⟩ := send_traced_error hop
    exact ⟨sent ++ last, by rw [hs₂, hu, List.append_assoc, List.singleton_append],
      .inl ⟨before, op, rest, sent, last, rfl, hsent, hlast, rfl⟩⟩
  · obtain ⟨sent, hs₂, hsent, rfl⟩ := dispatch_traced_ok hdispatch
    obtain ⟨before, p, rest, _, u, hpending, hbefore, hp⟩ :=
      resolveAll_isLoop.eq_error_iff.mp hresolve
    obtain ⟨written, hu, hwritten⟩ := resolveAll_traced_ok hbefore
    obtain ⟨last, ht', hlast⟩ := resolve_traced_error hp
    exact ⟨sent ++ (written.flatten ++ last), by simp [ht', hu, hs₂],
      .inr ⟨before, p, rest, sent, written, last, hsent, hpending, hwritten, hlast, rfl⟩⟩

theorem body_traced_ok {s₁ : σ} {begun : Exchange} {f : Footprint} {status : Status}
    (h : body b.traced ops ((s₁, [begun]), f) = (.ok status, t')) :
    ∃ sent written, t'.1.2 = begun :: (sent ++ written.flatten) ∧ List.Forall₂ Sent ops sent ∧
      List.Forall₂ Pending.Resolved (awaited ops sent) written := by
  obtain ⟨pending, s₂, statuses, u, hdispatch, hresolve, -, rfl⟩ := body_eq_ok_iff.mp h
  obtain ⟨sent, hs₂, hsent, rfl⟩ := dispatch_traced_ok hdispatch
  obtain ⟨written, hu, hwritten⟩ := resolveAll_traced_ok hresolve
  exact ⟨sent, written, by simp [hu, hs₂], hsent, hwritten⟩

end Traced

section Rounds

variable {op : Operation} {ops : List Operation} {x : Exchange} {sent last log : List Exchange}
  {p : Pending} {pending : List Pending} {written : List (List Exchange)}

theorem Sent.call_eq (h : Sent op x) : op.call? = some x.call := by
  cases h <;> assumption

theorem map_call_of_sent (h : List.Forall₂ Sent ops sent) :
    sent.map (·.call) = ops.filterMap Operation.call? := by
  induction h with
  | nil => rfl
  | cons hx _ ih => rw [List.map_cons, List.filterMap_cons, hx.call_eq, ih]

theorem NotSent.call_eq (h : NotSent op last) : last.map (·.call) = op.call?.toList := by
  cases h with
  | unpackable hnone => simp [hnone]
  | raised hsome => simp [hsome]

def IsSet (call : StoreCall) : Prop := ∃ key data, call = .set key data

theorem Pending.Resolved.isSet (h : p.Resolved log) : ∀ x ∈ log, IsSet x.call := by
  cases h with
  | plain => exact List.forall_mem_nil _
  | merged => simp [IsSet]

theorem Pending.Unresolved.isSet (h : p.Unresolved last) : ∀ x ∈ last, IsSet x.call := by
  cases h with
  | row | decode | merge => exact List.forall_mem_nil _
  | write => simp [IsSet]

theorem isSet_of_resolved (h : List.Forall₂ Pending.Resolved pending written) :
    ∀ x ∈ written.flatten, IsSet x.call := by
  induction h with
  | nil => exact List.forall_mem_nil _
  | cons hp _ ih =>
    intro x hx
    rcases List.mem_append.mp hx with hx | hx
    · exact hp.isSet x hx
    · exact ih x hx

/-- The calls of the first round come first: those of the operations in order, up to some point.
Whatever comes later is a merged record or the commit. -/
theorem Calls.rounds (h : Calls ops log) : ∃ n later,
    log.map (·.call) = .begin true :: ((ops.take n).filterMap Operation.call? ++ later) ∧
      (∀ call ∈ later, IsSet call ∨ call = .commit) ∧ (later ≠ [] → n = ops.length) := by
  cases h with
  | notBegun e => exact ⟨0, [], by simp⟩
  | @notSent before rest op sent last hops hsent hlast =>
    have htake : ops.take (before.length + 1) = before ++ [op] := by
      rw [hops, List.append_cons]
      exact List.take_left' (by simp)
    refine ⟨before.length + 1, [], ?_, List.forall_mem_nil _, fun hne => (hne rfl).elim⟩
    rw [htake, List.map_cons, List.map_append, map_call_of_sent hsent, hlast.call_eq]
    cases hcall : op.call? <;> simp [hcall]
  | @unresolved before rest p sent last written hsent hpending hwritten hlast =>
    refine ⟨ops.length, (written.flatten ++ last).map (·.call), ?_, ?_, fun _ => rfl⟩
    · rw [List.take_length, List.map_cons, List.map_append, map_call_of_sent hsent]
    · simp only [List.mem_map, List.mem_append]
      rintro _ ⟨x, hx | hx, rfl⟩
      · exact .inl (isSet_of_resolved hwritten x hx)
      · exact .inl (hlast.isSet x hx)
  | @committed sent written answer hsent hwritten _ =>
    refine ⟨ops.length, written.flatten.map (·.call) ++ [.commit], ?_, ?_, fun _ => rfl⟩
    · rw [List.take_length, List.map_cons, List.map_append, map_call_of_sent hsent,
        List.map_append]
      rfl
    · simp only [List.mem_map, List.mem_append, List.mem_singleton]
      rintro _ (⟨x, hx, rfl⟩ | rfl)
      · exact .inl (isSet_of_resolved hwritten x hx)
      · exact .inr rfl

/-- Only a fault that a call raises and fields that cannot be packed keep an operation from being
sent, not a fault that is awaited. -/
theorem Calls.all_sent (h : Calls ops log)
    (hraised : ∀ x ∈ log.take (ops.length + 1), ∀ e, x.answer ≠ .raised e)
    (hops : ∀ op ∈ ops, op.call? ≠ none) :
    .begin true :: ops.filterMap Operation.call? <+: log.map (·.call) := by
  cases h with
  | notBegun e => exact (hraised _ List.mem_cons_self e rfl).elim
  | @notSent before rest op sent last hcut hsent hlast =>
    cases hlast with
    | unpackable hnone => exact (hops op (by simp [hcut]) hnone).elim
    | @raised call e =>
      have hlength : (sent ++ [(⟨call, .raised e⟩ : Exchange)]).length ≤ ops.length := by
        simp [hcut, hsent.length_eq]
      rw [List.take_succ_cons, List.take_of_length_le hlength] at hraised
      exact (hraised ⟨call, .raised e⟩ (by simp) e rfl).elim
  | unresolved hsent =>
    rw [← map_call_of_sent hsent, List.map_cons, List.map_append]
    exact List.prefix_cons_iff.mpr (.inr ⟨_, rfl, List.prefix_append ..⟩)
  | committed hsent =>
    rw [← map_call_of_sent hsent, List.map_cons, List.map_append]
    exact List.prefix_cons_iff.mpr (.inr ⟨_, rfl, List.prefix_append ..⟩)

theorem call?_ne_commit (op : Operation) : op.call? ≠ some .commit := by
  unfold Operation.call?
  split <;> simp

theorem commit_notMem_sent (h : List.Forall₂ Sent ops sent) : .commit ∉ sent.map (·.call) := by
  rw [map_call_of_sent h, List.mem_filterMap]
  rintro ⟨op, -, hcall⟩
  exact call?_ne_commit op hcall

theorem NotSent.commit_notMem (h : NotSent op last) : .commit ∉ last.map (·.call) := by
  rw [h.call_eq, Option.mem_toList]
  exact call?_ne_commit op

theorem commit_notMem_of_isSet (h : ∀ x ∈ log, IsSet x.call) : .commit ∉ log.map (·.call) := by
  rw [List.mem_map]
  rintro ⟨x, hx, hcall⟩
  obtain ⟨key, data, hset⟩ := h x hx
  cases hcall.symm.trans hset

end Rounds

section Untraced

open Attempt

variable {σ : Type} {b : Backend σ} {ops : List Operation}

def Forgets (s : σ) (t : σ × List Exchange) : Prop := t.1 = s

theorem listed_matches {α : Type} (call : StoreCall) (answer : α → StoreCall.Answer)
    (m : Attempt σ α) : Matches Forgets Eq Eq m (Backend.listed call answer m) := by
  rintro _ ⟨s, log⟩ rfl
  refine ⟨?_, rfl⟩
  simp only [Backend.listed]
  cases (m s).1 with
  | ok a => exact .ok rfl
  | error e => exact .error rfl

theorem traced_endsAlike (b : Backend σ) : b.EndsAlike Forgets Eq b.traced where
  begin _ := listed_matches _ _ _
  commit := listed_matches _ _ _
  abandon := by
    rintro e _ _ ⟨s, log⟩ rfl rfl
    exact ⟨rfl, rfl⟩

theorem send_untraced (op : Operation) :
    Matches Forgets Eq (Option.Rel Eq) (send b op) (send b.traced op) := by
  unfold send
  dsimp only
  split
  · split
    · exact matches_fail rfl
    · exact (listed_matches _ _ _).answer fun _ _ _ => .none
  · exact (listed_matches _ _ _).answer fun _ _ _ => .none
  · exact (listed_matches _ _ _).answer fun _ _ h => .some (by rw [h])
  · exact (listed_matches _ _ _).answer fun _ _ h => .some (by rw [h])

theorem resolve_untraced (p : Pending) :
    Matches (Pairs Forgets Eq) Eq Eq (resolve b p) (resolve b.traced p) := by
  refine (matches_ofExcept (alike_refl Eq.refl p.outcome)).bind fun outcome _ h => ?_
  subst h
  cases outcome with
  | incomplete => exact matches_pure rfl
  | missing =>
    exact (matches_changeSecond fun _ _ h => by rw [h]).answer fun _ _ _ => rfl
  | found r slot =>
    exact (matches_changeSecond fun _ _ h => by rw [h]).answer fun _ _ _ => rfl
  | merged data => exact (listed_matches _ _ _).onFirst.answer fun _ _ _ => rfl

theorem body_untraced (b : Backend σ) (ops : List Operation) :
    Matches (Pairs Forgets Eq) Eq Eq (body b ops) (body b.traced ops) := by
  refine body_matches (O := Eq) (P := Eq) ?_ ?_ ?_ ?_
  · rintro op _ rfl
    exact send_untraced op
  · rintro p _ rfl
    exact resolve_untraced p
  · rintro statuses f _ rfl
    rfl
  · exact List.forall₂_refl ops

theorem execute_untraced (b : Backend σ) (ops : List Operation) (s : σ) (log : List Exchange)
    (f : Footprint) :
    (execute b ops (s, f)).1 = (execute b.traced ops ((s, log), f)).1 ∧
      Pairs Forgets Eq (execute b ops (s, f)).2 (execute b.traced ops ((s, log), f)).2 := by
  refine execute_matches (traced_endsAlike b) (body_untraced b ops) rfl ?_ ?_ ⟨rfl, rfl⟩
  · rintro e _ f _ rfl rfl
    rfl
  · rintro status size f _ rfl
    rfl

theorem body_answer_of_traced {s₁ : σ} {log : List Exchange} {f : Footprint}
    {r : Except Fault Status} {u : (σ × List Exchange) × Footprint}
    (h : body b.traced ops ((s₁, log), f) = (r, u)) : (body b ops (s₁, f)).1 = r := by
  obtain ⟨hanswer, -⟩ := body_untraced b ops (s₁, f) ((s₁, log), f) ⟨rfl, rfl⟩
  rw [h] at hanswer
  cases hr : (body b ops (s₁, f)).1 <;> rw [hr] at hanswer <;> cases hanswer <;> subst_vars <;> rfl

end Untraced

section Run

variable {σ : Type} {b : Backend σ} {ops : List Operation} {s : σ} {f : Footprint}

def GetsToCommit (b : Backend σ) (ops : List Operation) (s : σ) (f : Footprint) : Prop :=
  ∃ s₁ status u, b.begin true s = (.ok (), s₁) ∧ body b ops (s₁, f) = (.ok status, u)

theorem not_getsToCommit_of_body {s₁ : σ} {log : List Exchange} {e : Fault}
    {u : (σ × List Exchange) × Footprint} (hbegin : b.begin true s = (.ok (), s₁))
    (hbody : body b.traced ops ((s₁, log), f) = (.error e, u)) : ¬ GetsToCommit b ops s f := by
  rintro ⟨s₂, status, v, hbegin', hbody'⟩
  rw [hbegin] at hbegin'
  cases hbegin'
  have hanswer := body_answer_of_traced hbody
  rw [hbody'] at hanswer
  cases hanswer

theorem getsToCommit_of_body {s₁ : σ} {log : List Exchange} {status : Status}
    {u : (σ × List Exchange) × Footprint} (hbegin : b.begin true s = (.ok (), s₁))
    (hbody : body b.traced ops ((s₁, log), f) = (.ok status, u)) : GetsToCommit b ops s f :=
  ⟨s₁, status, _, hbegin, Prod.ext (body_answer_of_traced hbody) rfl⟩

theorem begin_of_traced {r : Except Fault Unit} {s' : σ × List Exchange}
    (h : b.traced.begin true (s, []) = (r, s')) : ∃ u, b.begin true s = (r, u) ∧
      s' = (u, [⟨.begin true, .ofResult (fun _ => .done) r⟩]) :=
  listed_eq_iff.mp h

theorem log_of_commit {r : Except Fault Unit} {t t' : σ × List Exchange}
    (h : b.traced.commit t = (r, t')) :
    t'.2 = t.2 ++ [⟨.commit, .ofResult (fun _ => .done) r⟩] := by
  obtain ⟨_, -, rfl⟩ := listed_eq_iff.mp h
  rfl

theorem calls_of_commit {s₁ : σ} {status : Status} {u : (σ × List Exchange) × Footprint}
    {r : Except Fault Unit} {v : σ × List Exchange} (hbegin : b.begin true s = (.ok (), s₁))
    (hbody : body b.traced ops ((s₁, [⟨.begin true, .done⟩]), f) = (.ok status, u))
    (hcommit : b.traced.commit u.1 = (r, v)) :
    Calls ops v.2 ∧ (.commit ∈ v.2.map (·.call) ↔ GetsToCommit b ops s f) := by
  obtain ⟨sent, written, hu, hsent, hwritten⟩ := body_traced_ok hbody
  have hanswer : StoreCall.Answer.ofResult (fun _ : Unit => .done) r = .done ∨
      ∃ e, StoreCall.Answer.ofResult (fun _ : Unit => .done) r = .raised e := by
    cases r with
    | ok _ => exact .inl rfl
    | error e => exact .inr ⟨e, rfl⟩
  rw [log_of_commit hcommit, hu, List.cons_append, List.append_assoc]
  exact ⟨.committed hsent hwritten hanswer, fun _ => getsToCommit_of_body hbegin hbody,
    fun _ => by simp⟩

theorem calls_of_body_error {s₁ : σ} {e : Fault} {u : (σ × List Exchange) × Footprint}
    (hbegin : b.begin true s = (.ok (), s₁))
    (hbody : body b.traced ops ((s₁, [⟨.begin true, .done⟩]), f) = (.error e, u)) :
    Calls ops u.1.2 ∧ (.commit ∈ u.1.2.map (·.call) ↔ GetsToCommit b ops s f) := by
  have hnot := not_getsToCommit_of_body hbegin hbody
  obtain ⟨log, hu, ⟨before, op, rest, sent, last, hops, hsent, hlast, rfl⟩ |
    ⟨before, p, rest, sent, written, last, hsent, hpending, hwritten, hlast, rfl⟩⟩ :=
    body_traced_error hbody
  · rw [hu]
    refine ⟨.notSent hops hsent hlast, fun hmem => ?_, fun hgoes => (hnot hgoes).elim⟩
    simp only [List.map_cons, List.map_append, List.mem_cons, List.mem_append, reduceCtorEq,
      commit_notMem_sent hsent, hlast.commit_notMem, or_self] at hmem
  · rw [hu]
    refine ⟨.unresolved hsent hpending hwritten hlast, fun hmem => ?_,
      fun hgoes => (hnot hgoes).elim⟩
    simp only [List.map_cons, List.map_append, List.mem_cons, List.mem_append, reduceCtorEq,
      commit_notMem_sent hsent, commit_notMem_of_isSet (isSet_of_resolved hwritten),
      commit_notMem_of_isSet hlast.isSet, or_self] at hmem

/-- However a batch ends, its calls are those that the answers lead to, and the commit is among them
just if the batch gets there. -/
theorem calls_of_run {r : Except Fault Status} {t' : (σ × List Exchange) × Footprint}
    (h : (b.traced.beside Footprint).run (body b.traced ops) ((s, []), f) = (r, t')) :
    Calls ops t'.1.2 ∧ (.commit ∈ t'.1.2.map (·.call) ↔ GetsToCommit b ops s f) := by
  cases r with
  | ok status =>
    obtain ⟨s₁, u, s₂, hbegin, hbody, hcommit, rfl⟩ := run_eq_ok_iff.mp h
    obtain ⟨s₁, hbegun, rfl⟩ := begin_of_traced hbegin
    exact calls_of_commit hbegun hbody hcommit
  | error e =>
    rcases run_eq_error_iff.mp h with ⟨s₁, hbegin, rfl⟩ | ⟨s₁, e₀, u, hbegin, hbody, -, rfl⟩ |
      ⟨s₁, status, u, s₂, hbegin, hbody, hcommit, rfl⟩
    · obtain ⟨s₁, hbegun, rfl⟩ := begin_of_traced hbegin
      refine ⟨.notBegun e, by simp, ?_⟩
      rintro ⟨_, _, _, hbegin', -⟩
      cases hbegun.symm.trans hbegin'
    · obtain ⟨s₁, hbegun, rfl⟩ := begin_of_traced hbegin
      -- Abandoning the transaction is no call.
      exact calls_of_body_error (u := u) hbegun hbody
    · obtain ⟨s₁, hbegun, rfl⟩ := begin_of_traced hbegin
      exact calls_of_commit hbegun hbody hcommit

/-- The calls of a batch that is not empty, on any backend. Listing them changes nothing, and they
follow from the answers. All that comes after the calls of the operations is merged records and the
commit, and the commit comes just if no fault is raised. No call is left out for a fault that is
only awaited. -/
theorem execute_calls (b : Backend σ) (hops : ops ≠ []) (s : σ) (f : Footprint) :
    let after := execute b.traced ops ((s, []), f)
    let log := after.2.1.2
    (after.1, after.2.1.1, after.2.2) = execute b ops (s, f) ∧
    Calls ops log ∧
    (.commit ∈ log.map (·.call) ↔ GetsToCommit b ops s f) ∧
    (∃ n later,
      log.map (·.call) = .begin true :: ((ops.take n).filterMap Operation.call? ++ later) ∧
      (∀ call ∈ later, IsSet call ∨ call = .commit) ∧ (later ≠ [] → n = ops.length)) ∧
    ((∀ x ∈ log.take (ops.length + 1), ∀ e, x.answer ≠ .raised e) →
      (∀ op ∈ ops, op.call? ≠ none) →
      .begin true :: ops.filterMap Operation.call? <+: log.map (·.call)) := by
  intro after log
  have hlog : ∃ r t', (b.traced.beside Footprint).run (body b.traced ops) ((s, []), f) = (r, t') ∧
      log = t'.1.2 := by
    rcases hrun : (b.traced.beside Footprint).run (body b.traced ops) ((s, []), f) with
      ⟨e | status, t'⟩
    · exact ⟨_, t', rfl, by simp only [log, after, execute_of_run_error hops hrun]⟩
    · exact ⟨_, t', rfl, by simp only [log, after, execute_of_run_ok hops hrun]⟩
  obtain ⟨r, t', hrun, hlog⟩ := hlog
  obtain ⟨hcalls, hcommit⟩ := calls_of_run hrun
  rw [← hlog] at hcalls hcommit
  obtain ⟨hstatus, hstate, hfootprint⟩ := execute_untraced b ops s [] f
  exact ⟨Prod.ext hstatus.symm (Prod.ext hstate hfootprint.symm), hcalls, hcommit, hcalls.rounds,
    hcalls.all_sent⟩

/-- An update is merged and committed, unless the row of the read before it is awaited in vain. -/
theorem execute_calls_of_merge_and_failing_get :
    let values : Fields Value := .ofList [("g", .text "2")]
    let found := { Recorder.empty with
      rows := .insert .empty (Key.pack "b") (Record.encode (.ofList [("f", "1")])) }
    let failing := { found with getFaults := .insert .empty (Key.pack "a") .getFailed }
    let ops : List Operation :=
      [⟨"t", "a", .read .all none⟩, ⟨"t", "b", .update values⟩, ⟨"t", "c", .delete⟩]
    let log (r : Recorder) := (execute Recorder.backend.traced ops ((r, []), .empty)).2.1.2
    let round : List StoreCall :=
      [.begin true, .get (Key.pack "a"), .get (Key.pack "b"), .clear (Key.pack "c")]
    ops ≠ [] ∧
      (Calls ops (log found) ∧ GetsToCommit Recorder.backend ops found .empty ∧
        (log found).map (·.call) = round ++
          [.set (Key.pack "b") (Record.encode (.ofList [("f", "1"), ("g", "2")])), .commit]) ∧
      Calls ops (log failing) ∧ ¬ GetsToCommit Recorder.backend ops failing .empty ∧
        (log failing).map (·.call) = round := by
  intro values found failing ops log round
  have hops : ops ≠ [] := List.cons_ne_nil _ _
  obtain ⟨-, hfound, hcommit, -⟩ := execute_calls Recorder.backend hops found .empty
  obtain ⟨-, hfailing, hcommit', -⟩ := execute_calls Recorder.backend hops failing .empty
  have hlog : (log found).map (·.call) = round ++
      [.set (Key.pack "b") (Record.encode (.ofList [("f", "1"), ("g", "2")])), .commit] := by
    decide +kernel
  have hlog' : (log failing).map (·.call) = round := by decide +kernel
  refine ⟨hops, ⟨hfound, hcommit.mp ?_, hlog⟩, hfailing, ?_, hlog'⟩
  · exact hlog ▸ by simp
  · rw [← hcommit', hlog']
    decide +kernel

end Run

end Batch
end RecordStore
