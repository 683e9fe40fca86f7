import RecordStore.Proofs.Loops
import RecordStore.Proofs.Transactional

/-! # Runs of a batch

What sending and resolving a batch comes to on a transactional backend. If both passes go through,
the transaction's rows are those that the batch makes, and the requests met the rows that it finds.
-/

namespace RecordStore

theorem Attempt.onFirst_eq_iff {σ ω α : Type} {m : Attempt σ α} {s t : σ × ω} {r : Except Fault α} :
    m.onFirst s = (r, t) ↔ ∃ s', m s.1 = (r, s') ∧ t = (s', s.2) := by
  unfold Attempt.onFirst
  simp only [Prod.mk.injEq]
  constructor
  · rintro ⟨rfl, rfl⟩
    exact ⟨_, rfl, rfl⟩
  · rintro ⟨s', h, rfl⟩
    rw [h]
    exact ⟨rfl, rfl⟩

namespace Backend

variable {σ ω α : Type} {b : Backend σ} {m : Attempt σ α} {s s' : σ} {a : α} {e : Fault}

theorem begin_beside (b : Backend σ) (readYourWrites : Bool) :
    (b.beside ω).begin readYourWrites = (b.begin readYourWrites).onFirst := rfl

theorem commit_beside (b : Backend σ) : (b.beside ω).commit = b.commit.onFirst := rfl

theorem abandon_beside (b : Backend σ) (e : Fault) (s : σ × ω) :
    (b.beside ω).abandon e s = ((b.abandon e s.1).1, (b.abandon e s.1).2, s.2) := rfl

theorem guard_eq_ok_iff : b.guard m s = (.ok a, s') ↔ m s = (.ok a, s') := by
  rw [guard]
  rcases m s with ⟨_ | _, u⟩ <;> simp

theorem guard_eq_error_iff :
    b.guard m s = (.error e, s') ↔ ∃ e₀ u, m s = (.error e₀, u) ∧ b.abandon e₀ u = (e, s') := by
  rw [guard]
  rcases m s with ⟨e₀ | _, u⟩
  · constructor
    · intro h
      exact ⟨e₀, u, rfl, by cases h; rfl⟩
    · rintro ⟨_, _, ⟨⟩, habandon⟩
      simp only [habandon]
  · simp

theorem run_eq_ok_iff : b.run m s = (.ok a, s') ↔
    ∃ s₁ s₂, b.begin true s = (.ok (), s₁) ∧ m s₁ = (.ok a, s₂) ∧ b.commit s₂ = (.ok (), s') := by
  simp only [run, Attempt.bind_eq_ok_iff, guard_eq_ok_iff, Attempt.pure_eq, Prod.mk.injEq,
    Except.ok.injEq]
  constructor
  · rintro ⟨_, s₁, hbegin, _, s₂, hbody, _, _, hcommit, rfl, rfl⟩
    exact ⟨s₁, s₂, hbegin, hbody, hcommit⟩
  · rintro ⟨s₁, s₂, hbegin, hbody, hcommit⟩
    exact ⟨(), s₁, hbegin, a, s₂, hbody, (), s', hcommit, rfl, rfl⟩

/-- The three places where a transaction fails: its begin, its body, or its commit. -/
theorem run_eq_error_iff : b.run m s = (.error e, s') ↔
    b.begin true s = (.error e, s') ∨
      (∃ s₁ e₀ u, b.begin true s = (.ok (), s₁) ∧ m s₁ = (.error e₀, u) ∧
        b.abandon e₀ u = (e, s')) ∨
      ∃ s₁ a s₂, b.begin true s = (.ok (), s₁) ∧ m s₁ = (.ok a, s₂) ∧
        b.commit s₂ = (.error e, s') := by
  simp only [run, Attempt.bind_eq_error_iff, guard_eq_ok_iff, guard_eq_error_iff, Attempt.pure_eq,
    Prod.mk.injEq, reduceCtorEq, false_and, and_false, exists_false, or_false]
  constructor
  · rintro (hbegin | ⟨_, s₁, hbegin, ⟨e₀, u, hbody, habandon⟩ | ⟨a, s₂, hbody, hcommit⟩⟩)
    · exact .inl hbegin
    · exact .inr (.inl ⟨s₁, e₀, u, hbegin, hbody, habandon⟩)
    · exact .inr (.inr ⟨s₁, a, s₂, hbegin, hbody, hcommit⟩)
  · rintro (hbegin | ⟨s₁, e₀, u, hbegin, hbody, habandon⟩ | ⟨s₁, a, s₂, hbegin, hbody, hcommit⟩)
    · exact .inl hbegin
    · exact .inr ⟨(), s₁, hbegin, .inl ⟨e₀, u, hbody, habandon⟩⟩
    · exact .inr ⟨(), s₁, hbegin, .inr ⟨a, s₂, hbody, hcommit⟩⟩

/-- A transaction runs on as long as its calls and its end keep the condition. -/
theorem run_keeps {Q : σ → Prop} (hbegin : (b.begin true).Keeps Q) (hcommit : b.commit.Keeps Q)
    (habandon : ∀ e s, Q s → Q (b.abandon e s).2)
    (hm : ∀ s₁, b.begin true s = (.ok (), s₁) → Q s₁ → Q (m s₁).2) (hs : Q s) :
    Q (b.run m s).2 := by
  have hbody : ∀ {s₁ r s₂}, b.begin true s = (.ok (), s₁) → m s₁ = (r, s₂) → Q s₂ := by
    intro s₁ r s₂ hs₁ hs₂
    have hQ := hbegin s hs
    rw [hs₁] at hQ
    have hQ' := hm s₁ hs₁ hQ
    rwa [hs₂] at hQ'
  rcases hrun : b.run m s with ⟨e | a, s'⟩
  · rcases run_eq_error_iff.mp hrun with hfails | ⟨s₁, e₀, u, hs₁, hu, hs'⟩ |
      ⟨s₁, a, u, hs₁, hu, hs'⟩
    · have hQ := hbegin s hs
      rwa [hfails] at hQ
    · have hQ := habandon e₀ u (hbody hs₁ hu)
      rwa [hs'] at hQ
    · have hQ := hcommit u (hbody hs₁ hu)
      rwa [hs'] at hQ
  · obtain ⟨s₁, u, hs₁, hu, hs'⟩ := run_eq_ok_iff.mp hrun
    have hQ := hcommit u (hbody hs₁ hu)
    rwa [hs'] at hQ

end Backend

namespace Footprint

def errors (f : Footprint) : List Event := f.events.filter (·.level = .error)

theorem errors_report_of_ne {e : Event} (h : e.level ≠ .error) (f : Footprint) :
    (f.report e).errors = f.errors := by
  simp [errors, report, h]

theorem slot_fill (f : Footprint) (name other : String) (r : Record) :
    (f.fill name r).slot other =
      if other = name then (f.slot name).overlay r else f.slot other := by
  simp only [fill, slot, Fields.get?_put]
  split <;> rfl

theorem errors_report_of_eq {e : Event} (h : e.level = .error) (f : Footprint) :
    (f.report e).errors = f.errors ++ [e] := by
  simp [errors, report, h]

end Footprint

namespace Batch

variable {σ : Type} {b : Backend σ} {P : σ → Prop} {s s' : σ} {op : Operation}
  {ops : List Operation}

theorem send_cases {r : Except Fault (Option Pending)} (h : send b op s = (r, s')) :
    (∃ values v, op.action = .insert values ∧ values.encode = .error v ∧
      r = .error (.unpackable v) ∧ s' = s) ∨
    (∃ values data r', op.action = .insert values ∧ values.encode = .ok data ∧
      b.set (Key.pack op.key) data s = (r', s') ∧ r = r'.map fun _ => none) ∨
    (∃ r', op.action = .delete ∧ b.clear (Key.pack op.key) s = (r', s') ∧
      r = r'.map fun _ => none) ∨
    (∃ request r', op.request? = some request ∧ b.get (Key.pack op.key) s = (r', s') ∧
      r = r'.map fun row => some ⟨op.key, request, row⟩) := by
  cases haction : op.action with
  | insert values =>
    simp only [send, haction] at h
    cases hencode : values.encode with
    | error v =>
      simp only [hencode] at h
      cases h
      exact .inl ⟨values, v, rfl, hencode, rfl, rfl⟩
    | ok data =>
      simp only [hencode, Attempt.bind_pure_apply, Prod.mk.injEq] at h
      obtain ⟨rfl, rfl⟩ := h
      exact .inr (.inl ⟨values, data, _, rfl, hencode, rfl, rfl⟩)
  | delete =>
    simp only [send, haction, Attempt.bind_pure_apply, Prod.mk.injEq] at h
    obtain ⟨rfl, rfl⟩ := h
    exact .inr (.inr (.inl ⟨_, rfl, rfl, rfl⟩))
  | read p slot =>
    simp only [send, haction, Attempt.bind_pure_apply, Prod.mk.injEq] at h
    obtain ⟨rfl, rfl⟩ := h
    exact .inr (.inr (.inr ⟨.read p slot, _, by simp [Operation.request?, haction], rfl, rfl⟩))
  | update values =>
    simp only [send, haction, Attempt.bind_pure_apply, Prod.mk.injEq] at h
    obtain ⟨rfl, rfl⟩ := h
    exact .inr (.inr (.inr ⟨.update values, _, by simp [Operation.request?, haction], rfl, rfl⟩))

theorem send_keeps (hb : b.Keeps P) {r : Except Fault (Option Pending)}
    (h : send b op s = (r, s')) (hP : P s) : P s' := by
  rcases send_cases h with ⟨_, _, _, _, _, rfl⟩ | ⟨_, _, _, _, _, hset, _⟩ | ⟨_, _, hclear, _⟩ |
    ⟨_, _, _, hget, _⟩
  · exact hP
  · exact hb.set hset hP
  · exact hb.clear hclear hP
  · exact hb.get hget hP

theorem dispatch_isLoop :
    Attempt.IsLoop (send b) (fun sent others => sent.toList ++ others) (dispatch b) :=
  ⟨⟨[], rfl⟩, fun _ _ => rfl⟩

theorem dispatch_cons_eq_ok_iff {rest : List Operation} {pending : List Pending} :
    dispatch b (op :: rest) s = (.ok pending, s') ↔
      ∃ sent t others, send b op s = (.ok sent, t) ∧ dispatch b rest t = (.ok others, s') ∧
        pending = sent.toList ++ others :=
  dispatch_isLoop.cons_eq_ok_iff

theorem dispatch_keeps (hb : b.Keeps P) {r : Except Fault (List Pending)}
    (h : dispatch b ops s = (r, s')) (hP : P s) : P s' :=
  dispatch_isLoop.preserves (send_keeps hb) h hP

theorem send_ok (T : b.Transactional) (hs : T.Running s) {sent : Option Pending}
    (h : send b op s = (.ok sent, s')) :
    T.rows s' = leave (T.rows s) op ∧ ∃ row,
      sent = (op.request?.map fun request => ⟨op.key, request, row⟩) ∧
        ∀ v, row = .ok v → v = T.rows s (Key.pack op.key) := by
  rcases send_cases h with ⟨values, v, _, _, hr, _⟩ | ⟨values, data, r, haction, hencode, hset, hr⟩ |
    ⟨r, haction, hclear, hr⟩ | ⟨request, r, hrequest, hget, hr⟩
  · simp at hr
  · cases r with
    | error e => simp [Except.map] at hr
    | ok _ =>
      obtain rfl : sent = none := by simpa [Except.map] using hr
      refine ⟨?_, .ok (T.rows s (Key.pack op.key)), ?_, fun v hv => (Except.ok.inj hv).symm⟩
      · simp only [T.set_rows hset, leave, haction, hencode, Except.toOption]
      · simp [Operation.request?, haction]
  · cases r with
    | error e => simp [Except.map] at hr
    | ok _ =>
      obtain rfl : sent = none := by simpa [Except.map] using hr
      refine ⟨?_, .ok (T.rows s (Key.pack op.key)), ?_, fun v hv => (Except.ok.inj hv).symm⟩
      · simp only [T.clear_rows hclear, leave, haction]
      · simp [Operation.request?, haction]
  · cases r with
    | error e => simp [Except.map] at hr
    | ok row =>
      obtain rfl : sent = some ⟨op.key, request, row⟩ := by simpa [Except.map] using hr
      refine ⟨?_, row, by simp [hrequest], ?_⟩
      · rw [T.get_rows hget, leave_of_request hrequest]
      · rintro v rfl
        exact T.get_value hs hget

/-- Once a batch is sent, the rows are as its inserts and deletes leave them, and requests that were
answered were answered with the rows that the batch finds. -/
theorem dispatch_ok (T : b.Transactional) (hs : T.Running s) {pending : List Pending}
    (h : dispatch b ops s = (.ok pending, s')) :
    T.rows s' = leaveAll (T.rows s) ops ∧
      ((∀ p ∈ pending, ∃ v, p.row = .ok v) → pending = ask (T.rows s) ops) := by
  induction ops generalizing s pending with
  | nil =>
    cases h
    exact ⟨rfl, fun _ => rfl⟩
  | cons op rest ih =>
    obtain ⟨sent, t, others, hsend, hrest, rfl⟩ := dispatch_cons_eq_ok_iff.mp h
    obtain ⟨hrows, row, rfl, hrow⟩ := send_ok T hs hsend
    obtain ⟨hrows', hothers⟩ := ih (send_keeps T.keeps_running hsend hs) hrest
    refine ⟨by rw [hrows', hrows, leaveAll_cons], fun hok => ?_⟩
    rw [ask, hothers fun p hp => hok p (List.mem_append_right _ hp), hrows]
    congr 1
    cases hrequest : op.request? with
    | none => rfl
    | some request =>
      obtain ⟨v, hv⟩ : ∃ v, row = .ok v := hok ⟨op.key, request, row⟩ (by simp [hrequest])
      rw [Option.map_some, Option.map_some, hv, hrow v hv]

def Pending.status (p : Pending) : Status :=
  match p.outcome with
  | .ok (.found ..) | .ok (.merged _) => .ok
  | _ => .notFound

/-- What a request leaves behind besides rows: a full slot, or a report that its key is missing. -/
def Pending.trace (f : Footprint) (p : Pending) : Footprint :=
  match p.outcome with
  | .ok .missing => f.report (.keyNotFound p.key)
  | .ok (.found r slot) => slot.elim f (f.fill · r)
  | _ => f

section Resolve

variable {f : Footprint} {p : Pending} {pending : List Pending} {t : σ × Footprint}

theorem resolve_apply (p : Pending) (t : σ × Footprint) :
    resolve b p t = match p.outcome with
      | .error e => (.error e, t)
      | .ok outcome => conclude b p.key outcome t := by
  rw [resolve, Attempt.bind_eq, Attempt.ofExcept]
  cases p.outcome <;> rfl

theorem resolve_cases {r : Except Fault Status} {t' : σ × Footprint}
    (h : resolve b p t = (r, t')) :
    (∃ e, p.outcome = .error e ∧ r = .error e ∧ t' = t) ∨
    (∃ data r' s', p.outcome = .ok (.merged data) ∧
      b.set (Key.pack p.key) data t.1 = (r', s') ∧ r = r'.map (fun _ => .ok) ∧
      t' = (s', t.2)) ∨
    ((∃ outcome, p.outcome = .ok outcome) ∧ (∀ data, p.outcome ≠ .ok (.merged data)) ∧
      r = .ok p.status ∧ t' = (t.1, p.trace t.2)) := by
  rw [resolve_apply] at h
  cases houtcome : p.outcome with
  | error e =>
    simp only [houtcome] at h
    cases h
    exact .inl ⟨e, rfl, rfl, rfl⟩
  | ok outcome =>
    simp only [houtcome] at h
    cases outcome with
    | merged data =>
      simp only [conclude, Attempt.bind_pure_apply, Attempt.onFirst, Prod.mk.injEq] at h
      obtain ⟨rfl, rfl⟩ := h
      exact .inr (.inl ⟨data, _, _, rfl, rfl, rfl, rfl⟩)
    | missing =>
      cases h
      refine .inr (.inr ⟨⟨_, rfl⟩, nofun, ?_, ?_⟩)
      · simp [Pending.status, houtcome]
      · simp [Pending.trace, houtcome]
    | incomplete =>
      cases h
      refine .inr (.inr ⟨⟨_, rfl⟩, nofun, ?_, ?_⟩)
      · simp [Pending.status, houtcome]
      · simp [Pending.trace, houtcome]
    | found record slot =>
      cases h
      refine .inr (.inr ⟨⟨_, rfl⟩, nofun, ?_, ?_⟩)
      · simp [Pending.status, houtcome]
      · simp [Pending.trace, houtcome]

theorem resolve_keeps (hb : b.Keeps P) {r : Except Fault Status} {t' : σ × Footprint}
    (h : resolve b p t = (r, t')) (hP : P t.1) : P t'.1 := by
  rcases resolve_cases h with ⟨_, _, _, rfl⟩ | ⟨_, _, s', _, hset, _, rfl⟩ | ⟨_, _, _, rfl⟩
  · exact hP
  · exact hb.set hset hP
  · exact hP

theorem errors_trace (f : Footprint) (p : Pending) : (p.trace f).errors = f.errors := by
  rw [Pending.trace]
  split
  · exact f.errors_report_of_ne (by nofun)
  · next r slot _ => cases slot <;> rfl
  · rfl

/-- A condition on footprints that nothing a batch leaves behind in them can end. -/
structure Lasts (Q : Footprint → Prop) : Prop where
  trace (p : Pending) {f : Footprint} : Q f → Q (p.trace f)
  report (statuses : List Status) {f : Footprint} : Q f → Q (f.report (.batchResults statuses))

theorem lasts_errors (errors : List Event) : Lasts fun f => f.errors = errors where
  trace p {f} h := (errors_trace f p).trans h
  report statuses {f} h := (f.errors_report_of_ne (by nofun)).trans h

theorem resolve_lasts {Q : Footprint → Prop} (hQ : Lasts Q) {r : Except Fault Status}
    {t' : σ × Footprint} (h : resolve b p t = (r, t')) (ht : Q t.2) : Q t'.2 := by
  rcases resolve_cases h with ⟨_, _, _, rfl⟩ | ⟨_, _, _, _, _, _, rfl⟩ | ⟨_, _, _, rfl⟩
  · exact ht
  · exact ht
  · exact hQ.trace p ht

theorem resolve_ok (T : b.Transactional) {status : Status} {t' : σ × Footprint}
    (h : resolve b p t = (.ok status, t')) :
    (∃ outcome, p.outcome = .ok outcome) ∧ status = p.status ∧
      T.rows t'.1 = p.write (T.rows t.1) ∧ t'.2 = p.trace t.2 := by
  rcases resolve_cases h with ⟨_, _, hr, _⟩ | ⟨data, r, s', houtcome, hset, hr, rfl⟩ |
    ⟨houtcome, hmerged, hr, rfl⟩
  · simp at hr
  · cases r with
    | error e => simp [Except.map] at hr
    | ok _ =>
      obtain rfl : status = .ok := by simpa [Except.map] using hr
      refine ⟨⟨_, houtcome⟩, by simp only [Pending.status, houtcome], ?_,
        by simp only [Pending.trace, houtcome]⟩
      simp only [T.set_rows hset, Pending.write, houtcome]
  · exact ⟨houtcome, Except.ok.inj hr, by rw [write_of_outcome_ne_merged hmerged], rfl⟩

theorem resolveAll_isLoop : Attempt.IsLoop (resolve b) List.cons (resolveAll b) :=
  ⟨⟨[], rfl⟩, fun _ _ => rfl⟩

theorem resolveAll_cons_eq_ok_iff {statuses : List Status} {t' : σ × Footprint} :
    resolveAll b (p :: pending) t = (.ok statuses, t') ↔
      ∃ status u others, resolve b p t = (.ok status, u) ∧
        resolveAll b pending u = (.ok others, t') ∧ statuses = status :: others :=
  resolveAll_isLoop.cons_eq_ok_iff

theorem resolveAll_keeps (hb : b.Keeps P) {r : Except Fault (List Status)} {t' : σ × Footprint}
    (h : resolveAll b pending t = (r, t')) (hP : P t.1) : P t'.1 :=
  resolveAll_isLoop.preserves (P := fun t => P t.1) (resolve_keeps hb) h hP

theorem resolveAll_ok (T : b.Transactional) {statuses : List Status} {t' : σ × Footprint}
    (h : resolveAll b pending t = (.ok statuses, t')) :
    (∀ p ∈ pending, ∃ outcome, p.outcome = .ok outcome) ∧
      statuses = pending.map Pending.status ∧
      T.rows t'.1 = pending.foldl Pending.write (T.rows t.1) ∧
      t'.2 = pending.foldl Pending.trace t.2 := by
  induction pending generalizing t statuses with
  | nil =>
    cases h
    exact ⟨nofun, rfl, rfl, rfl⟩
  | cons p pending ih =>
    obtain ⟨status, u, others, hp, hrest, rfl⟩ := resolveAll_cons_eq_ok_iff.mp h
    obtain ⟨houtcome, rfl, hrows, htrace⟩ := resolve_ok T hp
    obtain ⟨houtcomes, rfl, hrows', htrace'⟩ := ih hrest
    refine ⟨?_, rfl, by rw [hrows', hrows, List.foldl_cons],
      by rw [htrace', htrace, List.foldl_cons]⟩
    rintro q (_ | ⟨_, hq⟩)
    · exact houtcome
    · exact houtcomes q hq

end Resolve

theorem verdict_eq (statuses : List Status) :
    verdict statuses = .ok ∨ verdict statuses = .error := by
  rw [verdict]
  split
  · exact .inl rfl
  · exact .inr rfl

theorem verdict_eq_ok_iff {statuses : List Status} :
    verdict statuses = .ok ↔ ∀ status ∈ statuses, status = .ok := by
  simp [verdict]

section Body

variable {t t' : σ × Footprint}

theorem body_eq_ok_iff {status : Status} :
    body b ops t = (.ok status, t') ↔
      ∃ pending s₁ statuses u, dispatch b ops t.1 = (.ok pending, s₁) ∧
        resolveAll b pending (s₁, t.2) = (.ok statuses, u) ∧ status = verdict statuses ∧
          t' = (u.1, u.2.report (.batchResults statuses)) := by
  simp only [body, Attempt.bind_eq_ok_iff, Attempt.onFirst_eq_iff, Attempt.changeSecond,
    Attempt.change, Attempt.pure_eq, Prod.mk.injEq, Except.ok.injEq]
  constructor
  · rintro ⟨pending, _, ⟨s₁, hdispatch, rfl⟩, statuses, u, hresolve, _, _, ⟨-, rfl⟩, rfl, rfl⟩
    exact ⟨pending, s₁, statuses, u, hdispatch, hresolve, rfl, rfl⟩
  · rintro ⟨pending, s₁, statuses, u, hdispatch, hresolve, rfl, rfl⟩
    exact ⟨pending, _, ⟨s₁, hdispatch, rfl⟩, statuses, u, hresolve, (), _, ⟨trivial, rfl⟩, rfl, rfl⟩

theorem body_eq_error_iff {e : Fault} :
    body b ops t = (.error e, t') ↔
      (∃ s₁, dispatch b ops t.1 = (.error e, s₁) ∧ t' = (s₁, t.2)) ∨
        ∃ pending s₁, dispatch b ops t.1 = (.ok pending, s₁) ∧
          resolveAll b pending (s₁, t.2) = (.error e, t') := by
  simp only [body, Attempt.bind_eq_error_iff, Attempt.onFirst_eq_iff, Attempt.changeSecond,
    Attempt.change, Attempt.pure_eq, Prod.mk.injEq, reduceCtorEq, false_and, and_false,
    exists_false, or_false]
  constructor
  · rintro (h | ⟨pending, _, ⟨s₁, hdispatch, rfl⟩, hresolve⟩)
    · exact .inl h
    · exact .inr ⟨pending, s₁, hdispatch, hresolve⟩
  · rintro (h | ⟨pending, s₁, hdispatch, hresolve⟩)
    · exact .inl h
    · exact .inr ⟨pending, _, ⟨s₁, hdispatch, rfl⟩, hresolve⟩

/-- The body of a batch leads to a state with the property if sending leads to one, and resolving
the requests that were sent and reporting on them lead from one to the next. -/
theorem body_induction {Q : σ × Footprint → Prop}
    (hdispatch : ∀ r s₁, dispatch b ops t.1 = (r, s₁) → Q (s₁, t.2))
    (hresolve : ∀ pending s₁, dispatch b ops t.1 = (.ok pending, s₁) → ∀ p ∈ pending, ∀ {u r u'},
      resolve b p u = (r, u') → Q u → Q u')
    (hreport : ∀ statuses s f, Q (s, f) → Q (s, f.report (.batchResults statuses)))
    {r : Except Fault Status} (h : body b ops t = (r, t')) : Q t' := by
  cases r with
  | error e =>
    rcases body_eq_error_iff.mp h with ⟨s₁, hsend, rfl⟩ | ⟨pending, s₁, hsend, hfails⟩
    · exact hdispatch _ s₁ hsend
    · exact resolveAll_isLoop.preserves_of_mem (hresolve pending s₁ hsend) hfails
        (hdispatch _ s₁ hsend)
  | ok status =>
    obtain ⟨pending, s₁, statuses, u, hsend, hgoes, -, rfl⟩ := body_eq_ok_iff.mp h
    exact hreport statuses u.1 u.2 (resolveAll_isLoop.preserves_of_mem (hresolve pending s₁ hsend)
      hgoes (hdispatch _ s₁ hsend))

theorem body_keeps (hb : b.Keeps P) {r : Except Fault Status} (h : body b ops t = (r, t'))
    (hP : P t.1) : P t'.1 :=
  body_induction (Q := fun u => P u.1) (fun _ _ hsend => dispatch_keeps hb hsend hP)
    (fun _ _ _ _ _ _ _ _ hresolve hu => resolve_keeps hb hresolve hu) (fun _ _ _ hu => hu) h

theorem body_lasts {Q : Footprint → Prop} (hQ : Lasts Q) {r : Except Fault Status}
    (h : body b ops t = (r, t')) (ht : Q t.2) : Q t'.2 :=
  body_induction (Q := fun u => Q u.2) (fun _ _ _ => ht)
    (fun _ _ _ _ _ _ _ _ hresolve hu => resolve_lasts hQ hresolve hu)
    (fun statuses _ _ hu => hQ.report statuses hu) h

theorem row_of_outcome {p : Pending} (h : ∃ outcome, p.outcome = .ok outcome) :
    ∃ v, p.row = .ok v := by
  obtain ⟨outcome, houtcome⟩ := h
  cases hrow : p.row with
  | error e => simp [Pending.outcome, hrow, Except.bind] at houtcome
  | ok v => exact ⟨v, rfl⟩

/-- The footprint of a batch whose requests came out as they were asked. -/
def settled (f : Footprint) (pending : List Pending) : Footprint :=
  (pending.foldl Pending.trace f).report (.batchResults (pending.map Pending.status))

theorem body_ok (T : b.Transactional) (ht : T.Running t.1) {status : Status}
    (h : body b ops t = (.ok status, t')) :
    (∀ p ∈ ask (T.rows t.1) ops, ∃ outcome, p.outcome = .ok outcome) ∧
      status = verdict ((ask (T.rows t.1) ops).map Pending.status) ∧
      T.rows t'.1 = after (T.rows t.1) ops ∧ t'.2 = settled t.2 (ask (T.rows t.1) ops) := by
  obtain ⟨pending, s₁, statuses, u, hdispatch, hresolve, rfl, rfl⟩ := body_eq_ok_iff.mp h
  obtain ⟨hrows, hpending⟩ := dispatch_ok T ht hdispatch
  obtain ⟨houtcomes, rfl, hrows', htrace⟩ := resolveAll_ok T hresolve
  obtain rfl : pending = ask (T.rows t.1) ops :=
    hpending fun p hp => row_of_outcome (houtcomes p hp)
  exact ⟨houtcomes, rfl, by rw [hrows', hrows, after], by rw [htrace, settled]⟩

end Body

section Run

variable {t t' : σ × Footprint} {status : Status} {e : Fault}

theorem run_eq_ok_iff :
    (b.beside Footprint).run (body b ops) t = (.ok status, t') ↔
      ∃ s₁ u s₂, b.begin true t.1 = (.ok (), s₁) ∧ body b ops (s₁, t.2) = (.ok status, u) ∧
        b.commit u.1 = (.ok (), s₂) ∧ t' = (s₂, u.2) := by
  simp only [Backend.run_eq_ok_iff, Backend.begin_beside, Backend.commit_beside,
    Attempt.onFirst_eq_iff]
  constructor
  · rintro ⟨_, u, ⟨s₁, hbegin, rfl⟩, hbody, s₂, hcommit, rfl⟩
    exact ⟨s₁, u, s₂, hbegin, hbody, hcommit, rfl⟩
  · rintro ⟨s₁, u, s₂, hbegin, hbody, hcommit, rfl⟩
    exact ⟨_, u, ⟨s₁, hbegin, rfl⟩, hbody, s₂, hcommit, rfl⟩

/-- The three places where a batch fails: its begin, one of its passes, or its commit. -/
theorem run_eq_error_iff :
    (b.beside Footprint).run (body b ops) t = (.error e, t') ↔
      (∃ s₁, b.begin true t.1 = (.error e, s₁) ∧ t' = (s₁, t.2)) ∨
      (∃ s₁ e₀ u, b.begin true t.1 = (.ok (), s₁) ∧ body b ops (s₁, t.2) = (.error e₀, u) ∧
        e = (b.abandon e₀ u.1).1 ∧ t' = ((b.abandon e₀ u.1).2, u.2)) ∨
      ∃ s₁ status u s₂, b.begin true t.1 = (.ok (), s₁) ∧
        body b ops (s₁, t.2) = (.ok status, u) ∧ b.commit u.1 = (.error e, s₂) ∧
        t' = (s₂, u.2) := by
  simp only [Backend.run_eq_error_iff, Backend.begin_beside, Backend.commit_beside,
    Backend.abandon_beside, Attempt.onFirst_eq_iff, Prod.mk.injEq]
  constructor
  · rintro (hbegin | ⟨_, e₀, u, ⟨s₁, hbegin, rfl⟩, hbody, rfl, rfl⟩ |
      ⟨_, status, u, ⟨s₁, hbegin, rfl⟩, hbody, s₂, hcommit, rfl⟩)
    · exact .inl hbegin
    · exact .inr (.inl ⟨s₁, e₀, u, hbegin, hbody, rfl, rfl⟩)
    · exact .inr (.inr ⟨s₁, status, u, s₂, hbegin, hbody, hcommit, rfl⟩)
  · rintro (hbegin | ⟨s₁, e₀, u, hbegin, hbody, rfl, rfl⟩ |
      ⟨s₁, status, u, s₂, hbegin, hbody, hcommit, rfl⟩)
    · exact .inl hbegin
    · exact .inr (.inl ⟨_, e₀, u, ⟨s₁, hbegin, rfl⟩, hbody, rfl, rfl⟩)
    · exact .inr (.inr ⟨_, status, u, ⟨s₁, hbegin, rfl⟩, hbody, s₂, hcommit, rfl⟩)

theorem run_lasts {Q : Footprint → Prop} (hQ : Lasts Q) {r : Except Fault Status}
    (h : (b.beside Footprint).run (body b ops) t = (r, t')) (ht : Q t.2) : Q t'.2 := by
  have hrun : Q ((b.beside Footprint).run (body b ops) t).2.2 :=
    Backend.run_keeps (Q := fun u : σ × Footprint => Q u.2) (fun _ hu => hu) (fun _ hu => hu)
      (fun _ _ hu => hu) (fun _ _ hu => body_lasts hQ rfl hu) ht
  rwa [h] at hrun

theorem run_errors {r : Except Fault Status}
    (h : (b.beside Footprint).run (body b ops) t = (r, t')) : t'.2.errors = t.2.errors :=
  run_lasts (lasts_errors t.2.errors) h rfl

theorem run_error (T : b.Transactional)
    (h : (b.beside Footprint).run (body b ops) t = (.error e, t')) :
    T.table t'.1 = T.table t.1 := by
  have hbody_table : ∀ {s₁ r u}, b.begin true t.1 = (.ok (), s₁) → body b ops (s₁, t.2) = (r, u) →
      T.table u.1 = T.table t.1 := fun hbegin hbody =>
    body_keeps (T.keeps_table _) hbody (T.begin_table hbegin)
  rcases run_eq_error_iff.mp h with ⟨s₁, hbegin, rfl⟩ | ⟨s₁, e₀, u, hbegin, hbody, -, rfl⟩ |
    ⟨s₁, status, u, s₂, hbegin, hbody, hcommit, rfl⟩
  · exact T.begin_table hbegin
  · exact (T.abandon_table u.1 e₀).trans (hbody_table hbegin hbody)
  · exact (T.commit_table hcommit).trans (hbody_table hbegin hbody)

theorem run_preserves (hb : b.Preserves P) {r : Except Fault Status}
    (h : (b.beside Footprint).run (body b ops) t = (r, t')) (hP : P t.1) : P t'.1 := by
  have hrun : P ((b.beside Footprint).run (body b ops) t).2.1 :=
    Backend.run_keeps (Q := fun u : σ × Footprint => P u.1) (fun _ hu => hb.begin rfl hu)
      (fun _ hu => hb.commit rfl hu) (fun e _ hu => hb.abandon e hu)
      (fun _ _ hu => body_keeps hb.toKeeps rfl hu) hP
  rwa [h] at hrun

/-- A batch that goes through settles each request with the row that the batch finds for it. -/
theorem run_ok (T : b.Transactional) {status : Status}
    (h : (b.beside Footprint).run (body b ops) t = (.ok status, t')) :
    (∀ p ∈ ask (T.table t.1).rows ops, ∃ outcome, p.outcome = .ok outcome) ∧
      status = verdict ((ask (T.table t.1).rows ops).map Pending.status) ∧
      (T.table t'.1).rows = after (T.table t.1).rows ops ∧
      t'.2 = settled t.2 (ask (T.table t.1).rows ops) := by
  obtain ⟨s₁, u, s₂, hbegin, hbody, hcommit, rfl⟩ := run_eq_ok_iff.mp h
  have hrunning := T.begin_running hbegin
  obtain ⟨houtcomes, rfl, hrows, htrace⟩ := body_ok T hrunning hbody
  rw [T.begin_rows hbegin] at houtcomes hrows htrace ⊢
  exact ⟨houtcomes, rfl, (T.commit_rows hcommit).trans hrows, htrace⟩

theorem execute_of_run_ok (hops : ops ≠ []) {status : Status}
    (h : (b.beside Footprint).run (body b ops) t = (.ok status, t')) :
    execute b ops t = (status, t'.1, t'.2.observeBatch status ops.length) := by
  rw [execute, if_neg (by simpa using hops), h]

theorem execute_of_run_error (hops : ops ≠ [])
    (h : (b.beside Footprint).run (body b ops) t = (.error e, t')) :
    execute b ops t = (.error, t'.1,
      (t'.2.report (.batchFailed ops e)).observeBatch .error ops.length) := by
  rw [execute, if_neg (by simpa using hops), h]

theorem execute_preserves (hb : b.Preserves P) (ops : List Operation) (t : σ × Footprint)
    (hP : P t.1) : P (execute b ops t).2.1 := by
  by_cases hops : ops = []
  · subst hops
    exact hP
  rcases hrun : (b.beside Footprint).run (body b ops) t with ⟨r, t'⟩
  have hP' : P t'.1 := run_preserves hb hrun hP
  cases r with
  | error e =>
    rw [execute_of_run_error hops hrun]
    exact hP'
  | ok status =>
    rw [execute_of_run_ok hops hrun]
    exact hP'

end Run

end Batch
end RecordStore
