import RecordStore.Proofs.BatchRun

/-! # Batches that fail

Every place where a batch can fail, on the way to its commit and there. A batch that fails anywhere
leaves the table as it was and one error in the reports; any other batch is committed, whatever its
verdict.
-/

namespace RecordStore.Batch

variable {σ : Type} {b : Backend σ} {ops : List Operation} {s s' : σ} {t t' : σ × Footprint}
  {e : Fault}

/-- The batch gets to a request: all was sent, and the requests before this one were resolved. -/
def Reaches (b : Backend σ) (ops : List Operation) (t : σ × Footprint) (p : Pending)
    (u : σ × Footprint) : Prop :=
  ∃ s₁ before rest s₂ statuses, b.begin true t.1 = (.ok (), s₁) ∧
    dispatch b ops s₁ = (.ok (before ++ p :: rest), s₂) ∧
    resolveAll b before (s₂, t.2) = (.ok statuses, u)

/-- A step that the batch gets to raises the fault. -/
inductive Raises (b : Backend σ) (ops : List Operation) (t : σ × Footprint) : Fault → Prop where
  | begin {e : Fault} {s₁ : σ} : ops ≠ [] → b.begin true t.1 = (.error e, s₁) → Raises b ops t e
  | send {before rest : List Operation} {op : Operation} {pending : List Pending} {e : Fault}
      {s₁ s₂ s₃ : σ} : ops = before ++ op :: rest → b.begin true t.1 = (.ok (), s₁) →
      dispatch b before s₁ = (.ok pending, s₂) → send b op s₂ = (.error e, s₃) → Raises b ops t e
  /-- The awaited result of a request is a fault. -/
  | row {p : Pending} {u : σ × Footprint} {e : Fault} :
      Reaches b ops t p u → p.row = .error e → Raises b ops t e
  | decode {p : Pending} {u : σ × Footprint} {data : Bytes} {e : DecodeError} :
      Reaches b ops t p u → p.row = .ok (some data) → Record.decode data = .error e →
      Raises b ops t (.decode e)
  /-- The merged record cannot be packed. -/
  | merge {p : Pending} {u : σ × Footprint} {data : Bytes} {values : Fields Value} {r : Record}
      {v : Value} : Reaches b ops t p u → p.row = .ok (some data) → p.request = .update values →
      Record.decode data = .ok r → r.isEmpty = false →
      ((r.map Value.text).overlay values).encode = .error v → Raises b ops t (.unpackable v)
  /-- The merged record cannot be written. -/
  | write {p : Pending} {u : σ × Footprint} {data : Bytes} {e : Fault} {s₁ : σ} :
      Reaches b ops t p u → p.outcome = .ok (.merged data) →
      b.set (Key.pack p.key) data u.1 = (.error e, s₁) → Raises b ops t e
  | commit {u : σ × Footprint} {status : Status} {e : Fault} {s₁ s₂ : σ} : ops ≠ [] →
      b.begin true t.1 = (.ok (), s₁) → body b ops (s₁, t.2) = (.ok status, u) →
      b.commit u.1 = (.error e, s₂) → Raises b ops t e

theorem resolve_eq_error_iff {p : Pending} :
    (∃ t', resolve b p t = (.error e, t')) ↔ p.outcome = .error e ∨
      ∃ data s', p.outcome = .ok (.merged data) ∧
        b.set (Key.pack p.key) data t.1 = (.error e, s') := by
  constructor
  · rintro ⟨t', h⟩
    rcases resolve_cases h with ⟨e', houtcome, hr, -⟩ | ⟨data, r, s', houtcome, hset, hr, -⟩ |
      ⟨-, -, hr, -⟩
    · cases hr
      exact .inl houtcome
    · cases r with
      | error e' =>
        cases hr
        exact .inr ⟨data, s', houtcome, hset⟩
      | ok _ => simp [Except.map] at hr
    · simp at hr
  · rintro (houtcome | ⟨data, s', houtcome, hset⟩)
    · exact ⟨t, by rw [resolve_apply, houtcome]⟩
    · refine ⟨(s', t.2), ?_⟩
      simp only [resolve_apply, houtcome, conclude, Attempt.bind_pure_apply, Attempt.onFirst, hset,
        Except.map]

/-- The three ways in which a request comes to a fault before anything is written for it. -/
theorem outcome_eq_error_iff {p : Pending} :
    p.outcome = .error e ↔ p.row = .error e ∨
      (∃ data d, p.row = .ok (some data) ∧ Record.decode data = .error d ∧ e = .decode d) ∨
      ∃ data values r v, p.row = .ok (some data) ∧ p.request = .update values ∧
        Record.decode data = .ok r ∧ r.isEmpty = false ∧
        ((r.map Value.text).overlay values).encode = .error v ∧ e = .unpackable v := by
  obtain ⟨key, request, row⟩ := p
  rcases row with e' | _ | data
  · simp [Pending.outcome, Except.bind]
  · simp [Pending.outcome, Except.bind, settle]
  · cases hdecode : Record.decode data with
    | error d =>
      cases request <;>
        simp [Pending.outcome, Except.bind, settle, Record.read, hdecode, Functor.map, Except.map,
          eq_comm (a := e)]
    | ok r =>
      cases request with
      | read p slot =>
        cases hselect : Record.select p r <;>
          simp [Pending.outcome, Except.bind, settle, Record.read, hdecode, Functor.map, Except.map,
            hselect]
      | update values =>
        cases hr : r.isEmpty
        · cases hmerge : ((r.map Value.text).overlay values).encode <;>
            simp [Pending.outcome, Except.bind, settle, Record.read, hdecode, Functor.map,
              Except.map, Record.select_all, hr, hmerge, eq_comm (a := e)]
        · simp [Pending.outcome, Except.bind, settle, Record.read, hdecode, Functor.map,
            Except.map, Record.select_all, hr]

theorem raises_of_resolve {p : Pending} {u u' : σ × Footprint} (hp : Reaches b ops t p u)
    (h : resolve b p u = (.error e, u')) : Raises b ops t e := by
  rcases resolve_eq_error_iff.mp ⟨u', h⟩ with houtcome | ⟨data, s', houtcome, hset⟩
  · rcases outcome_eq_error_iff.mp houtcome with hrow | ⟨data, d, hrow, hdecode, rfl⟩ |
      ⟨data, values, r, v, hrow, hrequest, hdecode, hr, hmerge, rfl⟩
    · exact .row hp hrow
    · exact .decode hp hrow hdecode
    · exact .merge hp hrow hrequest hdecode hr hmerge
  · exact .write hp houtcome hset

theorem raises_of_body {s₁ : σ} (hbegin : b.begin true t.1 = (.ok (), s₁))
    (h : body b ops (s₁, t.2) = (.error e, t')) : Raises b ops t e := by
  rcases body_eq_error_iff.mp h with ⟨s₂, hdispatch, -⟩ | ⟨pending, s₂, hdispatch, hresolve⟩
  · obtain ⟨before, op, rest, pending, u, hops, hbefore, hop⟩ :=
      dispatch_isLoop.eq_error_iff.mp hdispatch
    exact .send hops hbegin hbefore hop
  · obtain ⟨before, p, rest, statuses, u, rfl, hbefore, hp⟩ :=
      resolveAll_isLoop.eq_error_iff.mp hresolve
    exact raises_of_resolve ⟨s₁, before, rest, s₂, statuses, hbegin, hdispatch, hbefore⟩ hp

theorem run_fails_of_body {s₁ : σ} {u : σ × Footprint} (hbegin : b.begin true t.1 = (.ok (), s₁))
    (hbody : body b ops (s₁, t.2) = (.error e, u)) :
    ∃ e' t', (b.beside Footprint).run (body b ops) t = (.error e', t') :=
  ⟨_, _, run_eq_error_iff.mpr (.inr (.inl ⟨s₁, e, u, hbegin, hbody, rfl, rfl⟩))⟩

theorem run_fails_of_resolve {p : Pending} {u : σ × Footprint} (hp : Reaches b ops t p u)
    (h : p.outcome = .error e ∨ ∃ data s', p.outcome = .ok (.merged data) ∧
      b.set (Key.pack p.key) data u.1 = (.error e, s')) :
    ∃ e' t', (b.beside Footprint).run (body b ops) t = (.error e', t') := by
  obtain ⟨s₁, before, rest, s₂, statuses, hbegin, hdispatch, hbefore⟩ := hp
  obtain ⟨u', hu'⟩ := resolve_eq_error_iff.mpr h
  have hresolve := resolveAll_isLoop.eq_error_iff.mpr
    ⟨before, p, rest, statuses, u, rfl, hbefore, hu'⟩
  exact run_fails_of_body hbegin (body_eq_error_iff.mpr (.inr ⟨_, s₂, hdispatch, hresolve⟩))

theorem Raises.run_fails (h : Raises b ops t e) :
    ∃ e' t', (b.beside Footprint).run (body b ops) t = (.error e', t') := by
  cases h with
  | begin _ hbegin => exact ⟨e, _, run_eq_error_iff.mpr (.inl ⟨_, hbegin, rfl⟩)⟩
  | send hops hbegin hbefore hsend =>
    have hdispatch := dispatch_isLoop.eq_error_iff.mpr ⟨_, _, _, _, _, hops, hbefore, hsend⟩
    exact run_fails_of_body hbegin (body_eq_error_iff.mpr (.inl ⟨_, hdispatch, rfl⟩))
  | row hp hrow => exact run_fails_of_resolve hp (.inl (outcome_eq_error_iff.mpr (.inl hrow)))
  | decode hp hrow hdecode =>
    have houtcome := outcome_eq_error_iff.mpr (.inr (.inl ⟨_, _, hrow, hdecode, rfl⟩))
    exact run_fails_of_resolve hp (.inl houtcome)
  | merge hp hrow hrequest hdecode hr hmerge =>
    have houtcome := outcome_eq_error_iff.mpr
      (.inr (.inr ⟨_, _, _, _, hrow, hrequest, hdecode, hr, hmerge, rfl⟩))
    exact run_fails_of_resolve hp (.inl houtcome)
  | write hp houtcome hset => exact run_fails_of_resolve hp (.inr ⟨_, _, houtcome, hset⟩)
  | commit _ hbegin hbody hcommit =>
    exact ⟨e, _, run_eq_error_iff.mpr (.inr (.inr ⟨_, _, _, _, hbegin, hbody, hcommit, rfl⟩))⟩

theorem exists_raises_of_run_fails (hops : ops ≠ [])
    (h : (b.beside Footprint).run (body b ops) t = (.error e, t')) : ∃ e', Raises b ops t e' := by
  rcases run_eq_error_iff.mp h with ⟨s₁, hbegin, -⟩ | ⟨s₁, e₀, u, hbegin, hbody, -, -⟩ |
    ⟨s₁, status, u, s₂, hbegin, hbody, hcommit, -⟩
  · exact ⟨e, .begin hops hbegin⟩
  · exact ⟨e₀, raises_of_body hbegin hbody⟩
  · exact ⟨e, .commit hops hbegin hbody hcommit⟩

theorem Raises.ne_nil (h : Raises b ops t e) : ops ≠ [] := by
  have hreaches : ∀ {p u}, Reaches b ops t p u → ops ≠ [] := by
    rintro p u ⟨s₁, before, rest, s₂, statuses, -, hdispatch, -⟩ rfl
    simp [dispatch, Attempt.pure_eq] at hdispatch
  cases h with
  | begin hops _ => exact hops
  | send hops _ _ _ => simp [hops]
  | row hp _ => exact hreaches hp
  | decode hp _ _ => exact hreaches hp
  | merge hp _ _ _ _ _ => exact hreaches hp
  | write hp _ _ => exact hreaches hp
  | commit hops _ _ _ => exact hops

/-- What a batch comes to, by whether one of its steps raises a fault. -/
structure AllOrNothing (b : Backend σ) (table : σ → Table) (ops : List Operation)
    (t : σ × Footprint) : Prop where
  status : (execute b ops t).1 = .ok ∨ (execute b ops t).1 = .error
  failed {e : Fault} : Raises b ops t e → (execute b ops t).1 = .error ∧
    table (execute b ops t).2.1 = table t.1 ∧
    ∃ event cause, (execute b ops t).2.2.errors = t.2.errors ++ [event] ∧
      (cause = "Store error" ∨ cause = "Error") ∧
      event.message = cause ++ " performing batch operation -\n" ++
        "\n".intercalate (ops.map Operation.describe)
  committed : (∀ e, ¬ Raises b ops t e) →
    Commits (table t.1).rows ops (table (execute b ops t).2.1).rows ∧
      (execute b ops t).2.2.errors = t.2.errors
  of_ok : (execute b ops t).1 = .ok →
    Commits (table t.1).rows ops (table (execute b ops t).2.1).rows

/-- No more is needed of a backend than that it is transactional. -/
theorem allOrNothing (T : b.Transactional) (ops : List Operation) (t : σ × Footprint) :
    AllOrNothing b T.table ops t := by
  by_cases hops : ops = []
  · subst hops
    have hcommits : Commits (T.table t.1).rows [] (T.table t.1).rows := commits_after _ []
    exact ⟨.inl rfl, fun h => (h.ne_nil rfl).elim, fun _ => ⟨hcommits, rfl⟩, fun _ => hcommits⟩
  rcases hrun : (b.beside Footprint).run (body b ops) t with ⟨e' | status, t'⟩
  · obtain ⟨e₀, hraises⟩ := exists_raises_of_run_fails hops hrun
    have hexecute := execute_of_run_error hops hrun
    have htable := run_error T hrun
    refine ⟨.inr (by rw [hexecute]), fun _ => ?_, fun h => (h e₀ hraises).elim, fun h => ?_⟩
    · rw [hexecute]
      refine ⟨rfl, htable, .batchFailed ops e', _, ?_, ?_, rfl⟩
      · rw [← run_errors hrun]
        exact t'.2.errors_report_of_eq rfl
      · split
        · exact .inl rfl
        · exact .inr rfl
    · rw [hexecute] at h
      cases h
  · obtain ⟨-, rfl, hrows, -⟩ := run_ok T hrun
    have hexecute := execute_of_run_ok hops hrun
    have herrors := run_errors hrun
    have hcommits : Commits (T.table t.1).rows ops (T.table (execute b ops t).2.1).rows := by
      rw [hexecute, hrows]
      exact commits_after _ ops
    refine ⟨by rw [hexecute]; exact verdict_eq _, fun h => ?_, fun _ => ⟨hcommits, ?_⟩,
      fun _ => hcommits⟩
    · obtain ⟨e', u, hfails⟩ := h.run_fails
      simp [hrun] at hfails
    · rw [hexecute]
      exact herrors

end RecordStore.Batch
