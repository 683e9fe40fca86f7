import RecordStore.Proofs.BatchRun

/-! # Batches that go through

What it takes for a batch to be committed on a backend that serves its calls: that it can be sent,
and that its requests can be settled with the rows that the batch finds for them.
-/

namespace RecordStore.Batch

variable {σ : Type} {b : Backend σ} {P : σ → Prop} {s : σ} {t : σ × Footprint} {op : Operation}
  {ops : List Operation}

def Sendable (op : Operation) : Prop :=
  ∀ values, op.action = .insert values →
    (∃ data, values.encode = .ok data) ∧ (Key.pack op.key).length ≤ maxKeyBytes

/-- A request comes to no fault, and the key of a record to be written is short enough. -/
def Settleable (p : Pending) : Prop :=
  (∃ outcome, p.outcome = .ok outcome) ∧
    ∀ data, p.outcome = .ok (.merged data) → (Key.pack p.key).length ≤ maxKeyBytes

theorem send_serves (S : b.Serves P) (hs : P s) (hop : Sendable op) :
    ∃ sent s', send b op s = (.ok sent, s') ∧ P s' ∧ ∀ p ∈ sent.toList, ∃ v, p.row = .ok v := by
  cases haction : op.action with
  | insert values =>
    obtain ⟨⟨data, hdata⟩, hkey⟩ := hop values haction
    obtain ⟨s', hset, hs'⟩ := S.set data hs hkey
    refine ⟨none, s', ?_, hs', by simp⟩
    simp only [send, haction, hdata, Attempt.bind_pure_apply, hset, Except.map]
  | delete =>
    obtain ⟨s', hclear, hs'⟩ := S.clear (Key.pack op.key) hs
    refine ⟨none, s', ?_, hs', by simp⟩
    simp only [send, haction, Attempt.bind_pure_apply, hclear, Except.map]
  | read p slot =>
    obtain ⟨row, s', hget, hs'⟩ := S.get (Key.pack op.key) hs
    refine ⟨some ⟨op.key, .read p slot, .ok row⟩, s', ?_, hs', by simp⟩
    simp only [send, haction, Attempt.bind_pure_apply, hget, Except.map]
  | update values =>
    obtain ⟨row, s', hget, hs'⟩ := S.get (Key.pack op.key) hs
    refine ⟨some ⟨op.key, .update values, .ok row⟩, s', ?_, hs', by simp⟩
    simp only [send, haction, Attempt.bind_pure_apply, hget, Except.map]

theorem dispatch_serves (S : b.Serves P) (hs : P s) (hops : ∀ op ∈ ops, Sendable op) :
    ∃ pending s', dispatch b ops s = (.ok pending, s') ∧ P s' ∧
      ∀ p ∈ pending, ∃ v, p.row = .ok v := by
  induction ops generalizing s with
  | nil => exact ⟨[], s, rfl, hs, by simp⟩
  | cons op rest ih =>
    obtain ⟨sent, u, hsend, hu, hsent⟩ := send_serves S hs (hops op List.mem_cons_self)
    obtain ⟨others, s', hrest, hs', hothers⟩ :=
      ih hu fun op hop => hops op (List.mem_cons_of_mem _ hop)
    refine ⟨sent.toList ++ others, s',
      dispatch_cons_eq_ok_iff.mpr ⟨sent, u, others, hsend, hrest, rfl⟩, hs', fun p hp => ?_⟩
    rcases List.mem_append.mp hp with hp | hp
    · exact hsent p hp
    · exact hothers p hp

theorem resolve_serves (S : b.Serves P) (ht : P t.1) {p : Pending} (hp : Settleable p) :
    ∃ status t', resolve b p t = (.ok status, t') ∧ P t'.1 := by
  obtain ⟨⟨outcome, houtcome⟩, hkey⟩ := hp
  rcases hresolve : resolve b p t with ⟨r, t'⟩
  rcases resolve_cases hresolve with ⟨e, he, -⟩ | ⟨data, r', s', hmerged, hset, rfl, rfl⟩ |
    ⟨-, -, rfl, rfl⟩
  · simp [houtcome] at he
  · obtain ⟨s'', hset', hs''⟩ := S.set data ht (hkey data hmerged)
    obtain ⟨rfl, rfl⟩ := Prod.mk.inj (hset.symm.trans hset')
    exact ⟨.ok, _, rfl, hs''⟩
  · exact ⟨_, _, rfl, ht⟩

theorem resolveAll_serves (S : b.Serves P) {pending : List Pending} (ht : P t.1)
    (hpending : ∀ p ∈ pending, Settleable p) :
    ∃ statuses t', resolveAll b pending t = (.ok statuses, t') ∧ P t'.1 := by
  induction pending generalizing t with
  | nil => exact ⟨[], t, rfl, ht⟩
  | cons p rest ih =>
    obtain ⟨status, u, hp, hu⟩ := resolve_serves S ht (hpending p List.mem_cons_self)
    obtain ⟨others, t', hrest, ht'⟩ := ih hu fun p hp => hpending p (List.mem_cons_of_mem _ hp)
    exact ⟨status :: others, t',
      resolveAll_cons_eq_ok_iff.mpr ⟨status, u, others, hp, hrest, rfl⟩, ht'⟩

theorem run_serves (T : b.Transactional) (S : b.Serves P) {s₁ : σ}
    (hbegin : b.begin true t.1 = (.ok (), s₁)) (hs₁ : P s₁) (hops : ∀ op ∈ ops, Sendable op)
    (hask : ∀ p ∈ ask (T.table t.1).rows ops, Settleable p) :
    ∃ status t', (b.beside Footprint).run (body b ops) t = (.ok status, t') := by
  obtain ⟨pending, s₂, hdispatch, hs₂, hrows⟩ := dispatch_serves S hs₁ hops
  obtain rfl : pending = ask (T.rows s₁) ops :=
    (dispatch_ok T (T.begin_running hbegin) hdispatch).2 hrows
  rw [← T.begin_rows hbegin] at hask
  obtain ⟨statuses, u, hresolve, hu⟩ := resolveAll_serves (t := (s₂, t.2)) S hs₂ hask
  have hbody : body b ops (s₁, t.2) = (.ok (verdict statuses), _) :=
    body_eq_ok_iff.mpr ⟨_, s₂, statuses, u, hdispatch, hresolve, rfl, rfl⟩
  obtain ⟨s₃, hcommit⟩ := S.commit hu
  exact ⟨_, _, run_eq_ok_iff.mpr ⟨s₁, _, s₃, hbegin, hbody, hcommit, rfl⟩⟩

end RecordStore.Batch
