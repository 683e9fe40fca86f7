import RecordStore.Proofs.InTurn
import RecordStore.Proofs.Outage

/-! # Reads of batches that are not committed

Reads fill their slots while a batch is carried out, and a batch that comes to nothing does not take
them back. It leaves the slots as the reads left them that were resolved before it failed, and such
a read can have found what the same batch was about to write.
-/

namespace RecordStore

open Batch

namespace Batch

variable {σ : Type} {b : Backend σ} {ops rest : List Operation} {pending later : List Pending}
  {p : Pending} {s s' : σ} {t : σ × Footprint}

def readings (rows : Rows) (ops : List Operation) : List (String × Record) :=
  ops.zipIdx.filterMap fun (op, i) => reading rows ops i op

/-- Where a batch fails: with nothing resolved, at the request of one operation, or at its commit.
The operations before that place are listed. -/
inductive FailsAfter (b : Backend σ) (ops : List Operation) (t : σ × Footprint) :
    List Operation → Prop where
  | begin {e : Fault} {s₁ : σ} : ops ≠ [] → b.begin true t.1 = (.error e, s₁) →
      FailsAfter b ops t []
  | send {e : Fault} {s₁ s₂ : σ} : b.begin true t.1 = (.ok (), s₁) →
      dispatch b ops s₁ = (.error e, s₂) → FailsAfter b ops t []
  | request {before rest : List Operation} {op : Operation} {pending later : List Pending}
      {p : Pending} {statuses : List Status} {e : Fault} {s₁ s₂ s₃ s₄ : σ} {u u' : σ × Footprint} :
      ops = before ++ op :: rest → b.begin true t.1 = (.ok (), s₁) →
      dispatch b before s₁ = (.ok pending, s₂) → send b op s₂ = (.ok (some p), s₃) →
      dispatch b rest s₃ = (.ok later, s₄) → resolveAll b pending (s₄, t.2) = (.ok statuses, u) →
      resolve b p u = (.error e, u') → FailsAfter b ops t before
  | commit {status : Status} {e : Fault} {s₁ s₂ : σ} {u : σ × Footprint} : ops ≠ [] →
      b.begin true t.1 = (.ok (), s₁) → body b ops (s₁, t.2) = (.ok status, u) →
      b.commit u.1 = (.error e, s₂) → FailsAfter b ops t ops

/-- Each request of a batch was sent for an operation, after those of the operations before it. -/
theorem dispatch_split (h : dispatch b ops s = (.ok (pending ++ p :: later), s')) :
    ∃ before op rest s₁ s₂, ops = before ++ op :: rest ∧ dispatch b before s = (.ok pending, s₁) ∧
      send b op s₁ = (.ok (some p), s₂) ∧ dispatch b rest s₂ = (.ok later, s') := by
  induction ops generalizing s pending with
  | nil =>
    obtain ⟨hnil, -⟩ := Prod.mk.inj h
    have hne : [] ≠ pending ++ p :: later := by simp
    exact (hne (Except.ok.inj hnil)).elim
  | cons op rest ih =>
    obtain ⟨sent, s₁, others, hsend, hrest, heq⟩ := dispatch_cons_eq_ok_iff.mp h
    cases sent with
    | none =>
      rw [Option.toList_none, List.nil_append] at heq
      subst heq
      obtain ⟨before, op', rest', s₂, s₃, rfl, hbefore, hop', hrest'⟩ := ih hrest
      exact ⟨op :: before, op', rest', s₂, s₃, rfl,
        dispatch_cons_eq_ok_iff.mpr ⟨none, s₁, pending, hsend, hbefore, rfl⟩, hop', hrest'⟩
    | some q =>
      rw [Option.toList_some, List.singleton_append] at heq
      cases pending with
      | nil =>
        obtain ⟨rfl, rfl⟩ := List.cons.inj heq
        exact ⟨[], op, rest, s, s₁, rfl, rfl, hsend, hrest⟩
      | cons q' pending =>
        obtain ⟨rfl, rfl⟩ := List.cons.inj heq
        obtain ⟨before, op', rest', s₂, s₃, rfl, hbefore, hop', hrest'⟩ := ih hrest
        exact ⟨op :: before, op', rest', s₂, s₃, rfl,
          dispatch_cons_eq_ok_iff.mpr ⟨some q', s₁, pending, hsend, hbefore, rfl⟩, hop', hrest'⟩

theorem dispatch_append_eq_ok {before : List Operation} {op : Operation} {s₁ s₂ : σ}
    (hbefore : dispatch b before s = (.ok pending, s₁)) (hop : send b op s₁ = (.ok (some p), s₂))
    (hrest : dispatch b rest s₂ = (.ok later, s')) :
    dispatch b (before ++ op :: rest) s = (.ok (pending ++ p :: later), s') := by
  induction before generalizing s pending with
  | nil =>
    obtain ⟨rfl, rfl⟩ : [] = pending ∧ s = s₁ := by simpa [dispatch, Attempt.pure_eq] using hbefore
    exact dispatch_cons_eq_ok_iff.mpr ⟨some p, s₂, later, hop, hrest, rfl⟩
  | cons head before ih =>
    obtain ⟨sent, u, others, hsend, hothers, rfl⟩ := dispatch_cons_eq_ok_iff.mp hbefore
    exact dispatch_cons_eq_ok_iff.mpr
      ⟨sent, u, _, hsend, ih hothers, by rw [List.append_assoc]⟩

theorem failsAfter_of_run {e : Fault} {t' : σ × Footprint} (hops : ops ≠ [])
    (h : (b.beside Footprint).run (body b ops) t = (.error e, t')) :
    ∃ before, before <+: ops ∧ FailsAfter b ops t before := by
  rcases run_eq_error_iff.mp h with ⟨s₁, hbegin, -⟩ | ⟨s₁, e₀, u, hbegin, hbody, -, -⟩ |
    ⟨s₁, status, u, s₂, hbegin, hbody, hcommit, -⟩
  · exact ⟨[], List.nil_prefix, .begin hops hbegin⟩
  · rcases body_eq_error_iff.mp hbody with ⟨s₂, hdispatch, -⟩ | ⟨pending, s₂, hdispatch, hresolve⟩
    · exact ⟨[], List.nil_prefix, .send hbegin hdispatch⟩
    · obtain ⟨pending, p, later, statuses, u', rfl, hbefore, hp⟩ :=
        resolveAll_isLoop.eq_error_iff.mp hresolve
      obtain ⟨before, op, rest, s₃, s₄, rfl, hsent, hop, hrest⟩ := dispatch_split hdispatch
      exact ⟨before, List.prefix_append _ _, .request rfl hbegin hsent hop hrest hbefore hp⟩
  · exact ⟨ops, List.prefix_rfl, .commit hops hbegin hbody hcommit⟩

theorem footprint_of_resolve_error {e : Fault} {t' : σ × Footprint}
    (h : resolve b p t = (.error e, t')) : t'.2 = t.2 := by
  rcases resolve_cases h with ⟨_, _, _, rfl⟩ | ⟨_, _, _, _, _, _, rfl⟩ | ⟨_, _, hr, _⟩
  · rfl
  · rfl
  · cases hr

theorem FailsAfter.run (T : b.Transactional) {before : List Operation}
    (h : FailsAfter b ops t before) :
    ∃ e t', (b.beside Footprint).run (body b ops) t = (.error e, t') ∧
      t'.2.slots = (t.2.fillAll (readings (T.table t.1).rows before)).slots := by
  cases h with
  | begin _ hbegin => exact ⟨_, _, run_eq_error_iff.mpr (.inl ⟨_, hbegin, rfl⟩), rfl⟩
  | @send e s₁ s₂ hbegin hdispatch =>
    have hbody : body b ops (s₁, t.2) = (.error e, s₂, t.2) :=
      body_eq_error_iff.mpr (.inl ⟨s₂, hdispatch, rfl⟩)
    exact ⟨_, _, run_eq_error_iff.mpr (.inr (.inl ⟨_, _, _, hbegin, hbody, rfl, rfl⟩)), rfl⟩
  | @request _ rest op pending later p statuses e s₁ s₂ s₃ s₄ u u' hops hbegin hbefore hop hrest
      hresolved hp =>
    subst hops
    have hdispatch := dispatch_append_eq_ok hbefore hop hrest
    have hresolve : resolveAll b (pending ++ p :: later) (s₄, t.2) = (.error e, u') :=
      resolveAll_isLoop.eq_error_iff.mpr ⟨pending, p, later, statuses, u, rfl, hresolved, hp⟩
    have hbody : body b (before ++ op :: rest) (s₁, t.2) = (.error e, u') :=
      body_eq_error_iff.mpr (.inr ⟨_, s₄, hdispatch, hresolve⟩)
    obtain ⟨houtcomes, -, -, htrace⟩ := resolveAll_ok T hresolved
    have hpending : pending = ask (T.rows s₁) before :=
      (dispatch_ok T (T.begin_running hbegin) hbefore).2 fun q hq => row_of_outcome (houtcomes q hq)
    refine ⟨_, _, run_eq_error_iff.mpr (.inr (.inl ⟨_, _, _, hbegin, hbody, rfl, rfl⟩)), ?_⟩
    rw [footprint_of_resolve_error hp, htrace, slots_traced, hpending, ask_readings,
      T.begin_rows hbegin]
    rfl
  | commit _ hbegin hbody hcommit =>
    obtain ⟨-, -, -, hsettled⟩ := body_ok T (T.begin_running hbegin) hbody
    refine ⟨_, _, run_eq_error_iff.mpr
      (.inr (.inr ⟨_, _, _, _, hbegin, hbody, hcommit, rfl⟩)), ?_⟩
    rw [hsettled, slots_settled, ask_readings, T.begin_rows hbegin]
    rfl

theorem FailsAfter.ne_nil {before : List Operation} (h : FailsAfter b ops t before) :
    ops ≠ [] := by
  cases h with
  | begin hops _ => exact hops
  | send _ hdispatch =>
    rintro rfl
    simp [dispatch, Attempt.pure_eq] at hdispatch
  | request hops => simp [hops]
  | commit hops => exact hops

structure UncommittedReads (b : Backend σ) (table : σ → Table) (ops : List Operation)
    (t : σ × Footprint) : Prop where
  fails : (∃ e, Raises b ops t e) ↔ ∃ before, before <+: ops ∧ FailsAfter b ops t before
  slots {before : List Operation} : FailsAfter b ops t before →
    (execute b ops t).2.2.slots = (t.2.fillAll (readings (table t.1).rows before)).slots
  others {before : List Operation} {name : String} : FailsAfter b ops t before →
    (∀ op ∈ before, op.slot? ≠ some name) → (execute b ops t).2.2.slot name = t.2.slot name

/-- A slot receives what a read that names it selects from the record that it meets. -/
theorem mem_readings_iff {rows : Rows} {slot : String} {r : Record} :
    (slot, r) ∈ readings rows ops ↔ ∃ i op p data stored, ops[i]? = some op ∧
      op.action = .read p (some slot) ∧ base rows ops i (Key.pack op.key) = some data ∧
      Record.decode data = .ok stored ∧ Record.select p stored = some r := by
  simp only [readings, List.mem_filterMap, Prod.exists, List.mk_mem_zipIdx_iff_getElem?]
  constructor
  · rintro ⟨op, i, hop, hreading⟩
    rw [reading] at hreading
    split at hreading
    · next p slot' haction =>
      simp only [Option.bind_eq_bind, Option.bind_eq_some_iff, Option.pure_def, Option.some.injEq,
        Prod.mk.injEq] at hreading
      obtain ⟨data, hbase, stored, hdecode, selected, hselect, rfl, rfl⟩ := hreading
      cases hstored : Record.decode data with
      | error e => simp [hstored, Except.toOption] at hdecode
      | ok r =>
        obtain rfl : r = stored := by simpa [hstored, Except.toOption] using hdecode
        exact ⟨i, op, p, data, r, hop, haction, hbase, hstored, hselect⟩
    · cases hreading
  · rintro ⟨i, op, p, data, stored, hop, haction, hbase, hdecode, hselect⟩
    refine ⟨op, i, hop, ?_⟩
    simp [reading, haction, hbase, hdecode, hselect, Except.toOption]

theorem slot_fillAll_of_ne {readings : List (String × Record)} {name : String}
    (h : ∀ x ∈ readings, x.1 ≠ name) (f : Footprint) :
    (f.fillAll readings).slot name = f.slot name := by
  induction readings generalizing f with
  | nil => rfl
  | cons x rest ih =>
    obtain ⟨hx, hrest⟩ := List.forall_mem_cons.mp h
    have hfill := ih hrest (f.fill x.1 x.2)
    rw [Footprint.slot_fill, if_neg hx.symm] at hfill
    exact hfill

theorem uncommittedReads (T : b.Transactional) (ops : List Operation) (t : σ × Footprint) :
    UncommittedReads b T.table ops t := by
  have hslots : ∀ {before}, FailsAfter b ops t before → (execute b ops t).2.2.slots =
      (t.2.fillAll (readings (T.table t.1).rows before)).slots := by
    intro before h
    obtain ⟨e, t', hrun, hslots⟩ := h.run T
    rw [execute_of_run_error h.ne_nil hrun]
    exact hslots
  refine ⟨⟨?_, ?_⟩, hslots, ?_⟩
  · rintro ⟨e, h⟩
    obtain ⟨e', t', hrun⟩ := h.run_fails
    exact failsAfter_of_run h.ne_nil hrun
  · rintro ⟨before, -, h⟩
    obtain ⟨e, t', hrun, -⟩ := h.run T
    exact exists_raises_of_run_fails h.ne_nil hrun
  · intro before name h hname
    rw [Footprint.slot, hslots h]
    apply slot_fillAll_of_ne
    rintro ⟨slot, r⟩ hmem rfl
    obtain ⟨i, op, p, -, -, hop, haction, -⟩ := mem_readings_iff.mp hmem
    exact hname op (List.mem_of_getElem? hop) (by rw [Operation.slot?, haction])

end Batch

/-- A batch on a store that is not committed, whatever is wrong with it, the store or its records,
and whatever strikes the transaction, leaves what its reads found before it failed in their slots,
and the other slots as they were. -/
theorem Batch.execute_uncommittedReads (ops : List Operation) (c : Connection) (f : Footprint) :
    UncommittedReads Connection.backend (·.store.table) ops (c, f) ∧
      ∀ (o : Outage) (n : Nat), UncommittedReads o.backend (·.1.store.table) ops ((c, n), f) :=
  ⟨uncommittedReads Connection.transactional ops (c, f),
    fun o n => uncommittedReads o.transactional ops ((c, n), f)⟩

/-- A read that finds a record which the same batch inserts keeps it in its slot, although a later
read cannot be decoded and nothing is committed. -/
theorem Shared.execute_keeps_uncommitted_read :
    let D : KeyMap Bytes := KeyMap.empty.insert (Key.pack "DB:t:bad") [127]
    let w : Shared := ⟨{ Store.new "kv" true with table := .holding D }, .empty⟩
    let ops : List Operation :=
      [⟨"t", "DB:t:k", .insert (.ofList [("a", .text "1")])⟩,
        ⟨"t", "DB:t:k", .read .all (some "r")⟩, ⟨"t", "DB:t:bad", .read .all none⟩]
    (∃ e, Raises Connection.backend ops (⟨w.store, .finished⟩, w.footprint) e) ∧
      (w.execute ops).2.store.table.rows (Key.pack "DB:t:k") = none ∧
      (w.execute ops).2.footprint.slot "r" = .ofList [("a", "1")] ∧
      ¬ ∀ op ∈ ops, ∀ slot, op.slot? = some slot →
        (w.execute ops).2.footprint.slot slot = w.footprint.slot slot := by
  intro D w ops
  have hslot : (w.execute ops).2.footprint.slot "r" = .ofList [("a", "1")] := by decide +kernel
  have hrow : (w.execute ops).2.store.table.rows (Key.pack "DB:t:k") = none := by decide +kernel
  have hraises : ∃ e, Raises Connection.backend ops (⟨w.store, .finished⟩, w.footprint) e := by
    rcases hrun : (Connection.backend.beside Footprint).run (body Connection.backend ops)
      ((⟨w.store, .finished⟩ : Connection), w.footprint) with ⟨e | status, t'⟩
    · exact exists_raises_of_run_fails (List.cons_ne_nil _ _) hrun
    -- Had the batch been committed, the inserted row would be there.
    · obtain ⟨-, -, hrows, -⟩ := run_ok Connection.transactional hrun
      have hafter : (after w.store.table.rows ops (Key.pack "DB:t:k")).isSome = true := by
        decide +kernel
      have hsome : (t'.1.store.table.rows (Key.pack "DB:t:k")).isSome = true :=
        (congrFun hrows (Key.pack "DB:t:k")).symm ▸ hafter
      rw [execute_store, execute_of_run_ok (List.cons_ne_nil _ _) hrun] at hrow
      rw [hrow] at hsome
      cases hsome
  refine ⟨hraises, hrow, hslot, fun h => ?_⟩
  have hsame := h _ (List.mem_cons_of_mem _ List.mem_cons_self) "r" rfl
  rw [hslot] at hsame
  exact absurd hsame (by decide)

end RecordStore
