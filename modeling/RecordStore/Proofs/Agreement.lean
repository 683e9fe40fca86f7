import RecordStore.Proofs.BatchRun
import RecordStore.Scan

/-! # States that look alike

Two states may differ in what a batch or a scan does not look at. If the calls to the backend answer
alike on such states and leave such states behind, then so do whole batches and scans.
-/

namespace RecordStore

namespace Attempt

variable {σ ω α β γ : Type} {R : σ → σ → Prop}

/-- On related states the step answers alike or fails on both, and it leaves related states. -/
def Respects (R : σ → σ → Prop) (m : Attempt σ α) : Prop :=
  ∀ s t, R s t → (m s).1.toOption = (m t).1.toOption ∧ R (m s).2 (m t).2

theorem respects_pure (a : α) : Respects R (pure a : Attempt σ α) := fun _ _ h => ⟨rfl, h⟩

theorem respects_ofExcept (r : Except Fault α) : Respects R (ofExcept r : Attempt σ α) :=
  fun _ _ h => ⟨rfl, h⟩

theorem respects_fail (e : Fault) : Respects R (fail e : Attempt σ α) := respects_ofExcept _

theorem Respects.cases {m : Attempt σ α} (hm : Respects R m) {s t : σ} (h : R s t) :
    (∃ e e' s' t', m s = (.error e, s') ∧ m t = (.error e', t') ∧ R s' t') ∨
      ∃ a s' t', m s = (.ok a, s') ∧ m t = (.ok a, t') ∧ R s' t' := by
  obtain ⟨hanswer, hafter⟩ := hm s t h
  rcases hs : m s with ⟨e | a, s'⟩ <;> rcases ht : m t with ⟨e' | a', t'⟩ <;>
    rw [hs, ht] at hanswer hafter
  · exact .inl ⟨e, e', s', t', rfl, rfl, hafter⟩
  · cases hanswer
  · cases hanswer
  · obtain rfl : a = a' := Option.some.inj hanswer
    exact .inr ⟨a, s', t', rfl, rfl, hafter⟩

theorem Respects.bind {m : Attempt σ α} {f : α → Attempt σ β} (hm : Respects R m)
    (hf : ∀ a, Respects R (f a)) : Respects R (m >>= f) := by
  intro s t h
  rw [bind_eq, bind_eq]
  rcases hm.cases h with ⟨e, e', s', t', hs, ht, hafter⟩ | ⟨a, s', t', hs, ht, hafter⟩
  · rw [hs, ht]
    exact ⟨rfl, hafter⟩
  · rw [hs, ht]
    exact hf a s' t' hafter

theorem Respects.map {m : Attempt σ α} (hm : Respects R m) (f : α → β) :
    Respects R (m >>= fun a => pure (f a)) :=
  hm.bind fun a => respects_pure (f a)

def Both (R : σ → σ → Prop) (S : ω → ω → Prop) (s t : σ × ω) : Prop := R s.1 t.1 ∧ S s.2 t.2

theorem Respects.onFirst {S : ω → ω → Prop} {m : Attempt σ α} (hm : Respects R m) :
    Respects (Both R S) (m.onFirst : Attempt (σ × ω) α) := by
  rintro ⟨s, w⟩ ⟨t, w'⟩ ⟨h, hw⟩
  obtain ⟨hanswer, hafter⟩ := hm s t h
  exact ⟨hanswer, hafter, hw⟩

theorem respects_changeSecond {S : ω → ω → Prop} {f : ω → ω}
    (hf : ∀ w w', S w w' → S (f w) (f w')) :
    Respects (Both R S) (changeSecond f : Attempt (σ × ω) Unit) :=
  fun _ _ h => ⟨rfl, h.1, hf _ _ h.2⟩

theorem IsLoop.respects {step : α → Attempt σ β} {join : β → γ → γ} {loop : List α → Attempt σ γ}
    (h : IsLoop step join loop) {items : List α} (hitems : ∀ item ∈ items, Respects R (step item)) :
    Respects R (loop items) := by
  induction items with
  | nil =>
    obtain ⟨c, hnil⟩ := h.nil
    rw [hnil]
    exact respects_pure c
  | cons item rest ih =>
    rw [h.cons]
    have hrest := ih fun other hmem => hitems other (List.mem_cons_of_mem _ hmem)
    exact (hitems item List.mem_cons_self).bind fun x => hrest.map (join x)

end Attempt

open Attempt

/-- The calls of a backend respect a relation, if no other keys are read than those given. -/
structure Backend.Respects {σ : Type} (b : Backend σ) (R : σ → σ → Prop) (K : Bytes → Prop) :
    Prop where
  begin (readYourWrites : Bool) : Attempt.Respects R (b.begin readYourWrites)
  get {key : Bytes} : K key → Attempt.Respects R (b.get key)
  set (key value : Bytes) : Attempt.Respects R (b.set key value)
  clear (key : Bytes) : Attempt.Respects R (b.clear key)
  range {first last : Bytes} (limit : Int) : (∀ key, ¬ key < first → key < last → K key) →
    Attempt.Respects R (b.range first last limit)
  commit : Attempt.Respects R b.commit
  rollback : Attempt.Respects R b.rollback
  abandon (e e' : Fault) {s t : σ} : R s t → R (b.abandon e s).2 (b.abandon e' t).2

def Footprint.AgreesOn (S : String → Prop) (f f' : Footprint) : Prop :=
  ∀ name, S name → f.slot name = f'.slot name

variable {σ : Type} {b : Backend σ} {R : σ → σ → Prop} {K : Bytes → Prop} {S : String → Prop}

theorem Footprint.AgreesOn.fill {f f' : Footprint} (h : f.AgreesOn S f') (name : String)
    (r : Record) : (f.fill name r).AgreesOn S (f'.fill name r) := by
  intro other hother
  rw [slot_fill, slot_fill]
  split
  · next hname => rw [h name (hname ▸ hother)]
  · exact h other hother

theorem report_respects (e : Event) : Attempt.Respects (Both R (Footprint.AgreesOn S))
    (changeSecond (·.report e) : Attempt (σ × Footprint) Unit) :=
  respects_changeSecond fun _ _ h => h

namespace Batch

theorem send_respects (hb : b.Respects R K) {op : Operation} (hop : K (Key.pack op.key)) :
    Attempt.Respects R (send b op) := by
  unfold send
  dsimp only
  split
  · split
    · exact respects_fail _
    · exact (hb.set _ _).map _
  · exact (hb.clear _).map _
  · exact (hb.get hop).map _
  · exact (hb.get hop).map _

theorem dispatch_respects (hb : b.Respects R K) {ops : List Operation}
    (hops : ∀ op ∈ ops, K (Key.pack op.key)) : Attempt.Respects R (dispatch b ops) :=
  dispatch_isLoop.respects fun op hop => send_respects hb (hops op hop)

theorem resolve_respects (hb : b.Respects R K) (p : Pending) :
    Attempt.Respects (Both R (Footprint.AgreesOn S)) (resolve b p) := by
  refine (respects_ofExcept p.outcome).bind fun outcome => ?_
  cases outcome with
  | missing => exact (report_respects _).map _
  | incomplete => exact respects_pure _
  | found r slot =>
    have hfill : Attempt.Respects (Both R (Footprint.AgreesOn S)) (changeSecond fun f =>
        slot.elim f (f.fill · r) : Attempt (σ × Footprint) Unit) := by
      apply respects_changeSecond
      intro f f' h
      cases slot with
      | none => exact h
      | some name => exact h.fill name r
    exact hfill.map _
  | merged data => exact (hb.set _ data).onFirst.map _

theorem body_respects (hb : b.Respects R K) {ops : List Operation}
    (hops : ∀ op ∈ ops, K (Key.pack op.key)) :
    Attempt.Respects (Both R (Footprint.AgreesOn S)) (body b ops) := by
  refine (dispatch_respects hb hops).onFirst.bind fun pending => ?_
  have hresolve : Attempt.Respects (Both R (Footprint.AgreesOn S)) (resolveAll b pending) :=
    resolveAll_isLoop.respects fun p _ => resolve_respects hb p
  exact hresolve.bind fun statuses => (report_respects _).map _

theorem guard_respects (hb : b.Respects R K) {ops : List Operation}
    (hops : ∀ op ∈ ops, K (Key.pack op.key)) :
    Attempt.Respects (Both R (Footprint.AgreesOn S)) ((b.beside Footprint).guard (body b ops)) := by
  intro t t' h
  unfold Backend.guard
  rcases (body_respects hb hops).cases h with ⟨e, e', u, u', ht, ht', hafter⟩ |
    ⟨status, u, u', ht, ht', hafter⟩
  · rw [ht, ht']
    exact ⟨rfl, hb.abandon e e' hafter.1, hafter.2⟩
  · rw [ht, ht']
    exact ⟨rfl, hafter⟩

theorem run_respects (hb : b.Respects R K) {ops : List Operation}
    (hops : ∀ op ∈ ops, K (Key.pack op.key)) :
    Attempt.Respects (Both R (Footprint.AgreesOn S)) ((b.beside Footprint).run (body b ops)) := by
  have hbegin : Attempt.Respects (Both R (Footprint.AgreesOn S))
      ((b.beside Footprint).begin true) := (hb.begin true).onFirst
  have hcommit : Attempt.Respects (Both R (Footprint.AgreesOn S)) (b.beside Footprint).commit :=
    hb.commit.onFirst
  exact hbegin.bind fun _ => (guard_respects hb hops).bind fun status => hcommit.map _

theorem execute_respects (hb : b.Respects R K) {ops : List Operation}
    (hops : ∀ op ∈ ops, K (Key.pack op.key)) {t t' : σ × Footprint}
    (h : Both R (Footprint.AgreesOn S) t t') : (execute b ops t).1 = (execute b ops t').1 ∧
      Both R (Footprint.AgreesOn S) (execute b ops t).2 (execute b ops t').2 := by
  unfold execute
  split
  · exact ⟨rfl, h⟩
  · rcases (run_respects hb hops).cases h with ⟨e, e', u, u', ht, ht', hafter⟩ |
      ⟨status, u, u', ht, ht', hafter⟩
    · rw [ht, ht']
      exact ⟨rfl, hafter⟩
    · rw [ht, ht']
      exact ⟨rfl, hafter⟩

section Slots

variable {s s' : σ} {t t' : σ × Footprint} {ops : List Operation}

theorem request_of_found {p : Pending} {r : Record} {slot : Option String}
    (h : p.outcome = .ok (.found r slot)) : ∃ q, p.request = .read q slot := by
  obtain ⟨key, request, row⟩ := p
  cases row with
  | error e => cases h
  | ok row =>
    cases request with
    | update values => exact (settle_update_ne_found values row r slot h).elim
    | read q slot' =>
      cases row with
      | none => cases h
      | some data =>
        simp only [Pending.outcome, Except.bind, settle] at h
        split at h
        · cases h
        · cases h
        · cases h
          exact ⟨q, rfl⟩

theorem resolve_slots {p : Pending} (hp : ∀ q name, p.request = .read q (some name) → ¬ S name)
    {r : Except Fault Status} (h : resolve b p t = (r, t')) (f : Footprint)
    (hf : f.AgreesOn S t.2) : f.AgreesOn S t'.2 := by
  rcases resolve_cases h with ⟨_, _, _, rfl⟩ | ⟨_, _, _, _, _, _, rfl⟩ | ⟨_, _, _, rfl⟩
  · exact hf
  · exact hf
  · unfold Pending.trace
    split
    · exact hf
    · next r slot houtcome =>
      obtain ⟨q, hrequest⟩ := request_of_found houtcome
      cases slot with
      | none => exact hf
      | some name =>
        intro other hother
        have hne : other ≠ name := fun heq => hp q name hrequest (heq ▸ hother)
        rw [Option.elim_some, Footprint.slot_fill, if_neg hne]
        exact hf other hother
    · exact hf

theorem request_of_send {op : Operation} {p : Pending} (h : send b op s = (.ok (some p), s')) :
    op.request? = some p.request := by
  rcases send_cases h with ⟨_, _, _, _, hr, _⟩ | ⟨_, _, r, _, _, _, hr⟩ | ⟨r, _, _, hr⟩ |
    ⟨request, r, hrequest, _, hr⟩
  · cases hr
  · cases r <;> simp [Except.map] at hr
  · cases r <;> simp [Except.map] at hr
  · cases r with
    | error e => simp [Except.map] at hr
    | ok row =>
      obtain rfl : p = ⟨op.key, request, row⟩ := by simpa [Except.map] using hr
      exact hrequest

theorem request_of_dispatch {pending : List Pending} (h : dispatch b ops s = (.ok pending, s'))
    {p : Pending} (hp : p ∈ pending) : ∃ op ∈ ops, op.request? = some p.request := by
  induction ops generalizing s pending with
  | nil =>
    cases h
    cases hp
  | cons op rest ih =>
    obtain ⟨sent, t, others, hsend, hrest, rfl⟩ := dispatch_cons_eq_ok_iff.mp h
    rcases List.mem_append.mp hp with hp | hp
    · rw [Option.mem_toList.mp hp] at hsend
      exact ⟨op, List.mem_cons_self, request_of_send hsend⟩
    · obtain ⟨op', hop', hrequest⟩ := ih hrest hp
      exact ⟨op', List.mem_cons_of_mem _ hop', hrequest⟩

theorem body_slots (hops : ∀ op ∈ ops, ∀ name, op.slot? = some name → ¬ S name)
    {r : Except Fault Status} (h : body b ops t = (r, t')) (f : Footprint)
    (hf : f.AgreesOn S t.2) : f.AgreesOn S t'.2 := by
  refine body_induction (Q := fun u => f.AgreesOn S u.2) (fun _ _ _ => hf)
    (fun pending s₁ hdispatch p hp _ _ _ hresolve hu => ?_) (fun _ _ _ hu => hu) h
  refine resolve_slots (fun q name hrequest => ?_) hresolve f hu
  obtain ⟨op, hop, hop'⟩ := request_of_dispatch hdispatch hp
  apply hops op hop name
  rw [hrequest] at hop'
  revert hop'
  unfold Operation.request? Operation.slot?
  split <;> simp_all

/-- A batch leaves the slots alone that none of its operations names, whatever becomes of it. -/
theorem execute_slots (hops : ∀ op ∈ ops, ∀ name, op.slot? = some name → ¬ S name) :
    t.2.AgreesOn S (execute b ops t).2.2 := by
  by_cases hne : ops = []
  · subst hne
    exact fun _ _ => rfl
  have hslots : t.2.AgreesOn S ((b.beside Footprint).run (body b ops) t).2.2 :=
    Backend.run_keeps (Q := fun u : σ × Footprint => t.2.AgreesOn S u.2) (fun _ hu => hu)
      (fun _ hu => hu) (fun _ _ hu => hu) (fun _ _ hu => body_slots hops rfl t.2 hu)
      (fun _ _ => rfl)
  rcases hrun : (b.beside Footprint).run (body b ops) t with ⟨e | status, t'⟩
  · rw [hrun] at hslots
    rw [execute_of_run_error hne hrun]
    exact hslots
  · rw [hrun] at hslots
    rw [execute_of_run_ok hne hrun]
    exact hslots

end Slots

end Batch

namespace Scan

theorem range_respects (hb : b.Respects R K) {first : Except Value Bytes} {last : Bytes}
    (hrange : ∀ f, first = .ok f → ∀ key, ¬ key < f → key < last → K key) (limit : Int) :
    Attempt.Respects R (range b first last limit) := by
  cases first with
  | error v => exact respects_fail _
  | ok f => exact hb.range limit (hrange f rfl)

theorem rangeAndEnd_respects (hb : b.Respects R K) {first : Except Value Bytes} {last : Bytes}
    (hrange : ∀ f, first = .ok f → ∀ key, ¬ key < f → key < last → K key) (limit : Int) :
    Attempt.Respects R (rangeAndEnd b first last limit) := by
  intro s t h
  obtain ⟨hentries, hafter⟩ := range_respects hb hrange limit s t h
  simp only [rangeAndEnd]
  rcases hb.rollback.cases hafter with ⟨e, e', u, u', hs, ht, hafter'⟩ |
    ⟨_, u, u', hs, ht, hafter'⟩
  · rw [hs, ht]
    exact ⟨rfl, hafter'⟩
  · rw [hs, ht]
    exact ⟨hentries, hafter'⟩

theorem find_respects (hb : b.Respects R K) {first : Text} {last : String}
    (hrange : ∀ f, Key.packText first = .ok f → ∀ key, ¬ key < f → key < Key.pack last → K key)
    (limit : Int) (p : Projection) : Attempt.Respects R (find b first last limit p) := by
  have hfetch : Attempt.Respects R (fetch b (Key.packText first) (Key.pack last) (max limit 0)) :=
    (hb.begin false).bind fun _ => rangeAndEnd_respects hb hrange _
  refine hfetch.bind fun entries => ?_
  split
  · exact respects_fail _
  · exact respects_pure _

theorem scan_respects (hb : b.Respects R K) {db table : String} {start : Text}
    (hrange : ∀ f, Key.packText (Key.rowFrom db table start) = .ok f → ∀ key, ¬ key < f →
      key < Key.pack (Key.rangeEnd table (some db)) → K key) (limit : Int) (p : Projection)
    {t t' : σ × Footprint} (h : Both R (Footprint.AgreesOn S) t t') :
    (scan b db table start limit p t).1 = (scan b db table start limit p t').1 ∧
      Both R (Footprint.AgreesOn S) (scan b db table start limit p t).2
        (scan b db table start limit p t').2 := by
  simp only [scan]
  rcases (find_respects hb hrange limit p).cases h.1 with ⟨e, e', u, u', ht, ht', hafter⟩ |
    ⟨found, u, u', ht, ht', hafter⟩
  · rw [ht, ht']
    exact ⟨rfl, hafter, h.2⟩
  · rw [ht, ht']
    cases found with
    | none => exact ⟨rfl, hafter, h.2⟩
    | some records => exact ⟨rfl, hafter, h.2⟩

end Scan

end RecordStore
