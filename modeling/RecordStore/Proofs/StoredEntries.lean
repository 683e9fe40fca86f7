import RecordStore.Proofs.Bodies
import RecordStore.Proofs.SessionSteps

/-! # What is stored

A condition on keys and values holds of everything stored as long as it holds of everything written:
what a transaction sets, what an insert packs, and what an update makes of a row of which it holds
already. Nothing else gets into the table, whatever fails on the way.
-/

namespace RecordStore

variable {P : Bytes → Bytes → Prop}

def Table.Holds (P : Bytes → Bytes → Prop) (t : Table) : Prop :=
  ∀ ⦃key data⦄, t.rows key = some data → P key data

def Transaction.Holds (P : Bytes → Bytes → Prop) : Transaction → Prop
  | .active b => ∀ ⦃key data⦄, b.writes.get? key = some (some data) → P key data
  | .finished => True

structure Connection.Holds (P : Bytes → Bytes → Prop) (c : Connection) : Prop where
  table : c.store.table.Holds P
  transaction : c.transaction.Holds P

/-- The condition holds of what a step writes, if the key is not too long. -/
def Transaction.Step.Admits (P : Bytes → Bytes → Prop) : Step → Prop
  | .set key value => key.length ≤ maxKeyBytes → P key value
  | _ => True

/-- The condition holds of the row that an operation writes, and of what it makes of a row if it
holds of that row. -/
def Operation.Admits (P : Bytes → Bytes → Prop) (op : Operation) : Prop :=
  match op.action with
  | .insert values => ∀ data, values.encode = .ok data →
      (Key.pack op.key).length ≤ maxKeyBytes → P (Key.pack op.key) data
  | .update values => ∀ old data, P (Key.pack op.key) old →
      Batch.merge values (some old) = some data → P (Key.pack op.key) data
  | _ => True

def Short (key _data : Bytes) : Prop := key.length ≤ maxKeyBytes

theorem Transaction.Step.admits_short (st : Step) : st.Admits Short := by
  cases st with
  | set key value => exact id
  | _ => trivial

theorem Operation.admits_short (op : Operation) : op.Admits Short := by
  unfold Admits
  split
  · exact fun _ _ hkey => hkey
  · exact fun _ _ hkey _ => hkey
  · trivial

def Batch.Pending.Admits (P : Bytes → Bytes → Prop) (p : Pending) : Prop :=
  ∀ data, p.outcome = .ok (.merged data) → P (Key.pack p.key) data

namespace Connection

open Attempt
open Transaction (Step Reply)

variable {c c' : Connection} {key value data : Bytes}

theorem holds_finished {s : Store} (h : s.table.Holds P) : Holds P ⟨s, .finished⟩ :=
  ⟨h, trivial⟩

theorem keeps_begin (readYourWrites : Bool) : (backend.begin readYourWrites).Keeps (Holds P) := by
  intro c h
  rcases hbegin : backend.begin readYourWrites c with ⟨r, c'⟩
  rcases begin_cases hbegin with ⟨-, rfl⟩ | ⟨-, -, -, links, link, rfl⟩
  · exact h
  · exact ⟨h.table, nofun⟩

theorem keeps_ask {α : Type} {f : Store → Transaction → Except Fault α}
    {after : Store → Transaction → Transaction}
    (hafter : ∀ s t, t.Holds P → (after s t).Holds P) : (ask f after).Keeps (Holds P) :=
  fun _ h => ⟨h.table, hafter _ _ h.transaction⟩

theorem keeps_get (key : Bytes) : (backend.get key).Keeps (Holds P) :=
  keeps_ask fun _ t h => by cases t <;> exact h

theorem keeps_range (first last : Bytes) (limit : Int) :
    (backend.range first last limit).Keeps (Holds P) :=
  keeps_ask fun _ t h => by cases t <;> exact h

theorem holds_insert {s : Store} {b : Buffer} (h : Holds P ⟨s, .active b⟩) {row : Option Bytes}
    (hrow : ∀ data, row = some data → P key data) :
    Holds P ⟨s, .active { b with writes := b.writes.insert key row }⟩ := by
  refine ⟨h.table, fun other data hwritten => ?_⟩
  rw [KeyMap.get?_insert] at hwritten
  split at hwritten
  · next heq =>
    subst heq
    exact hrow data (Option.some.inj hwritten)
  · exact h.transaction hwritten

theorem keeps_set (h : key.length ≤ maxKeyBytes → P key value) :
    (backend.set key value).Keeps (Holds P) := by
  intro c hc
  rcases hset : backend.set key value c with ⟨r, c'⟩
  rcases buffer_cases hset with ⟨_, _, rfl⟩ | ⟨t, ht, _, rfl⟩
  · exact hc
  · obtain ⟨s, _⟩ := c
    obtain ⟨b, rfl, hkey, rfl⟩ := Transaction.set_eq_ok_iff.mp ht
    exact holds_insert hc fun data hdata => Option.some.inj hdata ▸ h hkey

theorem keeps_clear (key : Bytes) : (backend.clear key).Keeps (Holds P) := by
  intro c hc
  rcases hclear : backend.clear key c with ⟨r, c'⟩
  rcases buffer_cases hclear with ⟨_, _, rfl⟩ | ⟨t, ht, _, rfl⟩
  · exact hc
  · obtain ⟨s, _⟩ := c
    obtain ⟨b, rfl, rfl⟩ := Transaction.clear_eq_ok_iff.mp ht
    exact holds_insert hc nofun

theorem Holds.rows (h : c.Holds P) (hrow : c.rows key = some data) : P key data := by
  obtain ⟨s, b | _⟩ := c
  · simp only [Connection.rows] at hrow
    cases hwritten : b.writes.get? key with
    | none =>
      rw [hwritten] at hrow
      exact h.table hrow
    | some row =>
      rw [hwritten] at hrow
      obtain rfl : row = some data := hrow
      exact h.transaction hwritten
  · exact h.table hrow

theorem keeps_commit : backend.commit.Keeps (Holds P) := by
  intro c h
  rcases hcommit : backend.commit c with ⟨r, c'⟩
  rcases commit_cases hcommit with ⟨_, _, _, rfl⟩ | ⟨_, _, table, _, _, _, rfl, htable, _⟩
  · exact holds_finished h.table
  · exact holds_finished fun key data hrow => h.rows (by rwa [← htable])

theorem holds_abandon (e : Fault) (c : Connection) (h : c.Holds P) : (abandon e c).2.Holds P := by
  obtain ⟨links, habandon⟩ := abandon_eq e c
  rw [habandon]
  exact holds_finished h.table

theorem keeps_rollback : backend.rollback.Keeps (Holds P) := fun c h =>
  holds_abandon .storeClosed c h

theorem keeps_perform {st : Step} (hst : st.Admits P) : (perform st).Keeps (Holds P) := by
  cases st with
  | get key => exact fun c h => keeps_get key c h
  | set key value => exact (keeps_set hst).map _
  | clear key => exact (keeps_clear key).map _
  | range first last limit => exact fun c h => keeps_range first last limit c h
  | commit => exact keeps_commit.map _
  | rollback => exact keeps_rollback.map _
  | refuse =>
    intro c h
    refine ⟨h.table, ?_⟩
    obtain ⟨s, b | _⟩ := c
    · exact h.transaction
    · exact h.transaction

theorem keeps_performAll {steps : List Step} (h : ∀ st ∈ steps, st.Admits P) :
    (performAll steps).Keeps (Holds P) := by
  induction steps with
  | nil => exact keeps_pure _
  | cons st rest ih =>
    rw [List.forall_mem_cons] at h
    exact (keeps_perform h.1).bind fun _ => (ih h.2).bind fun _ => keeps_pure _

theorem Holds.get (h : c.Holds P) (hget : backend.get key c = (.ok (.ok (some data)), c')) :
    P key data := by
  obtain ⟨s, b | _⟩ := c
  · have hget' : (Transaction.active b).get s key = .ok (.ok (some data)) := congrArg Prod.fst hget
    simp only [Transaction.get] at hget'
    split at hget'
    · next row hfind =>
      obtain rfl : row = some data := Except.ok.inj (Except.ok.inj hget')
      unfold Buffer.find? at hfind
      split at hfind
      · exact h.transaction hfind
      · cases hfind
    · split at hget'
      · have hfetch : Transaction.fetch s key = .ok (some data) := Except.ok.inj hget'
        unfold Transaction.fetch at hfetch
        split at hfetch
        · next D hD =>
          have hrow : s.table.rows key = some data := by
            rw [hD]
            exact Except.ok.inj hfetch
          exact h.table hrow
        · cases hfetch
      · cases hget'
  · cases hget

end Connection

theorem Body.holds_perform {α : Type} {body : Body α} {c : Connection} (h : c.Holds P)
    (hbody : ∀ x ∈ body.history c, x.1.Admits P) : (body.perform c).2.Holds P := by
  induction body generalizing c with
  | done result => exact h
  | step st next ih =>
    rw [Body.history, List.forall_mem_cons] at hbody
    exact ih _ (Connection.keeps_perform hbody.1 c h) hbody.2

theorem Store.holds_run {α : Type} {m : Attempt Connection α} {s : Store} (h : s.table.Holds P)
    (hm : s.opened.Holds P → (m s.opened).2.Holds P) : (run m s).2.table.Holds P := by
  have hrun : (Connection.backend.run m ⟨s, .finished⟩).2.Holds P := by
    refine Backend.run_keeps (Connection.keeps_begin true) Connection.keeps_commit
      Connection.holds_abandon (fun c hbegin hc => ?_) (Connection.holds_finished h)
    have hopened : s.opened = c := congrArg Prod.snd hbegin
    rw [← hopened] at hc ⊢
    exact hm hc
  exact hrun.table

namespace Batch

open Connection (backend)

variable {c c' : Connection} {op : Operation} {ops : List Operation} {p : Pending}
  {pending : List Pending} {u u' : Connection × Footprint}

theorem admits_of_request {request : Request} {row : Except Fault (Option Bytes)}
    (hop : op.Admits P) (hrequest : op.request? = some request)
    (hrow : ∀ data, row = .ok (some data) → P (Key.pack op.key) data) :
    Pending.Admits P ⟨op.key, request, row⟩ := by
  intro data houtcome
  obtain ⟨v, rfl⟩ : ∃ v, row = .ok v := row_of_outcome ⟨_, houtcome⟩
  cases request with
  | read p slot => exact (settle_read_ne_merged p slot v data houtcome).elim
  | update values =>
    have hmerge : merge values v = some data := settle_update_eq_merged_iff.mp houtcome
    cases v with
    | none => cases hmerge
    | some old =>
      have haction : op.action = .update values := by
        unfold Operation.request? at hrequest
        split at hrequest <;> simp_all
      unfold Operation.Admits at hop
      rw [haction] at hop
      exact hop old data (hrow old rfl) hmerge

theorem send_holds (h : c.Holds P) (hop : op.Admits P) {r : Except Fault (Option Pending)}
    (hsend : send backend op c = (r, c')) :
    c'.Holds P ∧ ∀ p, r = .ok (some p) → p.Admits P := by
  -- Neither an insert nor a delete is waited for.
  have hnone : ∀ (r' : Except Fault Unit) (p : Pending), (r'.map fun _ => none) = .ok (some p) →
      p.Admits P := fun r' p hp => by cases r' <;> cases hp
  rcases send_cases hsend with ⟨_, _, _, _, rfl, rfl⟩ |
    ⟨values, data, r', haction, hencode, hset, rfl⟩ | ⟨r', haction, hclear, rfl⟩ |
    ⟨request, r', hrequest, hget, rfl⟩
  · exact ⟨h, fun p hp => by cases hp⟩
  · unfold Operation.Admits at hop
    rw [haction] at hop
    have hkeeps := Connection.keeps_set (hop data hencode) c h
    rw [hset] at hkeeps
    exact ⟨hkeeps, hnone r'⟩
  · have hkeeps := Connection.keeps_clear (Key.pack op.key) c h
    rw [hclear] at hkeeps
    exact ⟨hkeeps, hnone r'⟩
  · have hkeeps := Connection.keeps_get (Key.pack op.key) c h
    rw [hget] at hkeeps
    refine ⟨hkeeps, fun p hp => ?_⟩
    cases r' with
    | error e => cases hp
    | ok row =>
      cases hp
      exact admits_of_request hop hrequest fun data hrow => h.get (by rw [hget, hrow])

theorem dispatch_holds (h : c.Holds P) (hops : ∀ op ∈ ops, op.Admits P)
    {r : Except Fault (List Pending)} (hdispatch : dispatch backend ops c = (r, c')) :
    c'.Holds P :=
  dispatch_isLoop.preserves_of_mem
    (fun op hmem _ _ _ hsend hc => (send_holds hc (hops op hmem) hsend).1) hdispatch h

theorem admits_of_dispatch (h : c.Holds P) (hops : ∀ op ∈ ops, op.Admits P)
    (hdispatch : dispatch backend ops c = (.ok pending, c')) : ∀ p ∈ pending, p.Admits P := by
  induction ops generalizing c pending with
  | nil =>
    cases hdispatch
    exact List.forall_mem_nil _
  | cons op rest ih =>
    rw [List.forall_mem_cons] at hops
    obtain ⟨sent, c₁, others, hsend, hrest, rfl⟩ := dispatch_cons_eq_ok_iff.mp hdispatch
    obtain ⟨hc₁, hsent⟩ := send_holds h hops.1 hsend
    intro p hp
    rcases List.mem_append.mp hp with hp | hp
    · exact hsent p (congrArg Except.ok (Option.mem_toList.mp hp))
    · exact ih hc₁ hops.2 hrest p hp

theorem resolve_holds (h : u.1.Holds P) (hp : p.Admits P) {r : Except Fault Status}
    (hresolve : resolve backend p u = (r, u')) : u'.1.Holds P := by
  rcases resolve_cases hresolve with ⟨_, _, _, rfl⟩ | ⟨data, _, c', houtcome, hset, _, rfl⟩ |
    ⟨_, _, _, rfl⟩
  · exact h
  · have hkeeps := Connection.keeps_set (fun _ => hp data houtcome) u.1 h
    rwa [hset] at hkeeps
  · exact h

theorem body_holds (h : u.1.Holds P) (hops : ∀ op ∈ ops, op.Admits P) :
    (body backend ops u).2.1.Holds P :=
  body_induction (Q := fun v : Connection × Footprint => v.1.Holds P)
    (fun _ _ hsend => dispatch_holds h hops hsend)
    (fun _ _ hsend p hp _ _ _ hresolve hv =>
      resolve_holds hv (admits_of_dispatch h hops hsend p hp) hresolve)
    (fun _ _ _ hv => hv) rfl

/-- A request of a batch that merges finds a key that is not too long, so that its record can be
written. -/
theorem set_of_reaches {s : Store} {f : Footprint} {data : Bytes}
    (h : s.table.Holds Short)
    (hreaches : Reaches backend ops (⟨s, .finished⟩, f) p u)
    (houtcome : p.outcome = .ok (.merged data)) :
    (backend.set (Key.pack p.key) data u.1).1 = .ok () := by
  obtain ⟨c₁, before, rest, c₂, statuses, hbegin, hdispatch, hresolve⟩ := hreaches
  have hc₁ : c₁.Holds Short := by
    have hkeeps := Connection.keeps_begin true ⟨s, .finished⟩ (Connection.holds_finished h)
    rwa [hbegin] at hkeeps
  have hkey : (Key.pack p.key).length ≤ maxKeyBytes :=
    admits_of_dispatch hc₁ (fun op _ => op.admits_short) hdispatch p (by simp) data houtcome
  have hrunning : u.1.Running := resolveAll_keeps Connection.keeps_running hresolve
    (dispatch_keeps Connection.keeps_running hdispatch
      (Connection.transactional.begin_running hbegin))
  obtain ⟨b, hactive, -⟩ := hrunning
  have hset : u.1.transaction.set (Key.pack p.key) data = .ok _ :=
    Transaction.set_eq_ok_iff.mpr ⟨b, hactive, hkey, rfl⟩
  simp only [backend, Connection.buffer, hset]

theorem reaches_of_ready {s : Store} (hready : s.Ready) (hops : ∀ op ∈ ops, Sendable op)
    (hask : ask s.table.rows ops = p :: pending) (f : Footprint) :
    ∃ u, Reaches backend ops (⟨s, .finished⟩, f) p u := by
  obtain ⟨links, link, hbegin⟩ :=
    Connection.begin_ok (c := ⟨s, .finished⟩) hready.1 hready.2.1 true
  have hhealthy : Connection.Healthy ⟨{ s with links }, .active ⟨true, .empty, false, link⟩⟩ :=
    ⟨hready, _, rfl, rfl⟩
  obtain ⟨sent, c₂, hdispatch, -, hrows⟩ := dispatch_serves Connection.serves hhealthy hops
  have hsent : sent = p :: pending :=
    ((dispatch_ok Connection.transactional ⟨_, rfl, rfl⟩ hdispatch).2 hrows).trans hask
  rw [hsent] at hdispatch
  exact ⟨_, _, [], pending, c₂, [], hbegin, hdispatch, rfl⟩

end Batch

theorem Shared.execute_holds {w : Shared} (h : w.store.table.Holds P) {ops : List Operation}
    (hops : ∀ op ∈ ops, op.Admits P) : (w.execute ops).2.store.table.Holds P := by
  by_cases hne : ops = []
  · rw [hne]
    exact h
  have hrun : ((Connection.backend.beside Footprint).run (Batch.body Connection.backend ops)
      (⟨w.store, .finished⟩, w.footprint)).2.1.Holds P := by
    refine Backend.run_keeps (Q := fun u : Connection × Footprint => u.1.Holds P)
      (fun u hu => Connection.keeps_begin true u.1 hu)
      (fun u hu => Connection.keeps_commit u.1 hu)
      (fun e u hu => Connection.holds_abandon e u.1 hu)
      (fun u _ hu => Batch.body_holds hu hops) (Connection.holds_finished h)
  rw [execute_store]
  rcases hresult : (Connection.backend.beside Footprint).run (Batch.body Connection.backend ops)
      (⟨w.store, .finished⟩, w.footprint) with ⟨e | status, u⟩
  · rw [hresult] at hrun
    rw [Batch.execute_of_run_error hne hresult]
    exact hrun.table
  · rw [hresult] at hrun
    rw [Batch.execute_of_run_ok hne hresult]
    exact hrun.table

end RecordStore
