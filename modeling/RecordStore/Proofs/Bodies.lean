import RecordStore.Proofs.Interleaving
import RecordStore.Proofs.SharedViews

/-! # Bodies of transactions

A body is what a caller has done in a transaction of its own. It chooses each step by the answers so
far, goes on after a fault or gives up, and may even end the transaction. As long as it does not
commit, the store takes over all of its writes or none of them.
-/

namespace RecordStore

open Transaction (Step Reply)

/-- Steps in a transaction, each chosen by the answers so far, and a result in the end. It is a step
too that the database will refuse to end the transaction, as this can happen at any time. -/
inductive Body (α : Type) where
  | done (result : Except Fault α)
  | step (st : Step) (next : Except Fault Reply → Body α)

def Transaction.Step.written? : Step × Except Fault Reply → Option (Bytes × Option Bytes)
  | (.set key value, .ok _) => some (key, some value)
  | (.clear key, .ok _) => some (key, none)
  | _ => none

def Table.carryOut (writes : Writes) : Table → Table
  | .holding D => .holding (D.carryOut writes)
  | t => t

def Store.opened (s : Store) : Connection := (Connection.backend.begin true ⟨s, .finished⟩).2

namespace Body

variable {α : Type}

/-- A fault of a step ends nothing by itself: it is an answer like any other. -/
def perform : Body α → Attempt Connection α
  | .done result => Attempt.ofExcept result
  | .step st next => fun c =>
    (next (Connection.perform st c).1).perform (Connection.perform st c).2

def history : Body α → Connection → List (Step × Except Fault Reply)
  | .done _, _ => []
  | .step st next, c =>
    (st, (Connection.perform st c).1) ::
      (next (Connection.perform st c).1).history (Connection.perform st c).2

def writes (body : Body α) (c : Connection) : Writes := (body.history c).filterMap Step.written?

theorem writes_step (st : Step) (next : Except Fault Reply → Body α) (c : Connection) :
    (Body.step st next).writes c = (Step.written? (st, (Connection.perform st c).1)).toList ++
      (next (Connection.perform st c).1).writes (Connection.perform st c).2 := by
  rw [writes, history, List.filterMap_cons]
  cases Step.written? (st, (Connection.perform st c).1) <;> rfl

theorem perform_step (st : Step) (next : Except Fault Reply → Body α) (c : Connection) :
    (Body.step st next).perform c =
      (next (Connection.perform st c).1).perform (Connection.perform st c).2 := rfl

/-- What every step carries on from the steps before it, a body carries on. -/
theorem perform_induction {P : List (Step × Except Fault Reply) → Connection → Prop}
    (hstep : ∀ past c st, P past c →
      P (past ++ [(st, (Connection.perform st c).1)]) (Connection.perform st c).2)
    (body : Body α) {past : List (Step × Except Fault Reply)} {c : Connection} (h : P past c) :
    P (past ++ body.history c) (body.perform c).2 := by
  induction body generalizing past c with
  | done result =>
    rw [history, List.append_nil]
    exact h
  | step st next ih =>
    rw [history, List.append_cons, perform_step]
    exact ih _ (hstep past c st h)

theorem perform_finished (body : Body α) (s : Store) :
    (body.perform ⟨s, .finished⟩).2 = ⟨s, .finished⟩ := by
  induction body with
  | done result => rfl
  | step st next ih =>
    rw [perform_step, Connection.perform_finished]
    exact ih _

end Body

theorem KeyMap.isEmpty_ofWrites {α : Type} (writes : List (Bytes × Option α)) :
    (ofWrites writes).entries.isEmpty = writes.isEmpty := by
  cases h : writes.isEmpty with
  | true => rw [List.isEmpty_iff.mp h]; rfl
  | false =>
    obtain ⟨before, p, rfl⟩ := (List.eq_nil_or_concat' writes).resolve_left (by simpa using h)
    have hput : (insertEntry p.1 p.2 (ofWrites before).entries).isEmpty = false := by
      cases (ofWrites before).entries with
      | nil => rfl
      | cons entry rest =>
        rw [insertEntry]
        split
        · rfl
        · split <;> rfl
    rw [ofWrites_concat]
    exact hput

namespace Connection

/-- What a commit of the writes takes: the transaction is in use, the database does not refuse to
end it, and there is a table for what was written. -/
def MayCommit (c : Connection) (writes : Writes) : Prop :=
  ∃ b, c.transaction = .active b ∧ b.refused = false ∧ (writes ≠ [] → c.store.hasTable = true)

/-- The connection of a body that began on the store and has made the writes: nothing is committed
yet, and if the transaction is in use, it has buffered what was written. -/
structure Drafts (s : Store) (writes : Writes) (c : Connection) : Prop where
  store : ∃ links, c.store = { s with links }
  buffered {b : Buffer} : c.transaction = .active b → b.writes = .ofWrites writes

namespace Drafts

variable {s : Store} {written : Writes} {c : Connection} {t : Store} {b b' : Buffer} {st : Step}

theorem table_eq (h : Drafts s written c) : c.store.table = s.table := by
  obtain ⟨links, hstore⟩ := h.store
  rw [hstore]

theorem use (h : Drafts s written ⟨t, .active b⟩) (hb : b'.writes = b.writes) :
    Drafts s written ⟨t, .active b'⟩ :=
  ⟨h.store, by rintro _ ⟨⟩; exact hb.trans (h.buffered rfl)⟩

theorem write (h : Drafts s written ⟨t, .active b⟩) (key : Bytes) (value : Option Bytes) :
    Drafts s (written ++ [(key, value)])
      ⟨t, .active { b with writes := b.writes.insert key value }⟩ := by
  refine ⟨h.store, ?_⟩
  rintro _ ⟨⟩
  rw [KeyMap.ofWrites_concat, ← h.buffered rfl]

theorem takeBack (h : Drafts s written ⟨t, .active b⟩) (l : Link) :
    Drafts s written ⟨t.takeBack l, .finished⟩ := by
  obtain ⟨links, hback⟩ := t.takeBack_eq l
  obtain ⟨links', hstore⟩ := h.store
  obtain rfl : t = { s with links := links' } := hstore
  exact ⟨⟨links, hback⟩, nofun⟩

/-- A step other than a commit adds what it writes, and commits nothing. -/
theorem step (h : Drafts s written c) (hst : st ≠ .commit) :
    Drafts s (written ++ (Step.written? (st, (perform st c).1)).toList) (perform st c).2 := by
  have hsame : ∀ {c'}, Drafts s written c' → Drafts s (written ++ []) c' := fun h' => by
    rw [List.append_nil]
    exact h'
  obtain ⟨t, b | _⟩ := c
  · cases st with
    | get key => exact hsame (h.use rfl)
    | set key value =>
      by_cases hkey : key.length ≤ maxKeyBytes
      · have hset : (Transaction.active b).set key value = .ok _ :=
          Transaction.set_eq_ok_iff.mpr ⟨b, rfl, hkey, rfl⟩
        simp only [perform, Attempt.map_apply, buffer, hset]
        exact h.write key (some value)
      · have hset : (Transaction.active b).set key value = .error (.keyTooLong key) :=
          if_pos (Nat.not_le.mp hkey)
        simp only [perform, Attempt.map_apply, buffer, hset]
        exact hsame h
    | clear key => exact h.write key none
    | range first last limit => exact hsame (h.use rfl)
    | commit => exact (hst rfl).elim
    | rollback =>
      simp only [perform, Attempt.map_apply, rollback, Transaction.rollback]
      exact hsame (h.takeBack b.link)
    | refuse => exact hsame (h.use rfl)
  · rw [perform_finished]
    cases st <;> exact hsame h

theorem body {α : Type} {body : Body α} (h : Drafts s written c)
    (hbody : ∀ x ∈ body.history c, x.1 ≠ .commit) :
    Drafts s (written ++ body.writes c) (body.perform c).2 := by
  induction body generalizing written c with
  | done result =>
    rw [Body.writes, Body.history, List.filterMap_nil, List.append_nil]
    exact h
  | step st next ih =>
    rw [Body.history, List.forall_mem_cons] at hbody
    rw [Body.writes_step, ← List.append_assoc, Body.perform_step]
    exact ih _ (h.step hbody.1) hbody.2

/-- A commit carries out all that was written, or it fails and carries out nothing. -/
theorem commit (h : Drafts s written c) :
    (c.MayCommit written ∧ (commit c).1 = .ok () ∧
        (commit c).2.store.table = s.table.carryOut written) ∨
      ¬ c.MayCommit written ∧ (∃ e, (commit c).1 = .error e) ∧
        (commit c).2.store.table = s.table := by
  have htable := h.table_eq
  obtain ⟨t, b | _⟩ := c
  · obtain ⟨links, hback⟩ := t.takeBack_eq (b.linkAfterWrites t)
    have hwrites : b.writes = .ofWrites written := h.buffered rfl
    have hempty : b.writes.entries.isEmpty = written.isEmpty := by
      rw [hwrites, KeyMap.isEmpty_ofWrites]
    by_cases hdue : b.refused = false ∧ b.writes.entries.isEmpty = false
    · cases hentries : t.table.entries? with
      | none =>
        refine .inr ⟨?_, ?_⟩
        · rintro ⟨_, -, -, hhas⟩
          have hhas' : t.table.entries?.isSome = true := hhas (by simpa [hempty] using hdue.2)
          simp [hentries] at hhas'
        · simp only [Connection.commit, Transaction.commit_of_none hdue hentries, hback]
          exact ⟨⟨_, rfl⟩, htable⟩
      | some D =>
        have hD := Table.entries?_eq_some_iff.mp hentries
        have hhas : t.table.entries?.isSome = true := by rw [hentries]; rfl
        refine .inl ⟨⟨b, rfl, hdue.1, fun _ => hhas⟩, ?_⟩
        simp only [Connection.commit, Transaction.commit_of_holding hdue hD, hwrites,
          KeyMap.overlay_ofWrites]
        exact ⟨trivial, by rw [← htable, hD]; rfl⟩
    · simp only [Connection.commit, Transaction.commit_of_idle hdue, hback]
      cases hrefused : b.refused with
      | true =>
        refine .inr ⟨?_, ⟨_, rfl⟩, htable⟩
        rintro ⟨_, ⟨⟩, hb, -⟩
        simp [hrefused] at hb
      | false =>
        obtain rfl : written = [] := by simpa [hrefused, hempty] using hdue
        refine .inl ⟨⟨b, rfl, hrefused, fun hne => (hne rfl).elim⟩, rfl, htable.trans ?_⟩
        cases s.table <;> rfl
  · exact .inr ⟨by rintro ⟨_, ⟨⟩, -⟩, ⟨_, rfl⟩, htable⟩

end Drafts

end Connection

namespace Store

variable {α : Type} {s : Store} {body : Body α}

theorem drafts_opened (s : Store) : Connection.Drafts s [] s.opened := by
  rcases hbegin : Connection.backend.begin true ⟨s, .finished⟩ with ⟨r, c⟩
  rw [opened, hbegin]
  rcases Connection.begin_cases hbegin with ⟨-, rfl⟩ | ⟨-, -, -, links, link, rfl⟩
  · exact ⟨⟨s.links, rfl⟩, nofun⟩
  · exact ⟨⟨links, rfl⟩, by rintro _ ⟨⟩; rfl⟩

/-- A body goes through on the store: a transaction can be begun, the body returns the value, and a
commit can follow. -/
def Admits (s : Store) (body : Body α) (a : α) : Prop :=
  s.isOpen = true ∧ s.reachable = true ∧ (body.perform s.opened).1 = .ok a ∧
    (body.perform s.opened).2.MayCommit (body.writes s.opened)

/-- A body that does not commit goes through and is carried out, or it fails and changes nothing.
Either way the transaction has ended. -/
theorem run_cases (hcommit : ∀ x ∈ body.history s.opened, x.1 ≠ .commit) :
    (∃ a c, s.Admits body a ∧ Connection.backend.run body.perform ⟨s, .finished⟩ = (.ok a, c) ∧
        c.transaction = .finished ∧ c.store.table = s.table.carryOut (body.writes s.opened)) ∨
      (∀ a, ¬ s.Admits body a) ∧ ∃ e c,
        Connection.backend.run body.perform ⟨s, .finished⟩ = (.error e, c) ∧
        c.transaction = .finished ∧ c.store.table = s.table := by
  have hdrafts : Connection.Drafts s (body.writes s.opened) (body.perform s.opened).2 :=
    s.drafts_opened.body hcommit
  have hopened : s.opened = (Connection.backend.begin true ⟨s, .finished⟩).2 := rfl
  rcases hbegin : Connection.backend.begin true ⟨s, .finished⟩ with ⟨r, c₁⟩
  replace hopened : s.opened = c₁ := by rw [hopened, hbegin]
  rcases Connection.begin_cases hbegin with ⟨⟨e, rfl⟩, rfl⟩ | ⟨rfl, hopen, hreachable, -⟩
  · refine .inr ⟨?_, e, _, Backend.run_eq_error_iff.mpr (.inl hbegin), rfl, rfl⟩
    rintro a ⟨hopen, hreachable, -⟩
    obtain ⟨links, link, hok⟩ :=
      Connection.begin_ok (c := ⟨s, .finished⟩) hopen hreachable true
    rw [hok] at hbegin
    cases hbegin
  · rcases hbody : body.perform s.opened with ⟨e | a, c₂⟩
    · obtain ⟨links, habandon⟩ := Connection.abandon_eq e c₂
      rw [hbody] at hdrafts
      refine .inr ⟨?_, _, _, Backend.run_eq_error_iff.mpr
        (.inr (.inl ⟨c₁, e, c₂, hbegin, hopened ▸ hbody, rfl⟩)), ?_, ?_⟩
      · rintro a ⟨-, -, hok, -⟩
        rw [hbody] at hok
        cases hok
      · exact congrArg Connection.transaction habandon
      · exact (congrArg (·.store.table) habandon).trans hdrafts.table_eq
    · rw [hbody] at hdrafts
      rcases hdrafts.commit with ⟨hmay, hok, htable⟩ | ⟨hmay, ⟨e, herror⟩, htable⟩
      · refine .inl ⟨a, _, ⟨hopen, hreachable, by rw [hbody], by rw [hbody]; exact hmay⟩,
          Backend.run_eq_ok_iff.mpr ⟨c₁, c₂, hbegin, hopened ▸ hbody, Prod.ext hok rfl⟩, rfl,
          htable⟩
      · refine .inr ⟨?_, e, _, Backend.run_eq_error_iff.mpr
          (.inr (.inr ⟨c₁, a, c₂, hbegin, hopened ▸ hbody, Prod.ext herror rfl⟩)), rfl, htable⟩
        rintro a' ⟨-, -, -, hmay'⟩
        rw [hbody] at hmay'
        exact hmay hmay'

/-- If a body that does not commit goes through, its value is returned, and the entries are as the
writes that succeeded make them. Otherwise a fault is raised, and the entries are as before. In both
cases the transaction has ended, so that nothing can be done with it any more. -/
theorem run_allOrNothing (s : Store) (body : Body α)
    (hcommit : ∀ x ∈ body.history s.opened, x.1 ≠ .commit) :
    let ended := (Connection.backend.run body.perform ⟨s, .finished⟩).2.transaction
    (∀ a, (run body.perform s).1 = .ok a ↔ s.Admits body a) ∧
      (∀ a, (run body.perform s).1 = .ok a →
        (run body.perform s).2.table = s.table.carryOut (body.writes s.opened)) ∧
      (∀ e, (run body.perform s).1 = .error e → (run body.perform s).2.table = s.table) ∧
      ended = .finished ∧
      ∀ (β : Type) (later : Body β) (t : Store),
        (later.perform ⟨t, ended⟩).2 = ⟨t, .finished⟩ := by
  intro ended
  have hrun : run body.perform s =
      ((Connection.backend.run body.perform ⟨s, .finished⟩).1,
        (Connection.backend.run body.perform ⟨s, .finished⟩).2.store) := rfl
  have hlater : ended = .finished → ∀ (β : Type) (later : Body β) (t : Store),
      (later.perform ⟨t, ended⟩).2 = ⟨t, .finished⟩ := fun hended β later t => by
    rw [hended]
    exact later.perform_finished t
  rcases run_cases hcommit with ⟨a, c, hadmits, hok, hended, htable⟩ |
    ⟨hnot, e, c, herror, hended, htable⟩
  · have hended' : ended = .finished := (congrArg (·.2.transaction) hok).trans hended
    rw [hrun, hok]
    refine ⟨fun a' => ⟨?_, fun hadmits' => ?_⟩, fun _ _ => htable, nofun, hended', hlater hended'⟩
    · rintro ⟨⟩
      exact hadmits
    · exact hadmits.2.2.1.symm.trans hadmits'.2.2.1
  · have hended' : ended = .finished :=
      (congrArg (·.2.transaction) herror).trans hended
    rw [hrun, herror]
    exact ⟨fun a => ⟨nofun, fun hadmits => (hnot a hadmits).elim⟩, nofun, fun _ _ => htable,
      hended', hlater hended'⟩

end Store

end RecordStore
