import RecordStore.Proofs.Bodies
import RecordStore.Proofs.SessionSteps

/-! # Finished transactions

The first commit or rollback closes a transaction, whatever it is answered. From then on every step
is refused and changes nothing, so the writes of a transaction reach the table once at most. Until
then a step that fails leaves the transaction in use, with what it has buffered.
-/

namespace RecordStore

open Transaction (Step Reply)

namespace Transaction

def Step.ends : Step → Bool
  | .commit | .rollback => true
  | _ => false

abbrev Taken := Step × Except Fault Reply

def Taken.lands : Taken → Bool
  | (.commit, .ok _) => true
  | _ => false

def Ended (past : List Taken) : Prop := ∃ x ∈ past, x.1.ends = true

/-- What has become of a transaction that began with nothing buffered and has taken the steps. -/
structure Took (past : List Taken) (t : Transaction) : Prop where
  ended : Ended past → t = .finished
  inUse : ¬ Ended past → ∃ b, t = .active b ∧ b.writes = .ofWrites (past.filterMap Step.written?)
  /-- No commit succeeds but the first step that closes the transaction. -/
  landed : past.filter Taken.lands = (past.find? (·.1.ends)).toList.filter Taken.lands

variable {past : List Taken} {t : Transaction} {st : Step} {b : Buffer}

theorem Taken.ends_of_lands {x : Taken} (h : x.lands = true) : x.1.ends = true := by
  obtain ⟨st, r⟩ := x
  cases st <;> first | rfl | cases h

theorem lands_afterEnd (st : Step) : Taken.lands (st, afterEnd st) = false := by
  cases st <;> rfl

theorem find?_eq_none_iff : past.find? (·.1.ends) = none ↔ ¬ Ended past := by
  simp only [List.find?_eq_none, Ended, not_exists, not_and]

theorem ended_concat_iff {x : Taken} : Ended (past ++ [x]) ↔ Ended past ∨ x.1.ends = true := by
  simp only [Ended, List.mem_append, List.mem_singleton, or_and_right, exists_or, exists_eq_left]

end Transaction

namespace Connection

variable {c : Connection} {s : Store} {b : Buffer} {st : Step}

/-- A commit or rollback closes the transaction, whether it succeeds or fails. -/
theorem perform_of_ends (h : st.ends = true) (c : Connection) :
    (perform st c).2.transaction = .finished := by
  cases st with
  | commit | rollback =>
    rw [perform, Attempt.map_apply]
    rfl
  | _ => cases h

/-- Any other step leaves it in use, and one of them makes the database refuse its end. -/
theorem perform_of_not_ends (h : st.ends = false) (s : Store) (b : Buffer) :
    ∃ b', (perform st ⟨s, .active b⟩).2.transaction = .active b' ∧
      (b'.refused = true ↔ b.refused = true ∨ st = .refuse) := by
  have hsame : ∀ {b' : Buffer}, b'.refused = b.refused → st ≠ .refuse →
      (b'.refused = true ↔ b.refused = true ∨ st = .refuse) := fun hb hst => by
    rw [hb, or_iff_left hst]
  cases st with
  | set key value =>
    rcases hset : buffer (·.set key value) ⟨s, .active b⟩ with ⟨r, c⟩
    simp only [perform, Attempt.map_apply, hset]
    rcases buffers_of_set hset with ⟨-, -, rfl⟩ | ⟨b', hb', -, rfl⟩
    · exact ⟨b, rfl, hsame rfl (by simp)⟩
    · obtain rfl : b = b' := Transaction.active.inj hb'
      exact ⟨_, rfl, hsame rfl (by simp)⟩
  | commit | rollback => cases h
  | refuse => exact ⟨_, rfl, by simp⟩
  | get key | clear key | range first last limit => exact ⟨_, rfl, hsame rfl (by simp)⟩

theorem drafts_active {writes : Writes} (h : b.writes = .ofWrites writes) (s : Store) :
    Drafts s writes ⟨s, .active b⟩ :=
  ⟨⟨s.links, rfl⟩, by rintro _ ⟨⟩; exact h⟩

end Connection

namespace Transaction.Took

open Connection (perform)

variable {past : List Taken} {t : Transaction} {b : Buffer}

theorem begun (h : b.writes = .empty) : Took [] (.active b) where
  ended := by
    rintro ⟨x, hx, -⟩
    cases hx
  inUse _ := ⟨b, rfl, h⟩
  landed := rfl

theorem landed_concat (h : Took past t) {x : Taken} (hx : Ended past → x.lands = false) :
    (past ++ [x]).filter Taken.lands =
      ((past ++ [x]).find? (·.1.ends)).toList.filter Taken.lands := by
  rw [List.filter_append, h.landed, List.find?_append]
  by_cases hended : Ended past
  · obtain ⟨first, hfirst⟩ := Option.ne_none_iff_exists'.mp fun hnone =>
      find?_eq_none_iff.mp hnone hended
    simp [hfirst, hx hended]
  · rw [find?_eq_none_iff.mpr hended, Option.none_or]
    cases hends : x.1.ends with
    | true => simp [hends]
    | false =>
      have hlands : x.lands = false := by
        cases hlands : x.lands with
        | true => exact (Bool.noConfusion (hends.symm.trans (Taken.ends_of_lands hlands)))
        | false => rfl
      simp [hends, hlands]

theorem step (h : Took past t) (s : Store) (st : Step) :
    Took (past ++ [(st, (perform st ⟨s, t⟩).1)]) (perform st ⟨s, t⟩).2.transaction where
  ended hended := by
    rcases ended_concat_iff.mp hended with hpast | hst
    · rw [h.ended hpast, Connection.perform_finished]
    · exact Connection.perform_of_ends hst _
  inUse hgoes := by
    obtain ⟨hpast, hst⟩ := not_or.mp (mt ended_concat_iff.mpr hgoes)
    obtain ⟨b, rfl, hb⟩ := h.inUse hpast
    obtain ⟨b', hb', -⟩ := Connection.perform_of_not_ends (by simpa using hst) s b
    have hne : st ≠ .commit := by
      rintro rfl
      exact hst rfl
    have hdrafts := (Connection.drafts_active hb s).step hne
    refine ⟨b', hb', ?_⟩
    rw [filterMap_concat, hdrafts.buffered hb']
  landed := by
    refine h.landed_concat fun hpast => ?_
    rw [h.ended hpast, Connection.perform_finished]
    exact lands_afterEnd st

theorem body {α : Type} {c : Connection} (h : Took past c.transaction) (body : Body α) :
    Took (past ++ body.history c) (body.perform c).2.transaction :=
  body.perform_induction (P := fun past c => Took past c.transaction)
    (fun _ c st h => h.step c.store st) h

end Transaction.Took

namespace Session

open Transaction (Taken Took Ended)

def taken? (name : String) : Step × Session → Option Taken
  | (.within other st, s) =>
    if other = name then some (st, (stepTransaction name st s).1) else none
  | _ => none

def takenBy (name : String) (s : Session) (steps : List Step) : List Taken :=
  (visits step s steps).filterMap (taken? name)

def buffered? (s : Session) (name : String) : Option (KeyMap (Option Bytes)) :=
  match s.transactions.get? name with
  | some (.active b) => some b.writes
  | _ => none

def quiet (s : Session) : Session :=
  { s with shared := { s.shared with footprint := { s.shared.footprint with events := [] } } }

/-- Every use of the transaction of a name is refused and changes nothing at all. -/
structure Inert (s : Session) (name : String) : Prop where
  refused {st : Transaction.Step} : st ≠ .refuse → ∃ e, (step (.within name st) s).1 = .error e ∧
    e.kind = .state ∧
    e.message = if st.ends then "Transaction is already closed" else "Transaction is closed"
  unchanged (st : Transaction.Step) : (step (.within name st) s).2 = s.quiet

structure InUse (s : Session) (name : String) (writes : Writes) : Prop where
  buffered : s.buffered? name = some (.ofWrites writes)
  /-- A commit or rollback closes it, whatever the answer. -/
  closed {st : Transaction.Step} : st.ends = true →
    (step (.within name st) s).2.transactions.get? name = some .finished
  /-- Any other step leaves it in use, and a step that fails does so with the same writes. -/
  kept {st : Transaction.Step} : st.ends = false →
    (step (.within name st) s).2.buffered? name = some (.ofWrites
      (writes ++ (Transaction.Step.written? (st, (stepTransaction name st s).1)).toList)) ∧
      ∀ e, (step (.within name st) s).1 = .error e →
        (step (.within name st) s).2.buffered? name = s.buffered? name
  /-- Only a commit that succeeds changes the table. -/
  table (st : Transaction.Step) : (step (.within name st) s).2.shared.store.table =
    match st, (step (.within name st) s).1 with
    | .commit, .ok _ => s.shared.store.table.carryOut writes
    | _, _ => s.shared.store.table
  others {other : String} (st : Transaction.Step) : other ≠ name →
    (step (.within name st) s).2.transactions.get? other = s.transactions.get? other

variable {s : Session} {name : String} {writes : Writes} {b : Buffer}

theorem inert_of_finished (h : s.transactions.get? name = some .finished) : s.Inert name where
  refused {st} hst := by
    rw [step_within h, Connection.perform_finished]
    cases st with
    | refuse => exact (hst rfl).elim
    | commit | rollback => exact ⟨.transactionFinished, rfl, rfl, rfl⟩
    | _ => exact ⟨.transactionClosed, rfl, rfl, rfl⟩
  unchanged st := by
    rw [step_within h, Connection.perform_finished, Fields.put_eq_self h]
    rfl

theorem buffered?_of_active (h : s.transactions.get? name = some (.active b)) :
    s.buffered? name = some b.writes := by
  rw [buffered?, h]

theorem inUse_of_active (h : s.transactions.get? name = some (.active b))
    (hb : b.writes = .ofWrites writes) : s.InUse name writes := by
  have hdrafts := Connection.drafts_active hb s.shared.store
  have hafter : ∀ st, (step (.within name st) s).2.transactions.get? name =
      some (Connection.perform st ⟨s.shared.store, .active b⟩).2.transaction := fun st => by
    rw [step_within h]
    exact (Fields.get?_put ..).trans (if_pos rfl)
  have hanswer : ∀ st, (stepTransaction name st s).1 =
      (Connection.perform st ⟨s.shared.store, .active b⟩).1 := fun st => by
    simp only [stepTransaction, h]
  refine ⟨by rw [buffered?_of_active h, hb], fun {st} hst => ?_, fun {st} hst => ?_,
    fun st => ?_, fun {other} st hother => ?_⟩
  · rw [hafter, Connection.perform_of_ends hst]
  · have hne : st ≠ .commit := by
      rintro rfl
      cases hst
    obtain ⟨b', hb', -⟩ := Connection.perform_of_not_ends hst s.shared.store b
    have hbuffered : (step (.within name st) s).2.buffered? name = some (.ofWrites
        (writes ++ (Transaction.Step.written? (st, (stepTransaction name st s).1)).toList)) := by
      rw [buffered?_of_active ((hafter st).trans (congrArg some hb')),
        (hdrafts.step hne).buffered hb', hanswer]
    refine ⟨hbuffered, fun e he => ?_⟩
    have hfails : ∃ e', (stepTransaction name st s).1 = .error e' := by
      rw [step_within h] at he
      rw [hanswer]
      cases hresult : (Connection.perform st ⟨s.shared.store, .active b⟩).1 with
      | error e' => exact ⟨e', rfl⟩
      | ok reply =>
        rw [hresult] at he
        cases he
    obtain ⟨e', he'⟩ := hfails
    have hnone : Transaction.Step.written? (st, .error e') = none := by cases st <;> rfl
    rw [hbuffered, he', hnone, Option.toList_none, List.append_nil, buffered?_of_active h, hb]
  · rw [step_within h]
    by_cases hst : st = .commit
    · subst hst
      simp only [Connection.perform, Attempt.map_apply]
      rcases hdrafts.commit with ⟨-, hok, htable⟩ | ⟨-, ⟨e, herror⟩, htable⟩
      · rw [hok, htable]
        rfl
      · rw [herror, htable]
        rfl
    · have htable := (hdrafts.step hst).table_eq
      cases st <;> first | exact htable | exact (hst rfl).elim
  · have hne : other ∉ (Step.within name st).transaction? := fun hmem =>
      hother (Option.some.inj hmem).symm
    exact transactions_step_of_ne hne s

/-- The transaction of a name, and what has become of it by the steps taken so far. -/
def Traces (name : String) (past : List (Step × Session)) (s : Session) : Prop :=
  ∃ t, s.transactions.get? name = some t ∧ Took (past.filterMap (taken? name)) t

theorem traces_begin {s₀ : Session} {readYourWrites : Bool}
    (h : step (.begin name readYourWrites) s₀ = (.ok .done, s)) : Traces name [] s := by
  obtain ⟨_, s', hbegin, hdone⟩ := Attempt.bind_eq_ok_iff.mp h
  cases hdone
  simp only [beginTransaction] at hbegin
  split at hbegin
  · cases hbegin
  · next t store ht =>
    cases hbegin
    refine ⟨t, (Fields.get?_put ..).trans (if_pos rfl), ?_⟩
    unfold Transaction.begin at ht
    split at ht
    · cases ht
    · split at ht
      · cases ht
      · cases ht
        exact .begun rfl

/-- Its own steps are added to those taken, and no other step but a new begin makes a difference. -/
theorem Traces.step {past : List (Step × Session)} (h : Traces name past s) {st : Step}
    (hst : ∀ readYourWrites, st ≠ .begin name readYourWrites) :
    Traces name (past ++ [(st, s)]) (step st s).2 := by
  obtain ⟨t, ht, htook⟩ := h
  rw [Traces, filterMap_concat]
  by_cases hown : ∃ st', st = .within name st'
  · obtain ⟨st', rfl⟩ := hown
    have hanswer : (stepTransaction name st' s).1 =
        (Connection.perform st' ⟨s.shared.store, t⟩).1 := by
      simp only [stepTransaction, ht]
    have htaken : taken? name (.within name st', s) =
        some (st', (Connection.perform st' ⟨s.shared.store, t⟩).1) := by
      rw [taken?, if_pos rfl, hanswer]
    rw [htaken, step_within ht]
    exact ⟨_, (Fields.get?_put ..).trans (if_pos rfl), htook.step s.shared.store st'⟩
  · have hnone : taken? name (st, s) = none := by
      cases st with
      | within other st' =>
        exact if_neg fun (heq : other = name) => hown ⟨st', by rw [heq]⟩
      | _ => rfl
    have hname : name ∉ st.transaction? := by
      cases st with
      | begin other readYourWrites =>
        rintro ⟨⟩
        exact hst readYourWrites rfl
      | within other st' =>
        rintro ⟨⟩
        exact hown ⟨st', rfl⟩
      | _ => exact Option.not_mem_none name
    rw [hnone, Option.toList_none, List.append_nil]
    exact ⟨t, (transactions_step_of_ne hname s).trans ht, htook⟩

/-- Whatever is done with a transaction once it was begun, and with the session beside it: no commit
of it succeeds but the first step that closes it. Once a step has closed it, every use is refused
and changes nothing at all. Until then it keeps what it wrote, and only a commit that succeeds
carries that out. -/
theorem finished_isInert {s₀ s : Session} {name : String} {readYourWrites : Bool}
    (hbegin : step (.begin name readYourWrites) s₀ = (.ok .done, s)) {steps : List Step}
    (hsteps : ∀ st ∈ steps, ∀ readYourWrites, st ≠ .begin name readYourWrites) :
    let past := takenBy name s steps
    let now := final step s steps
    past.filter Taken.lands = (past.find? (·.1.ends)).toList.filter Taken.lands ∧
      (Ended past → now.Inert name) ∧
      (¬ Ended past → now.InUse name (past.filterMap Transaction.Step.written?)) := by
  intro past now
  have htraces : Traces name (visits step s steps) now :=
    visits_induction (fun st hst _ _ h => h.step (hsteps st hst)) (traces_begin hbegin)
  obtain ⟨t, ht, htook⟩ := htraces
  refine ⟨htook.landed, fun hended => ?_, fun hopen => ?_⟩
  · rw [htook.ended hended] at ht
    exact inert_of_finished ht
  · obtain ⟨b, rfl, hb⟩ := htook.inUse hopen
    exact inUse_of_active ht hb

theorem finished_isInert_of_failed_commit :
    let s₀ : Session := ⟨⟨{ Store.new "kv" true with table := .holding .empty }, .empty⟩,
      ⟨.text "db", 0⟩, .empty, .empty⟩
    let s := (step (.begin "a" true) s₀).2
    let steps : List Step := [.within "a" (.set [1] [10]), .begin "b" true,
      .within "b" (.set [2] [20]), .within "a" (.set (List.replicate 256 1) [0]),
      .within "b" .commit, .dropTable, .within "a" .commit, .ensureTable, .within "a" .commit]
    let past := takenBy "a" s steps
    let now := final step s steps
    step (.begin "a" true) s₀ = (.ok .done, s) ∧
      (∀ st ∈ steps, ∀ readYourWrites, st ≠ .begin "a" readYourWrites) ∧
      past.map (fun x => x.2.toOption.isSome) = [true, false, false, false] ∧
      Ended past ∧ now.Inert "a" ∧ past.filter Taken.lands = [] ∧
      now.shared.store.table.entries? = some .empty := by
  intro s₀ s steps past now
  have hbegin : step (.begin "a" true) s₀ = (.ok .done, s) := rfl
  have hsteps : ∀ st ∈ steps, ∀ readYourWrites, st ≠ .begin "a" readYourWrites := by
    simp only [steps, List.forall_mem_cons, List.not_mem_nil, false_imp_iff, implies_true, and_true]
    exact ⟨nofun, by simp, nofun, nofun, nofun, nofun, nofun, nofun, nofun⟩
  have hended : Ended past := ⟨_, List.mem_of_getElem? (i := 2) rfl, rfl⟩
  obtain ⟨hlanded, hinert, -⟩ := finished_isInert hbegin hsteps
  exact ⟨hbegin, hsteps, by decide +kernel, hended, hinert hended, by decide +kernel,
    by decide +kernel⟩

end Session

end RecordStore
