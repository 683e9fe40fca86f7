import RecordStore.Proofs.FinishedTransactions

/-! # Bodies that fail

What is raised when a body gives up. Its transaction is rolled back, and a failure of the database
is reported as one of the store. Any other fault is reported as it is only if rolling back succeeds;
if not, the failure of that is reported in its place. Rolling back fails exactly if the body has
closed the transaction or the database has come to refuse its end.
-/

namespace RecordStore

open Transaction (Step Reply Taken Took Ended)

namespace Transaction

instance (past : List Taken) : Decidable (Ended past) :=
  inferInstanceAs (Decidable (∃ x ∈ past, x.1.ends = true))

/-- By one of the steps taken so far the database has come to refuse the end. -/
def Refused (past : List Taken) : Prop := ∃ x ∈ past, x.1 = .refuse

instance (past : List Taken) : Decidable (Refused past) :=
  inferInstanceAs (Decidable (∃ x ∈ past, x.1 = .refuse))

def rollbackFault? (past : List Taken) : Option Fault :=
  if Ended past then some .transactionFinished
  else if Refused past then some .rollbackFailed
  else none

/-- A transaction in use has come to be refused its end, or not, by the steps taken. -/
def Minds (past : List Taken) (t : Transaction) : Prop :=
  ¬ Ended past → ∃ b, t = .active b ∧ (b.refused = true ↔ Refused past)

theorem refused_concat_iff {past : List Taken} {x : Taken} :
    Refused (past ++ [x]) ↔ Refused past ∨ x.1 = .refuse := by
  simp only [Refused, List.mem_append, List.mem_singleton, or_and_right, exists_or, exists_eq_left]

theorem Minds.step {past : List Taken} {c : Connection} (h : Minds past c.transaction) (st : Step) :
    Minds (past ++ [(st, (Connection.perform st c).1)]) (Connection.perform st c).2.transaction := by
  intro hgoes
  obtain ⟨hpast, hst⟩ := not_or.mp (mt ended_concat_iff.mpr hgoes)
  obtain ⟨store, t⟩ := c
  obtain ⟨b, rfl, hb⟩ := h hpast
  obtain ⟨b', hb', hrefused⟩ := Connection.perform_of_not_ends (by simpa using hst) store b
  exact ⟨b', hb', by rw [hrefused, hb, refused_concat_iff]⟩

theorem Minds.body {α : Type} {past : List Taken} {c : Connection} (h : Minds past c.transaction)
    (body : Body α) : Minds (past ++ body.history c) (body.perform c).2.transaction :=
  body.perform_induction (P := fun past c => Minds past c.transaction) (fun _ _ st h => h.step st) h

theorem rollback_fst {past : List Taken} {c : Connection} (htook : Took past c.transaction)
    (hminds : Minds past c.transaction) :
    (Connection.rollback c).1 = (rollbackFault? past).elim (.ok ()) .error := by
  obtain ⟨store, t⟩ := c
  unfold rollbackFault?
  split
  · next hended =>
    obtain rfl : t = .finished := htook.ended hended
    rfl
  · next hopen =>
    obtain ⟨b, rfl, hb⟩ := hminds hopen
    simp only [Connection.rollback, rollback, hb]
    split <;> rfl

end Transaction

theorem Connection.abandon_of_database {e : Fault} (hkind : e.kind = .database) (c : Connection) :
    (abandon e c).1 = .raised .store e.message :=
  if_pos hkind

theorem Connection.abandon_of_ne {e : Fault} (hkind : e.kind ≠ .database) (c : Connection) :
    ((abandon e c).1 = e ↔ ∀ f, (rollback c).1 = .error f → f = e) ∧
      ∀ f, (rollback c).1 = .error f → (abandon e c).1 = f := by
  simp only [abandon, if_neg hkind]
  cases (rollback c).1 with
  | ok u => simp
  | error f => simp

namespace Store

open Transaction (rollbackFault?)

variable {α : Type} {s : Store} {body : Body α} {e : Fault}

/-- A body that fails on a store in reach has its fault passed through the rollback. -/
theorem run_of_body_error (hopen : s.isOpen = true) (hreachable : s.reachable = true)
    (hbody : (body.perform s.opened).1 = .error e) :
    (run body.perform s).1 = .error (Connection.abandon e (body.perform s.opened).2).1 := by
  obtain ⟨links, link, hbegin⟩ := Connection.begin_ok (c := ⟨s, .finished⟩) hopen hreachable true
  have hopened : s.opened = _ := congrArg Prod.snd hbegin
  rw [hopened] at hbody ⊢
  have hrun : Connection.backend.run body.perform ⟨s, .finished⟩ =
      (.error (Connection.abandon e (body.perform _).2).1,
        (Connection.abandon e (body.perform _).2).2) :=
    Backend.run_eq_error_iff.mpr (.inr (.inl ⟨_, e, _, hbegin, Prod.ext hbody rfl, rfl⟩))
  exact congrArg Prod.fst hrun

theorem rollback_opened (hopen : s.isOpen = true) (hreachable : s.reachable = true)
    (body : Body α) : (Connection.rollback (body.perform s.opened).2).1 =
      (rollbackFault? (body.history s.opened)).elim (.ok ()) .error := by
  obtain ⟨links, link, hbegin⟩ := Connection.begin_ok (c := ⟨s, .finished⟩) hopen hreachable true
  have hopened : s.opened = _ := congrArg Prod.snd hbegin
  have htook : Took [] s.opened.transaction := hopened ▸ .begun rfl
  have hminds : Transaction.Minds [] s.opened.transaction := fun _ =>
    ⟨_, congrArg Connection.transaction hopened, by simp [Transaction.Refused]⟩
  exact Transaction.rollback_fst (htook.body body) (hminds.body body)

/-- When a body gives up with a fault of the database, the store reports it as one of its own, with
the same text, whatever becomes of the rollback. Any other fault is reported as it is if and only if
rolling back succeeds or fails with that very fault, as what rolling back fails with is reported in
its place. It fails if the body has closed the transaction or has come to be refused its end, and
otherwise it succeeds. -/
theorem run_reports_iff (hopen : s.isOpen = true) (hreachable : s.reachable = true)
    (hbody : (body.perform s.opened).1 = .error e) :
    let rolledBack := (Connection.rollback (body.perform s.opened).2).1
    (e.kind = .database → (run body.perform s).1 = .error (.raised .store e.message)) ∧
      (e.kind ≠ .database →
        ((run body.perform s).1 = .error e ↔ ∀ f, rolledBack = .error f → f = e) ∧
        ∀ f, rolledBack = .error f → (run body.perform s).1 = .error f) ∧
      rolledBack = (rollbackFault? (body.history s.opened)).elim (.ok ()) .error := by
  intro rolledBack
  rw [run_of_body_error hopen hreachable hbody]
  refine ⟨fun hkind => ?_, fun hkind => ?_, rollback_opened hopen hreachable body⟩
  · rw [Connection.abandon_of_database hkind]
  · simp only [Except.error.injEq]
    exact Connection.abandon_of_ne hkind _

/-- A body goes on after a write that was refused, and gives up in the end: the transaction is still
in use, so the fault is reported as it is. -/
theorem run_reports_of_swallowed_fault :
    let s : Store := { Store.new "kv" true with table := .holding .empty }
    let boom : Fault := .raised .value "boom"
    let body : Body Unit := .step (.set [1] [10]) fun _ =>
      .step (.set (List.replicate 256 1) [0]) fun _ => .done (.error boom)
    s.isOpen = true ∧ s.reachable = true ∧ (body.perform s.opened).1 = .error boom ∧
      (run body.perform s).1 = .error boom := by
  intro s boom body
  have hbody : (body.perform s.opened).1 = .error boom := rfl
  obtain ⟨-, hother, hrolled⟩ := run_reports_iff rfl rfl hbody
  have hnone : rollbackFault? (body.history s.opened) = none :=
    Option.isNone_iff_eq_none.mp (by decide +kernel)
  refine ⟨rfl, rfl, hbody, (hother nofun).1.mpr fun f hf => ?_⟩
  rw [hrolled, hnone] at hf
  cases hf

/-- A body that has closed its transaction, or has come to be refused its end, gives up with a fault
that is not reported. -/
theorem run_hides_fault :
    let s : Store := { Store.new "kv" true with table := .holding .empty }
    let boom : Fault := .raised .value "boom"
    let closed : Body Unit := .step (.set [97] [49]) fun _ => .step .rollback fun _ =>
      .done (.error boom)
    let refused : Body Unit := .step (.set [97] [49]) fun _ => .step .refuse fun _ =>
      .done (.error boom)
    ((closed.perform s.opened).1 = .error boom ∧
        (run closed.perform s).1 = .error .transactionFinished ∧
        (run closed.perform s).1 ≠ .error boom) ∧
      (refused.perform s.opened).1 = .error boom ∧
        (run refused.perform s).1 = .error .rollbackFailed ∧
        (run refused.perform s).1 ≠ .error boom :=
  ⟨⟨rfl, rfl, nofun⟩, rfl, rfl, nofun⟩

end Store
end RecordStore
