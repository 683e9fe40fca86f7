import RecordStore.Proofs.BatchRun
import RecordStore.Proofs.RangeReads
import RecordStore.Proofs.Runs
import RecordStore.Session

/-! # Interleaved transactions

Any number of transactions are in use on one store, each step of each in any place among those of
the others. A journal says what is to come of this: which writes have been committed so far, in the
order of the commits, and which calls each transaction has made.
-/

namespace RecordStore

/-- Set and clear calls, oldest first. -/
abbrev Writes := List (Bytes × Option Bytes)

open Transaction (Step Reply)

/-- A transaction that was begun and not yet ended, by the calls that it has made. -/
structure Draft where
  readYourWrites : Bool
  writes : Writes
  /-- Whether the database will refuse to end it. -/
  refused : Bool

namespace Draft

def seen (d : Draft) (D : KeyMap Bytes) : KeyMap Bytes :=
  if d.readYourWrites then D.carryOut d.writes else D

/-- How many keys of a range the transaction has written, if it sees these writes. -/
def covered (d : Draft) (first last : Bytes) : Nat :=
  if d.readYourWrites then ((KeyMap.ofWrites d.writes).range first last).size else 0

def Accepts (d : Draft) (first last : Bytes) (limit : Int) : Prop :=
  0 < limit → limit + d.covered first last ≤ Buffer.maxLimit

instance (d : Draft) (first last : Bytes) (limit : Int) : Decidable (d.Accepts first last limit) :=
  inferInstanceAs (Decidable (_ → _))

/-- What a step is answered when the table holds `D`, and what becomes of the transaction. -/
def use (d : Draft) (D : KeyMap Bytes) : Step → Except Fault Reply × Option Draft
  | .get key => (.ok (.value ((d.seen D).get? key)), some d)
  | .set key value =>
    if key.length ≤ maxKeyBytes then
      (.ok .done, some { d with writes := d.writes ++ [(key, some value)] })
    else (.error (.keyTooLong key), some d)
  | .clear key => (.ok .done, some { d with writes := d.writes ++ [(key, none)] })
  | .range first last limit =>
    if d.Accepts first last limit then
      (.ok (.entries ((d.seen D).head first last limit)), some d)
    else (.error .limitTooLarge, some d)
  | .commit => (if d.refused then .error .commitFailed else .ok .done, none)
  | .rollback => (if d.refused then .error .rollbackFailed else .ok .done, none)
  | .refuse => (.ok .done, some { d with refused := true })

/-- The writes that a step commits: those of a commit that succeeds. -/
def landing (d : Draft) : Step → List Writes
  | .commit => if d.refused then [] else [d.writes]
  | _ => []

theorem landing_eq_nil {d : Draft} {D : KeyMap Bytes} {st : Step}
    (h : st = .commit → ∃ e, (d.use D st).1 = .error e) : d.landing st = [] := by
  cases st with
  | commit =>
    obtain ⟨e, he⟩ := h rfl
    cases hrefused : d.refused with
    | true => exact if_pos hrefused
    | false => simp [use, hrefused] at he
  | _ => rfl

end Draft

def Transaction.afterEnd : Step → Except Fault Reply
  | .commit | .rollback => .error .transactionFinished
  | .refuse => .ok .done
  | _ => .error .transactionClosed

inductive Transaction.Move where
  | begin (readYourWrites : Bool)
  | use (step : Step)
deriving DecidableEq

open Transaction (Move)

structure Journal where
  base : KeyMap Bytes
  /-- What was committed, in the order of the commits. -/
  landed : List Writes
  /-- The transaction of a name, if there was any, and if it has not ended. -/
  drafts : String → Option (Option Draft)

namespace Journal

def start (base : KeyMap Bytes) : Journal := ⟨base, [], fun _ => none⟩

def now (J : Journal) : KeyMap Bytes := J.landed.foldl KeyMap.carryOut J.base

def step : String × Move → Journal → Except Fault Session.Answer × Journal
  | (name, .begin readYourWrites), J =>
    (.ok .done, { J with
      drafts := Function.update J.drafts name (some (some ⟨readYourWrites, [], false⟩)) })
  | (name, .use st), J =>
    match J.drafts name with
    | none => (.error (.unknownName name), J)
    | some none => (.transaction <$> Transaction.afterEnd st, J)
    | some (some d) =>
      (.transaction <$> (d.use J.now st).1,
        { J with
          landed := J.landed ++ d.landing st
          drafts := Function.update J.drafts name (some (d.use J.now st).2) })

/-- The journals say the same, but for one transaction that has not ended in one of them. -/
structure AgreesBut (name : String) (J J' : Journal) : Prop where
  base : J.base = J'.base
  landed : J.landed = J'.landed
  drafts {other : String} : other ≠ name → J.drafts other = J'.drafts other

theorem now_append (J : Journal) (landing : List Writes) :
    now { J with landed := J.landed ++ landing } = landing.foldl KeyMap.carryOut J.now :=
  List.foldl_append

namespace AgreesBut

variable {name : String} {J J' : Journal}

theorem refl (name : String) (J : Journal) : J.AgreesBut name J := ⟨rfl, rfl, fun _ => rfl⟩

theorem now_eq (h : J.AgreesBut name J') : J.now = J'.now := by
  rw [now, now, h.base, h.landed]

theorem step_other (h : J.AgreesBut name J') {m : String × Move} (hne : m.1 ≠ name) :
    (J.step m).1 = (J'.step m).1 ∧ (J.step m).2.AgreesBut name (J'.step m).2 := by
  have hupdate : ∀ d, ∀ {other}, other ≠ name →
      Function.update J.drafts m.1 d other = Function.update J'.drafts m.1 d other := by
    intro d other hother
    rw [Function.update_apply, Function.update_apply, h.drafts hother]
  obtain ⟨who, readYourWrites | st⟩ := m
  · exact ⟨rfl, h.base, h.landed, hupdate _⟩
  · rw [step, step, h.drafts hne, h.now_eq]
    rcases J'.drafts who with _ | _ | d
    · exact ⟨rfl, h⟩
    · exact ⟨rfl, h⟩
    · exact ⟨rfl, h.base, congrArg (· ++ _) h.landed, hupdate _⟩

theorem step_own (h : J.AgreesBut name J') {m : String × Move} (hname : m.1 = name)
    (hcommit : m.2 = .use .commit → ∃ e, (J.step m).1 = .error e) :
    (J.step m).2.AgreesBut name J' := by
  have hupdate : ∀ d, ∀ {other}, other ≠ name →
      Function.update J.drafts m.1 d other = J'.drafts other := by
    intro d other hother
    rw [Function.update_of_ne (hname ▸ hother), h.drafts hother]
  obtain ⟨who, readYourWrites | st⟩ := m
  · exact ⟨h.base, h.landed, hupdate _⟩
  · revert hcommit
    rw [step]
    rcases J.drafts who with _ | _ | d
    · exact fun _ => h
    · exact fun _ => h
    · intro hcommit
      have hlanding : d.landing st = [] := by
        apply Draft.landing_eq_nil (D := J.now)
        rintro rfl
        obtain ⟨e, he⟩ := hcommit rfl
        cases huse : (d.use J.now .commit).1 with
        | error e' => exact ⟨e', rfl⟩
        | ok reply =>
          simp only [huse] at he
          cases he
      refine ⟨h.base, ?_, hupdate _⟩
      exact (congrArg (J.landed ++ ·) hlanding).trans ((List.append_nil _).trans h.landed)

end AgreesBut

end Journal

structure Buffer.Keeps (b : Buffer) (d : Draft) : Prop where
  readYourWrites : b.readYourWrites = d.readYourWrites
  writes : b.writes = .ofWrites d.writes
  refused : b.refused = d.refused

inductive Transaction.Follows : Option Transaction → Option (Option Draft) → Prop where
  | unknown : Follows none none
  | ended : Follows (some .finished) (some none)
  | active {b : Buffer} {d : Draft} : b.Keeps d → Follows (some (.active b)) (some (some d))

namespace Buffer.Keeps

variable {b : Buffer} {d : Draft}

theorem seen (h : b.Keeps d) (D : KeyMap Bytes) : b.seen D = d.seen D := by
  rw [Buffer.seen, Draft.seen, h.readYourWrites, h.writes, KeyMap.overlay_ofWrites]

theorem size_pending (h : b.Keeps d) (first last : Bytes) :
    (b.pending first last).size = d.covered first last := by
  rw [Buffer.pending, Draft.covered, h.readYourWrites, h.writes]
  split <;> rfl

theorem asksTooMuch (h : b.Keeps d) (first last : Bytes) (limit : Int) :
    b.asksTooMuch first last limit = !decide (d.Accepts first last limit) := by
  rw [Buffer.asksTooMuch, Buffer.wanted, h.size_pending]
  by_cases hlimit : 0 < limit
  · simp only [Draft.Accepts, hlimit, decide_true, Bool.true_and, forall_const, ← decide_not,
      not_le]
  · simp [Draft.Accepts, hlimit]

theorem relink (h : b.Keeps d) (link : Link) : Buffer.Keeps { b with link } d :=
  ⟨h.readYourWrites, h.writes, h.refused⟩

theorem add (h : b.Keeps d) (key : Bytes) (value : Option Bytes) :
    Buffer.Keeps { b with writes := b.writes.insert key value }
      { d with writes := d.writes ++ [(key, value)] } :=
  ⟨h.readYourWrites, by rw [h.writes, KeyMap.ofWrites_concat], h.refused⟩

end Buffer.Keeps

theorem Transaction.get_active {s : Store} {D : KeyMap Bytes} (hopen : s.isOpen = true)
    (htable : s.table = .holding D) (b : Buffer) (key : Bytes) :
    (Transaction.active b).get s key = .ok (.ok ((b.seen D).get? key)) := by
  have hfetch : fetch s key = .ok (D.get? key) := by rw [fetch, htable]
  rw [get, Buffer.find?, Buffer.seen, hfetch, hopen]
  cases b.readYourWrites with
  | false => rfl
  | true =>
    simp only [if_true, KeyMap.get?_overlay]
    cases b.writes.get? key <;> rfl

theorem Transaction.begin_ready {s : Store} (hopen : s.isOpen = true)
    (hreachable : s.reachable = true) (readYourWrites : Bool) : ∃ links link,
      Transaction.begin readYourWrites s =
        .ok (.active ⟨readYourWrites, .empty, false, link⟩, { s with links }) := by
  obtain ⟨links, hlend⟩ := s.lend_snd
  refine ⟨links, s.lend.1, ?_⟩
  rw [← hlend, Transaction.begin, hopen, hreachable]
  rfl

namespace Connection

variable {s : Store} {D : KeyMap Bytes} {b : Buffer} {d : Draft}

/-- A step of a transaction is answered as its draft says, leaves it as the draft says, and commits
what the draft lands. -/
theorem perform_active (hopen : s.isOpen = true) (htable : s.table = .holding D) (hb : b.Keeps d)
    (st : Step) :
    (perform st ⟨s, .active b⟩).1 = (d.use D st).1 ∧
      Transaction.Follows (some (perform st ⟨s, .active b⟩).2.transaction)
        (some (d.use D st).2) ∧
      ∃ links, (perform st ⟨s, .active b⟩).2.store =
        { s with links, table := .holding ((d.landing st).foldl KeyMap.carryOut D) } := by
  have hsame : ∃ links, s = { s with links, table := .holding D } := ⟨s.links, by rw [← htable]⟩
  cases st with
  | get key =>
    refine ⟨?_, .active (hb.relink _), hsame⟩
    have hget := Transaction.get_active hopen htable b key
    simp only [perform, ask, hget, hb.seen]
    rfl
  | set key value =>
    by_cases hkey : key.length ≤ maxKeyBytes
    · have hset : (Transaction.active b).set key value = .ok _ :=
        Transaction.set_eq_ok_iff.mpr ⟨b, rfl, hkey, rfl⟩
      simp only [perform, Attempt.map_apply, buffer, hset, Draft.use, if_pos hkey]
      exact ⟨rfl, .active (hb.add key (some value)), hsame⟩
    · have hset : (Transaction.active b).set key value = .error (.keyTooLong key) :=
        if_pos (Nat.not_le.mp hkey)
      simp only [perform, Attempt.map_apply, buffer, hset, Draft.use, if_neg hkey]
      exact ⟨rfl, .active hb, hsame⟩
  | clear key => exact ⟨rfl, .active (hb.add key none), hsame⟩
  | range first last limit =>
    by_cases haccepts : d.Accepts first last limit
    · have hasks : b.asksTooMuch first last limit = false := by simp [hb.asksTooMuch, haccepts]
      simp only [perform, ask, Transaction.range_active htable hasks, hb.seen, Draft.use,
        if_pos haccepts]
      exact ⟨rfl, .active (hb.relink _), hsame⟩
    · have hasks : b.asksTooMuch first last limit = true := by simp [hb.asksTooMuch, haccepts]
      have hprepared : (b.link.prepareLimit s.hasTable).preparedLimit = true := by
        simp [Link.prepareLimit, Store.hasTable, htable, Table.entries?]
      simp only [perform, ask, Transaction.range, if_pos hasks, hprepared, if_true, Draft.use,
        if_neg haccepts]
      exact ⟨rfl, .active (hb.relink _), hsame⟩
  | commit =>
    obtain ⟨links, hback⟩ := s.takeBack_eq (b.linkAfterWrites s)
    have hlanded : D.overlay b.writes = D.carryOut d.writes := by
      rw [hb.writes, KeyMap.overlay_ofWrites]
    simp only [perform, Attempt.map_apply, commit, Transaction.commit, hback, htable, hb.refused,
      hlanded, Draft.use, Draft.landing]
    split
    · exact ⟨rfl, .ended, links, rfl⟩
    · split
      · next hempty =>
        have hnone : D.carryOut d.writes = D := by
          rw [← hlanded, KeyMap.overlay_eq_carryOut, List.isEmpty_iff.mp hempty,
            KeyMap.carryOut_nil]
        exact ⟨rfl, .ended, links, by rw [List.foldl_cons, List.foldl_nil, hnone]⟩
      · exact ⟨rfl, .ended, links, rfl⟩
  | rollback =>
    obtain ⟨links, hback⟩ := s.takeBack_eq b.link
    simp only [perform, Attempt.map_apply, rollback, Transaction.rollback, hback, htable,
      hb.refused, Draft.use]
    split
    · exact ⟨rfl, .ended, links, rfl⟩
    · exact ⟨rfl, .ended, links, rfl⟩
  | refuse => exact ⟨rfl, .active ⟨hb.readYourWrites, hb.writes, rfl⟩, hsame⟩

theorem perform_finished (s : Store) (st : Step) :
    perform st ⟨s, .finished⟩ = (Transaction.afterEnd st, ⟨s, .finished⟩) := by
  cases st <;> rfl

end Connection

namespace Session

variable {s t : Session} {J J' : Journal} {name other : String}

def move : String × Move → Session → Except Fault Answer × Session
  | (name, .begin readYourWrites) => step (.begin name readYourWrites)
  | (name, .use st) => step (.within name st)

/-- The session has come to what the journal says. -/
structure Follows (s : Session) (J : Journal) : Prop where
  ready : s.shared.store.Ready
  table : s.shared.store.table = .holding J.now
  transactions (name : String) :
    Transaction.Follows (s.transactions.get? name) (J.drafts name)

theorem follows_put {transactions : Fields Transaction} {drafts : String → Option (Option Draft)}
    (h : ∀ name, Transaction.Follows (transactions.get? name) (drafts name)) (name : String)
    {t : Transaction} {d : Option Draft} (ht : Transaction.Follows (some t) (some d))
    (other : String) : Transaction.Follows ((transactions.put name t).get? other)
      (Function.update drafts name (some d) other) := by
  rw [Fields.get?_put, Function.update_apply]
  split
  · exact ht
  · exact h other

theorem step_within {t : Transaction} (ht : s.transactions.get? name = some t)
    (st : Transaction.Step) : step (.within name st) s =
      (.transaction <$> (Connection.perform st ⟨s.shared.store, t⟩).1,
        { s with
          shared := ⟨(Connection.perform st ⟨s.shared.store, t⟩).2.store,
            { s.shared.footprint with events := [] }⟩
          transactions := s.transactions.put name
            (Connection.perform st ⟨s.shared.store, t⟩).2.transaction }) := by
  simp only [step, perform, Attempt.map_apply, stepTransaction, ht]
  rfl

/-- What is done with one transaction is answered as the journal says, and the journal goes
along. -/
theorem Follows.move (h : s.Follows J) (m : String × Move) :
    (s.move m).1 = (J.step m).1 ∧ (s.move m).2.Follows (J.step m).2 := by
  obtain ⟨name, readYourWrites | st⟩ := m
  · obtain ⟨links, link, hbegin⟩ :=
      Transaction.begin_ready h.ready.1 h.ready.2.1 readYourWrites
    have hput := follows_put h.transactions name
      (t := .active ⟨readYourWrites, .empty, false, link⟩)
      (d := some ⟨readYourWrites, [], false⟩) (.active ⟨rfl, rfl, rfl⟩)
    have hmove : s.move (name, .begin readYourWrites) = (.ok .done,
        { s with
          shared := ⟨{ s.shared.store with links }, { s.shared.footprint with events := [] }⟩
          transactions := s.transactions.put name
            (.active ⟨readYourWrites, .empty, false, link⟩) }) := by
      simp only [Session.move, step, perform, Step.slotNames, List.foldl_nil]
      apply Attempt.bind_eq_ok_iff.mpr
      refine ⟨(), _, ?_, rfl⟩
      simp only [beginTransaction, hbegin]
    rw [hmove]
    exact ⟨rfl, h.ready, h.table, hput⟩
  · have htransaction := h.transactions name
    rw [Journal.step]
    generalize hget : s.transactions.get? name = found at htransaction
    generalize hdraft : J.drafts name = draft at htransaction
    cases htransaction with
    | unknown =>
      have hmove : s.move (name, .use st) = (.error (.unknownName name),
          { s with shared := { s.shared with
            footprint := { s.shared.footprint with events := [] } } }) := by
        simp only [Session.move, step, perform, Attempt.map_apply, stepTransaction, hget]
        rfl
      rw [hmove]
      exact ⟨rfl, h.ready, h.table, h.transactions⟩
    | ended =>
      have hsame := follows_put h.transactions name .ended
      rw [← hdraft, Function.update_eq_self] at hsame
      rw [Session.move, step_within hget, Connection.perform_finished]
      exact ⟨rfl, h.ready, h.table, hsame⟩
    | @active b d hb =>
      obtain ⟨hanswer, hdraft', links, hstore⟩ :=
        Connection.perform_active h.ready.1 h.table hb st
      rw [Session.move, step_within hget, hanswer, hstore]
      refine ⟨rfl, ⟨h.ready.1, h.ready.2.1, _, rfl⟩, ?_, follows_put h.transactions name hdraft'⟩
      exact congrArg Table.holding (J.now_append (d.landing st)).symm

/-- The sessions have come to journals that differ in one transaction at most, which is in use and
has committed nothing that the other session has not. -/
def AlikeBut (name : String) (s t : Session) : Prop :=
  ∃ J J', s.Follows J ∧ t.Follows J' ∧ J.AgreesBut name J'

theorem AlikeBut.table_eq (h : AlikeBut name s t) :
    s.shared.store.table = t.shared.store.table := by
  obtain ⟨J, J', hs, ht, hJ⟩ := h
  rw [hs.table, ht.table, hJ.now_eq]

theorem AlikeBut.move_other (h : AlikeBut name s t) {m : String × Move} (hne : m.1 ≠ name) :
    (s.move m).1 = (t.move m).1 ∧ AlikeBut name (s.move m).2 (t.move m).2 := by
  obtain ⟨J, J', hs, ht, hJ⟩ := h
  obtain ⟨hanswer, hs'⟩ := hs.move m
  obtain ⟨hanswer', ht'⟩ := ht.move m
  obtain ⟨hsame, hJ'⟩ := hJ.step_other hne
  exact ⟨by rw [hanswer, hanswer', hsame], _, _, hs', ht', hJ'⟩

theorem AlikeBut.move_own (h : AlikeBut name s t) {m : String × Move} (hname : m.1 = name)
    (hcommit : m.2 = .use .commit → ∃ e, (s.move m).1 = .error e) :
    AlikeBut name (s.move m).2 t := by
  obtain ⟨J, J', hs, ht, hJ⟩ := h
  obtain ⟨hanswer, hs'⟩ := hs.move m
  rw [hanswer] at hcommit
  exact ⟨_, _, hs', ht, hJ.step_own hname hcommit⟩

theorem Follows.final (h : s.Follows J) (moves : List (String × Move)) :
    (final Session.move s moves).Follows (RecordStore.final Journal.step J moves) := by
  induction moves generalizing s J with
  | nil => exact h
  | cons m rest ih => exact ih (h.move m).2

/-- What is done with a transaction that commits nothing makes no difference to the others. -/
theorem Follows.part_others (h : s.Follows J) {moves : List (String × Move)}
    (hcommits : ∀ x ∈ moves.zip (trace Session.move s moves),
      x.1 = (name, .use .commit) → ∃ e, x.2.1 = .error e) :
    List.Forall₂ (fun x y => x.1 = y.1 ∧ x.2.shared.store.table = y.2.shared.store.table)
      (part (·.1 ≠ name) Session.move s moves)
      (trace Session.move s (moves.filter (·.1 ≠ name))) := by
  -- The two runs are not compared with each other, but each with a journal of its own.
  have halike : List.Forall₂ _ (part (·.1 ≠ name) Session.move s moves) _ :=
    forall₂_part (f := Session.move) (p := (·.1 ≠ name)) (Q := Eq) (R := AlikeBut name)
      (H := fun m answer => m.2 = .use .commit → ∃ e, answer = .error e)
      (fun m _ hother _ _ h => h.move_other (of_decide_eq_true hother))
      (fun m _ hown _ _ h hm => h.move_own (not_not.mp (of_decide_eq_false hown)) hm)
      (fun x hx hown hm => hcommits x hx (Prod.ext (not_not.mp (of_decide_eq_false hown)) hm))
      ⟨_, _, h, h, .refl name _⟩
  exact halike.imp fun _ _ h => ⟨h.1, h.2.table_eq⟩

/-- Whatever is done with any number of transactions, in whatever order, each read is answered from
the rows committed by then, with the transaction's own writes carried out on them if it sees these,
and the table holds the writes that were committed, in the order of the commits. At any time, what
is done with a transaction while it commits nothing makes no difference to the others. -/
theorem interleaved (s : Session) {D : KeyMap Bytes} (hready : s.shared.store.Ready)
    (htable : s.shared.store.table = .holding D)
    (hnone : ∀ name, s.transactions.get? name = none) :
    (∀ moves, List.Forall₂ (fun x y => x.1 = y.1 ∧ x.2.shared.store.table = .holding y.2.now)
      (trace Session.move s moves) (trace Journal.step (.start D) moves)) ∧
      ∀ before moves name, let now := final Session.move s before
        (∀ x ∈ moves.zip (trace Session.move now moves),
          x.1 = (name, .use .commit) → ∃ e, x.2.1 = .error e) →
        List.Forall₂ (fun x y => x.1 = y.1 ∧ x.2.shared.store.table = y.2.shared.store.table)
          (part (·.1 ≠ name) Session.move now moves)
          (trace Session.move now (moves.filter (·.1 ≠ name))) := by
  have hstart : s.Follows (.start D) := by
    refine ⟨hready, htable, fun name => ?_⟩
    rw [hnone]
    exact .unknown
  constructor
  · intro moves
    have hfollows : List.Forall₂ _ (trace Session.move s moves) _ :=
      forall₂_trace (Q := Eq) (R := Follows) (fun m _ _ _ h => h.move m) hstart
    exact hfollows.imp fun _ _ h => ⟨h.1, h.2.table⟩
  · intro before moves name now hcommits
    exact (hstart.final before).part_others hcommits

def replyOf : Except Fault Answer → Option Reply
  | .ok (.transaction reply) => some reply
  | _ => none

theorem interleaved_of_two_overlapping :
    let D : KeyMap Bytes := (KeyMap.empty.insert [1] [10]).insert [2] [20]
    let s : Session := ⟨⟨{ Store.new "kv" true with table := .holding D }, .empty⟩,
      ⟨.text "db", 0⟩, .empty, .empty⟩
    let moves : List (String × Move) :=
      [("T", .begin true), ("U", .begin false), ("T", .use (.set [1] [11])),
        ("T", .use (.clear [2])), ("T", .use (.set (List.replicate 256 1) [0])),
        ("U", .use (.set [1] [12])), ("T", .use (.range [] [9] 2)), ("U", .use (.range [] [9] 1)),
        ("U", .use (.get [1])), ("T", .use .commit), ("U", .use (.get [1])), ("U", .use .commit),
        ("V", .begin true), ("V", .use (.set [3] [30])), ("V", .use .refuse), ("V", .use .commit)]
    let promised := trace Journal.step (.start D) moves
    List.Forall₂ (fun x y => x.1 = y.1 ∧ x.2.shared.store.table = .holding y.2.now)
        (trace Session.move s moves) promised ∧
      List.Forall₂ (fun x y => x.1 = y.1 ∧ x.2.shared.store.table = y.2.shared.store.table)
        (part (·.1 ≠ "U") Session.move s (moves.take 11))
        (trace Session.move s ((moves.take 11).filter (·.1 ≠ "U"))) ∧
      promised.map (fun x => replyOf x.1) =
        [none, none, some .done, some .done, none, some .done, some (.entries [([1], [11])]),
          some (.entries [([1], [10])]), some (.value (some [10])), some .done,
          some (.value (some [11])), some .done, none, some .done, some .done, none] ∧
      (promised.map fun x => x.2.now.entries).getLast? = some [([1], [12])] := by
  intro D s moves promised
  have hready : s.shared.store.Ready := ⟨rfl, rfl, D, rfl⟩
  have hcommits : ∀ x ∈ (moves.take 11).zip (trace Session.move s (moves.take 11)),
      x.1 = ("U", .use .commit) → ∃ e, x.2.1 = .error e := by
    have hnone : ("U", Move.use .commit) ∉ moves.take 11 := by decide +kernel
    intro x hx hcommit
    exact (hnone (hcommit ▸ (List.of_mem_zip hx).1)).elim
  have hall := interleaved s hready rfl fun _ => rfl
  exact ⟨hall.1 moves, hall.2 [] (moves.take 11) "U" hcommits, by decide +kernel,
    by decide +kernel⟩

/-- A limit that the database does not accept is an error, although there is an entry to be
found. -/
theorem range_beyond_maxLimit :
    let D : KeyMap Bytes := KeyMap.empty.insert [1] [10]
    let s : Session := ⟨⟨{ Store.new "kv" true with table := .holding D }, .empty⟩,
      ⟨.text "db", 0⟩, .empty, .empty⟩
    let now := final Session.move s [("T", .begin false)]
    let limit : Int := 9223372036854775808
    now.shared.store.table = .holding D ∧ D.head [] [9] limit = [([1], [10])] ∧
      (now.move ("T", .use (.range [] [9] limit))).1 = .error .limitTooLarge ∧
      ¬ (now.move ("T", .use (.range [] [9] limit))).1 =
        .ok (.transaction (.entries (D.head [] [9] limit))) := by
  intro D s now limit
  have hanswer : (now.move ("T", .use (.range [] [9] limit))).1 = .error .limitTooLarge := rfl
  refine ⟨rfl, by decide +kernel, hanswer, ?_⟩
  rw [hanswer]
  nofun

end Session

end RecordStore
