import RecordStore.Proofs.ClientCalls
import RecordStore.Proofs.UnbatchedSessions

/-! # Sessions of a client that batches

Along the plain calls of a client, the operations that it brings are carried out in turn, those that
are still queued apart, as long as nothing comes after an update of the same key within a batch. So
the batch size decides when an operation is carried out, and never what comes of it.
-/

namespace RecordStore

namespace Client

open Batch

/-- Each batch has the verdict on what its operations are answered with when those of all batches
are carried out in turn. -/
def JudgedInTurn (rows : Rows) : List (List Operation × Status) → Prop
  | [] => True
  | batch :: rest =>
    batch.2 = verdict ((answersInTurn rows batch.1).map Prod.snd) ∧
      JudgedInTurn (applyAll rows batch.1) rest

/-- A batch is about the operations that are answered, and all is well with it exactly if it is with
every answer. -/
structure Sums (batch : List Operation × Status) (answers : List (Operation × Status)) : Prop where
  operations : answers.map Prod.fst = batch.1
  verdict : batch.2 = .ok ↔ ∀ answer ∈ answers, answer.2 = .ok

/-- Where a client stands that has brought operations to the store `w`: those before the queued ones
have been carried out in turn. -/
structure Stands (db : String) (w : Shared) (brought carried : List Operation)
    (s : Client × Shared) : Prop where
  isOpen : s.1.closed = false
  database : s.1.settings.dbText = db
  carriedOut : Shared.CarriedOut w carried s.2
  queued : carried ++ s.1.queue.operations = brought
  plain : ∀ op ∈ brought, op.Plain

section JudgedInTurn

variable {rows : Rows} {batches batches' : List (List Operation × Status)}
  {answers : List (Operation × Status)}

theorem JudgedInTurn.append (h : JudgedInTurn rows batches)
    (h' : JudgedInTurn (applyAll rows (batches.flatMap Prod.fst)) batches') :
    JudgedInTurn rows (batches ++ batches') := by
  induction batches generalizing rows with
  | nil => exact h'
  | cons batch rest ih =>
    rw [List.flatMap_cons, applyAll_append] at h'
    exact ⟨h.1, ih h.2 h'⟩

/-- The answers to all operations in turn fall into segments, one for each batch. -/
theorem JudgedInTurn.segments (h : JudgedInTurn rows batches) :
    ∃ segments, segments.flatten = answersInTurn rows (batches.flatMap Prod.fst) ∧
      List.Forall₂ Sums batches segments := by
  induction batches generalizing rows with
  | nil => exact ⟨[], rfl, .nil⟩
  | cons batch rest ih =>
    obtain ⟨segments, hflatten, hsums⟩ := ih h.2
    refine ⟨answersInTurn rows batch.1 :: segments, ?_, .cons ⟨map_fst_answersInTurn _ _, ?_⟩ hsums⟩
    · rw [List.flatten_cons, hflatten, List.flatMap_cons, answersInTurn_append]
    · rw [h.1, verdict_eq_ok_iff, List.forall_mem_map]

theorem JudgedInTurn.answersInTurn_eq
    (h : JudgedInTurn rows (answers.map fun answer => ([answer.1], answer.2))) :
    answersInTurn rows (answers.map Prod.fst) = answers := by
  induction answers generalizing rows with
  | nil => rfl
  | cons answer rest ih =>
    obtain ⟨hstatus, hrest⟩ := h
    have hverdict : answer.2 = verdict ((ask rows [answer.1]).map Pending.status) :=
      hstatus.trans (verdict_singleton_verdict _)
    have htail : answersInTurn (apply rows answer.1) (rest.map Prod.fst) = rest := ih hrest
    rw [List.map_cons, answersInTurn, ← hverdict, htail]

end JudgedInTurn

variable {db : String} {w : Shared} {brought carried : List Operation} {s : Client × Shared}
  {call : Call} {calls : List Call}

theorem carriedOut_announce {c : Client} {w' : Shared} (h : Shared.CarriedOut w carried w')
    (call : Call) : Shared.CarriedOut w carried (c.announce call w') := by
  unfold announce
  cases call.operation? c.settings.dbText with
  | none => exact h
  | some op => exact h.report _

/-- A plain call brings its operation, and carries out in turn what is due. -/
theorem Stands.serve (h : Stands db w brought carried s) (hrows : w.store.table.rows.Decodable)
    (hcall : call.Plain db) (hlast : ∀ batch ∈ batch? call s, UpdatesLast batch.1) :
    Stands db w (brought ++ (call.operation? db).toList)
        (carried ++ (batch? call s).toList.flatMap Prod.fst) (serve call s) ∧
      JudgedInTurn (applyAll w.store.table.rows carried) (batch? call s).toList := by
  obtain ⟨c, w'⟩ := s
  obtain ⟨hopen, rfl, hcarried, hqueued, hplain⟩ := h
  have hwith : carried ++ (c.queuedWith call).operations =
      brought ++ (call.operation? c.settings.dbText).toList := by
    rw [operations_queuedWith, ← List.append_assoc, hqueued]
  have hplain' : ∀ op ∈ brought ++ (call.operation? c.settings.dbText).toList, op.Plain := by
    intro op hop
    rcases List.mem_append.mp hop with hop | hop
    · exact hplain op hop
    · exact hcall.operation (Option.mem_toList.mp hop)
  have hannounce := carriedOut_announce (c := c) hcarried call
  by_cases hdue : c.isDue call = true
  · have hbatch : batch? call (c, w') =
        some ((c.queuedWith call).operations, (c.carryOut call w').1) := if_pos hdue
    have hops : ∀ op ∈ carried ++ (c.queuedWith call).operations, op.Plain := hwith ▸ hplain'
    obtain ⟨hexecute, hverdict⟩ := hannounce.execute hrows hops (hlast _ hbatch)
    rw [hbatch, serve_of_isDue hopen hcall hdue, Option.toList_some, List.flatMap_singleton]
    refine ⟨⟨hopen, rfl, hexecute, ?_, hplain'⟩, hverdict, trivial⟩
    rw [← hwith]
    exact List.append_nil _
  · have hbatch : batch? call (c, w') = none := if_neg hdue
    rw [hbatch, serve_of_not_isDue hopen hcall hdue, Option.toList_none, List.flatMap_nil,
      List.append_nil]
    exact ⟨⟨hopen, rfl, hannounce, hwith, hplain'⟩, trivial⟩

theorem Stands.serveAll (h : Stands db w brought carried s) (hrows : w.store.table.rows.Decodable)
    (hcalls : ∀ call ∈ calls, call.Plain db)
    (hlast : ∀ batch ∈ batches s calls, UpdatesLast batch.1) :
    Stands db w (brought ++ calls.filterMap (Call.operation? db))
        (carried ++ (batches s calls).flatMap Prod.fst) (serveAll s calls) ∧
      JudgedInTurn (applyAll w.store.table.rows carried) (batches s calls) := by
  induction calls generalizing s brought carried with
  | nil =>
    refine ⟨?_, trivial⟩
    rw [List.filterMap_nil, List.append_nil]
    exact (List.append_nil carried).symm ▸ h
  | cons call rest ih =>
    have hbatches : batches s (call :: rest) =
        (batch? call s).toList ++ batches (Client.serve call s) rest := rfl
    rw [hbatches] at hlast ⊢
    obtain ⟨hserve, hjudged⟩ := h.serve hrows (hcalls call List.mem_cons_self) fun batch hbatch =>
      hlast batch (List.mem_append_left _ (Option.mem_toList.mpr hbatch))
    obtain ⟨hrest, hjudged'⟩ := ih hserve (fun b hb => hcalls b (List.mem_cons_of_mem _ hb))
      fun batch hbatch => hlast batch (List.mem_append_right _ hbatch)
    have hbrought : (call :: rest).filterMap (Call.operation? db) =
        (call.operation? db).toList ++ rest.filterMap (Call.operation? db) := by
      rw [List.filterMap_cons]
      cases call.operation? db <;> rfl
    rw [applyAll_append] at hjudged'
    rw [hbrought, List.flatMap_append, ← List.append_assoc, ← List.append_assoc]
    exact ⟨hrest, hjudged.append hjudged'⟩

section Unbatched

variable {c : Client} {op : Operation}

theorem isDue_of_unbatched (hc : c.Unbatched) (h : call.operation? c.settings.dbText = some op) :
    c.isDue call = true := by
  rw [isDue_of_operation hc.closed h, hc.queue]
  have hsize := hc.size
  apply decide_eq_true
  rw [Queue.size_append, max_eq_right (by omega)]
  exact Int.ofNat_le.mpr (Nat.le_add_left 1 _)

/-- A client that does not batch carries out each operation by itself and answers with the verdict
on it. -/
theorem batch?_of_unbatched (hc : c.Unbatched) (hcall : call.Plain c.settings.dbText) :
    (serve call (c, w)).1 = c ∧
      batch? call (c, w) = (answer? call (c, w)).map fun answer => ([answer.1], answer.2) := by
  have hqueue : { c with queue := .empty } = c := by rw [← hc.queue]
  rcases hcall with rfl | ⟨op, hop, hplain⟩
  · have hdue : ¬ c.isDue .flush = true := by
      simp [isDue, hc.queue, Queue.isEmpty, Queue.empty]
    rw [serve_of_not_isDue hc.closed (.inl rfl) hdue]
    exact ⟨rfl, if_neg hdue⟩
  · have hdue := isDue_of_unbatched hc hop
    have hwith : (c.queuedWith call).operations = [op] := by
      rw [operations_queuedWith, hop, hc.queue]
      rfl
    have hanswer : answer? call (c, w) = some (op, (c.carryOut call w).1) := by
      unfold answer?
      rw [hop, Option.bind_some, call_submits hc.closed hop, if_pos hdue]
    rw [serve_of_isDue hc.closed (.inr ⟨op, hop, hplain⟩) hdue, hanswer, Option.map_some, ← hwith]
    exact ⟨hqueue, if_pos hdue⟩

theorem batches_of_unbatched (hc : c.Unbatched)
    (hcalls : ∀ call ∈ calls, call.Plain c.settings.dbText) :
    batches (c, w) calls = (answers (c, w) calls).map fun answer => ([answer.1], answer.2) := by
  induction calls generalizing w with
  | nil => rfl
  | cons call rest ih =>
    obtain ⟨hclient, hbatch⟩ := batch?_of_unbatched (w := w) hc (hcalls call List.mem_cons_self)
    have hserve : serve call (c, w) = (c, (serve call (c, w)).2) := Prod.ext hclient rfl
    have hrest := ih (w := (serve call (c, w)).2) fun b hb => hcalls b (List.mem_cons_of_mem _ hb)
    rw [← hserve] at hrest
    rw [batches, along, hbatch, answers, along, List.map_append, ← answers, ← hrest]
    cases answer? call (c, w) <;> rfl

end Unbatched

section Session

variable {settings : ClientSettings} {ownsStore : Bool}

theorem batches_cleanup (s : Client × Shared) (calls : List Call) :
    batches s (calls ++ [.cleanup]) = batches s (calls ++ [.flush]) := by
  rw [batches, along_append, along_append]
  rfl

theorem answers_cleanup (s : Client × Shared) (calls : List Call) :
    answers s (calls ++ [.cleanup]) = answers s (calls ++ [.flush]) := by
  rw [answers, along_append, along_append]
  rfl

theorem session_carriedOut (hdb : settings.dbText = db) (hready : w.store.Ready)
    (hrows : w.store.table.rows.Decodable) (hcalls : ∀ call ∈ calls, call.Plain db)
    (hlast : ∀ batch ∈ batches (.new settings ownsStore, w) (calls ++ [.cleanup]),
      UpdatesLast batch.1) :
    let s : Client × Shared := (.new settings ownsStore, w)
    let session := calls ++ [.cleanup]
    let operations := calls.filterMap (Call.operation? db)
    JudgedInTurn w.store.table.rows (batches s session) ∧
      (batches s session).flatMap Prod.fst = operations ∧
      ∃ w', Shared.CarriedOut w operations w' ∧ (serveAll s session).2.contents = w'.contents := by
  intro s session operations
  have hfound : batches s session =
      batches s calls ++ (batch? .flush (serveAll s calls)).toList := by
    rw [batches_cleanup, batches, along_append, along_singleton]
  rw [hfound] at hlast ⊢
  have hstart : Stands db w [] [] s := ⟨rfl, hdb, .refl hready, rfl, nofun⟩
  obtain ⟨hcalled, hjudged⟩ := hstart.serveAll hrows hcalls fun batch hbatch =>
    hlast batch (List.mem_append_left _ hbatch)
  obtain ⟨hflushed, hjudged'⟩ := hcalled.serve hrows (.inl rfl) fun batch hbatch =>
    hlast batch (List.mem_append_right _ (Option.mem_toList.mpr hbatch))
  have hqueued := hflushed.queued
  rw [queue_serve_flush hcalled.isOpen] at hqueued
  simp only [List.nil_append, List.append_nil, Call.operation?, Option.toList_none] at hqueued
  refine ⟨hjudged.append hjudged', ?_, (serve .flush (serveAll s calls)).2, ?_, ?_⟩
  · rw [List.flatMap_append, hqueued]
  · have hcarried := hflushed.carriedOut
    rw [List.nil_append, hqueued] at hcarried
    exact hcarried
  · rw [serveAll_append]
    exact contents_serve_cleanup hcalled.isOpen

/-- Whatever the batch size, a session in which nothing comes after an update of the same key within
a batch leaves the same table and the same slots as without batching, and all is well with a batch
exactly if it is with each of its operations without batching. -/
theorem batching_transparent (dbName : Value) (n : Nat) (ownsStore : Bool) {w : Shared}
    {calls : List Call} (hready : w.store.Ready) (hrows : w.store.table.rows.Decodable)
    (hcalls : ∀ call ∈ calls, call.Plain dbName.shown)
    (hlast : ∀ batch ∈ batches (.new ⟨dbName, n⟩ ownsStore, w) (calls ++ [.cleanup]),
      UpdatesLast batch.1) :
    let alone : Client × Shared := (.new ⟨dbName, 0⟩ ownsStore, w)
    let batched : Client × Shared := (.new ⟨dbName, n⟩ ownsStore, w)
    let session := calls ++ [.cleanup]
    (serveAll batched session).2.contents = (serveAll alone session).2.contents ∧
      (answers alone session).map Prod.fst = calls.filterMap (Call.operation? dbName.shown) ∧
      ∃ segments, segments.flatten = answers alone session ∧
        List.Forall₂ Sums (batches batched session) segments := by
  intro alone batched session
  have halone : batches alone session =
      (answers alone session).map fun answer => ([answer.1], answer.2) := by
    have hflush : ∀ call ∈ calls ++ [.flush], call.Plain dbName.shown := by
      intro call hcall
      rcases List.mem_append.mp hcall with hcall | hcall
      · exact hcalls call hcall
      · exact .inl (List.mem_singleton.mp hcall)
    rw [batches_cleanup, answers_cleanup]
    exact batches_of_unbatched ⟨Nat.zero_le 1, rfl, rfl⟩ hflush
  have hlast₀ : ∀ batch ∈ batches alone session, UpdatesLast batch.1 := by
    rw [halone, List.forall_mem_map]
    intro answer _
    exact List.pairwise_singleton _ _
  have hdb : ∀ n, ClientSettings.dbText ⟨dbName, n⟩ = dbName.shown := fun _ => rfl
  obtain ⟨hjudged₀, hops₀, w₀, hcarried₀, hcontents₀⟩ :=
    session_carriedOut (hdb 0) hready hrows hcalls hlast₀
  obtain ⟨hjudged, hops, w', hcarried, hcontents⟩ :=
    session_carriedOut (hdb n) hready hrows hcalls hlast
  have hfst : (answers alone session).map Prod.fst =
      calls.filterMap (Call.operation? dbName.shown) := by
    rw [halone, List.flatMap_map] at hops₀
    rw [← hops₀]
    exact List.map_eq_flatMap
  have hanswers : answersInTurn w.store.table.rows
      (calls.filterMap (Call.operation? dbName.shown)) = answers alone session := by
    rw [halone] at hjudged₀
    rw [← hfst, hjudged₀.answersInTurn_eq]
  obtain ⟨segments, hflatten, hsums⟩ := hjudged.segments
  refine ⟨?_, hfst, segments, ?_, hsums⟩
  · rw [hcontents, hcontents₀, hcarried.contents_eq hcarried₀]
  · rw [hflatten, hops, hanswers]

theorem batching_transparent_of_three_batches :
    let row : Record := .ofList [("f", "1")]
    let w : Shared := ⟨{ Store.new "kv" true with
        table := .holding (KeyMap.empty.insert (Key.pack "db:t:k") row.encode) },
      { Footprint.empty with slots := .ofList [("s", .ofList [("g", "0")])] }⟩
    let calls : List Call :=
      [.read "t" "k" .all (some "s"), .insert "t" "n" (row.map .text),
        .update "t" "k" ((Fields.ofList [("f", "2")] : Record).map .text), .read "t" "k" .all none,
        .delete "t" "k", .update "t" "k" (row.map .text), .flush, .read "t" "n" .all (some "s")]
    let alone : Client × Shared := (.new ⟨.text "db", 0⟩ true, w)
    let batched : Client × Shared := (.new ⟨.text "db", 3⟩ true, w)
    let session := calls ++ [.cleanup]
    (w.store.Ready ∧ w.store.table.rows.Decodable ∧ (∀ call ∈ calls, call.Plain "db") ∧
        ∀ batch ∈ batches batched session, UpdatesLast batch.1) ∧
      ((serveAll batched session).2.contents = (serveAll alone session).2.contents ∧
        (answers alone session).map Prod.fst = calls.filterMap (Call.operation? "db") ∧
        ∃ segments, segments.flatten = answers alone session ∧
          List.Forall₂ Sums (batches batched session) segments) ∧
      (batches batched session).map (fun batch => (batch.1.length, batch.2)) =
        [(3, .ok), (3, .error), (1, .ok)] := by
  intro row w calls alone batched session
  have hready : w.store.Ready := ⟨rfl, rfl, _, rfl⟩
  have hrows : w.store.table.rows.Decodable := by
    intro key data hdata
    have hget : (KeyMap.empty.insert (Key.pack "db:t:k") row.encode).get? key = some data := hdata
    rw [KeyMap.get?_insert] at hget
    split at hget
    · obtain rfl := Option.some.inj hget
      exact ⟨row, Record.decode_of_encode row⟩
    · cases hget
  have hk : (Key.pack (Key.row "db" "t" "k")).length ≤ maxKeyBytes := by decide +kernel
  have hn : (Key.pack (Key.row "db" "t" "n")).length ≤ maxKeyBytes := by decide +kernel
  have hcalls : ∀ call ∈ calls, call.Plain "db" := by
    simp only [calls, List.forall_mem_cons, List.not_mem_nil, false_imp_iff, implies_true, and_true]
    exact ⟨.inr ⟨_, rfl, ⟨.empty, rfl⟩, hk⟩, .inr ⟨_, rfl, ⟨row, rfl⟩, hn⟩,
      .inr ⟨_, rfl, ⟨.ofList [("f", "2")], rfl⟩, hk⟩, .inr ⟨_, rfl, ⟨.empty, rfl⟩, hk⟩,
      .inr ⟨_, rfl, ⟨.empty, rfl⟩, hk⟩, .inr ⟨_, rfl, ⟨row, rfl⟩, hk⟩, .inl rfl,
      .inr ⟨_, rfl, ⟨.empty, rfl⟩, hn⟩⟩
  have hlast : ∀ batch ∈ batches batched session, UpdatesLast batch.1 := by decide +kernel
  exact ⟨⟨hready, hrows, hcalls, hlast⟩,
    batching_transparent (.text "db") 3 true hready hrows hcalls hlast, by decide +kernel⟩

/-- A batch is abandoned for an insert of a text with a surrogate in it, and takes the insert before
it along. -/
theorem batching_shows_surrogate :
    let w : Shared := ⟨{ Store.new "kv" true with table := .holding .empty }, .empty⟩
    let calls : List Call :=
      [.insert "t" "a" (.ofList [("f", .text "1")]),
        .insert "t" "b" (.ofList [("f", Value.ofText (.broken ⟨[0xD800], rfl⟩))]), .cleanup]
    let alone : Client × Shared := (.new ⟨.text "DB", 0⟩ true, w)
    let batched : Client × Shared := (.new ⟨.text "DB", 2⟩ true, w)
    let a := Key.pack (Key.row "DB" "t" "a")
    (∀ batch ∈ batches batched calls, UpdatesLast batch.1) ∧
      (serveAll alone calls).2.store.table.rows a =
        some (Record.encode (.ofList [("f", "1")])) ∧
      (serveAll batched calls).2.store.table.rows a = none := by
  decide +kernel

end Session

end Client
end RecordStore
