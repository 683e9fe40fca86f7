import RecordStore.Proofs.BatchMeaning
import RecordStore.Proofs.ClientViews
import RecordStore.Proofs.RowKeys
import RecordStore.Proofs.UnbatchedSessions

/-! # Isolation of tables

Two clients share a session, and each has a table of its own. What the one writes makes no
difference to the other if and only if no row key of one table is a row key of the other.
-/

namespace RecordStore

open Batch

namespace Client

/-- A call about the table, or about none. -/
def Call.About (table : String) : Call → Prop
  | .read t .. | .insert t .. | .update t .. | .delete t _ | .scan t .. => t = table
  | .flush | .cleanup => True

/-- A call that changes rows of the table, or carries out what is queued. -/
def Call.Writes (table : String) : Call → Prop
  | .insert t .. | .update t .. | .delete t _ => t = table
  | .flush | .cleanup => True
  | .read .. | .scan .. => False

/-- The client belongs to the database, and what it has queued is about rows of the table. -/
structure Uses (c : Client) (db table : String) : Prop where
  database : c.settings.dbText = db
  queued : ∀ op ∈ c.queue.operations, ∃ id, op.key = Key.row db table id

/-- Besides, nothing that it has queued fills a slot. -/
structure OnlyWrites (c : Client) (db table : String) : Prop extends c.Uses db table where
  noSlot : ∀ op ∈ c.queue.operations, op.slot? = none

variable {c : Client} {db table : String} {call : Call} {op : Operation}

theorem Call.Writes.about (h : call.Writes table) : call.About table := by
  cases call <;> first | exact h | exact h.elim

theorem Uses.key_of_mem (h : c.Uses db table) (hcall : call.About table)
    (hop : op ∈ (c.queuedWith call).operations) : ∃ id, op.key = Key.row db table id := by
  rcases mem_queuedWith.mp hop with hop | hop
  · exact h.queued op hop
  · rw [h.database] at hop
    cases call <;> cases hop <;> obtain rfl := hcall <;> exact ⟨_, rfl⟩

theorem Uses.after_call (h : c.Uses db table) (hcall : call.About table) (w : Shared) :
    (c.call call w).2.1.Uses db table := by
  obtain ⟨queue, closed, heq, hqueue⟩ := c.call_client call w
  rw [heq]
  exact ⟨h.database, fun op hop => h.key_of_mem hcall (hqueue op hop)⟩

theorem OnlyWrites.slot_of_mem (h : c.OnlyWrites db table) (hcall : call.Writes table)
    (hop : op ∈ (c.queuedWith call).operations) : op.slot? = none := by
  rcases mem_queuedWith.mp hop with hop | hop
  · exact h.noSlot op hop
  · cases call <;> cases hop <;> first | rfl | exact hcall.elim

theorem OnlyWrites.after_call (h : c.OnlyWrites db table) (hcall : call.Writes table)
    (w : Shared) : (c.call call w).2.1.OnlyWrites db table ∧
      (c.call call w).2.1.ownsStore = c.ownsStore := by
  have huses := h.toUses.after_call hcall.about w
  obtain ⟨queue, closed, heq, hqueue⟩ := c.call_client call w
  rw [heq] at huses ⊢
  exact ⟨⟨huses, fun op hop => h.slot_of_mem hcall (hqueue op hop)⟩, rfl⟩

end Client

theorem Shared.execute_read {w : Shared} (hready : w.store.Ready) {key : String}
    {record : Option Record} (h : w.store.table.rows (Key.pack key) = record.map Record.encode)
    (table : String) (p : Projection) (slot : Option String) :
    (w.execute [⟨table, key, .read p slot⟩]).1 =
      if (record.bind (Record.project p)).isSome then .ok else .error := by
  have hask : ask w.store.table.rows [⟨table, key, .read p slot⟩] =
      [⟨key, .read p slot, .ok (record.map Record.encode)⟩] := by
    simp [ask, Operation.request?, h]
  have hsettle : ∀ q ∈ ask w.store.table.rows [⟨table, key, .read p slot⟩], Settleable q := by
    rw [hask]
    rintro _ (_ | ⟨_, ⟨⟩⟩)
    exact ⟨⟨_, Catalog.outcome_read p slot record⟩, fun data hdata =>
      (settle_read_ne_merged p slot (record.map Record.encode) data hdata).elim⟩
  have hsend : ∀ op ∈ [Operation.mk table key (.read p slot)], Sendable op := by
    rintro _ (_ | ⟨_, ⟨⟩⟩)
    exact Catalog.sendable_of_request rfl
  obtain ⟨hstatus, -⟩ := execute_serves hready (List.cons_ne_nil _ _) hsend hsettle
  rw [hstatus, hask, List.map_singleton, Pending.status, Catalog.outcome_read]
  cases record with
  | none => rfl
  | some r => cases hproject : r.project p <;> simp [hproject, verdict]

theorem Shared.execute_delete {w : Shared} (hready : w.store.Ready) (table key : String) :
    (w.execute [⟨table, key, .delete⟩]).2.store.table.rows (Key.pack key) = none := by
  have hsend : ∀ op ∈ [Operation.mk table key .delete], Sendable op := by
    rintro _ (_ | ⟨_, ⟨⟩⟩)
    exact nofun
  obtain ⟨-, hrows, -⟩ := execute_serves hready (List.cons_ne_nil _ _) hsend nofun
  rw [hrows]
  exact Function.update_self ..

namespace Session

def callBy (call : String × Client.Call) : Session → Except Fault Answer × Session :=
  step (.call call.1 call.2)

/-- Two clients share the session. The one only writes to its table, and leaves the store open; the
other uses no table but its own. -/
structure Sharing (s : Session) (writer reader db table db' table' : String)
    (calls : List (String × Client.Call)) : Prop where
  ne : writer ≠ reader
  allowed : ∀ call ∈ calls,
    call.1 = writer ∧ call.2.Writes table ∨ call.1 = reader ∧ call.2.About table'
  writing : ∃ c, s.clients.get? writer = some c ∧ c.OnlyWrites db table ∧
    ((writer, .cleanup) ∈ calls → c.ownsStore = false)
  reading : ∃ d, s.clients.get? reader = some d ∧ d.Uses db' table'

/-- Whatever one client writes to the first table, and whenever, another that uses the second table
is answered what it would be answered if nothing had been written, and finds the same in every
slot. -/
def Isolated (db table db' table' : String) : Prop :=
  ∀ (s : Session) (writer reader : String) (calls : List (String × Client.Call)),
    s.Sharing writer reader db table db' table' calls →
      List.Forall₂ (fun x y => x.1 = y.1 ∧
          ∀ name, x.2.shared.footprint.slot name = y.2.shared.footprint.slot name)
        (part (·.1 = reader) callBy s calls)
        (trace callBy s (calls.filter (·.1 = reader)))

variable {s t : Session} {writer reader name db table db' table' : String} {owns : Bool}
  {call : Client.Call}

section Unaware

variable {K : Bytes → Prop} {S : String → Prop}

theorem agreesOn_entered (h : s.shared.AgreesOn K S t.shared) (call : Client.Call) :
    (s.entered call).AgreesOn K S (t.entered call) := by
  refine ⟨h.store, fun name hname => ?_⟩
  rw [entered, entered, Footprint.slot_declareAll, Footprint.slot_declareAll]
  exact h.slots name hname

theorem agreesOn_entered_left (h : s.shared.AgreesOn K S t.shared) (call : Client.Call) :
    (s.entered call).AgreesOn K S t.shared := by
  refine ⟨h.store, fun name hname => ?_⟩
  rw [entered, Footprint.slot_declareAll]
  exact h.slots name hname

def Outside (db table : String) (key : Bytes) : Prop := ∀ id, key ≠ Key.pack (Key.row db table id)

/-- What the reader goes by is the same in both sessions, and what the writer has queued in the
first is about its own table. -/
structure Unaware (writer reader db table db' table' : String) (owns : Bool) (s t : Session) :
    Prop where
  shared : s.shared.AgreesOn (Outside db table) (fun _ => True) t.shared
  writing : ∃ c, s.clients.get? writer = some c ∧ c.OnlyWrites db table ∧ c.ownsStore = owns
  reading : ∃ d, s.clients.get? reader = some d ∧ t.clients.get? reader = some d ∧
    d.Uses db' table'

theorem Unaware.write (h : Unaware writer reader db table db' table' owns s t)
    (hne : writer ≠ reader) (hcall : call.Writes table)
    (hcleanup : call = .cleanup → owns = false) :
    Unaware writer reader db table db' table' owns (callBy (writer, call) s).2 t := by
  obtain ⟨c, hc, hwrites, rfl⟩ := h.writing
  obtain ⟨d, hd, hd', hreads⟩ := h.reading
  have hkeys : ∀ op ∈ (c.queuedWith call).operations, ¬ Outside db table (Key.pack op.key) := by
    intro op hop houtside
    obtain ⟨id, hid⟩ := hwrites.toUses.key_of_mem hcall.about hop
    exact houtside id (congrArg Key.pack hid)
  have hslots : ∀ op ∈ (c.queuedWith call).operations, ∀ name, op.slot? = some name → ¬ True := by
    intro op hop name hname
    rw [hwrites.slot_of_mem hcall hop] at hname
    cases hname
  have hscan : ∀ table start count p, call ≠ .scan table start count p := by
    rintro _ _ _ _ rfl
    exact hcall
  rw [callBy, step_call hc]
  refine ⟨?_, ⟨_, by rw [Fields.get?_put, if_pos rfl], hwrites.after_call hcall _⟩, d, ?_, hd',
    hreads⟩
  · have hentered := agreesOn_entered_left h.shared call
    exact Client.agreesOn_call_left hentered hscan hcleanup hkeys hslots
  · rw [Fields.get?_put, if_neg hne.symm, hd]

theorem Unaware.read (h : Unaware writer reader db table db' table' owns s t)
    (hapart : Key.Apart db table db' table') (hne : writer ≠ reader) (hcall : call.About table') :
    (callBy (reader, call) s).1 = (callBy (reader, call) t).1 ∧
      Unaware writer reader db table db' table' owns (callBy (reader, call) s).2
        (callBy (reader, call) t).2 := by
  obtain ⟨c, hc, hwrites⟩ := h.writing
  obtain ⟨d, hd, hd', hreads⟩ := h.reading
  have hmeets : d.Meets call (Outside db table) := by
    constructor
    · intro op hop id heq
      obtain ⟨id', hid'⟩ := hreads.key_of_mem hcall hop
      exact Key.apart_iff.mp hapart id id' (by rw [← hid', Key.pack_inj.mp heq])
    · rintro t start count p rfl first hstart key hfirst hlast id rfl
      obtain rfl : t = table' := hcall
      rw [hreads.database] at hstart hlast
      obtain ⟨startId, rfl, rfl⟩ := Key.packText_rowFrom_eq_ok_iff.mp hstart
      exact Key.apart_iff_range.mp hapart id startId ⟨hfirst, hlast⟩
  obtain ⟨hreply, hclient, hshared⟩ := Client.alike_call (agreesOn_entered h.shared call) hmeets
  rw [callBy, step_call hd, step_call hd']
  refine ⟨congrArg (Except.map Answer.client) hreply, hshared, ⟨c, ?_, hwrites⟩, _,
    by rw [Fields.get?_put, if_pos rfl], ?_, hreads.after_call hcall _⟩
  · rw [Fields.get?_put, if_neg hne, hc]
  · rw [Fields.get?_put, if_pos rfl, ← hclient]

theorem isolated_of_apart (h : Key.Apart db table db' table') : Isolated db table db' table' := by
  intro s writer reader calls hsharing
  obtain ⟨c, hc, hwrites, howns⟩ := hsharing.writing
  obtain ⟨d, hd, hreads⟩ := hsharing.reading
  have hstart : Unaware writer reader db table db' table' c.ownsStore s s :=
    ⟨⟨.refl _, fun _ _ => rfl⟩, ⟨c, hc, hwrites, rfl⟩, d, hd, hd, hreads⟩
  have hmine : ∀ call ∈ calls, decide (call.1 = reader) = true → ∀ s t,
      Unaware writer reader db table db' table' c.ownsStore s t →
        (callBy call s).1 = (callBy call t).1 ∧
          Unaware writer reader db table db' table' c.ownsStore (callBy call s).2
            (callBy call t).2 := by
    rintro ⟨name, call⟩ hmem hname s t h'
    obtain rfl : name = reader := of_decide_eq_true hname
    rcases hsharing.allowed _ hmem with ⟨hwriter, -⟩ | ⟨-, hcall⟩
    · exact (hsharing.ne hwriter.symm).elim
    · exact h'.read h hsharing.ne hcall
  have hother : ∀ call ∈ calls, decide (call.1 = reader) = false → ∀ s t,
      Unaware writer reader db table db' table' c.ownsStore s t → True →
        Unaware writer reader db table db' table' c.ownsStore (callBy call s).2 t := by
    rintro ⟨name, call⟩ hmem hname s t h' -
    rcases hsharing.allowed _ hmem with ⟨rfl, hcall⟩ | ⟨hreader, -⟩
    · exact h'.write hsharing.ne hcall fun heq => howns (heq ▸ hmem)
    · exact (of_decide_eq_false hname hreader).elim
  have hpart := forall₂_part (H := fun _ _ => True) hmine hother (fun _ _ _ => trivial) hstart
  exact hpart.imp fun _ _ h => ⟨h.1, fun name => h.2.shared.slots name trivial⟩

end Unaware

theorem callBy_of_unbatched {c : Client} (hc : s.clients.get? name = some c)
    (hunbatched : c.Unbatched) {op : Operation}
    (hop : call.operation? c.settings.dbText = some op) :
    ∃ w : Shared, w.store = s.shared.store ∧ callBy (name, call) s =
      (.ok (.client (.status (w.execute [op]).1)),
        { s with shared := (w.execute [op]).2, clients := s.clients.put name c }) := by
  refine ⟨(s.entered call).report (.called op.kindName op.key), rfl, ?_⟩
  rw [callBy, step_call hc, Client.call_of_operation hunbatched.closed hop,
    Client.submit_of_unbatched hunbatched]
  rfl

/-- Tables that share a row key are not isolated: a record under that key can be deleted through the
one and read through the other. -/
theorem apart_of_isolated (h : Isolated db table db' table') : Key.Apart db table db' table' := by
  rw [Key.apart_iff]
  intro id id' heq
  let r : Record := .ofList [("f", "1")]
  let c : Client := .new ⟨.text db, 0⟩ false
  let d : Client := .new ⟨.text db', 0⟩ false
  let s : Session := ⟨⟨{ Store.new "kv" true with
    table := .holding (KeyMap.empty.insert (Key.pack (Key.row db table id)) r.encode) }, .empty⟩,
    ⟨.text db, 0⟩, .ofList [("x", c), ("y", d)], .empty⟩
  have hc : c.Unbatched := ⟨zero_le_one, rfl, rfl⟩
  have hd : d.Unbatched := ⟨zero_le_one, rfl, rfl⟩
  -- The shared key may be too long for an insert, so the record is there to begin with.
  let delete : String × Client.Call := ("x", .delete table id)
  let read : String × Client.Call := ("y", .read table' id' .all none)
  have hsharing : s.Sharing "x" "y" db table db' table' [delete, read] := by
    refine ⟨by decide, ?_, ⟨c, rfl, ⟨⟨rfl, nofun⟩, nofun⟩, fun _ => rfl⟩, d, rfl, rfl, nofun⟩
    simp [delete, read, Client.Call.Writes, Client.Call.About]
  have hread : ∀ (t : Session) (found : Option Record), t.clients.get? "y" = some d →
      t.shared.store.Ready →
      t.shared.store.table.rows (Key.pack (Key.row db table id)) = found.map Record.encode →
      (callBy read t).1 = .ok (.client (.status
        (if (found.bind (Record.project .all)).isSome then .ok else .error))) := by
    intro t found hy hready hrow
    have hop : read.2.operation? db' = some ⟨table', Key.row db' table' id', .read .all none⟩ := rfl
    obtain ⟨w, hw, hcall⟩ := callBy_of_unbatched hy hd hop
    rw [← hw] at hready hrow
    rw [heq] at hrow
    rw [hcall]
    exact congrArg (fun status => Except.ok (Answer.client (.status status)))
      (Shared.execute_read hready hrow table' .all none)
  have hready : s.shared.store.Ready := ⟨rfl, rfl, _, rfl⟩
  have hrow : s.shared.store.table.rows (Key.pack (Key.row db table id)) = some r.encode :=
    (KeyMap.get?_insert KeyMap.empty r.encode).trans (if_pos rfl)
  have hbefore : (callBy read s).1 = .ok (.client (.status .ok)) := hread s (some r) rfl hready hrow
  have hafter : (callBy read (callBy delete s).2).1 = .ok (.client (.status .error)) := by
    have hx : s.clients.get? "x" = some c := rfl
    have hop : delete.2.operation? db = some ⟨table, Key.row db table id, .delete⟩ := rfl
    obtain ⟨w, hw, hcall⟩ := callBy_of_unbatched hx hc hop
    have hready' : (w.execute [⟨table, Key.row db table id, .delete⟩]).2.store.Ready :=
      Shared.execute_ready (hw ▸ hready) _
    rw [hcall]
    exact hread _ none rfl hready' (Shared.execute_delete (hw ▸ hready) table _)
  have halike := h s "x" "y" _ hsharing
  rw [part_cons, if_neg (by simp [delete]), part_cons, if_pos (by simp [read])] at halike
  have hsame := (List.forall₂_cons.mp halike).1.1
  rw [hafter, hbefore] at hsame
  cases hsame

/-- Tables are isolated from one another if and only if they share no row key, if and only if a scan
of the one meets no row of the other. So are different tables whose names have no colon. -/
theorem isolated_iff (db table db' table' : String) :
    (Isolated db table db' table' ↔
        ∀ id id', Key.row db table id ≠ Key.row db' table' id') ∧
      (Isolated db table db' table' ↔ ∀ id start,
        ¬ (¬ Key.pack (Key.row db table id) < Key.pack (Key.row db' table' start) ∧
          Key.pack (Key.row db table id) < Key.pack (Key.rangeEnd table' (some db')))) ∧
      (Isolated db table db' table' ↔ Key.Apart db table db' table') ∧
      (':' ∉ db.toList → ':' ∉ table.toList → ':' ∉ db'.toList → ':' ∉ table'.toList →
        (db, table) ≠ (db', table') → Isolated db table db' table') := by
  have hapart : Isolated db table db' table' ↔ Key.Apart db table db' table' :=
    ⟨apart_of_isolated, isolated_of_apart⟩
  refine ⟨hapart.trans Key.apart_iff, hapart.trans Key.apart_iff_range, hapart, ?_⟩
  intro hdb htable hdb' htable' hne
  exact isolated_of_apart (Key.apart_of_no_colon hdb htable hdb' htable' hne)

theorem isolated_of_longer_name :
    Isolated "db" "t" "db" "t2" ∧ ∀ id id', Key.row "db" "t" id ≠ Key.row "db" "t2" id' := by
  have hisolated : Isolated "db" "t" "db" "t2" :=
    (isolated_iff "db" "t" "db" "t2").2.2.2 (by decide) (by decide) (by decide) (by decide)
      (by decide)
  exact ⟨hisolated, (isolated_iff "db" "t" "db" "t2").1.mp hisolated⟩

def clientReply : Except Fault Answer → Option Client.Reply
  | .ok (.client reply) => some reply
  | _ => none

/-- A record inserted into one table is read and scanned in another, as the row keys of the first
begin as those of the second do. -/
theorem not_isolated_of_colon :
    let s : Session := ⟨⟨{ Store.new "kv" true with table := .holding .empty }, .empty⟩,
      ⟨.text "DB", 0⟩,
      .ofList [("x", .new ⟨.text "DB", 0⟩ false), ("y", .new ⟨.text "DB", 0⟩ false)], .empty⟩
    let r : Record := .ofList [("f", "1")]
    let calls : List (String × Client.Call) :=
      [("x", .insert "t:u" "1" (r.map .text)), ("y", .read "t" "u:1" .all (some "r")),
        ("y", .scan "t" "" 0 .all)]
    ("DB", "t:u") ≠ ("DB", "t") ∧
      (part (·.1 = "y") callBy s calls).map (clientReply ·.1) =
        [some (.status .ok), some (.scanned .ok [r])] ∧
      (trace callBy s (calls.filter (·.1 = "y"))).map (clientReply ·.1) =
        [some (.status .error), some (.scanned .ok [])] ∧
      ¬ Isolated "DB" "t:u" "DB" "t" := by
  have hnot : ¬ Isolated "DB" "t:u" "DB" "t" := fun h =>
    absurd (apart_of_isolated h) (by decide +kernel)
  exact ⟨by decide, by decide +kernel, by decide +kernel, hnot⟩

end Session

end RecordStore
