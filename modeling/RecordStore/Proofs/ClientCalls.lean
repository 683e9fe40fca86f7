import RecordStore.Client
import RecordStore.Proofs.InTurn

/-! # What a call does

A call that brings an operation adds it to the queue, and the call that completes a batch or clears
the queue carries out all that is queued. The batches that are carried out along a run of calls, and
the answers to its operations, are listed beside the run.
-/

namespace RecordStore

namespace Shared

theorem contents_report (w : Shared) (e : Event) : (w.report e).contents = w.contents := rfl

theorem contents_close (w : Shared) : w.close.2.contents = w.contents := by
  unfold close Store.close
  cases w.store.closeFault with
  | some e => rfl
  | none => cases hopen : w.store.isOpen <;> simp [contents, report, Footprint.report]

end Shared

namespace Client

def Call.operation? (db : String) : Call → Option Operation
  | .read table id p slot => some ⟨table, Key.row db table id, .read p slot⟩
  | .insert table id values => some ⟨table, Key.row db table id, .insert values⟩
  | .update table id values => some ⟨table, Key.row db table id, .update values⟩
  | .delete table id => some ⟨table, Key.row db table id, .delete⟩
  | .scan .. | .flush | .cleanup => none

def queuedWith (c : Client) (call : Call) : Queue :=
  (call.operation? c.settings.dbText).elim c.queue c.queue.append

/-- Whether a call carries out what is queued by then. -/
def isDue (c : Client) (call : Call) : Bool :=
  !c.closed &&
    match call with
    | .scan .. => false
    | .flush | .cleanup => !c.queue.isEmpty
    | _ => (c.queuedWith call).shouldFlush c.settings.batchSize

/-- A call that brings an operation is reported before anything else. -/
def announce (c : Client) (call : Call) (w : Shared) : Shared :=
  (call.operation? c.settings.dbText).elim w fun op => w.report (.called op.kindName op.key)

/-- The verdict on what is queued, if it is carried out in a call, and what becomes of the store. -/
def carryOut (c : Client) (call : Call) (w : Shared) : Status × Shared :=
  (c.announce call w).execute (c.queuedWith call).operations

def serve (call : Call) (s : Client × Shared) : Client × Shared := (s.1.call call s.2).2

def serveAll (s : Client × Shared) (calls : List Call) : Client × Shared :=
  calls.foldl (fun s call => serve call s) s

def batch? (call : Call) (s : Client × Shared) : Option (List Operation × Status) :=
  if s.1.isDue call then some ((s.1.queuedWith call).operations, (s.1.carryOut call s.2).1)
  else none

def answer? (call : Call) (s : Client × Shared) : Option (Operation × Status) :=
  (call.operation? s.1.settings.dbText).bind fun op =>
    match (s.1.call call s.2).1 with
    | .ok (.status status) => some (op, status)
    | _ => none

/-- What is found at the calls of a run, each with the client and the store that it meets. -/
def along {α : Type} (f : Call → Client × Shared → Option α) (s : Client × Shared) :
    List Call → List α
  | [] => []
  | call :: rest => (f call s).toList ++ along f (serve call s) rest

def batches : Client × Shared → List Call → List (List Operation × Status) := along batch?

def answers : Client × Shared → List Call → List (Operation × Status) := along answer?

/-- A call that clears the queue, or that brings a plain operation. -/
def Call.Plain (db : String) (call : Call) : Prop :=
  call = .flush ∨ ∃ op, call.operation? db = some op ∧ op.Plain

theorem Call.Plain.operation {db : String} {call : Call} {op : Operation} (h : call.Plain db)
    (hop : call.operation? db = some op) : op.Plain := by
  rcases h with rfl | ⟨op', hop', hplain⟩
  · cases hop
  · exact Option.some.inj (hop'.symm.trans hop) ▸ hplain

theorem operations_queuedWith (c : Client) (call : Call) :
    (c.queuedWith call).operations =
      c.queue.operations ++ (call.operation? c.settings.dbText).toList := by
  unfold queuedWith
  cases call.operation? c.settings.dbText with
  | none => rw [Option.elim_none, Option.toList_none, List.append_nil]
  | some op => rw [Option.elim_some, Queue.operations_append, Option.toList_some]

section Run

variable {α : Type} {s : Client × Shared} {f : Call → Client × Shared → Option α} {call : Call}
  {before rest : List Call}

theorem serveAll_append : serveAll s (before ++ rest) = serveAll (serveAll s before) rest :=
  List.foldl_append

theorem along_append :
    along f s (before ++ rest) = along f s before ++ along f (serveAll s before) rest := by
  induction before generalizing s with
  | nil => rfl
  | cons call before ih =>
    rw [List.cons_append, along, ih, along, List.append_assoc]
    rfl

theorem along_singleton : along f s [call] = (f call s).toList := List.append_nil _

end Run

section Call

variable {c : Client} {w : Shared} {call : Call} {op : Operation}

theorem call_of_operation (hopen : c.closed = false)
    (h : call.operation? c.settings.dbText = some op) :
    c.call call w =
      let (status, c', w') := c.submit op (w.report (.called op.kindName op.key))
      (.ok (.status status), c', w') := by
  have hclosed : ¬ c.closed = true := by simp [hopen]
  cases call <;> cases h <;> exact if_neg hclosed

theorem isDue_of_operation (hopen : c.closed = false)
    (h : call.operation? c.settings.dbText = some op) :
    c.isDue call = (c.queue.append op).shouldFlush c.settings.batchSize := by
  cases call <;> cases h <;> simp [isDue, hopen, queuedWith, Call.operation?]

/-- A call that brings an operation is answered with the verdict on its batch, or put off. -/
theorem call_submits (hopen : c.closed = false)
    (h : call.operation? c.settings.dbText = some op) :
    c.call call w =
      if c.isDue call then
        (.ok (.status (c.carryOut call w).1), { c with queue := .empty }, (c.carryOut call w).2)
      else (.ok (.status .batched), { c with queue := c.queuedWith call }, c.announce call w) := by
  rw [call_of_operation hopen h, submit, isDue_of_operation hopen h, carryOut, announce, queuedWith,
    h]
  simp only [Option.elim_some]
  split
  · rfl
  · rfl

theorem call_flush (hopen : c.closed = false) :
    c.call .flush w =
      if c.queue.isEmpty then (.ok (.status .ok), c, w)
      else (.ok (.status (c.flushQueue w).1), (c.flushQueue w).2) := by
  have hclosed : ¬ c.closed = true := by simp [hopen]
  exact if_neg hclosed

theorem serve_of_isDue (hopen : c.closed = false) (hcall : call.Plain c.settings.dbText)
    (hdue : c.isDue call = true) :
    serve call (c, w) = ({ c with queue := .empty }, (c.carryOut call w).2) := by
  rcases hcall with rfl | ⟨op, hop, -⟩
  · have hqueue : ¬ c.queue.isEmpty = true := by simpa [isDue, hopen] using hdue
    rw [serve, call_flush hopen, if_neg hqueue]
    rfl
  · rw [serve, call_submits hopen hop, if_pos hdue]

theorem serve_of_not_isDue (hopen : c.closed = false) (hcall : call.Plain c.settings.dbText)
    (hdue : ¬ c.isDue call = true) :
    serve call (c, w) = ({ c with queue := c.queuedWith call }, c.announce call w) := by
  rcases hcall with rfl | ⟨op, hop, -⟩
  · have hqueue : c.queue.isEmpty = true := by simpa [isDue, hopen] using hdue
    rw [serve, call_flush hopen, if_pos hqueue]
    rfl
  · rw [serve, call_submits hopen hop, if_neg hdue]

theorem queue_serve_flush (hopen : c.closed = false) :
    (serve .flush (c, w)).1.queue.operations = [] := by
  rw [serve, call_flush hopen]
  split
  · next hqueue => exact List.isEmpty_iff.mp hqueue
  · rfl

theorem contents_cleanup_of_isEmpty (h : c.queue.isEmpty = true) (w : Shared) :
    (c.cleanup w).2.2.contents = w.contents := by
  have hclose := w.contents_close
  simp only [cleanup, if_pos h]
  split
  · rcases hclosed : w.close with ⟨r, w'⟩
    rw [hclosed] at hclose
    cases r with
    | error e => exact hclose
    | ok => exact hclose
  · rfl

theorem cleanup_of_not_isEmpty (h : ¬ c.queue.isEmpty = true) (w : Shared) :
    ∃ w', w'.contents = (c.flushQueue w).2.2.contents ∧
      c.cleanup w = { c with queue := .empty }.cleanup w' := by
  rcases hflush : w.execute c.queue.operations with ⟨status, w'⟩
  have hqueue : c.flushQueue w = (status, { c with queue := .empty }, w') := by
    simp only [flushQueue, Queue.drain, hflush]
  refine ⟨if status = .ok then w' else w'.report (.finalFlushFailed status), ?_, ?_⟩
  · rw [hqueue]
    split
    · rfl
    · exact w'.contents_report _
  · simp only [cleanup, if_neg h, hqueue]
    rfl

theorem contents_serve_cleanup (hopen : c.closed = false) :
    (serve .cleanup (c, w)).2.contents = (serve .flush (c, w)).2.contents := by
  have hclosed : ¬ c.closed = true := by simp [hopen]
  have hcall : c.call .cleanup w = c.cleanup w := if_neg hclosed
  rw [serve, serve, hcall, call_flush hopen]
  by_cases hempty : c.queue.isEmpty = true
  · rw [if_pos hempty, contents_cleanup_of_isEmpty hempty]
  · obtain ⟨w', hcontents, hcleanup⟩ := cleanup_of_not_isEmpty hempty w
    rw [if_neg hempty, hcleanup, contents_cleanup_of_isEmpty rfl, hcontents]

end Call

end Client
end RecordStore
