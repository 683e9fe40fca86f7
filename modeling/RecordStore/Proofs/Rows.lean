import Mathlib.Logic.Function.Basic
import RecordStore.Batch
import RecordStore.Proofs.Selection

/-! # What a batch makes of the rows

Sending a batch decides the rows of its inserts and deletes, each update finds its row as those
before it left it, and merged records are written last. For each key the last update that merges
has the last word, and otherwise the last insert or delete.
-/

namespace RecordStore

abbrev Rows := Bytes → Option Bytes

def Table.rows : Table → Rows
  | .holding entries => entries.get?
  | _ => fun _ => none

def Operation.request? (op : Operation) : Option Batch.Request :=
  match op.action with
  | .read p slot => some (.read p slot)
  | .update values => some (.update values)
  | _ => none

namespace Batch

def leave (rows : Rows) (op : Operation) : Rows :=
  match op.action with
  | .insert values => Function.update rows (Key.pack op.key) values.encode.toOption
  | .delete => Function.update rows (Key.pack op.key) none
  | _ => rows

def leaveAll (rows : Rows) (ops : List Operation) : Rows := ops.foldl leave rows

/-- The record that an update makes of a row, if there is a record with fields in it. -/
def merge (values : Fields Value) (row : Option Bytes) : Option Bytes :=
  match row.map Record.decode with
  | some (.ok r) =>
    if r.isEmpty then none else ((r.map Value.text).overlay values).encode.toOption
  | _ => none

/-- The operation at a position is an update of the key, and the row that the inserts and deletes
before it left there is one that it merges into. -/
def MergesAt (rows : Rows) (ops : List Operation) (i : Nat) (key data : Bytes) : Prop :=
  ∃ op values, ops[i]? = some op ∧ op.action = .update values ∧ Key.pack op.key = key ∧
    merge values (leaveAll rows (ops.take i) key) = some data

/-- The rows that a batch is to leave: on each key what the last update that merges makes of it, or
else what the inserts and deletes leave there. -/
structure Commits (rows : Rows) (ops : List Operation) (rows' : Rows) : Prop where
  merged {i : Nat} {key data : Bytes} : MergesAt rows ops i key data →
    (∀ j, i < j → ∀ d, ¬ MergesAt rows ops j key d) → rows' key = some data
  left {key : Bytes} : (∀ i data, ¬ MergesAt rows ops i key data) →
    rows' key = leaveAll rows ops key

/-- The requests of a batch, each with the row that it finds. -/
def ask (rows : Rows) : List Operation → List Pending
  | [] => []
  | op :: rest =>
    (op.request?.map fun request => ⟨op.key, request, .ok (rows (Key.pack op.key))⟩).toList ++
      ask (leave rows op) rest

def Pending.write (rows : Rows) (p : Pending) : Rows :=
  match p.outcome with
  | .ok (.merged data) => Function.update rows (Key.pack p.key) (some data)
  | _ => rows

/-- The rows that a batch commits. -/
def after (rows : Rows) (ops : List Operation) : Rows :=
  (ask rows ops).foldl Pending.write (leaveAll rows ops)

@[simp] theorem leaveAll_nil (rows : Rows) : leaveAll rows [] = rows := rfl

@[simp] theorem leaveAll_cons (rows : Rows) (op : Operation) (ops : List Operation) :
    leaveAll rows (op :: ops) = leaveAll (leave rows op) ops := rfl

theorem leave_of_request {rows : Rows} {op : Operation} {request : Request}
    (h : op.request? = some request) : leave rows op = rows := by
  rw [leave]
  split <;> simp_all [Operation.request?]

theorem ask_append_eq (rows : Rows) (before rest : List Operation) :
    ask (leaveAll rows before) rest = (rest.zipIdx before.length).filterMap fun (op, i) =>
      op.request?.map fun request =>
        ⟨op.key, request, .ok (leaveAll rows ((before ++ rest).take i) (Key.pack op.key))⟩ := by
  induction rest generalizing before with
  | nil => rfl
  | cons op rest ih =>
    have hrest := ih (before ++ [op])
    have htake : (before ++ op :: rest).take before.length = before := by simp
    rw [List.append_assoc, List.length_append] at hrest
    have hleave : leaveAll rows (before ++ [op]) = leave (leaveAll rows before) op := by
      simp [leaveAll]
    rw [ask, ← hleave, hrest, List.zipIdx_cons, List.filterMap_cons]
    simp only [htake]
    cases op.request? <;> rfl

theorem ask_eq (rows : Rows) (ops : List Operation) :
    ask rows ops = ops.zipIdx.filterMap fun (op, i) => op.request?.map fun request =>
      ⟨op.key, request, .ok (leaveAll rows (ops.take i) (Key.pack op.key))⟩ :=
  ask_append_eq rows [] ops

theorem mem_ask_iff {rows : Rows} {ops : List Operation} {p : Pending} :
    p ∈ ask rows ops ↔ ∃ i op request, ops[i]? = some op ∧ op.request? = some request ∧
      p = ⟨op.key, request, .ok (leaveAll rows (ops.take i) (Key.pack op.key))⟩ := by
  simp only [ask_eq, List.mem_filterMap, Option.map_eq_some_iff, Prod.exists,
    List.mk_mem_zipIdx_iff_getElem?]
  constructor
  · rintro ⟨op, i, hop, request, hrequest, rfl⟩
    exact ⟨i, op, request, hop, hrequest, rfl⟩
  · rintro ⟨i, op, request, hop, hrequest, rfl⟩
    exact ⟨op, i, hop, request, hrequest, rfl⟩

theorem settle_update_eq_merged_iff {values : Fields Value} {row : Option Bytes} {data : Bytes} :
    settle (.update values) row = .ok (.merged data) ↔ merge values row = some data := by
  cases row with
  | none => simp [settle, merge]
  | some stored =>
    simp only [settle, merge, Record.read, Option.map_some]
    rcases Record.decode stored with e | r
    · simp [Functor.map, Except.map]
    · by_cases hr : r.isEmpty
      · simp [Functor.map, Except.map, Record.select_all, hr]
      · cases hmerged : ((r.map Value.text).overlay values).encode <;>
          simp [Functor.map, Except.map, Record.select_all, hr, hmerged, Except.toOption]

theorem settle_read_ne_merged (p : Projection) (slot : Option String) (row : Option Bytes)
    (data : Bytes) : settle (.read p slot) row ≠ .ok (.merged data) := by
  cases row with
  | none => simp [settle]
  | some stored =>
    simp only [settle]
    split <;> simp

theorem settle_update_ne_found (values : Fields Value) (row : Option Bytes) (r : Record)
    (slot : Option String) : settle (.update values) row ≠ .ok (.found r slot) := by
  cases row with
  | none => simp [settle]
  | some stored =>
    simp only [settle]
    split
    · simp
    · simp
    · split <;> simp

def mergeHead (rows : Rows) (op : Operation) (key : Bytes) : Option Bytes :=
  match op.action with
  | .update values => if Key.pack op.key = key then merge values (rows key) else none
  | _ => none

def lastMerge (rows : Rows) : List Operation → Bytes → Option Bytes
  | [], _ => none
  | op :: rest, key => (lastMerge (leave rows op) rest key).or (mergeHead rows op key)

theorem mergesAt_zero_iff {rows : Rows} {op : Operation} {rest : List Operation}
    {key data : Bytes} :
    MergesAt rows (op :: rest) 0 key data ↔ mergeHead rows op key = some data := by
  simp only [MergesAt, List.getElem?_cons_zero, Option.some.injEq, List.take_zero, leaveAll_nil,
    mergeHead]
  constructor
  · rintro ⟨_, values, rfl, haction, hkey, hmerge⟩
    simp [haction, hkey, hmerge]
  · intro h
    split at h
    · next values haction =>
      split at h
      · next hkey => exact ⟨op, values, rfl, haction, hkey, h⟩
      · simp at h
    · simp at h

theorem mergesAt_succ_iff {rows : Rows} {op : Operation} {rest : List Operation} {i : Nat}
    {key data : Bytes} :
    MergesAt rows (op :: rest) (i + 1) key data ↔ MergesAt (leave rows op) rest i key data := by
  simp [MergesAt]

theorem lastMerge_eq_none_iff {rows : Rows} {ops : List Operation} {key : Bytes} :
    lastMerge rows ops key = none ↔ ∀ i data, ¬ MergesAt rows ops i key data := by
  induction ops generalizing rows with
  | nil => simp [lastMerge, MergesAt]
  | cons op rest ih =>
    rw [lastMerge, Option.or_eq_none_iff, ih]
    constructor
    · rintro ⟨hrest, hhead⟩ i data h
      cases i with
      | zero => simp [mergesAt_zero_iff.mp h] at hhead
      | succ i => exact hrest i data (mergesAt_succ_iff.mp h)
    · intro h
      refine ⟨fun i data hi => h (i + 1) data (mergesAt_succ_iff.mpr hi), ?_⟩
      exact Option.eq_none_iff_forall_ne_some.mpr fun data hdata =>
        h 0 data (mergesAt_zero_iff.mpr hdata)

theorem lastMerge_of_mergesAt {rows : Rows} {ops : List Operation} {i : Nat} {key data : Bytes}
    (h : MergesAt rows ops i key data) (hlast : ∀ j, i < j → ∀ d, ¬ MergesAt rows ops j key d) :
    lastMerge rows ops key = some data := by
  induction ops generalizing rows i with
  | nil => simp [MergesAt] at h
  | cons op rest ih =>
    rw [lastMerge]
    cases i with
    | zero =>
      have hrest : lastMerge (leave rows op) rest key = none :=
        lastMerge_eq_none_iff.mpr fun j d hj =>
          hlast (j + 1) (by omega) d (mergesAt_succ_iff.mpr hj)
      rw [hrest, Option.none_or, mergesAt_zero_iff.mp h]
    | succ i =>
      rw [ih (mergesAt_succ_iff.mp h) fun j hj d hd =>
        hlast (j + 1) (by omega) d (mergesAt_succ_iff.mpr hd), Option.some_or]

theorem write_of_merge_eq_some {base : Rows} {key : String} {values : Fields Value}
    {row : Option Bytes} {data : Bytes} (h : merge values row = some data) :
    Pending.write base ⟨key, .update values, .ok row⟩ =
      Function.update base (Key.pack key) (some data) := by
  have hout : Pending.outcome ⟨key, .update values, .ok row⟩ = .ok (.merged data) :=
    settle_update_eq_merged_iff.mpr h
  simp only [Pending.write, hout]

theorem write_of_outcome_ne_merged {base : Rows} {p : Pending}
    (h : ∀ data, p.outcome ≠ .ok (.merged data)) : Pending.write base p = base := by
  rw [Pending.write]
  split
  · next data hout => exact (h data hout).elim
  · rfl

theorem write_request (rows base : Rows) (op : Operation) (key : Bytes) :
    ((op.request?.map fun request =>
      (⟨op.key, request, .ok (rows (Key.pack op.key))⟩ : Pending)).toList.foldl Pending.write base)
        key = (mergeHead rows op key).or (base key) := by
  simp only [Operation.request?, mergeHead]
  cases op.action with
  | insert values => rfl
  | delete => rfl
  | read p slot =>
    have hwrite : Pending.write base ⟨op.key, .read p slot, .ok (rows (Key.pack op.key))⟩ = base :=
      write_of_outcome_ne_merged fun data => settle_read_ne_merged p slot _ data
    simp only [Option.map_some, Option.toList_some, List.foldl_cons, List.foldl_nil, Option.none_or,
      hwrite]
  | update values =>
    simp only [Option.map_some, Option.toList_some, List.foldl_cons, List.foldl_nil]
    cases hmerge : merge values (rows (Key.pack op.key)) with
    | none =>
      rw [write_of_outcome_ne_merged fun data hdata => by
        simp [settle_update_eq_merged_iff.mp hdata] at hmerge]
      split
      · next hkey => rw [← hkey, hmerge, Option.none_or]
      · rw [Option.none_or]
    | some data =>
      rw [write_of_merge_eq_some hmerge]
      split
      · next hkey => rw [← hkey, hmerge, Function.update_self, Option.some_or]
      · next hkey => rw [Function.update_of_ne (Ne.symm hkey), Option.none_or]

/-- The requests of a batch write what the last update that merges leaves, key by key. -/
theorem foldl_write_ask (rows base : Rows) (ops : List Operation) (key : Bytes) :
    (ask rows ops).foldl Pending.write base key = (lastMerge rows ops key).or (base key) := by
  induction ops generalizing rows base with
  | nil => simp [ask, lastMerge]
  | cons op rest ih =>
    rw [ask, List.foldl_append, ih, write_request, lastMerge, Option.or_assoc]

theorem after_apply (rows : Rows) (ops : List Operation) (key : Bytes) :
    after rows ops key = (lastMerge rows ops key).or (leaveAll rows ops key) :=
  foldl_write_ask rows _ ops key

theorem commits_after (rows : Rows) (ops : List Operation) : Commits rows ops (after rows ops) where
  merged h hlast := by rw [after_apply, lastMerge_of_mergesAt h hlast, Option.some_or]
  left h := by rw [after_apply, lastMerge_eq_none_iff.mpr h, Option.none_or]

end Batch
end RecordStore
