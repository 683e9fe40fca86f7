import RecordStore.Proofs.BatchFaults
import RecordStore.Proofs.RecordRoundTrip
import RecordStore.Proofs.Selection
import RecordStore.Proofs.SharedBatch

/-! # What a batch means

A batch of text operations on a store in good order, key by key and request by request: the rows
that it commits, its verdict, and what its reads put into slots.
-/

namespace RecordStore

/-- The operation brings along texts only. -/
def Operation.Textual (op : Operation) : Prop := ∃ r : Record, op.values = r.map Value.text

theorem Operation.Textual.insert {op : Operation} (h : op.Textual) {values : Fields Value}
    (haction : op.action = .insert values) : ∃ r : Record, values = r.map Value.text := by
  simpa [Textual, Operation.values, haction] using h

theorem Operation.Textual.update {op : Operation} (h : op.Textual) {values : Fields Value}
    (haction : op.action = .update values) : ∃ r : Record, values = r.map Value.text := by
  simpa [Textual, Operation.values, haction] using h

/-- What an insert or delete of the key leaves there. -/
def Operation.leaves (op : Operation) (key : Bytes) : Option (Option Bytes) :=
  if Key.pack op.key = key then
    match op.action with
    | .insert values => some values.encode.toOption
    | .delete => some none
    | _ => none
  else none

namespace Batch

variable {rows : Rows} {ops : List Operation} {i : Nat} {op : Operation} {key data : Bytes}

def lastLeft (ops : List Operation) (key : Bytes) : Option (Option Bytes) :=
  ops.reverse.findSome? (·.leaves key)

/-- The row that the operation at a position meets: what the last insert or delete of the key before
it leaves there, or else the row as it was. -/
def base (rows : Rows) (ops : List Operation) (i : Nat) (key : Bytes) : Option Bytes :=
  (lastLeft (ops.take i) key).getD (rows key)

/-- The operation at a position meets a record with fields in it. -/
def Meets (rows : Rows) (ops : List Operation) (i : Nat) (op : Operation) (r : Record) : Prop :=
  ops[i]? = some op ∧ r.isEmpty = false ∧
    ∃ data, base rows ops i (Key.pack op.key) = some data ∧ Record.decode data = .ok r

/-- The operation at a position is an update of the key that meets a record and makes `r` of it. -/
def Updates (rows : Rows) (ops : List Operation) (i : Nat) (key : Bytes) (r : Record) : Prop :=
  ∃ op old new, Meets rows ops i op old ∧ op.action = .update (Fields.map Value.text new) ∧
    Key.pack op.key = key ∧ r = old.overlay new

theorem leave_apply (rows : Rows) (op : Operation) (key : Bytes) :
    leave rows op key = (op.leaves key).getD (rows key) := by
  unfold leave Operation.leaves
  by_cases hkey : Key.pack op.key = key
  · subst hkey
    cases op.action <;> simp
  · cases op.action <;> simp [hkey, Function.update_of_ne (Ne.symm hkey)]

theorem lastLeft_cons (op : Operation) (rest : List Operation) (key : Bytes) :
    lastLeft (op :: rest) key = (lastLeft rest key).or (op.leaves key) := by
  rw [lastLeft, lastLeft, List.reverse_cons, List.findSome?_append]
  cases rest.reverse.findSome? (·.leaves key) with
  | some row => rfl
  | none => simp

theorem leaveAll_apply (rows : Rows) (ops : List Operation) (key : Bytes) :
    leaveAll rows ops key = (lastLeft ops key).getD (rows key) := by
  induction ops generalizing rows with
  | nil => rfl
  | cons op rest ih =>
    rw [leaveAll_cons, ih, leave_apply, lastLeft_cons]
    cases lastLeft rest key <;> rfl

theorem leaveAll_take (rows : Rows) (ops : List Operation) (i : Nat) (key : Bytes) :
    leaveAll rows (ops.take i) key = base rows ops i key := leaveAll_apply rows _ key

theorem merge_text_iff {new : Record} {row : Option Bytes} {data : Bytes} :
    merge (Fields.map Value.text new) row = some data ↔ ∃ stored old, row = some stored ∧
      Record.decode stored = .ok old ∧ old.isEmpty = false ∧
      data = Record.encode (old.overlay new) := by
  cases row with
  | none => simp [merge]
  | some stored =>
    simp only [merge, Option.map_some, Option.some.injEq, exists_eq_left', exists_and_left]
    cases hdecode : Record.decode stored with
    | error e => simp
    | ok old =>
      have hpack : ((old.map Value.text).overlay (Fields.map Value.text new)).encode =
          .ok (Record.encode (old.overlay new)) := by
        rw [← Fields.map_overlay, Record.encode_map_text]
      cases hold : old.isEmpty <;> simp [hold, hpack, Except.toOption, eq_comm (b := data)]

theorem mergesAt_iff (htext : ∀ op ∈ ops, op.Textual) :
    MergesAt rows ops i key data ↔ ∃ r, Updates rows ops i key r ∧ data = r.encode := by
  simp only [MergesAt, leaveAll_take]
  constructor
  · rintro ⟨op, values, hop, haction, rfl, hmerge⟩
    obtain ⟨new, rfl⟩ := (htext op (List.mem_of_getElem? hop)).update haction
    obtain ⟨stored, old, hbase, hdecode, hold, rfl⟩ := merge_text_iff.mp hmerge
    exact ⟨_, ⟨op, old, new, ⟨hop, hold, stored, hbase, hdecode⟩, haction, rfl, rfl⟩, rfl⟩
  · rintro ⟨r, ⟨op, old, new, ⟨hop, hold, stored, hbase, hdecode⟩, haction, rfl, rfl⟩, rfl⟩
    exact ⟨op, _, hop, haction, rfl, merge_text_iff.mpr ⟨stored, old, hbase, hdecode, hold, rfl⟩⟩

theorem status_read_iff {k : String} {p : Projection} {slot : Option String} {row : Option Bytes} :
    Pending.status ⟨k, .read p slot, .ok row⟩ = .ok ↔
      ∃ data r, row = some data ∧ Record.decode data = .ok r ∧ r.Has p := by
  cases row with
  | none => simp [Pending.status, Pending.outcome, Except.bind, settle]
  | some data =>
    simp only [Option.some.injEq, exists_eq_left', exists_and_left, ← Record.isSome_select_iff]
    cases hdecode : Record.decode data with
    | error e =>
      simp [Pending.status, Pending.outcome, Except.bind, settle, Record.read, hdecode,
        Functor.map, Except.map]
    | ok r =>
      cases hselect : Record.select p r <;>
        simp [Pending.status, Pending.outcome, Except.bind, settle, Record.read, hdecode,
          Functor.map, Except.map, hselect]

theorem status_update_iff {k : String} {values : Fields Value} {row : Option Bytes} :
    Pending.status ⟨k, .update values, .ok row⟩ = .ok ↔ ∃ data, merge values row = some data := by
  simp only [← settle_update_eq_merged_iff]
  have houtcome : Pending.outcome ⟨k, .update values, .ok row⟩ = settle (.update values) row := rfl
  simp only [Pending.status, houtcome]
  rcases hsettle : settle (.update values) row with e | _ | _ | ⟨r, slot⟩ | data
  · simp
  · simp
  · simp
  · exact (settle_update_ne_found values row r slot hsettle).elim
  · simp

def Pending.reading (p : Pending) : Option (String × Record) :=
  match p.outcome with
  | .ok (.found r (some slot)) => some (slot, r)
  | _ => none

def reading (rows : Rows) (ops : List Operation) (i : Nat) (op : Operation) :
    Option (String × Record) :=
  match op.action with
  | .read p (some slot) => do
    let data ← base rows ops i (Key.pack op.key)
    let r ← (Record.decode data).toOption
    let selected ← Record.select p r
    return (slot, selected)
  | _ => none

theorem slots_traced (f : Footprint) (pending : List Pending) :
    (pending.foldl Pending.trace f).slots =
      ((pending.filterMap Pending.reading).foldl (fun f p => f.fill p.1 p.2) f).slots := by
  have hslots : ∀ (f g : Footprint), f.slots = g.slots → (pending.foldl Pending.trace f).slots =
      ((pending.filterMap Pending.reading).foldl (fun f p => f.fill p.1 p.2) g).slots := by
    induction pending with
    | nil => exact fun _ _ h => h
    | cons p rest ih =>
      intro f g h
      rw [List.foldl_cons, List.filterMap_cons]
      unfold Pending.trace Pending.reading
      rcases p.outcome with e | _ | _ | ⟨r, _ | slot⟩ | data
      · exact ih _ _ h
      · exact ih _ _ h
      · exact ih _ _ h
      · exact ih _ _ h
      · exact ih _ _ (by simp only [Option.elim_some, Footprint.fill, Footprint.slot, h])
      · exact ih _ _ h
  exact hslots f f rfl

theorem slots_settled (f : Footprint) (pending : List Pending) : (settled f pending).slots =
    ((pending.filterMap Pending.reading).foldl (fun f p => f.fill p.1 p.2) f).slots :=
  slots_traced f pending

theorem ask_readings (rows : Rows) (ops : List Operation) :
    (ask rows ops).filterMap Pending.reading =
      ops.zipIdx.filterMap fun (op, i) => reading rows ops i op := by
  rw [ask_eq, List.filterMap_filterMap]
  apply List.filterMap_congr
  rintro ⟨op, i⟩ _
  simp only [Operation.request?, reading, leaveAll_take]
  cases op.action with
  | insert values => rfl
  | delete => rfl
  | update values =>
    simp only [Option.map_some, Option.bind_some, Pending.reading]
    split
    · next r slot h => exact (settle_update_ne_found values _ r (some slot) h).elim
    · rfl
  | read p slot =>
    simp only [Option.map_some, Option.bind_some, Pending.reading, Pending.outcome, Except.bind]
    cases base rows ops i (Key.pack op.key) with
    | none => cases slot <;> rfl
    | some data =>
      cases hdecode : Record.decode data with
      | error e => cases slot <;> simp [settle, Record.read, hdecode, Functor.map, Except.map,
          Except.toOption]
      | ok r =>
        cases hselect : Record.select p r <;> cases slot <;>
          simp [settle, Record.read, hdecode, hselect, Functor.map, Except.map, Except.toOption]

theorem status_ask_iff {request : Request} (hop : ops[i]? = some op) (htext : op.Textual)
    (hrequest : op.request? = some request) :
    Pending.status ⟨op.key, request, .ok (base rows ops i (Key.pack op.key))⟩ = .ok ↔
      ∃ r, Meets rows ops i op r ∧ ∀ name ∈ op.projection.names, name ∈ r.names := by
  cases haction : op.action with
  | insert values => simp [Operation.request?, haction] at hrequest
  | delete => simp [Operation.request?, haction] at hrequest
  | read p slot =>
    obtain rfl : Request.read p slot = request := by
      simpa [Operation.request?, haction] using hrequest
    rw [status_read_iff, Operation.projection, haction]
    constructor
    · rintro ⟨data, r, hbase, hdecode, hr, hnames⟩
      exact ⟨r, ⟨hop, hr, data, hbase, hdecode⟩, hnames⟩
    · rintro ⟨r, ⟨-, hr, data, hbase, hdecode⟩, hnames⟩
      exact ⟨data, r, hbase, hdecode, ⟨hr, hnames⟩⟩
  | update values =>
    obtain rfl : Request.update values = request := by
      simpa [Operation.request?, haction] using hrequest
    obtain ⟨new, rfl⟩ := htext.update haction
    rw [status_update_iff, Operation.projection, haction]
    constructor
    · rintro ⟨data, hmerge⟩
      obtain ⟨stored, old, hbase, hdecode, hold, -⟩ := merge_text_iff.mp hmerge
      exact ⟨old, ⟨hop, hold, stored, hbase, hdecode⟩, by simp [Projection.all]⟩
    · rintro ⟨old, ⟨-, hold, stored, hbase, hdecode⟩, -⟩
      exact ⟨_, merge_text_iff.mpr ⟨stored, old, hbase, hdecode, hold, rfl⟩⟩

/-- A batch is in order when every request meets a record with all that it asks for. -/
theorem verdict_ask_iff (htext : ∀ op ∈ ops, op.Textual) :
    verdict ((ask rows ops).map Pending.status) = .ok ↔
      ∀ i op, ops[i]? = some op → op.request?.isSome = true →
        ∃ r, Meets rows ops i op r ∧ ∀ name ∈ op.projection.names, name ∈ r.names := by
  rw [verdict_eq_ok_iff, List.forall_mem_map]
  constructor
  · intro h i op hop hsome
    obtain ⟨request, hrequest⟩ := Option.isSome_iff_exists.mp hsome
    have hok := h _ (mem_ask_iff.mpr ⟨i, op, request, hop, hrequest, rfl⟩)
    rw [leaveAll_take] at hok
    exact (status_ask_iff hop (htext op (List.mem_of_getElem? hop)) hrequest).mp hok
  · intro h p hp
    obtain ⟨i, op, request, hop, hrequest, rfl⟩ := mem_ask_iff.mp hp
    rw [leaveAll_take]
    exact (status_ask_iff hop (htext op (List.mem_of_getElem? hop)) hrequest).mpr
      (h i op hop (by simp [hrequest]))

theorem length_of_base (hrows : ∀ key data, rows key = some data → key.length ≤ maxKeyBytes)
    (hinsert : ∀ op ∈ ops, ∀ values, op.action = .insert values →
      (Key.pack op.key).length ≤ maxKeyBytes)
    (h : base rows ops i key = some data) : key.length ≤ maxKeyBytes := by
  rw [base] at h
  cases hleft : lastLeft (ops.take i) key with
  | none => exact hrows key data (by simpa [hleft] using h)
  | some row =>
    obtain rfl : row = some data := by simpa [hleft] using h
    obtain ⟨op, hop, hleaves⟩ := List.exists_of_findSome?_eq_some hleft
    have hmem : op ∈ ops := List.mem_of_mem_take (List.mem_reverse.mp hop)
    simp only [Operation.leaves] at hleaves
    split at hleaves
    · next hkey =>
      split at hleaves
      · next values haction => exact hkey ▸ hinsert op hmem values haction
      · simp at hleaves
      · simp at hleaves
    · simp at hleaves

theorem settleable_of_text {request : Request} (htext : op.Textual)
    (hrequest : op.request? = some request) {row : Option Bytes}
    (hdecode : ∀ data, row = some data → ∃ r, Record.decode data = .ok r)
    (hkey : ∀ data, row = some data → (Key.pack op.key).length ≤ maxKeyBytes) :
    Settleable ⟨op.key, request, .ok row⟩ := by
  constructor
  · cases houtcome : Pending.outcome ⟨op.key, request, .ok row⟩ with
    | ok outcome => exact ⟨outcome, rfl⟩
    | error e =>
      rcases outcome_eq_error_iff.mp houtcome with hrow | ⟨data, d, hrow, herror, -⟩ |
        ⟨data, values, r, v, hrow, hvalues, -, -, herror, -⟩
      · simp at hrow
      · obtain ⟨r, hr⟩ := hdecode data (Except.ok.inj hrow)
        simp [herror] at hr
      · have haction : op.action = .update values := by
          revert hrequest
          unfold Operation.request?
          split <;> simp_all
        obtain ⟨new, rfl⟩ := htext.update haction
        rw [← Fields.map_overlay, Record.encode_map_text] at herror
        cases herror
  · intro data houtcome
    cases row with
    | none => cases request <;> simp [Pending.outcome, Except.bind, settle] at houtcome
    | some stored => exact hkey stored rfl

end Batch

open Batch in
/-- What a batch means: the rows that it commits, key by key, its verdict, and what its reads put
into slots. -/
theorem Shared.execute_meaning (w : Shared) (D : KeyMap Bytes) (ops : List Operation)
    (hopen : w.store.isOpen = true) (hreachable : w.store.reachable = true)
    (htable : w.store.table = .holding D)
    (hkeys : ∀ key data, D.get? key = some data → key.length ≤ maxKeyBytes)
    (hne : ops ≠ []) (htext : ∀ op ∈ ops, op.Textual)
    (hinsert : ∀ op ∈ ops, ∀ values, op.action = .insert values →
      (Key.pack op.key).length ≤ maxKeyBytes)
    (hdecode : ∀ i op data, ops[i]? = some op → op.request?.isSome = true →
      base D.get? ops i (Key.pack op.key) = some data → ∃ r, Record.decode data = .ok r) :
    ∃ status w' D', w.execute ops = (status, w') ∧ w'.store.table = .holding D' ∧
      (∀ key,
        (∀ i r, Updates D.get? ops i key r →
          (∀ j, i < j → ∀ r', ¬ Updates D.get? ops j key r') → D'.get? key = some r.encode) ∧
        ((∀ i r, ¬ Updates D.get? ops i key r) →
          D'.get? key = (lastLeft ops key).getD (D.get? key))) ∧
      (status = .ok ∨ status = .error) ∧
      (status = .ok ↔ ∀ i op, ops[i]? = some op → op.request?.isSome = true →
        ∃ r, Meets D.get? ops i op r ∧ ∀ name ∈ op.projection.names, name ∈ r.names) ∧
      w'.footprint.slots = ((ops.zipIdx.filterMap fun (op, i) =>
        reading D.get? ops i op).foldl (fun f p => f.fill p.1 p.2) w.footprint).slots := by
  have hready : w.store.Ready := ⟨hopen, hreachable, D, htable⟩
  have hrows : w.store.table.rows = D.get? := by rw [htable]; rfl
  have hsend : ∀ op ∈ ops, Sendable op := by
    intro op hop values haction
    obtain ⟨r, rfl⟩ := (htext op hop).insert haction
    exact ⟨⟨_, Record.encode_map_text r⟩, hinsert op hop _ haction⟩
  have hask : ∀ p ∈ ask w.store.table.rows ops, Settleable p := by
    rw [hrows]
    intro p hp
    obtain ⟨i, op, request, hop, hrequest, rfl⟩ := mem_ask_iff.mp hp
    rw [leaveAll_take]
    exact settleable_of_text (htext op (List.mem_of_getElem? hop)) hrequest
      (fun data hbase => hdecode i op data hop (by simp [hrequest]) hbase)
      (fun data hbase => length_of_base hkeys hinsert hbase)
  obtain ⟨hstatus, hafter, hslots⟩ := execute_serves hready hne hsend hask
  obtain ⟨-, -, D', hD'⟩ := execute_ready hready ops
  rw [hrows] at hstatus hafter hslots
  have hcommits : Commits D.get? ops D'.get? := by
    have hget : (w.execute ops).2.store.table.rows = D'.get? := by rw [hD']; rfl
    rw [← hget, hafter]
    exact commits_after D.get? ops
  refine ⟨(w.execute ops).1, (w.execute ops).2, D', rfl, hD',
    fun key => ⟨fun i r h hlast => ?_, fun h => ?_⟩, ?_, ?_, ?_⟩
  · apply hcommits.merged ((mergesAt_iff htext).mpr ⟨r, h, rfl⟩)
    intro j hj d hd
    obtain ⟨r', hr', -⟩ := (mergesAt_iff htext).mp hd
    exact hlast j hj r' hr'
  · rw [hcommits.left, leaveAll_apply]
    intro i data hi
    obtain ⟨r, hr, -⟩ := (mergesAt_iff htext).mp hi
    exact h i r hr
  · rw [hstatus]
    exact verdict_eq _
  · rw [hstatus, verdict_ask_iff htext]
  · rw [hslots, slots_settled, ask_readings]

open Batch in
/-- A record is inserted, updated and read in one batch, and the update of another one outlasts its
deletion. -/
theorem Shared.execute_meaning_of_two_keys :
    let r : Record := .ofList [("f", "1")]
    let D : KeyMap Bytes := .insert .empty (Key.pack "db:t:a") r.encode
    let w : Shared := ⟨{ Store.new "kv" true with table := .holding D }, .empty⟩
    let change : Record := .ofList [("g", "2")]
    let ops : List Operation :=
      [⟨"t", "db:t:b", .insert (r.map Value.text)⟩,
        ⟨"t", "db:t:b", .update (change.map Value.text)⟩,
        ⟨"t", "db:t:b", .read .all (some "s")⟩, ⟨"t", "db:t:a", .update (change.map Value.text)⟩,
        ⟨"t", "db:t:a", .delete⟩]
    ∃ w' D', w.execute ops = (.ok, w') ∧ w'.store.table = .holding D' ∧
      D'.get? (Key.pack "db:t:a") = some (Record.encode (.ofList [("f", "1"), ("g", "2")])) ∧
      D'.get? (Key.pack "db:t:b") = some (Record.encode (.ofList [("f", "1"), ("g", "2")])) ∧
      w'.footprint.slot "s" = r := by
  intro r D w change ops
  have hlength : ∀ op ∈ ops, (Key.pack op.key).length ≤ maxKeyBytes := by decide +kernel
  have htext : ∀ op ∈ ops, op.Textual := by
    simp only [ops, List.forall_mem_cons, List.not_mem_nil, false_imp_iff, implies_true, and_true]
    exact ⟨⟨r, rfl⟩, ⟨change, rfl⟩, ⟨.empty, rfl⟩, ⟨change, rfl⟩, ⟨.empty, rfl⟩⟩
  have hbase : ∀ i op, ops[i]? = some op → op.request?.isSome = true →
      base D.get? ops i (Key.pack op.key) = some r.encode := by
    have hall : ∀ p ∈ ops.zipIdx, p.1.request?.isSome = true →
        base D.get? ops p.2 (Key.pack p.1.key) = some r.encode := by decide +kernel
    exact fun i op hop => hall (op, i) (List.mk_mem_zipIdx_iff_getElem?.mpr hop)
  have hmeets : ∀ i op, ops[i]? = some op → op.request?.isSome = true →
      Meets D.get? ops i op r := fun i op hop hrequest =>
    ⟨hop, by decide, r.encode, hbase i op hop hrequest, Record.decode_of_encode r⟩
  obtain ⟨status, w', D', hexecute, htable, hrows, -, hok, hslots⟩ :=
    execute_meaning w D ops rfl rfl rfl
      (fun key data h => by
        simp only [D] at h
        rw [KeyMap.get?_insert] at h
        split at h
        · next hkey => exact hkey ▸ by decide
        · simp at h)
      (List.cons_ne_nil _ _) htext (fun op hop _ _ => hlength op hop)
      (fun i op data hop hrequest hdata => by
        obtain rfl := Option.some.inj ((hbase i op hop hrequest).symm.trans hdata)
        exact ⟨r, Record.decode_of_encode r⟩)
  obtain rfl : status = .ok := hok.mpr fun i op hop hrequest => by
    refine ⟨r, hmeets i op hop hrequest, ?_⟩
    have hall : ∀ op ∈ ops, op.projection.names = [] := by decide
    rw [hall op (List.mem_of_getElem? hop)]
    nofun
  have hupdate : ∀ {key i r'}, Updates D.get? ops i key r' →
      i = 1 ∧ key = Key.pack "db:t:b" ∨ i = 3 ∧ key = Key.pack "db:t:a" := by
    have hall : ∀ p ∈ ops.zipIdx, p.1.kindName = "update" →
        p.2 = 1 ∧ p.1.key = "db:t:b" ∨ p.2 = 3 ∧ p.1.key = "db:t:a" := by decide
    rintro key i r' ⟨op, _, _, ⟨hop, -⟩, haction, rfl, -⟩
    have hkind : op.kindName = "update" := by rw [Operation.kindName, haction]
    exact (hall (op, i) (List.mk_mem_zipIdx_iff_getElem?.mpr hop) hkind).imp
      (fun h => ⟨h.1, congrArg Key.pack h.2⟩) (fun h => ⟨h.1, congrArg Key.pack h.2⟩)
  have hne : Key.pack "db:t:a" ≠ Key.pack "db:t:b" := by decide +kernel
  refine ⟨w', D', hexecute, htable, (hrows _).1 3 (r.overlay change)
    ⟨_, r, change, hmeets 3 _ rfl rfl, rfl, rfl, rfl⟩ fun j hj r' h => ?_, (hrows _).1 1
    (r.overlay change) ⟨_, r, change, hmeets 1 _ rfl rfl, rfl, rfl, rfl⟩ fun j hj r' h => ?_, ?_⟩
  · have := hupdate h
    omega
  · rcases hupdate h with ⟨rfl, -⟩ | ⟨-, hkey⟩
    · exact absurd hj (Nat.lt_irrefl 1)
    · exact hne hkey.symm
  · rw [Footprint.slot, hslots]
    decide +kernel

/-- An insert under a short key is refused if the text of a field has a surrogate in it. -/
theorem Shared.execute_refuses_surrogate :
    let w : Shared := ⟨{ Store.new "kv" true with table := .holding .empty }, .empty⟩
    let op : Operation :=
      ⟨"t", "DB:t:k", .insert (.ofList [("f", Value.ofText (.broken ⟨[0xD800], rfl⟩))])⟩
    (Key.pack op.key).length ≤ maxKeyBytes ∧ (w.execute [op]).1 = .error ∧
      (w.execute [op]).2.store.table.rows (Key.pack op.key) = none := by
  decide +kernel

end RecordStore
