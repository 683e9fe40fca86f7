import Mathlib.Data.List.Induction
import RecordStore.Proofs.BatchMeaning

/-! # Batches and the order of their operations

What a batch would make of the rows if its operations were carried out one after the other, and when
this is what it commits: no insert or delete may follow the last update of a key, and what that
update does not set may not have been changed by the updates before it, unless it comes to the same
record.
-/

namespace RecordStore

namespace Batch

variable {rows : Rows} {ops before rest : List Operation} {op : Operation} {key data : Bytes}
  {values : Fields Value}

/-- One operation on the rows as they are when its turn comes. -/
def apply (rows : Rows) (op : Operation) : Rows :=
  match op.action with
  | .update values =>
    (merge values (rows (Key.pack op.key))).elim rows fun data =>
      Function.update rows (Key.pack op.key) (some data)
  | _ => leave rows op

def applyAll (rows : Rows) (ops : List Operation) : Rows := ops.foldl apply rows

def IsUpdate (op : Operation) (key : Bytes) (values : Fields Value) : Prop :=
  op.action = .update values ∧ Key.pack op.key = key

/-- The last update of the key, between the operations before it and those after it. -/
structure LastUpdate (ops : List Operation) (key : Bytes) (before rest : List Operation)
    (values : Fields Value) : Prop where
  here : ∃ op, ops = before ++ op :: rest ∧ IsUpdate op key values
  last : ∀ op ∈ rest, ∀ values, ¬ IsUpdate op key values

/-- What the updates of the key since its last insert or delete bring along, in order. -/
def pendingValues (ops : List Operation) (key : Bytes) : List (Fields Value) :=
  ops.foldl (fun found op =>
    if Key.pack op.key = key then
      match op.action with
      | .update values => found ++ [values]
      | .read .. => found
      | _ => []
    else found) []

/-- No write to the key is lost or undone. An insert or delete after its last update leaves what the
update makes of the row that it meets; with none after it, the updates before it have nothing to add
to that. -/
def Undisturbed (rows : Rows) (ops : List Operation) (key : Bytes) : Prop :=
  ∀ before rest values data old, LastUpdate ops key before rest values →
    leaveAll rows before key = some data → Record.decode data = .ok old →
    match lastLeft rest key with
    | some row => row = ((old.map Value.text).overlay values).encode.toOption
    | none => ((pendingValues before key).foldl Fields.overlay (old.map Value.text)).overlay values =
        (old.map Value.text).overlay values

theorem apply_of_not_isUpdate (h : ∀ values, ¬ IsUpdate op key values) :
    apply rows op key = (op.leaves key).getD (rows key) := by
  cases haction : op.action with
  | update values =>
    have hkey : Key.pack op.key ≠ key := fun hkey => h values ⟨haction, hkey⟩
    simp only [apply, haction, Operation.leaves, if_neg hkey, Option.getD_none]
    cases merge values (rows (Key.pack op.key)) with
    | none => rfl
    | some data => exact Function.update_of_ne (Ne.symm hkey) _ rows
  | read p slot => simp only [apply, haction, leave_apply]
  | insert values => simp only [apply, haction, leave_apply]
  | delete => simp only [apply, haction, leave_apply]

theorem applyAll_of_not_isUpdate (h : ∀ op ∈ ops, ∀ values, ¬ IsUpdate op key values) :
    applyAll rows ops key = (lastLeft ops key).getD (rows key) := by
  induction ops generalizing rows with
  | nil => rfl
  | cons op rest ih =>
    rw [applyAll, List.foldl_cons, ← applyAll,
      ih fun op' hop' => h op' (List.mem_cons_of_mem _ hop'),
      apply_of_not_isUpdate (h op List.mem_cons_self), lastLeft_cons]
    cases lastLeft rest key <;> rfl

theorem exists_lastUpdate (h : ∃ op ∈ ops, ∃ values, IsUpdate op key values) :
    ∃ before rest values, LastUpdate ops key before rest values := by
  induction ops using List.reverseRecOn with
  | nil => simp at h
  | append_singleton ops op ih =>
    by_cases hop : ∃ values, IsUpdate op key values
    · obtain ⟨values, hvalues⟩ := hop
      exact ⟨ops, [], values, ⟨op, rfl, hvalues⟩, by simp⟩
    · obtain ⟨op', hmem, values, hvalues⟩ := h
      have hmem' : op' ∈ ops := by
        rcases List.mem_append.mp hmem with hmem | hmem
        · exact hmem
        · obtain rfl := List.mem_singleton.mp hmem
          exact (hop ⟨values, hvalues⟩).elim
      obtain ⟨before, rest, values', ⟨op₀, rfl, hop₀⟩, hlast⟩ := ih ⟨op', hmem', values, hvalues⟩
      refine ⟨before, rest ++ [op], values', ⟨op₀, by simp, hop₀⟩, ?_⟩
      intro op₁ hop₁ v hv
      rcases List.mem_append.mp hop₁ with hop₁ | hop₁
      · exact hlast op₁ hop₁ v hv
      · obtain rfl := List.mem_singleton.mp hop₁
        exact hop ⟨v, hv⟩

theorem leaveAll_concat (rows : Rows) (ops : List Operation) (op : Operation) :
    leaveAll rows (ops ++ [op]) = leave (leaveAll rows ops) op := List.foldl_concat ..

theorem applyAll_concat (rows : Rows) (ops : List Operation) (op : Operation) :
    applyAll rows (ops ++ [op]) = apply (applyAll rows ops) op := List.foldl_concat ..

theorem pendingValues_concat (ops : List Operation) (op : Operation) (key : Bytes) :
    pendingValues (ops ++ [op]) key =
      if Key.pack op.key = key then
        match op.action with
        | .update values => pendingValues ops key ++ [values]
        | .read .. => pendingValues ops key
        | _ => []
      else pendingValues ops key := List.foldl_concat ..

/-- Where a record was left, the updates since have made a record of it, one after the other. -/
theorem applyAll_of_leaveAll (htext : ∀ op ∈ ops, op.Textual) {old : Record}
    (hbase : leaveAll rows ops key = some data) (hdecode : Record.decode data = .ok old)
    (hold : old.isEmpty = false) :
    ∃ data' new, applyAll rows ops key = some data' ∧ Record.decode data' = .ok new ∧
      new.isEmpty = false ∧ Fields.map Value.text new =
        (pendingValues ops key).foldl Fields.overlay (Fields.map Value.text old) := by
  induction ops using List.reverseRecOn with
  | nil => exact ⟨data, old, hbase, hdecode, hold, rfl⟩
  | append_singleton ops op ih =>
    have hop : op.Textual := htext op (by simp)
    have hops : ∀ op ∈ ops, op.Textual := fun op' hop' => htext op' (List.mem_append_left _ hop')
    rw [leaveAll_concat, leave_apply] at hbase
    by_cases hkey : Key.pack op.key = key
    · subst hkey
      rw [applyAll_concat, pendingValues_concat, if_pos rfl]
      cases haction : op.action with
      | insert values =>
        simp only [Operation.leaves, haction, if_true, Option.getD_some] at hbase
        refine ⟨data, old, ?_, hdecode, hold, rfl⟩
        simp only [apply, haction, leave, Function.update_self, hbase]
      | delete => simp [Operation.leaves, haction] at hbase
      | read p slot =>
        simp only [Operation.leaves, haction, if_true, Option.getD_none] at hbase
        unfold apply leave
        simp only [haction]
        exact ih hops hbase
      | update values =>
        simp only [Operation.leaves, haction, if_true, Option.getD_none] at hbase
        obtain ⟨data', now, happly, hnow, hfields, hpending⟩ := ih hops hbase
        obtain ⟨new, rfl⟩ := hop.update haction
        have hmerge : merge (Fields.map Value.text new) _ =
            some (Record.encode (now.overlay new)) :=
          merge_text_iff.mpr ⟨data', now, happly, hnow, hfields, rfl⟩
        refine ⟨Record.encode (now.overlay new), now.overlay new, ?_, Record.decode_of_encode _,
          Fields.isEmpty_overlay hfields new, ?_⟩
        · simp only [apply, haction, hmerge, Option.elim_some, Function.update_self]
        · rw [Fields.map_overlay, hpending, List.foldl_append, List.foldl_cons, List.foldl_nil]
    · simp only [Operation.leaves, if_neg hkey, Option.getD_none] at hbase
      have hne : ∀ values, ¬ IsUpdate op key values := fun values h => hkey h.2
      rw [applyAll_concat, apply_of_not_isUpdate hne, pendingValues_concat, if_neg hkey]
      simp only [Operation.leaves, if_neg hkey, Option.getD_none]
      exact ih hops hbase

theorem encode_overlay_text (old new : Record) :
    ((old.map Value.text).overlay (new.map Value.text)).encode.toOption =
      some (Record.encode (old.overlay new)) := by
  rw [← Fields.map_overlay, Record.encode_map_text]
  rfl

/-- What the last update of a key and the operations after it make of the key, in the batch and one
after the other. -/
theorem after_of_lastUpdate (htext : ∀ op ∈ ops, op.Textual)
    (hupdate : LastUpdate ops key before rest values) {old : Record}
    (hbase : leaveAll rows before key = some data) (hdecode : Record.decode data = .ok old)
    (hold : old.isEmpty = false) : ∃ new now : Record, values = new.map Value.text ∧
      now.map Value.text = (pendingValues before key).foldl Fields.overlay (old.map Value.text) ∧
      after rows ops key = some (Record.encode (old.overlay new)) ∧
      applyAll rows ops key =
        (lastLeft rest key).getD (some (Record.encode (now.overlay new))) := by
  obtain ⟨⟨op, rfl, haction, hkey⟩, hlast⟩ := hupdate
  obtain ⟨new, rfl⟩ := (htext op (by simp)).update haction
  obtain ⟨data', now, happly, hnow, hfields, hpending⟩ := applyAll_of_leaveAll
    (fun op' hop' => htext op' (List.mem_append_left _ hop')) hbase hdecode hold
  refine ⟨new, now, rfl, hpending, ?_, ?_⟩
  · have hmerges : MergesAt rows (before ++ op :: rest) before.length key
        (Record.encode (old.overlay new)) := by
      refine ⟨op, _, by simp, haction, hkey, ?_⟩
      rw [List.take_left]
      exact merge_text_iff.mpr ⟨data, old, hbase, hdecode, hold, rfl⟩
    apply (commits_after rows _).merged hmerges
    intro j hj d
    rintro ⟨op', values', hop', haction', hkey', -⟩
    have hmem : op' ∈ rest := by
      obtain ⟨k, rfl⟩ := Nat.exists_eq_add_of_lt hj
      have hget : (before ++ op :: rest)[before.length + k + 1]? = rest[k]? := by
        rw [Nat.add_assoc, List.getElem?_append_right (Nat.le_add_right ..),
          Nat.add_sub_cancel_left, List.getElem?_cons_succ]
      exact List.mem_of_getElem? (hget ▸ hop')
    exact hlast op' hmem values' ⟨haction', hkey'⟩
  · have hmerge : merge (Fields.map Value.text new) (applyAll rows before key) =
        some (Record.encode (now.overlay new)) :=
      merge_text_iff.mpr ⟨data', now, happly, hnow, hfields, rfl⟩
    have hop : apply (applyAll rows before) op key = some (Record.encode (now.overlay new)) := by
      subst hkey
      simp only [apply, haction, hmerge, Option.elim_some, Function.update_self]
    rw [applyAll, List.foldl_append, List.foldl_cons, ← applyAll, ← applyAll,
      applyAll_of_not_isUpdate hlast, hop]

/-- The rows that a batch commits are those of its operations one after the other exactly where no
write is lost or undone. -/
theorem after_eq_applyAll_iff (htext : ∀ op ∈ ops, op.Textual)
    (hmerges : ∀ before op rest values, ops = before ++ op :: rest → op.action = .update values →
      ∃ data, merge values (leaveAll rows before (Key.pack op.key)) = some data) :
    after rows ops key = applyAll rows ops key ↔ Undisturbed rows ops key := by
  have hmeets : ∀ {before rest values}, LastUpdate ops key before rest values → ∃ data old,
      leaveAll rows before key = some data ∧ Record.decode data = .ok old ∧
        old.isEmpty = false := by
    intro before rest values hupdate
    obtain ⟨op, hops, haction, rfl⟩ := hupdate.here
    obtain ⟨merged, hmerged⟩ := hmerges before op rest values hops haction
    obtain ⟨new, rfl⟩ := (htext op (by simp [hops])).update haction
    obtain ⟨data, old, hbase, hdecode, hold, -⟩ := merge_text_iff.mp hmerged
    exact ⟨data, old, hbase, hdecode, hold⟩
  constructor
  · intro h before rest values data old hupdate hbase hdecode
    obtain ⟨data', old', hbase', hdecode', hold⟩ := hmeets hupdate
    obtain rfl : data = data' := Option.some.inj (hbase.symm.trans hbase')
    obtain rfl : old = old' := Except.ok.inj (hdecode.symm.trans hdecode')
    obtain ⟨new, now, rfl, hpending, hafter, happly⟩ :=
      after_of_lastUpdate htext hupdate hbase hdecode hold
    rw [hafter, happly] at h
    cases hleft : lastLeft rest key with
    | some row =>
      simp only [hleft, Option.getD_some] at h
      rw [encode_overlay_text, h]
    | none =>
      simp only [hleft, Option.getD_none] at h
      rw [← hpending, ← Fields.map_overlay, ← Fields.map_overlay,
        Record.encode_injective (Option.some.inj h)]
  · intro h
    by_cases hexists : ∃ op ∈ ops, ∃ values, IsUpdate op key values
    · obtain ⟨before, rest, values, hupdate⟩ := exists_lastUpdate hexists
      obtain ⟨data, old, hbase, hdecode, hold⟩ := hmeets hupdate
      obtain ⟨new, now, rfl, hpending, hafter, happly⟩ :=
        after_of_lastUpdate htext hupdate hbase hdecode hold
      have hcondition := h before rest _ data old hupdate hbase hdecode
      rw [hafter, happly]
      cases hleft : lastLeft rest key with
      | some row =>
        simp only [hleft, encode_overlay_text] at hcondition
        rw [hcondition, Option.getD_some]
      | none =>
        simp only [hleft, ← hpending, ← Fields.map_overlay] at hcondition
        rw [Option.getD_none,
          Fields.map_injective (fun _ _ hxy => Value.text.inj hxy) hcondition]
    · have hnone : ∀ op ∈ ops, ∀ values, ¬ IsUpdate op key values := fun op hop values hvalues =>
        hexists ⟨op, hop, values, hvalues⟩
      rw [applyAll_of_not_isUpdate hnone, ← leaveAll_apply]
      apply (commits_after rows ops).left
      intro i data
      rintro ⟨op, values, hop, haction, hkey, -⟩
      exact hnone op (List.mem_of_getElem? hop) values ⟨haction, hkey⟩

theorem pendingValues_of_not_isUpdate (h : ∀ op ∈ ops, ∀ values, ¬ IsUpdate op key values) :
    pendingValues ops key = [] := by
  induction ops using List.reverseRecOn with
  | nil => rfl
  | append_singleton ops op ih =>
    have hops := ih fun op' hop' => h op' (List.mem_append_left _ hop')
    rw [pendingValues_concat]
    split
    · next hkey =>
      split
      · next values haction => exact (h op (by simp) values ⟨haction, hkey⟩).elim
      · exact hops
      · rfl
    · exact hops

theorem undisturbed_of_pairwise (h : ops.Pairwise fun a b => ∀ values, IsUpdate a key values →
    Key.pack b.key = key → ∃ p slot, b.action = .read p slot) : Undisturbed rows ops key := by
  rintro before rest values data old ⟨⟨op, rfl, hop⟩, -⟩ - -
  rw [List.pairwise_append, List.pairwise_cons] at h
  obtain ⟨-, ⟨hrest, -⟩, hbefore⟩ := h
  have hnone : lastLeft rest key = none := by
    apply List.findSome?_eq_none_iff.mpr
    intro b hb
    rw [Operation.leaves]
    split
    · next hkey =>
      obtain ⟨p, slot, haction⟩ := hrest b (List.mem_reverse.mp hb) values hop hkey
      rw [haction]
    · rfl
  have hpending : pendingValues before key = [] := by
    apply pendingValues_of_not_isUpdate
    intro a ha v hv
    obtain ⟨p, slot, haction⟩ := hbefore a ha op List.mem_cons_self v hv hop.2
    rw [hop.1] at haction
    cases haction
  rw [hnone, hpending]
  rfl

end Batch

open Batch

/-- When the verdict is that all is well, a key holds what the operations of the batch make of it
one after the other exactly if no write to the key is lost or undone. -/
theorem Shared.execute_inOrder_iff (w : Shared) (ops : List Operation)
    (htext : ∀ op ∈ ops, op.Textual) (hok : (w.execute ops).1 = .ok) (key : Bytes) :
    (w.execute ops).2.store.table.rows key = applyAll w.store.table.rows ops key ↔
      Undisturbed w.store.table.rows ops key := by
  obtain ⟨hrows, hstatus⟩ := execute_ok hok
  rw [hrows]
  apply after_eq_applyAll_iff htext
  intro before op rest values hops haction
  have hrequest : op.request? = some (.update values) := by
    simp only [Operation.request?, haction]
  have htake : ops.take before.length = before := by simp [hops]
  have hop : ops[before.length]? = some op := by simp [hops]
  have hwell := hstatus _ (mem_ask_iff.mpr ⟨before.length, op, _, hop, hrequest, rfl⟩)
  rw [htake] at hwell
  exact status_update_iff.mp hwell

theorem Shared.execute_inOrder_of_insert_and_update :
    let D : KeyMap Bytes := .insert .empty (Key.pack "DB:t:l") (Record.encode (.ofList [("a", "1")]))
    let w : Shared := ⟨{ Store.new "kv" true with table := .holding D }, .empty⟩
    let ops : List Operation :=
      [⟨"t", "DB:t:k", .insert (Fields.map Value.text (.ofList [("a", "1")]))⟩,
        ⟨"t", "DB:t:k", .update (Fields.map Value.text (.ofList [("b", "2")]))⟩,
        ⟨"t", "DB:t:l", .delete⟩, ⟨"t", "DB:t:k", .read .all (some "r")⟩]
    (∀ key, (w.execute ops).2.store.table.rows key = applyAll D.get? ops key) ∧
      applyAll D.get? ops (Key.pack "DB:t:k") =
        some (Record.encode (.ofList [("a", "1"), ("b", "2")])) ∧
      applyAll D.get? ops (Key.pack "DB:t:l") = none := by
  intro D w ops
  have htext : ∀ op ∈ ops, op.Textual := by
    simp only [ops, List.forall_mem_cons, List.not_mem_nil, false_imp_iff, implies_true, and_true]
    exact ⟨⟨.ofList [("a", "1")], rfl⟩, ⟨.ofList [("b", "2")], rfl⟩, ⟨.empty, rfl⟩, ⟨.empty, rfl⟩⟩
  have hne : Key.pack "DB:t:l" ≠ Key.pack "DB:t:k" := by decide +kernel
  refine ⟨fun key => (execute_inOrder_iff w ops htext (by decide +kernel) key).mpr
    (undisturbed_of_pairwise ?_), by decide +kernel, by decide +kernel⟩
  simp only [ops, List.pairwise_cons, List.forall_mem_cons, List.not_mem_nil, false_imp_iff,
    implies_true, and_true, List.Pairwise.nil]
  refine ⟨⟨nofun, nofun, nofun⟩, ⟨?_, fun _ _ _ => ⟨_, _, rfl⟩⟩, nofun⟩
  rintro values ⟨-, rfl⟩ hkey
  exact (hne hkey).elim

/-- Of two updates of one record the first is lost, although all is said to be well. -/
theorem Shared.execute_loses_first_of_two_updates :
    let D : KeyMap Bytes := .insert .empty (Key.pack "DB:t:k") (Record.encode (.ofList [("a", "1")]))
    let w : Shared := ⟨{ Store.new "kv" true with table := .holding D }, .empty⟩
    let ops : List Operation :=
      [⟨"t", "DB:t:k", .update (Fields.map Value.text (.ofList [("b", "2")]))⟩,
        ⟨"t", "DB:t:k", .update (Fields.map Value.text (.ofList [("c", "3")]))⟩]
    (w.execute ops).1 = .ok ∧
      (w.execute ops).2.store.table.rows (Key.pack "DB:t:k") =
        some (Record.encode (.ofList [("a", "1"), ("c", "3")])) ∧
      applyAll D.get? ops (Key.pack "DB:t:k") =
        some (Record.encode (.ofList [("a", "1"), ("b", "2"), ("c", "3")])) ∧
      ¬ (w.execute ops).2.store.table.rows (Key.pack "DB:t:k") =
        applyAll D.get? ops (Key.pack "DB:t:k") := by
  decide +kernel

end RecordStore
