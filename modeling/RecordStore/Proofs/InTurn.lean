import RecordStore.Proofs.BatchOrder
import RecordStore.Proofs.KeyOrder

/-! # Operations in turn

A batch in which nothing comes after an update of the same key is as good as its operations carried
out one after the other: each finds the row that it would find in its turn, and together they leave
the rows that they would leave.
-/

namespace RecordStore.Batch

variable {rows rows' : Rows} {ops rest : List Operation} {op : Operation} {key : Bytes}

/-- Nothing comes after an update of the same key. -/
def UpdatesLast (ops : List Operation) : Prop :=
  ops.Pairwise fun a b => ∀ values, a.action = .update values → b.key ≠ a.key

instance (op : Operation) (p : Prop) [Decidable p] :
    Decidable (∀ values, op.action = .update values → p) :=
  match op.action with
  | .update values => decidable_of_iff p ⟨fun hp _ _ => hp, fun h => h values rfl⟩
  | .read .. | .insert _ | .delete => .isTrue nofun

instance (ops : List Operation) : Decidable (UpdatesLast ops) :=
  inferInstanceAs (Decidable (ops.Pairwise _))

def askInTurn (rows : Rows) : List Operation → List Pending
  | [] => []
  | op :: rest => ask rows [op] ++ askInTurn (apply rows op) rest

def answersInTurn (rows : Rows) : List Operation → List (Operation × Status)
  | [] => []
  | op :: rest =>
    (op, verdict ((ask rows [op]).map Pending.status)) :: answersInTurn (apply rows op) rest

theorem ask_cons (rows : Rows) (op : Operation) (rest : List Operation) :
    ask rows (op :: rest) = ask rows [op] ++ ask (leave rows op) rest := by
  simp [ask]

theorem ask_congr (h : ∀ op ∈ ops, rows (Key.pack op.key) = rows' (Key.pack op.key)) :
    ask rows ops = ask rows' ops := by
  induction ops generalizing rows rows' with
  | nil => rfl
  | cons op rest ih =>
    have hop := h op List.mem_cons_self
    have hrest : ask (leave rows op) rest = ask (leave rows' op) rest := by
      apply ih
      intro b hb
      rw [leave_apply, leave_apply, h b (List.mem_cons_of_mem _ hb)]
    rw [ask, ask, hop, hrest]

theorem mergeHead_congr (h : rows key = rows' key) :
    mergeHead rows op key = mergeHead rows' op key := by
  simp only [mergeHead, h]

theorem lastMerge_congr (h : rows key = rows' key) :
    lastMerge rows ops key = lastMerge rows' ops key := by
  induction ops generalizing rows rows' with
  | nil => rfl
  | cons op rest ih =>
    have hleave : leave rows op key = leave rows' op key := by rw [leave_apply, leave_apply, h]
    rw [lastMerge, lastMerge, ih hleave, mergeHead_congr h]

theorem apply_eq (rows : Rows) (op : Operation) (key : Bytes) :
    apply rows op key = (mergeHead rows op key).or (leave rows op key) := by
  cases haction : op.action with
  | update values =>
    simp only [apply, mergeHead, leave, haction]
    by_cases hkey : Key.pack op.key = key
    · subst hkey
      cases merge values (rows (Key.pack op.key)) <;> simp
    · have hne : key ≠ Key.pack op.key := Ne.symm hkey
      cases merge values (rows (Key.pack op.key)) <;> simp [hkey, Function.update_of_ne hne]
  | read p slot => simp only [apply, mergeHead, haction, Option.none_or]
  | insert values => simp only [apply, mergeHead, haction, Option.none_or]
  | delete => simp only [apply, mergeHead, haction, Option.none_or]

theorem lastMerge_of_apart (h : ∀ b ∈ ops, Key.pack b.key ≠ key) :
    lastMerge rows ops key = none := by
  apply lastMerge_eq_none_iff.mpr
  rintro i data ⟨b, values, hb, -, hkey, -⟩
  exact h b (List.mem_of_getElem? hb) hkey

theorem lastLeft_of_apart (h : ∀ b ∈ ops, Key.pack b.key ≠ key) : lastLeft ops key = none := by
  apply List.findSome?_eq_none_iff.mpr
  intro b hb
  exact if_neg (h b (List.mem_reverse.mp hb))

/-- After an update that merges, the rest of the batch is about other keys. -/
theorem apart_of_mergeHead {data : Bytes} (h : UpdatesLast (op :: rest))
    (hmerge : mergeHead rows op key = some data) : ∀ b ∈ rest, Key.pack b.key ≠ key := by
  intro b hb hkey
  unfold mergeHead at hmerge
  split at hmerge
  · next values haction =>
    split at hmerge
    · next hop =>
      have hne := (List.pairwise_cons.mp h).1 b hb values haction
      exact hne (Key.pack_inj.mp (hkey.trans hop.symm))
    · cases hmerge
  · cases hmerge

/-- The first operation of such a batch may as well be carried out before the rest is sent. -/
theorem after_cons (h : UpdatesLast (op :: rest)) :
    after rows (op :: rest) = after (apply rows op) rest := by
  ext1 key
  rw [after_apply, after_apply, lastMerge, leaveAll_cons, leaveAll_apply, leaveAll_apply,
    Option.or_assoc]
  cases hmerge : mergeHead rows op key with
  | none =>
    have happly : apply rows op key = leave rows op key := by rw [apply_eq, hmerge, Option.none_or]
    rw [Option.none_or, happly, lastMerge_congr happly]
  | some data =>
    have hapart := apart_of_mergeHead h hmerge
    have happly : apply rows op key = some data := by rw [apply_eq, hmerge, Option.some_or]
    rw [lastMerge_of_apart hapart, lastMerge_of_apart hapart, lastLeft_of_apart hapart, happly]
    rfl

theorem after_eq_applyAll (h : UpdatesLast ops) : after rows ops = applyAll rows ops := by
  induction ops generalizing rows with
  | nil => rfl
  | cons op rest ih =>
    have hrest := (List.pairwise_cons.mp h).2
    rw [after_cons h, ih hrest]
    rfl

theorem ask_eq_askInTurn (h : UpdatesLast ops) : ask rows ops = askInTurn rows ops := by
  induction ops generalizing rows with
  | nil => rfl
  | cons op rest ih =>
    have hrest := (List.pairwise_cons.mp h).2
    rw [ask_cons, askInTurn, ← ih hrest]
    congr 1
    apply ask_congr
    intro b hb
    rw [apply_eq]
    cases hmerge : mergeHead rows op (Key.pack b.key) with
    | none => rw [Option.none_or]
    | some data => exact (apart_of_mergeHead h hmerge b hb rfl).elim

theorem applyAll_append (rows : Rows) (before rest : List Operation) :
    applyAll rows (before ++ rest) = applyAll (applyAll rows before) rest := List.foldl_append

theorem askInTurn_append (rows : Rows) (before rest : List Operation) :
    askInTurn rows (before ++ rest) =
      askInTurn rows before ++ askInTurn (applyAll rows before) rest := by
  induction before generalizing rows with
  | nil => rfl
  | cons op before ih =>
    rw [List.cons_append, askInTurn, ih, askInTurn, List.append_assoc]
    rfl

theorem answersInTurn_append (rows : Rows) (before rest : List Operation) :
    answersInTurn rows (before ++ rest) =
      answersInTurn rows before ++ answersInTurn (applyAll rows before) rest := by
  induction before generalizing rows with
  | nil => rfl
  | cons op before ih =>
    rw [List.cons_append, answersInTurn, ih, answersInTurn]
    rfl

theorem map_fst_answersInTurn (rows : Rows) (ops : List Operation) :
    (answersInTurn rows ops).map Prod.fst = ops := by
  induction ops generalizing rows with
  | nil => rfl
  | cons op rest ih => rw [answersInTurn, List.map_cons, ih]

theorem verdict_congr {statuses statuses' : List Status}
    (h : verdict statuses = .ok ↔ verdict statuses' = .ok) :
    verdict statuses = verdict statuses' := by
  rcases verdict_eq statuses' with hok | herror
  · rw [hok, h.mpr hok]
  · rcases verdict_eq statuses with hok | herror'
    · rw [hok, h.mp hok]
    · rw [herror, herror']

theorem verdict_singleton_verdict (statuses : List Status) :
    verdict [verdict statuses] = verdict statuses := by
  apply verdict_congr
  rw [verdict_eq_ok_iff, List.forall_mem_singleton]

theorem verdict_askInTurn (rows : Rows) (ops : List Operation) :
    verdict ((askInTurn rows ops).map Pending.status) =
      verdict ((answersInTurn rows ops).map Prod.snd) := by
  apply verdict_congr
  induction ops generalizing rows with
  | nil => rfl
  | cons op rest ih =>
    have hrest := ih (apply rows op)
    rw [verdict_eq_ok_iff, verdict_eq_ok_iff] at hrest
    simp only [verdict_eq_ok_iff, askInTurn, answersInTurn, List.map_append, List.mem_append,
      or_imp, forall_and, hrest, List.map_cons, List.mem_cons, forall_eq]

end RecordStore.Batch

namespace RecordStore

open Batch

/-- The operation brings along texts only, for a key that is short enough. -/
structure Operation.Plain (op : Operation) : Prop where
  textual : op.Textual
  short : (Key.pack op.key).length ≤ maxKeyBytes

def Rows.Decodable (rows : Rows) : Prop :=
  ∀ key data, rows key = some data → ∃ r, Record.decode data = .ok r

section Decodable

variable {rows : Rows} {op : Operation} {ops : List Operation}

theorem Rows.Decodable.leave (h : rows.Decodable) (hop : op.Textual) :
    (Batch.leave rows op).Decodable := by
  intro key data hdata
  rw [leave_apply] at hdata
  unfold Operation.leaves at hdata
  split at hdata
  · split at hdata
    · next values haction =>
      obtain ⟨r, rfl⟩ := hop.insert haction
      rw [Record.encode_map_text] at hdata
      obtain rfl := Option.some.inj hdata
      exact ⟨r, Record.decode_of_encode r⟩
    · cases hdata
    · exact h key data hdata
  · exact h key data hdata

theorem Rows.Decodable.leaveAll (h : rows.Decodable) (hops : ∀ op ∈ ops, op.Textual) :
    (Batch.leaveAll rows ops).Decodable :=
  List.foldlRecOn ops Batch.leave h fun _ hrows op hop => hrows.leave (hops op hop)

theorem Rows.Decodable.apply (h : rows.Decodable) (hop : op.Textual) :
    (Batch.apply rows op).Decodable := by
  intro key data hdata
  rw [apply_eq] at hdata
  cases hmerge : mergeHead rows op key with
  | none =>
    rw [hmerge, Option.none_or] at hdata
    exact h.leave hop key data hdata
  | some merged =>
    rw [hmerge, Option.some_or] at hdata
    obtain rfl := Option.some.inj hdata
    unfold mergeHead at hmerge
    split at hmerge
    · next values haction =>
      split at hmerge
      · obtain ⟨new, rfl⟩ := hop.update haction
        obtain ⟨_, old, -, -, -, rfl⟩ := merge_text_iff.mp hmerge
        exact ⟨_, Record.decode_of_encode _⟩
      · cases hmerge
    · cases hmerge

theorem Rows.Decodable.applyAll (h : rows.Decodable) (hops : ∀ op ∈ ops, op.Textual) :
    (Batch.applyAll rows ops).Decodable :=
  List.foldlRecOn ops Batch.apply h fun _ hrows op hop => hrows.apply (hops op hop)

end Decodable

def Footprint.fillAll (f : Footprint) (readings : List (String × Record)) : Footprint :=
  readings.foldl (fun f p => f.fill p.1 p.2) f

theorem Footprint.slots_fillAll_congr {f f' : Footprint} (h : f.slots = f'.slots)
    (readings : List (String × Record)) :
    (f.fillAll readings).slots = (f'.fillAll readings).slots := by
  induction readings generalizing f f' with
  | nil => exact h
  | cons p rest ih =>
    apply ih
    simp only [fill, slot, h]

def Batch.readInTurn (rows : Rows) (ops : List Operation) : List (String × Record) :=
  (askInTurn rows ops).filterMap Pending.reading

theorem Batch.readInTurn_append (rows : Rows) (before rest : List Operation) :
    readInTurn rows (before ++ rest) =
      readInTurn rows before ++ readInTurn (applyAll rows before) rest := by
  rw [readInTurn, askInTurn_append, List.filterMap_append, readInTurn, readInTurn]

namespace Shared

variable {w w' w'' : Shared} {ops before rest : List Operation}

theorem execute_inTurn (hready : w.store.Ready) (hrows : w.store.table.rows.Decodable)
    (hops : ∀ op ∈ ops, op.Plain) (hlast : UpdatesLast ops) :
    (w.execute ops).1 = verdict ((answersInTurn w.store.table.rows ops).map Prod.snd) ∧
      (w.execute ops).2.store.table.rows = applyAll w.store.table.rows ops ∧
      (w.execute ops).2.footprint.slots =
        (w.footprint.fillAll (readInTurn w.store.table.rows ops)).slots := by
  by_cases hne : ops = []
  · subst hne
    exact ⟨rfl, rfl, rfl⟩
  have hsend : ∀ op ∈ ops, Sendable op := by
    intro op hop values haction
    obtain ⟨r, rfl⟩ := (hops op hop).textual.insert haction
    exact ⟨⟨_, Record.encode_map_text r⟩, (hops op hop).short⟩
  have hask : ∀ p ∈ ask w.store.table.rows ops, Settleable p := by
    intro p hp
    obtain ⟨i, op, request, hop, hrequest, rfl⟩ := mem_ask_iff.mp hp
    have hplain := hops op (List.mem_of_getElem? hop)
    have hleft : (leaveAll w.store.table.rows (ops.take i)).Decodable :=
      hrows.leaveAll fun b hb => (hops b (List.mem_of_mem_take hb)).textual
    exact settleable_of_text hplain.textual hrequest (hleft _) fun _ _ => hplain.short
  obtain ⟨hstatus, hafter, hslots⟩ := execute_serves hready hne hsend hask
  rw [ask_eq_askInTurn hlast] at hstatus hslots
  refine ⟨by rw [hstatus, verdict_askInTurn], by rw [hafter, after_eq_applyAll hlast], ?_⟩
  rw [hslots, slots_settled]
  rfl

/-- What the table and the slots hold. -/
def contents (w : Shared) : Table × Fields Record := (w.store.table, w.footprint.slots)

/-- The operations have been carried out in turn, on what `w` held before. -/
structure CarriedOut (w : Shared) (ops : List Operation) (w' : Shared) : Prop where
  ready : w'.store.Ready
  rows : w'.store.table.rows = applyAll w.store.table.rows ops
  slots : w'.footprint.slots = (w.footprint.fillAll (readInTurn w.store.table.rows ops)).slots

theorem CarriedOut.refl (hready : w.store.Ready) : CarriedOut w [] w := ⟨hready, rfl, rfl⟩

theorem CarriedOut.report (h : CarriedOut w ops w') (e : Event) : CarriedOut w ops (w'.report e) :=
  ⟨h.ready, h.rows, h.slots⟩

/-- A batch where nothing comes after an update of the same key goes on in turn. -/
theorem CarriedOut.execute (h : CarriedOut w before w') (hrows : w.store.table.rows.Decodable)
    (hops : ∀ op ∈ before ++ rest, op.Plain) (hlast : UpdatesLast rest) :
    CarriedOut w (before ++ rest) (w'.execute rest).2 ∧
      (w'.execute rest).1 =
        verdict ((answersInTurn (applyAll w.store.table.rows before) rest).map Prod.snd) := by
  have hbefore : ∀ op ∈ before, op.Textual := fun op hop =>
    (hops op (List.mem_append_left _ hop)).textual
  have hdecode : w'.store.table.rows.Decodable := by
    rw [h.rows]
    exact hrows.applyAll hbefore
  obtain ⟨hstatus, hafter, hslots⟩ := execute_inTurn h.ready hdecode
    (fun op hop => hops op (List.mem_append_right _ hop)) hlast
  rw [h.rows] at hstatus hafter hslots
  refine ⟨⟨execute_ready h.ready rest, ?_, ?_⟩, hstatus⟩
  · rw [hafter, applyAll_append]
  · rw [hslots, Footprint.slots_fillAll_congr h.slots, readInTurn_append, Footprint.fillAll,
      Footprint.fillAll, Footprint.fillAll, List.foldl_append]

/-- The operations that were carried out in turn decide what is held in the end. -/
theorem CarriedOut.contents_eq (h : CarriedOut w ops w') (h' : CarriedOut w ops w'') :
    w'.contents = w''.contents := by
  obtain ⟨-, -, D, hD⟩ := h.ready
  obtain ⟨-, -, D', hD'⟩ := h'.ready
  have hrows : w'.store.table.rows = w''.store.table.rows := h.rows.trans h'.rows.symm
  rw [hD, hD'] at hrows
  obtain rfl : D = D' := KeyMap.eq_of_get? (congrFun hrows)
  rw [contents, contents, hD, hD', h.slots, h'.slots]

end Shared
end RecordStore
