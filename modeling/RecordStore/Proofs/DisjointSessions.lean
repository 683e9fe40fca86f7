import RecordStore.Proofs.Isolation

/-! # Sessions on rows of their own

Any number of clients share a store, and no two of them use the same row or the same slot. Then each
is served as if it were alone, and what they leave behind does not depend on the order in which
their calls come.
-/

namespace RecordStore

theorem Table.eq_of_rows {t t' : Table} (h : t.entries?.isSome = true)
    (h' : t'.entries?.isSome = true) (hrows : ∀ key, t.rows key = t'.rows key) : t = t' := by
  obtain ⟨D, hD⟩ := Option.isSome_iff_exists.mp h
  obtain ⟨D', hD'⟩ := Option.isSome_iff_exists.mp h'
  rw [entries?_eq_some_iff] at hD hD'
  subst hD hD'
  exact congrArg holding (KeyMap.eq_of_get? hrows)

namespace Session

/-- The operations of a client: those that it has queued, and those of its calls. -/
def operationsOf (s : Session) (calls : List (String × Client.Call)) (name : String) :
    List Operation :=
  (s.clients.get? name).elim [] fun c => c.queue.operations ++
    (calls.filter (·.1 = name)).filterMap (·.2.operation? c.settings.dbText)

/-- The callers share a store that is ready, none of them owns it, and none of them scans. The
operations of any two are about different rows, and fill different slots. -/
structure Disjoint (s : Session) (calls : List (String × Client.Call)) : Prop where
  ready : s.shared.store.Ready
  known : ∀ call ∈ calls, ∃ c, s.clients.get? call.1 = some c
  notOwner : ∀ name c, s.clients.get? name = some c → c.ownsStore = false
  noScan : ∀ call ∈ calls, ∀ table start count p, call.2 ≠ .scan table start count p
  keys : ∀ name other, name ≠ other → ∀ a ∈ s.operationsOf calls name,
    ∀ b ∈ s.operationsOf calls other, a.key ≠ b.key
  slots : ∀ name other, name ≠ other → ∀ a ∈ s.operationsOf calls name,
    ∀ b ∈ s.operationsOf calls other, ∀ slot, a.slot? = some slot → b.slot? ≠ some slot

variable {s t s₀ : Session} {calls calls' : List (String × Client.Call)} {name : String}
  {call : Client.Call} {c : Client} {op : Operation} {K : Bytes → Prop} {S : String → Prop}
  {p : String → Bool}

theorem exists_of_mem_operationsOf (h : op ∈ s.operationsOf calls name) :
    ∃ c, s.clients.get? name = some c := by
  rw [operationsOf] at h
  cases hc : s.clients.get? name with
  | none => simp [hc] at h
  | some c => exact ⟨c, rfl⟩

theorem mem_operationsOf (hc : s.clients.get? name = some c) :
    op ∈ s.operationsOf calls name ↔ op ∈ c.queue.operations ∨
      ∃ call, (name, call) ∈ calls ∧ call.operation? c.settings.dbText = some op := by
  rw [operationsOf, hc, Option.elim_some, List.mem_append, List.mem_filterMap]
  constructor
  · rintro (h | ⟨⟨other, call⟩, hmem, hop⟩)
    · exact .inl h
    · obtain ⟨hmem, hname⟩ := List.mem_filter.mp hmem
      exact .inr ⟨call, of_decide_eq_true hname ▸ hmem, hop⟩
  · rintro (h | ⟨call, hmem, hop⟩)
    · exact .inl h
    · exact .inr ⟨(name, call), List.mem_filter.mpr ⟨hmem, decide_eq_true rfl⟩, hop⟩

/-- What has been done to the clients so far: they have queued nothing but operations that were
theirs to begin with. -/
def Bound (s₀ : Session) (calls : List (String × Client.Call)) (s : Session) : Prop :=
  ∀ name c₀, s₀.clients.get? name = some c₀ → ∃ queue closed,
    s.clients.get? name = some { c₀ with queue, closed } ∧
      ∀ op ∈ queue.operations, op ∈ s₀.operationsOf calls name

theorem bound_refl (s : Session) (calls : List (String × Client.Call)) : Bound s calls s :=
  fun _ c hc => ⟨c.queue, c.closed, hc, fun _ hop => (mem_operationsOf hc).mpr (.inl hop)⟩

/-- A client as it meets a call. Whatever is queued with the call is its own. -/
theorem Bound.client (h : Bound s₀ calls s) (hcalls : s₀.Disjoint calls)
    (hmem : (name, call) ∈ calls) : ∃ c, s.clients.get? name = some c ∧ c.ownsStore = false ∧
      ∀ op ∈ (c.queuedWith call).operations, op ∈ s₀.operationsOf calls name := by
  obtain ⟨c₀, hc₀⟩ := hcalls.known _ hmem
  obtain ⟨queue, closed, hc, hqueue⟩ := h name c₀ hc₀
  refine ⟨_, hc, hcalls.notOwner name c₀ hc₀, fun op hop => ?_⟩
  rcases Client.mem_queuedWith.mp hop with hop | hop
  · exact hqueue op hop
  · exact (mem_operationsOf hc₀).mpr (.inr ⟨call, hmem, hop⟩)

theorem Bound.callBy (h : Bound s₀ calls s) (hcalls : s₀.Disjoint calls)
    (hmem : (name, call) ∈ calls) : Bound s₀ calls (callBy (name, call) s).2 := by
  obtain ⟨c, hc, -, hqueued⟩ := h.client hcalls hmem
  intro other d hd
  obtain ⟨queue, closed, hother, hqueue⟩ := h other d hd
  rw [Session.callBy, step_call hc, Fields.get?_put]
  split
  · next hname =>
    subst hname
    obtain rfl : c = { d with queue, closed } := Option.some.inj (hc.symm.trans hother)
    obtain ⟨queue', closed', heq, hqueue'⟩ := Client.call_client _ call (s.entered call)
    exact ⟨queue', closed', congrArg some heq, fun op hop => hqueued op (hqueue' op hop)⟩
  · exact ⟨queue, closed, hother, hqueue⟩

/-- The rows and slots given are those of the clients that are picked out, and not of the others. -/
structure Splits (s : Session) (calls : List (String × Client.Call)) (p : String → Bool)
    (K : Bytes → Prop) (S : String → Prop) : Prop where
  mine : ∀ name, p name = true → ∀ op ∈ s.operationsOf calls name, K (Key.pack op.key)
  others : ∀ name, p name = false → ∀ op ∈ s.operationsOf calls name,
    ¬ K (Key.pack op.key) ∧ ∀ slot, op.slot? = some slot → ¬ S slot

structure SameFor (s₀ : Session) (calls : List (String × Client.Call)) (p : String → Bool)
    (K : Bytes → Prop) (S : String → Prop) (s t : Session) : Prop where
  shared : s.shared.AgreesOn K S t.shared
  clients : ∀ name, p name = true → s.clients.get? name = t.clients.get? name
  bound : Bound s₀ calls s

theorem SameFor.refl (s : Session) (calls : List (String × Client.Call)) :
    SameFor s calls p K S s s :=
  ⟨⟨.refl _, fun _ _ => rfl⟩, fun _ _ => rfl, bound_refl s calls⟩

theorem SameFor.mine (h : SameFor s₀ calls p K S s t) (hcalls : s₀.Disjoint calls)
    (hsplits : s₀.Splits calls p K S) (hmem : (name, call) ∈ calls) (hname : p name = true) :
    (callBy (name, call) s).1 = (callBy (name, call) t).1 ∧
      SameFor s₀ calls p K S (callBy (name, call) s).2 (callBy (name, call) t).2 := by
  obtain ⟨c, hc, -, hqueued⟩ := h.bound.client hcalls hmem
  have hc' : t.clients.get? name = some c := (h.clients name hname).symm.trans hc
  have hmeets : c.Meets call K :=
    ⟨fun op hop => hsplits.mine name hname op (hqueued op hop),
      fun hscan => (hcalls.noScan _ hmem _ _ _ _ hscan).elim⟩
  obtain ⟨hreply, hclient, hshared⟩ := Client.alike_call (agreesOn_entered h.shared call) hmeets
  have hbound := h.bound.callBy hcalls hmem
  rw [callBy, step_call hc] at hbound
  rw [callBy, step_call hc, step_call hc']
  refine ⟨congrArg (Except.map Answer.client) hreply, hshared, fun other hother => ?_, hbound⟩
  rw [Fields.get?_put, Fields.get?_put, hclient]
  split
  · rfl
  · exact h.clients other hother

theorem SameFor.other (h : SameFor s₀ calls p K S s t) (hcalls : s₀.Disjoint calls)
    (hsplits : s₀.Splits calls p K S) (hmem : (name, call) ∈ calls) (hname : p name = false) :
    SameFor s₀ calls p K S (callBy (name, call) s).2 t := by
  obtain ⟨c, hc, howner, hqueued⟩ := h.bound.client hcalls hmem
  have hapart := fun op hop => hsplits.others name hname op (hqueued op hop)
  have hshared := Client.agreesOn_call_left (agreesOn_entered_left h.shared call)
    (fun _ _ _ _ => hcalls.noScan _ hmem _ _ _ _) (fun _ => howner)
    (fun op hop => (hapart op hop).1) fun op hop => (hapart op hop).2
  have hbound := h.bound.callBy hcalls hmem
  rw [callBy, step_call hc] at hbound ⊢
  refine ⟨hshared, fun other hother => ?_, hbound⟩
  have hne : other ≠ name := by
    rintro rfl
    simp [hname] at hother
  rw [Fields.get?_put, if_neg hne]
  exact h.clients other hother

/-- The clients that are picked out are served as if nobody else were there. -/
theorem Disjoint.part (h : s.Disjoint calls) (hsplits : s.Splits calls p K S) :
    List.Forall₂ (fun x y => x.1 = y.1 ∧ SameFor s calls p K S x.2 y.2)
        (part (p ·.1) callBy s calls) (trace callBy s (calls.filter (p ·.1))) ∧
      SameFor s calls p K S (final callBy s calls) (final callBy s (calls.filter (p ·.1))) := by
  have hmine : ∀ call ∈ calls, p call.1 = true → ∀ s' t', SameFor s calls p K S s' t' →
      (callBy call s').1 = (callBy call t').1 ∧
        SameFor s calls p K S (callBy call s').2 (callBy call t').2 :=
    fun _ hmem hname _ _ hsame => hsame.mine h hsplits hmem hname
  have hother : ∀ call ∈ calls, p call.1 = false → ∀ s' t', SameFor s calls p K S s' t' →
      SameFor s calls p K S (callBy call s').2 t' :=
    fun _ hmem hname _ _ hsame => hsame.other h hsplits hmem hname
  exact ⟨forall₂_part (H := fun _ _ => True) hmine
      (fun call hmem hname s' t' hsame _ => hother call hmem hname s' t' hsame)
      (fun _ _ _ => trivial) (.refl s calls),
    final_filter (fun call hmem hname s' t' hsame => (hmine call hmem hname s' t' hsame).2) hother
      (.refl s calls)⟩

theorem Disjoint.splits (h : s.Disjoint calls) (name : String) :
    s.Splits calls (· = name) (fun key => ∃ op ∈ s.operationsOf calls name, Key.pack op.key = key)
      fun slot => ∃ op ∈ s.operationsOf calls name, op.slot? = some slot where
  mine other hother op hop := by
    obtain rfl : other = name := of_decide_eq_true hother
    exact ⟨op, hop, rfl⟩
  others other hother op hop := by
    have hne : name ≠ other := Ne.symm (of_decide_eq_false hother)
    constructor
    · rintro ⟨a, ha, hkey⟩
      exact h.keys name other hne a ha op hop (Key.pack_inj.mp hkey)
    · rintro slot hslot ⟨a, ha, hslot'⟩
      exact h.slots name other hne a ha op hop slot hslot' hslot

theorem splits_nobody (s : Session) (calls : List (String × Client.Call)) :
    s.Splits calls (fun _ => false)
      (fun key => ∀ name, ∀ op ∈ s.operationsOf calls name, Key.pack op.key ≠ key)
      fun slot => ∀ name, ∀ op ∈ s.operationsOf calls name, op.slot? ≠ some slot where
  mine _ := nofun
  others name _ op hop :=
    ⟨fun h => h name op hop rfl, fun _ hslot h => h name op hop hslot⟩

structure Solo (s : Session) (calls : List (String × Client.Call)) (name : String) : Prop where
  answers : (part (·.1 = name) callBy s calls).map Prod.fst =
    (trace callBy s (calls.filter (·.1 = name))).map Prod.fst
  client : (final callBy s calls).clients.get? name =
    (final callBy s (calls.filter (·.1 = name))).clients.get? name
  rows : ∀ op ∈ s.operationsOf calls name,
    (final callBy s calls).shared.store.table.rows (Key.pack op.key) =
      (final callBy s (calls.filter (·.1 = name))).shared.store.table.rows (Key.pack op.key)
  slots : ∀ op ∈ s.operationsOf calls name, ∀ slot, op.slot? = some slot →
    (final callBy s calls).shared.footprint.slot slot =
      (final callBy s (calls.filter (·.1 = name))).shared.footprint.slot slot

theorem Disjoint.solo (h : s.Disjoint calls) (name : String) : s.Solo calls name := by
  obtain ⟨hpart, hfinal⟩ := h.part (h.splits name)
  refine ⟨?_, hfinal.clients name (decide_eq_true rfl),
    fun op hop => hfinal.shared.store.rows ⟨op, hop, rfl⟩,
    fun op hop slot hslot => hfinal.shared.slots slot ⟨op, hop, hslot⟩⟩
  rw [← List.forall₂_eq_eq_eq, List.forall₂_map_left_iff, List.forall₂_map_right_iff]
  exact hpart.imp fun _ _ hboth => hboth.1

/-- What belongs to nobody stays as it is, and there still is a table. -/
theorem Disjoint.untouched (h : s.Disjoint calls) :
    (∀ key, (∀ name, ∀ op ∈ s.operationsOf calls name, Key.pack op.key ≠ key) →
      (final callBy s calls).shared.store.table.rows key = s.shared.store.table.rows key) ∧
    (∀ slot, (∀ name, ∀ op ∈ s.operationsOf calls name, op.slot? ≠ some slot) →
      (final callBy s calls).shared.footprint.slot slot = s.shared.footprint.slot slot) ∧
    (final callBy s calls).shared.store.hasTable = true := by
  have hnone : calls.filter (fun _ => false) = [] := List.filter_false calls
  obtain ⟨-, hfinal⟩ := h.part (s.splits_nobody calls)
  rw [hnone] at hfinal
  obtain ⟨D, hD⟩ := h.ready.2.2
  refine ⟨fun key hkey => hfinal.shared.store.rows hkey,
    fun slot hslot => hfinal.shared.slots slot hslot, hfinal.shared.store.hasTable.trans ?_⟩
  have hhas : s.shared.store.hasTable = true := by rw [Store.hasTable, hD]; rfl
  exact hhas

/-- Each client makes the same calls in both lists, in the same order. -/
def Reordered (calls calls' : List (String × Client.Call)) : Prop :=
  ∀ name, calls'.filter (·.1 = name) = calls.filter (·.1 = name)

section Reordered

variable (hcalls : Reordered calls calls')
include hcalls

theorem Reordered.operationsOf_eq (s : Session) (name : String) :
    s.operationsOf calls' name = s.operationsOf calls name := by
  rw [operationsOf, operationsOf, hcalls name]

theorem Reordered.mem {call : String × Client.Call} (hmem : call ∈ calls') : call ∈ calls := by
  have hfilter : call ∈ calls'.filter (·.1 = call.1) :=
    List.mem_filter.mpr ⟨hmem, decide_eq_true rfl⟩
  rw [hcalls call.1] at hfilter
  exact (List.mem_filter.mp hfilter).1

theorem Disjoint.reorder (h : s.Disjoint calls) : s.Disjoint calls' where
  ready := h.ready
  known call hmem := h.known call (hcalls.mem hmem)
  notOwner := h.notOwner
  noScan call hmem := h.noScan call (hcalls.mem hmem)
  keys name other hne := by
    rw [hcalls.operationsOf_eq, hcalls.operationsOf_eq]
    exact h.keys name other hne
  slots name other hne := by
    rw [hcalls.operationsOf_eq, hcalls.operationsOf_eq]
    exact h.slots name other hne

/-- In whatever order the calls of different clients come, they leave the same table and the same
in every slot. -/
theorem Disjoint.final_reorder (h : s.Disjoint calls) :
    (final callBy s calls').shared.store.table = (final callBy s calls).shared.store.table ∧
      ∀ slot, (final callBy s calls').shared.footprint.slot slot =
        (final callBy s calls).shared.footprint.slot slot := by
  have h' := h.reorder hcalls
  obtain ⟨hrows, hslots, htable⟩ := h.untouched
  obtain ⟨hrows', hslots', htable'⟩ := h'.untouched
  simp only [hcalls.operationsOf_eq] at hrows' hslots'
  constructor
  · refine Table.eq_of_rows htable' htable fun key => ?_
    by_cases hkey : ∃ name, ∃ op ∈ s.operationsOf calls name, Key.pack op.key = key
    · obtain ⟨name, op, hop, rfl⟩ := hkey
      have hop' : op ∈ s.operationsOf calls' name := by rwa [hcalls.operationsOf_eq]
      rw [(h'.solo name).rows op hop', hcalls name, (h.solo name).rows op hop]
    · have hnobody : ∀ name, ∀ op ∈ s.operationsOf calls name, Key.pack op.key ≠ key :=
        fun name op hop heq => hkey ⟨name, op, hop, heq⟩
      rw [hrows' key hnobody, hrows key hnobody]
  · intro slot
    by_cases hslot : ∃ name, ∃ op ∈ s.operationsOf calls name, op.slot? = some slot
    · obtain ⟨name, op, hop, hslot⟩ := hslot
      have hop' : op ∈ s.operationsOf calls' name := by rwa [hcalls.operationsOf_eq]
      rw [(h'.solo name).slots op hop' slot hslot, hcalls name,
        (h.solo name).slots op hop slot hslot]
    · have hnobody : ∀ name, ∀ op ∈ s.operationsOf calls name, op.slot? ≠ some slot :=
        fun name op hop heq => hslot ⟨name, op, hop, heq⟩
      rw [hslots' slot hnobody, hslots slot hnobody]

end Reordered

/-- Clients that use rows and slots of their own do not disturb each other: each is answered as if
it were alone, and finds and leaves the same in its rows and slots. All else stays as it was. So
what comes of the calls does not depend on the order in which those of different clients come. -/
theorem undisturbed (s : Session) (calls : List (String × Client.Call)) (h : s.Disjoint calls) :
    (∀ name, s.Solo calls name) ∧
      (∀ key, (∀ name, ∀ op ∈ s.operationsOf calls name, Key.pack op.key ≠ key) →
        (final callBy s calls).shared.store.table.rows key = s.shared.store.table.rows key) ∧
      (∀ slot, (∀ name, ∀ op ∈ s.operationsOf calls name, op.slot? ≠ some slot) →
        (final callBy s calls).shared.footprint.slot slot = s.shared.footprint.slot slot) ∧
      ∀ calls', Reordered calls calls' →
        (final callBy s calls').shared.store.table = (final callBy s calls).shared.store.table ∧
        (∀ slot, (final callBy s calls').shared.footprint.slot slot =
          (final callBy s calls).shared.footprint.slot slot) ∧
        ∀ name, (part (·.1 = name) callBy s calls').map Prod.fst =
          (part (·.1 = name) callBy s calls).map Prod.fst := by
  obtain ⟨hrows, hslots, -⟩ := h.untouched
  refine ⟨h.solo, hrows, hslots, fun calls' hcalls => ?_⟩
  obtain ⟨htable, hslots'⟩ := h.final_reorder hcalls
  refine ⟨htable, hslots', fun name => ?_⟩
  rw [((h.reorder hcalls).solo name).answers, hcalls name, (h.solo name).answers]

theorem undisturbed_of_failing_neighbour :
    let D : KeyMap Bytes := KeyMap.empty.insert (Key.pack "db:u:bad") [127]
    let s : Session := ⟨⟨{ Store.new "kv" true with table := .holding D }, .empty⟩,
      ⟨.text "db", 0⟩,
      .ofList [("x", .new ⟨.text "db", 2⟩ false), ("y", .new ⟨.text "db", 0⟩ false)], .empty⟩
    let r : Fields Value := .ofList [("f", .text "1")]
    let calls : List (String × Client.Call) :=
      [("x", .insert "t" "k" r), ("y", .insert "u" "k" r), ("x", .read "t" "k" .all (some "r")),
        ("y", .read "u" "bad" .all (some "q")), ("x", .delete "t" "k"), ("x", .cleanup)]
    s.Disjoint calls ∧ s.Solo calls "x" ∧
      (part (·.1 = "x") callBy s calls).map (clientReply ·.1) =
        [some (.status .batched), some (.status .ok), some (.status .batched), some .done] ∧
      (part (·.1 = "y") callBy s calls).map (clientReply ·.1) =
        [some (.status .ok), some (.status .error)] := by
  intro D s r calls
  have hclients : ∀ name c, s.clients.get? name = some c →
      (name = "x" ∨ name = "y") ∧ c.ownsStore = false := by
    intro name c hc
    rw [Fields.get?_eq_some_iff] at hc
    have hmem : (name, c) ∈ [("x", Client.new ⟨.text "db", 2⟩ false),
        ("y", Client.new ⟨.text "db", 0⟩ false)] := hc
    simp only [List.mem_cons, Prod.mk.injEq, List.not_mem_nil, or_false] at hmem
    rcases hmem with ⟨rfl, rfl⟩ | ⟨rfl, rfl⟩
    · exact ⟨.inl rfl, rfl⟩
    · exact ⟨.inr rfl, rfl⟩
  have hapart : ∀ a ∈ s.operationsOf calls "x", ∀ b ∈ s.operationsOf calls "y",
      a.key ≠ b.key ∧ (a.slot?.isSome → a.slot? ≠ b.slot?) := by decide +kernel
  have hpairs : ∀ name other, name ≠ other → ∀ a ∈ s.operationsOf calls name,
      ∀ b ∈ s.operationsOf calls other,
        a.key ≠ b.key ∧ ∀ slot, a.slot? = some slot → b.slot? ≠ some slot := by
    intro name other hne a ha b hb
    obtain ⟨c, hc⟩ := exists_of_mem_operationsOf ha
    obtain ⟨d, hd⟩ := exists_of_mem_operationsOf hb
    rcases (hclients name c hc).1 with rfl | rfl <;> rcases (hclients other d hd).1 with rfl | rfl
    · exact (hne rfl).elim
    · obtain ⟨hkey, hslot⟩ := hapart a ha b hb
      exact ⟨hkey, fun slot hslot₁ hslot₂ => hslot (by simp [hslot₁]) (hslot₁.trans hslot₂.symm)⟩
    · obtain ⟨hkey, hslot⟩ := hapart b hb a ha
      exact ⟨hkey.symm,
        fun slot hslot₁ hslot₂ => hslot (by simp [hslot₂]) (hslot₂.trans hslot₁.symm)⟩
    · exact (hne rfl).elim
  have hx : ∃ c, s.clients.get? "x" = some c := ⟨_, rfl⟩
  have hy : ∃ c, s.clients.get? "y" = some c := ⟨_, rfl⟩
  have hdisjoint : s.Disjoint calls :=
    { ready := ⟨rfl, rfl, D, rfl⟩
      known := by
        simp only [calls, List.forall_mem_cons]
        exact ⟨hx, hy, hx, hy, hx, hx, nofun⟩
      notOwner := fun name c hc => (hclients name c hc).2
      noScan := by
        simp only [calls, List.forall_mem_cons]
        exact ⟨nofun, nofun, nofun, nofun, nofun, nofun, nofun⟩
      keys := fun name other hne a ha b hb => (hpairs name other hne a ha b hb).1
      slots := fun name other hne a ha b hb => (hpairs name other hne a ha b hb).2 }
  exact ⟨hdisjoint, (undisturbed s calls hdisjoint).1 "x", by decide +kernel, by decide +kernel⟩

end Session

end RecordStore
