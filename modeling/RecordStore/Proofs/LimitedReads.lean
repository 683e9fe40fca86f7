import RecordStore.Proofs.Interleaving
import RecordStore.Proofs.TableScans

/-! # Limited range reads

Whatever a transaction has set and cleared, a read of a range finds the entries of the range as the
transaction sees them, as many as asked for. The database need look up no more than so many rows and
one for each key of the range that the transaction has written: the rows beyond make no difference.
-/

namespace RecordStore

open Transaction (Step)

structure KeyMap.IsRange (V : KeyMap Bytes) (first last : Bytes) (rows : List (Bytes × Bytes)) :
    Prop where
  ascending : rows.Pairwise (·.1 < ·.1)
  mem_iff {key value : Bytes} :
    (key, value) ∈ rows ↔ V.get? key = some value ∧ first ≤ key ∧ key < last

theorem KeyMap.isRange_range (V : KeyMap Bytes) (first last : Bytes) :
    V.IsRange first last (V.range first last).entries :=
  ⟨(V.range first last).ascending, mem_entries_range⟩

def Transaction.Step.ofWrite : Bytes × Option Bytes → Step
  | (key, some value) => .set key value
  | (key, none) => .clear key

/-- The calls that go through: no key is set that is too long. -/
def Writes.accepted (calls : Writes) : Writes :=
  calls.filter fun w => w.2.isNone || w.1.length ≤ maxKeyBytes

def Connection.writeAll (calls : Writes) (c : Connection) : Connection :=
  calls.foldl (fun c w => (perform (.ofWrite w) c).2) c

namespace Buffer.Keeps

variable {b : Buffer} {d : Draft}

theorem call (h : b.Keeps d) (s : Store) (w : Bytes × Option Bytes) : ∃ b',
    (Connection.perform (.ofWrite w) ⟨s, .active b⟩).2 = ⟨s, .active b'⟩ ∧
      b'.Keeps { d with writes := d.writes ++ Writes.accepted [w] } := by
  obtain ⟨key, _ | value⟩ := w
  · exact ⟨_, rfl, h.add key none⟩
  · by_cases hkey : key.length ≤ maxKeyBytes
    · have hset : (Transaction.active b).set key value = .ok _ :=
        Transaction.set_eq_ok_iff.mpr ⟨b, rfl, hkey, rfl⟩
      have haccepted : Writes.accepted [(key, some value)] = [(key, some value)] :=
        List.filter_cons_of_pos (by simpa using hkey)
      simp only [Step.ofWrite, Connection.perform, Attempt.map_apply, Connection.buffer, hset]
      exact ⟨_, rfl, by rw [haccepted]; exact h.add key (some value)⟩
    · have hset : (Transaction.active b).set key value = .error (.keyTooLong key) :=
        if_pos (Nat.not_le.mp hkey)
      have haccepted : Writes.accepted [(key, some value)] = [] :=
        List.filter_cons_of_neg (by simpa using hkey)
      simp only [Step.ofWrite, Connection.perform, Attempt.map_apply, Connection.buffer, hset]
      exact ⟨_, rfl, by rw [haccepted, List.append_nil]; exact h⟩

theorem writeAll (h : b.Keeps d) (s : Store) (calls : Writes) : ∃ b',
    Connection.writeAll calls ⟨s, .active b⟩ = ⟨s, .active b'⟩ ∧
      b'.Keeps { d with writes := d.writes ++ Writes.accepted calls } := by
  induction calls generalizing b d with
  | nil => exact ⟨b, rfl, by rw [Writes.accepted, List.filter_nil, List.append_nil]; exact h⟩
  | cons w rest ih =>
    obtain ⟨b₁, hcall, h₁⟩ := h.call s w
    obtain ⟨b₂, hrest, h₂⟩ := ih h₁
    refine ⟨b₂, ?_, ?_⟩
    · rw [Connection.writeAll, List.foldl_cons, hcall]
      exact hrest
    · have haccepted : Writes.accepted (w :: rest) = Writes.accepted [w] ++ Writes.accepted rest :=
        List.filter_append [w] rest
      rw [haccepted, ← List.append_assoc]
      exact h₂

theorem toNat_wanted (h : b.Keeps d) (first last : Bytes) {limit : Int} (hpos : 0 < limit) :
    (b.wanted first last limit).toNat = limit.toNat + d.covered first last := by
  rw [Buffer.wanted, h.size_pending]
  omega

end Buffer.Keeps

/-- A limited read looks at no row beyond those it asks the database for. -/
theorem Transaction.range_congr {s s' : Store} {D D' : KeyMap Bytes} {b : Buffer}
    {first last : Bytes} {limit : Int} (htable : s.table = .holding D)
    (htable' : s'.table = .holding D') (hpos : 0 < limit)
    (hrows : (D.range first last).take (b.wanted first last limit).toNat =
      (D'.range first last).take (b.wanted first last limit).toNat) :
    (Transaction.active b).range s first last limit =
      (Transaction.active b).range s' first last limit := by
  have hhas : s.hasTable = s'.hasTable := by rw [Store.hasTable, htable, Store.hasTable, htable']; rfl
  have hlimited : ¬ limit ≤ 0 := by omega
  simp only [range, htable, htable', hhas, if_neg hlimited, hrows]

namespace Connection

/-- After any set and clear calls in a transaction, a read of a range finds the first entries of the
range, all of them unless the limit is positive, in what the transaction sees: the committed table,
with the calls that went through carried out in turn if it was begun to see them. What the table
holds in the range beyond the limit and one row for each key written there makes no difference. -/
theorem range_limited {s₀ : Store} {c : Connection} {readYourWrites : Bool}
    (hbegin : backend.begin readYourWrites ⟨s₀, .finished⟩ = (.ok (), c)) (calls : Writes)
    {first last : Bytes} {limit : Int}
    (hlimit : Draft.Accepts ⟨readYourWrites, calls.accepted, false⟩ first last limit)
    {s : Store} {D : KeyMap Bytes} (htable : s.table = .holding D) :
    let d : Draft := ⟨readYourWrites, calls.accepted, false⟩
    let answer (s : Store) :=
      (backend.range first last limit ⟨s, (c.writeAll calls).transaction⟩).1
    let fetched (D : KeyMap Bytes) :=
      (D.range first last).entries.take (limit.toNat + d.covered first last)
    (∃ rows, (d.seen D).IsRange first last rows ∧ answer s = .ok (firsts limit rows)) ∧
      (0 < limit → ∀ s' D', s'.table = .holding D' → fetched D' = fetched D →
        answer s' = answer s) := by
  intro d answer fetched
  rcases begin_cases hbegin with ⟨⟨e, hr⟩, -⟩ | ⟨-, -, -, links, link, rfl⟩
  · cases hr
  have hkeeps : Buffer.Keeps ⟨readYourWrites, .empty, false, link⟩ ⟨readYourWrites, [], false⟩ :=
    ⟨rfl, rfl, rfl⟩
  obtain ⟨b, hcalls, hb⟩ := hkeeps.writeAll { s₀ with links } calls
  have hanswer : ∀ s, answer s = (Transaction.active b).range s first last limit := fun s =>
    congrArg (fun c : Connection => c.transaction.range s first last limit) hcalls
  have hasks : b.asksTooMuch first last limit = false := by
    rw [hb.asksTooMuch]
    simpa using hlimit
  constructor
  · refine ⟨_, KeyMap.isRange_range _ _ _, ?_⟩
    rw [hanswer, Transaction.range_active htable hasks, hb.seen]
    rfl
  · intro hpos s' D' htable' hfetched
    rw [hanswer, hanswer]
    refine Transaction.range_congr htable' htable hpos (KeyMap.ext_entries ?_)
    rw [hb.toNat_wanted first last hpos]
    exact hfetched

/-- The first row was cleared, the second one set, and a third write refused. A fifth row is not
looked at. -/
theorem range_limited_of_cleared_first :
    let D : KeyMap Bytes := (((KeyMap.empty.insert [1] [10]).insert [2] [20]).insert [3] [30]).insert
      [4] [40]
    let s₀ : Store := { Store.new "kv" true with table := .holding .empty }
    let s : Store := { s₀ with table := .holding D }
    let s' : Store := { s₀ with table := .holding (D.insert [5] [50]) }
    let c : Connection := (backend.begin true ⟨s₀, .finished⟩).2
    let calls : Writes := [([1], none), ([2], some [21]), (List.replicate 256 2, some [0])]
    let d : Draft := ⟨true, calls.accepted, false⟩
    let answer (s : Store) := (backend.range [1] [9] 2 ⟨s, (c.writeAll calls).transaction⟩).1
    backend.begin true ⟨s₀, .finished⟩ = (.ok (), c) ∧ d.Accepts [1] [9] 2 ∧
      (∃ rows, (d.seen D).IsRange [1] [9] rows ∧ answer s = .ok (firsts 2 rows)) ∧
      answer s' = answer s ∧ (answer s).toOption = some [([2], [21]), ([3], [30])] := by
  intro D s₀ s s' c calls d answer
  have hbegin : backend.begin true ⟨s₀, .finished⟩ = (.ok (), c) := rfl
  have hlimit : d.Accepts [1] [9] 2 := by decide +kernel
  obtain ⟨hrows, hfetched⟩ := range_limited hbegin calls hlimit (s := s) (D := D) rfl
  exact ⟨hbegin, hlimit, hrows, hfetched (by decide) s' _ rfl (by decide +kernel),
    by decide +kernel⟩

end Connection
end RecordStore
