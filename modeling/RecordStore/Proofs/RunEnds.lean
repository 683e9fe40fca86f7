import Mathlib.Data.Nat.Find
import RecordStore.Proofs.CanonicalForm

/-! # The end of an escaped run

The search for the end of a run goes in rounds. Each looks for the next zero byte, and only a zero
with `FF` after it leads to another round, two bytes on. The rounds always come to an end. A zero
that ends them has an escaped run before it, written in the one way there is; where none does, every
zero is an escaped one.
-/

namespace RecordStore.Tuple

structure IsNextZero (data : Bytes) (pos idx : Nat) : Prop where
  le : pos ≤ idx
  zero : data[idx]? = some 0
  first : ∀ i, pos ≤ i → i < idx → data[i]? ≠ some 0

/-- What the search comes to whose rounds begin at `pos`: the position of the zero that ends the
run, or of the last round, which found no zero. -/
inductive Rounds (data : Bytes) : Nat → Except Nat Nat → Prop where
  | missing {pos : Nat} : (∀ i, pos ≤ i → data[i]? ≠ some 0) → Rounds data pos (.error pos)
  | escaped {pos idx : Nat} {outcome : Except Nat Nat} : IsNextZero data pos idx →
      data[idx + 1]? = some 0xFF → Rounds data (idx + 2) outcome → Rounds data pos outcome
  | ended {pos idx : Nat} : IsNextZero data pos idx → data[idx + 1]? ≠ some 0xFF →
      Rounds data pos (.ok idx)

variable {data : Bytes} {pos idx : Nat}

theorem exists_isNextZero (data : Bytes) (pos : Nat) :
    (∀ i, pos ≤ i → data[i]? ≠ some 0) ∨ ∃ idx, IsNextZero data pos idx := by
  by_cases hzero : ∃ i, pos ≤ i ∧ data[i]? = some 0
  · obtain ⟨hle, hfound⟩ := Nat.find_spec hzero
    refine .inr ⟨Nat.find hzero, hle, hfound, ?_⟩
    intro i hi hlt hz
    exact Nat.find_min hzero hlt ⟨hi, hz⟩
  · exact .inl fun i hi hz => hzero ⟨i, hi, hz⟩

/-- The rounds come to an end: an escaped zero leaves two bytes fewer to search. -/
theorem exists_rounds (data : Bytes) (pos : Nat) : ∃ outcome, Rounds data pos outcome := by
  rcases exists_isNextZero data pos with hnone | ⟨idx, hnext⟩
  · exact ⟨.error pos, .missing hnone⟩
  · by_cases hmark : data[idx + 1]? = some 0xFF
    · obtain ⟨outcome, h⟩ := exists_rounds data (idx + 2)
      exact ⟨outcome, .escaped hnext hmark h⟩
    · exact ⟨.ok idx, .ended hnext hmark⟩
termination_by data.length - pos
decreasing_by
  have hle := hnext.le
  obtain ⟨hlt, -⟩ := List.getElem?_eq_some_iff.mp hmark
  omega

theorem drop_eq_cons {b : UInt8} (h : data[idx]? = some b) :
    data.drop idx = b :: data.drop (idx + 1) := by
  rw [List.drop_eq_getElem?_toList_append, h]
  rfl

theorem terminatorFrom_drop {start : Nat} (hle : pos ≤ idx)
    (h : ∀ i, pos ≤ i → i < idx → data[i]? ≠ some 0) :
    terminatorFrom start pos (data.drop pos) = terminatorFrom start idx (data.drop idx) := by
  induction idx, hle using Nat.le_induction with
  | base => rfl
  | succ idx hle ih =>
    rw [ih fun i hi hlt => h i hi (by omega)]
    cases hb : data[idx]? with
    | none =>
      have hend : data.length ≤ idx := List.getElem?_eq_none_iff.mp hb
      rw [List.drop_of_length_le hend, List.drop_of_length_le (by omega)]
      rfl
    | some b =>
      have hne : b ≠ 0 := by
        rintro rfl
        exact h idx hle (by omega) hb
      rw [drop_eq_cons hb, terminatorFrom_cons_of_ne hne]

theorem Rounds.findTerminator_eq {outcome : Except Nat Nat} (h : Rounds data pos outcome) :
    findTerminator data pos = outcome := by
  induction h with
  | @missing pos hnone =>
    rw [findTerminator, terminatorFrom_drop (Nat.le_add_right pos data.length) fun i hi _ =>
      hnone i hi, List.drop_of_length_le (by omega)]
    rfl
  | @escaped pos idx outcome hnext hmark _ ih =>
    rw [findTerminator, terminatorFrom_drop hnext.le hnext.first, drop_eq_cons hnext.zero,
      drop_eq_cons hmark, terminatorFrom]
    exact ih
  | @ended pos idx hnext hmark =>
    rw [findTerminator, terminatorFrom_drop hnext.le hnext.first, drop_eq_cons hnext.zero]
    apply terminatorFrom_zero
    rwa [List.head?_drop]

/-- The rounds come to one outcome only, the one that is found. -/
theorem rounds_iff {outcome : Except Nat Nat} :
    Rounds data pos outcome ↔ findTerminator data pos = outcome := by
  constructor
  · exact Rounds.findTerminator_eq
  · rintro rfl
    obtain ⟨outcome, h⟩ := exists_rounds data pos
    rwa [h.findTerminator_eq]

/-- Rounds that end at no zero have found each zero to be an escaped one. -/
theorem Rounds.marked {outcome : Except Nat Nat} (h : Rounds data pos outcome) {restart : Nat}
    (herror : outcome = .error restart) {i : Nat} (hi : pos ≤ i) (hzero : data[i]? = some 0) :
    data[i + 1]? = some 0xFF := by
  induction h with
  | missing hnone => exact (hnone i hi hzero).elim
  | @escaped pos idx outcome hnext hmark _ ih =>
    rcases Nat.lt_trichotomy i idx with hlt | rfl | hgt
    · exact (hnext.first i hi hlt hzero).elim
    · exact hmark
    · -- The mark itself is no zero.
      have hne : i ≠ idx + 1 := by
        rintro rfl
        simp [hmark] at hzero
      exact ih herror (by omega)
  | ended => cases herror

theorem exists_escape_of_findTerminator (h : findTerminator data pos = .ok idx) : ∃ raw,
    pos ≤ idx ∧ data.extract pos idx = escape raw ∧ data[idx]? = some 0 ∧
      data[idx + 1]? ≠ some 0xFF := by
  obtain ⟨raw, rest, hdata, hrest, rfl⟩ := exists_escape_of_terminatorFrom h
  refine ⟨raw, by omega, ?_, ?_, ?_⟩
  · rw [List.extract_eq_take_drop, Nat.add_sub_cancel_left, hdata, List.take_left]
  · rw [← List.getElem?_drop, hdata, List.getElem?_append_right (Nat.le_refl _), Nat.sub_self]
    rfl
  · rw [← List.head?_drop, Nat.add_assoc, ← List.drop_drop, hdata, drop_escape]
    exact hrest

/-- The search finds the end of an escaped run, whatever stands around it, and nothing else: its
rounds end in one way, at an unmarked zero after an escaped run or where no such zero follows. -/
theorem findTerminator_exact :
    (∀ before raw rest : Bytes, rest.head? ≠ some 0xFF →
      let data := before ++ escape raw ++ 0 :: rest
      let idx := before.length + (escape raw).length
      findTerminator data before.length = .ok idx ∧
        unescape (data.extract before.length idx) = raw) ∧
    ∀ (data : Bytes) (pos : Nat),
      (∀ outcome, Rounds data pos outcome ↔ findTerminator data pos = outcome) ∧
      (∀ idx, findTerminator data pos = .ok idx →
        pos ≤ idx ∧ data[idx]? = some 0 ∧ data[idx + 1]? ≠ some 0xFF ∧
          escape (unescape (data.extract pos idx)) = data.extract pos idx) ∧
      ∀ restart, findTerminator data pos = .error restart →
        ∀ i, pos ≤ i → data[i]? = some 0 → data[i + 1]? = some 0xFF := by
  refine ⟨?_, fun data pos => ⟨fun outcome => rounds_iff, ?_, ?_⟩⟩
  · intro before raw rest hrest data idx
    have hdata : data = before ++ (escape raw ++ 0 :: rest) := List.append_assoc ..
    have hdrop : data.drop before.length = escape raw ++ 0 :: rest := by
      rw [hdata, List.drop_left]
    constructor
    · rw [findTerminator, hdrop, terminatorFrom_escape raw hrest]
    · rw [List.extract_eq_take_drop, hdrop, Nat.add_sub_cancel_left, unescape_take_escape]
  · intro idx h
    obtain ⟨raw, hle, hraw, hzero, hmark⟩ := exists_escape_of_findTerminator h
    refine ⟨hle, hzero, hmark, ?_⟩
    rw [hraw, unescape_escape]
  · intro restart h i hi hzero
    exact (rounds_iff.mpr h).marked rfl hi hzero

/-- Zeros and marks that stand close to each other: the run ends at the zero that comes last, and
without it does not end. -/
theorem findTerminator_exact_of_last_zero :
    let run : Bytes := [0, 0xFF, 0, 0xFF, 0xFF]
    findTerminator (1 :: run ++ [0]) 1 = .ok 6 ∧ unescape run = [0, 0, 0xFF] ∧
      (1 :: run ++ [0])[7]? ≠ some 0xFF ∧ findTerminator (1 :: run) 1 = .error 5 ∧
      (1 :: run)[4]? = some 0xFF := by
  intro run
  obtain ⟨hescaped, hany⟩ := findTerminator_exact
  obtain ⟨hend, hraw⟩ := hescaped [1] [0, 0, 0xFF] [] (by simp)
  obtain ⟨-, hok, -⟩ := hany (1 :: run ++ [0]) 1
  obtain ⟨-, -, hmark, -⟩ := hok 6 hend
  have herror : findTerminator (1 :: run) 1 = .error 5 := by decide +kernel
  obtain ⟨-, -, hmissing⟩ := hany (1 :: run) 1
  exact ⟨hend, hraw, hmark, herror, hmissing 5 herror 3 (by decide) (by decide)⟩

end RecordStore.Tuple
