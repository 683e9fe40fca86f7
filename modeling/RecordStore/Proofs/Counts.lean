import Mathlib.Algebra.BigOperators.Group.List.Lemmas
import Mathlib.Algebra.Ring.Nat
import RecordStore.Metrics
import RecordStore.Operation

/-! # What metrics count

Metrics that were observed along some batches and scans are the counts of these: by status, by size
up to each bound, and in total.
-/

namespace RecordStore

namespace StatusCounts

theorem get_add (c : StatusCounts) (status other : Status) :
    (c.add status).get other = c.get other + if status = other then 1 else 0 := by
  cases status <;> cases other <;> rfl

def total (c : StatusCounts) : Nat := (Status.all.map c.get).sum

theorem total_add (c : StatusCounts) (status : Status) : (c.add status).total = c.total + 1 := by
  simp only [total, Status.all, List.map_cons, List.map_nil, List.sum_cons, List.sum_nil, get_add]
  cases status <;> simp <;> omega

end StatusCounts

theorem runningTotals_succ (n : Nat) (counts : List Nat) :
    runningTotals (n + 1) counts = (runningTotals n counts).map (· + 1) := by
  induction counts generalizing n with
  | nil => rfl
  | cons count counts ih =>
    have hhead : n + 1 + count = n + count + 1 := by omega
    rw [runningTotals, runningTotals, List.map_cons, hhead, ih]

/-- Counting a size raises the running totals from the first bound on that it does not exceed. -/
theorem runningTotals_countSize {bounds : List Int} (hbounds : bounds.Pairwise (· ≤ ·))
    {f : Int → Nat} {n k : Nat} {counts : List Nat}
    (h : runningTotals n counts = bounds.map f ++ [k]) (size : Int) :
    runningTotals n (countSize size bounds counts) =
      bounds.map (fun bound => f bound + if size ≤ bound then 1 else 0) ++ [k + 1] := by
  induction bounds generalizing n counts with
  | nil =>
    cases counts with
    | nil => cases h
    | cons count rest =>
      simp only [runningTotals, List.map_nil, List.nil_append, List.cons.injEq] at h
      obtain ⟨hk, hrest⟩ := h
      have hlast : n + (count + 1) = k + 1 := by omega
      cases rest with
      | nil => rw [countSize, runningTotals, hlast]; rfl
      | cons => cases hrest
  | cons bound bounds ih =>
    obtain ⟨hbound, hbounds⟩ := List.pairwise_cons.mp hbounds
    cases counts with
    | nil => cases h
    | cons count rest =>
      simp only [runningTotals, List.map_cons, List.cons_append, List.cons.injEq] at h
      obtain ⟨hhead, hrest⟩ := h
      rw [countSize]
      split
      · next hsize =>
        -- Every later bound is no smaller, so the size counts for all of them.
        have hall : bounds.map (fun bound => f bound + if size ≤ bound then 1 else 0) =
            bounds.map (fun bound => f bound + 1) :=
          List.map_congr_left fun b hb => by
            have hle : size ≤ b := Int.le_trans hsize (hbound b hb)
            rw [if_pos hle]
        have hnext : n + (count + 1) = n + count + 1 := by omega
        rw [runningTotals, hnext, runningTotals_succ, hrest, List.map_cons, if_pos hsize, hall,
          hhead, List.map_append, List.map_map]
        rfl
      · next hsize =>
        rw [runningTotals, ih hbounds hrest, List.map_cons, if_neg hsize, hhead]
        rfl

namespace Metrics

/-- The metrics are those of batches, each with its verdict, and of scans with these verdicts. -/
structure Accounts (m : Metrics) (batches : List (List Operation × Status)) (scans : List Status) :
    Prop where
  batchStatus (status : Status) : m.batches.get status = batches.countP (·.2 = status)
  batchTotal : m.batches.total = batches.length
  batchTimings : m.batchTimings = batches.length
  cumulativeSizes : m.cumulativeSizes =
    sizeBounds.map (fun bound => batches.countP fun x => x.1.length ≤ bound) ++ [batches.length]
  sizeSum : m.sizeSum = (batches.map fun x => x.1.length).sum
  scanStatus (status : Status) : m.scans.get status = scans.count status
  scanTotal : m.scans.total = scans.length
  scanTimings : m.scanTimings = scans.length

namespace Accounts

variable {m : Metrics} {batches : List (List Operation × Status)} {scans : List Status}

theorem zero : Accounts .zero [] [] where
  batchStatus status := by cases status <;> rfl
  batchTotal := rfl
  batchTimings := rfl
  cumulativeSizes := rfl
  sizeSum := rfl
  scanStatus status := by cases status <;> rfl
  scanTotal := rfl
  scanTimings := rfl

theorem observeBatch (h : m.Accounts batches scans) (ops : List Operation) (status : Status) :
    (m.observeBatch status ops.length).Accounts (batches ++ [(ops, status)]) scans where
  batchStatus other := by
    rw [Metrics.observeBatch, StatusCounts.get_add, h.batchStatus, List.countP_append,
      List.countP_singleton]
    simp
  batchTotal := by
    rw [Metrics.observeBatch, StatusCounts.total_add, h.batchTotal, List.length_append]
    rfl
  batchTimings := by
    rw [Metrics.observeBatch, h.batchTimings, List.length_append]
    rfl
  cumulativeSizes := by
    have hbounds : sizeBounds.Pairwise (· ≤ ·) := by decide
    rw [Metrics.observeBatch, Metrics.cumulativeSizes,
      runningTotals_countSize hbounds h.cumulativeSizes, List.length_append]
    simp [List.countP_append, List.countP_singleton]
  sizeSum := by
    rw [Metrics.observeBatch, h.sizeSum, List.map_append, List.sum_append]
    simp
  scanStatus := h.scanStatus
  scanTotal := h.scanTotal
  scanTimings := h.scanTimings

theorem observeScan (h : m.Accounts batches scans) (status : Status) :
    (m.observeScan status).Accounts batches (scans ++ [status]) where
  batchStatus := h.batchStatus
  batchTotal := h.batchTotal
  batchTimings := h.batchTimings
  cumulativeSizes := h.cumulativeSizes
  sizeSum := h.sizeSum
  scanStatus other := by
    rw [Metrics.observeScan, StatusCounts.get_add, h.scanStatus, List.count_append,
      List.count_singleton]
    simp
  scanTotal := by
    rw [Metrics.observeScan, StatusCounts.total_add, h.scanTotal, List.length_append]
    rfl
  scanTimings := by
    rw [Metrics.observeScan, h.scanTimings, List.length_append]
    rfl

end Accounts
end Metrics

end RecordStore
