/-! # Statuses and metrics

The outcome of a call as its caller sees it, and the counts that are kept of outcomes: of batches
and scans by status, and of batches by size. A size is counted once, in the first bucket whose bound
it does not exceed.
-/

/-! ## Statuses -/

namespace RecordStore

inductive Status where
  | ok
  | error
  | notFound
  /-- Accepted into the batch, not yet carried out. -/
  | batched
deriving DecidableEq, Repr, Inhabited

namespace Status

def all : List Status := [.ok, .error, .notFound, .batched]

def name : Status → String
  | .ok => "OK"
  | .error => "ERROR"
  | .notFound => "NOT_FOUND"
  | .batched => "BATCHED_OK"

def ofName? (s : String) : Option Status := all.find? (·.name = s)

/-- Nothing has gone wrong so far. -/
def isOk (s : Status) : Bool := s = .ok || s = .batched

end Status

/-! ## Precision

Whole numbers kept with 53 significant bits. A number that needs no more is kept as it is.
-/

/-- The nearest number of at most 53 significant bits, the even one of two equally near. -/
def nearestMagnitude (a : Nat) : Nat :=
  let unit := Nat.pow 2 (a.log2 + 1 - 53)
  let below := a / unit
  let rest := a % unit
  if unit < 2 * rest ∨ (2 * rest = unit ∧ below % 2 = 1) then (below + 1) * unit
  else below * unit

/-- The nearest whole number of at most 53 significant bits on the same side of zero. -/
def nearestDouble (n : Int) : Int :=
  if n < 0 then -Int.ofNat (nearestMagnitude n.natAbs) else Int.ofNat (nearestMagnitude n.natAbs)

theorem log2_lt_of_lt {a : Nat} (h : a < 9007199254740992) : a.log2 < 53 := by
  by_cases h0 : a = 0
  · rw [h0, Nat.log2_zero]
    decide
  · exact (Nat.log2_lt h0).mpr h

theorem nearestMagnitude_of_lt {a : Nat} (h : a < 9007199254740992) : nearestMagnitude a = a := by
  have hbits : a.log2 + 1 - 53 = 0 := by
    have := log2_lt_of_lt h
    omega
  have hunit : Nat.pow 2 0 = 1 := rfl
  simp only [nearestMagnitude, hbits, hunit, Nat.div_one, Nat.mod_one, Nat.mul_one]
  exact if_neg (by omega)

theorem nearestDouble_of_natAbs_lt {n : Int} (h : n.natAbs < 9007199254740992) :
    nearestDouble n = n := by
  rw [nearestDouble, nearestMagnitude_of_lt h, Int.ofNat_eq_natCast]
  split <;> omega

/-- Whether a number of 53 significant bits is beyond every finite double. -/
def isBeyondDouble (n : Int) : Bool := 1024 ≤ n.natAbs.log2

/-! ## Counts -/

structure StatusCounts where
  ok : Nat
  error : Nat
  notFound : Nat
  batched : Nat
deriving DecidableEq, Repr, Inhabited

namespace StatusCounts

def zero : StatusCounts := ⟨0, 0, 0, 0⟩

def get (c : StatusCounts) : Status → Nat
  | .ok => c.ok
  | .error => c.error
  | .notFound => c.notFound
  | .batched => c.batched

def add (c : StatusCounts) : Status → StatusCounts
  | .ok => { c with ok := c.ok + 1 }
  | .error => { c with error := c.error + 1 }
  | .notFound => { c with notFound := c.notFound + 1 }
  | .batched => { c with batched := c.batched + 1 }

end StatusCounts

/-- The upper bounds of the size buckets but the last, which has none. -/
def sizeBounds : List Int := [1, 2, 5, 10, 20, 50, 100, 200, 500, 1000]

/-- The counts with one more in the bucket for a size. -/
def countSize (size : Int) : List Int → List Nat → List Nat
  | bound :: bounds, n :: counts =>
    if size ≤ bound then (n + 1) :: counts else n :: countSize size bounds counts
  | [], n :: counts => (n + 1) :: counts
  | _, [] => []

def runningTotals (total : Nat) : List Nat → List Nat
  | [] => []
  | n :: counts => (total + n) :: runningTotals (total + n) counts

structure Metrics where
  batches : StatusCounts
  /-- How many batches were timed. -/
  batchTimings : Nat
  /-- How many batches fell into each size bucket. -/
  sizes : List Nat
  sizeSum : Int
  scans : StatusCounts
  scanTimings : Nat
deriving DecidableEq, Repr, Inhabited

namespace Metrics

def zero : Metrics := ⟨.zero, 0, List.replicate 11 0, 0, .zero, 0⟩

def countBatch (m : Metrics) (status : Status) : Metrics :=
  { m with batches := m.batches.add status }

/-- Add a batch. Its size is added as it is: the sum of the sizes of batches never comes near the
number from which on doubles have gaps. -/
def observeBatch (m : Metrics) (status : Status) (size : Int) : Metrics :=
  { m with
    batches := m.batches.add status
    batchTimings := m.batchTimings + 1
    sizes := countSize size sizeBounds m.sizes
    sizeSum := m.sizeSum + size }

/-- Add a size that can be any number. Both it and the sum are kept to the precision of a double,
and a size beyond every double is not added. -/
def reportSize? (m : Metrics) (size : Int) : Option Metrics :=
  let kept := nearestDouble size
  if isBeyondDouble kept then none
  else some { m with
    batchTimings := m.batchTimings + 1
    sizes := countSize size sizeBounds m.sizes
    sizeSum := nearestDouble (m.sizeSum + kept) }

/-- As long as doubles have no gaps, a batch is observed as it is if its size is reported. -/
theorem reportSize?_countBatch (m : Metrics) (status : Status) {size : Int}
    (hsize : size.natAbs < 9007199254740992)
    (hsum : (m.sizeSum + size).natAbs < 9007199254740992) :
    (m.countBatch status).reportSize? size = some (m.observeBatch status size) := by
  have hbound : ¬ 1024 ≤ size.natAbs.log2 := by
    have := log2_lt_of_lt hsize
    omega
  simp only [reportSize?, nearestDouble_of_natAbs_lt hsize, isBeyondDouble, countBatch,
    nearestDouble_of_natAbs_lt hsum, observeBatch, decide_eq_true_eq, if_neg hbound]

def observeScan (m : Metrics) (status : Status) : Metrics :=
  { m with scans := m.scans.add status, scanTimings := m.scanTimings + 1 }

/-- For each bound, and last without one, the batches of at most that size. -/
def cumulativeSizes (m : Metrics) : List Nat := runningTotals 0 m.sizes

end Metrics
end RecordStore
