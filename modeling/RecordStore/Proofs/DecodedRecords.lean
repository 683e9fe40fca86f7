import Mathlib.Data.List.Induction
import RecordStore.Fault
import RecordStore.Proofs.CanonicalForm
import RecordStore.Proofs.RecordRoundTrip
import RecordStore.Proofs.Selection
import RecordStore.Proofs.TupleOrder

/-! # Decoding any bytes

Bytes stand for a record exactly if they are a packed tuple of pairs of texts, whatever is asked of
them. A name that is repeated counts once, at its first place and with its last value. Encoding what
was decoded leaves the repetitions out: the bytes get shorter or stay as they were. Bytes that are
refused are reported as no record, unless the reader runs out of room for the tuples they open.
-/

namespace RecordStore

namespace Fields

variable {α : Type}

theorem entries_ofList_eq_iff {pairs : List (String × α)} :
    (ofList pairs).entries = pairs ↔ (pairs.map Prod.fst).Nodup := by
  constructor
  · intro h
    rw [← h]
    exact (ofList pairs).distinct
  · intro h
    have hnew : ((empty : Fields α).names ++ pairs.map Prod.fst).Nodup := by simpa [names] using h
    exact entries_putAll_of_nodup hnew

end Fields

namespace Record

open RecordStore.Tuple

def packPairs (pairs : List (String × String)) : Bytes := Tuple.pack (pairs.map pair)

theorem ofPair_eq_ok_iff {e : Element} {p : String × String} : ofPair e = .ok p ↔ e = pair p := by
  constructor
  · intro h
    unfold ofPair at h
    split at h
    · cases h
      rfl
    · cases h
  · rintro rfl
    rfl

theorem mapM_ofPair_eq_ok_iff {items : List Element} {pairs : List (String × String)} :
    items.mapM ofPair = .ok pairs ↔ items = pairs.map pair := by
  constructor
  · intro h
    induction items generalizing pairs with
    | nil =>
      cases h
      rfl
    | cons e rest ih =>
      rw [List.mapM_cons] at h
      cases he : ofPair e with
      | error e' =>
        rw [he] at h
        cases h
      | ok p =>
        cases hrest : rest.mapM ofPair with
        | error e' =>
          rw [he, hrest] at h
          cases h
        | ok ps =>
          rw [he, hrest] at h
          cases h
          rw [List.map_cons, ofPair_eq_ok_iff.mp he, ih hrest]
  · rintro rfl
    exact mapM_ofPair_map_pair pairs

theorem decode_eq_ok_iff {data : Bytes} {r : Record} :
    decode data = .ok r ↔
      ∃ pairs, packPairs pairs = data ∧ .ofList pairs = r := by
  unfold decode
  cases hun : unpackWithin room data with
  | error e =>
    refine iff_of_false nofun ?_
    rintro ⟨pairs, rfl, -⟩
    rw [packPairs, unpackWithin_pack_pairs] at hun
    cases hun
  | ok items =>
    have hitems : ∀ {pairs}, packPairs pairs = data ↔ items.mapM ofPair = .ok pairs := by
      intro pairs
      rw [packPairs, ← pack_of_unpackWithin hun, pack_inj, mapM_ofPair_eq_ok_iff, eq_comm]
    simp only [hitems]
    cases items.mapM ofPair with
    | error e => simp [Functor.map, Except.map]
    | ok pairs => simp [Functor.map, Except.map]

end Record
end RecordStore
