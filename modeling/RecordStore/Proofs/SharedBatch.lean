import RecordStore.Client
import RecordStore.Proofs.BatchSuccess
import RecordStore.Proofs.Connections

/-! # Batches on what clients share

A batch begins on a store without a transaction in use, and leaves a store that is ready ready.
-/

namespace RecordStore.Shared

open Batch

variable {w : Shared} {ops : List Operation}

theorem execute_fst (w : Shared) (ops : List Operation) :
    (w.execute ops).1 =
      (Batch.execute Connection.backend ops (⟨w.store, .finished⟩, w.footprint)).1 := rfl

theorem execute_store (w : Shared) (ops : List Operation) : (w.execute ops).2.store =
    (Batch.execute Connection.backend ops (⟨w.store, .finished⟩, w.footprint)).2.1.store := rfl

theorem execute_footprint (w : Shared) (ops : List Operation) : (w.execute ops).2.footprint =
    (Batch.execute Connection.backend ops (⟨w.store, .finished⟩, w.footprint)).2.2 := rfl

theorem execute_ready (hready : w.store.Ready) (ops : List Operation) :
    (w.execute ops).2.store.Ready :=
  execute_preserves Connection.preserves_ready ops (⟨w.store, .finished⟩, w.footprint) hready

theorem execute_serves (hready : w.store.Ready) (hne : ops ≠ [])
    (hops : ∀ op ∈ ops, Sendable op) (hask : ∀ p ∈ ask w.store.table.rows ops, Settleable p) :
    (w.execute ops).1 = verdict ((ask w.store.table.rows ops).map Pending.status) ∧
      (w.execute ops).2.store.table.rows = after w.store.table.rows ops ∧
      (w.execute ops).2.footprint.slots =
        (settled w.footprint (ask w.store.table.rows ops)).slots := by
  obtain ⟨links, link, hbegin⟩ :=
    Connection.begin_ok (c := ⟨w.store, .finished⟩) hready.1 hready.2.1 true
  obtain ⟨status, t', hrun⟩ := run_serves
    (t := ((⟨w.store, .finished⟩ : Connection), w.footprint)) Connection.transactional
    Connection.serves hbegin ⟨hready, _, rfl, rfl⟩ hops hask
  obtain ⟨-, rfl, hrows, htrace⟩ := run_ok Connection.transactional hrun
  have hexecute := execute_of_run_ok hne hrun
  rw [execute_fst, execute_store, execute_footprint, hexecute]
  refine ⟨rfl, hrows, ?_⟩
  rw [htrace]
  rfl

/-- A batch whose verdict is that all is well is committed, and every request of it was well. -/
theorem execute_ok (h : (w.execute ops).1 = .ok) :
    (w.execute ops).2.store.table.rows = after w.store.table.rows ops ∧
      ∀ p ∈ ask w.store.table.rows ops, p.status = .ok := by
  by_cases hne : ops = []
  · subst hne
    exact ⟨rfl, nofun⟩
  rcases hrun : (Connection.backend.beside Footprint).run (body Connection.backend ops)
    ((⟨w.store, .finished⟩ : Connection), w.footprint) with ⟨e | status, t'⟩
  · rw [execute_fst, execute_of_run_error hne hrun] at h
    cases h
  · obtain ⟨-, rfl, hrows, -⟩ := run_ok Connection.transactional hrun
    have hexecute := execute_of_run_ok hne hrun
    rw [execute_fst, hexecute] at h
    rw [execute_store, hexecute]
    exact ⟨hrows, fun p hp => verdict_eq_ok_iff.mp h _ (List.mem_map_of_mem hp)⟩

end RecordStore.Shared
