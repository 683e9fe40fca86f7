import RecordStore.Fault

/-! # Attempts

A step on a state that either answers or fails, and leaves a state behind in both cases: what was
done before a failure stays done.
-/

namespace RecordStore

def Attempt (σ α : Type) : Type := σ → Except Fault α × σ

namespace Attempt

variable {σ ω α β : Type}

def fail (e : Fault) : Attempt σ α := fun s => (.error e, s)

/-- An answer or failure that leaves the state alone. -/
def ofExcept (r : Except Fault α) : Attempt σ α := fun s => (r, s)

def change (f : σ → σ) : Attempt σ Unit := fun s => (.ok (), f s)

def andThen (m : Attempt σ α) (f : α → Attempt σ β) : Attempt σ β := fun s =>
  match m s with
  | (.error e, s') => (.error e, s')
  | (.ok a, s') => f a s'

instance : Monad (Attempt σ) where
  pure a := fun s => (.ok a, s)
  bind := andThen

/-- The step on the first part of a larger state. -/
def onFirst (m : Attempt σ α) : Attempt (σ × ω) α := fun s =>
  let (r, s') := m s.1
  (r, s', s.2)

def changeSecond (f : ω → ω) : Attempt (σ × ω) Unit := change fun s => (s.1, f s.2)

theorem bind_eq (m : Attempt σ α) (f : α → Attempt σ β) (s : σ) :
    (m >>= f) s = match m s with
      | (.error e, s') => (.error e, s')
      | (.ok a, s') => f a s' := rfl

theorem pure_eq (a : α) (s : σ) : (pure a : Attempt σ α) s = (.ok a, s) := rfl

theorem bind_eq_ok_iff {m : Attempt σ α} {f : α → Attempt σ β} {s s' : σ} {b : β} :
    (m >>= f) s = (.ok b, s') ↔ ∃ a t, m s = (.ok a, t) ∧ f a t = (.ok b, s') := by
  rw [bind_eq]
  rcases m s with ⟨e | a, t⟩
  · simp
  · exact ⟨fun h => ⟨a, t, rfl, h⟩, fun ⟨_, _, rfl, h⟩ => h⟩

theorem bind_eq_error_iff {m : Attempt σ α} {f : α → Attempt σ β} {s s' : σ} {e : Fault} :
    (m >>= f) s = (.error e, s') ↔
      m s = (.error e, s') ∨ ∃ a t, m s = (.ok a, t) ∧ f a t = (.error e, s') := by
  rw [bind_eq]
  rcases m s with ⟨e' | a, t⟩
  · simp
  · exact ⟨fun h => .inr ⟨a, t, rfl, h⟩, fun | .inr ⟨_, _, rfl, h⟩ => h⟩

instance : LawfulMonad (Attempt σ) := LawfulMonad.mk' (Attempt σ)
  (fun m => funext fun s => by
    change andThen m (fun a s => (.ok a, s)) s = m s
    simp only [andThen]
    rcases m s with ⟨_ | _, _⟩ <;> rfl)
  (fun _ _ => rfl)
  (fun m f g => funext fun s => by
    change andThen (andThen m f) g s = andThen m (fun a => andThen (f a) g) s
    simp only [andThen]
    rcases m s with ⟨_ | _, _⟩ <;> rfl)

end Attempt
end RecordStore
