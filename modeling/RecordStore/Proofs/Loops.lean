import RecordStore.Attempt

/-! # Loops

A loop takes one step for each item of a list, in order, and stops at the first fault. Sending and
resolving a batch are such loops, so how they go through, what they keep and where they fail is
settled here once, as is what attempts keep that follow each other.
-/

namespace RecordStore.Attempt

variable {σ α β γ : Type}

theorem bind_pure_apply (m : Attempt σ α) (f : α → β) (s : σ) :
    (m >>= fun a => pure (f a)) s = ((m s).1.map f, (m s).2) := by
  rw [bind_eq]
  rcases m s with ⟨_ | _, _⟩ <;> rfl

theorem map_apply (f : α → β) (m : Attempt σ α) (s : σ) :
    (f <$> m) s = ((m s).1.map f, (m s).2) :=
  bind_pure_apply m f s

def Keeps (P : σ → Prop) (m : Attempt σ α) : Prop := ∀ s, P s → P (m s).2

section Keeps

variable {P : σ → Prop}

theorem keeps_pure (a : α) : Keeps P (pure a : Attempt σ α) := fun _ h => h

theorem keeps_ofExcept (r : Except Fault α) : Keeps P (ofExcept r : Attempt σ α) := fun _ h => h

theorem keeps_fail (e : Fault) : Keeps P (fail e : Attempt σ α) := keeps_ofExcept _

theorem keeps_change {f : σ → σ} (hf : ∀ s, P s → P (f s)) : Keeps P (change f) := hf

theorem Keeps.bind {m : Attempt σ α} {f : α → Attempt σ β} (hm : Keeps P m)
    (hf : ∀ a, Keeps P (f a)) : Keeps P (m >>= f) := by
  intro s h
  have hafter := hm s h
  rw [bind_eq]
  rcases hresult : m s with ⟨e | a, s'⟩ <;> rw [hresult] at hafter
  · exact hafter
  · exact hf a s' hafter

theorem Keeps.map {m : Attempt σ α} (hm : Keeps P m) (f : α → β) : Keeps P (f <$> m) := by
  intro s h
  rw [map_apply]
  exact hm s h

end Keeps

structure IsLoop (step : α → Attempt σ β) (join : β → γ → γ) (loop : List α → Attempt σ γ) :
    Prop where
  nil : ∃ c, loop [] = pure c
  cons (item : α) (rest : List α) : loop (item :: rest) = do
    let x ← step item
    let y ← loop rest
    pure (join x y)

namespace IsLoop

variable {step : α → Attempt σ β} {join : β → γ → γ} {loop : List α → Attempt σ γ} {item : α}
  {items rest : List α} {s s' : σ} {e : Fault}

theorem of_nil (h : IsLoop step join loop) {r : Except Fault γ} (hloop : loop [] s = (r, s')) :
    s' = s ∧ ∃ c, r = .ok c := by
  obtain ⟨c, hnil⟩ := h.nil
  rw [hnil, pure_eq] at hloop
  cases hloop
  exact ⟨rfl, c, rfl⟩

theorem cons_eq_ok_iff (h : IsLoop step join loop) {c : γ} :
    loop (item :: rest) s = (.ok c, s') ↔
      ∃ x t y, step item s = (.ok x, t) ∧ loop rest t = (.ok y, s') ∧ c = join x y := by
  simp only [h.cons, bind_eq_ok_iff, pure_eq, Prod.mk.injEq, Except.ok.injEq]
  constructor
  · rintro ⟨x, t, hitem, y, _, hrest, rfl, rfl⟩
    exact ⟨x, t, y, hitem, hrest, rfl⟩
  · rintro ⟨x, t, y, hitem, hrest, rfl⟩
    exact ⟨x, t, hitem, y, s', hrest, rfl, rfl⟩

theorem cons_eq_error_iff (h : IsLoop step join loop) :
    loop (item :: rest) s = (.error e, s') ↔
      step item s = (.error e, s') ∨
        ∃ x t, step item s = (.ok x, t) ∧ loop rest t = (.error e, s') := by
  simp only [h.cons, bind_eq_error_iff, pure_eq, Prod.mk.injEq, reduceCtorEq, false_and, and_false,
    exists_false, or_false]

theorem preserves_of_mem (h : IsLoop step join loop) {P : σ → Prop}
    (hstep : ∀ item ∈ items, ∀ {s r s'}, step item s = (r, s') → P s → P s') {r : Except Fault γ}
    (hloop : loop items s = (r, s')) (hs : P s) : P s' := by
  induction items generalizing s r with
  | nil =>
    obtain ⟨rfl, -⟩ := h.of_nil hloop
    exact hs
  | cons item rest ih =>
    have hitem := @hstep item List.mem_cons_self
    have hrest := fun other hmem => @hstep other (List.mem_cons_of_mem _ hmem)
    cases r with
    | error e =>
      rcases h.cons_eq_error_iff.mp hloop with hfails | ⟨x, t, hgoes, hfails⟩
      · exact hitem hfails hs
      · exact ih hrest hfails (hitem hgoes hs)
    | ok c =>
      obtain ⟨x, t, y, hgoes, hgoes', -⟩ := h.cons_eq_ok_iff.mp hloop
      exact ih hrest hgoes' (hitem hgoes hs)

theorem preserves (h : IsLoop step join loop) {P : σ → Prop}
    (hstep : ∀ {item s r s'}, step item s = (r, s') → P s → P s') {r : Except Fault γ}
    (hloop : loop items s = (r, s')) (hs : P s) : P s' :=
  h.preserves_of_mem (fun _ _ => hstep) hloop hs

/-- A loop fails with the fault of its first step that fails. -/
theorem eq_error_iff (h : IsLoop step join loop) :
    loop items s = (.error e, s') ↔ ∃ before item rest c t, items = before ++ item :: rest ∧
      loop before s = (.ok c, t) ∧ step item t = (.error e, s') := by
  induction items generalizing s with
  | nil =>
    constructor
    · intro hloop
      obtain ⟨-, c, hr⟩ := h.of_nil hloop
      cases hr
    · rintro ⟨before, item, rest, c, t, hitems, -⟩
      simp at hitems
  | cons head tail ih =>
    rw [h.cons_eq_error_iff]
    constructor
    · rintro (hhead | ⟨x, t, hhead, htail⟩)
      · obtain ⟨c, hnil⟩ := h.nil
        exact ⟨[], head, tail, c, s, rfl, by rw [hnil, pure_eq], hhead⟩
      · obtain ⟨before, item, rest, c, t', rfl, hbefore, hitem⟩ := ih.mp htail
        exact ⟨head :: before, item, rest, join x c, t', rfl,
          h.cons_eq_ok_iff.mpr ⟨x, t, c, hhead, hbefore, rfl⟩, hitem⟩
    · rintro ⟨before, item, rest, c, t, hitems, hbefore, hitem⟩
      cases before with
      | nil =>
        obtain ⟨rfl, rfl⟩ : head = item ∧ tail = rest := by simpa using hitems
        obtain ⟨rfl, -⟩ := h.of_nil hbefore
        exact .inl hitem
      | cons _ before =>
        obtain ⟨rfl, htail⟩ := List.cons.inj hitems
        obtain ⟨x, t', y, hhead, hbefore, -⟩ := h.cons_eq_ok_iff.mp hbefore
        exact .inr ⟨x, t', hhead, ih.mpr ⟨before, item, rest, y, t, htail, hbefore, hitem⟩⟩

end IsLoop
end RecordStore.Attempt
