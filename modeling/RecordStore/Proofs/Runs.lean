import Mathlib.Data.List.Forall2

/-! # Runs

A run is what comes of calls made one after the other. Two systems run alike if they answer alike
and stay related, and what comes of some of the calls does not depend on the others if these leave
no difference behind.
-/

namespace RecordStore

variable {α σ τ β γ : Type}

/-- The answers to calls made one after the other, each with the state it leaves. -/
def trace (step : α → σ → β × σ) (s : σ) : List α → List (β × σ)
  | [] => []
  | call :: rest => step call s :: trace step (step call s).2 rest

def final (step : α → σ → β × σ) (s : σ) (calls : List α) : σ :=
  calls.foldl (fun s call => (step call s).2) s

/-- Steps that answer alike and keep two states related do so along every list of calls. -/
theorem forall₂_trace {f : α → σ → β × σ} {g : α → τ → γ × τ} {Q : β → γ → Prop} {R : σ → τ → Prop}
    {calls : List α}
    (hstep : ∀ call ∈ calls, ∀ s t, R s t →
      Q (f call s).1 (g call t).1 ∧ R (f call s).2 (g call t).2)
    {s : σ} {t : τ} (h : R s t) :
    List.Forall₂ (fun x y => Q x.1 y.1 ∧ R x.2 y.2) (trace f s calls) (trace g t calls) := by
  induction calls generalizing s t with
  | nil => exact .nil
  | cons call rest ih =>
    have hcall := hstep call List.mem_cons_self s t h
    have hrest := fun call hmem => hstep call (List.mem_cons_of_mem _ hmem)
    exact .cons hcall (ih hrest hcall.2)

theorem forall₂_trace_of_forall₂ {f g : α → σ → β × σ} {C : α → α → Prop} {Q : β → β → Prop}
    {R : σ → σ → Prop} (hstep : ∀ call call' s t, C call call' → R s t →
      Q (f call s).1 (g call' t).1 ∧ R (f call s).2 (g call' t).2)
    {calls calls' : List α} (hcalls : List.Forall₂ C calls calls') {s t : σ} (h : R s t) :
    List.Forall₂ (fun x y => Q x.1 y.1 ∧ R x.2 y.2) (trace f s calls) (trace g t calls') := by
  induction hcalls generalizing s t with
  | nil => exact .nil
  | cons hcall _ ih =>
    have hboth := hstep _ _ s t hcall h
    exact .cons hboth (ih hboth.2)

/-- What comes of the calls that are picked out, in the run of all of them. -/
def part (p : α → Bool) (step : α → σ → β × σ) (s : σ) (calls : List α) : List (β × σ) :=
  ((calls.zip (trace step s calls)).filter (p ·.1)).map Prod.snd

theorem part_cons (p : α → Bool) (step : α → σ → β × σ) (s : σ) (call : α) (rest : List α) :
    part p step s (call :: rest) =
      if p call then step call s :: part p step (step call s).2 rest
      else part p step (step call s).2 rest := by
  unfold part
  rw [trace, List.zip_cons_cons, List.filter_cons]
  split <;> rfl

/-- If the other calls leave no difference behind, then what comes of the calls that are picked out
is what comes of them by themselves. -/
theorem forall₂_part {f : α → σ → β × σ} {p : α → Bool} {H : α → β → Prop}
    {Q : β → β → Prop} {R : σ → σ → Prop} {calls : List α}
    (hmine : ∀ call ∈ calls, p call = true → ∀ s t, R s t →
      Q (f call s).1 (f call t).1 ∧ R (f call s).2 (f call t).2)
    (hother : ∀ call ∈ calls, p call = false → ∀ s t, R s t → H call (f call s).1 →
      R (f call s).2 t)
    {s t : σ} (hhidden : ∀ x ∈ calls.zip (trace f s calls), p x.1 = false → H x.1 x.2.1)
    (h : R s t) :
    List.Forall₂ (fun x y => Q x.1 y.1 ∧ R x.2 y.2) (part p f s calls)
      (trace f t (calls.filter p)) := by
  induction calls generalizing s t with
  | nil => exact .nil
  | cons call rest ih =>
    have hmine' := fun call hmem => hmine call (List.mem_cons_of_mem _ hmem)
    have hother' := fun call hmem => hother call (List.mem_cons_of_mem _ hmem)
    have hhidden' : ∀ x ∈ rest.zip (trace f (f call s).2 rest), p x.1 = false →
        H x.1 x.2.1 := fun x hx => hhidden x (List.mem_cons_of_mem _ hx)
    rw [part_cons, List.filter_cons]
    -- A call that is picked out is made in both runs, any other only in the first.
    cases hcall : p call with
    | true =>
      have hstep := hmine call List.mem_cons_self hcall s t h
      exact .cons hstep (ih hmine' hother' hhidden' hstep.2)
    | false =>
      have hcalled : H call (f call s).1 := hhidden (call, f call s) List.mem_cons_self hcall
      exact ih hmine' hother' hhidden' (hother call List.mem_cons_self hcall s t h hcalled)

theorem final_filter {f : α → σ → β × σ} {p : α → Bool} {R : σ → σ → Prop} {calls : List α}
    (hmine : ∀ call ∈ calls, p call = true → ∀ s t, R s t → R (f call s).2 (f call t).2)
    (hother : ∀ call ∈ calls, p call = false → ∀ s t, R s t → R (f call s).2 t)
    {s t : σ} (h : R s t) : R (final f s calls) (final f t (calls.filter p)) := by
  induction calls generalizing s t with
  | nil => exact h
  | cons call rest ih =>
    have hmine' := fun call hmem => hmine call (List.mem_cons_of_mem _ hmem)
    have hother' := fun call hmem => hother call (List.mem_cons_of_mem _ hmem)
    rw [List.filter_cons]
    cases hcall : p call with
    | true => exact ih hmine' hother' (hmine call List.mem_cons_self hcall s t h)
    | false => exact ih hmine' hother' (hother call List.mem_cons_self hcall s t h)

def visits (step : α → σ → β × σ) (s : σ) : List α → List (α × σ)
  | [] => []
  | call :: rest => (call, s) :: visits step (step call s).2 rest

theorem filterMap_concat (f : β → Option γ) (past : List β) (x : β) :
    (past ++ [x]).filterMap f = past.filterMap f ++ (f x).toList := by
  rw [List.filterMap_append, List.filterMap_cons, List.filterMap_nil]
  cases f x <;> rfl

/-- What holds of a state and of the visits so far, and is kept by each call, holds after a run. -/
theorem visits_induction {step : α → σ → β × σ} {I : List (α × σ) → σ → Prop} {calls : List α}
    (hstep : ∀ call ∈ calls, ∀ past s, I past s → I (past ++ [(call, s)]) (step call s).2)
    {past : List (α × σ)} {s : σ} (h : I past s) :
    I (past ++ visits step s calls) (final step s calls) := by
  induction calls generalizing past s with
  | nil => rwa [visits, List.append_nil]
  | cons call rest ih =>
    have hcall := hstep call List.mem_cons_self past s h
    rw [visits, List.append_cons]
    exact ih (fun call hmem => hstep call (List.mem_cons_of_mem _ hmem)) hcall

end RecordStore
