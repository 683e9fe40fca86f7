import Mathlib.Data.List.Forall2
import RecordStore.Proofs.BatchRun

/-! # Two runs side by side

Two attempts go along with each other if, on related states, both answer with related answers or
both fail with related faults, and related states are left either way. The states may be of two
types, and the attempts two programs. Batches go along with each other if the calls of their
backends do and so do the sending and the resolving of their operations.
-/

namespace RecordStore

namespace Attempt

variable {σ τ ω ω' α α' β β' γ γ' : Type}

inductive Alike (E : Fault → Fault → Prop) (A : α → α' → Prop) :
    Except Fault α → Except Fault α' → Prop where
  | ok {a : α} {a' : α'} : A a a' → Alike E A (.ok a) (.ok a')
  | error {e e' : Fault} : E e e' → Alike E A (.error e) (.error e')

/-- The attempts go along with each other. -/
def Matches (R : σ → τ → Prop) (E : Fault → Fault → Prop) (A : α → α' → Prop) (m : Attempt σ α)
    (m' : Attempt τ α') : Prop :=
  ∀ s t, R s t → Alike E A (m s).1 (m' t).1 ∧ R (m s).2 (m' t).2

def Pairs (R : σ → τ → Prop) (S : ω → ω' → Prop) (s : σ × ω) (t : τ × ω') : Prop :=
  R s.1 t.1 ∧ S s.2 t.2

variable {R : σ → τ → Prop} {E : Fault → Fault → Prop} {A : α → α' → Prop} {B : β → β' → Prop}
  {C : γ → γ' → Prop} {S : ω → ω' → Prop}

theorem Alike.map {r : Except Fault α} {r' : Except Fault α'} (h : Alike E A r r') {f : α → β}
    {f' : α' → β'} (hf : ∀ a a', A a a' → B (f a) (f' a')) : Alike E B (r.map f) (r'.map f') := by
  cases h with
  | ok h => exact .ok (hf _ _ h)
  | error h => exact .error h

theorem alike_refl (hE : ∀ e, E e e) (r : Except Fault α) : Alike E Eq r r := by
  cases r with
  | ok a => exact .ok rfl
  | error e => exact .error (hE e)

theorem Alike.imp_fault {E' : Fault → Fault → Prop} {r : Except Fault α} {r' : Except Fault α'}
    (h : Alike E A r r') (hE : ∀ e e', E e e' → E' e e') : Alike E' A r r' := by
  cases h with
  | ok h => exact .ok h
  | error h => exact .error (hE _ _ h)

theorem Matches.cases {m : Attempt σ α} {m' : Attempt τ α'} (h : Matches R E A m m') {s : σ} {t : τ}
    (hst : R s t) :
    (∃ e e' s' t', m s = (.error e, s') ∧ m' t = (.error e', t') ∧ E e e' ∧ R s' t') ∨
      ∃ a a' s' t', m s = (.ok a, s') ∧ m' t = (.ok a', t') ∧ A a a' ∧ R s' t' := by
  obtain ⟨hanswer, hafter⟩ := h s t hst
  rcases hs : m s with ⟨e | a, s'⟩ <;> rcases ht : m' t with ⟨e' | a', t'⟩ <;>
    rw [hs, ht] at hanswer hafter <;> cases hanswer
  · next hE => exact .inl ⟨e, e', s', t', rfl, rfl, hE, hafter⟩
  · next hA => exact .inr ⟨a, a', s', t', rfl, rfl, hA, hafter⟩

theorem Matches.imp_fault {E' : Fault → Fault → Prop} {m : Attempt σ α} {m' : Attempt τ α'}
    (h : Matches R E A m m') (hE : ∀ e e', E e e' → E' e e') : Matches R E' A m m' :=
  fun s t hst => ⟨(h s t hst).1.imp_fault hE, (h s t hst).2⟩

theorem matches_pure {a : α} {a' : α'} (h : A a a') :
    Matches R E A (pure a : Attempt σ α) (pure a' : Attempt τ α') :=
  fun _ _ hst => ⟨.ok h, hst⟩

theorem matches_ofExcept {r : Except Fault α} {r' : Except Fault α'} (h : Alike E A r r') :
    Matches R E A (ofExcept r : Attempt σ α) (ofExcept r') :=
  fun _ _ hst => ⟨h, hst⟩

theorem matches_fail {e e' : Fault} (h : E e e') :
    Matches R E A (fail e : Attempt σ α) (fail e' : Attempt τ α') :=
  matches_ofExcept (.error h)

theorem matches_change {f : σ → σ} {f' : τ → τ} (h : ∀ s t, R s t → R (f s) (f' t)) :
    Matches R E Eq (change f) (change f') :=
  fun _ _ hst => ⟨.ok rfl, h _ _ hst⟩

theorem matches_changeSecond {f : ω → ω} {f' : ω' → ω'} (h : ∀ w w', S w w' → S (f w) (f' w')) :
    Matches (Pairs R S) E Eq (changeSecond f) (changeSecond f') :=
  matches_change fun _ _ hst => ⟨hst.1, h _ _ hst.2⟩

theorem Matches.bind {m : Attempt σ α} {m' : Attempt τ α'} {f : α → Attempt σ β}
    {f' : α' → Attempt τ β'} (hm : Matches R E A m m')
    (hf : ∀ a a', A a a' → Matches R E B (f a) (f' a')) :
    Matches R E B (m >>= f) (m' >>= f') := by
  intro s t hst
  rw [bind_eq, bind_eq]
  rcases hm.cases hst with ⟨e, e', s', t', hs, ht, hE, hafter⟩ | ⟨a, a', s', t', hs, ht, hA, hafter⟩
  · rw [hs, ht]
    exact ⟨.error hE, hafter⟩
  · rw [hs, ht]
    exact hf a a' hA s' t' hafter

theorem Matches.answer {m : Attempt σ α} {m' : Attempt τ α'} (hm : Matches R E A m m') {f : α → β}
    {f' : α' → β'} (hf : ∀ a a', A a a' → B (f a) (f' a')) :
    Matches R E B (m >>= fun a => pure (f a)) (m' >>= fun a => pure (f' a)) :=
  hm.bind fun a a' h => matches_pure (hf a a' h)

theorem Matches.map {m : Attempt σ α} {m' : Attempt τ α'} (hm : Matches R E A m m') {f : α → β}
    {f' : α' → β'} (hf : ∀ a a', A a a' → B (f a) (f' a')) :
    Matches R E B (f <$> m) (f' <$> m') := by
  intro s t hst
  rw [map_apply, map_apply]
  exact ⟨(hm s t hst).1.map hf, (hm s t hst).2⟩

theorem Matches.onFirst {m : Attempt σ α} {m' : Attempt τ α'} (hm : Matches R E A m m') :
    Matches (Pairs R S) E A (m.onFirst : Attempt (σ × ω) α) (m'.onFirst : Attempt (τ × ω') α') := by
  rintro ⟨s, w⟩ ⟨t, w'⟩ ⟨hst, hw⟩
  obtain ⟨hanswer, hafter⟩ := hm s t hst
  exact ⟨hanswer, hafter, hw⟩

/-- Loops over related items go along with each other if their steps do. -/
theorem IsLoop.matches {ι ι' : Type} {I : ι → ι' → Prop} {step : ι → Attempt σ β}
    {step' : ι' → Attempt τ β'} {join : β → γ → γ} {join' : β' → γ' → γ'}
    {loop : List ι → Attempt σ γ} {loop' : List ι' → Attempt τ γ'} (h : IsLoop step join loop)
    (h' : IsLoop step' join' loop') (hnil : Matches R E C (loop []) (loop' []))
    (hstep : ∀ i i', I i i' → Matches R E B (step i) (step' i'))
    (hjoin : ∀ b b' c c', B b b' → C c c' → C (join b c) (join' b' c')) {items : List ι}
    {items' : List ι'} (hitems : List.Forall₂ I items items') :
    Matches R E C (loop items) (loop' items') := by
  induction hitems with
  | nil => exact hnil
  | cons hitem _ ih =>
    rw [h.cons, h'.cons]
    exact (hstep _ _ hitem).bind fun b b' hb => ih.answer fun c c' hc => hjoin b b' c c' hb hc

end Attempt

open Attempt

variable {σ τ : Type} {R : σ → τ → Prop} {E : Fault → Fault → Prop} {b : Backend σ}
  {b' : Backend τ}

/-- What begins and ends the transactions of the two backends goes along with each other. -/
structure Backend.EndsAlike (R : σ → τ → Prop) (E : Fault → Fault → Prop) (b : Backend σ)
    (b' : Backend τ) : Prop where
  begin (readYourWrites : Bool) : Matches R E Eq (b.begin readYourWrites) (b'.begin readYourWrites)
  commit : Matches R E Eq b.commit b'.commit
  abandon {e e' : Fault} {s : σ} {t : τ} : E e e' → R s t →
    E (b.abandon e s).1 (b'.abandon e' t).1 ∧ R (b.abandon e s).2 (b'.abandon e' t).2

namespace Backend.EndsAlike

variable {α α' ω ω' : Type} {A : α → α' → Prop} {S : ω → ω' → Prop}

theorem beside (h : EndsAlike R E b b') : EndsAlike (Pairs R S) E (b.beside ω) (b'.beside ω') where
  begin readYourWrites := (h.begin readYourWrites).onFirst
  commit := h.commit.onFirst
  abandon hE hst := ⟨(h.abandon hE hst.1).1, (h.abandon hE hst.1).2, hst.2⟩

theorem guard (h : EndsAlike R E b b') {m : Attempt σ α} {m' : Attempt τ α'}
    (hm : Matches R E A m m') : Matches R E A (b.guard m) (b'.guard m') := by
  intro s t hst
  unfold Backend.guard
  rcases hm.cases hst with ⟨e, e', s', t', hs, ht, hE, hafter⟩ | ⟨a, a', s', t', hs, ht, hA, hafter⟩
  · rw [hs, ht]
    exact ⟨.error (h.abandon hE hafter).1, (h.abandon hE hafter).2⟩
  · rw [hs, ht]
    exact ⟨.ok hA, hafter⟩

theorem run (h : EndsAlike R E b b') {m : Attempt σ α} {m' : Attempt τ α'}
    (hm : Matches R E A m m') : Matches R E A (b.run m) (b'.run m') :=
  (h.begin true).bind fun _ _ _ => (h.guard hm).bind fun _ _ hA => h.commit.answer fun _ _ _ => hA

end Backend.EndsAlike

namespace Batch

variable {O : Operation → Operation → Prop} {P : Pending → Pending → Prop}
  {F : Footprint → Footprint → Prop} {ops ops' : List Operation}

theorem dispatch_matches
    (hsend : ∀ op op', O op op' → Matches R E (Option.Rel P) (send b op) (send b' op'))
    (hops : List.Forall₂ O ops ops') :
    Matches R E (List.Forall₂ P) (dispatch b ops) (dispatch b' ops') :=
  dispatch_isLoop.matches dispatch_isLoop (matches_pure .nil) hsend
    (fun _ _ _ _ hsent hothers => by
      cases hsent with
      | none => exact hothers
      | some h => exact .cons h hothers) hops

theorem resolveAll_matches
    (hresolve : ∀ p p', P p p' → Matches (Pairs R F) E Eq (resolve b p) (resolve b' p'))
    {ps ps' : List Pending} (hps : List.Forall₂ P ps ps') :
    Matches (Pairs R F) E Eq (resolveAll b ps) (resolveAll b' ps') :=
  resolveAll_isLoop.matches resolveAll_isLoop (matches_pure rfl) hresolve
    (fun _ _ _ _ hstatus hothers => congrArg₂ List.cons hstatus hothers) hps

theorem body_matches
    (hsend : ∀ op op', O op op' → Matches R E (Option.Rel P) (send b op) (send b' op'))
    (hresolve : ∀ p p', P p p' → Matches (Pairs R F) E Eq (resolve b p) (resolve b' p'))
    (hreport : ∀ statuses f f', F f f' →
      F (f.report (.batchResults statuses)) (f'.report (.batchResults statuses)))
    (hops : List.Forall₂ O ops ops') : Matches (Pairs R F) E Eq (body b ops) (body b' ops') := by
  refine (dispatch_matches hsend hops).onFirst.bind fun ps ps' hps => ?_
  refine (resolveAll_matches hresolve hps).bind fun statuses statuses' hstatuses => ?_
  subst hstatuses
  exact (matches_changeSecond (hreport statuses)).answer fun _ _ _ => rfl

theorem execute_matches (hb : b.EndsAlike R E b')
    (hbody : Matches (Pairs R F) E Eq (body b ops) (body b' ops'))
    (hlength : ops.length = ops'.length)
    (hfailed : ∀ e e' f f', E e e' → F f f' →
      F (f.report (.batchFailed ops e)) (f'.report (.batchFailed ops' e')))
    (hobserve : ∀ status size f f', F f f' →
      F (f.observeBatch status size) (f'.observeBatch status size))
    {t : σ × Footprint} {t' : τ × Footprint} (h : Pairs R F t t') :
    (execute b ops t).1 = (execute b' ops' t').1 ∧
      Pairs R F (execute b ops t).2 (execute b' ops' t').2 := by
  have hempty : ops.isEmpty = ops'.isEmpty := by
    rw [Bool.eq_iff_iff, List.isEmpty_iff_length_eq_zero, List.isEmpty_iff_length_eq_zero, hlength]
  unfold execute
  rw [hempty]
  split
  · exact ⟨rfl, h⟩
  · rcases (hb.beside.run hbody).cases h with ⟨e, e', u, u', ht, ht', hE, hafter⟩ |
      ⟨status, _, u, u', ht, ht', rfl, hafter⟩
    · rw [ht, ht', hlength]
      exact ⟨rfl, hafter.1, hobserve _ _ _ _ (hfailed _ _ _ _ hE hafter.2)⟩
    · rw [ht, ht', hlength]
      exact ⟨rfl, hafter.1, hobserve _ _ _ _ hafter.2⟩

end Batch
end RecordStore
