/-
# Proofs.Abreast — two computations side by side

`Abreast s s' x x' Q` follows `x` from `s` and `x'` from `s'` at once: both return,
and then `Q` relates their results and the states reached, or both are refused. Why
they are refused, and where that leaves them, does not matter.

`Alongside` is the same of results without state.
-/
import Faultline.Proofs.Outcome

namespace Faultline

open List

variable {ε ε' σ σ' α α' β β' : Type} {γ γ' : Type}

lemma exists_of_forall₂ {Q : α → α' → Prop} {xs : List α} {xs' : List α'} (pairs : Forall₂ Q xs xs') {x : α}
    (mem : x ∈ xs) : ∃ x' ∈ xs', Q x x' := by
  induction pairs with
  | nil => cases mem
  | cons here _ ih =>
    obtain rfl | mem := mem_cons.1 mem
    · exact ⟨_, mem_cons_self, here⟩
    · obtain ⟨x', mem', holds⟩ := ih mem
      exact ⟨x', mem_cons_of_mem _ mem', holds⟩

/-! ## Results -/

/-- Both are results that `Q` relates, or neither is a result. -/
def Alongside (Q : α → α' → Prop) : Except ε α → Except ε' α' → Prop
  | .ok r, .ok r' => Q r r'
  | .error _, .error _ => True
  | _, _ => False

namespace Alongside

variable {Q Q' : α → α' → Prop} {R : β → β' → Prop} {x : Except ε α} {x' : Except ε' α'}

lemma mono (both : Alongside Q x x') (imp : ∀ r r', Q r r' → Q' r r') : Alongside Q' x x' := by
  rcases x with e | r <;> rcases x' with e' | r'
  · trivial
  · exact both
  · exact both
  · exact imp r r' both

lemma bind {k : α → Except ε β} {k' : α' → Except ε' β'} (first : Alongside Q x x')
    (next : ∀ r r', Q r r' → Alongside R (k r) (k' r')) : Alongside R (x >>= k) (x' >>= k') := by
  rcases x with e | r <;> rcases x' with e' | r'
  · trivial
  · exact first.elim
  · exact first.elim
  · exact next r r' first

lemma mapM {P : γ → γ' → Prop} {f : γ → Except ε α} {f' : γ' → Except ε' α'}
    (each : ∀ x x', P x x' → Alongside Q (f x) (f' x')) {xs : List γ} {xs' : List γ'} (pairs : Forall₂ P xs xs') :
    Alongside (Forall₂ Q) (xs.mapM f) (xs'.mapM f') := by
  induction pairs with
  | nil => exact Forall₂.nil
  | cons here _ ih =>
    rw [mapM_cons, mapM_cons]
    exact (each _ _ here).bind fun r r' first => ih.bind fun rs rs' rest => Forall₂.cons first rest

lemma foldlM {P : γ → γ' → Prop} {f : α → γ → Except ε α} {f' : α' → γ' → Except ε' α'}
    (step : ∀ r r' x x', Q r r' → P x x' → Alongside Q (f r x) (f' r' x')) {xs : List γ} {xs' : List γ'}
    (pairs : Forall₂ P xs xs') {r : α} {r' : α'} (start : Q r r') :
    Alongside Q (xs.foldlM f r) (xs'.foldlM f' r') := by
  induction pairs generalizing r r' with
  | nil => exact start
  | cons here _ ih =>
    rw [foldlM_cons, foldlM_cons]
    exact (step r r' _ _ start here).bind fun r r' next => ih next

end Alongside

/-! ## Computations -/

/-- `x` from `s` and `x'` from `s'` both return, with `Q`, or are both refused. -/
def Abreast (s : σ) (s' : σ') (x : ExceptT ε (StateM σ) α) (x' : ExceptT ε' (StateM σ') α')
    (Q : α → σ → α' → σ' → Prop) : Prop :=
  match outcome x s, outcome x' s' with
  | (.ok r, t), (.ok r', t') => Q r t r' t'
  | (.error _, _), (.error _, _) => True
  | _, _ => False

namespace Abreast

variable {s t : σ} {s' t' : σ'} {x : ExceptT ε (StateM σ) α} {x' : ExceptT ε' (StateM σ') α'}
  {k : α → ExceptT ε (StateM σ) β} {k' : α' → ExceptT ε' (StateM σ') β'}
  {Q Q' : α → σ → α' → σ' → Prop} {R : β → σ → β' → σ' → Prop}

lemma of_ok {r : α} {r' : α'} (run : outcome x s = (.ok r, t)) (run' : outcome x' s' = (.ok r', t'))
    (holds : Q r t r' t') : Abreast s s' x x' Q := by
  unfold Abreast
  rw [run, run']
  exact holds

lemma of_error {e : ε} {e' : ε'} (run : outcome x s = (.error e, t)) (run' : outcome x' s' = (.error e', t')) :
    Abreast s s' x x' Q := by
  unfold Abreast
  rw [run, run']
  trivial

/-- How two computations can end side by side. -/
lemma cases (both : Abreast s s' x x' Q) :
    (∃ r t r' t', outcome x s = (.ok r, t) ∧ outcome x' s' = (.ok r', t') ∧ Q r t r' t') ∨
      ∃ e t e' t', outcome x s = (.error e, t) ∧ outcome x' s' = (.error e', t') := by
  unfold Abreast at both
  rcases run : outcome x s with ⟨e | r, t⟩ <;> rcases run' : outcome x' s' with ⟨e' | r', t'⟩
  all_goals rw [run, run'] at both
  · exact .inr ⟨e, t, e', t', rfl, rfl⟩
  · exact both.elim
  · exact both.elim
  · exact .inl ⟨r, t, r', t', rfl, rfl, both⟩

lemma mono (both : Abreast s s' x x' Q) (imp : ∀ r t r' t', Q r t r' t' → Q' r t r' t') : Abreast s s' x x' Q' := by
  obtain ⟨r, t, r', t', run, run', holds⟩ | ⟨e, t, e', t', run, run'⟩ := both.cases
  · exact of_ok run run' (imp r t r' t' holds)
  · exact of_error run run'

lemma bind (first : Abreast s s' x x' Q) (next : ∀ r t r' t', Q r t r' t' → Abreast t t' (k r) (k' r') R) :
    Abreast s s' (x >>= k) (x' >>= k') R := by
  unfold Abreast
  rw [outcome_bind, outcome_bind]
  obtain ⟨r, t, r', t', run, run', holds⟩ | ⟨e, t, e', t', run, run'⟩ := first.cases
  · rw [run, run']
    exact next r t r' t' holds
  · rw [run, run']
    trivial

lemma pure {r : α} {r' : α'} (holds : Q r s r' s') :
    Abreast s s' (Pure.pure r : ExceptT ε (StateM σ) α) (Pure.pure r' : ExceptT ε' (StateM σ') α') Q := holds

lemma throw {e : ε} {e' : ε'} :
    Abreast s s' (MonadExcept.throw e : ExceptT ε (StateM σ) α) (MonadExcept.throw e' : ExceptT ε' (StateM σ') α') Q :=
  trivial

lemma get_bind {k : σ → ExceptT ε (StateM σ) β} {k' : σ' → ExceptT ε' (StateM σ') β'}
    (next : Abreast s s' (k s) (k' s') R) : Abreast s s' (get >>= k) (get >>= k') R :=
  bind (Q := fun r t r' t' => r = s ∧ t = s ∧ r' = s' ∧ t' = s') ⟨rfl, rfl, rfl, rfl⟩
    (by rintro r t r' t' ⟨rfl, rfl, rfl, rfl⟩; exact next)

lemma modify_bind {f : σ → σ} {f' : σ' → σ'} {k : Unit → ExceptT ε (StateM σ) β}
    {k' : Unit → ExceptT ε' (StateM σ') β'} (next : Abreast (f s) (f' s') (k ()) (k' ()) R) :
    Abreast s s' (modify f >>= k) (modify f' >>= k') R :=
  bind (Q := fun _ t _ t' => t = f s ∧ t' = f' s') ⟨rfl, rfl⟩ (by rintro r t r' t' ⟨rfl, rfl⟩; exact next)

lemma and_ends {P : α → σ → Prop} {P' : α' → σ' → Prop} {E : ε → σ → Prop} {E' : ε' → σ' → Prop}
    (both : Abreast s s' x x' Q) (left : Ends s x P E) (right : Ends s' x' P' E') :
    Abreast s s' x x' fun r t r' t' => Q r t r' t' ∧ P r t ∧ P' r' t' := by
  obtain ⟨r, t, r', t', run, run', holds⟩ | ⟨e, t, e', t', run, run'⟩ := both.cases
  · exact of_ok run run' ⟨holds, left.ok run, right.ok run'⟩
  · exact of_error run run'

lemma of_ends {P : α → σ → Prop} {P' : α' → σ' → Prop} (left : Ends s x P fun _ _ => False)
    (right : Ends s' x' P' fun _ _ => False) : Abreast s s' x x' fun r t r' t' => P r t ∧ P' r' t' := by
  obtain ⟨r, t, run, holds⟩ := left.exists_ok
  obtain ⟨r', t', run', holds'⟩ := right.exists_ok
  exact of_ok run run' ⟨holds, holds'⟩

lemma lift {e : Except ε α} {e' : Except ε' α'} {P : α → α' → Prop} (both : Alongside P e e') :
    Abreast s s' (liftM e : ExceptT ε (StateM σ) α) (liftM e' : ExceptT ε' (StateM σ') α')
      fun r t r' t' => t = s ∧ t' = s' ∧ P r r' := by
  rcases e with e | r <;> rcases e' with e' | r'
  · exact trivial
  · exact both
  · exact both
  · exact ⟨rfl, rfl, both⟩

end Abreast

end Faultline
