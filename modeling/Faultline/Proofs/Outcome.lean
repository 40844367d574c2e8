/-
# Proofs.Outcome — how a computation with state and refusals ends

The builders, the engines, the instrumenter and the checker are exceptions over
state: a refusal keeps the state reached so far. `Ends s x Q E` says how `x` ends
when it is started in `s`: with a result and a state that satisfy `Q`, or refused
with a cause and a state that satisfy `E`. With `E` false it says that `x` is not
refused at all, with `E` true it says nothing about refusals.
-/
import Mathlib

namespace Faultline

variable {ε σ α β : Type}

def outcome (x : ExceptT ε (StateM σ) α) (s : σ) : Except ε α × σ :=
  x s

lemma outcome_bind (x : ExceptT ε (StateM σ) α) (k : α → ExceptT ε (StateM σ) β) (s : σ) :
    outcome (x >>= k) s = match outcome x s with
      | (.ok r, t) => outcome (k r) t
      | (.error e, t) => (.error e, t) := by
  unfold outcome
  show (ExceptT.bind x k) s = _
  unfold ExceptT.bind ExceptT.mk
  show (StateT.bind x _) s = _
  unfold StateT.bind
  show (match x s with | (r, t) => (ExceptT.bindCont k r) t) = _
  rcases x s with ⟨r, t⟩
  cases r <;> rfl

@[simp] lemma outcome_pure (r : α) (s : σ) :
    outcome (pure r : ExceptT ε (StateM σ) α) s = (.ok r, s) := rfl

@[simp] lemma outcome_throw (e : ε) (s : σ) :
    outcome (throw e : ExceptT ε (StateM σ) α) s = (.error e, s) := rfl

@[simp] lemma outcome_get (s : σ) : outcome (get : ExceptT ε (StateM σ) σ) s = (.ok s, s) := rfl

@[simp] lemma outcome_modify (f : σ → σ) (s : σ) :
    outcome (modify f : ExceptT ε (StateM σ) Unit) s = (.ok (), f s) := rfl

lemma bind_ok {x : ExceptT ε (StateM σ) α} {k : α → ExceptT ε (StateM σ) β} {s t : σ} {r : β} :
    outcome (x >>= k) s = (.ok r, t) ↔
      ∃ q u, outcome x s = (.ok q, u) ∧ outcome (k q) u = (.ok r, t) := by
  rw [outcome_bind]
  rcases outcome x s with ⟨_ | q, u⟩
  · simp
  · simp

/-- `x`, started in `s`, ends with `Q`, or is refused with `E`. -/
def Ends (s : σ) (x : ExceptT ε (StateM σ) α) (Q : α → σ → Prop) (E : ε → σ → Prop) : Prop :=
  match outcome x s with
  | (.ok r, t) => Q r t
  | (.error e, t) => E e t

namespace Ends

variable {s t : σ} {x : ExceptT ε (StateM σ) α} {k : α → ExceptT ε (StateM σ) β}
  {Q Q' : α → σ → Prop} {R : β → σ → Prop} {E E' : ε → σ → Prop}

lemma ok {r : α} (ends : Ends s x Q E) (run : outcome x s = (.ok r, t)) : Q r t := by
  unfold Ends at ends
  rw [run] at ends
  exact ends

lemma of_ok {r : α} (run : outcome x s = (.ok r, t)) (holds : Q r t) : Ends s x Q E := by
  unfold Ends
  rw [run]
  exact holds

lemma of_error {e : ε} (run : outcome x s = (.error e, t)) (holds : E e t) : Ends s x Q E := by
  unfold Ends
  rw [run]
  exact holds

lemma iff_forall : Ends s x Q E ↔
    (∀ r t, outcome x s = (.ok r, t) → Q r t) ∧ ∀ e t, outcome x s = (.error e, t) → E e t := by
  unfold Ends
  rcases outcome x s with ⟨e | r, t⟩
  · simp
  · simp

lemma exists_ok (ends : Ends s x Q fun _ _ => False) :
    ∃ r t, outcome x s = (.ok r, t) ∧ Q r t := by
  unfold Ends at ends
  rcases run : outcome x s with ⟨e | r, t⟩
  · rw [run] at ends
    exact ends.elim
  · rw [run] at ends
    exact ⟨r, t, rfl, ends⟩

lemma exists_error (ends : Ends s x (fun _ _ => False) E) : ∃ e t, outcome x s = (.error e, t) := by
  rcases run : outcome x s with ⟨e | r, t⟩
  · exact ⟨e, t, rfl⟩
  · exact (ends.ok run).elim

lemma mono (ends : Ends s x Q E) (result : ∀ r t, Q r t → Q' r t) (refusal : ∀ e t, E e t → E' e t) :
    Ends s x Q' E' := by
  rw [iff_forall] at ends ⊢
  exact ⟨fun r t run => result r t (ends.1 r t run), fun e t run => refusal e t (ends.2 e t run)⟩

lemma imp (ends : Ends s x Q E) (result : ∀ r t, Q r t → Q' r t) : Ends s x Q' E :=
  ends.mono result fun _ _ h => h

lemma blame (ends : Ends s x Q E) (refusal : ∀ e t, E e t → E' e t) : Ends s x Q E' :=
  ends.mono (fun _ _ h => h) refusal

lemma granted (ends : Ends s x Q fun _ _ => False) : Ends s x Q E :=
  ends.blame fun _ _ h => h.elim

lemma and (ends : Ends s x Q E) (ends' : Ends s x Q' E') :
    Ends s x (fun r t => Q r t ∧ Q' r t) (fun e t => E e t ∧ E' e t) := by
  rw [iff_forall] at ends ends' ⊢
  exact ⟨fun r t run => ⟨ends.1 r t run, ends'.1 r t run⟩,
    fun e t run => ⟨ends.2 e t run, ends'.2 e t run⟩⟩

lemma bind (first : Ends s x Q E) (next : ∀ r t, Q r t → Ends t (k r) R E) :
    Ends s (x >>= k) R E := by
  unfold Ends
  rw [outcome_bind]
  rcases run : outcome x s with ⟨e | r, t⟩
  · exact (iff_forall.1 first).2 e t run
  · exact next r t (first.ok run)

lemma pure {r : α} (holds : Q r s) : Ends s (Pure.pure r : ExceptT ε (StateM σ) α) Q E := holds

lemma throw {e : ε} (holds : E e s) :
    Ends s (MonadExcept.throw e : ExceptT ε (StateM σ) α) Q E := holds

lemma get_bind {k : σ → ExceptT ε (StateM σ) β} (next : Ends s (k s) R E) :
    Ends s (get >>= k) R E :=
  bind (Q := fun r t => r = s ∧ t = s) ⟨rfl, rfl⟩ (by rintro r t ⟨rfl, rfl⟩; exact next)

lemma modify_bind {f : σ → σ} {k : Unit → ExceptT ε (StateM σ) β} (next : Ends (f s) (k ()) R E) :
    Ends s (modify f >>= k) R E :=
  bind (Q := fun _ t => t = f s) rfl (by rintro r t rfl; exact next)

end Ends

end Faultline
