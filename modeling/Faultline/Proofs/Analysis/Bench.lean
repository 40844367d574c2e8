/-
# Proofs.Analysis.Bench — how the engines change their bench

`Does D s x Q` follows a computation under a discipline `D`, a relation between the
state it starts in and every state it can stop in, refused or not. A bench grows
when its arena does and no formula it knows is replaced (`Bench.Grows`). Values of
the program agree with an assignment of the variables (`Bench.Agrees`) if they are
what the known formulas evaluate to; what a one-bit formula says of them
(`Bench.Tells`) is kept when the bench grows.
-/
import Faultline.Analysis.Basic
import Faultline.Proofs.Formula.Requests

namespace Faultline

open IR (ValueId)
open Formula (Arena Build Handle)

/-! ## Disciplines -/

section Does

variable {ε σ α β : Type}

structure Discipline (D : σ → σ → Prop) : Prop where
  again : ∀ {s t}, D s t → D t t
  trans : ∀ {s t u}, D s t → D t u → D s u

/-- `x`, started in `s`, keeps to `D`, and a result satisfies `Q`. -/
def Does (D : σ → σ → Prop) (s : σ) (x : ExceptT ε (StateM σ) α) (Q : α → σ → Prop) : Prop :=
  Ends s x (fun r t => D s t ∧ Q r t) (fun _ t => D s t)

namespace Does

variable {D D' : σ → σ → Prop} {s : σ} {x : ExceptT ε (StateM σ) α}
  {k : α → ExceptT ε (StateM σ) β} {Q Q' : α → σ → Prop} {R : β → σ → Prop}

lemma bind (discipline : Discipline D) (first : Does D s x Q)
    (next : ∀ r t, D s t → D t t → Q r t → Does D t (k r) R) : Does D s (x >>= k) R := by
  refine Ends.bind first fun r t ⟨kept, holds⟩ => ?_
  exact (next r t kept (discipline.again kept) holds).mono (fun _ _ h => ⟨discipline.trans kept h.1, h.2⟩)
    fun _ _ h => discipline.trans kept h

lemma pure {r : α} (refl : D s s) (holds : Q r s) :
    Does D s (Pure.pure r : ExceptT ε (StateM σ) α) Q :=
  Ends.pure ⟨refl, holds⟩

lemma throw {e : ε} (refl : D s s) : Does D s (MonadExcept.throw e : ExceptT ε (StateM σ) α) Q :=
  Ends.throw refl

lemma mono (does : Does D s x Q) (weaker : ∀ t, D s t → D' s t)
    (result : ∀ r t, D s t → Q r t → Q' r t) : Does D' s x Q' :=
  Ends.mono does (fun r t h => ⟨weaker t h.1, result r t h.1 h.2⟩) fun _ t h => weaker t h

end Does

end Does

/-! ## Builders at work on a bench -/

section Build

variable {α : Type} {x : Build α} {b : Bench}

lemma outcome_build (x : Build α) (b : Bench) :
    outcome (build x) b = ((outcome x b.arena).1, { b with arena := (outcome x b.arena).2 }) := rfl

lemma Ends.build {Q : α → Arena → Prop} {E : Fault → Arena → Prop} (ends : Ends b.arena x Q E) :
    Ends b (build x) (fun r c => c = { b with arena := c.arena } ∧ Q r c.arena)
      (fun e c => c = { b with arena := c.arena } ∧ E e c.arena) := by
  unfold Ends at ends ⊢
  rw [outcome_build]
  revert ends
  rcases outcome x b.arena with ⟨e | r, a⟩
  · exact fun h => ⟨rfl, h⟩
  · exact fun h => ⟨rfl, h⟩

end Build

/-! ## Benches that grow -/

namespace Bench

variable {b c d : Bench}

def formula? (b : Bench) (v : ValueId) : Option Handle :=
  b.values.bind (List.lookup v)

def enter (b : Bench) (v : ValueId) (f : Handle) : Bench :=
  { b with values := b.values.map ((v, f) :: ·) }

lemma formula?_enter {known : List (ValueId × Handle)} (open_ : b.values = some known)
    (v x : ValueId) (f : Handle) :
    (b.enter v f).formula? x = if x = v then some f else b.formula? x := by
  rw [formula?, formula?, enter, open_]
  show List.lookup x ((v, f) :: known) = _
  rw [List.lookup_cons]
  by_cases same : x = v
  · simp [same]
  · rw [if_neg same, beq_eq_false_iff_ne.2 same]
    rfl

structure Grows (b c : Bench) : Prop where
  arena : b.arena.Grows c.arena
  formula : ∀ {v h}, b.formula? v = some h → c.formula? v = some h

lemma Grows.refl (b : Bench) : b.Grows b :=
  ⟨Arena.Grows.refl _, id⟩

lemma Grows.trans (first : b.Grows c) (second : c.Grows d) : b.Grows d :=
  ⟨first.arena.trans second.arena, second.formula ∘ first.formula⟩

lemma grows_enter {known : List (ValueId × Handle)} {v : ValueId} {f : Handle} (open_ : b.values = some known)
    (unknown : b.formula? v = none) : b.Grows (b.enter v f) := by
  refine ⟨.refl _, fun {x h} found => ?_⟩
  rw [formula?_enter open_, if_neg fun same => by rw [same, unknown] at found; cases found]
  exact found

/-- The values of the program are those of the formulas the bench knows. -/
def Agrees (b : Bench) (assign : Handle → Nat) (val : ValueId → Nat) : Prop :=
  ∀ v h, b.formula? v = some h → val v = b.arena.eval assign h

/-- The values of the formulas the bench knows. -/
def reading (b : Bench) (assign : Handle → Nat) (v : ValueId) : Nat :=
  ((b.formula? v).map (b.arena.eval assign)).getD 0

lemma agrees_reading (b : Bench) (assign : Handle → Nat) : b.Agrees assign (b.reading assign) := by
  intro v h known
  rw [reading, known]
  rfl

/-- Every formula the bench knows is in its arena. -/
structure Kept (b : Bench) : Prop where
  wellFormed : b.arena.WellFormed
  node : ∀ {v h}, b.formula? v = some h → ∃ n, b.arena.node? h = some n

lemma Agrees.of_grows {assign : Handle → Nat} {val : ValueId → Nat} (kept : b.Kept)
    (grows : b.Grows c) (agrees : c.Agrees assign val) : b.Agrees assign val := by
  intro v h known
  obtain ⟨n, found⟩ := kept.node known
  rw [agrees v h (grows.formula known), Arena.eval_of_grows kept.wellFormed.toWellTyped grows.arena found]

/-- The one-bit formula `f` is true exactly if `P` holds of the values of the program. -/
structure Tells (b : Bench) (f : Handle) (P : (ValueId → Nat) → Prop) : Prop where
  node : ∃ n, b.arena.node? f = some n
  width : b.arena.widthOf f = 1
  value : ∀ assign val, b.Agrees assign val → (b.arena.eval assign f = 1 ↔ P val)

lemma Tells.of_grows {f : Handle} {P : (ValueId → Nat) → Prop} (tells : b.Tells f P) (kept : b.Kept)
    (grows : b.Grows c) : c.Tells f P := by
  obtain ⟨n, found⟩ := tells.node
  refine ⟨⟨n, grows.arena.node found⟩, (grows.arena.widthOf found).trans tells.width, fun assign val agrees => ?_⟩
  rw [Arena.eval_of_grows kept.wellFormed.toWellTyped grows.arena found]
  exact tells.value assign val (agrees.of_grows kept grows)

/-- The formula tells if it has one bit. -/
structure MayTell (b : Bench) (f : Handle) (P : (ValueId → Nat) → Prop) : Prop where
  node : ∃ n, b.arena.node? f = some n
  tells : b.arena.widthOf f = 1 → b.Tells f P

lemma MayTell.of_grows {f : Handle} {P : (ValueId → Nat) → Prop} (may : b.MayTell f P) (kept : b.Kept)
    (grows : b.Grows c) : c.MayTell f P := by
  obtain ⟨n, found⟩ := may.node
  refine ⟨⟨n, grows.arena.node found⟩, fun one => ?_⟩
  exact (may.tells ((grows.arena.widthOf found).symm.trans one)).of_grows kept grows

lemma Tells.may {f : Handle} {P : (ValueId → Nat) → Prop} (tells : b.Tells f P) : b.MayTell f P :=
  ⟨tells.node, fun _ => tells⟩

lemma Tells.congr {f : Handle} {P Q : (ValueId → Nat) → Prop} (tells : b.Tells f P)
    (same : ∀ val, P val ↔ Q val) : b.Tells f Q :=
  ⟨tells.node, tells.width, fun assign val agrees => (tells.value assign val agrees).trans (same val)⟩

lemma MayTell.congr {f : Handle} {P Q : (ValueId → Nat) → Prop} (may : b.MayTell f P)
    (same : ∀ val, P val ↔ Q val) : b.MayTell f Q :=
  ⟨may.node, fun one => (may.tells one).congr same⟩

/-- The formula has `w` bits and stands for a word that is made of the values of the program. -/
structure Means (b : Bench) (f : Handle) {w : Nat} (value : (ValueId → Nat) → BitVec w) : Prop where
  node : ∃ n, b.arena.node? f = some n
  width : b.arena.widthOf f = w
  value : ∀ assign val, b.Agrees assign val → b.arena.eval assign f = (value val).toNat

section Means

variable {f : Handle} {v w : Nat} {value value' : (ValueId → Nat) → BitVec w}

lemma Means.of_grows (means : b.Means f value) (kept : b.Kept) (grows : b.Grows c) : c.Means f value := by
  obtain ⟨n, found⟩ := means.node
  refine ⟨⟨n, grows.arena.node found⟩, (grows.arena.widthOf found).trans means.width, fun assign val agrees => ?_⟩
  rw [Arena.eval_of_grows kept.wellFormed.toWellTyped grows.arena found]
  exact means.value assign val (agrees.of_grows kept grows)

lemma Means.retype {value' : (ValueId → Nat) → BitVec v} (means : b.Means f value) (width : w = v)
    (same : ∀ val, (value val).toNat = (value' val).toNat) : b.Means f value' :=
  ⟨means.node, means.width.trans width, fun assign val agrees => (means.value assign val agrees).trans (same val)⟩

lemma Means.word {assign : Handle → Nat} {val : ValueId → Nat} (means : b.Means f value)
    (agrees : b.Agrees assign val) : BitVec.ofNat w (b.arena.eval assign f) = value val := by
  rw [means.value assign val agrees, BitVec.ofNat_toNat, BitVec.setWidth_eq]

end Means

/-! ## What the engines own -/

def cached (b : Bench) : List Handle :=
  (b.values.getD []).map Prod.snd

def IsCached (b : Bench) (f : Handle) : Prop :=
  f ∈ b.cached

def reached (b : Bench) : List Handle :=
  (b.paths.getD #[]).toList.filter (· ≠ 0)

def pathOf (b : Bench) (i : Nat) : Handle :=
  (b.paths.getD #[]).getD i 0

/-- The references of the engines. -/
def owned (b : Bench) : Multiset Handle :=
  ↑b.cached + ↑b.reached

lemma mem_cached {v : ValueId} {h : Handle} (known : b.formula? v = some h) : b.IsCached h := by
  unfold formula? at known
  unfold IsCached cached
  rcases values : b.values with _ | entries
  · rw [values] at known
    cases known
  · rw [values] at known
    show h ∈ entries.map Prod.snd
    replace known : entries.lookup v = some h := known
    obtain ⟨before, after, rfl, -⟩ := List.lookup_eq_some_iff.1 known
    simp

lemma owned_enter {v : ValueId} {f : Handle} {known : List (ValueId × Handle)}
    (open_ : b.values = some known) : (b.enter v f).owned = f ::ₘ b.owned := by
  unfold owned cached enter
  rw [open_]
  show ↑(f :: known.map Prod.snd) + _ = f ::ₘ (↑(known.map Prod.snd) + _)
  rw [← Multiset.cons_coe, Multiset.cons_add]
  rfl

end Bench

end Faultline
