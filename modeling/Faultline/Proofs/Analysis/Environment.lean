/-
# Proofs.Analysis.Environment — values that hang together

An environment gives some values of the program. It is `Consistent` when every value
it gives is one that its definition allows (`MayBe`): what the definition makes of
the operands, which the environment has to give too, or any word if the definition
says nothing.

Whatever the engines have expressed, the variables can be assigned so that every
formula has the value that a consistent environment gives (`Fine.exists_agrees`).
-/
import Faultline.Proofs.Analysis.Express

namespace Faultline.Analysis

open IR (ValueId)
open Formula (Handle)

abbrev Env := ValueId → Option Nat

namespace Env

variable {env env' : Env} {v x : ValueId} {n : Nat} {val : ValueId → Nat} {P : ValueId → Prop}

def value (env : Env) (v : ValueId) : Nat :=
  (env v).getD 0

def set (env : Env) (v : ValueId) (n : Nat) : Env :=
  Function.update env v (some n)

/-- Everything that is given stays. -/
def Within (env env' : Env) : Prop :=
  ∀ v n, env v = some n → env' v = some n

/-- The values are those that are given. -/
def Extends (val : ValueId → Nat) (env : Env) : Prop :=
  ∀ v n, env v = some n → val v = n

lemma Within.ne_none (within : Within env env') (given : env v ≠ none) : env' v ≠ none := by
  obtain ⟨n, given⟩ := Option.ne_none_iff_exists'.1 given
  rw [within v n given]
  exact Option.some_ne_none n

lemma Within.value_eq (within : Within env env') (given : env v ≠ none) : env'.value v = env.value v := by
  obtain ⟨n, given⟩ := Option.ne_none_iff_exists'.1 given
  rw [value, value, within v n given, given]

lemma Extends.of_within (extends_ : Extends val env') (within : Within env env') : Extends val env :=
  fun v n given => extends_ v n (within v n given)

lemma within_set (new : env v = none) (n : Nat) : Within env (env.set v n) := by
  intro x k given
  have other : x ≠ v := by
    rintro rfl
    rw [new] at given
    cases given
  rw [set, Function.update_of_ne other]
  exact given

lemma set_self (env : Env) (v : ValueId) (n : Nat) : env.set v n v = some n :=
  Function.update_self v _ _

lemma set_of_ne (other : x ≠ v) (n : Nat) : env.set v n x = env x :=
  Function.update_of_ne other _ _

open Classical in
noncomputable def only (env : Env) (P : ValueId → Prop) : Env :=
  fun v => if P v then env v else none

lemma only_eq (env : Env) (holds : P v) : env.only P v = env v :=
  if_pos holds

lemma only_some (given : env.only P v = some n) : P v ∧ env v = some n := by
  unfold only at given
  split at given
  · exact ⟨‹_›, given⟩
  · cases given

end Env

open Env (Within)

variable {s : Setting} {env env' : Env} {v x : ValueId} {n k w : Nat}

/-- The value that `v` may have where its operands have the given values. -/
structure MayBe (s : Setting) (env : Env) (v : ValueId) (n : Nat) : Prop where
  operands : ∀ x ∈ demands s v, env x ≠ none
  bounded : ∀ w, HasBits s v w → n < 2 ^ w
  defined : ∀ k, meaning? s env.value v = some k → n = k

/-- Every given value is one that it may be. -/
def Consistent (s : Setting) (env : Env) : Prop :=
  ∀ v n, env v = some n → MayBe s env v n

lemma MayBe.of_within (mayBe : MayBe s env v n) (within : Within env env') : MayBe s env' v n := by
  refine ⟨fun x demanded => within.ne_none (mayBe.operands x demanded), mayBe.bounded, fun k means => ?_⟩
  have same : meaning? s env'.value v = meaning? s env.value v :=
    meaning?_congr fun x demanded => within.value_eq (mayBe.operands x demanded)
  exact mayBe.defined k (same ▸ means)

lemma Consistent.set (consistent : Consistent s env) (new : env v = none) (mayBe : MayBe s env v n) :
    Consistent s (env.set v n) := by
  have within := Env.within_set new n
  intro x k given
  by_cases same : x = v
  · subst same
    rw [Env.set_self] at given
    cases given
    exact mayBe.of_within within
  · rw [Env.set_of_ne same] at given
    exact (consistent x k given).of_within within

/-! ## Assignments -/

variable {b : Bench} {h : Handle} {extra : Multiset Handle}

open Classical in
/-- Variables are assigned what is given for the values they stand for. -/
noncomputable def assignment (s : Setting) (env : Env) (b : Bench) (h : Handle) : Nat :=
  if there : ∃ v, b.formula? v = some h ∧ IsFree s v ∧ env v ≠ none then env.value there.choose else 0

lemma Fine.assignment_eq (fine : Fine s b extra) (known : b.formula? v = some h) (free : IsFree s v)
    (given : env v = some n) : assignment s env b h = n := by
  have there : ∃ v, b.formula? v = some h ∧ IsFree s v ∧ env v ≠ none := ⟨v, known, free, by simp [given]⟩
  have same : there.choose = v := fine.apart there.choose_spec.1 known there.choose_spec.2.1 free
  rw [assignment, dif_pos there, same, Env.value, given]
  rfl

lemma Fine.eval_assignment (fine : Fine s b extra) (consistent : Consistent s env) (proper : Proper s v)
    (known : b.formula? v = some h) (given : env v = some n) : b.arena.eval (assignment s env b) h = n := by
  induction proper generalizing h n with
  | @intro v w d sane operands ih =>
    have mayBe := consistent v n given
    by_cases free : IsFree s v
    · have small : n < 2 ^ bits s v := sane.bits.bits_eq ▸ mayBe.bounded w sane.bits
      rw [fine.free known free, fine.assignment_eq known free given, Nat.mod_eq_of_lt small]
    · -- the operands have their given values, so the definition says the same of both
      have same : meaning? s (b.reading (assignment s env b)) v = meaning? s env.value v := by
        refine meaning?_congr fun x demanded => ?_
        obtain ⟨g, there⟩ := fine.operands known x demanded
        obtain ⟨k, valued⟩ := Option.ne_none_iff_exists'.1 (mayBe.operands x demanded)
        rw [Bench.reading_of_known there, ih x demanded there valued, Env.value, valued]
        rfl
      have some : meaning? s env.value v ≠ none := fun none => free ((meaning?_eq_none _ _).1 none)
      obtain ⟨k, means⟩ := Option.ne_none_iff_exists'.1 some
      rw [fine.value known _ k (same.trans means), mayBe.defined k means]

lemma Fine.exists_agrees (fine : Fine s b extra) (consistent : Consistent s env) :
    ∃ assign val, b.Agrees assign val ∧ Env.Extends val env := by
  refine ⟨assignment s env b, fun v => (env v).getD (b.reading (assignment s env b) v), fun v h known => ?_,
    fun v n given => ?_⟩
  · dsimp only
    rcases given : env v with _ | n
    · exact Bench.reading_of_known known _
    · exact (fine.eval_assignment consistent (fine.proper known) known given).symm
  · dsimp only
    rw [given]
    rfl

end Faultline.Analysis
