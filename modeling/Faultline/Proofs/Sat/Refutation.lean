/-
# Proofs.Sat.Refutation — what is refuted cannot hold

The clauses of a circuit hold under the values of its gates whenever the root does
(`Cnf.ofCircuit_holds`). A checked trace derives each of its clauses from the ones
before (`checkStep_sound`), so no valuation satisfies a problem that a trace refutes
(`Trace.check_sound`). The stamps of earlier steps are smaller, so they are
forgotten without being erased (`Stamped`).
-/
import Faultline.Proofs.Circuit.Gate
import Faultline.Sat.Trace

namespace Faultline.Sat

open Circuit (Lit Gate)
open List Array

variable {c : Circuit} {assign : Nat → Bool} {cnf : Cnf} {l : Lit} {k n : Nat} {s : Step} {ls : List Lit}

/-! ## Clauses of a circuit -/

@[simp] lemma holds_not (assign : Nat → Bool) (l : Lit) : holds assign l.not = !holds assign l := by
  rw [holds, holds, Lit.gate_not, Lit.flipped_not]
  cases assign l.gate <;> cases l.flipped <;> rfl

def gateValues (c : Circuit) (assign : Nat → Bool) (p : Nat) : Bool :=
  c.eval assign (.pos p)

lemma holds_gateValues (l : Lit) : holds (gateValues c assign) l = c.eval assign l := by
  simp only [holds, gateValues, Circuit.eval, Lit.gate_pos, Lit.flipped_pos, Bool.bne_false]

lemma Clause.holds_iff {clause : Clause} :
    clause.holds assign = true ↔ ∃ l ∈ clause, Sat.holds assign l = true := by
  simp [Clause.holds]

lemma gateClauses_holds (ordered : c.Ordered) {g : Gate} (found : c.gates[n]? = some g) {clause : Clause}
    (mem : clause ∈ gateClauses n g) : clause.holds (gateValues c assign) = true := by
  have value : c.eval assign (.pos n) = g.meaning (assign n) (c.eval assign) := Circuit.eval_pos ordered found
  cases g with
  | yes =>
    obtain rfl : clause = [.pos n] := by simpa [gateClauses] using mem
    simpa [Clause.holds, holds_gateValues, Gate.meaning] using value
  | input => simp [gateClauses] at mem
  | and a b =>
    simp only [Gate.meaning] at value
    simp only [gateClauses, mem_cons, not_mem_nil, or_false] at mem
    rcases mem with rfl | rfl | rfl
    all_goals
      simp only [Clause.holds, any_cons, any_nil, Bool.or_false, holds_not, holds_gateValues, value]
      cases c.eval assign a <;> cases c.eval assign b <;> rfl

lemma coneFrom_holds (ordered : c.Ordered) (inside : n ≤ c.gates.size) {marks : Array Bool}
    (start : ∀ clause ∈ cnf, Clause.holds (gateValues c assign) clause = true) :
    ∀ clause ∈ coneFrom c n marks cnf, Clause.holds (gateValues c assign) clause = true := by
  induction n generalizing marks cnf with
  | zero => exact start
  | succ n ih =>
    have found : c.gates[n]? = some (c.gates.getD n .input) := by
      rw [getD_eq_getD_getElem?, Array.getElem?_eq_getElem (by omega)]
      rfl
    have added : ∀ clause ∈ (gateClauses n (c.gates.getD n .input)).foldl push cnf,
        Clause.holds (gateValues c assign) clause = true := by
      intro clause mem
      rw [foldl_push_eq_append', Array.mem_append] at mem
      rcases mem with mem | mem
      · exact start clause mem
      · exact gateClauses_holds ordered found (by simpa using mem)
    unfold coneFrom
    split
    · split
      · rename_i a b gate
        rw [gate] at added
        exact ih (by omega) added
      · exact ih (by omega) added
    · exact ih (by omega) start

lemma Cnf.ofCircuit_holds (ordered : c.Ordered) {root : Lit} (true_ : c.eval assign root = true) :
    ∀ clause ∈ Cnf.ofCircuit c root, Clause.holds (gateValues c assign) clause = true := by
  refine coneFrom_holds ordered (le_refl _) fun clause mem => ?_
  obtain rfl : clause = [root] := by simpa using mem
  simpa [Clause.holds, holds_gateValues] using true_

/-! ## Stamps -/

lemma Stamps.known_iff {stamps : Stamps} :
    stamps.known k l = true ↔ stamps.getD l.code 0 = k ∨ stamps.getD l.code 0 = forGood := by
  simp [Stamps.known]

structure Stamped (assign : Nat → Bool) (k : Nat) (stamps : Stamps) : Prop where
  le : ∀ code, stamps.getD code 0 ≤ k
  forGood : ∀ l : Lit, stamps.getD l.code 0 = forGood → holds assign l = true

/-- Everything known in step `k` holds. -/
def Knows (assign : Nat → Bool) (k : Nat) (stamps : Stamps) : Prop :=
  ∀ l, stamps.known k l = true → holds assign l = true

lemma getD_set (stamps : Stamps) (l : Lit) (k code : Nat) :
    (stamps.setIfInBounds l.code k).getD code 0 = stamps.getD code 0 ∨
      code = l.code ∧ (stamps.setIfInBounds l.code k).getD code 0 = k := by
  simp only [getD_eq_getD_getElem?, getElem?_setIfInBounds]
  by_cases same : l.code = code
  · by_cases inside : l.code < stamps.size
    · exact .inr ⟨same.symm, by simp [same, same ▸ inside]⟩
    · exact .inl (by simp [same, same ▸ inside])
  · exact .inl (by simp [same])

lemma Stamped.learn {stamps : Stamps} {j : Nat} (stamped : Stamped assign k stamps) (le : j ≤ k)
    (good : j = Sat.forGood → holds assign l = true) : Stamped assign k (stamps.learn j l) := by
  unfold Stamps.learn
  split
  · exact stamped
  · refine ⟨fun code => ?_, fun l' stamp => ?_⟩
    · rcases getD_set stamps l j code with same | ⟨-, new⟩
      · exact same.trans_le (stamped.le code)
      · exact new.trans_le le
    · rcases getD_set stamps l j l'.code with same | ⟨here, new⟩
      · exact stamped.forGood l' (same ▸ stamp)
      · obtain rfl : l' = l := by cases l; cases l'; simpa using here
        exact good (new.symm.trans stamp)

lemma Knows.learn {stamps : Stamps} (knows : Knows assign k stamps) (true_ : holds assign l = true) :
    Knows assign k (stamps.learn k l) := by
  unfold Stamps.learn
  split
  · exact knows
  · intro l' known
    rcases getD_set stamps l k l'.code with same | ⟨here, -⟩
    · rw [Stamps.known_iff, same] at known
      exact knows l' (Stamps.known_iff.2 known)
    · obtain rfl : l' = l := by cases l; cases l'; simpa using here
      exact true_

/-- At the start of a step only what is known for good is known. -/
lemma Stamped.knows {stamps : Stamps} (stamped : Stamped assign k stamps) : Knows assign (k + 1) stamps := by
  intro l known
  rcases Stamps.known_iff.1 known with young | good
  · exact absurd (stamped.le l.code) (by omega)
  · exact stamped.forGood l good

/-! ## One step -/

lemma reduce_sound {stamps : Stamps} (knows : Knows assign k stamps) {clause : Clause}
    (true_ : clause.holds assign = true) :
    reduce stamps k clause ≠ .conflict ∧ ∀ l, reduce stamps k clause = .unit l → holds assign l = true := by
  have false_ {l : Lit} (known : stamps.known k l.not = true) : holds assign l = false := by
    simpa using knows l.not known
  induction clause with
  | nil => simp [Clause.holds] at true_
  | cons l clause ih =>
    unfold reduce
    split
    · rename_i known
      refine ih ?_
      rw [Clause.holds, any_cons, false_ known, Bool.false_or] at true_
      exact true_
    · split
      · rename_i rest
        refine ⟨nofun, fun l' same => ?_⟩
        obtain rfl : l = l' := by simpa using same
        obtain ⟨l', mem, holds'⟩ := Clause.holds_iff.1 true_
        rcases mem_cons.1 mem with rfl | mem
        · exact holds'
        · have known := List.all_eq_true.1 rest l' mem
          simp only [Bool.or_eq_true, decide_eq_true_eq] at known
          rcases known with rfl | known
          · exact holds'
          · exact absurd (holds'.symm.trans (false_ known)) (by decide)
      · exact ⟨nofun, nofun⟩

/-- Hints that hold never become empty while what is known holds. -/
lemma follow_sound (true_ : ∀ clause ∈ cnf, Clause.holds assign clause = true) {hints : List Nat}
    {stamps : Stamps} (knows : Knows assign k stamps) : (follow cnf k hints stamps).1 = false := by
  induction hints generalizing stamps with
  | nil => rfl
  | cons h hints ih =>
    unfold follow
    split
    · rfl
    · rename_i clause found
      obtain ⟨noConflict, unit⟩ := reduce_sound knows (true_ clause (Array.mem_of_getElem? found))
      split
      · exact absurd ‹_› noConflict
      · exact ih (knows.learn (unit _ ‹_›))
      · rfl

lemma follow_stamped {hints : List Nat} {stamps : Stamps} (young : Sat.forGood < k)
    (stamped : Stamped assign k stamps) : Stamped assign k (follow cnf k hints stamps).2 := by
  induction hints generalizing stamps with
  | nil => exact stamped
  | cons h hints ih =>
    unfold follow
    split
    · exact stamped
    · split
      · exact stamped
      · exact ih (stamped.learn (le_refl k) fun same => absurd same young.ne')
      · exact stamped

lemma learnAll_stamped {stamps : Stamps} (young : Sat.forGood < k)
    (stamped : Stamped assign k stamps) : Stamped assign k (learnAll stamps k ls) := by
  induction ls generalizing stamps with
  | nil => exact stamped
  | cons l ls ih => exact ih (stamped.learn (le_refl k) fun same => absurd same young.ne')

lemma learnAll_knows {stamps : Stamps} (knows : Knows assign k stamps)
    (true_ : ∀ l ∈ ls, holds assign l = true) : Knows assign k (learnAll stamps k ls) := by
  induction ls generalizing stamps with
  | nil => exact knows
  | cons l ls ih =>
    exact ih (knows.learn (true_ l mem_cons_self)) fun l' mem => true_ l' (mem_cons_of_mem l mem)

/-- A clause that is checked holds where the clauses before it do: were it false, its hints would
end in a clause that is false as well. -/
lemma checkStep_sound (true_ : ∀ clause ∈ cnf, Clause.holds assign clause = true) {stamps : Stamps}
    (stamped : Stamped assign k stamps) (checked : (checkStep cnf stamps (k + 1) s).1 = true) :
    s.clause.holds assign = true := by
  by_contra failed
  have opposite : ∀ l ∈ s.clause.map Lit.not, holds assign l = true := by
    intro l mem
    obtain ⟨l, there, rfl⟩ := List.mem_map.1 mem
    rw [holds_not, Bool.not_eq_true', ← Bool.not_eq_true]
    exact fun here => failed (Clause.holds_iff.2 ⟨l, there, here⟩)
  rw [checkStep, follow_sound true_ (learnAll_knows stamped.knows opposite)] at checked
  exact absurd checked (by decide)

lemma checkStep_stamped {stamps : Stamps} (young : Sat.forGood < k)
    (stamped : Stamped assign k stamps) : Stamped assign k (checkStep cnf stamps k s).2 :=
  follow_stamped young (learnAll_stamped young stamped)

/-! ## A whole trace -/

lemma Stamped.next {stamps : Stamps} (stamped : Stamped assign k stamps) : Stamped assign (k + 1) stamps :=
  ⟨fun code => (stamped.le code).trans (Nat.le_succ k), stamped.forGood⟩

lemma checkFrom_sound {steps : List Step} {stamps : Stamps} (young : Sat.forGood ≤ k)
    (true_ : ∀ clause ∈ cnf, Clause.holds assign clause = true) (stamped : Stamped assign k stamps) :
    checkFrom steps (k + 1) cnf stamps = false := by
  induction steps generalizing k cnf stamps with
  | nil => rfl
  | cons s steps ih =>
    unfold checkFrom
    have sound := checkStep_sound (s := s) true_ stamped
    have after : Stamped assign (k + 1) (checkStep cnf stamps (k + 1) s).2 :=
      checkStep_stamped (Nat.lt_succ_of_le young) stamped.next
    rcases run : checkStep cnf stamps (k + 1) s with ⟨_ | _, stamps'⟩
    · rfl
    · rw [run] at sound after
      have claimed := sound rfl
      have more : ∀ clause ∈ cnf.push s.clause, Clause.holds assign clause = true := by
        intro clause mem
        rcases mem_push.1 mem with mem | rfl
        · exact true_ clause mem
        · exact claimed
      dsimp only
      split
      · rename_i empty
        simp [empty, Clause.holds] at claimed
      · rename_i l single
        rw [single] at more claimed ⊢
        refine ih (young.trans (Nat.le_succ k)) more (after.learn (young.trans (Nat.le_succ k)) fun _ => ?_)
        simpa [Clause.holds] using claimed
      · exact ih (young.trans (Nat.le_succ k)) more after

lemma Trace.check_sound {vars : Nat} {t : Trace} (checked : t.check vars cnf = true) (assign : Nat → Bool) :
    ¬ ∀ clause ∈ cnf, Clause.holds assign clause = true := by
  intro true_
  have blank : Stamped assign forGood (Array.replicate (2 * vars) 0) := by
    have zero (code : Nat) : (Array.replicate (2 * vars) 0).getD code 0 = 0 := by
      rw [getD_eq_getD_getElem?, Array.getElem?_replicate]
      split <;> rfl
    exact ⟨fun code => by rw [zero]; exact Nat.zero_le _, fun l stamp => absurd ((zero l.code).symm.trans stamp) (by decide)⟩
  rw [Trace.check, checkFrom_sound (le_refl _) true_ blank] at checked
  exact absurd checked (by decide)

end Faultline.Sat
