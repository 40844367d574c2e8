/-
# Proofs.Solver — the answers to queries are right

An answer of the decision procedure is right: inputs it gives make the root true,
and when it denies that there are any, there are none (`Sat.decide_sat`,
`Sat.decide_unsat`). Inputs that make the root of a drawing true are assignments
that make its formula true (`Draws.satisfiable_iff`), so a query that is answered is
answered with a model exactly if some assignment makes the formula true
(`query_exact`).
-/
import Faultline.Proofs.Circuit.Blast
import Faultline.Proofs.Formula.Owned
import Faultline.Proofs.Sat.Refutation
import Faultline.Solver

namespace Faultline

open Circuit (Lit Gate Drawing)
open Formula (Arena Handle)

/-! ## All inputs -/

namespace Sat

variable {c : Circuit} {root : Lit} {assign assign' : Nat → Bool}

lemma eval_congr_inputs (ordered : c.Ordered)
    (same : ∀ p, c.gates[p]? = some .input → assign p = assign' p) (l : Lit) :
    c.eval assign l = c.eval assign' l := by
  have gates : ∀ p, p < c.gates.size → c.eval assign (.pos p) = c.eval assign' (.pos p) := by
    intro p
    induction p using Nat.strong_induction_on with
    | _ p ih =>
      intro inside
      have found := Array.getElem?_eq_getElem inside
      rw [Circuit.eval_pos ordered found, Circuit.eval_pos ordered found]
      cases gate : c.gates[p] with
      | yes => rfl
      | input => exact same p (gate ▸ found)
      | and a b =>
        obtain ⟨left, right⟩ := ordered.older (gate ▸ found)
        have literal {l : Lit} (older : l.gate < p) : c.eval assign l = c.eval assign' l := by
          rw [← holds_gateValues, ← holds_gateValues, holds, holds, gateValues, gateValues,
            ih l.gate older (older.trans inside)]
        rw [Gate.meaning, Gate.meaning, literal left, literal right]
  by_cases inside : l.gate < c.gates.size
  · rw [← holds_gateValues, ← holds_gateValues, holds, holds, gateValues, gateValues, gates _ inside]
  · have outside (assign : Nat → Bool) : (c.values assign).getD l.gate false = false := by
      rw [Array.getD_eq_getD_getElem?, Array.getElem?_eq_none (by rw [Circuit.size_values]; omega)]
      rfl
    rw [Circuit.eval, Circuit.eval, outside, outside]

lemma exhaust_none {places : List Nat} (failed : exhaust c root places assign = none)
    (same : ∀ p, p ∉ places → assign' p = assign p) : c.eval assign' root = false := by
  induction places generalizing assign with
  | nil =>
    obtain rfl : assign' = assign := funext fun p => same p List.not_mem_nil
    by_contra true_
    rw [exhaust, if_pos (Bool.eq_true_of_not_eq_false true_)] at failed
    cases failed
  | cons i rest ih =>
    unfold exhaust at failed
    split at failed
    · cases failed
    · rename_i low
      have other (value : Bool) (here : assign' i = value) :
          ∀ p, p ∉ rest → assign' p = if p = i then value else assign p := by
        intro p outside
        by_cases at_ : p = i
        · rw [if_pos at_, at_, here]
        · rw [if_neg at_]
          exact same p (by simp [at_, outside])
      cases here : assign' i with
      | false => exact ih low (other false here)
      | true => exact ih failed (other true here)

lemma exhaust_some {places : List Nat} {found : Nat → Bool} (some_ : exhaust c root places assign = some found) :
    c.eval found root = true := by
  induction places generalizing assign with
  | nil =>
    unfold exhaust at some_
    split at some_
    · cases some_
      assumption
    · cases some_
  | cons i rest ih =>
    unfold exhaust at some_
    split at some_
    · rename_i low
      exact ih (low.trans some_)
    · exact ih some_

lemma exhaustive_unsat (ordered : c.Ordered) (unsat : exhaustive c root = .unsat) (inputs : Nat → Bool) :
    c.eval inputs root = false := by
  unfold exhaustive at unsat
  split at unsat
  · cases unsat
  · rename_i failed
    have same : ∀ p, c.gates[p]? = some .input →
        inputs p = if p ∈ inputPlaces c then inputs p else false := by
      intro p input
      obtain ⟨inside, here⟩ := Array.getElem?_eq_some_iff.1 input
      refine (if_pos (List.mem_filter.2 ⟨List.mem_range.2 inside, ?_⟩)).symm
      rw [decide_eq_true_eq, Array.getD_eq_getD_getElem?, input]
      rfl
    rw [eval_congr_inputs ordered same]
    exact exhaust_none failed fun p outside => if_neg outside

lemma exhaustive_sat {inputs : Nat → Bool} (sat : exhaustive c root = .sat inputs) :
    c.eval inputs root = true := by
  unfold exhaustive at sat
  split at sat
  · cases sat
    exact exhaust_some ‹_›
  · cases sat

lemma exhaustive_ne_spent : exhaustive c root ≠ .spent := by
  unfold exhaustive
  split <;> nofun

/-! ## The decision -/

variable {limit? : Option Nat}

lemma decide_sat {inputs : Nat → Bool} (sat : decide c root limit? = .sat inputs) : c.eval inputs root = true := by
  unfold decide at sat
  dsimp only at sat
  split at sat
  · split at sat
    · cases sat
      assumption
    · exact exhaustive_sat sat
  · split at sat
    · cases sat
    · exact exhaustive_sat sat
  · split at sat
    · cases sat
    · exact exhaustive_sat sat

lemma decide_unsat (ordered : c.Ordered) (unsat : decide c root limit? = .unsat) (inputs : Nat → Bool) :
    c.eval inputs root = false := by
  unfold decide at unsat
  dsimp only at unsat
  split at unsat
  · split at unsat
    · cases unsat
    · exact exhaustive_unsat ordered unsat inputs
  · split at unsat
    · rename_i checked
      by_contra true_
      exact Trace.check_sound checked _ (Cnf.ofCircuit_holds ordered (Bool.eq_true_of_not_eq_false true_))
    · exact exhaustive_unsat ordered unsat inputs
  · split at unsat
    · cases unsat
    · exact exhaustive_unsat ordered unsat inputs

lemma decide_spent (spent : decide c root limit? = .spent) : limit?.isSome = true := by
  unfold decide at spent
  dsimp only at spent
  split at spent
  · split at spent
    · cases spent
    · exact absurd spent exhaustive_ne_spent
  · split at spent
    · cases spent
    · exact absurd spent exhaustive_ne_spent
  · split at spent
    · assumption
    · exact absurd spent exhaustive_ne_spent

end Sat

/-! ## Queries -/

variable {a : Arena} {f : Nat} {P : Handle → Prop} {owned : Multiset Handle}

/-- A drawing whose root some inputs make true is not answered with no. -/
lemma Solver.decideDrawing_of_true {d : Drawing} {inputs : Nat → Bool} (limit? : Option Nat)
    (ordered : d.circuit.Ordered) (true_ : d.circuit.eval inputs d.root = true) :
    (∃ model, decideDrawing limit? d = .ok (.sat model)) ∨
      limit?.isSome = true ∧ decideDrawing limit? d = .error .timeout := by
  unfold decideDrawing
  have notNo : d.root ≠ .no := by
    intro no
    have shown : Circuit.Shows inputs d.circuit .no false := Circuit.shows_no ordered
    rw [← no] at shown
    exact absurd (true_.symm.trans shown.2) (by decide)
  rw [if_neg notNo]
  rcases answer : Sat.decide d.circuit d.root limit? with inputs' | _ | _
  · exact .inl ⟨_, rfl⟩
  · rw [Sat.decide_unsat ordered answer inputs] at true_
    cases true_
  · exact .inr ⟨Sat.decide_spent answer, rfl⟩

lemma askable_granted (wf : a.WellFormed) (live : 0 < a.count f) (oneBit : a.widthOf f = 1) :
    outcome (askable f) a = (.ok (), a) := by
  have ends : Ends a (askable f) (fun _ b => a = b) (fun _ _ => False) := by
    unfold askable
    refine Ends.bind (Formula.held_granted wf live) ?_
    rintro n _ ⟨rfl, found⟩
    refine (Formula.need_ends _ _ _).mono (fun _ _ h => h.1) fun _ _ h => ?_
    exact h.2 ((Arena.widthOf_eq found).symm.trans oneBit)
  obtain ⟨⟨⟩, b, run, rfl⟩ := ends.exists_ok
  exact run

namespace Solver

/-- Every query is worked on until it is answered. -/
structure Unlimited (s : Solver) : Prop where
  timeout : s.timeout ≤ 0
  quota : s.quota = none

lemma Unlimited.limit? {s : Solver} (unlimited : s.Unlimited) : s.limit? = none :=
  if_pos unlimited.timeout

/-- A formula with a circuit is decided, unless the quota is used up. -/
lemma solve_of_blast (s : Solver) {dr : Drawing} (drawing : Circuit.blast a f = some dr) :
    ∃ answer s', s.solve a f = (.ok answer, s') ∧ s'.timeout = s.timeout ∧ (s.quota = none → s'.quota = none) ∧
      (answer = decideDrawing s.limit? dr ∨ s.quota ≠ none ∧ ∃ e, answer = .error e) := by
  unfold solve
  rcases quota : s.quota with _ | ⟨_ | n, e⟩
  · simp only [drawing]
    exact ⟨_, _, rfl, rfl, fun _ => rfl, .inl rfl⟩
  · exact ⟨_, _, rfl, rfl, nofun, .inr ⟨nofun, e, rfl⟩⟩
  · simp only [drawing]
    exact ⟨_, _, rfl, rfl, nofun, .inl rfl⟩

lemma decideDrawing_unlimited (dr : Drawing) : ∃ verdict, decideDrawing none dr = .ok verdict := by
  unfold decideDrawing
  split
  · exact ⟨_, rfl⟩
  · rcases answer : Sat.decide dr.circuit dr.root none with inputs | _ | _
    · exact ⟨_, rfl⟩
    · exact ⟨_, rfl⟩
    · exact absurd (Sat.decide_spent answer) (by decide)

end Solver

lemma Circuit.Draws.eval_root {dr : Drawing} {node : Formula.Node} {inputs : Nat → Bool} {vars : Handle → Nat}
    (draws : Circuit.Draws a f dr) (wt : a.WellTyped) (found : a.node? f = some node) (oneBit : a.widthOf f = 1)
    (assigns : dr.Assigns a f inputs vars) : dr.circuit.eval inputs dr.root = decide (a.eval vars f = 1) := by
  obtain ⟨value, drawn⟩ := draws.drawn inputs
  have read := drawn.read_eq wt found assigns .self
  have small : a.eval vars f < 2 := by simpa [oneBit] using a.eval_lt vars f
  have bit : Circuit.bits (BitVec.ofNat 1 (a.eval vars f)) = [decide (a.eval vars f = 1)] := by
    obtain zero | one : a.eval vars f = 0 ∨ a.eval vars f = 1 := by omega
    · rw [zero]
      rfl
    · rw [one]
      rfl
  rw [oneBit, bit] at read
  rw [draws.root]
  unfold Circuit.Drawing.read at read
  cases word : dr.words.at f with
  | nil =>
    rw [word] at read
    cases read
  | cons l ls =>
    rw [word] at read
    exact (List.cons.inj read).1

lemma Circuit.Draws.exists_vars {dr : Drawing} (draws : Circuit.Draws a f dr) (wt : a.WellTyped)
    (inputs : Nat → Bool) : ∃ vars, dr.Assigns a f inputs vars := by
  obtain ⟨value, drawn⟩ := draws.drawn inputs
  refine ⟨value, fun g used n name there => ?_⟩
  have read := (drawn.holds g ((Arena.mem_reachable wt).2 used)).map_eval
  rwa [Arena.widthOf_eq there] at read

lemma Circuit.Draws.satisfiable_iff {dr : Drawing} {node : Formula.Node} (draws : Circuit.Draws a f dr)
    (wt : a.WellTyped) (found : a.node? f = some node) (oneBit : a.widthOf f = 1) :
    (∃ inputs, dr.circuit.eval inputs dr.root = true) ↔ ∃ vars, a.eval vars f = 1 := by
  constructor
  · rintro ⟨inputs, true_⟩
    obtain ⟨vars, assigns⟩ := draws.exists_vars wt inputs
    rw [draws.eval_root wt found oneBit assigns] at true_
    exact ⟨vars, of_decide_eq_true true_⟩
  · rintro ⟨vars, one⟩
    obtain ⟨start, inputs⟩ := draws.inputs
    obtain ⟨assign, assigns⟩ := inputs.exists_assigns wt draws.ordered vars
    exact ⟨assign, (draws.eval_root wt found oneBit assigns).trans (decide_eq_true one)⟩

/-- A drawing that is answered is answered with a model exactly if some inputs make its root true. -/
lemma Solver.decideDrawing_exact {dr : Drawing} {limit? : Option Nat} {verdict : Verdict}
    (ordered : dr.circuit.Ordered) (answered : decideDrawing limit? dr = .ok verdict) :
    (∃ model, verdict = .sat model) ↔ ∃ inputs, dr.circuit.eval inputs dr.root = true := by
  constructor
  · rintro ⟨model, rfl⟩
    unfold decideDrawing at answered
    split at answered
    · cases answered
    · rcases answer : Sat.decide dr.circuit dr.root limit? with inputs | _ | _
      · exact ⟨inputs, Sat.decide_sat answer⟩
      · rw [answer] at answered
        cases answered
      · rw [answer] at answered
        cases answered
  · rintro ⟨inputs, true_⟩
    rcases decideDrawing_of_true limit? ordered true_ with ⟨model, same⟩ | ⟨-, same⟩
    · cases answered.symm.trans same
      exact ⟨model, rfl⟩
    · cases answered.symm.trans same

lemma askable_ends (wf : a.WellFormed) : Ends a (askable f)
    (fun _ b => a = b ∧ ∃ n, a.node? f = some n ∧ a.widthOf f = 1) (fun _ _ => True) := by
  unfold askable
  refine Ends.bind ((Formula.held_ends wf f).blame fun _ _ _ => trivial) fun n b h => ?_
  obtain ⟨rfl, found, -⟩ := h
  refine (Formula.need_ends _ _ _).mono (fun _ _ h => ?_) fun _ _ _ => trivial
  exact ⟨h.1, n, found, (Arena.widthOf_eq found).trans h.2⟩

/-- The solver after so many queries: the limit is the same, and the quota allowed for them. -/
structure Solver.After (s : Solver) (queries : Nat) (s' : Solver) : Prop where
  timeout : s'.timeout = s.timeout
  quota : ∀ n e, s.quota = some (n, e) → queries ≤ n ∧ s'.quota = some (n - queries, e)

namespace Solver.After

variable {s s' s'' : Solver} {j k : Nat}

lemma refl (s : Solver) : s.After 0 s :=
  ⟨rfl, fun n _ same => ⟨n.zero_le, same⟩⟩

lemma trans (first : s.After j s') (second : s'.After k s'') : s.After (j + k) s'' := by
  refine ⟨second.timeout.trans first.timeout, fun n e same => ?_⟩
  obtain ⟨enough, same⟩ := first.quota n e same
  obtain ⟨enough', same⟩ := second.quota _ e same
  exact ⟨by omega, by rw [same, Nat.sub_sub]⟩

lemma limit? (after : s.After j s') : s'.limit? = s.limit? := by
  unfold Solver.limit?
  rw [after.timeout]

end Solver.After

lemma Solver.solve_answered {s s' : Solver} {verdict : Verdict} (answered : s.solve a f = (.ok (.ok verdict), s')) :
    ∃ dr, Circuit.blast a f = some dr ∧ decideDrawing s.limit? dr = .ok verdict ∧ s.After 1 s' := by
  unfold solve at answered
  rcases drawing : Circuit.blast a f with _ | dr
  · rw [drawing] at answered
    split at answered <;> cases answered
  · rw [drawing] at answered
    refine ⟨dr, rfl, ?_⟩
    split at answered
    · cases answered
    · rename_i used
      obtain ⟨decided, rfl⟩ := Prod.mk.inj answered
      refine ⟨Except.ok.inj decided, rfl, fun n e same => ?_⟩
      cases n with
      | zero => exact absurd same (used e)
      | succ n => exact ⟨by omega, by simp [same]⟩

lemma query_exact {s : Solver} {s' : Option Solver} {verdict : Verdict} (wf : a.WellFormed)
    (answered : query (some s) a f = (.ok (.ok verdict), s')) :
    a.widthOf f = 1 ∧ ((∃ model, verdict = .sat model) ↔ ∃ vars, a.eval vars f = 1) ∧
      (∃ dr, Circuit.blast a f = some dr ∧ Solver.decideDrawing s.limit? dr = .ok verdict) ∧
      s.After 1 (s'.getD s) := by
  unfold query at answered
  rcases granted : outcome (askable f) a with ⟨e | _, b⟩
  · rw [show askable f a = (.error e, b) from granted] at answered
    cases answered
  · obtain ⟨-, n, found, oneBit⟩ := (askable_ends wf).ok granted
    rw [show askable f a = (.ok _, b) from granted] at answered
    rcases worked : s.solve a f with ⟨r, t⟩
    simp only [worked] at answered
    cases answered
    obtain ⟨dr, drawing, decided, after⟩ := Solver.solve_answered worked
    have draws := Circuit.draws_of_blast wf.toWellTyped found drawing
    refine ⟨oneBit, ?_, ⟨dr, drawing, decided⟩, after⟩
    rw [Solver.decideDrawing_exact draws.ordered decided, draws.satisfiable_iff wf.toWellTyped found oneBit]

lemma exists_inputs (stocked : a.Stocked P owned) (mem : f ∈ owned) (oneBit : a.widthOf f = 1) :
    ∃ dr, Circuit.blast a f = some dr ∧ dr.circuit.Ordered ∧
      ∀ vars, a.eval vars f = 1 → ∃ inputs, dr.circuit.eval inputs dr.root = true := by
  obtain ⟨n, found⟩ := stocked.node mem
  have wt := stocked.wellFormed.toWellTyped
  obtain ⟨dr, drawing, draws⟩ := Circuit.blast_drawn wt stocked.tame.widening found
  exact ⟨dr, drawing, draws.ordered, fun vars one => (draws.satisfiable_iff wt found oneBit).2 ⟨vars, one⟩⟩

/-- A query about an owned formula of one bit is not refused. A formula that can be true is answered
with a model, unless the solver gives up, which one without limits never does. -/
lemma query_answers (s : Solver) (stocked : a.Stocked P owned) (mem : f ∈ owned) (oneBit : a.widthOf f = 1) :
    ∃ answer s', query (some s) a f = (.ok answer, some s') ∧
      (s.Unlimited → s'.Unlimited ∧ ∃ verdict, answer = .ok verdict) ∧
      ∀ vars, a.eval vars f = 1 → (∃ model, answer = .ok (.sat model)) ∨ ∃ e, answer = .error e := by
  obtain ⟨dr, drawing, ordered, true_⟩ := exists_inputs stocked mem oneBit
  obtain ⟨answer, s', run, timeout, quota, answered⟩ := s.solve_of_blast drawing
  have granted : askable f a = (.ok (), a) := askable_granted stocked.wellFormed (stocked.count_pos mem) oneBit
  refine ⟨answer, s', ?_, fun unlimited => ⟨⟨timeout.trans_le unlimited.timeout, quota unlimited.quota⟩, ?_⟩,
    fun vars one => ?_⟩
  · simp only [query, granted, run]
  · rcases answered with rfl | ⟨limited, -⟩
    · rw [unlimited.limit?]
      exact Solver.decideDrawing_unlimited dr
    · exact absurd unlimited.quota limited
  · rcases answered with rfl | ⟨-, gaveUp⟩
    · obtain ⟨inputs, true_⟩ := true_ vars one
      rcases Solver.decideDrawing_of_true s.limit? ordered true_ with sat | ⟨-, timeout⟩
      · exact .inl sat
      · exact .inr ⟨_, timeout⟩
    · exact .inr gaveUp

end Faultline
