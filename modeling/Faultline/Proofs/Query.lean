/-
# Proofs.Query — queries about formulas of one shape

Formulas that were built side by side have equal values as soon as their variables
do (`Arena.Tied.eval_eq`), and every assignment in one arena has its like in the
other. So one of them can be true exactly if the other can, one has a circuit
exactly if the other has, and a solver answers both alike (`query_alike`).
-/
import Faultline.Proofs.Formula.Paired
import Faultline.Proofs.Solver

namespace Faultline

open Formula (Links Arena Handle Node Term)
open Circuit (SomeNarrows)

variable {l : Links} {a a' : Arena} {f f' g : Handle} {n n' : Node}

namespace Formula

/-! ## Values -/

lemma Arena.Tied.exists_nodes (tied : a.Tied l a') (alike : l.Alike f f') :
    ∃ n n', a.node? f = some n ∧ a'.node? f' = some n' ∧ Seen l f f' n n' := by
  obtain pair | ⟨n, left, right⟩ := alike
  · obtain ⟨n, n', found, found', shape⟩ := tied.node _ pair
    exact ⟨n, n', found, found', shape, .inl pair⟩
  · obtain ⟨found, constant, -⟩ := tied.left _ left
    refine ⟨n, n, found, (tied.right _ right).1, ⟨rfl, ?_⟩, .inr constant⟩
    obtain ⟨w, term⟩ := n
    cases term <;> first | exact .const _ | cases constant

lemma Arena.Tied.widthOf_eq (tied : a.Tied l a') (alike : l.Alike f f') : a'.widthOf f' = a.widthOf f := by
  obtain ⟨n, n', found, found', shape, -⟩ := tied.exists_nodes alike
  rw [Arena.widthOf_eq found, Arena.widthOf_eq found']
  exact shape.width

/-- The assignments agree on what was made side by side. -/
def Links.Fits (l : Links) (assign assign' : Handle → Nat) : Prop :=
  ∀ f f', l.Pair f f' → assign' f' = assign f

lemma Node.Tied.toNat_bits (shape : n.Tied l n') {var var' : Nat} {width width' value value' : Handle → Nat}
    (vars : n.term.const? = none → var' = var)
    (widths : ∀ g ∈ n.term.args, ∀ g', l.Alike g g' → width' g' = width g)
    (values : ∀ g ∈ n.term.args, ∀ g', l.Alike g g' → value' g' = value g) :
    (n'.bits var' width' value').toNat = (n.bits var width value).toNat := by
  obtain ⟨w, term⟩ := n
  obtain ⟨w', term'⟩ := n'
  obtain ⟨rfl, shape⟩ := shape
  cases shape with
  | const v => rfl
  | var name name' => simp only [bits, vars rfl]
  | not pair =>
    simp only [Term.args, List.forall_mem_singleton] at values
    simp only [bits, values _ (.inl pair)]
  | zext pair | sext pair | extract pair =>
    simp only [Term.args, List.forall_mem_singleton] at widths values
    simp only [bits]
    rw [widths _ (.inl pair), values _ (.inl pair)]
  | ite cond onTrue onFalse =>
    simp only [Term.args, List.forall_mem_cons] at values
    simp only [bits, values.1 _ (.inl cond), values.2.1 _ (.inl onTrue), values.2.2.1 _ (.inl onFalse)]
  | arith op left right =>
    simp only [Term.args, List.forall_mem_cons] at values
    simp only [bits, values.1 _ left, values.2.1 _ right]
  | compare op left right =>
    simp only [Term.args, List.forall_mem_cons] at widths values
    simp only [bits]
    rw [widths.1 _ left, values.1 _ left, values.2.1 _ right]

lemma Arena.Tied.eval_eq (tied : a.Tied l a') {assign assign' : Handle → Nat} (fits : l.Fits assign assign') :
    ∀ f f', l.Alike f f' → a'.eval assign' f' = a.eval assign f := by
  intro f
  -- operands are older
  induction f using Nat.strong_induction_on with
  | _ f ih =>
    intro f' alike
    obtain ⟨n, n', found, found', shape, single⟩ := tied.exists_nodes alike
    rw [Arena.eval_eq tied.ofLeft.toWellTyped found, Arena.eval_eq tied.ofRight.toWellTyped found']
    refine shape.toNat_bits (fun free => ?_) (fun g _ g' => tied.widthOf_eq) fun g mem g' => ?_
    · refine fits f f' (single.resolve_right fun constant => ?_)
      rw [free] at constant
      cases constant
    · exact ih g ((tied.ofLeft.fits found).older g mem).2 g'

lemma Arena.Linked.exists_fits (linked : a.Linked l a') (assign : Handle → Nat) : ∃ assign', l.Fits assign assign' := by
  classical
  refine ⟨fun g' => if h : ∃ g, l.Pair g g' then assign h.choose else 0, fun f f' pair => ?_⟩
  have some : ∃ g, l.Pair g f' := ⟨f, pair⟩
  dsimp only
  rw [dif_pos some]
  exact congrArg assign ((linked.once _ some.choose_spec _ pair).2 rfl)

lemma Arena.Tied.satisfiable (tied : a.Tied l a') (alike : l.Alike f f') (true_ : ∃ vars, a.eval vars f = 1) :
    ∃ vars, a'.eval vars f' = 1 := by
  obtain ⟨vars, one⟩ := true_
  obtain ⟨vars', fits⟩ := tied.exists_fits vars
  exact ⟨vars', (tied.eval_eq fits f f' alike).trans one⟩

lemma Arena.Tied.satisfiable_iff (tied : a.Tied l a') (alike : l.Alike f f') :
    (∃ vars, a.eval vars f = 1) ↔ ∃ vars, a'.eval vars f' = 1 :=
  ⟨tied.satisfiable alike, tied.swap.satisfiable alike.swap⟩

/-! ## Circuits -/

lemma Arena.Tied.uses (tied : a.Tied l a') (alike : l.Alike f f') (used : a.Uses f g) :
    ∃ g', l.Alike g g' ∧ a'.Uses f' g' := by
  induction used with
  | self => exact ⟨f', alike, .self⟩
  | operand _ mem ih =>
    obtain ⟨g', alike, used'⟩ := ih
    obtain ⟨n, n', found, found', shape, -⟩ := tied.exists_nodes alike
    rw [Arena.mem_args found] at mem
    obtain ⟨h', mem', alike⟩ := exists_of_forall₂ shape.term.args mem
    exact ⟨h', alike, used'.operand (by rwa [Arena.mem_args found'])⟩

lemma Term.Tied.extends {t t' : Term} {z : Handle} (tied : Term.Tied l t t') (shape : t = .zext z ∨ t = .sext z) :
    ∃ z', (t' = .zext z' ∨ t' = .sext z') ∧ l.Pair z z' := by
  obtain rfl | rfl := shape
  · cases tied with
    | zext pair => exact ⟨_, .inl rfl, pair⟩
  · cases tied with
    | sext pair => exact ⟨_, .inr rfl, pair⟩

lemma Arena.Tied.someNarrows (tied : a.Tied l a') (alike : l.Alike f f') (narrows : SomeNarrows a (a.reachable f)) :
    SomeNarrows a' (a'.reachable f') := by
  obtain ⟨g, mem, n, found, z, shape, narrow⟩ := narrows
  obtain ⟨g', alike, used'⟩ := tied.uses alike ((Arena.mem_reachable tied.ofLeft.toWellTyped).1 mem)
  obtain ⟨m, m', there, there', ⟨width, term⟩, -⟩ := tied.exists_nodes alike
  cases found.symm.trans there
  obtain ⟨z', shape', pair⟩ := term.extends shape
  refine ⟨g', (Arena.mem_reachable tied.ofRight.toWellTyped).2 used', m', there', z', shape', ?_⟩
  rwa [width, tied.widthOf_eq (.inl pair)]

lemma Arena.Tied.blast_eq_none_iff (tied : a.Tied l a') (alike : l.Alike f f') :
    Circuit.blast a f = none ↔ Circuit.blast a' f' = none := by
  obtain ⟨n, n', found, found', -⟩ := tied.exists_nodes alike
  rw [Circuit.blast_eq_none_iff tied.ofLeft.toWellTyped found, Circuit.blast_eq_none_iff tied.ofRight.toWellTyped found']
  exact ⟨tied.someNarrows alike, tied.swap.someNarrows alike.swap⟩

end Formula

/-! ## Answers -/

/-- Both formulas can be true, or neither can. -/
def Verdict.Alike (v v' : Verdict) : Prop :=
  (∃ model, v = .sat model) ↔ ∃ model, v' = .sat model

lemma askable_abreast (tied : a.Tied l a') (alike : l.Alike f f') :
    Abreast a a' (askable f) (askable f') fun _ _ _ _ => ∃ n, a.node? f = some n ∧ a.widthOf f = 1 := by
  have both : Abreast a a' (askable f) (askable f') fun _ _ _ _ => True := by
    unfold askable
    refine Abreast.bind (Formula.held_abreast tied alike) fun n b n' b' h => ?_
    obtain ⟨rfl, rfl, shape, -⟩ := h
    unfold Formula.need
    rw [shape.width]
    split
    · exact Abreast.pure trivial
    · exact Abreast.throw
  exact (both.and_ends (askable_ends tied.ofLeft) (askable_ends tied.ofRight)).mono fun _ _ _ _ h => h.2.1.2

/-- A drawing of each formula is decided alike, unless the time runs out for one of them. -/
lemma decideDrawing_alike (tied : a.Tied l a') (alike : l.Alike f f') (found : a.node? f = some n)
    (oneBit : a.widthOf f = 1) {dr dr' : Circuit.Drawing} (drawing : Circuit.blast a f = some dr)
    (drawing' : Circuit.blast a' f' = some dr') {limit? : Option Nat} {v v' : Verdict}
    (answered : Solver.decideDrawing limit? dr = .ok v) (answered' : Solver.decideDrawing limit? dr' = .ok v') :
    v.Alike v' := by
  obtain ⟨-, n', -, found', -⟩ := tied.exists_nodes alike
  have draws := Circuit.draws_of_blast tied.ofLeft.toWellTyped found drawing
  have draws' := Circuit.draws_of_blast tied.ofRight.toWellTyped found' drawing'
  have oneBit' : a'.widthOf f' = 1 := (tied.widthOf_eq alike).trans oneBit
  unfold Verdict.Alike
  rw [Solver.decideDrawing_exact draws.ordered answered, Solver.decideDrawing_exact draws'.ordered answered',
    draws.satisfiable_iff tied.ofLeft.toWellTyped found oneBit,
    draws'.satisfiable_iff tied.ofRight.toWellTyped found' oneBit']
  exact tied.satisfiable_iff alike

/-- Answers that agree where both are there; without limits both are there or neither is. -/
structure Answers (s : Solver) (r r' : Except SolverError Verdict) : Prop where
  alike : ∀ v v', r = .ok v → r' = .ok v' → v.Alike v'
  both : s.limit? = none → r.isOk = r'.isOk

lemma Solver.solve_alike (s : Solver) (tied : a.Tied l a') (alike : l.Alike f f') (found : a.node? f = some n)
    (oneBit : a.widthOf f = 1) :
    Alongside (Answers s) (s.solve a f).1 (s.solve a' f').1 ∧ (s.solve a' f').2 = (s.solve a f).2 := by
  have same := tied.blast_eq_none_iff alike
  have decided : ∀ dr dr', Circuit.blast a f = some dr → Circuit.blast a' f' = some dr' →
      Answers s (decideDrawing s.limit? dr) (decideDrawing s.limit? dr') := by
    intro dr dr' drawing drawing'
    refine ⟨fun v v' => decideDrawing_alike tied alike found oneBit drawing drawing', fun unlimited => ?_⟩
    obtain ⟨v, answered⟩ := decideDrawing_unlimited dr
    obtain ⟨v', answered'⟩ := decideDrawing_unlimited dr'
    rw [unlimited, answered, answered']
    rfl
  unfold solve
  rcases drawing : Circuit.blast a f with _ | dr <;> rcases drawing' : Circuit.blast a' f' with _ | dr'
  · split
    · exact ⟨⟨nofun, fun _ => rfl⟩, rfl⟩
    · exact ⟨trivial, rfl⟩
  · rw [drawing, drawing'] at same
    exact absurd (same.1 rfl) nofun
  · rw [drawing, drawing'] at same
    exact absurd (same.2 rfl) nofun
  · split
    · exact ⟨⟨nofun, fun _ => rfl⟩, rfl⟩
    · exact ⟨decided dr dr' drawing drawing', rfl⟩

/-- **A solver answers queries about formulas of one shape alike.** -/
theorem query_alike (s : Solver) (tied : a.Tied l a') (alike : l.Alike f f') :
    Alongside (Answers s) (query (some s) a f).1 (query (some s) a' f').1 ∧
      (query (some s) a' f').2 = (query (some s) a f).2 := by
  obtain ⟨r, b, r', b', run, run', n, found, oneBit⟩ | ⟨e, b, e', b', run, run'⟩ := (askable_abreast tied alike).cases
  all_goals
    unfold query
    unfold outcome at run run'
    rw [run, run']
  · obtain ⟨answers, after⟩ := s.solve_alike tied alike found oneBit
    exact ⟨answers, congrArg some after⟩
  · exact ⟨trivial, rfl⟩

lemma Solver.timeout_solve (s : Solver) (a : Arena) (f : Handle) : (s.solve a f).2.timeout = s.timeout := by
  unfold solve
  split
  · rfl
  · dsimp only
    split <;> rfl

lemma timeout_query (s : Solver) (a : Arena) (f : Handle) : ∀ t ∈ (query (some s) a f).2, t.timeout = s.timeout := by
  unfold query
  rcases askable f a with ⟨e | r, b⟩
  · rintro t ⟨⟩
    rfl
  · rintro t ⟨⟩
    exact s.timeout_solve a f

end Faultline
