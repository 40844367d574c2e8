/-
# Proofs.Analysis.Path — the formula of a block is reachability

Every formula the path engine keeps tells whether control can reach its block, in every
bench in use: whatever values, conditions and blocks have been asked for, with whatever
outcome, and whatever was done to the arena meanwhile.
-/
import Faultline.Proofs.Analysis.Regime

namespace Faultline.Analysis

open IR (ValueId)
open Formula (Build Handle Orderly)
open Flow.Graph

variable {s : Setting} {b c : Bench} {v x : ValueId} {α : Type} {g r : Handle} {fn : IR.Func}

structure Walk (s : Setting) (b c : Bench) : Prop where
  ordered : Ordered s c
  grows : b.Grows c

lemma Walk.refl (ordered : Ordered s b) : Walk s b b :=
  ⟨ordered, .refl b⟩

lemma walk_discipline : Discipline (Walk s) where
  again := fun walk => .refl walk.ordered
  trans := fun first second => ⟨second.ordered, first.grows.trans second.grows⟩

lemma Ordered.does {S : ValueId → Prop} {x : Analyze α} {R : α → Bench → Prop} (ordered : Ordered s b)
    (does : Does (Step s S) b x R) : Does (Walk s) b x R :=
  does.mono (fun _ step => ⟨ordered.of_step step, step.grows⟩) fun _ _ _ => id

lemma Ordered.build {x : Build α} (ordered : Ordered s b) (orderly : Orderly x) :
    Does (Walk s) b (build x) fun _ _ => True :=
  ordered.does (build_does (S := fun _ => False) orderly ordered.toSound)

lemma lookup_does (v : ValueId) (ordered : Ordered s b) :
    Does (Walk s) b (lookup s v) fun h c => c.formula? v = some h :=
  ordered.does (lookupFrom_does _ v ordered.toSound)

/-- Good order alone, with no account of references and any refusal. -/
def ordering (s : Setting) (root : Nat) : Regime s root :=
  have refusing {β : Type} {b : Bench} {m : Analyze β} {R : β → Bench → Prop} (does : Does (Walk s) b m R) :
      Refusing (fun b _ => Ordered s b) (fun _ b c => b.Grows c) b m fun _ c => Ordered s c :=
    Ends.mono does (fun _ _ h => h.1.ordered) fun _ _ h => ⟨⟨0, h.ordered⟩, h.grows⟩
  { keeps := fun b _ => Ordered s b
    asks := fun _ _ => True
    strict := False
    fit := fun _ => True
    blames := fun _ b c => b.Grows c
    ordered := id
    width := fun _ strict => strict.elim
    look := fun ordered _ => refusing (lookup_does _ ordered)
    bool := fun _ ordered => refusing (ordered.build (Formula.Builder.const 1 _).orderly)
    retain := fun ordered _ => refusing (ordered.build (.retain _))
    not := fun ordered _ => refusing (ordered.build (Formula.Builder.not _).orderly)
    binary := fun op ordered _ _ _ => refusing (ordered.build (Formula.Builder.binary op _ _).orderly)
    release := fun ordered => refusing (ordered.build (.release _))
    place := fun ordered _ _ _ tells => ordered.placed tells
    fits := fun _ _ => trivial
    entry := trivial
    block := fun _ _ _ => trivial
    cycle := fun _ => .refl _ }

lemma path_does (graph : ofFunc s.module fn = .ok s.graph) (block : ValueId) (ordered : Ordered s b) :
    Does (Walk s) b (path s block) fun r c => ∃ i, s.graph.indexOf s.module block = .ok i ∧
      c.Tells r fun val => Reaches s val i := by
  rcases found : s.graph.indexOf s.module block with e | i
  · unfold path
    rw [found]
    exact Does.throw (.refl ordered)
  · have keeps : (ordering s i).keeps b 0 := ordered
    refine Ends.mono (Regime.path_works graph (fun j _ => Regime.asksBlock_of_forall (fun _ _ => trivial) j) found keeps) (fun r c h => ?_) fun e c h => ?_
    · exact ⟨⟨h.2.1.keeps, h.1.grows⟩, i, rfl, h.2.1.tells⟩
    · obtain ⟨⟨_, ordered⟩, d, first, second⟩ := h
      exact ⟨ordered, first.trans second⟩

/-! ## Benches in use -/

lemma value_does (v : ValueId) (ordered : Ordered s b) : Does (Walk s) b (value s v) fun _ _ => True := by
  unfold value
  refine Does.bind walk_discipline (lookup_does v ordered) fun f c _ again _ => ?_
  exact again.ordered.build (.retain f)

lemma conditionOf_does (call : ValueId) (ordered : Ordered s b) :
    Does (Walk s) b (conditionOf s call) fun _ _ => True := by
  have refused {e : Fault} : Does (Walk s) b (throw e : Analyze Handle) fun _ _ => True :=
    Does.throw (.refl ordered)
  unfold conditionOf
  split
  next =>
    unfold condition
    split
    next =>
      split
      next code x y flag _ =>
        refine Does.bind walk_discipline (lift_does (.refl ordered)) fun i c _ again _ => ?_
        rcases i with _ | i
        · exact Does.throw again
        · refine Does.bind walk_discipline (lift_does again) fun j c _ again _ => ?_
          rcases j with _ | j
          · exact Does.throw again
          · refine Does.bind walk_discipline (lookup_does x again.ordered) fun f c _ again _ => ?_
            refine Does.bind walk_discipline (lookup_does y again.ordered) fun g c _ again _ => ?_
            split
            · exact again.ordered.build (overflow_orderly _ _ f g)
            · exact Does.throw again
      next => exact refused
    next =>
      split
      next cond _ => exact value_does cond ordered
      next => exact refused
    next => exact refused
  next => exact refused

/-- What can be asked of the engines while they are open. -/
inductive Query where
  | value (v : ValueId)
  | condition (call : ValueId)
  | path (block : ValueId)
  | arena (request : Formula.Request)

def Query.run (s : Setting) : Query → Analyze Unit
  | value v => do let _ ← Analysis.value s v
  | condition call => do let _ ← conditionOf s call
  | path block => do let _ ← Analysis.path s block
  | arena request => build request.run

/-- A bench in use: after any queries, granted or refused. -/
inductive InUse (s : Setting) : Bench → Prop where
  | start : InUse s s.start
  | step {b : Bench} (reached : InUse s b) (query : Query) : InUse s (outcome (query.run s) b).2

lemma InUse.ordered (graph : ofFunc s.module fn = .ok s.graph) (inUse : InUse s b) : Ordered s b := by
  induction inUse with
  | start => exact ordered_start s
  | @step b _ query ordered =>
    have does : Does (Walk s) b (query.run s) fun _ _ => True := by
      cases query with
      | value v => exact Does.bind walk_discipline (value_does v ordered) fun _ c _ again _ => Does.pure again trivial
      | condition call =>
        exact Does.bind walk_discipline (conditionOf_does call ordered) fun _ c _ again _ => Does.pure again trivial
      | path block =>
        exact Does.bind walk_discipline (path_does graph block ordered) fun _ c _ again _ => Does.pure again trivial
      | arena request => exact ordered.build request.orderly
    have ends := Ends.iff_forall.1 does
    rcases run : outcome (query.run s) b with ⟨e | r, c⟩
    · exact (ends.2 e c run).ordered
    · exact (ends.1 r c run).1.ordered

/-- **The formula of a block is reachability.** In a bench in use, a formula that the path engine
returns for a block has one bit and is true under an assignment of the variables exactly if there is
a route from the entry to the block, where the values of the program are those of their formulas
under the assignment. So it is true for the entry, and false for a block that no route leads to. -/
theorem InUse.path_iff_route {fn : IR.Func} {block : ValueId}
    (graph : Flow.Graph.ofFunc s.module fn = .ok s.graph) (inUse : InUse s b)
    (returned : outcome (path s block) b = (.ok r, c)) :
    ∃ i, s.graph.indexOf s.module block = .ok i ∧ (s.graph.block i).id = block ∧ c.arena.widthOf r = 1 ∧
      ∀ assign val, c.Agrees assign val →
        (c.arena.eval assign r = 1 ↔ ∃ route, Route s val route i) ∧
        (i = 0 → c.arena.eval assign r = 1) ∧
        ((¬ ∃ route, Route s val route i) → c.arena.eval assign r = 0) := by
  obtain ⟨walk, i, found, told⟩ := (path_does graph block (inUse.ordered graph)).ok returned
  refine ⟨i, found, (Flow.Graph.of_indexOf graph found).2, told.width, fun assign val agrees => ?_⟩
  have means := (told.value assign val agrees).trans reaches_iff_route
  refine ⟨means, fun entry => means.2 ⟨[0], entry ▸ Route.entry s val⟩, fun none => ?_⟩
  have low : c.arena.eval assign r < 2 := by
    have := c.arena.eval_lt assign r
    rwa [told.width] at this
  have notOne := mt means.1 none
  omega

/-- A function that goes on to a block that it may stay in, and leaves it at once: the entry, the
loop, and the end. -/
def loopFunc : IR.Func where
  id := 0
  name := []
  result := .void
  params := []
  blocks := #[⟨3, #[], some 6⟩, ⟨4, #[], some 7⟩, ⟨5, #[], some 8⟩]

def loop : Setting where
  module :=
    { defs := IR.shared ++ #[.block (.number 0), .block (.number 1), .block (.number 2),
        .term (.number 0) .void (.br 4) [], .term (.number 0) .void (.condBr IR.trueId 5 4) [],
        .term (.number 0) .void (.ret none) []] }
  layout := {}
  graph :=
    { func := loopFunc
      index := numbering loopFunc
      preds := #[[], [0, 1], [1]]
      succs := #[[1], [2, 1], []]
      ids := (((∅ : Std.HashMap ValueId Nat).insert 6 0).insert 7 1).insert 8 2
      blockOf := #[0, 1, 2] }
  cut := ⟨[(1, 1)]⟩

lemma loop_index : loop.graph.index[5]? = some 2 ∧ loop.graph.index[4]? = some 1 := by
  have unfolded : loop.graph.index = (((∅ : Std.HashMap ValueId Nat).insert 3 0).insert 4 1).insert 5 2 := rfl
  rw [unfolded]
  constructor <;> simp only [Std.HashMap.getElem?_insert] <;> rfl

lemma loop_graph : ofFunc loop.module loopFunc = .ok loop.graph := by
  obtain ⟨atEnd, atLoop⟩ := loop_index
  refine ofFunc_of_blocks rfl (foldlM_cons_ok (addBlock_ok.2 ⟨[1], .cons atLoop .nil, rfl⟩) ?_)
  refine foldlM_cons_ok (addBlock_ok.2 ⟨[2, 1], .cons atEnd (.cons atLoop .nil), rfl⟩) ?_
  exact foldlM_cons_ok (addBlock_ok.2 ⟨[], .nil, rfl⟩) rfl

/-- The end of the loop is reached in one way, over the loop. -/
theorem path_iff_route_loop : InUse loop loop.start ∧ ∃ r c, outcome (path loop 5) loop.start = (.ok r, c) ∧
    ∀ assign val, c.Agrees assign val →
      (c.arena.eval assign r = 1 ↔ ∃ route, Route loop val route 2) := by
  have found : loop.graph.indexOf loop.module 5 = .ok 2 := by
    rw [Flow.Graph.indexOf, loop_index.1]
  have unfolded : path loop 5 = reachFrom loop 4 [] 2 >>= fun f => build (Formula.retain f) := by
    unfold path
    rw [found]
    rfl
  have granted : (outcome (reachFrom loop 4 [] 2 >>= fun f => build (Formula.retain f)) loop.start).1.isOk = true := by
    decide +kernel
  rcases run : outcome (path loop 5) loop.start with ⟨e | r, c⟩
  · rw [← unfolded, run] at granted
    cases granted
  · obtain ⟨i, index, -, -, means⟩ := InUse.start.path_iff_route loop_graph run
    rw [found] at index
    cases index
    exact ⟨.start, r, c, rfl, fun assign val agrees => (means assign val agrees).1⟩

end Faultline.Analysis
