/-
# Proofs.Analysis.BackEdge — back edges at the service of the path engine

The path engine leaves out the back edges of the graph. They break every cycle, so
the engine refuses no block for one (`backEdges_break`), whatever was asked before.
And they break nothing else: each closes a cycle, and every block that the entry
leads to is still reached by a way that uses none (`backEdges_spare`).
-/
import Faultline.Proofs.Analysis.Cycle
import Faultline.Proofs.Flow.Component

namespace Faultline.Analysis

open IR (Module ValueId Func)
open Formula (Handle)
open Faultline.Flow (EdgeSet Graph Leads Traverses)
open Relation (TransGen ReflTransGen)

variable {m : Module} {f : Func} {g : Graph} {cut : EdgeSet} {s : Setting} {i : Nat}

/-! ## Cycles are broken -/

lemma path_refuses_no_cycle {b c : Bench} {caller : Multiset Handle} {block : ValueId} {name : String}
    (graph : Graph.ofFunc s.module f = .ok s.graph) (acyclic : ∀ l, ¬ TransGen (s.graph.Flows s.cut) l l)
    (events : ReflTransGen (Event s) (s.start, 0) (b, caller)) :
    outcome (path s block) b ≠ (.error (.unbrokenCycle name), c) := by
  intro refused
  rcases found : s.graph.indexOf s.module block with e | i
  · unfold path at refused
    rw [found] at refused
    unfold Graph.indexOf at found
    split at found <;> cases found
    cases refused
  · obtain ⟨left, holds⟩ := keeps_of_events graph events
    obtain ⟨d, -, ⟨-, l, cycle, -⟩ | hinders⟩ := (Ends.iff_forall.1 (path_ends graph found holds)).2 _ c refused
    · exact acyclic l (TransGen.mono (fun _ _ inner => inner.1) _ _ cycle)
    · exact hinders.other name rfl

/-- **Back edges break every cycle.** They are the edges that a depth-first traversal of all blocks found to close
a cycle; without them there is none, and none is reported; and no block is refused for one, whatever was asked for
before. -/
theorem backEdges_break (run : Graph.ofFunc m f = .ok g) :
    (∃ t, Traverses g.succsOf (List.range g.size) {} t ∧ g.backEdges = .ofList t.found) ∧
      (∀ b, ¬ TransGen (g.Flows g.backEdges) b b) ∧ g.cycle? g.backEdges = none ∧
      ∀ s : Setting, s.module = m → s.graph = g → s.cut = g.backEdges →
        ∀ b caller, ReflTransGen (Event s) (s.start, 0) (b, caller) →
          ∀ block name c, outcome (path s block) b ≠ (.error (.unbrokenCycle name), c) := by
  obtain ⟨t, traverses, edges, -⟩ := Graph.exists_traversal run
  have acyclic := Graph.acyclic_without_backEdges run
  refine ⟨⟨t, traverses, edges⟩, acyclic, Graph.cycle?_of_acyclic run acyclic, ?_⟩
  intro s module graph cut b caller events block name c
  subst module graph
  rw [← cut] at acyclic
  exact path_refuses_no_cycle run acyclic events

/-- Two blocks that go to each other. -/
theorem backEdges_break_ring : Graph.ofFunc Graph.ringModule Graph.ringFunc = .ok Graph.ring ∧
    Graph.ring.backEdges = ⟨[(1, 0)]⟩ ∧ TransGen (Graph.ring.Flows {}) 1 1 ∧
      Graph.ring.cycle? ⟨[(1, 0)]⟩ = none := by
  have edges : Graph.ring.backEdges = ⟨[(1, 0)]⟩ := by decide +kernel
  have around : TransGen (Graph.ring.Flows {}) 1 1 :=
    .tail (.single (b := 0) ⟨by decide +kernel, by decide +kernel⟩) ⟨by decide +kernel, by decide +kernel⟩
  exact ⟨Graph.ofFunc_ring, edges, around, edges ▸ (backEdges_break Graph.ofFunc_ring).2.2.1⟩

/-! ## Nothing else is -/

/-- A way from the entry along edges outside the set, which does not come back to the entry. -/
structure Way (g : Graph) (cut : EdgeSet) (way : List Nat) (b : Nat) : Prop where
  first : way.head? = some 0
  last : way.getLast? = some b
  once : 0 ∉ way.tail
  flows : way.IsChain (g.Flows cut)

lemma exists_way (acyclic : ¬ TransGen (g.Flows cut) 0 0) (reaches : ReflTransGen (g.Flows cut) 0 i) :
    ∃ way, Way g cut way i := by
  obtain ⟨rest, flows, last⟩ := List.exists_isChain_cons_of_relationReflTransGen reaches
  refine ⟨0 :: rest, rfl, ?_, fun again => acyclic ?_, flows⟩
  · rw [List.getLast?_eq_some_getLast (List.cons_ne_nil 0 rest), last]
  · have far : (0 :: rest).IsChain (TransGen (g.Flows cut)) := flows.imp fun _ _ => .single
    exact (List.pairwise_cons.1 far.pairwise).1 0 again

/-- Where values of the program let control pass all along, a way is a route. -/
lemma Way.route {way : List Nat} {val : ValueId → Nat} (found : Way s.graph s.cut way i)
    (pass : way.IsChain fun a b => Goes s val a b ∧ Assigns s val a b) : Route s val way i := by
  refine ⟨found.first, found.last, found.once, ?_⟩
  rw [List.isChain_iff_getElem] at pass ⊢
  intro k low
  have flows := List.isChain_iff_getElem.1 found.flows k low
  exact ⟨flows.1, flows.2, (pass k low).1, (pass k low).2⟩

/-- **Back edges take away no more than cycles.** Each is an edge from whose target its source is reached, so a graph
without cycles has none. What the entry leads to it still leads to without them: there is a way, and the formula of
the block is true under all values of the program that let control pass along it. -/
theorem backEdges_spare (run : Graph.ofFunc m f = .ok g) :
    (∀ e ∈ g.backEdges.edges, ∃ a b : Nat, e = ((a : Int), (b : Int)) ∧ b ∈ g.succsOf a ∧
      ReflTransGen (Leads g.succsOf) b a) ∧
    ((∀ b, ¬ TransGen (Leads g.succsOf) b b) → g.backEdges.edges = []) ∧
    ∀ i, ReflTransGen (Leads g.succsOf) 0 i → ReflTransGen (g.Flows g.backEdges) 0 i ∧
      ∃ way, Way g g.backEdges way i ∧
        ∀ s : Setting, s.module = m → s.graph = g → s.cut = g.backEdges →
          ∀ block b r c, g.indexOf m block = .ok i → InUse s b → outcome (path s block) b = (.ok r, c) →
            ∀ assign val, c.Agrees assign val → way.IsChain (fun a b => Goes s val a b ∧ Assigns s val a b) →
              c.arena.eval assign r = 1 := by
  refine ⟨fun e mem => Graph.of_mem_backEdges run mem, fun acyclic => ?_, fun i live => ?_⟩
  · refine List.eq_nil_iff_forall_not_mem.2 fun e mem => ?_
    obtain ⟨a, b, -, edge, back⟩ := Graph.of_mem_backEdges run mem
    exact acyclic a (.head' edge back)
  · have kept := Graph.reaches_without_backEdges run live
    obtain ⟨way, found⟩ := exists_way (Graph.acyclic_without_backEdges run 0) kept
    refine ⟨kept, way, found, ?_⟩
    intro s module graph cut block b r c index inUse returned assign val agrees pass
    subst module graph
    rw [← cut] at found
    obtain ⟨-, j, index', told⟩ := (path_does run block (inUse.ordered run)).ok returned
    cases index.symm.trans index'
    exact (told.value assign val agrees).2 (reaches_iff_route.2 ⟨way, found.route pass⟩)

/-- The loop is left, and its end still reached. -/
theorem backEdges_spare_loop : Graph.ofFunc loop.module loopFunc = .ok loop.graph ∧
    loop.graph.backEdges.edges = [(1, 1)] ∧ ReflTransGen (Leads loop.graph.succsOf) 0 2 ∧
      ReflTransGen (loop.graph.Flows loop.graph.backEdges) 0 2 := by
  have enter : Leads loop.graph.succsOf 0 1 := by
    unfold Leads
    decide +kernel
  have leave : Leads loop.graph.succsOf 1 2 := by
    unfold Leads
    decide +kernel
  have live := (ReflTransGen.single enter).tail leave
  exact ⟨loop_graph, by decide +kernel, live, ((backEdges_spare loop_graph).2.2 2 live).1⟩

end Faultline.Analysis
