/-
# Proofs.Flow.BackEdge — what the back edges take away, and what they leave

The search for back edges traverses the graph (`exists_traversal`), so every edge
goes down its timeline or closes a cycle, and never both
(`Searching.not_found_of_falls`). Without the back edges the graph has no cycle
(`exists_rank`); the target of a back edge reaches its source (`of_mem_backEdges`);
and what the entry reaches it still reaches without the back edges
(`reaches_without_backEdges`), since the first search sets out from it.
-/
import Faultline.Proofs.Flow.Graph
import Faultline.Proofs.Flow.Search

namespace Faultline.Flow

open Relation (ReflTransGen TransGen)
open List Finset

/-! ## Sets of edges -/

namespace EdgeSet

lemma mem_insertSorted {e d : Edge} {es : List Edge} : d ∈ insertSorted e es ↔ d = e ∨ d ∈ es := by
  induction es with
  | nil => simp [insertSorted]
  | cons f rest ih =>
    unfold insertSorted
    split
    · rename_i same
      simp [same]
    · split
      · simp
      · rw [List.mem_cons, ih, List.mem_cons]
        tauto

lemma mem_ofList {e : Edge} {es : List Edge} : e ∈ (ofList es).edges ↔ e ∈ es := by
  have grown : ∀ (es : List Edge) (set : EdgeSet), e ∈ (es.foldl insert set).edges ↔ e ∈ es ∨ e ∈ set.edges := by
    intro es
    induction es with
    | nil => simp
    | cons d es ih =>
      intro set
      rw [foldl_cons, ih, insert, mem_insertSorted, List.mem_cons]
      tauto
  rw [ofList, grown]
  simp

lemma has_ofList {source target : Int} {es : List Edge} :
    (ofList es).has source target = true ↔ (source, target) ∈ es := by
  rw [has, contains_iff_mem, mem_ofList]

end EdgeSet

/-! ## Edges that go down -/

/-- An edge that goes down does not close a cycle. -/
lemma Searching.not_found_of_falls {next : Nat → List Nat} {n b s : Nat} {t : Search} (search : Searching next n t)
    (falls : Falls next t.timeline b s) : ((b : Int), (s : Int)) ∉ t.found := by
  intro found
  obtain ⟨b', s', same, -, -, reach⟩ := search.closing _ found
  obtain ⟨rfl, rfl⟩ : b = b' ∧ s = s' := by simpa using same
  have := idxOf_le_of_reach search.nodup reach
  have := idxOf_lt_of_sublist search.nodup falls.2
  omega

namespace Graph

variable {m : IR.Module} {f : IR.Func} {g : Graph} {cut : EdgeSet} {a b : Nat} {e : Edge}

def Flows (g : Graph) (cut : EdgeSet) (a b : Nat) : Prop :=
  b ∈ g.succsOf a ∧ cut.has a b = false

lemma sum_length_getD (xs : List (List Nat)) :
    ∑ b ∈ Finset.range xs.length, (1 + (xs.getD b []).length) = xs.length + xs.flatten.length := by
  induction xs with
  | nil => rfl
  | cons x xs ih =>
    rw [length_cons, Finset.sum_range_succ']
    simp only [getD_cons_succ, getD_cons_zero, ih, flatten_cons, length_append]
    omega

lemma target_lt_of_mem_succsOf (run : ofFunc m f = .ok g) {c : Nat} (edge : c ∈ g.succsOf b) : c < g.size := by
  obtain ⟨laid, -⟩ := laid_of_ofFunc run
  have below : b < f.blocks.size := by
    have := lt_of_mem_succsOf run edge
    rwa [Graph.size, laid.func] at this
  obtain ⟨v, -, found⟩ := (laid.succs b below c).1 edge
  rw [laid.index] at found
  rw [Graph.size, laid.func]
  exact (of_numbering found).1

lemma sum_succsOf_lt (run : ofFunc m f = .ok g) : ∑ b ∈ Finset.range g.size, (1 + (g.succsOf b).length) < g.steps := by
  obtain ⟨laid, -⟩ := laid_of_ofFunc run
  have size : g.succs.toList.length = g.size := by
    rw [Array.length_toList, laid.size, Graph.size, laid.func]
  have total := sum_length_getD g.succs.toList
  rw [size] at total
  have same : ∀ b, g.succsOf b = g.succs.toList.getD b [] := fun b => by
    rw [Graph.succsOf, Array.getD_eq_getD_getElem?, getD_eq_getElem?_getD, Array.getElem?_toList]
  rw [sum_congr rfl fun b _ => by rw [same b], total, Graph.steps]
  exact Nat.lt_succ_self _

lemma exists_traversal (run : ofFunc m f = .ok g) : ∃ t, Traverses g.succsOf (List.range g.size) {} t ∧
    g.backEdges = .ofList t.found ∧ Searching g.succsOf g.size t ∧ t.path = [] ∧ ∀ b < g.size, b ∈ t.left := by
  have bounded : ∀ b s, s ∈ g.succsOf b → s < g.size := fun b s => target_lt_of_mem_succsOf run
  have inside : ∀ root ∈ List.range g.size, root < g.size := fun root => List.mem_range.1
  have start := Searching.start g.succsOf g.size
  obtain ⟨t, traverses, -, found⟩ := start.traverses bounded rfl inside (sum_succsOf_lt run)
  obtain ⟨search, ended, -, all⟩ := traverses.searching bounded start rfl inside
  refine ⟨t, traverses, ?_, search, ended, fun b low => all b (List.mem_range.2 low)⟩
  rw [backEdges, found g rfl rfl]

/-! ## What is taken away -/

/-- **The graph without its back edges has no cycle**: its blocks can be numbered so that every other
edge goes up. -/
theorem exists_rank (run : ofFunc m f = .ok g) : ∃ rank : Nat → Nat, (∀ b, b < g.size → rank b < g.size) ∧
    ∀ p b, b ∈ g.succsOf p → g.backEdges.has p b = false → rank p < rank b := by
  obtain ⟨t, -, edges, search, ended, all⟩ := exists_traversal run
  have timeline := Search.timeline_of_rest ended
  have nodup := search.nodup
  have below := search.below
  rw [timeline] at nodup below
  refine ⟨t.left.idxOf, fun b low => ?_, fun p b edge kept => ?_⟩
  · refine lt_of_lt_of_le (idxOf_lt_length_iff.2 (all b low)) ?_
    have sub : t.left.toFinset ⊆ Finset.range g.size := fun c mem =>
      Finset.mem_range.2 (below c (mem_toFinset.1 mem))
    have card := card_le_card sub
    rwa [toFinset_card_of_nodup nodup, card_range] at card
  · have there : p ∈ t.timeline := timeline ▸ all p (lt_of_mem_succsOf run edge)
    rcases search.settled p there b edge with ⟨_, waits, -⟩ | found | down
    · rw [ended] at waits
      cases waits
    · rw [edges, EdgeSet.has_ofList.2 found] at kept
      cases kept
    · exact idxOf_lt_of_sublist nodup (timeline ▸ down)

lemma acyclic_without_backEdges (run : ofFunc m f = .ok g) (b : Nat) : ¬ TransGen (g.Flows g.backEdges) b b := by
  obtain ⟨rank, -, up⟩ := exists_rank run
  have rising : ∀ {c d}, TransGen (g.Flows g.backEdges) c d → rank c < rank d := by
    intro c d way
    induction way with
    | single edge => exact up _ _ edge.1 edge.2
    | tail _ edge ih => exact ih.trans (up _ _ edge.1 edge.2)
  exact fun cycle => lt_irrefl _ (rising cycle)

lemma of_mem_backEdges (run : ofFunc m f = .ok g) (mem : e ∈ g.backEdges.edges) :
    ∃ a b : Nat, e = ((a : Int), (b : Int)) ∧ b ∈ g.succsOf a ∧ ReflTransGen (Leads g.succsOf) b a := by
  obtain ⟨t, -, edges, search, -⟩ := exists_traversal run
  rw [edges, EdgeSet.mem_ofList] at mem
  obtain ⟨a, b, same, -, edge, reach⟩ := search.closing e mem
  exact ⟨a, b, same, edge, leads_of_falls reach⟩

/-! ## What is left -/

lemma reaches_without_backEdges (run : ofFunc m f = .ok g) (way : ReflTransGen (Leads g.succsOf) 0 b) :
    ReflTransGen (g.Flows g.backEdges) 0 b := by
  rcases way.cases_head with rfl | ⟨_, edge, -⟩
  · exact .refl
  have low : 0 < g.size := lt_of_mem_succsOf run edge
  obtain ⟨t, traverses, edges, search, ended, -⟩ := exists_traversal run
  have first : List.range g.size = 0 :: (List.range (g.size - 1)).map Nat.succ := by
    rw [← range_succ_eq_map, Nat.sub_add_cancel low]
  rw [first] at traverses
  have down := traverses.falls_of_leads (n := g.size) (fun _ _ => target_lt_of_mem_succsOf run)
    (fun r mem => List.mem_range.1 (first ▸ mem)) way
  refine ReflTransGen.mono (fun a c falls => ⟨falls.1, ?_⟩) _ _ down
  rw [edges, Bool.eq_false_iff]
  refine fun has => search.not_found_of_falls ?_ (EdgeSet.has_ofList.1 has)
  rwa [Search.timeline_of_rest ended]

/-- The back edges are those of the edges: nothing else of a graph counts. -/
lemma backEdges_congr {g' : Graph} (size : g'.size = g.size) (succs : g'.succs = g.succs) :
    g'.backEdges = g.backEdges := by
  have succsOf : g'.succsOf = g.succsOf := by
    funext b
    rw [Graph.succsOf, Graph.succsOf, succs]
  have steps : g'.steps = g.steps := by rw [Graph.steps, Graph.steps, size, succs]
  have same : ∀ roots seen found, backEdgesFrom g' roots seen found = backEdgesFrom g roots seen found := by
    intro roots
    induction roots with
    | nil => exact fun _ _ => rfl
    | cons root roots ih =>
      intro seen found
      rw [backEdgesFrom, backEdgesFrom, succsOf, steps]
      split
      · exact ih seen found
      · exact ih _ _
  rw [backEdges, backEdges, size, same]

end Graph

end Faultline.Flow
