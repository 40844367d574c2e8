/-
# Proofs.Instrument.WellFormed — well-formed functions are instrumented and checked

A function is well-formed if its values are typed, one value comes in for each phi
and predecessor, and what a report shows of it can be written. Such a function gets
its guards (`WellFormed.fit`). With them it is the same function up to its guards
(`Finished.follows`), and the question about each of them is granted
(`Follows.asked`). So the whole module can be checked afterwards (`settled`).
-/
import Faultline.Proofs.Check.Granted
import Faultline.Proofs.Instrument.Routes

namespace Faultline.Instrument

open IR (Module ValueId Func Block Def Inst Ty)
open Formula (Arith)
open Faultline.Flow (Graph)
open Analysis (Proper HasBits BlockTyped SingleIncoming Asked)
open Check (Site settingOf settingAt Settled)
open List

variable {m c : Module} {layout : Faultline.Layout} {f f' : Func} {g : Graph} {v x y : ValueId} {h : Hazard} {s s' : Setting}

/-! ## Functions -/

/-- Where one operand of an arithmetic instruction is a plain integer, both are, of the same width. -/
def OperandsTyped (s : Setting) (v : ValueId) : Prop :=
  ∀ name t op flags x y trail, s.module.get? v = some (.inst name t (.arith op flags x y) trail) →
    ∀ w, s.module.resolve (s.module.typeOf x) = .int w ∨ s.module.resolve (s.module.typeOf y) = .int w →
      (Proper s x ∧ HasBits s x w) ∧ Proper s y ∧ HasBits s y w

/-- A function of typed values whose blocks have names and ends, and whose guarded instructions can be written. -/
structure WellFormed (m : Module) (layout : Faultline.Layout) (f : Func) : Prop where
  graph : Graph.ofFunc m f = .ok (settingOf m layout f).graph
  blocks : ∀ i < (settingOf m layout f).graph.size, BlockTyped (settingOf m layout f) i
  incoming : ∀ b ∈ f.blocks, ∀ v ∈ b.insts, SingleIncoming (settingOf m layout f) v
  operands : ∀ b ∈ f.blocks, ∀ v ∈ b.insts, OperandsTyped (settingOf m layout f) v
  named : ∀ b ∈ f.blocks, ∃ n, m.get? b.id = some (.block n)
  ends : ∀ b ∈ f.blocks, ∀ v ∈ b.term, ∃ name t k trail, m.get? v = some (.term name t k trail)
  lines : ∀ b ∈ f.blocks, ∀ v ∈ b.insts, (hazardOf m v).isSome → (m.lineText v).isSome

/-! ## Fitness -/

lemma constIndex_granted (typed : ∀ w, s.module.resolve (s.module.typeOf y) = .int w → Proper s y ∧ HasBits s y w) :
    ∃ k, Analysis.constIndex s.module y = .ok k := by
  unfold Analysis.constIndex
  split
  next type n found =>
    split
    next none =>
      have same : s.module.typeOf y = type := by
        unfold Module.typeOf
        rw [found]
        rfl
      obtain ⟨proper, has⟩ := typed 0 (same ▸ none)
      obtain ⟨w, d, sane, -⟩ := proper.sane
      cases has.symm.trans sane.bits
      exact absurd sane.positive (lt_irrefl 0)
    next => exact ⟨_, rfl⟩
    next => exact ⟨_, rfl⟩
  next => exact ⟨_, rfl⟩

lemma isSpeculatable_granted (typed : OperandsTyped s v) : ∃ out, isSpeculatable s.module v = .ok out := by
  unfold isSpeculatable
  split
  next name t i trail found =>
    cases i with
    | arith op flags x y =>
      obtain ⟨k, known⟩ := constIndex_granted fun w int => (typed name t op flags x y trail found w (.inr int)).2
      cases op with
      | sdiv | srem =>
        unfold isSpeculatableInst
        dsimp only
        split
        · exact ⟨_, by rw [isAllOnes, known]; rfl⟩
        · exact ⟨_, rfl⟩
      | _ => exact ⟨_, rfl⟩
    | _ => exact ⟨_, rfl⟩
  next => exact ⟨false, rfl⟩

lemma observableFrom_granted (judged : ∀ v, ∀ u ∈ g.usersOf v, ∃ out, isSpeculatable m u = .ok out) (fuel : Nat)
    (seen : Std.HashSet ValueId) (stack : List ValueId) (waiting : ∀ u ∈ stack, ∃ out, isSpeculatable m u = .ok out) :
    ∃ out, observableFrom m g fuel seen stack = .ok out := by
  induction fuel generalizing seen stack with
  | zero => exact ⟨false, rfl⟩
  | succ fuel ih =>
    cases stack with
    | nil => exact ⟨false, rfl⟩
    | cons u stack =>
      obtain ⟨⟨out, known⟩, later⟩ := forall_mem_cons.1 waiting
      unfold observableFrom
      rw [known]
      split
      · exact ih seen stack later
      · cases out with
        | false => exact ⟨true, rfl⟩
        | true =>
          refine ih (seen.insert u) _ fun w mem => ?_
          rcases mem_append.1 mem with user | old
          · exact judged u w (mem_reverse.1 user)
          · exact later w old

namespace WellFormed

variable (wellFormed : WellFormed m layout f)

include wellFormed

lemma observable_granted (v : ValueId) : ∃ out, observable m (settingOf m layout f).graph v = .ok out := by
  have judged : ∀ v, ∀ u ∈ (settingOf m layout f).graph.usersOf v, ∃ out, isSpeculatable m u = .ok out := by
    intro v u user
    have listed := ((Graph.mem_usersOf wellFormed.graph).1 user).2.1
    obtain ⟨b, there, entry⟩ := mem_flatMap.1 listed
    have there := Array.mem_toList_iff.1 there
    rcases mem_append.1 entry with inst | term
    · exact isSpeculatable_granted (wellFormed.operands b there u (Array.mem_toList_iff.1 inst))
    · obtain ⟨name, t, k, trail, found⟩ := wellFormed.ends b there u (Option.mem_toList.1 term)
      exact ⟨false, by rw [isSpeculatable, found]⟩
  exact observableFrom_granted judged _ _ _ fun u mem => judged v u (mem_reverse.1 mem)

lemma fit (distinct : f.locals.Nodup) : Fit m f := by
  refine ⟨distinct, _, wellFormed.graph, fun b there v mem unfit => ?_⟩
  obtain ⟨h, hazard, ⟨t, x, y, rfl⟩ | ⟨-, e, refused⟩⟩ := unfit
  · have typed := wellFormed.operands b (Array.mem_toList_iff.1 there) v (Array.mem_toList_iff.1 mem)
    obtain ⟨name, type, op, flags, x', y', trail, bits, found, int, kinds⟩ := hazardOf_cases hazard
    obtain ⟨⟨proper, has⟩, -⟩ := typed name type op flags x' y' trail found bits (.inl int)
    obtain ⟨w, d, sane, -⟩ := proper.sane
    cases has.symm.trans sane.bits
    rcases kinds with ⟨_, other⟩ | other | other | ⟨-, same⟩
    · cases other
    · cases other
    · cases other
    · cases same
      exact absurd sane.positive (lt_irrefl 0)
  · obtain ⟨out, known⟩ := wellFormed.observable_granted v
    cases known.symm.trans refused

end WellFormed

/-! ## The function with its guards -/

lemma Finished.follows (finished : Finished m c f f') (alike : m.Alike c) (closed : m.Closed) (listed : f ∈ m.funcs)
    (layout : Faultline.Layout) : Graph.ofFunc c f' = .ok (settingOf c layout f').graph ∧
      Follows (settingOf m layout f) (settingOf c layout f') := by
  obtain ⟨-, g, graph, weaves⟩ := finished
  obtain rfl : g.func = f := (Graph.laid_of_ofFunc graph).1.func
  have ends : Graph.SameEnds g.func f' := weaves.imp fun b b' weaves => by
    rw [weaves.same]
    exact ⟨rfl, rfl⟩
  have inside : ∀ i, ∀ v ∈ (g.block i).term, v < m.defs.size := by
    intro i v term
    by_cases below : i < g.size
    · have there := (Graph.mem_blocks graph).2 ⟨i, below, rfl⟩
      exact closed.lists listed (mem_listing there (mem_append_right _ (Option.mem_toList.2 term)))
    · rw [Graph.block_of_le (Nat.le_of_not_lt below)] at term
      cases term
  have targets : ∀ i < g.func.blocks.size, Graph.targets c (f'.blocks.getD i default) = Graph.targets m (g.block i) := by
    intro i _
    have same : Graph.targets c (f'.blocks.getD i default) = Graph.targets c (g.block i) := by
      unfold Graph.targets
      rw [(ends.block i).2]
      rfl
    exact same.trans (Alike.targets_eq alike (inside i))
  obtain ⟨g', graph', func', outlines⟩ := Graph.exists_outlined ends targets graph
  obtain rfl : g'.func = f' := func'
  rw [Check.settingOf_eq layout graph, Check.settingOf_eq layout graph']
  refine ⟨graph', ⟨alike, closed, rfl⟩, outlines, ?_, fun i below => ?_, inside⟩
  · exact Graph.backEdges_congr outlines.ends.size_eq outlines.succs
  · have below : i < g.func.blocks.size := below
    have below' : i < g'.func.blocks.size := ends.size_eq ▸ below
    show Weaves m c g (g.block i) (g'.block i)
    rw [Graph.block_eq below, Graph.block_eq below']
    exact weaves.get below below'

lemma Follows.settingAt (follows : Follows s s') (site : Site) : Follows s (settingAt s' site) :=
  ⟨⟨follows.mirrors.alike, follows.mirrors.closed, follows.mirrors.layout⟩, follows.outlines, follows.cut, follows.weaves,
    follows.inside⟩

lemma nodup_ids (distinct : f.locals.Nodup) : (f.blocks.toList.map Block.id).Nodup := by
  refine (List.Sublist.trans ?_ (sublist_append_right _ _)).nodup distinct
  induction f.blocks.toList with
  | nil => exact List.Sublist.slnil
  | cons b bs ih => exact (ih.trans (sublist_append_right _ _)).cons_cons b.id

lemma nodup_listing (distinct : f.locals.Nodup) : (Graph.listing f).Nodup := by
  refine (List.Sublist.trans ?_ (sublist_append_right _ _)).nodup distinct
  unfold Graph.listing
  induction f.blocks.toList with
  | nil => exact List.Sublist.slnil
  | cons b bs ih => exact (sublist_cons_self b.id _).append ih

lemma Alike.calleeName_eq (alike : m.Alike c) (inside : v < m.defs.size) :
    Sentinel.calleeName c v = Sentinel.calleeName m v := by
  obtain ⟨d, n, here, there⟩ := alike.renamed inside
  unfold Sentinel.calleeName
  cases d with
  | func name t => rw [alike.global here rfl, here]
  | param | inst | term | block | const | global | attributed =>
    rw [here, there]
    rfl

lemma HasNoSentinels.isCall_eq (none : HasNoSentinels m) (alike : m.Alike c) (closed : m.Closed) (old : v < m.defs.size) :
    Sentinel.isCall c v = false := by
  have free (callee : ValueId) : Sentinel.kindOf? (Sentinel.calleeName m callee) = .none := by
    unfold Sentinel.calleeName
    split
    next found => exact none callee _ _ found rfl
    next => decide +kernel
  obtain ⟨d, n, here, there⟩ := alike.renamed old
  unfold Sentinel.isCall
  rw [there]
  cases d with
  | inst name t i trail =>
    cases i with
    | call call =>
      have read := closed.reads v _ here call.callee (by simp [Def.operands, Inst.operands, IR.Call.operands])
      dsimp only [Def.setName]
      rw [Alike.calleeName_eq alike read, free]
      rfl
    | _ => rfl
  | _ => rfl

section Guarded

variable (complete : Complete m) (wellFormed : WellFormed m layout f) (listed : f ∈ m.funcs) (alike : m.Alike c)
  (finished : Finished m c f f')

include complete wellFormed listed alike finished

/-- The question about the call before a guarded instruction is granted: it is whether control gets there and the
instruction goes wrong. -/
lemma guard_asked {i : Nat} {b : Block} {name : IR.Name} {t : Ty} {op : Arith} {flags : List String}
    {trail : List (IR.Piece ValueId)} {w : Nat} {group : List ValueId} (site : Site) (below : i < (settingOf m layout f).graph.size)
    (here : (settingOf m layout f).graph.block i = b) (there : v ∈ b.insts)
    (found : m.get? v = some (.inst name t (.arith op flags x y) trail)) (int : m.resolve (m.typeOf x) = .int w)
    (hazard : hazardOf m v = some h) (guards : Guards c h group) (last : group.getLast? = some site.call)
    (block : site.block = b.id) :
    ∃ bug reach both b c₁ d, Asked (settingAt (settingOf c layout f') site) site.block site.call i
      (fun val => Faults op (flags.contains "nsw") (BitVec.ofNat w (val x)) (BitVec.ofNat w (val y))) bug reach both b c₁ d := by
  obtain ⟨graph', follows⟩ := finished.follows alike complete.closed listed layout
  have follows := follows.settingAt site
  have mem : b ∈ f.blocks := (Graph.mem_blocks wellFormed.graph).2 ⟨i, below, here⟩
  obtain ⟨⟨left, hasLeft⟩, right, hasRight⟩ := wellFormed.operands b mem v there name t op flags x y trail found w (.inl int)
  have index : (settingOf m layout f).graph.index[b.id]? = some i :=
    here ▸ Graph.index_block wellFormed.graph (nodup_ids (nodup_of_distinct complete.distinct listed)) below
  refine Analysis.question_fine (s := settingAt (settingOf c layout f') site) graph' rfl (fun j less => ?_) ?_ ?_
  · have less : j < (settingOf m layout f).graph.size := lt_of_lt_of_eq less follows.outlines.ends.size_eq
    exact follows.blockTyped less (wellFormed.blocks j less)
  · unfold Graph.indexOf
    rw [follows.outlines.index, block, index]
  · exact guards.tells_faults (complete.hasTruths alike) follows.mirrors found int hazard last left right hasLeft hasRight
      (Analysis.fine_start _)

/-- Every sentinel call of the function with its guards can be asked about and reported. -/
lemma settled (none : HasNoSentinels m) : Settled c layout f' := by
  obtain ⟨graph', follows⟩ := finished.follows alike complete.closed listed layout
  refine ⟨graph', fun site mem => ?_⟩
  obtain ⟨isCall, b', there, front, after, split, same⟩ := Check.mem_sentinelSites.1 mem
  obtain ⟨i, below', here'⟩ := (Graph.mem_blocks graph').1 there
  have below : i < (settingOf m layout f).graph.size := lt_of_lt_of_eq below' follows.outlines.ends.size_eq
  have inside := (Graph.mem_blocks wellFormed.graph).2 ⟨i, below, rfl⟩
  have weaves : Weaves m c (settingOf m layout f).graph ((settingOf m layout f).graph.block i) b' := here' ▸ follows.weaves i below
  -- every call of a sentinel is new, so it guards what comes next
  have new : m.defs.size ≤ site.call := by
    by_contra old
    rw [none.isCall_eq alike complete.closed (Nat.lt_of_not_le old)] at isCall
    cases isCall
  obtain ⟨v, rest, h, earlier, others, rfl, listed', -, hazard, -, rfl, guards⟩ := weaves.next front site.call after split new isCall
  have listed' := Array.mem_toList_iff.1 listed'
  obtain ⟨name, t, op, flags, x, y, trail, w, found, int, -⟩ := hazardOf_cases hazard
  have next : site.next = some v := by rw [same]; rfl
  have block : site.block = ((settingOf m layout f).graph.block i).id := by
    rw [same, weaves.same]
  refine ⟨?_, ?_, ?_⟩
  · rw [next]
    exact alike.lineText complete.closed (wellFormed.lines _ inside v listed' (Option.isSome_iff_exists.2 ⟨h, hazard⟩))
  · rw [block]
    obtain ⟨n, named⟩ := wellFormed.named _ inside
    exact alike.identText (Module.identText_of_name named rfl)
  · obtain ⟨bug, reach, both, b, c₁, d, asked⟩ := guard_asked complete wellFormed listed alike finished site below rfl
      listed' found int hazard guards (by simp) block
    exact ⟨bug, reach, both, d, asked.question, asked.joint, asked.width⟩

end Guarded

end Faultline.Instrument
