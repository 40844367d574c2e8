/-
# Proofs.Analysis.Follow — the ways into a block are followed to their end

Where the values that blocks ask for are typed, with the bits that are asked for,
the path engine is refused only for a reason that one of the values gives
(`path_fit`): conditions have one bit, and a condition that is negated is one the
value engine keeps. In a function of `BlockTyped` blocks it is never refused
(`path_fine`), since no cycle is left without the back edges.
-/
import Faultline.Proofs.Analysis.Express
import Faultline.Proofs.Analysis.Service

namespace Faultline.Analysis

open IR (ValueId Term)
open Formula (Arena Build Handle)

variable {s : Setting} {T : ValueId → Prop} {root i w : Nat} {b c : Bench} {v : ValueId} {f r : Handle}
  {extra : Multiset Handle} {fn : IR.Func} {m : Build Handle}

/-! ## Typed blocks -/

def TermTyped (s : Setting) : Term ValueId → Prop
  | .condBr c _ _ => Proper s c ∧ HasBits s c 1
  | .switch x _ cases => Proper s x ∧ ∀ arm ∈ cases, Proper s arm.1 ∧ HasBits s arm.1 (bits s x)
  | _ => True

def PhiTyped (s : Setting) (v : ValueId) : Prop :=
  ∀ name t flags type incoming trail, s.module.get? v = some (.inst name t (.phi flags type incoming) trail) →
    (s.width? t).isSome → Proper s v ∧ ∀ pair ∈ incoming, isUndef s.module pair.1 = false →
      Proper s pair.1 ∧ HasBits s pair.1 (bits s v)

structure BlockTyped (s : Setting) (i : Nat) : Prop where
  term : ∀ t, terminatorOf? s i = some t → TermTyped s t
  phis : ∀ v ∈ (s.graph.block i).insts.toList, PhiTyped s v

/-- The engines went on to `c` in good order, with a result of one bit of their own. -/
structure Bit (s : Setting) (b : Bench) (extra : Multiset Handle) (r : Handle) (c : Bench) : Prop where
  step : Step s (fun _ => True) b c
  fine : Fine s c (r ::ₘ extra)
  width : c.arena.widthOf r = 1

/-! ## Typed values under a regime -/

lemma Fit.gains {word : (Handle → Nat) → BitVec w} (fit : Fit s T b extra)
    (ends : Ends b.arena m (fun r a => b.arena.Gives b.IsCached (b.owned + extra) r a word) fun _ _ => False) :
    Ends b (Faultline.build m) (fun r c => Step s (fun _ => True) b c ∧ Fit s T c (r ::ₘ extra) ∧ c.arena.widthOf r = w)
      (fun _ _ => False) := by
  refine (Ends.build ends).mono (fun r c h => ?_) fun _ _ h => h.2
  obtain ⟨same, gives⟩ := h
  exact ⟨.of_keeps fit.toSound same ⟨gives.grows, gives.stocked.wellFormed⟩,
    fit.of_arena same gives.grows (Multiset.add_cons r b.owned extra ▸ gives.stocked), gives.width⟩

/-- A bench in good order that fits. -/
def Follows (s : Setting) (T : ValueId → Prop) (b : Bench) (extra : Multiset Handle) : Prop :=
  Fit s T b extra ∧ Ordered s b

/-- One of the values gives a reason. -/
def Reasoned (s : Setting) (T : ValueId → Prop) (e : Fault) : Prop :=
  ∃ v, T v ∧ Reason s v e

lemma Typing.reasoned {e : Fault} (typing : Typing s T) (among : T v) (cause : Cause s v e) : Reasoned s T e := by
  obtain ⟨x, needs, reason⟩ := cause
  exact ⟨x, typing.needs among needs, reason⟩

namespace Follows

lemma tries {α : Type} {why : Fault → Prop} {m : Analyze α} {S : ValueId → Prop} {Q : α → Bench → Prop}
    {R : α → Bench → Prop} {after : α → Multiset Handle} (follows : Follows s T b extra)
    (tries : Tries s T why b m Q) (does : Does (Step s S) b m R) (fits : ∀ r c, Q r c → Fit s T c (after r)) :
    Ends b m (fun r c => Follows s T c (after r)) (fun e c => (∃ left, Follows s T c left) ∧ why e) := by
  refine (Ends.and tries does).mono (fun r c h => ?_) fun e c h => ?_
  · exact ⟨fits r c h.1.2, follows.2.of_step h.1.1⟩
  · obtain ⟨⟨⟨left, fit⟩, cause⟩, step⟩ := h
    exact ⟨⟨left, fit, follows.2.of_step step⟩, cause⟩

lemma gains {word : (Handle → Nat) → BitVec w} {E : Fault → Bench → Prop} (follows : Follows s T b extra)
    (ends : Ends b.arena m (fun r a => b.arena.Gives b.IsCached (b.owned + extra) r a word) fun _ _ => False) :
    Ends b (build m) (fun r c => Follows s T c (r ::ₘ extra)) E :=
  (follows.1.gains ends).mono (fun _ _ h => ⟨h.2.1, follows.2.of_step h.1⟩) fun _ _ h => h.elim

end Follows

lemma Fit.placed (fit : Fit s T b (f ::ₘ extra)) (ordered : Ordered s b) (below : i < s.graph.size)
    (empty : b.pathOf i = 0) : Fit s T (placed b i f) extra := by
  obtain ⟨ps, open_, size⟩ := ordered.places
  have some : f ≠ 0 := (Arena.realized_of_count fit.wellFormed (fit.stocked.count_pos (by simp))).1.ne'
  have stocked : b.arena.Stocked b.IsCached ((Analysis.placed b i f).owned + extra) := by
    rw [owned_placed open_ (size ▸ below) empty some, Multiset.cons_add, ← Multiset.add_cons]
    exact fit.stocked
  exact ⟨⟨⟨fit.wellFormed, fit.node⟩, fit.open_, fit.grounded⟩, stocked, fit.within, fit.width, fit.operands, fit.value,
    fit.free, fit.apart⟩

/-- Typed values, asked for with their bits, on behalf of a block that no cycle leads to. -/
def Typing.regime (typing : Typing s T) (unlooped : ¬ Looped s root) : Regime s root where
  keeps := Follows s T
  asks := fun v n => T v ∧ HasBits s v n
  strict := True
  fit := fun _ => True
  blames := fun e _ _ => Reasoned s T e
  ordered := And.right
  width := fun follows _ asks known => (follows.1.width known).trans asks.2.bits_eq
  look := fun {b extra v _} follows asks =>
    (follows.tries (lookup_fit typing asks.1 b extra follows.1) (lookupFrom_does _ v follows.1.toSound)
      fun _ _ h => h.1).blame fun _ _ h => ⟨h.1, typing.reasoned asks.1 h.2⟩
  bool := fun value follows => follows.gains (Formula.ofBool_gives follows.1.stocked value)
  retain := fun follows mem => follows.gains ((Formula.retain_gives follows.1.stocked (.of_mem mem rfl)).imp
    fun _ _ h => h.2)
  not := fun follows known => follows.gains (Formula.not_gives follows.1.stocked
    (.of_mem (follows.1.mem known) rfl) (Bench.mem_cached known))
  binary := fun op follows mem mem' same => follows.gains (Formula.binary_gives follows.1.stocked op
    (.of_mem mem (same trivial)) (.of_mem mem' rfl))
  release := fun {b _ fs} follows =>
    have tries : Tries s T (fun _ => False) b _ _ := follows.1.release rfl
    (follows.tries tries (build_does (S := fun _ => True) (.release fs) follows.1.toSound) fun _ _ h => h).blame
      fun _ _ h => h.2.elim
  place := fun follows below empty _ tells => ⟨follows.1.placed follows.2 below empty, follows.2.placed tells⟩
  fits := fun _ _ => trivial
  entry := trivial
  block := fun _ _ _ => trivial
  cycle := fun looped => absurd looped unlooped

/-! ## Blocks -/

lemma unlooped_of_cut (graph : Flow.Graph.ofFunc s.module fn = .ok s.graph)
    (cut : s.cut = s.graph.backEdges) (i : Nat) : ¬ Looped s i := by
  rintro ⟨l, cycle, -⟩
  have flows : ∀ a b, Inner s a b → s.graph.Flows s.graph.backEdges a b := fun a b inner => cut ▸ inner.1
  exact Flow.Graph.acyclic_without_backEdges graph l (Relation.TransGen.mono flows l l cycle)

lemma BlockTyped.asks (typed : BlockTyped s i) (unlooped : ¬ Looped s root) :
    ((proper_typing s).regime unlooped).AsksBlock i where
  term := fun t found => by
    have asked := typed.term t found
    cases t with
    | condBr => exact asked
    | switch => exact ⟨_, ⟨asked.1, asked.1.hasBits⟩, asked.2⟩
    | _ => trivial
  phis := fun v listed name t flags type incoming trail found analysed => by
    obtain ⟨proper, values⟩ := typed.phis v listed name t flags type incoming trail found analysed
    exact ⟨_, ⟨proper, proper.hasBits⟩, values⟩

lemma path_fine {block : ValueId} (graph : Flow.Graph.ofFunc s.module fn = .ok s.graph)
    (cut : s.cut = s.graph.backEdges) (typed : ∀ i < s.graph.size, BlockTyped s i)
    (found : s.graph.indexOf s.module block = .ok i) (fine : Fine s b extra) (ordered : Ordered s b) :
    Ends b (path s block) (fun r c => b.Grows c ∧ Fine s c (r ::ₘ extra) ∧ c.Tells r fun val => Reaches s val i)
      (fun _ _ => False) := by
  have unlooped := unlooped_of_cut graph cut i
  have keeps : ((proper_typing s).regime unlooped).keeps b extra := ⟨fit_proper.2 fine, ordered⟩
  refine Ends.mono (Regime.path_works graph (fun j below => (typed j below).asks unlooped) found keeps) (fun r c h => ?_)
    fun e c h => ?_
  · exact ⟨h.1.grows, fit_proper.1 h.2.1.keeps.1, h.2.1.tells⟩
  · obtain ⟨-, d, -, v, proper, reason⟩ := h
    exact proper.not_cause ⟨v, .refl, reason⟩

end Faultline.Analysis
