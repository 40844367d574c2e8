/-
# Proofs.Analysis.Service — the path engine serves, or says why not

The path engine works under a contract as the value engine does. What it hands to a
builder is held, so it can be refused for three reasons only (`Fair`): a look-up was
refused, formulas of different widths met, or a block under way was asked for again,
and then the block that was asked for at first is `Looped`. If the blocks that may
get a formula are closed under following all uncut edges (`Spreads`), exactly such
blocks are served.
-/
import Faultline.Proofs.Analysis.Balance

namespace Faultline.Analysis

open IR (ValueId)
open Formula (Arena Build Handle)

variable {k : Contract} {s : Setting} {root i : Nat} {blame : Fault → Bench → Bench → Prop} {b c : Bench}
  {v : ValueId} {f g : Handle} {extra : Multiset Handle} {α : Type}

/-- What the path engine may be refused for on behalf of block `root`. -/
structure Fair (k : Contract) (s : Setting) (root : Nat) (blame : Fault → Bench → Bench → Prop) : Prop where
  look : ∀ {v e b c}, outcome (lookup s v) b = (.error e, c) → e.Other → blame e b c
  widths : ∀ {op f g b c}, b.arena.widthOf f ≠ b.arena.widthOf g →
    blame (.binaryWidths op (b.arena.widthOf f) (b.arena.widthOf g)) b c
  cycle : ∀ {i b}, Looped s root → blame (.unbrokenCycle (s.blockName i)) b b
  /-- Nothing is said where anything may be negated. -/
  unsure : ¬ k.sure → ∀ e b c, blame e b c

/-- A block may get a formula if all may that an uncut edge leads from to it. -/
structure Spreads (k : Contract) (s : Setting) : Prop where
  entry : k.fit 0
  block : ∀ i, i ≠ 0 → (∀ p, s.graph.Flows s.cut p i → k.fit p) → k.fit i

lemma Pays.refusing {m : Analyze α} {after : α → Multiset Handle} (pays : Pays k s b m after)
    (blamed : ∀ e c, outcome m b = (.error e, c) → e.Other → blame e b c) :
    Refusing (Holds k s) blame b m fun r c => Holds k s c (after r) := by
  refine Ends.iff_forall.2 ⟨fun r c ran => (pays.ok ran).1, fun e c ran => ?_⟩
  obtain ⟨left, other⟩ := (Ends.iff_forall.1 pays).2 e c ran
  exact ⟨left, blamed e c ran other⟩

/-! ## Builders -/

lemma Pays.served {m : Build α} {after : α → Multiset Handle} (pays : Pays k s b (build m) after)
    (blamed : Ends b.arena m (fun _ _ => True) fun e _ => ∀ c, blame e b c) :
    Refusing (Holds k s) blame b (build m) fun r c => Holds k s c (after r) := by
  refine pays.refusing fun e c run _ => ?_
  exact ((Ends.iff_forall.1 (Ends.build blamed)).2 e c run).2 c

lemma Holds.pos_held (holds : Holds k s b extra) (held : f ∈ b.owned + extra) : 0 < b.arena.count f :=
  holds.order.pos (by
    simp only [Multiset.mem_add] at held ⊢
    exact held.imp_right .inr)

lemma Holds.binary (fair : Fair k s root blame) (holds : Holds k s b extra) (op : Formula.Binary)
    (left : f ∈ b.owned + extra) (right : g ∈ b.owned + extra) :
    Refusing (Holds k s) blame b (build (Formula.binary op f g)) fun r c => Holds k s c (r ::ₘ extra) := by
  refine (holds.call (.binary op f g) trivial).served ?_
  refine (Formula.Builder.binary_blamed holds.wellFormed holds.order.tame op
    ⟨holds.pos_held left, holds.pos_held right⟩).mono (fun _ _ _ => trivial) fun e _ h c => ?_
  rw [h.1]
  exact fair.widths h.2

/-- The negation of the formula of a value. Of a negation it is the operand, which is the formula of a value. -/
lemma Holds.not (fair : Fair k s root blame) (holds : Holds k s b extra) (known : b.formula? v = some f) :
    Refusing (Holds k s) blame b (build (Formula.not f)) fun r c => Holds k s c (r ::ₘ extra) := by
  have cached : b.IsCached f := Bench.mem_cached known
  refine (holds.allowed (.not f) fun _ => cached).served ?_
  by_cases sure : k.sure
  · refine ((Formula.Builder.not f).granted holds.wellFormed holds.order.tame (fun g among => ?_)
      ⟨holds.pos_cached cached, fun _ => cached⟩).mono (fun _ _ _ => trivial) fun _ _ h => h.2.2.elim
    exact holds.pos_cached (among sure)
  · exact Ends.iff_forall.2 ⟨fun _ _ _ => trivial, fun e _ _ => fair.unsure sure e b⟩

/-! ## Blocks -/

lemma owned_placed {ps : Array Handle} {i : Nat} (open_ : b.paths = some ps) (below : i < ps.size)
    (empty : b.pathOf i = 0) (some : f ≠ 0) : (placed b i f).owned = f ::ₘ b.owned := by
  have there : ps.toList[i]? = Option.some 0 := by
    rw [Bench.pathOf, open_] at empty
    rw [Array.getElem?_toList, Array.getElem?_eq_getElem below, ← empty]
    simp [below]
  unfold Bench.owned Bench.reached placed
  rw [open_]
  show (_ + ↑((ps.setIfInBounds i f).toList.filter (· ≠ 0)) : Multiset Handle) =
    f ::ₘ (_ + ↑(ps.toList.filter (· ≠ 0)))
  rw [Array.toList_setIfInBounds, Bench.filter_set there some, Multiset.add_cons]
  rfl

lemma Holds.placed (holds : Holds k s b (f ::ₘ extra)) (below : i < s.graph.size) (empty : b.pathOf i = 0)
    (fit : k.fit i) (tells : b.Tells f fun val => Reaches s val i) : Holds k s (placed b i f) extra := by
  obtain ⟨ps, open_, size⟩ := holds.places
  have some : f ≠ 0 := (Arena.realized_of_count holds.wellFormed (holds.pos (by simp))).1.ne'
  refine ⟨⟨holds.toOrdered.placed tells, ?_, holds.entries⟩, fun j some => ?_⟩
  · rw [owned_placed open_ (size ▸ below) empty some, Multiset.cons_add, ← Multiset.add_cons, ← Multiset.add_cons]
    exact holds.order
  · rw [pathOf_placed open_ (size ▸ below)] at some
    split at some
    next same => exact same ▸ fit
    next => exact holds.fit j some

/-- A contract is a regime, under which any value may be asked for. -/
def Fair.regime (fair : Fair k s root blame) (spreads : Spreads k s) : Regime s root where
  keeps := Holds k s
  asks := fun _ _ => True
  strict := False
  fit := k.fit
  blames := blame
  ordered := fun holds => holds.toOrdered
  width := fun _ strict => strict.elim
  look := fun holds _ => (lookup_borrows _ holds).refusing fun _ _ => fair.look
  bool := fun value holds => (holds.call (.const 1 _) trivial).served
    (Formula.Builder.ofBool_granted holds.wellFormed value).granted
  retain := fun holds held => (holds.retain _).served ((Formula.retain_ends holds.wellFormed _).mono
    (fun _ _ _ => trivial) fun _ _ h => absurd (holds.pos_held held) h.2.2)
  not := fun holds known => holds.not fair known
  binary := fun op holds left right _ => holds.binary fair op left right
  release := fun holds => (holds.release _ rfl).mono (fun _ _ h => h.1) fun _ _ h => h.elim
  place := fun holds below empty fit tells => holds.placed below empty fit tells
  fits := fun holds some => holds.fit _ some
  entry := spreads.entry
  block := spreads.block
  cycle := fair.cycle

lemma path_serves {fn : IR.Func} {block : ValueId} (graph : Flow.Graph.ofFunc s.module fn = .ok s.graph)
    (fair : Fair k s root blame) (spreads : Spreads k s) (found : s.graph.indexOf s.module block = .ok root)
    (holds : Holds k s b extra) :
    Ends b (path s block) (fun r c => Stays (fun _ => False) b c ∧ Holds k s c (r ::ₘ extra) ∧ c.pathOf root = r ∧ r ≠ 0)
      (fun e c => (∃ left, Holds k s c left) ∧ ∃ d, b.Grows d ∧ blame e d c) := by
  have keeps : (fair.regime spreads).keeps b extra := holds
  refine Ends.mono (Regime.path_works graph (fun i _ => Regime.asksBlock_of_forall (fun _ _ => trivial) i) found keeps)
    (fun r c h => ?_) fun _ _ h => h
  exact ⟨h.1, h.2.1.keeps, h.2.2⟩

end Faultline.Analysis
