/-
# Proofs.Formula.Ledger — every reference is accounted for

An arena is in order for a ledger of references (`Arena.InOrder`) when it is well
formed and tame, every count is the number of entries in the ledger, and `live` is
the length of the ledger. A builder that returns adds its result to the ledger, and
so does an overflow predicate; one that is refused, at whatever step, has left the
ledger as it was (`Arena.Pays`).
-/
import Faultline.Proofs.Formula.Owned

namespace Faultline.Formula

open Arena (Built)
open Multiset

variable {a b : Arena} {f g r w k : Nat} {n : Node} {safe : Prop} {P : Handle → Prop}

/-- An extension has more bits than its operand. -/
def Node.Widens (n : Node) (width : Handle → Nat) : Prop :=
  match n.term with
  | .zext x | .sext x => width x < n.width
  | _ => True

lemma Node.Modest.widens (modest : n.Modest safe a.widthOf P) (sure : safe) : n.Widens a.widthOf := by
  obtain ⟨w, term⟩ := n
  cases term with
  | zext x | sext x => exact modest sure
  | _ => trivial

namespace Builder

/-- An extension of a held formula does not wrap around. -/
def Unwrapped (a : Arena) : Builder → Prop
  | zext f k | sext f k => 0 < a.count f → a.widthOf f + k < twoPow 64
  | _ => True

lemma Allowed.of_unwrapped {call : Builder} (all : ∀ f, P f) (unwrapped : safe → call.Unwrapped a) :
    call.Allowed safe P a := by
  cases call with
  | not f => exact all f
  | zext f k | sext f k => exact unwrapped
  | _ => trivial

lemma Positive.allowed {call : Builder} (positive : call.Positive) : call.Allowed False P a := by
  cases call with
  | not f => exact positive.elim
  | zext f k | sext f k => exact nofun
  | _ => trivial

end Builder

/-! ## The ledger -/

namespace Arena

/-- The references to the formulas of `a` are those of `owned`. -/
structure InOrder (safe : Prop) (P : Handle → Prop) (a : Arena) (owned : Multiset Handle) : Prop extends a.WellFormed where
  count : ∀ f : Nat, a.count f = owned.count f
  live : a.live = owned.card
  tame : a.Tame safe P

variable {owned : Multiset Handle}

lemma inOrder_empty : InOrder safe P {} 0 where
  toWellFormed := wellFormed_empty
  count := fun f => by simp [count]
  live := rfl
  tame := tame_empty

lemma InOrder.strict (order : a.InOrder safe P owned) (sure : safe) (found : a.node? f = some n) :
    n.Widens a.widthOf :=
  (order.tame.modest found).widens sure

lemma InOrder.pos (order : a.InOrder safe P owned) (mem : f ∈ owned) : 0 < a.count f := by
  rw [order.count]
  exact count_pos.2 mem

lemma InOrder.mem (order : a.InOrder safe P owned) (counted : 0 < a.count f) : f ∈ owned := by
  rw [order.count] at counted
  exact count_pos.1 counted

lemma InOrder.supplied (order : a.InOrder safe P owned) : a.Supplied safe P owned :=
  ⟨order.toWellFormed, order.tame, fun f => (order.count f).ge⟩

lemma InOrder.mono {P' : Handle → Prop} (order : a.InOrder safe P owned) (weaker : ∀ f, P f → P' f) :
    a.InOrder safe P' owned :=
  { order with tame := order.tame.mono weaker }

lemma InOrder.built {v : (Handle → Nat) → Nat} (order : a.InOrder safe P owned) (built : Built a r b w v)
    (tame : b.Tame safe P) : b.InOrder safe P (r ::ₘ owned) := by
  refine ⟨built.wellFormed, fun f => ?_, ?_, tame⟩
  · rw [built.count, order.count, count_cons]
  · rw [built.live, order.live, card_cons]

lemma InOrder.drop (order : a.InOrder safe P (f ::ₘ owned)) : (a.drop f).InOrder safe P owned where
  toWellFormed := order.toWellFormed.drop f
  count := by
    intro g
    rw [count_drop order.toWellFormed (order.pos (mem_cons_self f owned)), order.count,
      count_cons, Nat.add_sub_cancel]
  live := by
    show a.live - 1 = _
    rw [order.live, card_cons, Nat.add_sub_cancel]
  tame := order.tame.drop f

lemma InOrder.live_eq_sum (order : a.InOrder safe P owned) :
    a.live = ∑ f ∈ Finset.range a.next, a.count f := by
  have inside : ∀ f ∈ owned, f ∈ Finset.range a.next := fun f mem =>
    Finset.mem_range.2 (realized_of_count order.toWellFormed (order.pos mem)).2
  rw [order.live, ← sum_count_eq_card inside]
  exact Finset.sum_congr rfl fun f _ => (order.count f).symm

end Arena

section Ledger

variable {owned : Multiset Handle}

lemma Builder.pays (call : Builder) (order : a.InOrder safe P owned) (allowed : call.Allowed safe P a) :
    Ends a call.run (fun r b => (a.Grows b ∧ b.InOrder safe P (r ::ₘ owned)) ∧ (call.NoWrap a → call.Returns a r b))
      (fun _ b => a = b) := by
  refine ((call.runs order.toWellFormed).and (call.run_ends order.toWellFormed)).mono (fun r b h => ?_) fun _ _ h => h.2
  obtain ⟨⟨change, -⟩, ⟨keeps, -⟩, returns⟩ := h
  obtain ⟨w, v, built⟩ := change.built order.toWellFormed
  exact ⟨⟨keeps.grows, order.built built (change.tame order.toWellFormed order.tame allowed)⟩, returns⟩

lemma retain_pays (f : Handle) (order : a.InOrder safe P owned) :
    Ends a (retain f) (fun r b => r = f ∧ a.Grows b ∧ b.InOrder safe P (r ::ₘ owned)) (fun _ b => a = b) := by
  refine (retain_ends order.toWellFormed f).mono (fun r b h => ?_) fun _ _ h => h.1
  obtain ⟨rfl, rfl, -, built⟩ := h
  exact ⟨rfl, built.grows, order.built built (order.tame.hold r)⟩

lemma release_pays (fs : List Handle) (order : a.InOrder safe P (↑fs + owned)) :
    Ends a (release fs) (fun _ b => a.Grows b ∧ b.InOrder safe P owned) (fun _ _ => False) := by
  induction fs generalizing a with
  | nil => exact Ends.pure ⟨.refl a, by simpa using order⟩
  | cons f fs ih =>
    rw [← cons_coe, cons_add] at order
    have backed : a.Backed (f ::ₘ (↑fs + owned)) := fun g => (order.count g).ge
    refine Ends.bind (releaseOne_granted order.toWellFormed backed) fun _ b same => ?_
    subst same
    exact (ih order.drop).imp fun _ _ h => ⟨(Arena.grows_drop a f).trans h.1, h.2⟩

/-- `x` adds its result to the ledger, or is refused and leaves the ledger as it was. -/
def Arena.Pays (safe : Prop) (P : Handle → Prop) (a : Arena) (owned : Multiset Handle) (x : Build Handle) : Prop :=
  Ends a x (fun r b => a.Grows b ∧ b.InOrder safe P (r ::ₘ owned)) (fun _ b => b.InOrder safe P owned)

variable (order : a.InOrder safe P owned)

include order

lemma Builder.finishes (call : Builder) (allowed : call.Allowed safe P a) : a.Pays safe P owned call.run :=
  (call.pays order allowed).mono (fun _ _ h => h.1) fun _ _ same => same ▸ order

/-- An intermediate term is crossed out after its use, also if the use is refused. -/
lemma keeping_pays (call : Builder) {rest : Handle → Build Handle} (allowed : call.Allowed safe P a)
    (next : ∀ s b, a.Grows b → b.InOrder safe P (s ::ₘ owned) → (call.NoWrap a → call.Returns a s b) →
      b.Pays safe P (s ::ₘ owned) (rest s)) : a.Pays safe P owned (keeping call.run rest) := by
  refine Ends.bind ((call.pays order allowed).blame fun _ _ same => same ▸ order) fun s b h => ?_
  obtain ⟨⟨grows, order⟩, returns⟩ := h
  refine holding_ends (Ends.mono (next s b grows order returns) (fun r c h => ?_) fun e c order => ?_)
  · obtain ⟨later, order⟩ := h
    rw [cons_swap, cons_eq_add] at order
    exact (release_pays [s] order).mono (fun _ _ h => ⟨(grows.trans later).trans h.1, h.2⟩) fun _ _ h => h.elim
  · rw [cons_eq_add] at order
    exact (release_pays [s] order).mono (fun _ _ h => h.2) fun _ _ h => h.elim

end Ledger

/-! ## The overflow predicates -/

def Arena.Pair (a : Arena) (f g : Handle) : Prop :=
  0 < a.count f ∧ 0 < a.count g ∧ a.widthOf f = a.widthOf g

section Overflow

variable {owned : Multiset Handle} (order : a.InOrder safe P owned)

include order

lemma matching_pays {body : Nat → Build Handle} (next : a.Pair f g → a.Pays safe P owned (body (a.widthOf f))) :
    a.Pays safe P owned (sameWidth f g >>= body) := by
  have looks : Ends a (sameWidth f g) (fun w b => a = b ∧ a.widthOf f = w ∧ a.Pair f g) (fun _ b => a = b) := by
    unfold sameWidth
    refine Ends.bind ((width_ends order.toWellFormed f).blame fun _ _ h => h.1) ?_
    rintro _ _ ⟨rfl, rfl, -, left⟩
    refine Ends.bind ((width_ends order.toWellFormed g).blame fun _ _ h => h.1) ?_
    rintro _ _ ⟨rfl, rfl, -, right⟩
    exact need_bind (fun same => Ends.pure ⟨rfl, rfl, left, right, same⟩) fun _ => rfl
  refine Ends.bind (looks.blame fun _ _ same => same ▸ order) ?_
  rintro _ _ ⟨rfl, rfl, pair⟩
  exact next pair

lemma inWider_pays (ext : Handle → Nat → Builder) {op : Arith} {test : Handle → Build Handle} (pair : a.Pair f g)
    (allowed : ∀ {b : Arena} {h : Nat}, b.widthOf h = a.widthOf f → (ext h k).Allowed safe P b)
    (tests : ∀ {b : Arena} {owned : Multiset Handle} (z : Handle), b.InOrder safe P owned → b.Pays safe P owned (test z)) :
    a.Pays safe P owned (inWider (fun f k => (ext f k).run) k op f g test) := by
  refine keeping_pays order (ext f k) (allowed rfl) fun x b grows order' _ => ?_
  have width : b.widthOf g = a.widthOf f := by
    obtain ⟨n, found⟩ := Arena.exists_node_of_realized order.isOpen
      (Arena.realized_of_count order.toWellFormed pair.2.1)
    rw [grows.widthOf found, pair.2.2]
  refine keeping_pays order' (ext g k) (allowed width) fun y c _ order _ => ?_
  exact keeping_pays order (.binary (.arith op) x y) trivial fun z d _ order _ => tests z order

lemma topBitsDiffer_pays (f : Handle) (w : Nat) : a.Pays safe P owned (topBitsDiffer f w) := by
  refine keeping_pays order (.extract f w w) trivial fun hi b _ order _ => ?_
  refine keeping_pays order (.extract f (w - 1) (w - 1)) trivial fun lo c _ order _ => ?_
  exact (Builder.binary (.compare .ne) hi lo).finishes order trivial

lemma highHalfSet_pays (f : Handle) (w : Nat) : a.Pays safe P owned (highHalfSet f w) := by
  refine keeping_pays order (.extract f _ w) trivial fun hi b _ order _ => ?_
  refine keeping_pays order (.const w 0) trivial fun clear c _ order _ => ?_
  exact (Builder.binary (.compare .ne) hi clear).finishes order trivial

lemma outgrowsLowHalf_pays (f : Handle) (positive : 0 < w) (fits : safe → w + w < twoPow 64) :
    a.Pays safe P owned (outgrowsLowHalf f w) := by
  refine keeping_pays order (.extract f (w - 1) 0) trivial fun lo b _ order returns => ?_
  have width : b.widthOf lo = w := by
    rw [(returns trivial).built.width]
    show w - 1 - 0 + 1 = w
    omega
  refine keeping_pays order (.sext lo w) (fun sure _ => width.symm ▸ fits sure) fun back c _ order _ => ?_
  exact (Builder.binary (.compare .ne) f back).finishes order trivial

lemma uaddOverflow_pays (fits : safe → a.Pair f g → a.widthOf f + 1 < twoPow 64) :
    a.Pays safe P owned (uaddOverflow f g) :=
  matching_pays order fun pair => inWider_pays order .zext pair (fun same sure _ => same ▸ fits sure pair)
    fun z order => (Builder.extract z _ _).finishes order trivial

lemma saddOverflow_pays (fits : safe → a.Pair f g → a.widthOf f + 1 < twoPow 64) :
    a.Pays safe P owned (saddOverflow f g) :=
  matching_pays order fun pair => inWider_pays order .sext pair (fun same sure _ => same ▸ fits sure pair)
    fun z order => topBitsDiffer_pays order z _

lemma usubOverflow_pays (f g : Handle) : a.Pays safe P owned (usubOverflow f g) :=
  matching_pays order fun _ => (Builder.binary (.compare .ult) f g).finishes order trivial

lemma ssubOverflow_pays (fits : safe → a.Pair f g → a.widthOf f + 1 < twoPow 64) :
    a.Pays safe P owned (ssubOverflow f g) :=
  matching_pays order fun pair => inWider_pays order .sext pair (fun same sure _ => same ▸ fits sure pair)
    fun z order => topBitsDiffer_pays order z _

lemma umulOverflow_pays (fits : safe → a.Pair f g → a.widthOf f + a.widthOf f < twoPow 64) :
    a.Pays safe P owned (umulOverflow f g) :=
  matching_pays order fun pair => inWider_pays order .zext pair (fun same sure _ => same ▸ fits sure pair)
    fun z order => highHalfSet_pays order z _

lemma smulOverflow_pays (fits : safe → a.Pair f g → a.widthOf f + a.widthOf f < twoPow 64) :
    a.Pays safe P owned (smulOverflow f g) := by
  refine matching_pays order fun pair => ?_
  have positive := Arena.widthOf_pos order.toWellFormed pair.1
  exact inWider_pays order .sext pair (fun same sure _ => same ▸ fits sure pair)
    fun z order => outgrowsLowHalf_pays order z positive fun sure => fits sure pair

end Overflow

end Faultline.Formula
