/-
# Proofs.Formula.Built — what a builder leaves behind

A builder that returns has either taken one more reference to a formula that was
there (`Arena.hold`) or added a node with one reference (`Arena.push`). Either way
it has `Built` its result: the arena has grown and is still well formed, the result
has a width and a value, its count has gone up by one and no other count has
changed.
-/
import Faultline.Proofs.Formula.Meaning
import Faultline.Proofs.Outcome

namespace Faultline.Formula

open Array

namespace Arena

variable {a b : Arena} {f r w : Nat} {n : Node} {v : (Handle → Nat) → Nat}

def word (a : Arena) (assign : Handle → Nat) (f : Handle) : BitVec (a.widthOf f) :=
  BitVec.ofNat _ (a.eval assign f)

@[simp] lemma toNat_word (a : Arena) (assign : Handle → Nat) (f : Handle) :
    (a.word assign f).toNat = a.eval assign f := by
  rw [word, BitVec.toNat_ofNat, Nat.mod_eq_of_lt (a.eval_lt assign f)]

lemma setWidth_word (width : w = a.widthOf f) (assign : Handle → Nat) :
    BitVec.setWidth w (a.word assign f) = BitVec.ofNat w (a.eval assign f) :=
  BitVec.setWidth_ofNat_of_le width.le _

lemma toNat_setWidth_word (width : w = a.widthOf f) (assign : Handle → Nat) :
    (BitVec.setWidth w (a.word assign f)).toNat = a.eval assign f := by
  rw [BitVec.toNat_setWidth, toNat_word, Nat.mod_eq_of_lt (width ▸ a.eval_lt assign f)]

def hold (a : Arena) (f : Handle) : Arena :=
  { a.setCount f (a.count f + 1) with live := a.live + 1 }

def push (a : Arena) (n : Node) (names : Std.HashSet String) : Arena :=
  { a with nodes := a.nodes.push n, refs := a.refs.push 1, live := a.live + 1, names := names }

/-- A builder turned `a` into `b` and returned `r`, of width `w` and value `v`. -/
structure Built (a : Arena) (r : Nat) (b : Arena) (w : Nat) (v : (Handle → Nat) → Nat) : Prop where
  grows : a.Grows b
  wellFormed : b.WellFormed
  realized : b.Realized r
  width : b.widthOf r = w
  value : ∀ assign, b.eval assign r = v assign
  count : ∀ f : Nat, b.count f = a.count f + if f = r then 1 else 0
  live : b.live = a.live + 1

lemma Built.congr {w' : Nat} {v' : (Handle → Nat) → Nat} (built : Built a r b w v) (width : w = w')
    (value : ∀ assign, v assign = v' assign) : Built a r b w' v' :=
  { built with
    width := built.width.trans width
    value := fun assign => (built.value assign).trans (value assign) }

/-! ## The two ways to return -/

lemma count_eq (isOpen : a.closed = false) : a.count f = if f < 1 then 0 else a.refs.getD (f - 1) 0 := by
  simp [count, first, isOpen]

lemma realized_of_count (wf : a.WellFormed) (counted : 0 < a.count f) : a.Realized f := by
  rw [realized_iff wf.isOpen, ← wf.sizes]
  rw [count_eq wf.isOpen] at counted
  split at counted
  · exact absurd counted (lt_irrefl 0)
  · refine ⟨by omega, ?_⟩
    by_contra beyond
    rw [getD_eq_getD_getElem?, getElem?_eq_none (by omega)] at counted
    exact absurd counted (lt_irrefl 0)

lemma widthOf_pos (wf : a.WellFormed) (counted : 0 < a.count f) : 0 < a.widthOf f := by
  obtain ⟨n, found⟩ := exists_node_of_realized wf.isOpen (realized_of_count wf counted)
  exact widthOf_eq found ▸ (wf.fits found).width_pos

def IsConst (a : Arena) (f : Handle) : Prop :=
  ∃ w v, a.node? f = some ⟨w, .const v⟩

lemma grows_hold (a : Arena) (f : Handle) : a.Grows (a.hold f) :=
  ⟨le_refl _, id⟩

lemma WellFormed.hold (wf : a.WellFormed) (f : Handle) : (a.hold f).WellFormed where
  isOpen := wf.isOpen
  sizes := by simp [Arena.hold, setCount, wf.sizes]
  fits := fun found =>
    have fits := wf.fits (f := _) found
    ⟨fits.width_pos, fits.older, fits.typed⟩

lemma count_hold (wf : a.WellFormed) (realized : a.Realized r) (f : Nat) :
    (a.hold r).count f = a.count f + if f = r then 1 else 0 := by
  rw [realized_iff wf.isOpen] at realized
  rw [count_eq (a := a.hold r) wf.isOpen, count_eq wf.isOpen]
  simp only [Arena.hold, setCount, first, wf.isOpen, Bool.false_eq_true, if_false]
  have inside : r - 1 < a.refs.size := by rw [wf.sizes]; omega
  by_cases low : f < 1
  · rw [if_pos low, if_pos low, if_neg (by omega)]
  · rw [if_neg low, if_neg low]
    by_cases same : f = r
    · subst same
      rw [if_pos rfl, getD_eq_getD_getElem?, getElem?_setIfInBounds_self_of_lt inside,
        count_eq wf.isOpen, if_neg low]
      rfl
    · rw [if_neg same, getD_eq_getD_getElem?, getElem?_setIfInBounds_ne (by omega),
        getD_eq_getD_getElem?]
      rfl

lemma built_hold (wf : a.WellFormed) (found : a.node? r = some n) :
    Built a r (a.hold r) n.width (fun assign => a.eval assign r) where
  grows := grows_hold a r
  wellFormed := wf.hold r
  realized := realized_of_node? (a := a.hold r) wf.isOpen found
  width := widthOf_eq (a := a.hold r) found
  value := fun _ => eval_of_grows wf.toWellTyped (grows_hold a r) found
  count := count_hold wf (realized_of_node? wf.isOpen found)
  live := rfl

variable {names : Std.HashSet String}

lemma next_eq (wf : a.WellFormed) : a.next = a.nodes.size + 1 := by
  simp [next, first, wf.isOpen]

lemma node?_push_next (wf : a.WellFormed) : (a.push n names).node? a.next = some n := by
  rw [node?_eq (a := a.push n names) wf.isOpen, next_eq wf, if_neg (by omega)]
  simp [push]

lemma grows_push (wf : a.WellFormed) (n : Node) (names : Std.HashSet String) :
    a.Grows (a.push n names) where
  next_le := by rw [next_eq wf]; simp [next, first, push, wf.isOpen]
  node := by
    intro f k found
    have inside := (realized_iff wf.isOpen).1 (realized_of_node? wf.isOpen found)
    rw [node?_eq wf.isOpen] at found
    rw [node?_eq (a := a.push n names) wf.isOpen]
    rw [if_neg (by omega)] at found ⊢
    simp only [push]
    rw [getElem?_push_lt (by omega), ← found, getElem?_eq_getElem (by omega)]

lemma of_node?_push (wf : a.WellFormed) {f : Nat} {m : Node} (found : (a.push n names).node? f = some m) :
    f = a.next ∧ m = n ∨ a.node? f = some m := by
  have inside := (realized_iff (a := a.push n names) wf.isOpen).1
    (realized_of_node? (a := a.push n names) wf.isOpen found)
  simp only [Arena.push, size_push] at inside
  by_cases new : f = a.next
  · subst new
    rw [node?_push_next wf, Option.some.injEq] at found
    exact .inl ⟨rfl, found.symm⟩
  · rw [next_eq wf] at new
    obtain ⟨k, node⟩ := exists_node_of_realized wf.isOpen (f := f)
      ((realized_iff wf.isOpen).2 ⟨inside.1, by omega⟩)
    obtain rfl : k = m := Option.some.inj (((grows_push wf n names).node node).symm.trans found)
    exact .inr node

lemma widthOf_push (wf : a.WellFormed) {g : Nat} (older : 0 < g ∧ g < a.next) :
    (a.push n names).widthOf g = a.widthOf g := by
  obtain ⟨m, node⟩ := exists_node_of_realized wf.isOpen (f := g) older
  exact (grows_push wf n names).widthOf node

lemma WellFormed.push (wf : a.WellFormed) (fits : a.Fits a.next n) : (a.push n names).WellFormed where
  isOpen := wf.isOpen
  sizes := by simp [Arena.push, wf.sizes]
  fits := by
    intro f k found
    rcases of_node?_push wf found with ⟨rfl, rfl⟩ | before
    · refine ⟨fits.width_pos, fits.older, (k.typed_congr fun g mem => ?_).2 fits.typed⟩
      exact widthOf_push wf (fits.older g mem)
    · have old := wf.fits before
      have below : f < a.next := (realized_of_node? wf.isOpen before).2
      refine ⟨old.width_pos, old.older, (k.typed_congr fun g mem => ?_).2 old.typed⟩
      exact widthOf_push wf ⟨(old.older g mem).1, (old.older g mem).2.trans below⟩

lemma count_push (wf : a.WellFormed) (f : Nat) :
    (a.push n names).count f = a.count f + if f = a.next then 1 else 0 := by
  rw [count_eq (a := a.push n names) wf.isOpen, count_eq wf.isOpen, next_eq wf]
  simp only [push, getD_eq_getD_getElem?, getElem?_push, wf.sizes]
  by_cases low : f < 1
  · rw [if_pos low, if_pos low, if_neg (by omega)]
  · rw [if_neg low, if_neg low]
    by_cases same : f = a.nodes.size + 1
    · have size := wf.sizes
      rw [if_pos (by omega), if_pos same, getElem?_eq_none (by omega)]
      rfl
    · rw [if_neg (by omega), if_neg same, Nat.add_zero]

lemma built_push (wf : a.WellFormed) (fits : a.Fits a.next n) :
    Built a a.next (a.push n names) n.width
      (fun assign => (n.bits (assign a.next) a.widthOf (a.eval assign)).toNat) where
  grows := grows_push wf n names
  wellFormed := wf.push fits
  realized := realized_of_node? (a := a.push n names) wf.isOpen (node?_push_next wf)
  width := widthOf_eq (node?_push_next wf)
  value := by
    intro assign
    rw [eval_eq (wf.push fits).toWellTyped (node?_push_next wf)]
    refine congrArg BitVec.toNat (n.bits_congr (fun g mem => ?_) fun g mem => ?_)
    all_goals
      obtain ⟨k, node⟩ := exists_node_of_realized wf.isOpen (f := g) (fits.older g mem)
    · exact (grows_push wf n names).widthOf node
    · exact eval_of_grows wf.toWellTyped (grows_push wf n names) node
  count := count_push wf
  live := rfl

end Arena

end Faultline.Formula
