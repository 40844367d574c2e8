/-
# Proofs.Formula.Meaning — the value of a formula

An assignment gives every variable a number, by the handle of its node; only as many
low bits count as the variable has. `Arena.eval` is the value of a formula under an
assignment: the SMT-LIB operation of its node, applied to the values of its operands
(`eval_eq`). Adding nodes changes no value that was there before (`eval_of_grows`).

Extensions may have wrapped around; then they cut instead of filling up. `Widening`
says that none did.
-/
import Faultline.Formula.Script
import Faultline.Proofs.Formula.Fold

namespace Faultline.Formula

/-! ## Nodes -/

/-- The word of a node, given the number of its variable and the widths and values of its
operands. -/
def Node.bits (n : Node) (var : Nat) (width value : Handle → Nat) : BitVec n.width :=
  match n.term with
  | .const v => BitVec.ofNat n.width v
  | .var _ => BitVec.ofNat n.width var
  | .not x => BitVec.not (BitVec.ofNat n.width (value x))
  | .neg x => BitVec.neg (BitVec.ofNat n.width (value x))
  | .zext x => BitVec.setWidth n.width (BitVec.ofNat (width x) (value x))
  | .sext x => BitVec.signExtend n.width (BitVec.ofNat (width x) (value x))
  | .extract x _ lo => BitVec.extractLsb' lo n.width (BitVec.ofNat (width x) (value x))
  | .ite c t e => BitVec.ofNat n.width (if value c = 1 then value t else value e)
  | .arith op x y => op.smt (BitVec.ofNat n.width (value x)) (BitVec.ofNat n.width (value y))
  | .compare op x y =>
    BitVec.ofNat n.width
      (op.smt (BitVec.ofNat (width x) (value x)) (BitVec.ofNat (width x) (value y))).toNat

/-- The operands have the widths that the operation of the node asks for. -/
def Node.Typed (n : Node) (width : Handle → Nat) : Prop :=
  match n.term with
  | .const v => v < 2 ^ n.width
  | .var _ => True
  | .not x | .neg x => width x = n.width
  | .zext _ | .sext _ => True
  | .extract x hi lo => lo ≤ hi ∧ hi < width x ∧ n.width = hi - lo + 1
  | .ite c t e => width c = 1 ∧ width t = n.width ∧ width e = n.width
  | .arith _ x y => width x = n.width ∧ width y = n.width
  | .compare _ x y => n.width = 1 ∧ width x = width y

lemma Node.bits_congr (n : Node) {var : Nat} {width width' value value' : Handle → Nat}
    (widths : ∀ g ∈ n.term.args, width g = width' g)
    (values : ∀ g ∈ n.term.args, value g = value' g) :
    n.bits var width value = n.bits var width' value' := by
  obtain ⟨w, term⟩ := n
  cases term <;>
    simp only [Term.args, List.mem_cons, List.not_mem_nil, or_false, forall_eq_or_imp, forall_eq,
      bits] at widths values ⊢
  case zext | sext | extract => rw [widths, values]
  case compare => rw [widths.1, values.1, values.2]
  all_goals simp only [values]

lemma Node.typed_congr (n : Node) {width width' : Handle → Nat}
    (widths : ∀ g ∈ n.term.args, width g = width' g) : n.Typed width ↔ n.Typed width' := by
  unfold Typed
  split <;> rename_i shape <;> simp only [shape, Term.args] at widths <;> simp_all

namespace Arena

/-! ## Handles -/

variable {a b c : Arena} {f : Nat} {n : Node}

/-- `b` has all nodes of `a`, and maybe more. -/
structure Grows (a b : Arena) : Prop where
  next_le : a.next ≤ b.next
  node : ∀ {f : Nat} {n}, a.node? f = some n → b.node? f = some n

lemma Grows.refl (a : Arena) : Grows a a := ⟨le_refl _, id⟩

lemma Grows.trans (first : Grows a b) (second : Grows b c) : Grows a c :=
  ⟨le_trans first.next_le second.next_le, fun found => second.node (first.node found)⟩

lemma Grows.widthOf (grows : Grows a b) (found : a.node? f = some n) : b.widthOf f = a.widthOf f := by
  simp [Arena.widthOf, found, grows.node found]

lemma widthOf_eq (found : a.node? f = some n) : a.widthOf f = n.width := by
  simp [Arena.widthOf, found]

/-- A node of this handle has room for it: operands are older and fit the operation. -/
structure Fits (a : Arena) (f : Nat) (n : Node) : Prop where
  width_pos : 0 < n.width
  older : ∀ g : Nat, g ∈ n.term.args → 0 < g ∧ g < f
  typed : n.Typed a.widthOf

/-- Every node has room for its handle. -/
structure WellTyped (a : Arena) : Prop where
  fits : ∀ {f : Nat} {n}, a.node? f = some n → a.Fits f n

/-- An open arena in which every node has room and a count. -/
structure WellFormed (a : Arena) : Prop extends a.WellTyped where
  isOpen : a.closed = false
  sizes : a.refs.size = a.nodes.size

/-- Extensions have no fewer bits than their operands. -/
def Widening (a : Arena) : Prop :=
  ∀ {f x : Nat} {n}, a.node? f = some n → n.term = .zext x ∨ n.term = .sext x → a.widthOf x ≤ n.width

lemma wellFormed_empty : WellFormed {} where
  isOpen := rfl
  sizes := rfl
  fits := by simp [node?]

lemma realized_iff (isOpen : a.closed = false) : a.Realized f ↔ 0 < f ∧ f < a.nodes.size + 1 := by
  simp [Realized, next, first, isOpen]

lemma node?_eq (isOpen : a.closed = false) : a.node? f = if f < 1 then none else a.nodes[f - 1]? := by
  simp [node?, first, isOpen]

lemma node?_eq_none_of_not_realized (isOpen : a.closed = false) (absent : ¬ a.Realized f) : a.node? f = none := by
  rw [realized_iff isOpen] at absent
  rw [node?_eq isOpen]
  split
  · rfl
  · exact Array.getElem?_eq_none (by omega)

lemma exists_node_of_realized (isOpen : a.closed = false) (realized : a.Realized f) :
    ∃ n, a.node? f = some n := by
  rw [realized_iff isOpen] at realized
  rw [node?_eq isOpen, if_neg (by omega)]
  exact ⟨_, Array.getElem?_eq_getElem (by omega)⟩

lemma realized_of_node? (isOpen : a.closed = false) (found : a.node? f = some n) : a.Realized f := by
  by_contra absent
  rw [node?_eq_none_of_not_realized isOpen absent] at found
  cases found

lemma Grows.realized (grows : Grows a b) (realized : a.Realized f) : b.Realized f :=
  ⟨realized.1, lt_of_lt_of_le realized.2 grows.next_le⟩

lemma first_le_one (a : Arena) : a.first ≤ 1 := by
  unfold first
  split <;> omega

lemma WellTyped.exists_operand (wt : a.WellTyped) (found : a.node? f = some n) {g : Nat}
    (mem : g ∈ n.term.args) : ∃ k, a.node? g = some k := by
  obtain ⟨positive, older⟩ := (wt.fits found).older g mem
  have low := a.first_le_one
  unfold node? at found ⊢
  rw [if_neg (show ¬ f < a.first by omega)] at found
  rw [if_neg (show ¬ g < a.first by omega)]
  obtain ⟨inside, -⟩ := Array.getElem?_eq_some_iff.1 found
  exact ⟨_, Array.getElem?_eq_getElem (by omega)⟩

/-! ## Values -/

/-- The value of a formula, following operands up to `fuel` deep. -/
def evalFrom (a : Arena) (assign : Handle → Nat) : Nat → Handle → Nat
  | 0, _ => 0
  | fuel + 1, f =>
    match a.node? f with
    | none => 0
    | some n => (n.bits (assign f) a.widthOf (a.evalFrom assign fuel)).toNat

def eval (a : Arena) (assign : Handle → Nat) (f : Handle) : Nat :=
  a.evalFrom assign (f + 1) f

variable {assign : Handle → Nat}

lemma evalFrom_eq_eval (wt : a.WellTyped) :
    ∀ (fuel f : Nat), f < fuel → a.evalFrom assign fuel f = a.eval assign f := by
  intro fuel
  induction fuel using Nat.strong_induction_on with
  | _ fuel ih =>
    intro f deep
    obtain ⟨fuel, rfl⟩ : ∃ k, fuel = k + 1 := ⟨fuel - 1, by omega⟩
    unfold eval evalFrom
    cases found : a.node? f with
    | none => rfl
    | some n =>
      have older := (wt.fits found).older
      simp only
      -- Both sides follow the operands, which are older, with enough fuel.
      refine congrArg BitVec.toNat (n.bits_congr (fun _ _ => rfl) fun g mem => ?_)
      obtain ⟨_, below⟩ := older g mem
      rcases Nat.lt_or_ge f fuel with _ | _
      · rw [ih fuel (by omega) g (by omega), ih f (by omega) g below]
      · rw [show fuel = f by omega]

/-- The value of a node is its operation, applied to the values of its operands. -/
lemma eval_eq (wt : a.WellTyped) (found : a.node? f = some n) :
    a.eval assign f = (n.bits (assign f) a.widthOf (a.eval assign)).toNat := by
  have step : a.eval assign f = (n.bits (assign f) a.widthOf (a.evalFrom assign f)).toNat := by
    unfold eval
    rw [evalFrom]
    simp only [found]
  rw [step]
  refine congrArg BitVec.toNat (n.bits_congr (fun _ _ => rfl) fun g mem => ?_)
  exact evalFrom_eq_eval wt f g ((wt.fits found).older g mem).2

lemma eval_lt (a : Arena) (assign : Handle → Nat) (f : Handle) : a.eval assign f < 2 ^ a.widthOf f := by
  unfold eval
  rw [evalFrom]
  cases found : a.node? f with
  | none => exact Nat.two_pow_pos _
  | some n =>
    rw [widthOf_eq found]
    exact BitVec.isLt _

/-- Values that were there before keep when the arena grows. -/
lemma eval_of_grows (wt : a.WellTyped) (grows : Grows a b) (found : a.node? f = some n) :
    b.eval assign f = a.eval assign f := by
  have agree : ∀ (fuel : Nat) (f : Handle) (n : Node), a.node? f = some n →
      b.evalFrom assign fuel f = a.evalFrom assign fuel f := by
    intro fuel
    induction fuel with
    | zero => intro f n _; rfl
    | succ fuel ih =>
      intro f n found
      rw [evalFrom, evalFrom, found, grows.node found]
      refine congrArg BitVec.toNat (n.bits_congr (fun g mem => ?_) fun g mem => ?_)
      · obtain ⟨k, operand⟩ := wt.exists_operand found mem
        exact grows.widthOf operand
      · obtain ⟨k, operand⟩ := wt.exists_operand found mem
        exact ih g k operand
  exact agree (f + 1) f n found

end Arena

end Faultline.Formula
