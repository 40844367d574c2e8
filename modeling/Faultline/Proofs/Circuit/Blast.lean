/-
# Proofs.Circuit.Blast — the circuit of a formula is exact

Drawing a node whose operands hold their values yields a word that holds the value
of the node (`drawNode_yields`). Drawing all nodes of a formula, operands first,
keeps the invariant `Drawn`: every word drawn so far holds the operation of its
node, applied to what the words of its operands hold. The words of variables are
inputs of their own (`Inputs`). So under every assignment the literals of every node
are the bits of its SMT-LIB value.
-/
import Faultline.Circuit.Blast
import Faultline.Proofs.Circuit.Division
import Faultline.Proofs.Circuit.Shift
import Faultline.Proofs.Formula.Built
import Faultline.Proofs.Formula.Reach

namespace Faultline.Circuit

open Formula (Handle Node Arena)
open List Array Formula Arena

variable {c d : Circuit} {assign : Nat → Bool} {x y : Word} {n : Nat} {u v : BitVec n}

/-! ## Operations -/

lemma bits_zipWith {w : BitVec n} {f : Bool → Bool → Bool}
    (places : ∀ i, w.getLsbD i = f (u.getLsbD i) (v.getLsbD i)) :
    List.zipWith f (bits u) (bits v) = bits w := by
  unfold bits
  rw [List.zipWith_map, List.zipWith_self]
  exact List.map_congr_left fun i _ => (places i).symm

lemma drawArith_yields (op : Arith) (left : Holds assign c x u) (right : Holds assign c y v) :
    Yields c (drawArith op x y) (fun z d => Holds assign d z (op.smt u v)) := by
  cases op with
  | add => exact add_yields left right
  | sub => exact sub_yields left right
  | mul => exact mul_yields left right
  | udiv => exact (udivrem_yields left right).map fun _ _ _ divided => divided.1
  | urem => exact (udivrem_yields left right).map fun _ _ _ divided => divided.2
  | sdiv => exact (sdivrem_yields left right).map fun _ _ _ divided => divided.1
  | srem => exact (sdivrem_yields left right).map fun _ _ _ divided => divided.2
  | and =>
    refine (zipWithM_yields (fun _ => and_yields) left right).mono fun z d _ spells => ?_
    rwa [bits_zipWith (w := BitVec.and u v) fun i => BitVec.getLsbD_and] at spells
  | or =>
    refine (zipWithM_yields (fun _ => or_yields) left right).mono fun z d _ spells => ?_
    rwa [bits_zipWith (w := BitVec.or u v) fun i => BitVec.getLsbD_or] at spells
  | xor =>
    refine (zipWithM_yields (fun _ => xor_yields) left right).mono fun z d _ spells => ?_
    rwa [bits_zipWith (w := BitVec.xor u v) fun i => BitVec.getLsbD_xor] at spells
  | shl => exact shl_yields left right
  | lshr => exact lshr_yields left right
  | ashr => exact ashr_yields left right

lemma not_yields {z : Draw Lit} {p q : Bool} (drawn : Yields c z (fun l d => Shows assign d l p))
    (opposite : q = !p) : Yields c (Lit.not <$> z) (fun l d => Shows assign d l q) :=
  drawn.map fun _ _ _ shows => opposite ▸ shows.not

lemma drawCompare_yields (op : Compare) (left : Holds assign c x u) (right : Holds assign c y v) :
    Yields c (drawCompare op x y) (fun l d => Shows assign d l (op.smt u v)) := by
  cases op with
  | eq => exact eq_yields left right
  | ne => exact not_yields (eq_yields left right) (decide_not ..)
  | ult => exact ult_yields left right
  | ule => exact not_yields (ult_yields right left) (BitVec.ule_eq_not_ult u v)
  | ugt => exact ult_yields right left
  | uge => exact not_yields (ult_yields left right) (BitVec.ule_eq_not_ult v u)
  | slt => exact slt_yields left right
  | sle => exact not_yields (slt_yields right left) BitVec.sle_eq_not_slt
  | sgt => exact slt_yields right left
  | sge => exact not_yields (slt_yields left right) BitVec.sle_eq_not_slt

/-! ## Nodes -/

lemma inputs_yields (n : Nat) :
    Yields c (Word.inputs n) (fun z d => z = (List.range n).map (fun i => .pos (c.gates.size + i)) ∧
      ∀ i, i < n → d.gates[c.gates.size + i]? = some .input) := by
  induction n generalizing c with
  | zero => exact .pure fun _ => ⟨rfl, nofun⟩
  | succ n ih =>
    refine input_yields.bind fun l c₁ grown₁ first => ?_
    obtain ⟨rfl, gates⟩ := first
    refine ih.bind fun z c₂ grown₂ rest => .pure fun _ => ?_
    obtain ⟨rfl, inputs⟩ := rest
    have size : c₁.gates.size = c.gates.size + 1 := by rw [gates, size_push]
    refine ⟨?_, fun i inside => ?_⟩
    · rw [List.range_succ_eq_map, map_cons, List.map_map, Nat.add_zero, size]
      congr 1
      refine List.map_congr_left fun i _ => ?_
      rw [Function.comp_apply, Nat.succ_eq_add_one, Nat.add_right_comm, Nat.add_assoc]
    · cases i with
      | zero => exact grown₂.gate (by rw [gates, Nat.add_zero, getElem?_push_size])
      | succ i =>
        have here := inputs i (by omega)
        rwa [size, Nat.add_assoc, Nat.add_comm 1 i] at here

/-- Inputs spell whatever they are assigned. -/
lemma spells_of_inputs (ordered : d.Ordered) {start : Nat}
    (inputs : ∀ i, i < n → d.gates[start + i]? = some .input) :
    Spells assign d ((List.range n).map fun i => .pos (start + i))
      ((List.range n).map fun i => assign (start + i)) := by
  rw [Spells, forall₂_map_left_iff, forall₂_map_right_iff, forall₂_same]
  intro i mem
  have here := inputs i (List.mem_range.1 mem)
  refine ⟨?_, eval_pos ordered here⟩
  rw [Lit.gate_pos]
  exact (Array.getElem?_eq_some_iff.1 here).1

lemma not_holds (holds : Holds assign c x v) : Holds assign c (Word.not x) (BitVec.not v) := by
  have flipped : (bits v).map (!·) = bits (BitVec.not v) := by
    unfold bits
    rw [List.map_map]
    refine List.map_congr_left fun i mem => ?_
    exact (BitVec.getLsbD_not.trans (by simp [List.mem_range.1 mem])).symm
  rw [Holds, ← flipped]
  exact Spells.not holds

lemma zext_holds (ordered : c.Ordered) (holds : Holds assign c x v) {m : Nat} (widens : n ≤ m) :
    Holds assign c (x ++ List.replicate (m - n) .no) (BitVec.setWidth m v) := by
  refine (Spells.append holds (.replicate (shows_no ordered) (m - n))).holds (by simp; omega) ?_
  rw [number_append, number_replicate_false, number_bits, BitVec.toNat_setWidth, Nat.mul_zero, Nat.add_zero,
    Nat.mod_eq_of_lt (v.isLt.trans_le (Nat.pow_le_pow_right two_pos widens))]

lemma number_replicate_true (n : Nat) : number (List.replicate n true) + 1 = 2 ^ n := by
  induction n with
  | zero => rfl
  | succ n ih =>
    rw [List.replicate_succ, number, Bool.toNat_true, Nat.pow_succ]
    omega

lemma sext_holds (ordered : c.Ordered) (holds : Holds assign c x v) {m : Nat} (widens : n ≤ m) :
    Holds assign c (x ++ List.replicate (m - n) x.sign) (BitVec.signExtend m v) := by
  refine (Spells.append holds (.replicate (holds.sign ordered) (m - n))).holds (by simp; omega) ?_
  rw [number_append, number_bits, length_bits, BitVec.toNat_signExtend, BitVec.toNat_setWidth,
    Nat.mod_eq_of_lt (v.isLt.trans_le (Nat.pow_le_pow_right two_pos widens))]
  cases v.msb
  · simp
  · have ones := number_replicate_true (m - n)
    have split : 2 ^ m = 2 ^ n * 2 ^ (m - n) := by rw [← Nat.pow_add, Nat.add_sub_cancel' widens]
    rw [if_pos rfl, split, ← ones, Nat.mul_add, Nat.mul_one, Nat.add_sub_cancel]

lemma extract_holds (holds : Holds assign c x v) {hi lo : Nat} (ascending : lo ≤ hi) (inside : hi < n) :
    Holds assign c ((x.take (hi + 1)).drop lo) (BitVec.extractLsb' lo (hi - lo + 1) v) := by
  have cut : ((bits v).take (hi + 1)).drop lo = bits (BitVec.extractLsb' lo (hi - lo + 1) v) := by
    refine ext_getElem (by simp; omega) fun i low _ => ?_
    simp only [length_drop, length_take, length_bits] at low
    rw [getElem_drop, getElem_take, getElem_bits, getElem_bits, BitVec.getLsbD_extractLsb',
      decide_eq_true (by omega), Bool.true_and]
  rw [Holds, ← cut]
  exact (Spells.take holds (hi + 1)).drop lo

lemma bits_ofBool (b : Bool) : bits (BitVec.ofNat 1 b.toNat) = [b] := by
  cases b <;> rfl

lemma holds_one {k : Nat} (small : k < 2) (holds : Holds assign c x (BitVec.ofNat 1 k)) :
    Shows assign c (x.headD .no) (decide (k = 1)) := by
  have bit : bits (BitVec.ofNat 1 k) = [decide (k = 1)] := by
    obtain rfl | rfl : k = 0 ∨ k = 1 := by omega
    · rfl
    · rfl
  rw [Holds, bit] at holds
  cases holds with
  | cons here _ => exact here

lemma holds_ofBool {l : Lit} {b : Bool} (shows : Shows assign c l b) :
    Holds assign c [l] (BitVec.ofNat 1 b.toNat) := by
  rw [Holds, bits_ofBool]
  exact .cons shows .nil

lemma lift_yields {α : Type} {z : Draw α} {Q : α → Circuit → Prop} (drawn : Yields c z Q) :
    Yields c (OptionT.lift z).run (fun r d => ∃ w, r = some w ∧ Q w d) :=
  drawn.bind fun w _ _ holds => .pure fun _ => ⟨w, rfl, holds⟩

/-- The node is an extension that is narrower than its operand. -/
def Narrows (width : Handle → Nat) (node : Node) : Prop :=
  ∃ z, (node.term = .zext z ∨ node.term = .sext z) ∧ node.width < width z

/-- Drawing a node whose operands hold their values. What a variable holds is up to its inputs. Only what
narrows is not drawn. -/
lemma drawNode_yields {ws : Words} {node : Node} {width value : Handle → Nat} (typed : node.Typed width)
    (operands : ∀ h ∈ node.term.args, Holds assign c (ws.at h) (BitVec.ofNat (width h) (value h)))
    (small : ∀ h ∈ node.term.args, value h < 2 ^ width h) :
    Yields c (drawNode ws node).run (fun r d =>
      (∃ w, r = some w ∧ ∃ var, Holds assign d w (node.bits var width value)) ∨
        r = none ∧ Narrows width node) := by
  obtain ⟨n, term⟩ := node
  have drawn {z : Draw (Option Word)} {Q : Option Word → Circuit → Prop} (yields : Yields c z Q) :
      Yields c z (fun r d => Q r d ∨ r = none ∧ Narrows width ⟨n, term⟩) :=
    yields.mono fun _ _ _ => .inl
  cases term with
  | const v => exact drawn (.pure fun ordered => ⟨_, rfl, 0, ofNat_holds ordered n v⟩)
  | var name =>
    refine drawn (lift_yields ((inputs_yields n).mono fun z d grown drawn => ?_))
    obtain ⟨rfl, inputs⟩ := drawn
    refine ⟨number ((List.range n).map fun i => assign (c.gates.size + i)), ?_⟩
    show Holds assign d _ (BitVec.ofNat n _)
    rw [Holds, ← eq_bits_ofNat (by simp)]
    exact spells_of_inputs grown.ordered inputs
  | not z =>
    have holds := operands z (by simp [Term.args])
    rw [show width z = n from typed] at holds
    exact drawn (.pure fun _ => ⟨_, rfl, 0, not_holds holds⟩)
  | neg z =>
    have holds := operands z (by simp [Term.args])
    rw [show width z = n from typed] at holds
    exact drawn (lift_yields ((neg_yields holds).mono fun _ _ _ negated => ⟨0, negated⟩))
  | zext z =>
    have holds := operands z (by simp [Term.args])
    by_cases wide : width z ≤ n
    · have word : (drawNode ws ⟨n, .zext z⟩).run =
          pure (some (ws.at z ++ List.replicate (n - width z) .no)) := by
        simp [drawNode, holds.length_eq, wide, guard]
      rw [word]
      exact drawn (.pure fun ordered => ⟨_, rfl, 0, zext_holds ordered holds wide⟩)
    · have none : (drawNode ws ⟨n, .zext z⟩).run = pure none := by
        simp [drawNode, holds.length_eq, wide, guard]
      rw [none]
      exact .pure fun _ => .inr ⟨rfl, z, .inl rfl, Nat.lt_of_not_le wide⟩
  | sext z =>
    have holds := operands z (by simp [Term.args])
    by_cases wide : width z ≤ n
    · have word : (drawNode ws ⟨n, .sext z⟩).run =
          pure (some (ws.at z ++ List.replicate (n - width z) (ws.at z).sign)) := by
        simp [drawNode, holds.length_eq, wide, guard]
      rw [word]
      exact drawn (.pure fun ordered => ⟨_, rfl, 0, sext_holds ordered holds wide⟩)
    · have none : (drawNode ws ⟨n, .sext z⟩).run = pure none := by
        simp [drawNode, holds.length_eq, wide, guard]
      rw [none]
      exact .pure fun _ => .inr ⟨rfl, z, .inr rfl, Nat.lt_of_not_le wide⟩
  | extract z hi lo =>
    have holds := operands z (by simp [Term.args])
    obtain ⟨ascending, inside, rfl⟩ : lo ≤ hi ∧ hi < width z ∧ n = hi - lo + 1 := typed
    exact drawn (.pure fun _ => ⟨_, rfl, 0, extract_holds holds ascending inside⟩)
  | ite p t e =>
    obtain ⟨oneBit, onTrue, onFalse⟩ : width p = 1 ∧ width t = n ∧ width e = n := typed
    have cond := operands p (by simp [Term.args])
    have low := small p (by simp [Term.args])
    have holdsT := operands t (by simp [Term.args])
    have holdsE := operands e (by simp [Term.args])
    rw [oneBit] at cond low
    rw [onTrue] at holdsT
    rw [onFalse] at holdsE
    refine drawn (lift_yields ((Holds.mux (holds_one low cond) holdsT holdsE).mono fun z d _ chosen => ⟨0, ?_⟩))
    show Holds assign d z (BitVec.ofNat n (if value p = 1 then value t else value e))
    rw [apply_ite (BitVec.ofNat n)]
    simpa only [decide_eq_true_eq] using chosen
  | arith op f g =>
    obtain ⟨left, right⟩ : width f = n ∧ width g = n := typed
    have holdsF := operands f (by simp [Term.args])
    have holdsG := operands g (by simp [Term.args])
    rw [left] at holdsF
    rw [right] at holdsG
    exact drawn (lift_yields ((drawArith_yields op holdsF holdsG).mono fun _ _ _ holds => ⟨0, holds⟩))
  | compare op f g =>
    obtain ⟨rfl, same⟩ : n = 1 ∧ width f = width g := typed
    have holdsF := operands f (by simp [Term.args])
    have holdsG := operands g (by simp [Term.args])
    rw [← same] at holdsG
    exact drawn (lift_yields ((drawCompare_yields op holdsF holdsG).bind fun l d _ shows =>
      .pure fun _ => ⟨0, holds_ofBool shows⟩))

/-! ## Formulas -/

/-- A node that is drawn does not narrow. -/
def Widens (width : Handle → Nat) (node : Node) (r : Option Word) (_ : Circuit) : Prop :=
  r.isSome → ¬ Narrows width node

lemma drawNode_widens {ws : Words} {node : Node} {width : Handle → Nat}
    (lengths : ∀ h ∈ node.term.args, (ws.at h).length = width h) :
    Widens width node (result (drawNode ws node).run c).1 (result (drawNode ws node).run c).2 := by
  rintro drawn ⟨z, shape, narrow⟩
  have none : (drawNode ws node).run = pure none := by
    have long : ¬ (ws.at z).length ≤ node.width := by
      rw [lengths z (by rcases shape with shape | shape <;> simp [shape, Term.args])]
      exact Nat.not_le_of_lt narrow
    rcases shape with shape | shape <;> simp [drawNode, shape, long, guard]
  rw [none] at drawn
  cases drawn

/-- The words of the nodes `done` hold values that fit each other. -/
structure Drawn (a : Arena) (assign : Nat → Bool) (done : List Nat) (value : Handle → Nat) (c : Circuit)
    (ws : Words) : Prop where
  wide : ∀ g ∈ done, ∀ n, a.node? g = some n → ¬ Narrows a.widthOf n
  holds : ∀ g ∈ done, Holds assign c (ws.at g) (BitVec.ofNat (a.widthOf g) (value g))
  value : ∀ g ∈ done, ∀ n, a.node? g = some n → value g = (n.bits (value g) a.widthOf value).toNat

/-- The words of the variables among `done` are inputs of their own, from `start` on. -/
structure Inputs (a : Arena) (done : List Nat) (start : Handle → Nat) (c : Circuit) (ws : Words) : Prop where
  word : ∀ g ∈ done, ∀ w name, a.node? g = some ⟨w, .var name⟩ →
    ws.at g = (List.range w).map (fun i => .pos (start g + i)) ∧
    (∀ i, i < w → c.gates[start g + i]? = some .input) ∧ start g + w ≤ c.gates.size
  apart : ∀ g ∈ done, ∀ h ∈ done, ∀ w name, a.node? g = some ⟨w, .var name⟩ → g < h →
    (∃ w name, a.node? h = some ⟨w, .var name⟩) → start g + w ≤ start h

lemma Drawn.small {a : Arena} {done : List Nat} {value : Handle → Nat} {ws : Words}
    (drawn : Drawn a assign done value c ws) {g : Nat} (mem : g ∈ done) {node : Node}
    (found : a.node? g = some node) : value g < 2 ^ a.widthOf g := by
  rw [drawn.value g mem node found, widthOf_eq found]
  exact BitVec.isLt _

lemma bits_self (node : Node) (var : Nat) (width value : Handle → Nat) :
    node.bits (node.bits var width value).toNat width value = node.bits var width value := by
  obtain ⟨n, term⟩ := node
  cases term with
  | var => rw [Node.bits, BitVec.ofNat_toNat, BitVec.setWidth_eq]
  | _ => rfl

lemma at_setIfInBounds_self {ws : Words} {g : Nat} (inside : g < ws.size) (w : Word) :
    Words.at (ws.setIfInBounds g w) g = w := by
  simp [Words.at, inside]

lemma at_setIfInBounds_ne {ws : Words} {g h : Nat} (other : h ≠ g) (w : Word) :
    Words.at (ws.setIfInBounds g w) h = ws.at h := by
  simp [Words.at, Ne.symm other]

section Formulas

variable {a : Arena} {done : List Nat} {value start : Handle → Nat} {ws : Words} {g : Nat} {node : Node}

lemma Drawn.step (wt : a.WellTyped) (drawn : Drawn a assign done value c ws) (grown : c.Extends d)
    (older : ∀ h ∈ done, h < g) (found : a.node? g = some node) (inside : g < ws.size) {w : Word} {var : Nat}
    (wide : ¬ Narrows a.widthOf node) (holds : Holds assign d w (node.bits var a.widthOf value)) :
    Drawn a assign (done ++ [g]) (Function.update value g (node.bits var a.widthOf value).toNat) d
      (ws.setIfInBounds g w) := by
  have operands : ∀ {h : Nat} {k : Node}, h ≤ g → a.node? h = some k → ∀ i ∈ k.term.args,
      value i = Function.update value g (node.bits var a.widthOf value).toNat i := by
    intro h k low there i mem
    rw [Function.update_of_ne (Nat.lt_of_lt_of_le ((wt.fits there).older i mem).2 low).ne]
  refine ⟨fun h mem k there => ?_, fun h mem => ?_, fun h mem k there => ?_⟩
  · rcases List.mem_append.1 mem with mem | mem
    · exact drawn.wide h mem k there
    · obtain rfl := List.mem_singleton.1 mem
      obtain rfl : node = k := Option.some.inj (found.symm.trans there)
      exact wide
  · rcases List.mem_append.1 mem with mem | mem
    · have other : h ≠ g := (older h mem).ne
      rw [at_setIfInBounds_ne other, Function.update_of_ne other]
      exact (drawn.holds h mem).grow grown
    · obtain rfl := List.mem_singleton.1 mem
      rw [at_setIfInBounds_self inside, Function.update_self, widthOf_eq found, BitVec.ofNat_toNat,
        BitVec.setWidth_eq]
      exact holds
  · rcases List.mem_append.1 mem with mem | mem
    · have low := older h mem
      rw [Function.update_of_ne low.ne, ← k.bits_congr (fun _ _ => rfl) (operands low.le there)]
      exact drawn.value h mem k there
    · obtain rfl := List.mem_singleton.1 mem
      obtain rfl : node = k := Option.some.inj (found.symm.trans there)
      rw [Function.update_self, ← node.bits_congr (fun _ _ => rfl) (operands (le_refl h) there), bits_self]

lemma Inputs.step (inputs : Inputs a done start c ws) (grown : c.Extends d) (older : ∀ h ∈ done, h < g)
    (inside : g < ws.size) {w : Word}
    (new : ∀ n name, a.node? g = some ⟨n, .var name⟩ →
      w = (List.range n).map (fun i => .pos (c.gates.size + i)) ∧
      (∀ i, i < n → d.gates[c.gates.size + i]? = some .input) ∧ c.gates.size + n ≤ d.gates.size) :
    Inputs a (done ++ [g]) (Function.update start g c.gates.size) d (ws.setIfInBounds g w) := by
  refine ⟨fun h mem n name there => ?_, fun h mem k mem' n name there below var => ?_⟩
  · rcases List.mem_append.1 mem with mem | mem
    · have other : h ≠ g := (older h mem).ne
      rw [at_setIfInBounds_ne other, Function.update_of_ne other]
      obtain ⟨word, gates, bound⟩ := inputs.word h mem n name there
      exact ⟨word, fun i low => grown.gate (gates i low), bound.trans grown.size_le⟩
    · obtain rfl := List.mem_singleton.1 mem
      rw [at_setIfInBounds_self inside, Function.update_self]
      exact new n name there
  · have old : h ∈ done := by
      rcases List.mem_append.1 mem with mem | mem
      · exact mem
      · obtain rfl := List.mem_singleton.1 mem
        rcases List.mem_append.1 mem' with mem' | mem'
        · exact absurd (older k mem') (by omega)
        · exact absurd (List.mem_singleton.1 mem') (by omega)
    rw [Function.update_of_ne (older h old).ne]
    rcases List.mem_append.1 mem' with mem' | mem'
    · rw [Function.update_of_ne (older k mem').ne]
      exact inputs.apart h old k mem' n name there below var
    · rw [List.mem_singleton.1 mem', Function.update_self]
      exact (inputs.word h old n name there).2.2

/-- If the node is a variable, the word drawn for it into `c` is new inputs. -/
def InputsFrom (c : Circuit) (node : Node) (r : Option Word) (d : Circuit) : Prop :=
  ∀ n name, node = ⟨n, .var name⟩ → ∀ w, r = some w →
    w = (List.range n).map (fun i => .pos (c.gates.size + i)) ∧
    ∀ i, i < n → d.gates[c.gates.size + i]? = some .input

lemma drawNode_inputs (ordered : c.Ordered) (ws : Words) (node : Node) :
    InputsFrom c node (result (drawNode ws node).run c).1 (result (drawNode ws node).run c).2 := by
  rintro n name rfl w same
  obtain ⟨v, here, word, gates⟩ := (lift_yields (inputs_yields n) ordered).2
  cases same.symm.trans here
  exact ⟨word, gates⟩

lemma drawNode_step (wt : a.WellTyped) (drawn : Drawn a assign done value c ws)
    (inputs : Inputs a done start c ws) (older : ∀ h ∈ done, h < g) (found : a.node? g = some node)
    (operands : ∀ h ∈ a.args g, h ∈ done) (inside : g < ws.size) :
    Yields c (drawNode ws node).run (fun r d =>
      (∃ w, r = some w ∧ ∃ value start, Drawn a assign (done ++ [g]) value d (ws.setIfInBounds g w) ∧
        Inputs a (done ++ [g]) start d (ws.setIfInBounds g w)) ∨
      r = none ∧ Narrows a.widthOf node) := by
  have fits := wt.fits found
  rw [mem_args found] at operands
  have small : ∀ h ∈ node.term.args, value h < 2 ^ a.widthOf h := by
    intro h mem
    obtain ⟨k, there⟩ := wt.exists_operand found mem
    exact drawn.small (operands h mem) there
  have holds := drawNode_yields fits.typed (fun h mem => drawn.holds h (operands h mem)) small
  have wide := drawNode_widens (c := c) fun h mem => (drawn.holds h (operands h mem)).length_eq
  refine ((holds.and fun ordered => drawNode_inputs ordered ws node).and fun _ => wide).mono fun r d grown both => ?_
  obtain ⟨⟨⟨w, rfl, var, holds⟩ | none, new⟩, wide⟩ := both
  · refine .inl ⟨w, rfl, _, _, drawn.step wt grown older found inside (wide rfl) holds,
      inputs.step grown older inside fun n name there => ?_⟩
    obtain ⟨word, gates⟩ := new n name (Option.some.inj (found.symm.trans there)) w rfl
    refine ⟨word, gates, ?_⟩
    have positive : 0 < n := (wt.fits there).width_pos
    have last := (Array.getElem?_eq_some_iff.1 (gates (n - 1) (by omega))).1
    omega
  · exact .inr none

def SomeNarrows (a : Arena) (fs : List Nat) : Prop :=
  ∃ g ∈ fs, ∃ n, a.node? g = some n ∧ Narrows a.widthOf n

lemma drawNodes_yields (wt : a.WellTyped) (fs : List Nat)
    (drawn : Drawn a assign done value c ws) (inputs : Inputs a done start c ws)
    (sorted : (done ++ fs).Pairwise (· < ·)) (nodes : ∀ g ∈ fs, ∃ n, a.node? g = some n)
    (closed : ∀ g ∈ fs, ∀ h ∈ a.args g, h ∈ done ++ fs) (inside : ∀ g ∈ fs, g < ws.size) :
    Yields c (drawNodes a fs ws).run (fun r d =>
      (∃ vs, r = some vs ∧ ∃ value start,
        Drawn a assign (done ++ fs) value d vs ∧ Inputs a (done ++ fs) start d vs) ∨
      r = none ∧ SomeNarrows a fs) := by
  induction fs generalizing done value start c ws with
  | nil => exact .pure fun _ => .inl ⟨ws, rfl, value, start, by simpa using drawn, by simpa using inputs⟩
  | cons g fs ih =>
    obtain ⟨node, found⟩ := nodes g (by simp)
    have older : ∀ h ∈ done, h < g := fun h mem =>
      (List.pairwise_append.1 sorted).2.2 h mem g (by simp)
    have operands : ∀ h ∈ a.args g, h ∈ done := by
      intro h mem
      have low := wt.args_older mem
      rcases List.mem_append.1 (closed g (by simp) h mem) with there | there
      · exact there
      · -- What follows is newer than the node.
        have newer := (pairwise_cons.1 (List.pairwise_append.1 sorted).2.1).1
        rcases mem_cons.1 there with rfl | there
        · exact absurd low (lt_irrefl _)
        · exact absurd (newer h there) (by omega)
    have unfolded : (drawNodes a (g :: fs) ws).run =
        (drawNode ws node).run >>= fun r => match r with
          | some w => (drawNodes a fs (ws.setIfInBounds g w)).run
          | none => pure none := by
      rw [drawNodes, found, Option.getD_some, OptionT.run_bind, Option.elimM]
      exact bind_congr fun r => by cases r <;> rfl
    rw [unfolded]
    refine (drawNode_step wt drawn inputs older found operands (inside g (by simp))).bind
      fun r c₁ grown step => ?_
    obtain ⟨w, rfl, value', start', drawn', inputs'⟩ | ⟨rfl, narrows⟩ := step
    · have rest := ih drawn' inputs' (by simpa using sorted) (fun h mem => nodes h (by simp [mem]))
        (fun h mem k mem' => by simpa using closed h (by simp [mem]) k mem')
        (fun h mem => by simpa using inside h (by simp [mem]))
      refine rest.mono fun r d _ ends => ends.imp (fun drawn => by simpa using drawn) fun none => ?_
      obtain ⟨same, h, mem, narrows⟩ := none
      exact ⟨same, h, mem_cons_of_mem g mem, narrows⟩
    · exact .pure fun _ => .inr ⟨rfl, g, mem_cons_self, node, found, narrows⟩

lemma ordered_default : (default : Circuit).Ordered where
  yes := rfl
  older := by
    intro p a b found
    have empty : (default : Circuit).gates = #[.yes] := rfl
    rw [empty] at found
    obtain ⟨low, here⟩ := Array.getElem?_eq_some_iff.1 found
    obtain rfl : p = 0 := by simpa using low
    cases here

variable {f : Nat} {dr : Drawing}

/-- The drawing of `f`: its words are inputs for the variables, and under any assignment of the inputs
they hold values that fit each other. -/
structure Draws (a : Arena) (f : Nat) (dr : Drawing) : Prop where
  ordered : dr.circuit.Ordered
  root : dr.root = (dr.words.at f).headD .no
  inputs : ∃ start, Inputs a (a.reachable f) start dr.circuit dr.words
  drawn : ∀ assign, ∃ value, Drawn a assign (a.reachable f) value dr.circuit dr.words

/-- A formula is drawn unless part of it narrows. -/
lemma blast_draws (wt : a.WellTyped) (found : a.node? f = some node) :
    (∃ dr, blast a f = some dr ∧ Draws a f dr) ∨ blast a f = none ∧ SomeNarrows a (a.reachable f) := by
  have yields : ∀ assign, Yields default (drawNodes a (a.reachable f) (Array.replicate (f + 1) [])).run
      (fun r d => (∃ vs, r = some vs ∧ ∃ value start,
        Drawn a assign (a.reachable f) value d vs ∧ Inputs a (a.reachable f) start d vs) ∨
        r = none ∧ SomeNarrows a (a.reachable f)) := by
    intro assign
    have none : Drawn a assign [] (fun _ => 0) default (Array.replicate (f + 1) []) := ⟨nofun, nofun, nofun⟩
    have none' : Inputs a [] (fun _ => 0) default (Array.replicate (f + 1) []) := ⟨nofun, nofun⟩
    refine drawNodes_yields wt _ none none' (a.pairwise_reachable f) (fun g mem => ?_)
      (fun g mem h mem' => ?_) fun g mem => ?_
    · exact ((mem_reachable wt).1 mem).exists_node wt found
    · exact (mem_reachable wt).2 (((mem_reachable wt).1 mem).operand mem')
    · have := ((mem_reachable wt).1 mem).le wt
      simp
      omega
  have unfolded : blast a f = match result (drawNodes a (a.reachable f) (Array.replicate (f + 1) [])).run default with
      | (none, _) => none
      | (some ws, d) => some ⟨d, ws, (a.reachable f).filter (isVar a), (ws.at f).headD .no⟩ := rfl
  rcases run : result (drawNodes a (a.reachable f) (Array.replicate (f + 1) [])).run default with ⟨_ | ws, d⟩
  · rw [run] at unfolded
    refine .inr ⟨unfolded, ?_⟩
    obtain ⟨-, ⟨ws, same, -⟩ | ⟨-, narrows⟩⟩ := run ▸ yields (fun _ => false) ordered_default
    · cases same
    · exact narrows
  · rw [run] at unfolded
    have drawn : ∀ assign, Circuit.Extends default d ∧ ∃ value start,
        Drawn a assign (a.reachable f) value d ws ∧ Inputs a (a.reachable f) start d ws := by
      intro assign
      obtain ⟨grown, ⟨ws', same, drawn⟩ | ⟨none, -⟩⟩ := run ▸ yields assign ordered_default
      · cases same
        exact ⟨grown, drawn⟩
      · cases none
    refine .inl ⟨_, unfolded, (drawn fun _ => false).1.ordered, rfl, ?_, fun assign => ?_⟩
    · obtain ⟨-, -, start, -, inputs⟩ := drawn fun _ => false
      exact ⟨start, inputs⟩
    · obtain ⟨-, value, -, drawn, -⟩ := drawn assign
      exact ⟨value, drawn⟩

lemma blast_drawn (wt : a.WellTyped) (widening : a.Widening) (found : a.node? f = some node) :
    ∃ dr, blast a f = some dr ∧ Draws a f dr := by
  rcases blast_draws wt found with drawn | ⟨-, g, -, n, there, z, shape, narrow⟩
  · exact drawn
  · exact absurd (widening there shape) (Nat.not_le_of_lt narrow)

lemma draws_of_blast (wt : a.WellTyped) (found : a.node? f = some node) (drawing : blast a f = some dr) :
    Draws a f dr := by
  rcases blast_draws wt found with ⟨dr', same, draws⟩ | ⟨none, -⟩
  · cases drawing.symm.trans same
    exact draws
  · cases drawing.symm.trans none

/-- Exactly the formulas that narrow somewhere have no circuit. -/
lemma blast_eq_none_iff (wt : a.WellTyped) (found : a.node? f = some node) :
    blast a f = none ↔ SomeNarrows a (a.reachable f) := by
  rcases blast_draws wt found with ⟨dr, drawing, draws⟩ | ⟨none, narrows⟩
  · rw [drawing]
    refine iff_of_false nofun ?_
    rintro ⟨g, mem, n, there, narrows⟩
    obtain ⟨value, drawn⟩ := draws.drawn fun _ => false
    exact drawn.wide g mem n there narrows
  · exact iff_of_true none narrows

/-- Values that fit each other are the values under the assignment they give the variables. -/
lemma Drawn.value_eq_eval (wt : a.WellTyped) (drawn : Drawn a assign (a.reachable f) value c ws)
    (found : a.node? f = some node) {vars : Handle → Nat}
    (same : ∀ g, a.Uses f g → ∀ n name, a.node? g = some ⟨n, .var name⟩ →
      value g = (BitVec.ofNat n (vars g)).toNat) :
    ∀ g, a.Uses f g → value g = a.eval vars g := by
  intro g
  induction g using Nat.strong_induction_on with
  | _ g ih =>
    intro used
    obtain ⟨k, there⟩ := used.exists_node wt found
    have operands : ∀ h ∈ k.term.args, value h = a.eval vars h := fun h mem =>
      ih h ((wt.fits there).older h mem).2 (used.operand (by rwa [mem_args there]))
    rw [eval_eq wt there, drawn.value g ((mem_reachable wt).2 used) k there]
    -- Only a variable looks at the assignment.
    obtain ⟨n, term⟩ := k
    cases term with
    | var name =>
      simp only [Node.bits, same g used n name there, BitVec.toNat_ofNat, Nat.mod_mod]
    | _ => exact congrArg BitVec.toNat (Node.bits_congr _ (fun _ _ => rfl) operands)

def Drawing.read (dr : Drawing) (assign : Nat → Bool) (g : Handle) : List Bool :=
  (dr.words.at g).map (dr.circuit.eval assign)

/-- The inputs give the variables of `f` these values. -/
def Drawing.Assigns (dr : Drawing) (a : Arena) (f : Handle) (assign : Nat → Bool) (vars : Handle → Nat) : Prop :=
  ∀ g, a.Uses f g → ∀ n name, a.node? g = some ⟨n, .var name⟩ →
    dr.read assign g = bits (BitVec.ofNat n (vars g))

lemma Holds.map_eval (holds : Holds assign c x v) : x.map (c.eval assign) = bits v := by
  unfold Holds Spells at holds
  generalize bits v = vs at holds
  induction holds with
  | nil => rfl
  | cons here _ ih => rw [map_cons, here.2, ih]

/-- Place `p` is input `i` of the variable `g` of `f`. -/
def Owns (a : Arena) (f : Handle) (start : Handle → Nat) (p : Nat) (g i : Nat) : Prop :=
  a.Uses f g ∧ (∃ n name, a.node? g = some ⟨n, .var name⟩ ∧ i < n) ∧ p = start g + i

lemma Owns.unique (wt : a.WellTyped) (inputs : Inputs a (a.reachable f) start c ws) {p g h i j : Nat}
    (first : Owns a f start p g i) (second : Owns a f start p h j) : g = h ∧ i = j := by
  obtain ⟨usesG, ⟨n, name, varG, lowI⟩, placeG⟩ := first
  obtain ⟨usesH, ⟨m, name', varH, lowJ⟩, placeH⟩ := second
  have memG := (mem_reachable wt).2 usesG
  have memH := (mem_reachable wt).2 usesH
  rcases lt_trichotomy g h with below | rfl | above
  · have := inputs.apart g memG h memH n name varG below ⟨m, name', varH⟩
    omega
  · exact ⟨rfl, by omega⟩
  · have := inputs.apart h memH g memG m name' varH above ⟨n, name, varG⟩
    omega

/-- Every assignment of the variables is one of the inputs. -/
lemma Inputs.exists_assigns (wt : a.WellTyped) (ordered : dr.circuit.Ordered)
    (inputs : Inputs a (a.reachable f) start dr.circuit dr.words) (vars : Handle → Nat) :
    ∃ assign, dr.Assigns a f assign vars := by
  classical
  let assign : Nat → Bool := fun p => decide (∃ g i, Owns a f start p g i ∧ (vars g).testBit i = true)
  refine ⟨assign, fun g used n name there => ?_⟩
  obtain ⟨word, gates, -⟩ := inputs.word g ((mem_reachable wt).2 used) n name there
  have spells : Spells assign dr.circuit _ _ := spells_of_inputs ordered gates
  rw [← word] at spells
  refine Holds.map_eval (spells.holds (by simp) ?_)
  rw [← number_bits]
  refine congrArg number (List.map_congr_left fun i mem => ?_)
  have low := List.mem_range.1 mem
  have owns : Owns a f start (start g + i) g i := ⟨used, ⟨n, name, there, low⟩, rfl⟩
  rw [BitVec.getLsbD_ofNat, decide_eq_true low, Bool.true_and]
  refine Bool.eq_iff_iff.2 (decide_eq_true_iff.trans ⟨?_, fun set => ⟨g, i, owns, set⟩⟩)
  rintro ⟨h, j, owns', set⟩
  obtain ⟨rfl, rfl⟩ := owns.unique wt inputs owns'
  exact set

lemma Drawn.read_eq (wt : a.WellTyped) (drawn : Drawn a assign (a.reachable f) value dr.circuit dr.words)
    (found : a.node? f = some node) {vars : Handle → Nat} (assigns : dr.Assigns a f assign vars) {g : Nat}
    (used : a.Uses f g) : dr.read assign g = bits (BitVec.ofNat (a.widthOf g) (a.eval vars g)) := by
  have read : ∀ g, a.Uses f g → dr.read assign g = bits (BitVec.ofNat (a.widthOf g) (value g)) :=
    fun g used => (drawn.holds g ((mem_reachable wt).2 used)).map_eval
  rw [read g used, drawn.value_eq_eval wt found (fun h used n name there => ?_) g used]
  have small := drawn.small ((mem_reachable wt).2 used) there
  have same := congrArg number ((read h used).symm.trans (assigns h used n name there))
  rw [number_bits, number_bits] at same
  rw [← same, BitVec.toNat_ofNat, Nat.mod_eq_of_lt small]

lemma number_bits_eval (a : Arena) (vars : Handle → Nat) (g : Nat) :
    number (bits (BitVec.ofNat (a.widthOf g) (a.eval vars g))) = a.eval vars g := by
  rw [number_bits, BitVec.toNat_ofNat, Nat.mod_eq_of_lt (a.eval_lt vars g)]

lemma eval_arith (wt : a.WellTyped) {n x y : Nat} {op : Arith}
    (found : a.node? f = some ⟨n, .arith op x y⟩) (vars : Handle → Nat) :
    BitVec.ofNat n (a.eval vars f) = BitVec.ofNat n (op.fold n (a.eval vars x) (a.eval vars y)) := by
  obtain ⟨left, right⟩ : a.widthOf x = n ∧ a.widthOf y = n := (wt.fits found).typed
  have lowX := left ▸ a.eval_lt vars x
  have lowY := right ▸ a.eval_lt vars y
  have folded := op.ofNat_fold (BitVec.ofNat n (a.eval vars x)) (BitVec.ofNat n (a.eval vars y))
  rw [BitVec.toNat_ofNat, BitVec.toNat_ofNat, Nat.mod_eq_of_lt lowX, Nat.mod_eq_of_lt lowY] at folded
  rw [folded, eval_eq wt found, BitVec.ofNat_toNat, BitVec.setWidth_eq]
  rfl

lemma eval_compare (wt : a.WellTyped) {n x y : Nat} {op : Compare}
    (found : a.node? f = some ⟨n, .compare op x y⟩) (vars : Handle → Nat) :
    a.eval vars f = (op.fold (a.widthOf x) (a.eval vars x) (a.eval vars y)).toNat := by
  obtain ⟨rfl, same⟩ : n = 1 ∧ a.widthOf x = a.widthOf y := (wt.fits found).typed
  have lowX := a.eval_lt vars x
  have lowY := same ▸ a.eval_lt vars y
  have folded := op.fold_eq (BitVec.ofNat (a.widthOf x) (a.eval vars x))
    (BitVec.ofNat (a.widthOf x) (a.eval vars y))
  rw [BitVec.toNat_ofNat, BitVec.toNat_ofNat, Nat.mod_eq_of_lt lowX, Nat.mod_eq_of_lt lowY] at folded
  rw [folded, eval_eq wt found]
  simp only [Node.bits, BitVec.toNat_ofNat]
  exact Nat.mod_eq_of_lt (Bool.toNat_lt _)

/-- **The circuit of a formula is exact.** Every formula whose extensions widen has a circuit, every
assignment of its variables is one of the inputs, and under it the literals of every node of the
formula are the bits of its value, least significant first. So they are what folding makes of the
operands' literals, too. -/
theorem blast_exact (wt : a.WellTyped) (widening : a.Widening) (found : a.node? f = some node) :
    ∃ dr, blast a f = some dr ∧ (∀ vars, ∃ assign, dr.Assigns a f assign vars) ∧
      ∀ vars assign, dr.Assigns a f assign vars → ∀ g, a.Uses f g →
        dr.read assign g = bits (BitVec.ofNat (a.widthOf g) (a.eval vars g)) ∧
        (∀ n op x y, a.node? g = some ⟨n, .arith op x y⟩ → dr.read assign g =
          bits (BitVec.ofNat n (op.fold n (number (dr.read assign x)) (number (dr.read assign y))))) ∧
        (∀ n op x y, a.node? g = some ⟨n, .compare op x y⟩ → dr.read assign g =
          [op.fold (a.widthOf x) (number (dr.read assign x)) (number (dr.read assign y))]) := by
  obtain ⟨dr, drawing, ordered, -, ⟨start, inputs⟩, drawn⟩ := blast_drawn wt widening found
  refine ⟨dr, drawing, inputs.exists_assigns wt ordered, fun vars assign assigns g used => ?_⟩
  obtain ⟨value, drawn⟩ := drawn assign
  have read : ∀ {h}, a.Uses f h → dr.read assign h = bits (BitVec.ofNat (a.widthOf h) (a.eval vars h)) :=
    fun used => drawn.read_eq wt found assigns used
  have operand : ∀ {h k}, a.node? g = some k → h ∈ k.term.args → number (dr.read assign h) = a.eval vars h := by
    intro h k there mem
    rw [read (used.operand (by rwa [Arena.mem_args there])), number_bits_eval]
  refine ⟨read used, fun n op x y there => ?_, fun n op x y there => ?_⟩
  · rw [operand there (by simp [Formula.Term.args]), operand there (by simp [Formula.Term.args]), read used,
      Arena.widthOf_eq there, eval_arith wt there]
  · obtain ⟨rfl, -⟩ : n = 1 ∧ _ := (wt.fits there).typed
    rw [operand there (by simp [Formula.Term.args]), operand there (by simp [Formula.Term.args]), read used,
      Arena.widthOf_eq there, eval_compare wt there]
    exact bits_ofBool _

def quotientArena : Arena :=
  (((({} : Arena).push ⟨4, .var "x"⟩ ∅).push ⟨4, .var "y"⟩ ∅).push ⟨4, .arith .sdiv 1 2⟩ ∅).push
    ⟨1, .compare .slt 3 1⟩ ∅

lemma wellTyped_quotientArena : quotientArena.WellTyped := by
  refine WellFormed.toWellTyped (.push (.push (.push (.push wellFormed_empty ?_) ?_) ?_) ?_)
  · exact ⟨by decide, by decide, trivial⟩
  · exact ⟨by decide, by decide, trivial⟩
  · exact ⟨by decide, by decide, rfl, rfl⟩
  · exact ⟨by decide, by decide, rfl, rfl⟩

lemma widening_quotientArena : quotientArena.Widening := by
  intro f x n found shape
  rw [node?_eq rfl] at found
  split at found
  · cases found
  · have mem := Array.mem_of_getElem? found
    simp only [quotientArena, Arena.push, mem_push, not_mem_empty, false_or] at mem
    obtain ((rfl | rfl) | rfl) | rfl := mem <;> simp at shape

theorem blast_exact_quotient : ∃ dr, blast quotientArena 4 = some dr ∧
    ∀ vars, ∃ assign, dr.Assigns quotientArena 4 assign vars ∧
      dr.read assign 3 = bits (BitVec.ofNat 4 (quotientArena.eval vars 3)) := by
  obtain ⟨dr, drawing, complete, exact⟩ :=
    blast_exact wellTyped_quotientArena widening_quotientArena
      (show quotientArena.node? 4 = some ⟨1, .compare .slt 3 1⟩ from rfl)
  refine ⟨dr, drawing, fun vars => ?_⟩
  obtain ⟨assign, assigns⟩ := complete vars
  exact ⟨assign, assigns, (exact vars assign assigns 3 (Arena.Uses.self.operand (by decide))).1⟩

end Formulas

end Faultline.Circuit
