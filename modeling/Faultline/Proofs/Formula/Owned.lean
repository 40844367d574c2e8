/-
# Proofs.Formula.Owned — results and their owners

An arena is `Supplied` when it is in good order and the references of some multiset
are there. A builder whose operands are among them and that negates nothing `Hands`
over a result with its value; it is refused only where it has to fold a constant
that gets too wide. An arena is `Stocked` when what may be negated is among the
references as well. Then negations are granted too (`Gives`).
-/
import Faultline.Proofs.Formula.Granted

namespace Faultline.Formula

open Multiset

variable {a b : Arena} {f g r w k : Nat} {safe : Prop} {P : Handle → Prop} {hi lo : Nat}

/-- An arena in good order with the references of `owned`. -/
structure Arena.Supplied (safe : Prop) (P : Handle → Prop) (a : Arena) (owned : Multiset Handle) : Prop where
  wellFormed : a.WellFormed
  tame : a.Tame safe P
  backed : a.Backed owned

/-- Those that may be negated are among them. -/
structure Arena.Stocked (a : Arena) (P : Handle → Prop) (owned : Multiset Handle) : Prop
    extends a.Supplied True P owned where
  held : ∀ g : Nat, P g → g ∈ owned

/-- `f` is owned and stands for the word `value`. -/
structure Arena.Has (a : Arena) (owned : Multiset Handle) (f : Handle) {w : Nat} (value : (Handle → Nat) → BitVec w) :
    Prop where
  mem : f ∈ owned
  width : a.widthOf f = w
  value : ∀ assign, a.eval assign f = (value assign).toNat

/-- `b` came out of `a` in good order, with a result `r` that stands for the word `value` and is
owned besides `owned`. -/
structure Arena.Hands (safe : Prop) (P : Handle → Prop) (a : Arena) (owned : Multiset Handle) (r : Handle) (b : Arena)
    {w : Nat} (value : (Handle → Nat) → BitVec w) : Prop where
  grows : a.Grows b
  supplied : b.Supplied safe P (r ::ₘ owned)
  width : b.widthOf r = w
  value : ∀ assign, b.eval assign r = (value assign).toNat

/-- The same for a stocked arena. -/
structure Arena.Gives (a : Arena) (P : Handle → Prop) (owned : Multiset Handle) (r : Handle) (b : Arena)
    {w : Nat} (value : (Handle → Nat) → BitVec w) : Prop where
  grows : a.Grows b
  stocked : b.Stocked P (r ::ₘ owned)
  width : b.widthOf r = w
  value : ∀ assign, b.eval assign r = (value assign).toNat

namespace Arena

variable {owned : Multiset Handle} {w' : Nat} {value : (Handle → Nat) → BitVec w} {value' : (Handle → Nat) → BitVec w'}

lemma Supplied.node (supplied : a.Supplied safe P owned) (mem : f ∈ owned) : ∃ n, a.node? f = some n :=
  exists_node_of_realized supplied.wellFormed.isOpen
    (realized_of_count supplied.wellFormed (supplied.backed.pos mem))

lemma Supplied.width_pos (supplied : a.Supplied safe P owned) (mem : f ∈ owned) : 0 < a.widthOf f :=
  widthOf_pos supplied.wellFormed (supplied.backed.pos mem)

lemma Stocked.count_pos (stocked : a.Stocked P owned) (mem : f ∈ owned) : 0 < a.count f :=
  stocked.backed.pos mem

lemma Stocked.node (stocked : a.Stocked P owned) (mem : f ∈ owned) : ∃ n, a.node? f = some n :=
  stocked.toSupplied.node mem

lemma Has.of_mem (mem : f ∈ owned) (width : a.widthOf f = w) :
    a.Has owned f fun assign => BitVec.ofNat w (a.eval assign f) :=
  ⟨mem, width, fun assign => (Nat.mod_eq_of_lt (width ▸ a.eval_lt assign f)).symm⟩

lemma Has.mono {more : Multiset Handle} (has : a.Has owned f value) (sub : owned ⊆ more) : a.Has more f value :=
  { has with mem := sub has.mem }

lemma Has.word_eq {value : (Handle → Nat) → BitVec (a.widthOf f)} (has : a.Has owned f value)
    (assign : Handle → Nat) : a.word assign f = value assign := by
  rw [word, has.value, BitVec.ofNat_toNat, BitVec.setWidth_eq]

lemma Has.setWidth_word (has : a.Has owned f value) (assign : Handle → Nat) :
    BitVec.setWidth w (a.word assign f) = value assign := by
  apply BitVec.eq_of_toNat_eq
  rw [BitVec.toNat_setWidth, toNat_word, has.value, Nat.mod_eq_of_lt (value assign).isLt]

lemma Has.later (has : a.Has owned f value) (supplied : a.Supplied safe P owned) (grows : a.Grows b) :
    b.Has owned f value := by
  obtain ⟨n, found⟩ := supplied.node has.mem
  refine ⟨has.mem, (grows.widthOf found).trans has.width, fun assign => ?_⟩
  exact (eval_of_grows supplied.wellFormed.toWellTyped grows found).trans (has.value assign)

lemma Hands.has (hands : a.Hands safe P owned r b value) : b.Has (r ::ₘ owned) r value :=
  ⟨mem_cons_self r owned, hands.width, hands.value⟩

lemma Has.past (has : a.Has owned f value) (supplied : a.Supplied safe P owned)
    (hands : a.Hands safe P owned r b value') : b.Has (r ::ₘ owned) f value :=
  (has.later supplied hands.grows).mono (subset_cons owned r)

lemma Hands.congr {value' : (Handle → Nat) → BitVec w} (hands : a.Hands safe P owned r b value)
    (same : ∀ assign, value assign = value' assign) : a.Hands safe P owned r b value' :=
  { hands with value := fun assign => (hands.value assign).trans (congrArg BitVec.toNat (same assign)) }

lemma Hands.retype (hands : a.Hands safe P owned r b value) (value' : (Handle → Nat) → BitVec w') (width : w = w')
    (same : ∀ assign, (value assign).toNat = (value' assign).toNat) : a.Hands safe P owned r b value' :=
  ⟨hands.grows, hands.supplied, hands.width.trans width, fun assign => (hands.value assign).trans (same assign)⟩

lemma Hands.gives (hands : a.Hands True P owned r b value) (stocked : a.Stocked P owned) : a.Gives P owned r b value :=
  ⟨hands.grows, ⟨hands.supplied, fun g allowed => mem_cons_of_mem (stocked.held g allowed)⟩, hands.width,
    hands.value⟩

lemma Gives.congr {value' : (Handle → Nat) → BitVec w} (gives : a.Gives P owned r b value)
    (same : ∀ assign, value assign = value' assign) : a.Gives P owned r b value' :=
  { gives with value := fun assign => (gives.value assign).trans (congrArg BitVec.toNat (same assign)) }

end Arena

lemma cons_eq_add (f : Handle) (owned : Multiset Handle) : f ::ₘ owned = ↑[f] + owned := by
  rw [coe_singleton, singleton_add]

/-! ## The builders on owned operands -/

section Supplied

variable {owned : Multiset Handle} {x y : (Handle → Nat) → BitVec w} (supplied : a.Supplied safe P owned)

include supplied

/-- A call on owned operands hands over what it means, or it has to fold a constant that gets too wide. -/
lemma Builder.hands (call : Builder) (ready : call.Ready P a)
    (inner : ∀ {f g w}, call = .not f → a.node? f = some ⟨w, .not g⟩ → 0 < a.count g) :
    Ends a call.run (fun r b => (a.Hands safe P owned r b fun assign => call.meaning a assign r) ∧ call.Change a r b)
      (fun e b => e = .constTooWide ∧ a = b ∧ call.Folds a ∧ ¬ call.width a < widthLimit) := by
  have wf := supplied.wellFormed
  refine (call.runs wf).mono (fun r b h => ?_) fun e b h => ?_
  · obtain ⟨change, returns⟩ := h
    have built := (returns ready.noWrap).2
    exact ⟨⟨built.grows, ⟨built.wellFormed, change.tame wf supplied.tame ready.allowed,
      supplied.backed.of_built built⟩, built.width, built.value⟩, change⟩
  · obtain ⟨rfl, -, blamed⟩ := h
    obtain ⟨same, wide⟩ := ready.blamed wf inner blamed
    exact ⟨same, rfl, wide⟩

omit supplied in
lemma Builder.Adds.not_isConst {call : Builder} {n : Node} {names : Std.HashSet String} (wf : a.WellFormed)
    (adds : call.Adds a n) : ¬ (a.push n names).IsConst a.next := by
  rintro ⟨w, v, found⟩
  cases (Arena.node?_push_next wf).symm.trans found
  cases call with
  | zext | sext => cases adds.1
  | var => cases adds.choose_spec
  | binary op => cases op <;> cases adds
  | _ => cases adds

lemma extract_hands (has : a.Has owned f x) (ordered : lo ≤ hi) (inside : hi < w) :
    Ends a (extract f hi lo) (fun r b => (a.Hands safe P owned r b fun assign => (x assign).extractLsb hi lo) ∧
      (b.IsConst r → a.IsConst f)) (fun _ _ => False) := by
  obtain rfl := has.width
  refine (Builder.hands supplied (.extract f hi lo) ⟨supplied.backed.pos has.mem, ordered, inside⟩ nofun).mono
    (fun r b h => ⟨h.1.congr fun assign => ?_, fun isConst => ?_⟩) fun _ _ h => h.2.2.1.long supplied.tame h.2.2.2
  · rw [← has.word_eq]
    rfl
  · cases h.2 with
    | took counted takes => exact takes ▸ isConst
    | folded fits narrow folds => exact (folds.resolve_right id).1
    | added fits adds => exact (adds.not_isConst supplied.wellFormed isConst).elim

lemma binary_hands (op : Binary) (left : a.Has owned f x) (right : a.Has owned g y) :
    Ends a (binary op f g) (fun r b => a.Hands safe P owned r b fun assign => op.smt (x assign) (y assign))
      (fun _ _ => False) := by
  obtain rfl := left.width
  refine (Builder.hands supplied (.binary op f g)
    ⟨⟨supplied.backed.pos left.mem, supplied.backed.pos right.mem⟩, right.width.symm⟩ nofun).mono
    (fun r b h => h.1.congr fun assign => ?_) fun _ _ h => h.2.2.1.long supplied.tame h.2.2.2
  rw [← left.word_eq, ← right.setWidth_word]
  rfl

lemma narrow_of_hands {call : Builder} {value : (Handle → Nat) → BitVec w} (hands : a.Hands safe P owned r b value)
    (change : call.Change a r b) (taken : ¬ call.Takes r) (added : ∀ {n}, ¬ call.Adds a n) : w < widthLimit := by
  cases change with
  | took counted takes => exact absurd takes taken
  | folded fits narrow => exact (Arena.widthOf_eq (Arena.node?_push_next supplied.wellFormed)).symm.trans hands.width ▸ narrow
  | added fits adds => exact absurd adds added

/-- An extension is refused exactly where it has to fold a constant that gets too wide. -/
lemma ext_hands (withSign : Bool) (has : a.Has owned f x) (fits : w + k < twoPow 64) :
    Ends a (Builder.ext withSign f k).run
      (fun r b => (a.Hands safe P owned r b fun assign => widen withSign (x assign) (w + k)) ∧
        (0 < k → a.IsConst f → w + k < widthLimit))
      (fun e b => e = .constTooWide ∧ a = b ∧ a.IsConst f ∧ widthLimit ≤ w + k) := by
  obtain rfl := has.width
  have counted := supplied.backed.pos has.mem
  cases withSign
  · refine (Builder.hands supplied (.zext f k) ⟨counted, fits⟩ nofun).mono
      (fun r b h => ⟨h.1.congr fun assign => ?_, fun some isConst => ?_⟩) fun _ _ h => ⟨h.1, h.2.1, h.2.2.1, Nat.le_of_not_lt h.2.2.2⟩
    · rw [← has.word_eq]
      rfl
    · exact narrow_of_hands supplied h.1 h.2 (fun takes => absurd takes.2 some.ne') fun adds => adds.2.2.2.2 isConst
  · refine (Builder.hands supplied (.sext f k) ⟨counted, fits⟩ nofun).mono
      (fun r b h => ⟨h.1.congr fun assign => ?_, fun some isConst => ?_⟩) fun _ _ h => ⟨h.1, h.2.1, h.2.2.1, Nat.le_of_not_lt h.2.2.2⟩
    · rw [← has.word_eq]
      rfl
    · exact narrow_of_hands supplied h.1 h.2 (fun takes => absurd takes.2 some.ne') fun adds => adds.2.2.2.2 isConst

lemma const_hands (v : Int) (positive : 0 < w) :
    Ends a (const w v) (fun r b => (a.Hands safe P owned r b fun _ => BitVec.ofInt w v) ∧ w < widthLimit)
      (fun e b => e = .constTooWide ∧ a = b ∧ widthLimit ≤ w) := by
  refine (Builder.hands supplied (.const w v) positive nofun).mono (fun r b h => ⟨h.1, ?_⟩)
    fun _ _ h => ⟨h.1, h.2.1, Nat.le_of_not_lt h.2.2.2⟩
  exact narrow_of_hands supplied h.1 h.2 id fun adds => adds

end Supplied

section Stocked

variable {owned : Multiset Handle} {x y : (Handle → Nat) → BitVec w} (stocked : a.Stocked P owned)

include stocked

lemma Builder.tries (call : Builder) (ready : call.Ready P a) :
    Ends a call.run (fun r b => (∀ w name, call = .var w name → r = a.next) ∧
        a.Gives P owned r b fun assign => call.meaning a assign r)
      (fun e b => e = .constTooWide ∧ a = b ∧ call.Long a) := by
  refine (call.hands stocked.toSupplied ready fun _ found => ?_).mono (fun r b h => ⟨h.2.fresh, h.1.gives stocked⟩)
    fun _ _ h => ⟨h.1, h.2.1, h.2.2.1.long stocked.tame h.2.2.2⟩
  exact stocked.count_pos (stocked.held _ (stocked.tame.modest found))

lemma Builder.gives (call : Builder) (ready : call.Ready P a) (short : ¬ call.Long a) :
    Ends a call.run (fun r b => a.Gives P owned r b fun assign => call.meaning a assign r) (fun _ _ => False) :=
  (call.tries stocked ready).mono (fun _ _ h => h.2) fun _ _ h => short h.2.2

lemma var_gives (name : String) (positive : 0 < w) :
    Ends a (var w name) (fun r b => r = a.next ∧ a.Gives P owned r b fun assign => BitVec.ofNat w (assign r))
      (fun _ _ => False) :=
  (Builder.tries stocked (.var w name) positive).mono (fun _ _ h => ⟨h.1 w name rfl, h.2⟩) fun _ _ h => h.2.2

lemma retain_gives (has : a.Has owned f x) :
    Ends a (retain f) (fun r b => r = f ∧ a.Gives P owned r b x) (fun _ _ => False) := by
  refine (retain_ends stocked.wellFormed f).mono (fun r b h => ?_) fun _ _ h => h.2.2 (stocked.count_pos has.mem)
  obtain ⟨same, rfl, -, built⟩ := h
  exact ⟨same, built.grows, ⟨⟨built.wellFormed, stocked.tame.hold f, stocked.backed.of_built built⟩,
    fun g allowed => mem_cons_of_mem (stocked.held g allowed)⟩, built.width.trans has.width,
    fun assign => (built.value assign).trans (has.value assign)⟩

lemma width_gives (has : a.Has owned f x) : Ends a (width f) (fun n b => a = b ∧ w = n) (fun _ _ => False) :=
  (width_granted stocked.wellFormed (stocked.count_pos has.mem)).imp
    fun _ _ h => ⟨h.1, has.width.symm.trans h.2⟩

lemma const_tries (v : Int) (positive : 0 < w) :
    Ends a (const w v) (fun r b => a.Gives P owned r b fun _ => BitVec.ofInt w v)
      (fun e b => e = .constTooWide ∧ a = b ∧ widthLimit ≤ w) :=
  (const_hands stocked.toSupplied v positive).imp fun _ _ h => h.1.gives stocked

lemma ofBool_gives (v : Bool) :
    Ends a (ofBool v) (fun r b => a.Gives P owned r b fun _ => BitVec.ofBool v) (fun _ _ => False) := by
  refine (const_tries stocked _ Nat.one_pos).mono (fun r b gives => gives.congr fun _ => ?_) fun _ _ h => ?_
  · cases v <;> rfl
  · exact absurd h.2.2 (by decide)

lemma not_gives (has : a.Has owned f x) (allowed : P f) :
    Ends a (Formula.not f) (fun r b => a.Gives P owned r b fun assign => ~~~x assign) (fun _ _ => False) := by
  obtain rfl := has.width
  refine (Builder.gives stocked (.not f) ⟨stocked.count_pos has.mem, allowed⟩ id).imp
    fun r b gives => gives.congr fun assign => ?_
  rw [← has.word_eq]
  rfl

lemma ext_tries (withSign : Bool) (has : a.Has owned f x) (fits : w + k < twoPow 64) :
    Ends a (Builder.ext withSign f k).run (fun r b => a.Gives P owned r b fun assign => widen withSign (x assign) (w + k))
      (fun e b => e = .constTooWide ∧ a = b ∧ widthLimit ≤ w + k) :=
  (ext_hands stocked.toSupplied withSign has fits).mono (fun _ _ h => h.1.gives stocked)
    fun _ _ h => ⟨h.1, h.2.1, h.2.2.2⟩

lemma extract_gives (has : a.Has owned f x) (ordered : lo ≤ hi) (inside : hi < w) :
    Ends a (extract f hi lo) (fun r b => a.Gives P owned r b fun assign => (x assign).extractLsb hi lo)
      (fun _ _ => False) :=
  (extract_hands stocked.toSupplied has ordered inside).imp fun _ _ h => h.1.gives stocked

lemma ite_gives {c : Nat} {cond : (Handle → Nat) → BitVec 1} (hasCond : a.Has owned c cond)
    (hasTrue : a.Has owned f x) (hasFalse : a.Has owned g y) :
    Ends a (ite c f g) (fun r b => a.Gives P owned r b fun assign => if cond assign = 1 then x assign else y assign)
      (fun _ _ => False) := by
  obtain rfl := hasTrue.width
  refine (Builder.gives stocked (.ite c f g)
    ⟨⟨stocked.count_pos hasCond.mem, stocked.count_pos hasTrue.mem, stocked.count_pos hasFalse.mem⟩,
      hasCond.width, hasFalse.width.symm⟩ id).imp fun r b gives => gives.congr fun assign => ?_
  show (if a.word assign c = BitVec.ofNat _ 1 then a.word assign f
    else BitVec.setWidth (a.widthOf f) (a.word assign g)) = _
  have chosen : a.word assign c = BitVec.ofNat _ 1 ↔ cond assign = 1 := by
    rw [← BitVec.toNat_inj, ← BitVec.toNat_inj, Arena.toNat_word, BitVec.toNat_ofNat, hasCond.width, hasCond.value]
    rfl
  rw [if_congr chosen (hasTrue.word_eq assign) (hasFalse.setWidth_word assign)]

lemma binary_gives (op : Binary) (left : a.Has owned f x) (right : a.Has owned g y) :
    Ends a (binary op f g) (fun r b => a.Gives P owned r b fun assign => op.smt (x assign) (y assign))
      (fun _ _ => False) :=
  (binary_hands stocked.toSupplied op left right).imp fun _ _ h => h.gives stocked

lemma arith_gives (op : Arith) (left : a.Has owned f x) (right : a.Has owned g y) :
    Ends a (arith op f g) (fun r b => a.Gives P owned r b fun assign => op.smt (x assign) (y assign))
      (fun _ _ => False) :=
  binary_gives stocked (.arith op) left right

end Stocked

end Faultline.Formula
