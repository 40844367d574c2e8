/-
# Proofs.Analysis.Regime — the path engine at work

The path engine is followed once, under a `Regime`: what is kept true of the bench
while the part at work holds some references, what may be asked for, which blocks
may get a formula, and what a refusal can be put down to. Every formula tells what
it should (`Bench.Tells`), one turn of `reaches_iff` for every block.

A block whose formula is under way is refused when it is asked for again. Then the
blocks from there on form a cycle of uncut edges that does not pass the entry, and
the block that was asked for at first is `Looped`.
-/
import Faultline.Proofs.Analysis.Demand
import Faultline.Proofs.Analysis.Route
import Faultline.Proofs.Flow.BackEdge
import Faultline.Proofs.Formula.Owned

namespace Faultline.Analysis

open IR (ValueId Term)
open Formula (Arena Build Handle)
open Formula.Arena (Built)
open Relation (TransGen ReflTransGen)
open List Array

variable {s : Setting} {root i j : Nat} {still : Nat → Prop} {b c d : Bench} {v x y : ValueId} {f g h r : Handle}
  {extra : Multiset Handle} {α β : Type} {P Q : (ValueId → Nat) → Prop} {n w : Nat} {dest : ValueId}
  {S : ValueId → Prop}

/-! ## Benches in good order -/

/-- What both engines keep true. -/
structure Whole (s : Setting) (b : Bench) : Prop extends Sound s b where
  paths : ∀ {ps : Array Handle} {i : Nat} {f : Handle}, b.paths = some ps → ps[i]? = some f → f ≠ 0 →
    b.Tells f fun val => Reaches s val i

lemma Whole.of_step (whole : Whole s b) (step : Step s S b c) : Whole s c := by
  refine ⟨step.sound, fun {ps i f} open_ found some => ?_⟩
  exact (whole.paths (step.paths.trans open_) found some).of_grows whole.toKept step.grows

structure Ordered (s : Setting) (b : Bench) : Prop extends Whole s b where
  places : ∃ ps, b.paths = some ps ∧ ps.size = s.graph.size

lemma Ordered.of_step (ordered : Ordered s b) (step : Step s S b c) : Ordered s c :=
  ⟨ordered.toWhole.of_step step, step.paths ▸ ordered.places⟩

lemma ordered_start (s : Setting) : Ordered s s.start where
  wellFormed := Arena.wellFormed_empty
  node := nofun
  open_ := ⟨[], rfl⟩
  grounded := nofun
  paths := fun {ps i f} open_ found some => by
    cases open_
    rw [Array.getElem?_replicate] at found
    split at found
    · cases found
      exact absurd rfl some
    · cases found
  places := ⟨_, rfl, size_replicate⟩

lemma Whole.tells_pathOf (whole : Whole s b) (some : b.pathOf i ≠ 0) :
    b.Tells (b.pathOf i) fun val => Reaches s val i := by
  rcases open_ : b.paths with _ | ps
  · simp [Bench.pathOf, open_] at some
  · have place : b.pathOf i = ps.getD i 0 := by rw [Bench.pathOf, open_]; rfl
    refine whole.paths open_ ?_ some
    rw [place, getD_eq_getD_getElem?] at some ⊢
    rcases found : ps[i]? with _ | f
    · rw [found] at some
      exact absurd rfl some
    · rfl

lemma mem_owned_of_pathOf (some : b.pathOf i ≠ 0) : b.pathOf i ∈ b.owned := by
  refine Multiset.mem_add.2 (.inr (Multiset.mem_coe.2 (List.mem_filter.2 ⟨?_, by simpa using some⟩)))
  unfold Bench.pathOf at some ⊢
  rw [getD_eq_getD_getElem?] at some ⊢
  rcases found : (b.paths.getD #[])[i]? with _ | f
  · rw [found] at some
    exact absurd rfl some
  · exact mem_toList_iff.2 (Array.mem_of_getElem? found)

lemma mem_owned_of_known (known : b.formula? v = some h) : h ∈ b.owned :=
  Multiset.mem_add.2 (.inl (Multiset.mem_coe.2 (Bench.mem_cached known)))

lemma pathOf_congr (same : b.paths = c.paths) (i : Nat) : c.pathOf i = b.pathOf i := by
  rw [Bench.pathOf, ← same]
  rfl

def placed (b : Bench) (i : Nat) (f : Handle) : Bench :=
  { b with paths := b.paths.map fun ps => ps.setIfInBounds i f }

lemma pathOf_placed {ps : Array Handle} (open_ : b.paths = some ps) (below : i < ps.size) (j : Nat) :
    (placed b i f).pathOf j = if j = i then f else b.pathOf j := by
  unfold placed Bench.pathOf
  rw [open_]
  show (ps.setIfInBounds i f).getD j 0 = if j = i then f else ps.getD j 0
  rw [getD_eq_getD_getElem?, getD_eq_getD_getElem?, getElem?_setIfInBounds]
  by_cases same : i = j
  · simp [same, same ▸ below]
  · rw [if_neg same, if_neg (Ne.symm same)]

lemma Ordered.placed (ordered : Ordered s b) (tells : b.Tells f fun val => Reaches s val i) :
    Ordered s (placed b i f) where
  wellFormed := ordered.wellFormed
  node := ordered.node
  open_ := ordered.open_
  grounded := ordered.grounded
  paths := fun {qs j g} open_ found some => by
    obtain ⟨ps, before, rfl⟩ := Option.map_eq_some_iff.1 open_
    have told : b.Tells g fun val => Reaches s val j := by
      rw [getElem?_setIfInBounds] at found
      split at found
      next same =>
        split at found
        · cases found
          exact same ▸ tells
        · cases found
      next => exact ordered.paths before found some
    exact ⟨told.node, told.width, told.value⟩
  places := by
    obtain ⟨ps, open_, size⟩ := ordered.places
    exact ⟨ps.setIfInBounds i f, by rw [Analysis.placed, open_]; rfl, by rw [size_setIfInBounds, size]⟩

/-- Nothing is taken back: not the formulas of values, nor those of blocks that are computed or `still` under
way. -/
structure Stays (still : Nat → Prop) (b c : Bench) : Prop where
  grows : b.Grows c
  path : ∀ i, still i ∨ b.pathOf i ≠ 0 → c.pathOf i = b.pathOf i

lemma Stays.trans (first : Stays still b c) (second : Stays still c d) : Stays still b d where
  grows := first.grows.trans second.grows
  path := fun i fixed => by
    rw [← first.path i fixed]
    exact second.path i (fixed.imp id fun some => first.path i fixed ▸ some)

lemma Stays.fewer {still' : Nat → Prop} (stays : Stays still b c) (fewer : ∀ i, still' i → still i) :
    Stays still' b c :=
  ⟨stays.grows, fun i fixed => stays.path i (fixed.imp (fewer i) id)⟩

lemma Stays.of_step (step : Step s S b c) : Stays still b c :=
  ⟨step.grows, fun i _ => pathOf_congr step.paths i⟩

/-! ## Words of one bit -/

lemma toNat_and_eq_one (one : w = 1) (x y : BitVec w) :
    (Formula.Arith.smt .and x y).toNat = 1 ↔ x.toNat = 1 ∧ y.toNat = 1 := by
  subst one
  revert x y
  decide

lemma toNat_or_eq_one (one : w = 1) (x y : BitVec w) :
    (Formula.Arith.smt .or x y).toNat = 1 ↔ x.toNat = 1 ∨ y.toNat = 1 := by
  subst one
  revert x y
  decide

lemma toNat_not_eq_one (one : w = 1) (x : BitVec w) : (BitVec.not x).toNat = 1 ↔ x.toNat = 0 := by
  subst one
  revert x
  decide

lemma eq_iff_toNat (x y : BitVec w) : Formula.Compare.smt .eq x y = true ↔ x.toNat = y.toNat := by
  rw [BitVec.toNat_inj]
  exact decide_eq_true_iff

lemma ne_iff_toNat (x y : BitVec w) : Formula.Compare.smt .ne x y = true ↔ x.toNat ≠ y.toNat := by
  rw [Ne, BitVec.toNat_inj]
  exact decide_eq_true_iff

/-! ## Cycles -/

/-- An uncut edge between blocks other than the entry. -/
def Inner (s : Setting) (a b : Nat) : Prop :=
  s.graph.Flows s.cut a b ∧ a ≠ 0 ∧ b ≠ 0

/-- A cycle that avoids the entry leads to the block, along a path that avoids it too. -/
def Looped (s : Setting) (i : Nat) : Prop :=
  ∃ l, TransGen (Inner s) l l ∧ ReflTransGen (Inner s) l i

lemma Looped.exists_pred (looped : Looped s j) : ∃ i, Looped s i ∧ Inner s i j := by
  obtain ⟨l, cycle, path⟩ := looped
  rcases path.cases_tail with rfl | ⟨i, before, inner⟩
  · obtain ⟨i, before, inner⟩ := TransGen.tail'_iff.1 cycle
    exact ⟨i, ⟨_, cycle, before⟩, inner⟩
  · exact ⟨i, ⟨l, cycle, before⟩, inner⟩

lemma Looped.ne_zero (looped : Looped s i) : i ≠ 0 := by
  obtain ⟨_, -, -, -, inner⟩ := looped.exists_pred
  exact inner

/-- Blocks under way. The entry, which is asked for again and again, never is. -/
def underWay (active : List Nat) (i : Nat) : Prop :=
  i ∈ active ∧ i ≠ 0

/-- The blocks under way are different blocks of the function, and the depth suffices for the others. Block `i` is
asked for on behalf of `root`, which it leads to, through all that is under way. -/
structure Descent (s : Setting) (root depth : Nat) (active : List Nat) (i : Nat) : Prop where
  once : active.Nodup
  blocks : ∀ a ∈ active, a < s.graph.size
  deep : s.graph.size < depth + active.length
  below : i < s.graph.size
  leads : i ≠ 0 → ReflTransGen (Inner s) i root
  behind : i ≠ 0 → ∀ a ∈ active, TransGen (Inner s) i a

lemma Descent.start (below : i < s.graph.size) : Descent s i (s.graph.size + 1) [] i :=
  ⟨nodup_nil, nofun, Nat.lt_succ_self _, below, fun _ => .refl, fun _ => nofun⟩

namespace Descent

variable {depth p : Nat} {active : List Nat}

lemma not_zero (descent : Descent s root 0 active i) : False := by
  have subset : active ⊆ List.range s.graph.size := fun a listed => List.mem_range.2 (descent.blocks a listed)
  have bounded : active.length ≤ s.graph.size := by simpa using (descent.once.subperm subset).length_le
  have := descent.deep
  omega

/-- A block under way that is asked for again closes a cycle. -/
lemma looped (descent : Descent s root depth active i) (inner : i ≠ 0) (again : i ∈ active) : Looped s root :=
  ⟨i, descent.behind inner i again, descent.leads inner⟩

lemma cons (descent : Descent s root (depth + 1) active i) (inner : i ≠ 0) (fresh : i ∉ active)
    (flows : s.graph.Flows s.cut p i) (below : p < s.graph.size) : Descent s root depth (i :: active) p where
  once := nodup_cons.2 ⟨fresh, descent.once⟩
  blocks := forall_mem_cons.2 ⟨descent.below, descent.blocks⟩
  deep := by
    have := descent.deep
    rw [length_cons]
    omega
  below := below
  leads := fun other => .head ⟨flows, other, inner⟩ (descent.leads inner)
  behind := fun other a among => by
    rcases mem_cons.1 among with rfl | among
    · exact .single ⟨flows, other, inner⟩
    · exact .head ⟨flows, other, inner⟩ (descent.behind inner a among)

end Descent

/-! ## Regimes -/

/-- `x` ends with `Q`, or is refused for something that is to be blamed, with some references left behind. -/
def Refusing (keeps : Bench → Multiset Handle → Prop) (blames : Fault → Bench → Bench → Prop) (b : Bench) (x : Analyze α)
    (Q : α → Bench → Prop) : Prop :=
  Ends b x Q fun e c => (∃ left, keeps c left) ∧ blames e b c

/-- What the path engine keeps true of a bench on behalf of block `root`, and the laws that make it so. -/
structure Regime (s : Setting) (root : Nat) where
  /-- The part at work holds the references of a multiset. -/
  keeps : Bench → Multiset Handle → Prop
  /-- A value may be asked for, and should have so many bits. -/
  asks : ValueId → Nat → Prop
  /-- Formulas have the bits that they should have. -/
  strict : Prop
  /-- A block may get a formula. -/
  fit : Nat → Prop
  blames : Fault → Bench → Bench → Prop
  ordered : ∀ {b extra}, keeps b extra → Ordered s b
  width : ∀ {b extra v n f}, keeps b extra → strict → asks v n → b.formula? v = some f → b.arena.widthOf f = n
  look : ∀ {b extra v n}, keeps b extra → asks v n → Refusing keeps blames b (lookup s v) fun _ c => keeps c extra
  bool : ∀ {b extra} value, keeps b extra →
    Refusing keeps blames b (build (Formula.ofBool value)) fun r c => keeps c (r ::ₘ extra)
  retain : ∀ {b extra f}, keeps b extra → f ∈ b.owned + extra →
    Refusing keeps blames b (build (Formula.retain f)) fun r c => keeps c (r ::ₘ extra)
  not : ∀ {b extra v f}, keeps b extra → b.formula? v = some f →
    Refusing keeps blames b (build (Formula.not f)) fun r c => keeps c (r ::ₘ extra)
  binary : ∀ {b extra f g} op, keeps b extra → f ∈ b.owned + extra → g ∈ b.owned + extra →
    (strict → b.arena.widthOf f = b.arena.widthOf g) →
    Refusing keeps blames b (build (Formula.binary op f g)) fun r c => keeps c (r ::ₘ extra)
  release : ∀ {b extra fs}, keeps b (↑fs + extra) →
    Refusing keeps blames b (build (Formula.release fs)) fun _ c => keeps c extra
  place : ∀ {b extra f i}, keeps b (f ::ₘ extra) → i < s.graph.size → b.pathOf i = 0 → fit i →
    b.Tells f (fun val => Reaches s val i) → keeps (placed b i f) extra
  fits : ∀ {b extra i}, keeps b extra → b.pathOf i ≠ 0 → fit i
  entry : fit 0
  block : ∀ i, i ≠ 0 → (∀ p, s.graph.Flows s.cut p i → fit p) → fit i
  cycle : ∀ {b i}, Looped s root → blames (.unbrokenCycle (s.blockName i)) b b

namespace Regime

variable {R : Regime s root}

/-- `x` works on terms under the regime. -/
def Works (R : Regime s root) (still : Nat → Prop) (b : Bench) (x : Analyze α) (Q : α → Bench → Prop) : Prop :=
  Ends b x (fun r c => Stays still b c ∧ Q r c) (fun e c => (∃ left, R.keeps c left) ∧ ∃ d, b.Grows d ∧ R.blames e d c)

namespace Works

variable {still' : Nat → Prop} {m : Analyze α} {next : α → Analyze β} {Q Q' : α → Bench → Prop} {E : β → Bench → Prop}

lemma inner (first : R.Works still b m Q) (fewer : ∀ i, still' i → still i)
    (then_ : ∀ r c, Stays still b c → Q r c → R.Works still' c (next r) E) : R.Works still' b (m >>= next) E := by
  refine Ends.bind first fun r c ⟨stays, holds⟩ => ?_
  refine (then_ r c stays holds).mono (fun _ _ h => ⟨(stays.fewer fewer).trans h.1, h.2⟩) fun e d h => ?_
  obtain ⟨left, at_, grows, why⟩ := h
  exact ⟨left, at_, stays.grows.trans grows, why⟩

lemma bind (first : R.Works still b m Q) (then_ : ∀ r c, Stays still b c → Q r c → R.Works still c (next r) E) :
    R.Works still b (m >>= next) E :=
  inner first (fun _ h => h) then_

lemma pure {a : α} (holds : Q a b) : R.Works still b (Pure.pure a) Q :=
  Ends.pure ⟨⟨.refl b, fun _ _ => rfl⟩, holds⟩

lemma imp (works : R.Works still b m Q) (result : ∀ r c, Q r c → Q' r c) : R.Works still b m Q' :=
  Ends.imp works fun r c h => ⟨h.1, result r c h.2⟩

lemma stays (works : R.Works still b m Q) : R.Works still b m fun r c => Stays still b c ∧ Q r c :=
  Ends.imp works fun _ _ h => ⟨h.1, h⟩

lemma of_step (refusing : Refusing R.keeps R.blames b m Q) (does : Does (Step s S) b m Q') :
    R.Works still b m fun r c => Q r c ∧ Q' r c :=
  (refusing.and does).mono (fun _ _ h => ⟨.of_step h.2.1, h.1, h.2.2⟩) fun _ _ h => ⟨h.1.1, b, .refl b, h.1.2⟩

end Works

/-- The result of a part at work: a formula of its own that tells `P`. -/
structure Tells (R : Regime s root) (extra : Multiset Handle) (P : (ValueId → Nat) → Prop) (r : Handle) (c : Bench) :
    Prop where
  keeps : R.keeps c (r ::ₘ extra)
  tells : c.Tells r P

lemma Tells.congr (made : R.Tells extra P r c) (same : ∀ val, P val ↔ Q val) : R.Tells extra Q r c :=
  ⟨made.keeps, made.tells.congr same⟩

/-- The condition of an edge tells if it has one bit, as it should. -/
structure MayTell (R : Regime s root) (extra : Multiset Handle) (P : (ValueId → Nat) → Prop) (r : Handle) (c : Bench) :
    Prop where
  keeps : R.keeps c (r ::ₘ extra)
  tells : c.MayTell r P
  width : R.strict → c.arena.widthOf r = 1

lemma MayTell.congr (made : R.MayTell extra P r c) (same : ∀ val, P val ↔ Q val) : R.MayTell extra Q r c :=
  { made with tells := made.tells.congr same }

lemma Tells.may (made : R.Tells extra P r c) : R.MayTell extra P r c :=
  ⟨made.keeps, made.tells.may, fun _ => made.tells.width⟩

/-! ### Connectives -/

lemma built {m : Build Handle} {p : Handle → Prop} {value : Handle → (Handle → Nat) → Nat} (keeps : R.keeps b extra)
    (refusing : Refusing R.keeps R.blames b (build m) fun r c => R.keeps c (r ::ₘ extra))
    (ends : Ends b.arena m (fun r a => p r ∧ Built b.arena r a w (value r)) (fun _ a => b.arena = a)) :
    R.Works still b (build m) fun r c =>
      R.keeps c (r ::ₘ extra) ∧ b.Grows c ∧ p r ∧ Built b.arena r c.arena w (value r) := by
  have sound := (R.ordered keeps).toSound
  refine .of_step (S := fun _ => False) refusing ((Ends.build ends).mono (fun r c h => ?_) fun _ c h => ?_)
  · obtain ⟨same, holds, built⟩ := h
    have step : Step s (fun _ => False) b c := .of_keeps sound same ⟨built.grows, built.wellFormed⟩
    exact ⟨step, step.grows, holds, built⟩
  · exact .of_keeps sound h.1 (h.2 ▸ Arena.Keeps.refl sound.wellFormed)

lemma tells_of_built {value : (Handle → Nat) → Nat} (kept : b.Kept) (grows : b.Grows c)
    (built : Built b.arena r c.arena 1 value)
    (means : ∀ assign val, b.Agrees assign val → (value assign = 1 ↔ P val)) : c.Tells r P := by
  refine ⟨Arena.exists_node_of_realized built.wellFormed.isOpen built.realized, built.width,
    fun assign val agrees => ?_⟩
  rw [built.value]
  exact means assign val (agrees.of_grows kept grows)

section Connectives

variable (keeps : R.keeps b extra)

include keeps

lemma ofBool_works (value : Bool) :
    R.Works still b (build (Formula.ofBool value)) (R.Tells extra fun _ => value = true) := by
  have kept := (R.ordered keeps).toKept
  refine (built (p := fun _ => True) keeps (R.bool value keeps) ((Formula.Builder.const 1 _).ends kept.wellFormed trivial)).imp
    fun r c h => ⟨h.1, ?_⟩
  refine tells_of_built kept h.2.1 h.2.2.2 fun assign val _ => ?_
  cases value <;> simp [Formula.Builder.meaning]

/-- A connective joins what its operands tell. Only one of them has to be known to have one bit. -/
lemma junction_works {op : Formula.Arith} {join : Prop → Prop → Prop}
    (table : ∀ {w : Nat}, w = 1 → ∀ x y : BitVec w, (op.smt x y).toNat = 1 ↔ join (x.toNat = 1) (y.toNat = 1))
    (held : f ∈ b.owned + extra) (held' : g ∈ b.owned + extra) (left : b.MayTell f P)
    (width : R.strict → b.arena.widthOf f = 1) (right : b.Tells g Q) :
    R.Works still b (build (Formula.arith op f g)) (R.Tells extra fun val => join (P val) (Q val)) := by
  have kept := (R.ordered keeps).toKept
  have same (strict : R.strict) : b.arena.widthOf f = b.arena.widthOf g := (width strict).trans right.width.symm
  refine (built (p := fun _ => b.arena.widthOf f = b.arena.widthOf g) keeps (R.binary (.arith op) keeps held held' same)
    ((Formula.Builder.binary (.arith op) f g).ends kept.wellFormed trivial)).imp fun r c h => ⟨h.1, ?_⟩
  obtain ⟨-, grows, same, built⟩ := h
  have one : b.arena.widthOf f = 1 := same.trans right.width
  refine tells_of_built kept grows (built.congr one fun _ => rfl) fun assign val agrees => ?_
  show (op.smt (b.arena.word assign f) (BitVec.setWidth _ (b.arena.word assign g))).toNat = 1 ↔ _
  rw [table one, Arena.toNat_word, Arena.toNat_setWidth_word same,
    propext ((left.tells one).value assign val agrees), propext (right.value assign val agrees)]

lemma compare_works {op : Formula.Compare} {rel : Nat → Nat → Prop}
    (table : ∀ {w : Nat} (x y : BitVec w), op.smt x y = true ↔ rel x.toNat y.toNat)
    (left : b.formula? x = some f) (right : b.formula? y = some g) (asks : R.asks x n) (asks' : R.asks y n) :
    R.Works still b (build (Formula.compare op f g)) (R.Tells extra fun val => rel (val x) (val y)) := by
  have kept := (R.ordered keeps).toKept
  have held {v : ValueId} {h : Handle} (known : b.formula? v = some h) : h ∈ b.owned + extra :=
    Multiset.mem_add.2 (.inl (mem_owned_of_known known))
  have same (strict : R.strict) : b.arena.widthOf f = b.arena.widthOf g :=
    (R.width keeps strict asks left).trans (R.width keeps strict asks' right).symm
  refine (built (p := fun _ => b.arena.widthOf f = b.arena.widthOf g) keeps
    (R.binary (.compare op) keeps (held left) (held right) same)
    ((Formula.Builder.binary (.compare op) f g).ends kept.wellFormed trivial)).imp fun r c h => ⟨h.1, ?_⟩
  obtain ⟨-, grows, same, built⟩ := h
  refine tells_of_built kept grows built fun assign val agrees => ?_
  have means := table (b.arena.word assign f) (BitVec.setWidth _ (b.arena.word assign g))
  rw [Arena.toNat_word, Arena.toNat_setWidth_word same] at means
  show ((Formula.Binary.compare op).smt _ _).toNat = 1 ↔ _
  rw [agrees x f left, agrees y g right, ← means, Formula.Binary.toNat_smt_compare]
  cases op.smt _ _ <;> simp

lemma lookup_works (asks : R.asks v n) :
    R.Works still b (lookup s v) fun h c => R.keeps c extra ∧ c.formula? v = some h :=
  .of_step (R.look keeps asks) (lookupFrom_does _ v (R.ordered keeps).toSound)

lemma retain_works (held : f ∈ b.owned + extra) :
    R.Works still b (build (Formula.retain f)) fun r c => R.keeps c (r ::ₘ extra) ∧ b.Grows c ∧ r = f ∧
      Built b.arena r c.arena (b.arena.widthOf f) fun assign => b.arena.eval assign f :=
  built keeps (R.retain keeps held) ((Formula.retain_ends (R.ordered keeps).wellFormed f).mono
    (fun _ _ h => ⟨h.1, h.2.2.2⟩) fun _ _ h => h.1)

end Connectives

lemma release_works {fs : List Handle} {held : Multiset Handle} (keeps : R.keeps b held) (split : held = ↑fs + extra) :
    R.Works still b (build (Formula.release fs)) fun _ c => R.keeps c extra := by
  subst split
  exact (Works.of_step (S := fun _ => False) (R.release keeps) (build_does (.release fs) (R.ordered keeps).toSound)).imp
    fun _ _ h => h.1

lemma tells_stays (keeps : R.keeps b extra) (tells : b.Tells f P) (stays : Stays still b c) : c.Tells f P :=
  tells.of_grows (R.ordered keeps).toKept stays.grows

lemma two_below (r f g : Handle) (rest : Multiset Handle) : r ::ₘ g ::ₘ f ::ₘ rest = ↑[f, g] + r ::ₘ rest := by
  rw [Multiset.add_cons, ← Multiset.cons_coe, Multiset.cons_add, ← Formula.cons_eq_add, Multiset.cons_swap g]

lemma joined_works {op : Formula.Arith} {join : Prop → Prop → Prop}
    (table : ∀ {w : Nat}, w = 1 → ∀ x y : BitVec w, (op.smt x y).toNat = 1 ↔ join (x.toNat = 1) (y.toNat = 1))
    (keeps : R.keeps b (g ::ₘ f ::ₘ extra)) (left : b.Tells f P) (right : b.Tells g Q) :
    R.Works still b (joined op f g) (R.Tells extra fun val => join (P val) (Q val)) := by
  unfold joined
  refine .bind (junction_works keeps table (by simp) (by simp) left.may (fun _ => left.width) right) fun r c _ made => ?_
  refine .bind (release_works made.keeps (two_below r f g extra)) fun _ d stays keeps => ?_
  exact .pure ⟨keeps, tells_stays made.keeps made.tells stays⟩

/-! ### Edges -/

def AsksTerm (R : Regime s root) : Term ValueId → Prop
  | .condBr c _ _ => R.asks c 1
  | .switch x _ cases => ∃ n, R.asks x n ∧ ∀ arm ∈ cases, R.asks arm.1 n
  | _ => True

def AsksPhi (R : Regime s root) (v : ValueId) : Prop :=
  ∀ name t flags type incoming trail, s.module.get? v = some (.inst name t (.phi flags type incoming) trail) →
    (s.width? t).isSome → ∃ n, R.asks v n ∧ ∀ pair ∈ incoming, isUndef s.module pair.1 = false → R.asks pair.1 n

structure AsksBlock (R : Regime s root) (i : Nat) : Prop where
  term : ∀ t, terminatorOf? s i = some t → R.AsksTerm t
  phis : ∀ v ∈ (s.graph.block i).insts.toList, R.AsksPhi v

lemma asksBlock_of_forall (all : ∀ v n, R.asks v n) (i : Nat) : R.AsksBlock i where
  term := fun t _ => by
    cases t with
    | condBr => exact all _ _
    | switch => exact ⟨0, all _ _, fun _ _ => all _ _⟩
    | _ => trivial
  phis := fun _ _ _ _ _ _ _ _ _ _ => ⟨0, all _ _, fun _ _ _ => all _ _⟩

lemma someCase_works (cases : List (ValueId × ValueId)) (asks : R.asks x n)
    (asked : ∀ arm ∈ cases, R.asks arm.1 n) (keeps : R.keeps b (f ::ₘ extra)) (known : b.formula? x = some g)
    (tells : b.Tells f P) : R.Works still b (someCase s g dest cases f)
      (R.Tells extra fun val => P val ∨ ∃ arm ∈ cases, arm.2 = dest ∧ val x = val arm.1) := by
  induction cases generalizing b f P with
  | nil => exact .pure ⟨keeps, tells.congr fun val => by simp⟩
  | cons arm cases ih =>
    obtain ⟨k, t⟩ := arm
    obtain ⟨here, others⟩ := forall_mem_cons.1 asked
    unfold someCase
    split
    next same =>
      refine .bind (lookup_works keeps here) fun h c stays looked => ?_
      obtain ⟨keeps', there⟩ := looked
      have known := stays.grows.formula known
      have tells := tells_stays keeps tells stays
      refine .bind (compare_works keeps' eq_iff_toNat known there asks here) fun e c stays equal => ?_
      have known := stays.grows.formula known
      have tells := tells_stays keeps' tells stays
      refine .bind (joined_works toNat_or_eq_one equal.keeps tells equal.tells) fun r c stays both => ?_
      refine (ih others both.keeps (stays.grows.formula known) both.tells).imp fun r c told => told.congr fun val => ?_
      simp [same, or_assoc]
    next other =>
      refine (ih others keeps known tells).imp fun r c told => told.congr fun val => ?_
      simp [other]

lemma noCase_works (cases : List (ValueId × ValueId)) (asks : R.asks x n)
    (asked : ∀ arm ∈ cases, R.asks arm.1 n) (keeps : R.keeps b (f ::ₘ extra)) (known : b.formula? x = some g)
    (tells : b.Tells f P) :
    R.Works still b (noCase s g cases f) (R.Tells extra fun val => P val ∧ ∀ arm ∈ cases, val x ≠ val arm.1) := by
  induction cases generalizing b f P with
  | nil => exact .pure ⟨keeps, tells.congr fun val => by simp⟩
  | cons arm cases ih =>
    obtain ⟨k, t⟩ := arm
    obtain ⟨here, others⟩ := forall_mem_cons.1 asked
    unfold noCase
    refine .bind (lookup_works keeps here) fun h c stays looked => ?_
    obtain ⟨keeps', there⟩ := looked
    have known := stays.grows.formula known
    have tells := tells_stays keeps tells stays
    refine .bind (compare_works keeps' ne_iff_toNat known there asks here) fun e c stays differ => ?_
    have known := stays.grows.formula known
    have tells := tells_stays keeps' tells stays
    refine .bind (joined_works toNat_and_eq_one differ.keeps tells differ.tells) fun r c stays both => ?_
    refine (ih others both.keeps (stays.grows.formula known) both.tells).imp fun r c told => told.congr fun val => ?_
    simp [and_assoc]

lemma branch_works (t : ValueId) (asks : R.asks x 1) (keeps : R.keeps b extra) (known : b.formula? x = some f) :
    R.Works still b (build (if t = dest then Formula.retain f else Formula.not f))
      (R.MayTell extra fun val => if t = dest then val x = 1 else val x = 0) := by
  have kept := (R.ordered keeps).toKept
  have held : f ∈ b.owned + extra := Multiset.mem_add.2 (.inl (mem_owned_of_known known))
  split
  · refine (retain_works keeps held).imp fun r c h => ?_
    obtain ⟨keeps', grows, -, built⟩ := h
    refine ⟨keeps', ⟨Arena.exists_node_of_realized built.wellFormed.isOpen built.realized, fun one => ?_⟩, fun strict => ?_⟩
    · refine tells_of_built kept grows (built.congr (built.width.symm.trans one) fun _ => rfl) fun assign val agrees => ?_
      rw [agrees x f known]
    · exact built.width.trans (R.width keeps strict asks known)
  · refine (Regime.built (p := fun _ => True) keeps (R.not keeps known) ((Formula.Builder.not f).ends kept.wellFormed trivial)).imp
      fun r c h => ?_
    obtain ⟨keeps', grows, -, built⟩ := h
    refine ⟨keeps', ⟨Arena.exists_node_of_realized built.wellFormed.isOpen built.realized, fun one => ?_⟩, fun strict => ?_⟩
    · have one := built.width.symm.trans one
      refine tells_of_built kept grows (built.congr one fun _ => rfl) fun assign val agrees => ?_
      rw [agrees x f known, ← Arena.toNat_word]
      exact toNat_not_eq_one one _
    · exact built.width.trans (R.width keeps strict asks known)

/-- The value that a terminator decides on, if its targets differ. -/
def decider? : Term ValueId → Option ValueId
  | .condBr c t e => if t = e then none else some c
  | .switch x _ _ => some x
  | _ => none

/-- What the terminator decides on is known in the end. -/
lemma edgeCondition_works (source target : Nat) (asks : ∀ t, terminatorOf? s source = some t → R.AsksTerm t)
    (keeps : R.keeps b extra) :
    R.Works still b (edgeCondition s source target) (fun r c => R.MayTell extra (fun val => Goes s val source target) r c ∧
      ∀ v, (terminatorOf? s source).bind decider? = some v → Known v c) := by
  have always : R.Works still b (build (Formula.ofBool true)) (R.MayTell extra fun _ => True) :=
    (ofBool_works keeps true).imp fun r c made => made.may.congr fun _ => by simp
  unfold edgeCondition Goes
  revert asks
  generalize terminatorOf? s source = term
  intro asks
  rcases term with _ | (_ | _ | ⟨x, t, e⟩ | ⟨x, d, cases⟩ | _ | _ | _)
  case some.condBr =>
    have asks : R.asks x 1 := asks _ rfl
    dsimp only
    split
    next same => exact always.imp fun r c may => ⟨may.congr fun val => by simp [same], by simp [decider?, same]⟩
    next other =>
      refine .bind (lookup_works keeps asks) fun f c _ looked => ?_
      refine (branch_works t asks looked.1 looked.2).stays.imp fun r c h => ⟨h.2.congr fun val => ?_, fun v decides => ?_⟩
      · simp [other]
      · obtain rfl : x = v := by simpa [decider?, other] using decides
        exact ⟨f, h.1.grows.formula looked.2⟩
  case some.switch =>
    obtain ⟨n, asks, asked⟩ := asks _ rfl
    refine .bind (lookup_works keeps asks) fun g c _ looked => ?_
    obtain ⟨keeps, known⟩ := looked
    refine .bind (ofBool_works keeps false) fun f c stays no => ?_
    have known := stays.grows.formula known
    refine .bind (someCase_works cases asks asked no.keeps known no.tells) fun f c stays matching => ?_
    have known := stays.grows.formula known
    dsimp only
    split
    next same =>
      refine .bind (ofBool_works matching.keeps true) fun g c stays yes => ?_
      have told := tells_stays matching.keeps matching.tells stays
      have known := stays.grows.formula known
      refine .bind (noCase_works cases asks asked yes.keeps known yes.tells) fun g c stays other => ?_
      have told := tells_stays yes.keeps told stays
      have known := stays.grows.formula known
      refine (joined_works toNat_or_eq_one other.keeps told other.tells).stays.imp fun r c h =>
        ⟨h.2.may.congr fun val => by simp [same], fun v decides => ?_⟩
      obtain rfl : x = v := Option.some.inj decides
      exact ⟨_, h.1.grows.formula known⟩
    next other =>
      refine .pure ⟨matching.may.congr fun val => by simp [other], fun v decides => ?_⟩
      obtain rfl : x = v := Option.some.inj decides
      exact ⟨_, known⟩
  all_goals exact always.imp fun _ _ may => ⟨may, by simp [decider?]⟩

/-! ### Phis -/

lemma incomingEqual_works {phi source : ValueId} (incoming : List (ValueId × ValueId)) (asks : R.asks phi n)
    (asked : ∀ pair ∈ incoming, isUndef s.module pair.1 = false → R.asks pair.1 n) (keeps : R.keeps b (f ::ₘ extra))
    (tells : b.Tells f P) : R.Works still b (incomingEqual s phi source incoming f)
      (R.Tells extra fun val => P val ∧ Incoming s.module val source phi incoming) := by
  induction incoming generalizing b f P with
  | nil => exact .pure ⟨keeps, tells.congr fun val => by simp [Incoming]⟩
  | cons pair incoming ih =>
    obtain ⟨x, t⟩ := pair
    obtain ⟨here, others⟩ := forall_mem_cons.1 asked
    unfold incomingEqual
    split
    next defined =>
      rw [Bool.and_eq_true, decide_eq_true_iff, Bool.not_eq_true'] at defined
      have here := here defined.2
      refine .bind (lookup_works keeps here) fun g c stays looked => ?_
      obtain ⟨keeps₁, known⟩ := looked
      have tells := tells_stays keeps tells stays
      refine .bind (lookup_works keeps₁ asks) fun h c stays looked => ?_
      obtain ⟨keeps₂, there⟩ := looked
      have tells := tells_stays keeps₁ tells stays
      refine .bind (compare_works keeps₂ eq_iff_toNat (stays.grows.formula known) there here asks)
        fun e c stays equal => ?_
      have tells := tells_stays keeps₂ tells stays
      refine .bind (joined_works toNat_and_eq_one equal.keeps tells equal.tells) fun r c _ both => ?_
      refine (ih others both.keeps both.tells).imp fun r c told => told.congr fun val => ?_
      simp [Incoming, defined, and_assoc]
    next skipped =>
      refine (ih others keeps tells).imp fun r c told => told.congr fun val => ?_
      have vacuous : t = source → isUndef s.module x = false → val x = val phi := fun same defined =>
        absurd (by simp [same, defined]) skipped
      simp only [Incoming, forall_mem_cons, and_iff_right vacuous]

lemma phisEqual_works {source : ValueId} (insts : List ValueId) (asked : ∀ v ∈ insts, R.AsksPhi v)
    (keeps : R.keeps b (f ::ₘ extra)) (tells : b.Tells f P) :
    R.Works still b (phisEqual s source insts f) (R.Tells extra fun val => P val ∧ PhisHold s val source insts) := by
  induction insts generalizing b f P with
  | nil => exact .pure ⟨keeps, tells.congr fun val => by simp [PhisHold]⟩
  | cons v vs ih =>
    obtain ⟨here, others⟩ := forall_mem_cons.1 asked
    unfold phisEqual PhisHold
    have done : R.Works still b (pure f : Analyze Handle) (R.Tells extra fun val => P val ∧ True) :=
      .pure ⟨keeps, tells.congr fun val => (and_iff_left trivial).symm⟩
    rcases found : s.module.get? v with _ | (_ | ⟨name, t, i, trail⟩ | _ | _ | _ | _ | _ | _)
    case some.inst =>
      cases i with
      | phi flags type incoming =>
        dsimp only
        rcases analysed : s.width? t with _ | w
        · refine (ih others keeps tells).imp fun r c told => told.congr fun val => ?_
          simp
        · obtain ⟨n, asks, values⟩ := here name t flags type incoming trail found (by rw [analysed]; rfl)
          refine .bind (incomingEqual_works incoming asks values keeps tells) fun g c _ told => ?_
          refine (ih others told.keeps told.tells).imp fun r c told => told.congr fun val => ?_
          simp [and_assoc]
      | _ => exact done
    all_goals exact done

lemma phiCondition_works (source target : Nat) (asked : ∀ v ∈ (s.graph.block target).insts.toList, R.AsksPhi v)
    (keeps : R.keeps b extra) :
    R.Works still b (phiCondition s source target) (R.Tells extra fun val => Assigns s val source target) := by
  unfold phiCondition
  refine .bind (ofBool_works keeps true) fun f c _ yes => ?_
  refine (phisEqual_works _ asked yes.keeps yes.tells).imp fun r c told => told.congr fun val => ?_
  simp [Assigns]

/-! ### Blocks -/

/-- Control reaches `b` through `a`. -/
def Through (s : Setting) (val : ValueId → Nat) (a b : Nat) : Prop :=
  s.cut.has a b = false ∧ Goes s val a b ∧ Assigns s val a b ∧ Reaches s val a

/-- The formula of a block is borrowed from the engine, which keeps it. -/
def Lends (R : Regime s root) (still : Nat → Prop) (m : Analyze Handle) (i : Nat) : Prop :=
  ∀ b extra, R.keeps b extra → R.Works still b m fun r c => R.keeps c extra ∧ c.pathOf i = r ∧ r ≠ 0

lemma waysInto_works {reach : Nat → Analyze Handle} (target : Nat) (preds : List Nat)
    (terms : ∀ p ∈ preds, ∀ t, terminatorOf? s p = some t → R.AsksTerm t)
    (phis : ∀ v ∈ (s.graph.block target).insts.toList, R.AsksPhi v)
    (lends : ∀ p ∈ preds, s.cut.has p target = false → R.Lends still (reach p) p)
    (keeps : R.keeps b (f ::ₘ extra)) (tells : b.Tells f P) :
    R.Works still b (waysInto s reach target preds f) fun r c =>
      R.Tells extra (fun val => P val ∨ ∃ p ∈ preds, Through s val p target) r c ∧
      ∀ p ∈ preds, s.cut.has p target = false → R.fit p := by
  induction preds generalizing b f P with
  | nil => exact .pure ⟨⟨keeps, tells.congr fun val => by simp⟩, nofun⟩
  | cons p preds ih =>
    have later {c : Bench} {f : Handle} {P : (ValueId → Nat) → Prop} := ih (b := c) (f := f) (P := P)
      (fun q listed => terms q (mem_cons_of_mem p listed)) fun q listed => lends q (mem_cons_of_mem p listed)
    unfold waysInto
    split
    next cut =>
      refine (later keeps tells).imp fun r c h => ⟨h.1.congr fun val => ?_, fun q listed uncut => ?_⟩
      · simp [Through, cut]
      · rcases mem_cons.1 listed with rfl | listed
        · rw [cut] at uncut
          cases uncut
        · exact h.2 q listed uncut
    next uncut =>
      refine .bind (edgeCondition_works p target (terms p mem_cons_self) keeps) fun cond b₁ stays₁ h => ?_
      have goes := h.1
      have tells := tells_stays keeps tells stays₁
      refine .bind (phiCondition_works p target phis goes.keeps) fun phi b₂ stays₂ assigns => ?_
      have tells := tells_stays goes.keeps tells stays₂
      have kept₁ := (R.ordered goes.keeps).toKept
      -- the condition of the edge and the assignments are joined
      obtain ⟨n, found⟩ := goes.tells.node
      refine .bind (junction_works assigns.keeps toNat_and_eq_one (by simp) (by simp)
        (goes.tells.of_grows kept₁ stays₂.grows) (fun strict => (stays₂.grows.arena.widthOf found).trans (goes.width strict))
        assigns.tells) fun edge b₃ stays₃ passes => ?_
      have tells := tells_stays assigns.keeps tells stays₃
      refine .bind (release_works passes.keeps (two_below edge cond phi _)) fun _ b₄ stays₄ keeps₄ => ?_
      have tells := tells_stays passes.keeps tells stays₄
      have passing := tells_stays passes.keeps passes.tells stays₄
      refine .bind (lends p mem_cons_self (Bool.eq_false_iff.2 uncut) b₄ _ keeps₄) fun before b₅ stays₅ lent => ?_
      obtain ⟨keeps₅, rfl, some⟩ := lent
      have fit : R.fit p := R.fits keeps₅ some
      have tells := tells_stays keeps₄ tells stays₅
      have passing := tells_stays keeps₄ passing stays₅
      refine .bind (junction_works keeps₅ toNat_and_eq_one (by simp) (Multiset.mem_add.2 (.inl (mem_owned_of_pathOf some)))
        passing.may (fun _ => passing.width) ((R.ordered keeps₅).tells_pathOf some)) fun way b₆ stays₆ through => ?_
      have tells := tells_stays keeps₅ tells stays₆
      refine .bind (junction_works through.keeps toNat_or_eq_one (by simp) (by simp) tells.may (fun _ => tells.width)
        through.tells) fun next b₇ _ told => ?_
      have split : next ::ₘ way ::ₘ edge ::ₘ f ::ₘ extra = ↑[edge, way, f] + (next ::ₘ extra) := by
        simp only [← Multiset.singleton_add, ← Multiset.cons_coe, Multiset.coe_nil]
        abel
      refine .bind (release_works told.keeps split) fun _ b₈ stays₈ keeps₈ => ?_
      refine (later keeps₈ (tells_stays told.keeps told.tells stays₈)).imp fun r c h => ⟨h.1.congr fun val => ?_,
        fun q listed uncut => ?_⟩
      · simp [Through, uncut, or_assoc, and_assoc]
      · rcases mem_cons.1 listed with rfl | listed
        · exact fit
        · exact h.2 q listed uncut

lemma keep_works (keeps : R.keeps b (f ::ₘ extra)) (below : i < s.graph.size) (empty : b.pathOf i = 0) (fit : R.fit i)
    (tells : b.Tells f fun val => Reaches s val i) (idle : ¬ still i) :
    R.Works still b (keep i f) fun r c => R.keeps c extra ∧ c.pathOf i = r ∧ r ≠ 0 := by
  obtain ⟨ps, open_, size⟩ := (R.ordered keeps).places
  have place := pathOf_placed (f := f) open_ (size ▸ below)
  obtain ⟨n, found⟩ := tells.node
  have some : f ≠ 0 := (Arena.realized_of_node? (R.ordered keeps).wellFormed.isOpen found).1.ne'
  refine Ends.modify_bind (Ends.pure ⟨⟨⟨.refl _, id⟩, fun j fixed => ?_⟩, R.place keeps below empty fit tells, ?_, some⟩)
  · refine (place j).trans (if_neg ?_)
    rintro rfl
    exact fixed.elim idle fun some => some empty
  · exact (place i).trans (if_pos rfl)

section Reach

variable {fn : IR.Func} (graph : Flow.Graph.ofFunc s.module fn = .ok s.graph)
  (asks : ∀ i < s.graph.size, R.AsksBlock i)

include graph asks

lemma reachFrom_lends {depth : Nat} {active : List Nat} (descent : Descent s root depth active i) :
    R.Lends (underWay active) (reachFrom s depth active i) i := by
  induction depth generalizing active i with
  | zero => exact descent.not_zero.elim
  | succ depth ih =>
    intro b extra keeps
    have below := descent.below
    obtain ⟨ps, open_, size⟩ := (R.ordered keeps).places
    unfold reachFrom kept
    rw [bind_assoc]
    refine Ends.get_bind ?_
    rw [open_]
    have place : b.pathOf i = ps.getD i 0 := by rw [Bench.pathOf, open_]; rfl
    rw [pure_bind, ← place]
    split
    next some => exact Works.pure ⟨keeps, rfl, some⟩
    next none =>
      have empty : b.pathOf i = 0 := not_not.1 none
      split
      next entry =>
        subst entry
        have made : R.Works (fun _ => True) b (build (Formula.ofBool true)) (R.Tells extra fun _ => true = true) :=
          ofBool_works keeps true
        refine Works.inner made (fun _ _ => trivial) fun f c stays yes => ?_
        refine keep_works yes.keeps below ((stays.path 0 (.inl trivial)).trans empty) R.entry
          (yes.tells.congr fun val => iff_of_true rfl .entry) fun h => h.2 rfl
      next inner =>
        split
        next again =>
          have looped := descent.looped inner (by simpa using again)
          exact Ends.throw ⟨⟨extra, keeps⟩, b, .refl b, R.cycle looped⟩
        next fresh =>
          have fresh : i ∉ active := by simpa using fresh
          have preds : ∀ p, p ∈ s.graph.predsOf i ↔ i ∈ s.graph.succsOf p := fun p =>
            Flow.Graph.mem_predsOf graph below
          have source : ∀ p ∈ s.graph.predsOf i, p < s.graph.size := fun p listed =>
            Flow.Graph.lt_of_mem_succsOf graph ((preds p).1 listed)
          have lends : ∀ p ∈ s.graph.predsOf i, s.cut.has p i = false →
              R.Lends (underWay (i :: active)) (reachFrom s depth (i :: active) p) p := fun p listed uncut =>
            ih (descent.cons inner fresh ⟨(preds p).1 listed, uncut⟩ (source p listed))
          -- the places of the blocks under way stay empty until all ways into this one are joined
          rw [← bind_assoc]
          have ways : R.Works (underWay (i :: active)) b _ _ :=
            .bind (ofBool_works keeps false) fun f c _ no => waysInto_works i _
              (fun p listed => (asks p (source p listed)).term) (asks i below).phis lends no.keeps no.tells
          refine Works.inner ways (fun j h => ⟨mem_cons_of_mem i h.1, h.2⟩) fun f c stays h => ?_
          obtain ⟨told, fits⟩ := h
          have empty' : c.pathOf i = 0 := (stays.path i (.inl ⟨mem_cons_self, inner⟩)).trans empty
          have fit : R.fit i := R.block i inner fun p flows => fits p ((preds p).2 flows.1) flows.2
          refine keep_works told.keeps below empty' fit (told.tells.congr fun val => ?_) fun h => fresh h.1
          rw [reaches_iff inner]
          simp only [Bool.false_eq_true, false_or, preds]
          exact ⟨fun ⟨p, edge, uncut, goes, assigns, reached⟩ => ⟨p, ⟨edge, uncut, goes, assigns⟩, reached⟩,
            fun ⟨p, passes, reached⟩ => ⟨p, passes.edge, passes.uncut, passes.goes, passes.assigns, reached⟩⟩

lemma path_works {block : ValueId} (found : s.graph.indexOf s.module block = .ok root) (keeps : R.keeps b extra) :
    R.Works (fun _ => False) b (path s block) fun r c =>
      R.Tells extra (fun val => Reaches s val root) r c ∧ c.pathOf root = r ∧ r ≠ 0 := by
  have lends := reachFrom_lends graph asks (.start (Flow.Graph.of_indexOf graph found).1)
  unfold path
  rw [found]
  refine Works.inner (lends b extra keeps) (fun _ h => h.elim) fun f c _ lent => ?_
  obtain ⟨keeps, rfl, some⟩ := lent
  have kept : R.Works (fun _ => True) c (build (Formula.retain (c.pathOf root))) _ :=
    retain_works keeps (Multiset.mem_add.2 (.inl (mem_owned_of_pathOf some)))
  refine Ends.imp kept fun r d h => ?_
  obtain ⟨stays, keeps', grows, rfl, -⟩ := h
  exact ⟨stays.fewer fun _ h => h.elim, ⟨keeps', tells_stays keeps ((R.ordered keeps).tells_pathOf some) stays⟩,
    stays.path root (.inl trivial), some⟩

end Reach

end Regime

end Faultline.Analysis
