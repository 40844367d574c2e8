/-
# Proofs.Formula.Builders — builders mean what they say

`Builder` names the calls of the builders, `Builder.width` and `Builder.meaning` say
what width and value SMT-LIB gives their results. Every call is followed once
(`Builder.runs`). A call that returns takes a reference to a formula that is held,
folds a constant or adds its own node (`Builder.Change`), and unless the width of an
extension wraps around the result is what the call means. A call that is refused
changes nothing.
-/
import Faultline.Proofs.Formula.Built

namespace Faultline

/-- A fault other than the refusal of a cycle. -/
def Fault.Other (e : Fault) : Prop :=
  ∀ name, e ≠ .unbrokenCycle name

namespace Formula

open Arena (Built word)

variable {a : Arena} {f g r w k : Nat} {n : Node} {e : Fault} {v : Nat} {p : Prop}

/-! ## Checks -/

lemma need_ends (p : Prop) [Decidable p] (fault : Fault) (a : Arena) :
    Ends a (need p fault) (fun _ b => a = b ∧ p) (fun _ b => a = b ∧ ¬ p) := by
  unfold need
  split
  · exact Ends.pure ⟨rfl, ‹p›⟩
  · exact Ends.throw ⟨rfl, ‹¬ p›⟩

lemma need_bind {α : Type} [Decidable p] {fault : Fault} {x : Unit → Build α}
    {Q : α → Arena → Prop} {E : Fault → Arena → Prop} (holds : p → Ends a (x ()) Q E)
    (fails : ¬ p → E fault a) : Ends a (need p fault >>= x) Q E := by
  unfold need
  split
  · exact Ends.bind (Q := fun _ b => a = b) rfl fun _ _ same => same ▸ holds ‹p›
  · exact Ends.bind (Q := fun _ _ => False) (Ends.throw (fails ‹¬ p›)) fun _ _ absurd => absurd.elim

lemma held_ends (wf : a.WellFormed) (f : Nat) :
    Ends a (held f) (fun n b => a = b ∧ a.node? f = some n ∧ 0 < a.count f)
      (fun e b => a = b ∧ e.Other ∧ ¬ 0 < a.count f) := by
  unfold held
  apply Ends.get_bind
  refine need_bind (fun realized => need_bind (fun counted => ?_) fun idle => ⟨rfl, nofun, idle⟩)
    fun absent => ⟨rfl, nofun, fun counted => absent (Arena.realized_of_count wf counted)⟩
  obtain ⟨n, found⟩ := Arena.exists_node_of_realized wf.isOpen realized
  exact Ends.pure ⟨rfl, by simp [found], counted⟩

lemma width_ends (wf : a.WellFormed) (f : Nat) :
    Ends a (width f) (fun w b => a = b ∧ a.widthOf f = w ∧ a.Realized f ∧ 0 < a.count f)
      (fun e b => a = b ∧ e.Other ∧ ¬ 0 < a.count f) := by
  unfold width
  rw [map_eq_pure_bind]
  refine Ends.bind (held_ends wf f) ?_
  rintro n _ ⟨rfl, found, counted⟩
  exact Ends.pure ⟨rfl, Arena.widthOf_eq found, Arena.realized_of_node? wf.isOpen found, counted⟩

lemma retain_ends (wf : a.WellFormed) (f : Nat) : Ends a (retain f)
      (fun r b => r = f ∧ b = a.hold f ∧ 0 < a.count f ∧ Built a r b (a.widthOf f) (fun assign => a.eval assign f))
      (fun e b => a = b ∧ e.Other ∧ ¬ 0 < a.count f) := by
  unfold retain
  refine Ends.bind (held_ends wf f) ?_
  rintro n _ ⟨rfl, found, counted⟩
  apply Ends.modify_bind
  refine Ends.pure ⟨rfl, rfl, counted, ?_⟩
  exact (Arena.built_hold wf found).congr (Arena.widthOf_eq found).symm fun _ => rfl

lemma eval_const (wf : a.WellFormed) (found : a.node? f = some ⟨w, .const v⟩)
    (assign : Handle → Nat) : a.eval assign f = v := by
  rw [Arena.eval_eq wf.toWellTyped found]
  have fits : v < 2 ^ w := (wf.fits found).typed
  simp [Node.bits, Nat.mod_eq_of_lt fits]

lemma toNat_ofInt_bit (v : Bool) : (BitVec.ofInt 1 (if v then 1 else 0)).toNat = v.toNat := by
  cases v <;> rfl

/-! ## Calls -/

def Binary.resultWidth (op : Binary) (w : Nat) : Nat :=
  match op with
  | .arith _ => w
  | .compare _ => 1

def Binary.smt (op : Binary) {w : Nat} (x y : BitVec w) : BitVec (op.resultWidth w) :=
  match op with
  | .arith op => op.smt x y
  | .compare op => BitVec.ofBool (op.smt x y)

lemma Binary.toNat_smt_compare (op : Compare) (x y : BitVec w) :
    ((Binary.compare op).smt x y).toNat = (op.smt x y).toNat :=
  BitVec.toNat_ofBool _

/-- A word of more bits, with the sign or with zeros. -/
def widen (withSign : Bool) {w : Nat} (x : BitVec w) (n : Nat) : BitVec n :=
  match withSign with
  | true => x.signExtend n
  | false => x.setWidth n

inductive Builder where
  | const (width : Nat) (value : Int)
  | var (width : Nat) (name : String)
  | not (f : Handle)
  | neg (f : Handle)
  | zext (f : Handle) (k : Nat)
  | sext (f : Handle) (k : Nat)
  | extract (f : Handle) (hi lo : Nat)
  | ite (c t e : Handle)
  | binary (op : Binary) (f g : Handle)

namespace Builder

def run : Builder → Build Handle
  | const w v => Formula.const w v
  | var w name => Formula.var w name
  | not f => Formula.not f
  | neg f => Formula.neg f
  | zext f k => Formula.zext f k
  | sext f k => Formula.sext f k
  | extract f hi lo => Formula.extract f hi lo
  | ite c t e => Formula.ite c t e
  | binary op f g => Formula.binary op f g

/-- The width that SMT-LIB gives the result of a call in `a`. -/
def width (a : Arena) : Builder → Nat
  | const w _ | var w _ => w
  | not f | neg f => a.widthOf f
  | zext f k | sext f k => a.widthOf f + k
  | extract _ hi lo => hi - lo + 1
  | ite _ t _ => a.widthOf t
  | binary op f _ => op.resultWidth (a.widthOf f)

/-- The word that SMT-LIB gives the result `r` of a call in `a`. -/
def meaning (a : Arena) (assign : Handle → Nat) (r : Handle) : (call : Builder) → BitVec (call.width a)
  | const w v => BitVec.ofInt w v
  | var w _ => BitVec.ofNat w (assign r)
  | not f => BitVec.not (a.word assign f)
  | neg f => BitVec.neg (a.word assign f)
  | zext f k => BitVec.setWidth (a.widthOf f + k) (a.word assign f)
  | sext f k => BitVec.signExtend (a.widthOf f + k) (a.word assign f)
  | extract f hi lo => BitVec.extractLsb hi lo (a.word assign f)
  | ite c t e => if a.word assign c = BitVec.ofNat _ 1 then a.word assign t
      else BitVec.setWidth (a.widthOf t) (a.word assign e)
  | binary op f g => op.smt (a.word assign f) (BitVec.setWidth (a.widthOf f) (a.word assign g))

/-- The operands have the widths that SMT-LIB asks for, so `meaning` cuts no operand. -/
def Typed (a : Arena) : Builder → Prop
  | extract f hi lo => lo ≤ hi ∧ hi < a.widthOf f
  | ite c t e => a.widthOf c = 1 ∧ a.widthOf t = a.widthOf e
  | binary _ f g => a.widthOf f = a.widthOf g
  | _ => True

/-- The width of an extension fits in a word. -/
def NoWrap (a : Arena) : Builder → Prop
  | zext f k | sext f k => a.widthOf f + k < twoPow 64
  | _ => True

def ext (withSign : Bool) (f : Handle) (k : Nat) : Builder :=
  match withSign with
  | true => .sext f k
  | false => .zext f k

def Positive : Builder → Prop
  | not _ => False
  | _ => True

/-! ## What a call can do -/

def operands : Builder → List Handle
  | const _ _ | var _ _ => []
  | not f | neg f | zext f _ | sext f _ | extract f _ _ => [f]
  | ite c t e => [c, t, e]
  | binary _ f g => [f, g]

/-- The width that the result gets; that of an extension may have wrapped around. -/
def made (a : Arena) : Builder → Nat
  | zext f k | sext f k => if k = 0 then a.widthOf f else addWidth (a.widthOf f) k
  | call => call.width a

lemma made_eq {call : Builder} (noWrap : call.NoWrap a) : call.made a = call.width a := by
  cases call with
  | zext f k | sext f k =>
    show (if k = 0 then a.widthOf f else addWidth (a.widthOf f) k) = a.widthOf f + k
    split
    · omega
    · exact Nat.mod_eq_of_lt noWrap
  | _ => rfl

/-- A constant operand may decide the result. -/
def Absorbs : Builder → Prop
  | binary (.arith op) _ _ => op.absorbing? ≠ none
  | _ => False

/-- The result is computed from constants. -/
def Folds (a : Arena) : Builder → Prop
  | const _ _ => True
  | var _ _ | ite _ _ _ => False
  | extract f hi _ => a.IsConst f ∧ hi < a.widthOf f
  | not f | neg f | zext f _ | sext f _ | binary _ f _ => a.IsConst f

/-- A formula that was there may be the result. -/
def Takes (r : Handle) : Builder → Prop
  | const _ _ | var _ _ | neg _ => False
  | zext f k | sext f k => r = f ∧ k = 0
  | extract f _ _ => r = f
  | not _ | ite _ _ _ => True
  | call => call.Absorbs

/-- An extension that adds bits to a held formula, which is no constant. -/
def Extends (a : Arena) (f : Handle) (k w : Nat) : Prop :=
  w = addWidth (a.widthOf f) k ∧ k ≠ 0 ∧ 0 < a.count f ∧ ¬ a.IsConst f

/-- A node of the call's own. -/
def Adds (a : Arena) (n : Node) : Builder → Prop
  | const _ _ => False
  | var _ _ => ∃ name, n.term = .var name
  | not f => n.term = .not f
  | neg f => n.term = .neg f
  | zext f k => n.term = .zext f ∧ Extends a f k n.width
  | sext f k => n.term = .sext f ∧ Extends a f k n.width
  | extract f hi lo => n.term = .extract f hi lo
  | ite c t e => n.term = .ite c t e
  | binary (.arith op) f g => n.term = .arith op f g
  | binary (.compare op) f g => n.term = .compare op f g

/-- The three ways from `a` to a result `r` in `b`. -/
inductive Change (call : Builder) (a : Arena) : Handle → Arena → Prop where
  | took {r : Handle} (counted : 0 < a.count r) (takes : call.Takes r) : Change call a r (a.hold r)
  | folded {w v : Nat} (fits : a.Fits a.next ⟨w, .const v⟩) (narrow : w < widthLimit)
      (folds : call.Folds a ∨ call.Absorbs) : Change call a a.next (a.push ⟨w, .const v⟩ a.names)
  | added {n : Node} {names : Std.HashSet String} (fits : a.Fits a.next n) (adds : call.Adds a n)
      (quiet : (∀ w name, call ≠ var w name) → names = a.names) : Change call a a.next (a.push n names)

/-- What may be to blame for a refusal. -/
inductive Blamed (call : Builder) (a : Arena) : Fault → Prop where
  | idle {e : Fault} {f : Handle} (mem : f ∈ call.operands) (idle : ¬ 0 < a.count f) : Blamed call a e
  | untyped {e : Fault} (untyped : ¬ call.Typed a) (named : ∀ op f g, call = binary op f g →
      e = .binaryWidths op (a.widthOf f) (a.widthOf g)) : Blamed call a e
  | thin {e : Fault} (thin : ¬ 0 < call.made a) : Blamed call a e
  | wide (folds : call.Folds a) (wide : ¬ call.made a < widthLimit) : Blamed call a .constTooWide
  /-- The formula that is negated by the operand of a negation is not held. -/
  | inner {e : Fault} {f g : Handle} {w : Nat} (negates : call = not f) (found : a.node? f = some ⟨w, .not g⟩)
      (idle : ¬ 0 < a.count g) : Blamed call a e

/-- `x` does in `a` what the call stands for. -/
def Runs (call : Builder) (a : Arena) (x : Build Handle) : Prop :=
  Ends a x (fun r b => call.Change a r b ∧ (call.NoWrap a → call.Typed a ∧
      Built a r b (call.width a) fun assign => (call.meaning a assign r).toNat))
    (fun e b => a = b ∧ e.Other ∧ call.Blamed a e)

namespace Runs

variable {call : Builder} (wf : a.WellFormed)

lemma need [Decidable p] {fault : Fault} {x : Unit → Build Handle} (holds : p → call.Runs a (x ()))
    (other : fault.Other) (fails : ¬ p → call.Blamed a fault) : call.Runs a (need p fault >>= x) :=
  need_bind holds fun failed => ⟨rfl, other, fails failed⟩

include wf

lemma held {x : Node → Build Handle} (mem : f ∈ call.operands)
    (next : ∀ term, a.node? f = some ⟨a.widthOf f, term⟩ → 0 < a.count f → call.Runs a (x ⟨a.widthOf f, term⟩)) :
    call.Runs a (held f >>= x) := by
  refine Ends.bind ((held_ends wf f).blame fun _ _ h => ⟨h.1, h.2.1, .idle mem h.2.2⟩) ?_
  rintro ⟨w, term⟩ _ ⟨rfl, found, counted⟩
  obtain rfl : a.widthOf f = w := Arena.widthOf_eq found
  exact next term found counted

lemma width {x : Nat → Build Handle} (mem : f ∈ call.operands)
    (next : 0 < a.count f → call.Runs a (x (a.widthOf f))) : call.Runs a (Formula.width f >>= x) := by
  refine Ends.bind ((width_ends wf f).blame fun _ _ h => ⟨h.1, h.2.1, .idle mem h.2.2⟩) ?_
  rintro _ _ ⟨rfl, rfl, -, counted⟩
  exact next counted

lemma retain (width : a.widthOf g = call.made a) (takes : call.Takes g)
    (idle : ¬ 0 < a.count g → ∀ e, call.Blamed a e)
    (means : call.NoWrap a → call.Typed a ∧ ∀ assign, a.eval assign g = (call.meaning a assign g).toNat) :
    call.Runs a (Formula.retain g) := by
  refine (retain_ends wf g).mono (fun r b h => ?_) fun e b h => ⟨h.1, h.2.1, idle h.2.2 e⟩
  obtain ⟨rfl, rfl, counted, built⟩ := h
  refine ⟨.took counted takes, fun noWrap => ⟨(means noWrap).1, ?_⟩⟩
  exact built.congr (width.trans (made_eq noWrap)) (means noWrap).2

lemma add (width : n.width = call.made a) (fits : 0 < n.width → a.Fits a.next n) (adds : call.Adds a n)
    (means : call.NoWrap a → call.Typed a ∧ ∀ assign,
      (n.bits (assign a.next) a.widthOf (a.eval assign)).toNat = (call.meaning a assign a.next).toNat) :
    call.Runs a (Formula.add n) := by
  unfold Formula.add
  refine need (fun positive => ?_) nofun fun thin => .thin (width ▸ thin)
  refine Ends.get_bind (Ends.modify_bind (Ends.pure ⟨.added (fits positive) adds fun _ => rfl, fun noWrap => ?_⟩))
  exact ⟨(means noWrap).1, (Arena.built_push wf (fits positive)).congr (width.trans (made_eq noWrap)) (means noWrap).2⟩

lemma const {v : Int} (width : w = call.made a) (folds : call.Folds a ∨ call.Absorbs ∧ w = 1)
    (means : call.NoWrap a → call.Typed a ∧ ∀ assign r, (BitVec.ofInt w v).toNat = (call.meaning a assign r).toNat) :
    call.Runs a (Formula.const w v) := by
  unfold Formula.const Formula.add
  refine need (fun positive => need (fun narrow => ?_) (by rintro _ ⟨⟩) fun wide => ?_) (by rintro _ ⟨⟩) fun thin => .thin (width ▸ thin)
  · have fits : a.Fits a.next ⟨w, .const (truncate w v)⟩ := ⟨positive, by simp [Term.args], truncate_lt w v⟩
    refine need (fun _ => ?_) (by rintro _ ⟨⟩) fun thin => absurd positive thin
    refine Ends.get_bind (Ends.modify_bind (Ends.pure ⟨.folded fits narrow (folds.imp_right And.left), fun noWrap => ?_⟩))
    refine ⟨(means noWrap).1, (Arena.built_push wf fits).congr (width.trans (made_eq noWrap)) fun assign => ?_⟩
    rw [← (means noWrap).2 assign, ← ofNat_truncate]
    rfl
  · rcases folds with folds | ⟨-, rfl⟩
    · exact .wide folds (width ▸ wide)
    · exact absurd (by decide) wide

end Runs

/-! ## One operand -/

section Calls

variable (wf : a.WellFormed)

include wf

lemma var_runs (w : Nat) (name : String) : (Builder.var w name).Runs a (Formula.var w name) := by
  unfold Formula.var Formula.add
  refine .need (fun positive => ?_) nofun fun thin => .thin thin
  apply Ends.get_bind
  refine Runs.need (fun _ => ?_) nofun fun closed => absurd wf.isOpen closed
  refine Ends.modify_bind (need_bind (fun _ => ?_) fun thin => absurd positive thin)
  have fits : ∀ name, a.Fits a.next ⟨w, .var name⟩ := fun name => ⟨positive, by simp [Term.args], trivial⟩
  refine Ends.get_bind (Ends.modify_bind (Ends.pure ⟨.added (fits _) ⟨_, rfl⟩ fun other => ?_, fun _ => ?_⟩))
  · exact absurd rfl (other w name)
  · exact ⟨trivial, Arena.built_push wf (fits _)⟩

lemma older_one (found : a.node? f = some n) : ∀ g : Nat, g ∈ [f] → 0 < g ∧ g < a.next := by
  intro g mem
  rw [List.mem_singleton.1 mem]
  exact Arena.realized_of_node? wf.isOpen found

lemma not_runs (f : Nat) : (Builder.not f).Runs a (Formula.not f) := by
  unfold Formula.not
  refine .held wf (List.mem_singleton_self f) fun term found _ => ?_
  dsimp only
  split
  · refine .const wf rfl (.inl ⟨_, _, found⟩) fun _ => ⟨trivial, fun assign r => ?_⟩
    show _ = (BitVec.not (a.word assign f)).toNat
    rw [word, eval_const wf found, BitVec.ofInt_natCast, BitVec.ofNat_xor, ofNat_mask, BitVec.xor_allOnes]
    rfl
  · rename_i g
    have typed : a.widthOf g = a.widthOf f := (wf.fits found).typed
    refine .retain wf typed trivial (fun idle e => .inner rfl found idle) fun _ => ⟨trivial, fun assign => ?_⟩
    have bound := typed ▸ a.eval_lt assign g
    have value : a.word assign f = (BitVec.ofNat (a.widthOf f) (a.eval assign g)).not := by
      apply BitVec.eq_of_toNat_eq
      rw [Arena.toNat_word, Arena.eval_eq wf.toWellTyped found]
      rfl
    show _ = (BitVec.not (a.word assign f)).toNat
    rw [value]
    simp [Nat.mod_eq_of_lt bound]
  · exact .add wf rfl (fun positive => ⟨positive, older_one wf found, rfl⟩) rfl fun _ => ⟨trivial, fun _ => rfl⟩

lemma neg_runs (f : Nat) : (Builder.neg f).Runs a (Formula.neg f) := by
  unfold Formula.neg
  refine .held wf (List.mem_singleton_self f) fun term found _ => ?_
  dsimp only
  split
  · refine .const wf rfl (.inl ⟨_, _, found⟩) fun _ => ⟨trivial, fun assign r => ?_⟩
    show _ = (BitVec.neg (a.word assign f)).toNat
    rw [word, eval_const wf found, BitVec.ofInt_neg, BitVec.ofInt_natCast]
    rfl
  · exact .add wf rfl (fun positive => ⟨positive, older_one wf found, rfl⟩) rfl fun _ => ⟨trivial, fun _ => rfl⟩

omit wf in
lemma not_isConst {term : Term} (found : a.node? f = some ⟨w, term⟩) (other : ∀ v, term ≠ .const v) : ¬ a.IsConst f := by
  rintro ⟨w, v, found'⟩
  cases found.symm.trans found'
  exact other v rfl

lemma ofInt_widen (withSign : Bool) (found : a.node? f = some ⟨a.widthOf f, .const v⟩) (n : Nat)
    (assign : Handle → Nat) :
    BitVec.ofInt n (bif withSign then signed (a.widthOf f) v else v) = widen withSign (a.word assign f) n := by
  have bound : v < 2 ^ a.widthOf f := (wf.fits found).typed
  rw [word, eval_const wf found]
  cases withSign
  · show BitVec.ofInt n v = (BitVec.ofNat _ v).setWidth n
    rw [BitVec.ofInt_natCast]
    apply BitVec.eq_of_toNat_eq
    simp [Nat.mod_eq_of_lt bound]
  · show BitVec.ofInt n (signed _ v) = _
    rw [signed_eq _ v bound]
    rfl

lemma ext_runs (withSign : Bool) (f k : Nat) : (ext withSign f k).Runs a (ext withSign f k).run := by
  have folded {v : Nat} (found : a.node? f = some ⟨a.widthOf f, .const v⟩) := ofInt_widen wf withSign found (a.widthOf f + k)
  have kept (assign : Handle → Nat) : a.eval assign f = (widen withSign (a.word assign f) (a.widthOf f + 0)).toNat := by
    cases withSign <;> simp [widen]
  cases withSign
  all_goals
    refine .held wf (List.mem_singleton_self f) fun term found counted => ?_
    dsimp only
    split
    · rename_i none
      subst none
      refine .retain wf rfl ⟨rfl, rfl⟩ (fun idle => absurd counted idle) fun _ => ⟨trivial, kept⟩
    · rename_i some
      split
      · refine .const wf (if_neg some).symm (.inl ⟨_, _, found⟩) fun noWrap => ⟨trivial, fun assign r => ?_⟩
        rw [show addWidth (a.widthOf f) k = a.widthOf f + k from Nat.mod_eq_of_lt noWrap]
        exact congrArg BitVec.toNat (folded found assign)
      · refine .add wf (if_neg some).symm (fun positive => ⟨positive, older_one wf found, trivial⟩)
          ⟨rfl, rfl, some, counted, not_isConst found ‹_›⟩ fun noWrap => ⟨trivial, fun assign => ?_⟩
        rw [show addWidth (a.widthOf f) k = a.widthOf f + k from Nat.mod_eq_of_lt noWrap]
        rfl

lemma extract_runs (f hi lo : Nat) : (Builder.extract f hi lo).Runs a (Formula.extract f hi lo) := by
  unfold Formula.extract
  refine .held wf (List.mem_singleton_self f) fun term found counted => ?_
  refine .need (fun inside => ?_) nofun fun outside => .untyped outside nofun
  dsimp only at inside ⊢
  split
  · rename_i full
    obtain ⟨rfl, full⟩ := full
    refine .retain wf full.symm rfl (fun idle => absurd counted idle) fun _ => ⟨inside, fun assign => ?_⟩
    have bound := full ▸ a.eval_lt assign f
    show _ = (BitVec.extractLsb hi 0 (a.word assign f)).toNat
    simp [Nat.mod_eq_of_lt bound]
  · split
    · refine .const wf rfl (.inl ⟨⟨_, _, found⟩, inside.2⟩) fun _ => ⟨inside, fun assign r => ?_⟩
      show _ = (BitVec.extractLsb hi lo (a.word assign f)).toNat
      rw [BitVec.extractLsb_toNat, Arena.toNat_word, eval_const wf found, BitVec.ofInt_natCast, BitVec.toNat_ofNat]
    · exact .add wf rfl (fun positive => ⟨positive, older_one wf found, inside.1, inside.2, rfl⟩) rfl
        fun _ => ⟨inside, fun _ => rfl⟩

/-! ## Choice -/

omit wf in
lemma ite_meaning (oneBit : a.widthOf f = 1) (sameWidth : a.widthOf g = a.widthOf k) (assign : Handle → Nat) :
    ((ite f g k).meaning a assign r).toNat = if a.eval assign f = 1 then a.eval assign g else a.eval assign k := by
  have chosen : a.word assign f = BitVec.ofNat _ 1 ↔ a.eval assign f = 1 := by
    rw [← BitVec.toNat_inj, Arena.toNat_word, BitVec.toNat_ofNat, oneBit]
  show (if a.word assign f = BitVec.ofNat _ 1 then a.word assign g
    else BitVec.setWidth (a.widthOf g) (a.word assign k)).toNat = _
  rw [apply_ite BitVec.toNat, if_congr chosen rfl rfl, Arena.toNat_word, BitVec.toNat_setWidth,
    Arena.toNat_word, Nat.mod_eq_of_lt (sameWidth ▸ a.eval_lt assign k)]

lemma Runs.isBool {call : Builder} {x : Bool → Build Handle} (v : Bool) (mem : f ∈ call.operands)
    (next : ∀ bit, (bit = true → ∀ assign, a.eval assign f = v.toNat) → call.Runs a (x bit)) :
    call.Runs a (isBool v f >>= x) := by
  have looks : Ends a (Formula.isBool v f)
      (fun bit b => a = b ∧ (bit = true → ∀ assign, a.eval assign f = v.toNat))
      (fun e b => a = b ∧ e.Other ∧ call.Blamed a e) := by
    unfold Formula.isBool
    refine Ends.bind ((held_ends wf f).blame fun _ _ h => ⟨h.1, h.2.1, .idle mem h.2.2⟩) ?_
    rintro n _ ⟨rfl, found, -⟩
    split
    · rename_i value
      refine Ends.pure ⟨rfl, fun same assign => ?_⟩
      have bound : value < 2 ^ 1 := (wf.fits found).typed
      rw [eval_const wf found]
      obtain rfl | rfl : value = 0 ∨ value = 1 := by omega
      all_goals
        cases v
        all_goals simp_all
    · exact Ends.pure ⟨rfl, fun absurd => by cases absurd⟩
  refine Ends.bind looks ?_
  rintro bit _ ⟨rfl, means⟩
  exact next bit means

lemma ite_runs (c t e : Nat) : (Builder.ite c t e).Runs a (Formula.ite c t e) := by
  unfold Formula.ite
  refine .width wf (by simp [operands]) fun condHeld => ?_
  refine .need (fun oneBit => ?_) nofun fun wide => .untyped (fun typed => wide typed.1) nofun
  refine .width wf (by simp [operands]) fun onTrue => .width wf (by simp [operands]) fun onFalse => ?_
  refine .need (fun sameWidth => ?_) nofun fun differ => .untyped (fun typed => differ typed.2) nofun
  refine .isBool wf true (by simp [operands]) fun isTrue holds => ?_
  split
  · rename_i chosen
    refine .retain wf rfl trivial (fun idle => absurd onTrue idle) fun _ => ⟨⟨oneBit, sameWidth⟩, fun assign => ?_⟩
    rw [ite_meaning oneBit sameWidth]
    rcases Bool.or_eq_true_iff.1 chosen with certain | same
    · rw [if_pos (show a.eval assign c = 1 from holds certain assign)]
    · rw [eq_of_beq same, ite_self]
  · refine .isBool wf false (by simp [operands]) fun isFalse fails => ?_
    split
    · rename_i certain
      refine .retain wf sameWidth.symm trivial (fun idle => absurd onFalse idle)
        fun _ => ⟨⟨oneBit, sameWidth⟩, fun assign => ?_⟩
      have zero : a.eval assign c = 0 := fails certain assign
      rw [ite_meaning oneBit sameWidth, if_neg (by omega)]
    · refine .add wf rfl (fun positive => ⟨positive, ?_, oneBit, rfl, sameWidth.symm⟩) rfl
        fun _ => ⟨⟨oneBit, sameWidth⟩, fun assign => ?_⟩
      · simp only [Term.args, List.mem_cons, List.not_mem_nil, or_false, forall_eq_or_imp, forall_eq]
        exact ⟨Arena.realized_of_count wf condHeld, Arena.realized_of_count wf onTrue, Arena.realized_of_count wf onFalse⟩
      · rw [ite_meaning oneBit sameWidth]
        simp only [Node.bits, BitVec.toNat_ofNat]
        refine Nat.mod_eq_of_lt ?_
        split
        · exact a.eval_lt assign t
        · exact sameWidth ▸ a.eval_lt assign e

/-! ## Two operands -/

omit wf in
/-- A single bit on the left decides a conjunction or disjunction, or drops out of it. -/
lemma smt_absorb_left {op : Arith} {bit : Bool} (absorbing : op.absorbing? = some bit)
    (oneBit : w = 1) (x y : BitVec w) :
    (op.smt x y).toNat = if (x.toNat != 0) == bit then bit.toNat else y.toNat := by
  subst oneBit
  cases op <;> simp only [Arith.absorbing?, Option.some.injEq, reduceCtorEq] at absorbing <;>
    subst absorbing <;> revert x y <;> decide

omit wf in
lemma smt_absorb_right {op : Arith} {bit : Bool} (absorbing : op.absorbing? = some bit)
    (oneBit : w = 1) (x y : BitVec w) :
    (op.smt x y).toNat = if (y.toNat != 0) == bit then bit.toNat else x.toNat := by
  subst oneBit
  cases op <;> simp only [Arith.absorbing?, Option.some.injEq, reduceCtorEq] at absorbing <;>
    subst absorbing <;> revert x y <;> decide

omit wf in
lemma absorbing_of_ite {op : Arith} {bit : Bool} (absorbing : (if w = 1 then op.absorbing? else none) = some bit) :
    w = 1 ∧ op.absorbing? = some bit := by
  split at absorbing
  · exact ⟨‹_›, absorbing⟩
  · cases absorbing

lemma absorb_runs {op : Arith} {bit : Bool} (counted : 0 < a.count r)
    (same : a.widthOf f = a.widthOf g) (oneBit : a.widthOf f = 1) (width : a.widthOf r = a.widthOf f)
    (absorbing : op.absorbing? = some bit)
    (decided : ∀ assign, (op.smt (a.word assign f) (BitVec.setWidth (a.widthOf f) (a.word assign g))).toNat =
      if (v != 0) == bit then bit.toNat else a.eval assign r) :
    (Builder.binary (.arith op) f g).Runs a (if (v != 0) == bit then ofBool bit else Formula.retain r) := by
  have absorbs : (Builder.binary (.arith op) f g).Absorbs := by
    show op.absorbing? ≠ none
    rw [absorbing]
    exact Option.some_ne_none bit
  split
  · rename_i chosen
    refine .const wf oneBit.symm (.inr ⟨absorbs, rfl⟩) fun _ => ⟨same, fun assign r => ?_⟩
    refine Eq.trans ?_ (decided assign).symm
    rw [if_pos chosen, toNat_ofInt_bit]
  · refine .retain wf width absorbs (fun idle => absurd counted idle) fun _ => ⟨same, fun assign => ?_⟩
    refine Eq.trans ?_ (decided assign).symm
    rw [if_neg ‹_›]

lemma binary_runs (op : Binary) (f g : Nat) : (Builder.binary op f g).Runs a (Formula.binary op f g) := by
  unfold Formula.binary
  refine .held wf (by simp [operands]) fun x left leftHeld => .held wf (by simp [operands]) fun y right rightHeld => ?_
  refine .need (fun sameWidth => ?_) nofun fun differ => .untyped differ fun _ _ _ same => ?_
  · dsimp only at sameWidth ⊢
    have older : ∀ h : Nat, h ∈ [f, g] → 0 < h ∧ h < a.next := by
      intro h mem
      rcases List.mem_cons.1 mem with rfl | mem
      · exact Arena.realized_of_node? wf.isOpen left
      · exact older_one wf right h mem
    have leftValue := a.toNat_word (f := f)
    have rightValue := Arena.toNat_setWidth_word sameWidth
    split
    · rename_i op x y
      refine .const wf rfl (.inl ⟨_, _, left⟩) fun _ => ⟨sameWidth, fun assign r => ?_⟩
      have folded := op.fold_eq (a.word assign f) (BitVec.setWidth (a.widthOf f) (a.word assign g))
      rw [leftValue, rightValue, eval_const wf left, eval_const wf right] at folded
      show _ = ((Binary.compare op).smt (a.word assign f) (BitVec.setWidth (a.widthOf f) (a.word assign g))).toNat
      rw [toNat_ofInt_bit, Binary.toNat_smt_compare, folded]
    · rename_i op x y
      refine .const wf rfl (.inl ⟨_, _, left⟩) fun _ => ⟨sameWidth, fun assign r => ?_⟩
      have folded := op.ofNat_fold (a.word assign f) (BitVec.setWidth (a.widthOf f) (a.word assign g))
      rw [leftValue, rightValue, eval_const wf left, eval_const wf right] at folded
      show _ = (op.smt (a.word assign f) (BitVec.setWidth (a.widthOf f) (a.word assign g))).toNat
      rw [BitVec.ofInt_natCast, folded]
    · rename_i op _
      refine .add wf rfl (fun positive => ⟨positive, older, rfl, sameWidth⟩) rfl fun _ => ⟨sameWidth, fun assign => ?_⟩
      show _ = ((Binary.compare op).smt (a.word assign f) (BitVec.setWidth (a.widthOf f) (a.word assign g))).toNat
      rw [Binary.toNat_smt_compare, Arena.setWidth_word sameWidth]
      simp only [Node.bits, word, BitVec.toNat_ofNat]
      exact Nat.mod_eq_of_lt (Bool.toNat_lt _)
    · rename_i op _
      split
      · rename_i bit v absorbing _
        obtain ⟨oneBit, absorbing⟩ := absorbing_of_ite absorbing
        refine absorb_runs wf rightHeld sameWidth oneBit sameWidth.symm absorbing fun assign => ?_
        rw [smt_absorb_left absorbing oneBit, leftValue, rightValue, eval_const wf left]
      · rename_i bit v _ absorbing _
        obtain ⟨oneBit, absorbing⟩ := absorbing_of_ite absorbing
        refine absorb_runs wf leftHeld sameWidth oneBit rfl absorbing fun assign => ?_
        rw [smt_absorb_right absorbing oneBit, leftValue, rightValue, eval_const wf right]
      · refine .add wf rfl (fun positive => ⟨positive, older, rfl, sameWidth.symm⟩) rfl fun _ => ⟨sameWidth, fun assign => ?_⟩
        show _ = (op.smt (a.word assign f) (BitVec.setWidth (a.widthOf f) (a.word assign g))).toNat
        rw [Arena.setWidth_word sameWidth]
        rfl
  · cases same
    rfl

lemma runs (call : Builder) : call.Runs a call.run := by
  cases call with
  | const w v => exact .const wf rfl (.inl trivial) fun _ => ⟨trivial, fun _ _ => rfl⟩
  | var w name => exact var_runs wf w name
  | not f => exact not_runs wf f
  | neg f => exact neg_runs wf f
  | zext f k => exact ext_runs wf false f k
  | sext f k => exact ext_runs wf true f k
  | extract f hi lo => exact extract_runs wf f hi lo
  | ite c t e => exact ite_runs wf c t e
  | binary op f g => exact binary_runs wf op f g

end Calls

end Builder

end Formula

end Faultline
