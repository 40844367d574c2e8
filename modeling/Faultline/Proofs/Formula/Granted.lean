/-
# Proofs.Formula.Granted — calls that are not refused

A call is granted when its operands are held, have the widths it asks for, and no
constant gets too wide. Of the nodes in the arena this needs little (`Tame`): a
constant was narrow enough to be built, and what is negated is among some formulas
`P` that stay held, because the negation of a negation gives its operand back. While
it is `safe` to say so, extensions widen.
-/
import Faultline.Proofs.Formula.Requests

namespace Faultline.Formula

open Arena (Built)
open Multiset Arena

variable {a b : Arena} {f g r w : Nat} {n : Node} {e : Fault} {safe : Prop} {P : Handle → Prop}

/-! ## Tame arenas -/

/-- What is asked of a node. -/
def Node.Modest (n : Node) (safe : Prop) (width : Handle → Nat) (P : Handle → Prop) : Prop :=
  match n.term with
  | .const _ => n.width < widthLimit
  | .zext x | .sext x => safe → width x < n.width
  | .not x => P x
  | _ => True

namespace Arena

structure Tame (safe : Prop) (a : Arena) (P : Handle → Prop) : Prop where
  modest : ∀ {f : Nat} {n}, a.node? f = some n → n.Modest safe a.widthOf P

lemma Tame.widening (tame : a.Tame True P) : a.Widening := by
  intro f x n found extension
  have modest := tame.modest found
  unfold Node.Modest at modest
  rcases extension with shape | shape
  all_goals
    rw [shape] at modest
    exact (modest trivial).le

lemma Tame.const_lt {v : Nat} (tame : a.Tame safe P) (found : a.node? f = some ⟨w, .const v⟩) : w < widthLimit :=
  tame.modest found

lemma tame_empty : ({} : Arena).Tame safe P :=
  ⟨fun found => by simp [node?] at found⟩

lemma Tame.mono {P' : Handle → Prop} (tame : a.Tame safe P) (weaker : ∀ f, P f → P' f) : a.Tame safe P' := by
  refine ⟨fun {f n} found => ?_⟩
  have modest := tame.modest found
  unfold Node.Modest at modest ⊢
  split at modest
  case h_4 => exact weaker _ modest
  all_goals exact modest

lemma Tame.hold (tame : a.Tame safe P) (f : Nat) : (a.hold f).Tame safe P :=
  ⟨fun found => tame.modest found⟩

lemma Tame.drop (tame : a.Tame safe P) (f : Nat) : (a.drop f).Tame safe P :=
  ⟨fun found => tame.modest found⟩

lemma Tame.push (tame : a.Tame safe P) (wf : a.WellFormed) (names : Std.HashSet String) (fits : a.Fits a.next n)
    (modest : n.Modest safe a.widthOf P) : (a.push n names).Tame safe P := by
  have kept {m : Node} (older : ∀ g : Nat, g ∈ m.term.args → 0 < g ∧ g < a.next)
      (modest : m.Modest safe a.widthOf P) : m.Modest safe (a.push n names).widthOf P := by
    unfold Node.Modest at modest ⊢
    split at modest
    case h_2 x shape | h_3 x shape =>
      rw [widthOf_push wf (older x (by simp [shape, Term.args]))]
      exact modest
    all_goals exact modest
  refine ⟨fun {f m} found => ?_⟩
  rcases of_node?_push wf found with ⟨-, rfl⟩ | before
  · exact kept fits.older modest
  · have below := (realized_of_node? wf.isOpen before).2
    exact kept (fun g mem => ⟨((wf.fits before).older g mem).1, ((wf.fits before).older g mem).2.trans below⟩)
      (tame.modest before)

end Arena

/-! ## Looking at formulas -/

section Held

variable (wf : a.WellFormed) (counted : 0 < a.count f)

include wf counted

lemma held_granted : Ends a (held f) (fun n b => a = b ∧ a.node? f = some n) (fun _ _ => False) :=
  (held_ends wf f).mono (fun _ _ h => ⟨h.1, h.2.1⟩) fun _ _ h => h.2.2 counted

lemma width_granted : Ends a (width f) (fun w b => a = b ∧ a.widthOf f = w) (fun _ _ => False) :=
  (width_ends wf f).mono (fun _ _ h => ⟨h.1, h.2.1⟩) fun _ _ h => h.2.2 counted

end Held

/-! ## Calls -/

namespace Builder

variable {call : Builder}

/-- What is negated is among `P`, and an extension does not wrap around. -/
def Allowed (safe : Prop) (P : Handle → Prop) (a : Arena) : Builder → Prop
  | not f => P f
  | zext f k | sext f k => safe → 0 < a.count f → a.widthOf f + k < twoPow 64
  | _ => True

lemma Adds.modest (adds : call.Adds a n) (allowed : call.Allowed safe P a) : n.Modest safe a.widthOf P := by
  obtain ⟨w, term⟩ := n
  unfold Node.Modest
  cases call with
  | const => exact adds.elim
  | var =>
    obtain ⟨name, rfl⟩ := adds
    trivial
  | not f =>
    cases adds
    exact allowed
  | zext f k | sext f k =>
    obtain ⟨rfl, rfl, some, counted, -⟩ := adds
    intro sure
    have whole : addWidth (a.widthOf f) k = a.widthOf f + k := Nat.mod_eq_of_lt (allowed sure counted)
    show a.widthOf f < addWidth (a.widthOf f) k
    omega
  | binary op f g =>
    cases op
    all_goals
      cases adds
      trivial
  | _ =>
    cases adds
    trivial

lemma Change.tame (change : call.Change a r b) (wf : a.WellFormed) (tame : a.Tame safe P)
    (allowed : call.Allowed safe P a) : b.Tame safe P := by
  cases change with
  | took => exact tame.hold r
  | folded fits narrow => exact tame.push wf _ fits narrow
  | added fits adds => exact tame.push wf _ fits (adds.modest allowed)

/-- What a call asks of its operands. -/
def Ready (P : Handle → Prop) (a : Arena) : Builder → Prop
  | const w _ | var w _ => 0 < w
  | not f => 0 < a.count f ∧ P f
  | neg f => 0 < a.count f
  | zext f k | sext f k => 0 < a.count f ∧ a.widthOf f + k < twoPow 64
  | extract f hi lo => 0 < a.count f ∧ lo ≤ hi ∧ hi < a.widthOf f
  | ite c t e =>
    (0 < a.count c ∧ 0 < a.count t ∧ 0 < a.count e) ∧ a.widthOf c = 1 ∧ a.widthOf t = a.widthOf e
  | binary _ f g => (0 < a.count f ∧ 0 < a.count g) ∧ a.widthOf f = a.widthOf g

/-- The result has more bits than a constant can have. -/
def Long (a : Arena) : Builder → Prop
  | const w _ => widthLimit ≤ w
  | zext f k | sext f k => widthLimit ≤ a.widthOf f + k
  | _ => False

lemma Ready.noWrap (ready : call.Ready P a) : call.NoWrap a := by
  cases call with
  | zext f k | sext f k => exact ready.2
  | _ => trivial

lemma Ready.allowed (ready : call.Ready P a) : call.Allowed safe P a := by
  cases call with
  | not f => exact ready.2
  | zext f k | sext f k => exact fun _ _ => ready.2
  | _ => trivial

lemma Ready.held (ready : call.Ready P a) : ∀ f ∈ call.operands, 0 < a.count f := by
  cases call with
  | const | var => nofun
  | neg f => exact List.forall_mem_singleton.2 ready
  | not f | zext f k | sext f k | extract f hi lo => exact List.forall_mem_singleton.2 ready.1
  | ite c t e => simpa [operands] using ready.1
  | binary op f g => simpa [operands] using ready.1

lemma Ready.typed (ready : call.Ready P a) : call.Typed a := by
  cases call with
  | extract | ite | binary => exact ready.2
  | _ => trivial

lemma Ready.made_pos (wf : a.WellFormed) (ready : call.Ready P a) : 0 < call.made a := by
  rw [made_eq ready.noWrap]
  cases call with
  | const | var => exact ready
  | neg f => exact widthOf_pos wf ready
  | not f => exact widthOf_pos wf ready.1
  | zext f k | sext f k => exact Nat.add_pos_left (widthOf_pos wf ready.1) k
  | extract f hi lo => exact Nat.succ_pos _
  | ite c t e => exact widthOf_pos wf ready.1.2.1
  | binary op f g =>
    cases op
    · exact widthOf_pos wf ready.1.1
    · exact Nat.one_pos

/-- A call whose operands are ready is refused only where it has to fold a constant that gets too wide. -/
lemma Ready.blamed (wf : a.WellFormed) (ready : call.Ready P a)
    (inner : ∀ {f g w}, call = not f → a.node? f = some ⟨w, .not g⟩ → 0 < a.count g) (blamed : call.Blamed a e) :
    e = .constTooWide ∧ call.Folds a ∧ ¬ call.width a < widthLimit := by
  cases blamed with
  | idle mem idle => exact absurd (ready.held _ mem) idle
  | untyped untyped => exact absurd ready.typed untyped
  | thin thin => exact absurd (ready.made_pos wf) thin
  | wide folds wide => exact ⟨rfl, folds, made_eq ready.noWrap ▸ wide⟩
  | inner negates found idle => exact absurd (inner negates found) idle

lemma ofBool_granted (wf : a.WellFormed) (v : Bool) : Ends a (ofBool v) (fun _ _ => True) (fun _ _ => False) := by
  refine ((const 1 (if v then 1 else 0)).runs wf).mono (fun _ _ _ => trivial) fun e b h => ?_
  have ready : (const 1 (if v then 1 else 0)).Ready (fun _ => True) a := Nat.one_pos
  exact (ready.blamed wf nofun h.2.2).2.2 (show 1 < widthLimit by decide)

lemma isConst_lt (tame : a.Tame safe P) (isConst : a.IsConst f) : a.widthOf f < widthLimit := by
  obtain ⟨w, v, found⟩ := isConst
  exact widthOf_eq found ▸ tame.const_lt found

/-- Constants are narrow, so what is computed from them gets too wide only where bits are added. -/
lemma Folds.long (tame : a.Tame safe P) (folds : call.Folds a) (wide : ¬ call.width a < widthLimit) :
    call.Long a := by
  cases call with
  | const | zext | sext => exact Nat.le_of_not_lt wide
  | var | ite => exact folds.elim
  | not f | neg f => exact absurd (isConst_lt tame folds) wide
  | extract f hi lo =>
    have narrow := isConst_lt tame folds.1
    have inside : hi < a.widthOf f := folds.2
    change ¬ hi - lo + 1 < widthLimit at wide
    omega
  | binary op f g =>
    cases op
    · exact absurd (isConst_lt tame folds) wide
    · exact absurd (show 1 < widthLimit by decide) wide

section Granted

variable (wf : a.WellFormed) (tame : a.Tame safe P)

include wf tame

/-- A call whose operands are ready returns what it stands for, unless it has to store a constant that is too wide. -/
lemma granted (call : Builder) (backed : ∀ g : Nat, P g → 0 < a.count g) (ready : call.Ready P a) :
    Ends a call.run (fun r b => b.Tame safe P ∧ call.Returns a r b)
      (fun e b => e = .constTooWide ∧ a = b ∧ call.Long a) := by
  refine (call.runs wf).mono (fun r b h => ?_) fun e b h => ?_
  · exact ⟨h.1.tame wf tame ready.allowed, ready.typed, h.1.fresh, (h.2 ready.noWrap).2⟩
  · obtain ⟨rfl, -, blamed⟩ := h
    obtain ⟨same, folds, wide⟩ := ready.blamed wf (fun _ found => backed _ (tame.modest found)) blamed
    exact ⟨same, rfl, folds.long tame wide⟩

lemma binary_blamed (op : Binary) (counted : 0 < a.count f ∧ 0 < a.count g) :
    Ends a (Formula.binary op f g) (fun _ _ => True)
      (fun e _ => e = .binaryWidths op (a.widthOf f) (a.widthOf g) ∧ a.widthOf f ≠ a.widthOf g) := by
  refine ((binary op f g).runs wf).mono (fun _ _ _ => trivial) fun e b h => ?_
  cases h.2.2 with
  | idle mem idle =>
    rcases List.mem_pair.1 mem with rfl | rfl
    · exact absurd counted.1 idle
    · exact absurd counted.2 idle
  | untyped untyped named => exact ⟨named op f g rfl, untyped⟩
  | thin thin =>
    cases op
    · exact absurd (widthOf_pos wf counted.1) thin
    · exact absurd Nat.one_pos thin
  | wide folds wide => exact (folds.long tame wide).elim
  | inner negates => cases negates

end Granted

end Builder

/-! ## Giving back -/

namespace Arena

lemma count_drop (wf : a.WellFormed) (counted : 0 < a.count f) (g : Nat) :
    (a.drop f).count g = a.count g - if g = f then 1 else 0 := by
  have realized := (realized_iff wf.isOpen).1 (realized_of_count wf counted)
  rw [count_eq (a := a.drop f) wf.isOpen, count_eq wf.isOpen]
  simp only [drop, setCount, first, wf.isOpen, Bool.false_eq_true, if_false]
  have inside : f - 1 < a.refs.size := by rw [wf.sizes]; omega
  by_cases low : g < 1
  · rw [if_pos low, if_pos low, Nat.zero_sub]
  · rw [if_neg low, if_neg low]
    by_cases same : g = f
    · subst same
      rw [if_pos rfl, Array.getD_eq_getD_getElem?, Array.getElem?_setIfInBounds_self_of_lt inside,
        count_eq wf.isOpen, if_neg low]
      rfl
    · rw [if_neg same, Array.getD_eq_getD_getElem?, Array.getElem?_setIfInBounds_ne (by omega),
        Array.getD_eq_getD_getElem?]
      rfl

def Backed (a : Arena) (owned : Multiset Handle) : Prop :=
  ∀ f : Nat, owned.count f ≤ a.count f

variable {owned : Multiset Handle}

lemma Backed.pos (backed : a.Backed owned) (mem : f ∈ owned) : 0 < a.count f :=
  Nat.lt_of_lt_of_le (count_pos.2 mem) (backed f)

lemma Backed.of_built {w : Nat} {v : (Handle → Nat) → Nat} (backed : a.Backed owned)
    (built : Built a r b w v) : b.Backed (r ::ₘ owned) := by
  intro f
  rw [count_cons, built.count]
  exact Nat.add_le_add_right (backed f) _

lemma Backed.drop (wf : a.WellFormed) (backed : a.Backed (f ::ₘ owned)) : (a.drop f).Backed owned := by
  intro g
  rw [count_drop wf (backed.pos (mem_cons_self f owned))]
  have held := backed g
  rw [count_cons] at held
  exact Nat.le_sub_of_add_le held

end Arena

lemma releaseOne_granted {owned : Multiset Handle} (wf : a.WellFormed) (backed : a.Backed (f ::ₘ owned)) :
    Ends a (releaseOne f) (fun _ b => b = a.drop f) (fun _ _ => False) := by
  have counted := backed.pos (mem_cons_self f owned)
  unfold releaseOne
  refine Ends.get_bind (need_bind (fun _ => need_bind (fun _ => ?_) fun uncounted => uncounted counted)
    fun absent => absent (realized_of_count wf counted))
  exact rfl

lemma release_granted {owned : Multiset Handle} (fs : List Handle) (wf : a.WellFormed) (tame : a.Tame safe P)
    (backed : a.Backed (↑fs + owned)) :
    Ends a (release fs) (fun _ b => a.Keeps b ∧ b.Tame safe P ∧ b.Backed owned) (fun _ _ => False) := by
  induction fs generalizing a with
  | nil => exact Ends.pure ⟨.refl wf, tame, by simpa using backed⟩
  | cons f fs ih =>
    rw [← cons_coe, cons_add] at backed
    refine Ends.bind (releaseOne_granted wf backed) fun _ b same => ?_
    subst same
    refine (ih (wf.drop f) (tame.drop f) (backed.drop wf)).imp fun _ c h => ⟨?_, h.2⟩
    exact Arena.Keeps.trans ⟨grows_drop a f, wf.drop f⟩ h.1

end Faultline.Formula
