/-
# Proofs.Analysis.Makers — what a call does to the references, and when it is refused

A `Maker` is a call that makes a formula: a builder, an operation named by its code,
or one of the six overflow predicates.

* `references_exact`: in every arena in use, a call that returns adds one reference to its
  result and none else, and a refused call leaves every count as it was.
* `made_iff_free`: a call on held operands that asks for nothing impossible is made unless it
  is stuck (`Maker.Stuck`): a constant that it needs cannot be stored, or a negation is to be
  negated whose operand was given back (`negation_refused`).
-/
import Faultline.Proofs.Analysis.Ranges

namespace Faultline.Analysis

open Formula (Arena Handle Builder Build widthLimit)
open Sentinel (Guarded)

variable {a : Arena} {safe : Prop} {owned : Multiset Handle} {f : Nat}

inductive Maker where
  | call (builder : Builder)
  | code (n : Int) (f g : Handle)
  | overflow (op : Guarded) (withSign : Bool) (f g : Handle)

def Maker.run : Maker → Build Handle
  | call builder => builder.run
  | code n f g => Formula.binaryOfCode n f g
  | overflow op withSign f g => Analysis.overflow op withSign f g

/-! ## References -/

lemma Maker.pays (maker : Maker) (order : a.InOrder False (fun _ => True) owned) :
    a.Pays False (fun _ => True) owned maker.run := by
  cases maker with
  | call builder => exact builder.finishes order (.of_unwrapped (fun _ => trivial) False.elim)
  | code n f g =>
    show a.Pays False (fun _ => True) owned (Formula.binaryOfCode n f g)
    unfold Formula.binaryOfCode
    cases (Formula.Op.ofCode? n).bind Formula.Op.binary? with
    | none => exact Ends.throw order
    | some op => exact (Builder.binary op f g).finishes order trivial
  | overflow op withSign f g =>
    cases op <;> cases withSign
    · exact Formula.uaddOverflow_pays order False.elim
    · exact Formula.saddOverflow_pays order False.elim
    · exact Formula.usubOverflow_pays order f g
    · exact Formula.ssubOverflow_pays order False.elim
    · exact Formula.umulOverflow_pays order False.elim
    · exact Formula.smulOverflow_pays order False.elim

lemma count_eq_zero (wf : a.WellFormed) (absent : ¬ a.Realized f) : a.count f = 0 :=
  Nat.eq_zero_of_not_pos fun counted => absent (Formula.Arena.realized_of_count wf counted)

/-- A constant gets too wide, or the operand of the negated negation is not held. -/
def Stuck (a : Arena) : Builder → Prop
  | .const w _ => widthLimit ≤ w
  | .zext f k | .sext f k => a.IsConst f ∧ widthLimit ≤ a.widthOf f + k
  | .not f => ∃ w g, a.node? f = some ⟨w, .not g⟩ ∧ a.count g = 0
  | _ => False

section Builders

variable (order : a.InOrder safe (fun _ => True) owned)

include order

lemma ext_refused {k : Nat} (withSign : Bool) (counted : 0 < a.count f) (fits : a.widthOf f + k < twoPow 64)
    (isConst : a.IsConst f) (wide : widthLimit ≤ a.widthOf f + k) :
    Ends a (Builder.ext withSign f k).run (fun _ _ => False) (fun _ _ => True) := by
  have has : a.Has owned f _ := .of_mem (order.mem counted) rfl
  have narrow := Formula.Builder.isConst_lt order.tame isConst
  refine (Formula.ext_hands order.supplied withSign has fits).mono (fun r b h => ?_) fun _ _ _ => trivial
  exact absurd (h.2 (by omega) isConst) (Nat.not_lt.2 wide)

lemma not_refused {g w : Nat} (found : a.node? f = some ⟨w, .not g⟩) (idle : a.count g = 0) :
    Ends a (Formula.not f) (fun _ _ => False) (fun _ _ => True) := by
  unfold Formula.not
  refine Ends.bind ((Formula.held_ends order.toWellFormed f).blame fun _ _ _ => trivial) ?_
  rintro n _ ⟨rfl, found', -⟩
  obtain rfl := Option.some.inj (found.symm.trans found')
  exact (Formula.retain_ends order.toWellFormed g).mono (fun _ _ h => absurd idle h.2.2.1.ne') fun _ _ _ => trivial

lemma builder_answers (call : Builder) (ready : call.Ready (fun _ => True) a) :
    Ends a call.run (fun r b => 0 < b.count r ∧ ¬ Stuck a call) (fun _ _ => Stuck a call) := by
  by_cases stuck : Stuck a call
  · have refused : Ends a call.run (fun _ _ => False) (fun _ _ => True) := by
      cases call with
      | const w v =>
        refine (Formula.const_hands order.supplied v ready).mono (fun _ _ h => ?_) fun _ _ _ => trivial
        exact absurd h.2 (Nat.not_lt.2 stuck)
      | not f =>
        obtain ⟨w, g, found, idle⟩ := stuck
        exact not_refused order found idle
      | zext f k => exact ext_refused order false ready.1 ready.2 stuck.1 stuck.2
      | sext f k => exact ext_refused order true ready.1 ready.2 stuck.1 stuck.2
      | _ => exact stuck.elim
    exact refused.mono (fun _ _ h => h.elim) fun _ _ _ => stuck
  · refine (call.hands order.supplied ready fun same found => ?_).mono (fun r b h => ⟨?_, stuck⟩) fun _ _ h => ?_
    · subst same
      exact Nat.pos_of_ne_zero fun idle => stuck ⟨_, _, found, idle⟩
    · exact h.1.supplied.backed.pos (Multiset.mem_cons_self r owned)
    · obtain ⟨-, -, folds, wide⟩ := h
      have long := folds.long order.tame wide
      cases call with
      | const w v => exact long
      | zext f k | sext f k => exact ⟨folds, long⟩
      | _ => exact long.elim

end Builders

namespace Maker

/-- The operands are held, have the widths and ranges that are asked for, and no width wraps around. -/
def Ready (a : Arena) : Maker → Prop
  | call builder => builder.Ready (fun _ => True) a
  | code n f g => ((Formula.Op.ofCode? n).bind Formula.Op.binary?).isSome ∧ a.Pair f g
  | overflow op withSign f g => a.Pair f g ∧ wider op withSign (a.widthOf f) < twoPow 64

def Stuck (a : Arena) : Maker → Prop
  | call builder => Analysis.Stuck a builder
  | code _ _ _ => False
  | overflow op withSign f g => Exceeds a op withSign f g

lemma answers (maker : Maker) (order : a.InOrder safe (fun _ => True) owned) (ready : maker.Ready a) :
    Ends a maker.run (fun r b => 0 < b.count r ∧ ¬ maker.Stuck a) (fun _ _ => maker.Stuck a) := by
  cases maker with
  | call builder => exact builder_answers order builder ready
  | code n f g =>
    obtain ⟨named, left, right, same⟩ := ready
    obtain ⟨op, named⟩ := Option.isSome_iff_exists.1 named
    show Ends a (Formula.binaryOfCode n f g) _ _
    unfold Formula.binaryOfCode
    rw [named]
    exact builder_answers order (.binary op f g) ⟨⟨left, right⟩, same⟩
  | overflow op withSign f g =>
    obtain ⟨⟨left, right, same⟩, fits⟩ := ready
    have hasLeft : a.Has owned f _ := .of_mem (order.mem left) rfl
    have hasRight : a.Has owned g _ := .of_mem (order.mem right) same.symm
    refine Ends.mono (overflow_answers op withSign order.supplied hasLeft hasRight fits) (fun r b h => ⟨?_, h.2⟩)
      fun _ _ h => h.2.2
    exact h.1.supplied.backed.pos (Multiset.mem_cons_self r owned)

end Maker

def negated : Arena :=
  Formula.Arena.withX.after (.call (.not 1))

lemma reachable_negated : negated.Reachable :=
  Formula.Arena.reachable_withX.step _

end Faultline.Analysis
