/-
# Proofs.Analysis.Alarm — the condition of a well-made sentinel call

`Alarm s call P` says that a call is well made and carries the condition `P` of the
values of the program: that a sum, difference or product leaves its range, or that a
truth value holds. The condition of such a call is never refused and tells exactly
that (`conditionOf_fine`).

Where in addition the blocks are typed, the whole question about such a call is
granted (`question_fine`), in formulas that tell whether the call is wrong and whether
it is reached.
-/
import Faultline.Check.Function
import Faultline.Proofs.Analysis.Follow
import Faultline.Proofs.Analysis.Ranges

namespace Faultline.Analysis

open IR (ValueId)
open Formula (Arena Handle widthLimit)
open Sentinel (Guarded)

/-! ## Conditions -/

variable {s : Setting} {b c d : Bench} {call v x y cond code flag : ValueId} {r : Handle} {extra : Multiset Handle}
  {P : (ValueId → Nat) → Prop}

/-- The value is a call of a sentinel of the kind, with these arguments. -/
def CallsWith (s : Setting) (call : ValueId) (kind : Sentinel.Kind) (args : List ValueId) : Prop :=
  ∃ name t c trail, s.module.get? call = some (.inst name t (.call c) trail) ∧
    Sentinel.kindOf? (Sentinel.calleeName s.module c.callee) = some kind ∧ c.args = args

/-- A well-made call, and the condition it carries. -/
inductive Alarm (s : Setting) (call : ValueId) : ((ValueId → Nat) → Prop) → Prop where
  | overflow {code x y flag : ValueId} {number sign : Int} {op : Guarded}
      (calls : CallsWith s call .overflow [code, x, y, flag])
      (numbered : constIndex s.module code = .ok (some number)) (known : Guarded.ofCode? (word number) = some op)
      (signed : constIndex s.module flag = .ok (some sign))
      (left : Proper s x) (right : Proper s y) (same : HasBits s y (bits s x)) :
      Alarm s call fun val => Leaves op (sign != 0) (wordOf s val x) (BitVec.ofNat (bits s x) (val y))
  | fault {cond : ValueId} (calls : CallsWith s call .fault [cond]) (proper : Proper s cond) (bit : HasBits s cond 1) :
      Alarm s call fun val => val cond = 1

lemma Proper.narrow (proper : Proper s v) : bits s v + bits s v < widthLimit := by
  obtain ⟨w, d, sane, -⟩ := proper.sane
  rw [sane.bits.bits_eq]
  exact sane.narrow

lemma Yields.tells {T : ValueId → Prop} {value : (ValueId → Nat) → BitVec 1} (yields : Yields s T extra value r c)
    (means : ∀ val, (value val).toNat = 1 ↔ P val) : c.Tells r P := by
  refine ⟨yields.means.node, yields.means.width, fun assign val agrees => ?_⟩
  rw [yields.means.value assign val agrees]
  exact means val

lemma conditionOf_fine (alarm : Alarm s call P) (fine : Fine s b extra) :
    Ends b (conditionOf s call) (fun r c => Bit s b extra r c ∧ c.Tells r P) (fun _ _ => False) := by
  have fit := fit_proper.2 fine
  have looks {v : ValueId} (proper : Proper s v) : LooksUp s (Proper s) (fun _ => False) (lookup s) v :=
    fun b extra fit => (lookup_fit (proper_typing s) proper b extra fit).blame
      fun _ _ h => ⟨h.1, proper.not_cause h.2⟩
  have tries : Tries s (Proper s) (fun _ => False) b (conditionOf s call) fun r c =>
      Fit s (Proper s) c (r ::ₘ extra) ∧ c.Tells r P := by
    cases alarm with
    | @overflow code x y flag number sign op calls numbered known signed left right same =>
      obtain ⟨name, t, called, trail, found, kind, args⟩ := calls
      unfold conditionOf condition
      rw [found]
      dsimp only
      rw [kind, args]
      refine .read fit (lift_read numbered) ?_
      rintro _ rfl
      refine .read fit (lift_read signed) ?_
      rintro _ rfl
      refine .bind (looks left b extra fit) fun f c _ ⟨fit, there⟩ => ?_
      refine .bind (looks right c extra fit) fun g d step ⟨fit, there'⟩ => ?_
      -- the engine keeps both formulas, and both have the width of the first operand
      have first := fit.owns (step.grows.formula there) left.hasBits
      have second := fit.owns there' same
      rw [known]
      have made : Tries s (Proper s) (fun _ => False) d (build (overflow op (sign != 0) f g)) (Yields s (Proper s) extra
          fun val => BitVec.ofBool (decide (Leaves op (sign != 0) (wordOf s val x) (BitVec.ofNat (bits s x) (val y))))) := by
        refine fit.build (overflow_gives op (sign != 0) fit.stocked left.narrow first.has second.has).granted
          fun assign val agrees => ?_
        rw [first.means.word agrees, second.means.word agrees]
        rfl
      exact made.imp fun r e yields => ⟨yields.fit, yields.tells fun val => by simp⟩
    | @fault cond calls proper bit =>
      obtain ⟨name, t, called, trail, found, kind, args⟩ := calls
      unfold conditionOf condition
      rw [found]
      dsimp only
      rw [kind, args]
      refine .bind (looks proper b extra fit) fun f c _ ⟨fit, there⟩ => ?_
      refine Ends.imp (fit.retain (fit.owns there bit)) fun r d h => ?_
      obtain ⟨step, rfl, yields⟩ := h
      refine ⟨step, yields.fit, yields.means.node, yields.means.width, fun assign val agrees => ?_⟩
      rw [agrees cond r (step.grows.formula there)]
  exact tries.mono (fun r c h => ⟨⟨h.1, fit_proper.1 h.2.1, h.2.2.width⟩, h.2.2⟩) fun _ _ h => h.2

/-! ## Questions -/

lemma follows_start (s : Setting) (T : ValueId → Prop) : Follows s T s.start 0 := by
  refine ⟨⟨(ordered_start s).toSound, ⟨⟨Arena.wellFormed_empty, Arena.tame_empty, ?_⟩, nofun⟩, nofun, nofun, nofun, nofun, nofun,
    nofun⟩, ordered_start s⟩
  rw [owned_start]
  intro f
  simp

lemma fine_start (s : Setting) : Fine s s.start 0 :=
  fit_proper.1 (follows_start s (Proper s)).1

/-- A granted question: the formulas, and the benches after the condition, the path and the conjunction. -/
structure Asked (s : Setting) (block call : ValueId) (i : Nat) (P : (ValueId → Nat) → Prop) (bug reach both : Handle)
    (b c d : Bench) : Prop where
  condition : outcome (conditionOf s call) s.start = (.ok bug, b)
  path : outcome (path s block) b = (.ok reach, c)
  question : outcome (Check.question s block call) s.start = (.ok (bug, reach, both), d)
  fine : Fine s c (reach ::ₘ bug ::ₘ 0)
  wrong : c.Tells bug P
  reached : c.Tells reach fun val => Reaches s val i
  joint : Fine s d (both ::ₘ reach ::ₘ bug ::ₘ 0)
  width : d.arena.widthOf both = 1

lemma question_fine {fn : IR.Func} {block : ValueId} {i : Nat} (graph : Flow.Graph.ofFunc s.module fn = .ok s.graph)
    (cut : s.cut = s.graph.backEdges) (typed : ∀ i < s.graph.size, BlockTyped s i)
    (found : s.graph.indexOf s.module block = .ok i)
    (granted : Ends s.start (conditionOf s call) (fun r c => Bit s s.start 0 r c ∧ c.Tells r P) (fun _ _ => False)) :
    ∃ bug reach both b c d, Asked s block call i P bug reach both b c d := by
  obtain ⟨bug, b, condition, bit, wrong⟩ := granted.exists_ok
  have ordered := (ordered_start s).of_step bit.step
  obtain ⟨reach, c, path, grows, fine, reached⟩ := (path_fine graph cut typed found bit.fine ordered).exists_ok
  have wrong := wrong.of_grows bit.fine.toKept grows
  have fit := fit_proper.2 fine
  obtain ⟨both, d, joined, -, joint, width⟩ := (fit.gains (Formula.arith_gives fit.stocked .and
    (.of_mem (by simp) wrong.width) (.of_mem (by simp) reached.width))).exists_ok
  refine ⟨bug, reach, both, b, c, d, condition, path, ?_, fine, wrong, reached, fit_proper.1 joint, width⟩
  exact bind_ok.2 ⟨bug, b, condition, bind_ok.2 ⟨reach, c, path, bind_ok.2 ⟨both, d, joined, rfl⟩⟩⟩

end Faultline.Analysis
