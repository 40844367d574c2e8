/-
# Proofs.Analysis.Evaluate — formulas of values are what their definitions evaluate to

`Evaluates` evaluates a value bottom-up by the definitions of the values it is made
of. What it does not take apart, such as parameters, loads, phis and addresses, are
atoms, which have numbers of their own. A formula of a typed value has the bits of
its type, and under every assignment it is the number that the value evaluates to
when every atom has the number of its own formula (`value_evaluates`).
-/
import Faultline.Proofs.Analysis.Alarm

namespace Faultline.Analysis

open IR (ValueId)
open Formula (Handle)

variable {s : Setting} {T : ValueId → Prop} {b c : Bench} {v : ValueId} {n w : Nat} {extra : Multiset Handle}
  {assign : Handle → Nat}

/-! ## Evaluation -/

/-- A value that is not taken apart: its definition says nothing about it, or makes it an address. -/
def IsAtom (s : Setting) (v : ValueId) : Prop :=
  IsFree s v ∨ match s.module.get? v with
    | some (.inst _ _ (.gep ..) _) => True
    | some (.const _ (.gep ..)) => True
    | _ => False

/-- The number that a value comes to where atoms have these numbers. -/
inductive Evaluates (s : Setting) (own : ValueId → Nat) : ValueId → Nat → Prop where
  | atom {v : ValueId} (atom : IsAtom s v) : Evaluates s own v (own v)
  | defined {v : ValueId} {n : Nat} {val : ValueId → Nat} (operands : ∀ x ∈ demands s v, Evaluates s own x (val x))
      (means : meaning? s val v = some n) : Evaluates s own v n

lemma Fit.known_of_needs {x : ValueId} (fit : Fit s T c extra) (known : Known v c) (needs : Needs s v x) : Known x c := by
  induction needs with
  | refl => exact known
  | tail _ demanded ih =>
    obtain ⟨h, known⟩ := ih
    exact fit.operands known _ demanded

lemma Evaluates.eq_reading (fit : Fit s T c extra) (evaluates : Evaluates s (c.reading assign) v n) (known : Known v c) :
    n = c.reading assign v := by
  induction evaluates with
  | atom => rfl
  | @defined v n val _ means ih =>
    obtain ⟨h, known⟩ := known
    have same : meaning? s val v = meaning? s (c.reading assign) v :=
      meaning?_congr fun x demanded => ih x demanded (fit.operands known x demanded)
    rw [Bench.reading_of_known known]
    exact (fit.value known assign n (same.symm.trans means)).symm

lemma Fit.evaluates (fit : Fit s T c extra) (grounded : Grounded s v) (known : Known v c) (assign : Handle → Nat) :
    Evaluates s (c.reading assign) v (c.reading assign v) := by
  induction grounded with
  | intro v _ ih =>
    obtain ⟨h, known⟩ := known
    rcases means : meaning? s (c.reading assign) v with _ | n
    · exact .atom (.inl ((meaning?_eq_none _ _).1 means))
    · rw [Bench.reading_of_known known, fit.value known assign n means]
      exact .defined (fun x demanded => ih x demanded (fit.operands known x demanded)) means

lemma value_fit (typing : Typing s T) (among : T v) (fit : Fit s T b extra) :
    Tries s T (Cause s v) b (value s v) fun r c => Fit s T c (r ::ₘ extra) ∧ c.formula? v = some r := by
  unfold value
  refine .bind (lookup_fit typing among b extra fit) fun h c _ ⟨fit, there⟩ => ?_
  refine Ends.imp (fit.retain (fit.owns there (typing.hasBits among))) fun r d h => ?_
  obtain ⟨step, rfl, yields⟩ := h
  exact ⟨step, yields.fit, step.grows.formula there⟩

/-- **Formulas of values.** The formula of a typed value has the bits of the value's type. Under every assignment it is
the number that the value evaluates to, and no other, where atoms have the numbers of their own formulas. No formulas of
different widths meet: a value is refused only if a constant that it needs cannot be stored or a name cannot be
written. -/
theorem value_evaluates (typing : Typing s T) (among : T v) (fit : Fit s T b extra) :
    Ends b (value s v)
      (fun r c => Fit s T c (r ::ₘ extra) ∧ HasBits s v (c.arena.widthOf r) ∧ (∀ x, Needs s v x → Known x c) ∧
        ∀ assign n, Evaluates s (c.reading assign) v n ↔ n = c.arena.eval assign r)
      (fun e _ => Cause s v e) := by
  refine (value_fit typing among fit).mono (fun r c h => ?_) fun _ _ h => h.2
  obtain ⟨-, fit, known⟩ := h
  refine ⟨fit, ?_, fun x needs => fit.known_of_needs ⟨r, known⟩ needs, fun assign n => ?_⟩
  · rw [fit.width known]
    exact typing.hasBits among
  · rw [← Bench.reading_of_known known]
    refine ⟨fun evaluates => evaluates.eq_reading fit ⟨r, known⟩, ?_⟩
    rintro rfl
    exact fit.evaluates (typing.grounded among) ⟨r, known⟩ assign

/-! ## Counting up to the greatest word -/

/-- One more than a word of `w` bits, but the word itself if that wraps. -/
def saturating (w : Nat) : Setting where
  module :=
    { defs := #[.const .bool (.int 1), .const .bool (.int 0), .const .token (.other [.text "none"]),
        .param (.named (Text.utf8 "x")) (.int w), .const (.int w) (.int 1),
        .inst (.named (Text.utf8 "m")) (.int w) (.arith .add {} 3 4) [],
        .inst (.named (Text.utf8 "k")) .bool (.icmp (.known .ult) 5 3) [],
        .inst (.named (Text.utf8 "r")) (.int w) (.select [] 6 3 5) []] }
  layout := {}
  graph := { func := { id := 0, name := [], result := .void, params := [] } }
  cut := {}

lemma saturating_typing (positive : 0 < w) (short : w < Formula.widthRange) :
    Typing (saturating w) (· ∈ [3, 4, 5, 6, 7]) := by
  have earlier : ∀ v ∈ [3, 4, 5, 6, 7], ∀ x ∈ demands (saturating w) v, x ∈ [3, 4, 5, 6, 7] ∧ x < v :=
    of_decide_eq_true rfl
  refine ⟨fun listed => ?_, fun listed x demanded => (earlier _ listed x demanded).1, fun {v} listed cycle => ?_⟩
  · obtain rfl | rfl | rfl | rfl | rfl : _ = 3 ∨ _ = 4 ∨ _ = 5 ∨ _ = 6 ∨ _ = 7 := by simpa using listed
    · exact ⟨w, _, rfl, rfl, positive, short, trivial⟩
    · exact ⟨w, _, rfl, rfl, positive, short, rfl⟩
    · exact ⟨w, _, rfl, rfl, positive, short, rfl, rfl⟩
    · exact ⟨1, _, rfl, rfl, by decide, by decide, ⟨_, rfl⟩, rfl, w, rfl, rfl⟩
    · exact ⟨w, _, rfl, rfl, positive, short, rfl, rfl, rfl⟩
  · have below {x : ValueId} (reaches : Relation.TransGen (fun v x => x ∈ demands (saturating w) v) v x) :
        x ∈ [3, 4, 5, 6, 7] ∧ x < v := by
      induction reaches with
      | single demanded => exact earlier v listed _ demanded
      | tail _ demanded ih =>
        obtain ⟨listed, less⟩ := earlier _ ih.1 _ demanded
        exact ⟨listed, less.trans ih.2⟩
    exact lt_irrefl v (below cycle).2

theorem value_evaluates_saturating : ∃ r c, outcome (value (saturating 8) 7) (saturating 8).start = (.ok r, c) ∧
    c.arena.widthOf r = 8 ∧ ∀ assign n, Evaluates (saturating 8) (c.reading assign) 7 n ↔ n = c.arena.eval assign r := by
  have typing := saturating_typing (w := 8) (by decide) (by decide)
  have width : bits (saturating 8) 7 = 8 := rfl
  have granted : (outcome (value (saturating 8) 7) (saturating 8).start).1.isOk = true := by
    decide +kernel
  generalize saturating 8 = s at *
  have ends := value_evaluates typing (by decide : 7 ∈ [3, 4, 5, 6, 7]) (follows_start s _).1
  rcases run : outcome (value s 7) s.start with ⟨e | r, c⟩
  · rw [run] at granted
    cases granted
  · obtain ⟨-, has, -, value⟩ := ends.ok run
    exact ⟨r, c, rfl, has.bits_eq.symm.trans width, value⟩

/-- A word of `2 ^ 51` bits is not counted up, since the number one cannot be stored. -/
theorem value_refused : Typing (saturating (twoPow 51)) (· ∈ [3, 4, 5, 6, 7]) ∧
    (outcome (value (saturating (twoPow 51)) 5) (saturating (twoPow 51)).start).1 = .error .constTooWide := by
  refine ⟨saturating_typing (by decide) (by decide), ?_⟩
  decide +kernel

end Faultline.Analysis
