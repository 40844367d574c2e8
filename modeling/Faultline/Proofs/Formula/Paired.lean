/-
# Proofs.Formula.Paired — requests in two arenas at once

`InStep S l P x x'` says that `x` and `x'` can be followed side by side from any two
states that `S` relates, for the links `l` or for more of them: links only ever get
added on the way, and the results satisfy `P` under the links there are then.

Calls of builders on operands that are pairs return pairs (`call_inStep`), and so do
the overflow predicates, which give everything else back.
-/
import Faultline.Proofs.Formula.Tied

namespace Faultline

open Formula (Links Arena Build Handle Orderly Builder Makes)

variable {ε ε' σ σ' α α' β β' : Type} {w : Nat} {call' : Builder} {fs fs' : List Handle} {a : Arena}

/-! ## Steps -/

def InStep (S : Links → σ → σ' → Prop) (l : Links) (P : Links → α → α' → Prop) (x : ExceptT ε (StateM σ) α)
    (x' : ExceptT ε' (StateM σ') α') : Prop :=
  ∀ k s s', l.Within k → S k s s' → Abreast s s' x x' fun r t r' t' => ∃ j, k.Within j ∧ S j t t' ∧ P j r r'

namespace InStep

variable {S : Links → σ → σ' → Prop} {l k : Links} {P P' : Links → α → α' → Prop} {Q : Links → β → β' → Prop}
  {x : ExceptT ε (StateM σ) α} {x' : ExceptT ε' (StateM σ') α'} {c : α → ExceptT ε (StateM σ) β}
  {c' : α' → ExceptT ε' (StateM σ') β'}

lemma later (both : InStep S l P x x') (within : l.Within k) : InStep S k P x x' :=
  fun j s s' more => both j s s' (within.trans more)

lemma imp (both : InStep S l P x x') (weaker : ∀ k, l.Within k → ∀ r r', P k r r' → P' k r r') :
    InStep S l P' x x' := by
  intro k s s' within related
  refine (both k s s' within related).mono fun r t r' t' h => ?_
  obtain ⟨j, more, related, holds⟩ := h
  exact ⟨j, more, related, weaker j (within.trans more) r r' holds⟩

lemma bind (first : InStep S l P x x')
    (next : ∀ k, l.Within k → ∀ r r', P k r r' → InStep S k Q (c r) (c' r')) : InStep S l Q (x >>= c) (x' >>= c') := by
  intro k s s' within related
  refine Abreast.bind (first k s s' within related) fun r t r' t' h => ?_
  obtain ⟨j, more, related, holds⟩ := h
  refine (next j (within.trans more) r r' holds j t t' (.refl j) related).mono fun r t r' t' h => ?_
  obtain ⟨i, further, related, holds⟩ := h
  exact ⟨i, more.trans further, related, holds⟩

lemma pure {r : α} {r' : α'} (holds : ∀ k, l.Within k → P k r r') :
    InStep S l P (Pure.pure r : ExceptT ε (StateM σ) α) (Pure.pure r' : ExceptT ε' (StateM σ') α') :=
  fun k _ _ within related => Abreast.pure ⟨k, .refl k, related, holds k within⟩

lemma throw {e : ε} {e' : ε'} :
    InStep S l P (MonadExcept.throw e : ExceptT ε (StateM σ) α) (MonadExcept.throw e' : ExceptT ε' (StateM σ') α') :=
  fun _ _ _ _ _ => Abreast.throw

lemma lift {e : Except ε α} {e' : Except ε' α'} {P : α → α' → Prop} (both : Alongside P e e') :
    InStep S l (fun _ => P) (liftM e : ExceptT ε (StateM σ) α) (liftM e' : ExceptT ε' (StateM σ') α') := by
  intro k s s' within related
  refine (Abreast.lift both).mono fun r t r' t' h => ?_
  obtain ⟨rfl, rfl, holds⟩ := h
  exact ⟨k, .refl k, related, holds⟩

end InStep

/-! ## Builders -/

namespace Formula

variable {l k : Links} {f f' g g' : Handle}

/-- The handles were made side by side. -/
abbrev Links.Pair (l : Links) (f f' : Handle) : Prop :=
  (f, f') ∈ l.pairs

/-- Calls on operands that stand for each other. Where an operand can be the result, or is not allowed
to be a constant that only one arena has, the operands are a pair. -/
inductive Builder.Tied (l : Links) : Builder → Builder → Prop where
  | const (w : Nat) (v : Int) : Tied l (.const w v) (.const w v)
  | var (w : Nat) (name name' : String) : Tied l (.var w name) (.var w name')
  | not {f f' : Handle} (pair : l.Pair f f') : Tied l (.not f) (.not f')
  | zext {f f' : Handle} {n : Nat} (alike : l.Alike f f') (whole : n = 0 → l.Pair f f') :
      Tied l (.zext f n) (.zext f' n)
  | sext {f f' : Handle} {n : Nat} (alike : l.Alike f f') (whole : n = 0 → l.Pair f f') :
      Tied l (.sext f n) (.sext f' n)
  | extract {f f' : Handle} (pair : l.Pair f f') (hi lo : Nat) : Tied l (.extract f hi lo) (.extract f' hi lo)
  | ite {c c' t t' e e' : Handle} (cond : l.Pair c c') (onTrue : l.Pair t t') (onFalse : l.Pair e e') :
      Tied l (.ite c t e) (.ite c' t' e')
  | binary {f f' g g' : Handle} (op : Binary) (first : l.Alike f f') (second : l.Alike g g') :
      Tied l (.binary op f g) (.binary op f' g')

lemma Builder.Tied.abreast {call : Builder} (same : Builder.Tied l call call') (within : l.Within k) {a' : Arena}
    (tied : a.Tied k a') : Abreast a a' call.run call'.run (Makes k) := by
  cases same with
  | const w v => exact const_abreast tied w v
  | var w name name' => exact var_abreast tied w name name'
  | not pair => exact not_abreast tied (within.pairs pair)
  | zext alike whole => exact zext_abreast tied (alike.mono within) fun none => within.pairs (whole none)
  | sext alike whole => exact sext_abreast tied (alike.mono within) fun none => within.pairs (whole none)
  | extract pair hi lo => exact extract_abreast tied (within.pairs pair) hi lo
  | ite cond onTrue onFalse =>
    exact ite_abreast tied (within.pairs cond) (within.pairs onTrue) (within.pairs onFalse)
  | binary op first second => exact binary_abreast tied op (first.mono within) (second.mono within)

lemma inStep_of_makes {x x' : Build Handle} (orderly : Orderly x) (orderly' : Orderly x')
    (makes : ∀ k a a', l.Within k → a.Tied k a' → Abreast a a' x x' (Makes k)) :
    InStep Arena.Tied l Links.Pair x x' := by
  intro k a a' within tied
  have both := (makes k a a' within tied).and_ends (orderly a tied.ofLeft) (orderly' a' tied.ofRight)
  refine both.mono fun r b r' b' h => ?_
  obtain ⟨⟨j, more, linked, pair⟩, kept, kept'⟩ := h
  exact ⟨j, more, ⟨linked, kept.wellFormed, kept'.wellFormed⟩, pair⟩

lemma call_inStep {call : Builder} (same : Builder.Tied l call call') :
    InStep Arena.Tied l Links.Pair call.run call'.run :=
  inStep_of_makes call.orderly call'.orderly fun _ _ _ within tied => same.abreast within tied

lemma retain_inStep (pair : l.Pair f f') : InStep Arena.Tied l Links.Pair (retain f) (retain f') :=
  inStep_of_makes (.retain f) (.retain f') fun _ _ _ within tied => retain_abreast tied (within.pairs pair)

lemma width_inStep (alike : l.Alike f f') :
    InStep Arena.Tied l (fun _ w w' => w' = w ∧ 0 < w) (width f) (width f') := by
  intro k a a' within tied
  have both := (width_abreast tied (alike.mono within)).and_ends (width_ends tied.ofLeft f) (width_ends tied.ofRight f')
  refine both.mono fun w b w' b' h => ?_
  obtain ⟨⟨rfl, rfl, rfl⟩, ⟨-, rfl, realized, -⟩, -⟩ := h
  obtain ⟨n, found⟩ := Arena.exists_node_of_realized tied.ofLeft.isOpen realized
  refine ⟨k, .refl k, tied, rfl, ?_⟩
  rw [Arena.widthOf_eq found]
  exact (tied.ofLeft.fits found).width_pos

lemma release_inStep (pairs : List.Forall₂ l.Pair fs fs') :
    InStep Arena.Tied l (fun _ _ _ => True) (release fs) (release fs') := by
  intro k a a' within tied
  refine (release_abreast tied (pairs.imp fun _ _ pair => within.pairs pair)).mono fun _ b _ b' tied => ?_
  exact ⟨k, .refl k, tied, trivial⟩

lemma refused_holding (fs : List Handle) {body : Build α} {b : Arena} {e : Fault}
    (run : outcome body a = (.error e, b)) : ∃ e c, outcome (holding fs body) a = (.error e, c) := by
  rw [outcome_holding, run]
  dsimp only
  rw [outcome_bind]
  rcases outcome (release fs) b with ⟨e | ⟨⟨⟩⟩, c⟩
  · exact ⟨e, c, rfl⟩
  · exact ⟨e, c, rfl⟩

lemma holding_inStep {α' : Type} {P : Links → α → α' → Prop} {x : Build α} {x' : Build α'}
    (pairs : List.Forall₂ l.Pair fs fs') (body : InStep Arena.Tied l P x x') :
    InStep Arena.Tied l P (holding fs x) (holding fs' x') := by
  intro k a a' within tied
  obtain ⟨r, b, r', b', run, run', j, more, tied, holds⟩ | ⟨e, b, e', b', run, run'⟩ := (body k a a' within tied).cases
  · have back : Abreast b b' (release fs >>= fun _ => pure r) (release fs' >>= fun _ => pure r')
        fun r c r' c' => ∃ i, k.Within i ∧ c.Tied i c' ∧ P i r r' := by
      refine Abreast.bind (release_abreast tied (pairs.imp fun _ _ pair => ?_)) fun _ c _ c' tied => ?_
      · exact (within.trans more).pairs pair
      · exact Abreast.pure ⟨j, more, tied, holds⟩
    unfold Abreast at back ⊢
    rw [outcome_holding, outcome_holding, run, run']
    exact back
  · obtain ⟨e, c, refused⟩ := refused_holding fs run
    obtain ⟨e', c', refused'⟩ := refused_holding fs' run'
    exact Abreast.of_error refused refused'

/-! ## Overflow -/

lemma sameWidth_inStep (first : l.Alike f f') (second : l.Alike g g') :
    InStep Arena.Tied l (fun _ w w' => w' = w ∧ 0 < w) (sameWidth f g) (sameWidth f' g') := by
  unfold sameWidth
  refine (width_inStep first).bind fun k within w w' h => ?_
  obtain ⟨rfl, some⟩ := h
  refine (width_inStep (second.mono within)).bind fun j within v v' h => ?_
  obtain ⟨rfl, -⟩ := h
  intro i a a' _ tied
  refine need_abreast Iff.rfl fun _ => Abreast.pure ⟨i, .refl i, tied, rfl, some⟩

/-- A formula is made, and given back after use. -/
lemma keeping_inStep {call : Builder} {rest rest' : Handle → Build Handle} (same : Builder.Tied l call call')
    (next : ∀ k, l.Within k → ∀ x x', k.Pair x x' → InStep Arena.Tied k Links.Pair (rest x) (rest' x')) :
    InStep Arena.Tied l Links.Pair (keeping call.run rest) (keeping call'.run rest') := by
  refine (call_inStep same).bind fun k within x x' pair => ?_
  exact holding_inStep (.cons pair .nil) (next k within x x' pair)

lemma inWider_inStep {n : Nat} {op : Arith} {ext : Handle → Nat → Builder} {test : Handle → Build Handle}
    (tied : ∀ {k : Links} {f f' : Handle}, k.Alike f f' → Builder.Tied k (ext f n) (ext f' n))
    (first : l.Alike f f') (second : l.Alike g g')
    (tests : ∀ {k : Links} {z z' : Handle}, k.Pair z z' → InStep Arena.Tied k Links.Pair (test z) (test z')) :
    InStep Arena.Tied l Links.Pair (inWider (fun f k => (ext f k).run) n op f g test)
      (inWider (fun f k => (ext f k).run) n op f' g' test) := by
  refine keeping_inStep (tied first) fun k within x x' left => ?_
  refine keeping_inStep (tied (second.mono within)) fun j more y y' right => ?_
  exact keeping_inStep (.binary (.arith op) (.inl (more.pairs left)) (.inl right)) fun i _ z z' pair => tests pair

lemma zext_tied (some : 0 < w) (alike : k.Alike f f') : Builder.Tied k (.zext f w) (.zext f' w) :=
  .zext alike fun none => absurd none some.ne'

lemma sext_tied (some : 0 < w) (alike : k.Alike f f') : Builder.Tied k (.sext f w) (.sext f' w) :=
  .sext alike fun none => absurd none some.ne'

lemma topBitsDiffer_inStep (w : Nat) (pair : l.Pair f f') :
    InStep Arena.Tied l Links.Pair (topBitsDiffer f w) (topBitsDiffer f' w) := by
  refine keeping_inStep (.extract pair w w) fun k within hi hi' high => ?_
  refine keeping_inStep (.extract (within.pairs pair) (w - 1) (w - 1)) fun j within lo lo' low => ?_
  exact call_inStep (.binary (.compare .ne) (.inl (within.pairs high)) (.inl low))

lemma highHalfSet_inStep (w : Nat) (pair : l.Pair f f') :
    InStep Arena.Tied l Links.Pair (highHalfSet f w) (highHalfSet f' w) := by
  refine keeping_inStep (.extract pair _ w) fun k within hi hi' high => ?_
  refine keeping_inStep (.const w 0) fun j within empty empty' clear => ?_
  exact call_inStep (.binary (.compare .ne) (.inl (within.pairs high)) (.inl clear))

lemma outgrowsLowHalf_inStep (some : 0 < w) (pair : l.Pair f f') :
    InStep Arena.Tied l Links.Pair (outgrowsLowHalf f w) (outgrowsLowHalf f' w) := by
  refine keeping_inStep (.extract pair (w - 1) 0) fun k within lo lo' low => ?_
  refine keeping_inStep (sext_tied some (.inl low)) fun j more back back' again => ?_
  exact call_inStep (.binary (.compare .ne) (.inl (more.pairs (within.pairs pair))) (.inl again))

section Predicates

variable (first : l.Alike f f') (second : l.Alike g g')

include first second

lemma matching_inStep {body body' : Nat → Build Handle} (next : ∀ k w, 0 < w → k.Alike f f' → k.Alike g g' →
    InStep Arena.Tied k Links.Pair (body w) (body' w)) :
    InStep Arena.Tied l Links.Pair (sameWidth f g >>= body) (sameWidth f' g' >>= body') := by
  refine (sameWidth_inStep first second).bind fun k within w w' h => ?_
  obtain ⟨rfl, some⟩ := h
  exact next k w' some (first.mono within) (second.mono within)

lemma uaddOverflow_inStep : InStep Arena.Tied l Links.Pair (uaddOverflow f g) (uaddOverflow f' g') :=
  matching_inStep first second fun _ w _ first second => inWider_inStep (zext_tied Nat.one_pos) first second
    fun pair => call_inStep (.extract pair w w)

lemma saddOverflow_inStep : InStep Arena.Tied l Links.Pair (saddOverflow f g) (saddOverflow f' g') :=
  matching_inStep first second fun _ w _ first second => inWider_inStep (sext_tied Nat.one_pos) first second
    (topBitsDiffer_inStep w)

lemma usubOverflow_inStep : InStep Arena.Tied l Links.Pair (usubOverflow f g) (usubOverflow f' g') :=
  matching_inStep first second fun _ _ _ first second => call_inStep (.binary (.compare .ult) first second)

lemma ssubOverflow_inStep : InStep Arena.Tied l Links.Pair (ssubOverflow f g) (ssubOverflow f' g') :=
  matching_inStep first second fun _ w _ first second => inWider_inStep (sext_tied Nat.one_pos) first second
    (topBitsDiffer_inStep w)

lemma umulOverflow_inStep : InStep Arena.Tied l Links.Pair (umulOverflow f g) (umulOverflow f' g') :=
  matching_inStep first second fun _ w some first second => inWider_inStep (zext_tied some) first second
    (highHalfSet_inStep w)

lemma smulOverflow_inStep : InStep Arena.Tied l Links.Pair (smulOverflow f g) (smulOverflow f' g') :=
  matching_inStep first second fun _ _ some first second => inWider_inStep (sext_tied some) first second
    (outgrowsLowHalf_inStep some)

end Predicates

end Formula

end Faultline
