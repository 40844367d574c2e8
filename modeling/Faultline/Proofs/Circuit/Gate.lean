/-
# Proofs.Circuit.Gate — gates compute what they are named after

In an ordered circuit, where the oldest gate is the constant and conjunctions are of
older gates, the value of a gate is the value of its operation (`eval_pos`), and
gates that are added later change no value (`eval_of_extends`). `Shows assign c l v`
says that the literal `l` of `c` has the value `v`. `Yields c x Q` says that drawing
`x` into an ordered circuit `c` only adds gates, keeps the order, and ends with `Q`.
-/
import Mathlib
import Faultline.Circuit.Basic

namespace Faultline.Circuit

open List Array

variable {c d e : Circuit} {assign : Nat → Bool} {l a b : Lit} {u v w : Bool} {p : Nat} {g : Gate}

/-! ## Literals -/

namespace Lit

lemma gate_pos (p : Nat) : (pos p).gate = p := by
  simp [pos, gate]

lemma flipped_pos (p : Nat) : (pos p).flipped = false := by
  simp [pos, flipped]

lemma gate_not (l : Lit) : l.not.gate = l.gate := by
  unfold not gate
  split
  · rename_i even
    rw [beq_iff_eq] at even
    simp only
    omega
  · rename_i odd
    rw [beq_iff_eq] at odd
    simp only
    omega

lemma flipped_not (l : Lit) : l.not.flipped = !l.flipped := by
  unfold not flipped
  rcases Nat.mod_two_eq_zero_or_one l.code with even | odd
  · simp only [even, beq_self_eq_true, if_true]
    rw [show (l.code + 1) % 2 = 1 by omega]
    rfl
  · simp only [odd]
    rw [if_neg (by simp), show (l.code - 1) % 2 = 0 by omega]
    rfl

end Lit

/-! ## Order and growth -/

/-- The oldest gate is the constant, and conjunctions are of older gates. -/
structure Ordered (c : Circuit) : Prop where
  yes : c.gates[0]? = some .yes
  older : ∀ {p : Nat} {a b}, c.gates[p]? = some (.and a b) → a.gate < p ∧ b.gate < p

/-- `d` is ordered and has the gates of `c`, and maybe more behind them. -/
structure Extends (c d : Circuit) : Prop where
  ordered : d.Ordered
  more : ∃ gs : Array Gate, d.gates = c.gates ++ gs

lemma Extends.refl (ordered : c.Ordered) : c.Extends c :=
  ⟨ordered, #[], by simp⟩

lemma Extends.trans (first : c.Extends d) (second : d.Extends e) : c.Extends e := by
  obtain ⟨gs, early⟩ := first.more
  obtain ⟨hs, late⟩ := second.more
  exact ⟨second.ordered, gs ++ hs, by rw [late, early, Array.append_assoc]⟩

lemma Extends.size_le (grown : c.Extends d) : c.gates.size ≤ d.gates.size := by
  obtain ⟨gs, same⟩ := grown.more
  simp [same]

lemma Extends.gate (grown : c.Extends d) (found : c.gates[p]? = some g) : d.gates[p]? = some g := by
  obtain ⟨gs, same⟩ := grown.more
  obtain ⟨inside, -⟩ := Array.getElem?_eq_some_iff.1 found
  rw [same, Array.getElem?_append_left inside, found]

lemma Ordered.size_pos (ordered : c.Ordered) : 0 < c.gates.size :=
  (Array.getElem?_eq_some_iff.1 ordered.yes).1

/-! ## Values -/

def gateValue (assign : Nat → Bool) (vs : Array Bool) : Gate → Bool
  | .yes => true
  | .input => assign vs.size
  | .and a b => (vs.getD a.gate false != a.flipped) && (vs.getD b.gate false != b.flipped)

def pushValue (assign : Nat → Bool) (vs : Array Bool) (g : Gate) : Array Bool :=
  vs.push (gateValue assign vs g)

lemma values_eq (c : Circuit) (assign : Nat → Bool) : c.values assign = c.gates.foldl (pushValue assign) #[] := by
  unfold values
  congr 1

lemma size_foldl_pushValue (gs : List Gate) (vs : Array Bool) :
    (gs.foldl (pushValue assign) vs).size = vs.size + gs.length := by
  induction gs generalizing vs with
  | nil => rfl
  | cons g gs ih =>
    rw [foldl_cons, ih, length_cons]
    simp only [pushValue, size_push]
    omega

lemma foldl_pushValue_getElem? (gs : List Gate) (vs : Array Bool) (inside : p < vs.size) :
    (gs.foldl (pushValue assign) vs)[p]? = vs[p]? := by
  induction gs generalizing vs with
  | nil => rfl
  | cons g gs ih =>
    rw [foldl_cons, ih _ (by simp only [pushValue, size_push]; omega), pushValue,
      getElem?_push_lt inside, Array.getElem?_eq_getElem inside]

lemma size_values (c : Circuit) (assign : Nat → Bool) : (c.values assign).size = c.gates.size := by
  rw [values_eq, ← foldl_toList, size_foldl_pushValue]
  simp

lemma values_of_append {gs hs : Array Gate} (same : c.gates = gs ++ hs) :
    c.values assign = hs.toList.foldl (pushValue assign) (gs.foldl (pushValue assign) #[]) := by
  rw [values_eq, same, Array.foldl_append, ← foldl_toList]

lemma eval_of_extends (grown : c.Extends d) (inside : l.gate < c.gates.size) :
    d.eval assign l = c.eval assign l := by
  obtain ⟨gs, same⟩ := grown.more
  unfold eval
  rw [values_of_append same, ← values_eq, getD_eq_getD_getElem?, getD_eq_getD_getElem?,
    foldl_pushValue_getElem? _ _ (by rwa [size_values])]

/-- The operation of a gate, on its input and on the values of literals. -/
def Gate.meaning (input : Bool) (value : Lit → Bool) : Gate → Bool
  | .yes => true
  | .input => input
  | .and a b => value a && value b

lemma eval_pos (ordered : c.Ordered) (found : c.gates[p]? = some g) :
    c.eval assign (.pos p) = g.meaning (assign p) (c.eval assign) := by
  obtain ⟨inside, here⟩ := Array.getElem?_eq_some_iff.1 found
  let before := (c.gates.toList.take p).foldl (pushValue assign) #[]
  have size : before.size = p := by
    simp only [before, size_foldl_pushValue, length_take, length_toList, size_toArray,
      length_nil]
    omega
  -- The values up to this gate, its own, and those of the gates behind it.
  have split : c.values assign =
      (c.gates.toList.drop (p + 1)).foldl (pushValue assign) (pushValue assign before g) := by
    have whole : c.gates.toList.take p ++ g :: c.gates.toList.drop (p + 1) = c.gates.toList := by
      rw [← here, ← getElem_toList inside, ← drop_eq_getElem_cons, take_append_drop]
    calc c.values assign = c.gates.toList.foldl (pushValue assign) #[] := by
          rw [values_eq, foldl_toList]
      _ = _ := by rw [← congrArg (List.foldl (pushValue assign) #[]) whole, List.foldl_append,
          foldl_cons]
  have early : ∀ q, q < p → (c.values assign).getD q false = before.getD q false := by
    intro q low
    rw [split, getD_eq_getD_getElem?, getD_eq_getD_getElem?,
      foldl_pushValue_getElem? _ _ (by simp only [pushValue, size_push]; omega), pushValue,
      getElem?_push_lt (by omega), Array.getElem?_eq_getElem (by omega)]
  have own : c.eval assign (.pos p) = gateValue assign before g := by
    rw [eval, Lit.gate_pos, Lit.flipped_pos, split, getD_eq_getD_getElem?,
      foldl_pushValue_getElem? _ _ (by simp only [pushValue, size_push]; omega), pushValue, ← size]
    simp
  rw [own]
  cases g with
  | yes => rfl
  | input => rw [gateValue, size, Gate.meaning]
  | and a b =>
    obtain ⟨lowA, lowB⟩ := ordered.older found
    simp only [gateValue, Gate.meaning, eval, early _ lowA, early _ lowB]

/-! ## The value of a literal -/

/-- The literal is there and has the value `v`. -/
def Shows (assign : Nat → Bool) (c : Circuit) (l : Lit) (v : Bool) : Prop :=
  l.gate < c.gates.size ∧ c.eval assign l = v

lemma Shows.grow (shows : Shows assign c l v) (grown : c.Extends d) : Shows assign d l v :=
  ⟨lt_of_lt_of_le shows.1 grown.size_le, (eval_of_extends grown shows.1).trans shows.2⟩

lemma Shows.unique (shows : Shows assign c l u) (shows' : Shows assign c l v) : u = v :=
  shows.2.symm.trans shows'.2

lemma Shows.not (shows : Shows assign c l v) : Shows assign c l.not (!v) := by
  refine ⟨by rw [Lit.gate_not]; exact shows.1, ?_⟩
  rw [← shows.2, eval, eval, Lit.gate_not, Lit.flipped_not]
  simp

lemma shows_yes (ordered : c.Ordered) : Shows assign c .yes true :=
  ⟨ordered.size_pos, eval_pos ordered ordered.yes⟩

lemma shows_no (ordered : c.Ordered) : Shows assign c .no false :=
  (shows_yes ordered).not

lemma shows_ofBool (ordered : c.Ordered) (v : Bool) : Shows assign c (.ofBool v) v := by
  cases v
  · exact shows_no ordered
  · exact shows_yes ordered

/-! ## Drawing -/

variable {α β : Type}

def result (x : Draw α) (c : Circuit) : α × Circuit :=
  x c

lemma result_bind (x : Draw α) (k : α → Draw β) (c : Circuit) :
    result (x >>= k) c = result (k (result x c).1) (result x c).2 := rfl

/-- Drawing `x` into an ordered circuit adds gates in order and ends with `Q`. -/
def Yields (c : Circuit) (x : Draw α) (Q : α → Circuit → Prop) : Prop :=
  c.Ordered → c.Extends (result x c).2 ∧ Q (result x c).1 (result x c).2

namespace Yields

variable {x : Draw α} {k : α → Draw β} {Q Q' : α → Circuit → Prop} {R : β → Circuit → Prop}

lemma pure {r : α} (holds : c.Ordered → Q r c) : Yields c (Pure.pure r) Q :=
  fun ordered => ⟨Extends.refl ordered, holds ordered⟩

lemma of_ordered (drawn : c.Ordered → Yields c x Q) : Yields c x Q :=
  fun ordered => drawn ordered ordered

lemma bind (first : Yields c x Q) (next : ∀ r d, c.Extends d → Q r d → Yields d (k r) R) :
    Yields c (x >>= k) R := by
  intro ordered
  obtain ⟨grown, holds⟩ := first ordered
  obtain ⟨grown', holds'⟩ := next _ _ grown holds grown.ordered
  exact ⟨grown.trans grown', holds'⟩

lemma mono (first : Yields c x Q) (weaker : ∀ r d, c.Extends d → Q r d → Q' r d) : Yields c x Q' :=
  fun ordered => ⟨(first ordered).1, weaker _ _ (first ordered).1 (first ordered).2⟩

lemma and (first : Yields c x Q) (second : c.Ordered → Q' (result x c).1 (result x c).2) :
    Yields c x (fun r d => Q r d ∧ Q' r d) :=
  fun ordered => ⟨(first ordered).1, (first ordered).2, second ordered⟩

lemma map {f : α → β} (first : Yields c x Q) (image : ∀ r d, c.Extends d → Q r d → R (f r) d) :
    Yields c (f <$> x) R :=
  bind first fun _ _ grown holds => pure fun _ => image _ _ grown holds

end Yields

lemma extends_push (ordered : c.Ordered)
    (older : ∀ a b, g = .and a b → a.gate < c.gates.size ∧ b.gate < c.gates.size)
    (gates : d.gates = c.gates.push g) : c.Extends d := by
  refine ⟨⟨?_, ?_⟩, #[g], gates.trans push_eq_append⟩
  · have first := ordered.size_pos
    rw [gates, getElem?_push_lt first, ← ordered.yes, Array.getElem?_eq_getElem first]
  · intro p a b found
    rw [gates, getElem?_push] at found
    by_cases here : p = c.gates.size
    · rw [if_pos here, Option.some.injEq] at found
      exact here ▸ older a b found
    · rw [if_neg here] at found
      exact ordered.older found

lemma shows_push (ordered : d.Ordered) (gates : d.gates = c.gates.push g) :
    Shows assign d (.pos c.gates.size) (g.meaning (assign c.gates.size) (d.eval assign)) := by
  have here : d.gates[c.gates.size]? = some g := by rw [gates, getElem?_push_size]
  refine ⟨?_, eval_pos ordered here⟩
  rw [Lit.gate_pos]
  exact (Array.getElem?_eq_some_iff.1 here).1

lemma input_yields : Yields c input (fun l d => l = .pos c.gates.size ∧ d.gates = c.gates.push .input) :=
  fun ordered => ⟨extends_push ordered (g := .input) nofun rfl, rfl, rfl⟩

lemma find?_eq_some (found : find? c a b = some p) : c.gates[p]? = some (.and a b) := by
  unfold find? at found
  rcases place : c.drawn[(a, b)]? with _ | q
  · simp [place] at found
  · by_cases there : c.gates[q]? = some (.and a b)
    · simp [place, there] at found
      exact found ▸ there
    · simp [place, there] at found

lemma result_drawAnd (a b : Lit) (c : Circuit) :
    result (drawAnd a b) c = match find? c a b with
      | some p => (.pos p, c)
      | none => result (draw (.and a b)) { c with drawn := c.drawn.insert (a, b) c.gates.size } := by
  unfold drawAnd
  rw [result_bind]
  show result (match find? c a b with | some _ => _ | none => _) c = _
  cases find? c a b <;> rfl

/-- A conjunction, found or drawn. -/
lemma drawAnd_yields (left : Shows assign c a u) (right : Shows assign c b v) :
    Yields c (drawAnd a b) (fun l d => Shows assign d l (u && v)) := by
  intro ordered
  rw [result_drawAnd]
  cases found : find? c a b with
  | some p =>
    have here := find?_eq_some found
    refine ⟨Extends.refl ordered, ?_, ?_⟩
    · rw [Lit.gate_pos]
      exact (Array.getElem?_eq_some_iff.1 here).1
    · rw [eval_pos ordered here, Gate.meaning, left.2, right.2]
  | none =>
    -- The table of drawn conjunctions has no part in order and values.
    let d : Circuit := (result (draw (.and a b)) { c with drawn := c.drawn.insert (a, b) c.gates.size }).2
    have grown : c.Extends d := by
      refine extends_push ordered (g := .and a b) ?_ rfl
      intro x y same
      cases same
      exact ⟨left.1, right.1⟩
    have new : Shows assign d (.pos c.gates.size) _ := shows_push (g := .and a b) grown.ordered rfl
    simp only [Gate.meaning, (left.grow grown).2, (right.grow grown).2] at new
    exact ⟨grown, new⟩

lemma and_yields (left : Shows assign c a u) (right : Shows assign c b v) :
    Yields c (and a b) (fun l d => Shows assign d l (u && v)) := by
  unfold and
  split
  · rename_i same
    subst same
    exact .pure fun _ => by rw [left.unique right, Bool.and_self]; exact right
  split
  · rename_i opposite
    subst opposite
    exact .pure fun ordered => by rw [left.unique right.not, Bool.not_and_self]; exact shows_no ordered
  split
  · rename_i zero
    refine .pure fun ordered => ?_
    rcases zero with rfl | rfl
    · rw [left.unique (shows_no ordered), Bool.false_and]; exact shows_no ordered
    · rw [right.unique (shows_no ordered), Bool.and_false]; exact shows_no ordered
  split
  · rename_i one
    subst one
    exact .pure fun ordered => by rw [left.unique (shows_yes ordered), Bool.true_and]; exact right
  split
  · rename_i one
    subst one
    exact .pure fun ordered => by rw [right.unique (shows_yes ordered), Bool.and_true]; exact left
  split
  · exact drawAnd_yields left right
  · rw [Bool.and_comm]
    exact drawAnd_yields right left

lemma or_yields (left : Shows assign c a u) (right : Shows assign c b v) :
    Yields c (or a b) (fun l d => Shows assign d l (u || v)) :=
  (and_yields left.not right.not).bind fun _ _ _ joint => .pure fun _ => by simpa using joint.not

lemma xor_yields (left : Shows assign c a u) (right : Shows assign c b v) :
    Yields c (xor a b) (fun l d => Shows assign d l (u ^^ v)) := by
  unfold xor
  refine (and_yields left right.not).bind fun _ d grown onlyLeft => ?_
  refine (and_yields (left.not.grow grown) (right.grow grown)).bind fun _ e grown onlyRight => ?_
  refine (or_yields (onlyLeft.grow grown) onlyRight).mono fun _ _ _ joint => ?_
  rwa [show (u ^^ v) = ((u && !v) || (!u && v)) by cases u <;> cases v <;> rfl]

lemma choice_yields (cond : Shows assign c l w) (onTrue : Shows assign c a u) (onFalse : Shows assign c b v) :
    Yields c (choice l a b) (fun l d => Shows assign d l (if w then u else v)) := by
  unfold choice
  refine (and_yields cond onTrue).bind fun _ d grown first => ?_
  refine (and_yields (cond.not.grow grown) (onFalse.grow grown)).bind fun _ e grown second => ?_
  refine (or_yields (first.grow grown) second).mono fun _ _ _ joint => ?_
  rwa [show (if w then u else v) = ((w && u) || (!w && v)) by cases w <;> simp]

end Faultline.Circuit
