/-
# Proofs.Analysis.Route — the routes control can take

Values of the program decide where control goes. `Goes` says that the terminator
of a block goes on to another block, and `Assigns` that the phis of that block
have the values that come in over the edge. A route is a list of blocks from the
entry, which it never comes back to, along edges outside the cut that both hold
of. `Reaches` is the inductive form, which the path engine follows backwards
(`reaches_iff`, `reaches_iff_route`).
-/
import Faultline.Analysis.Path
import Mathlib

namespace Faultline.Analysis

open IR (Module ValueId)
open List

variable {s : Setting} {val : ValueId → Nat} {a b : Nat}

/-- The terminator of `source` goes to `target`. -/
def Goes (s : Setting) (val : ValueId → Nat) (source target : Nat) : Prop :=
  let dest := (s.graph.block target).id
  match terminatorOf? s source with
  | some (.condBr c t e) => t = e ∨ if t = dest then val c = 1 else val c = 0
  | some (.switch x d cases) =>
    (∃ arm ∈ cases, arm.2 = dest ∧ val x = val arm.1) ∨ d = dest ∧ ∀ arm ∈ cases, val x ≠ val arm.1
  | _ => True

/-- The value that comes in from `source` is the value of the phi; of an undefined value nothing is
asked. -/
def Incoming (m : Module) (val : ValueId → Nat) (source phi : ValueId) (incoming : List (ValueId × ValueId)) :
    Prop :=
  ∀ pair ∈ incoming, pair.2 = source → isUndef m pair.1 = false → val pair.1 = val phi

/-- The phis at the head of a list of instructions have their values on an edge from `source`; a phi
of a type that is not analysed may have any. -/
def PhisHold (s : Setting) (val : ValueId → Nat) (source : ValueId) : List ValueId → Prop
  | [] => True
  | v :: vs =>
    match s.module.get? v with
    | some (.inst _ t (.phi _ _ incoming) _) =>
      ((s.width? t).isSome → Incoming s.module val source v incoming) ∧ PhisHold s val source vs
    | _ => True

/-- The phis of `target` have the values that come in from `source`. -/
def Assigns (s : Setting) (val : ValueId → Nat) (source target : Nat) : Prop :=
  PhisHold s val (s.graph.block source).id (s.graph.block target).insts.toList

/-- Control passes from `source` to `target`, over an edge outside the cut. -/
structure Passes (s : Setting) (val : ValueId → Nat) (source target : Nat) : Prop where
  edge : target ∈ s.graph.succsOf source
  uncut : s.cut.has source target = false
  goes : Goes s val source target
  assigns : Assigns s val source target

/-- A route from the entry to `b`. -/
structure Route (s : Setting) (val : ValueId → Nat) (route : List Nat) (b : Nat) : Prop where
  first : route.head? = some 0
  last : route.getLast? = some b
  once : 0 ∉ route.tail
  passes : route.IsChain (Passes s val)

/-- Control can reach `b`. -/
inductive Reaches (s : Setting) (val : ValueId → Nat) : Nat → Prop where
  | entry : Reaches s val 0
  | pass {a b : Nat} (reached : Reaches s val a) (inner : b ≠ 0) (passes : Passes s val a b) :
      Reaches s val b

/-- A block other than the entry is reached through a predecessor. -/
lemma reaches_iff (inner : b ≠ 0) :
    Reaches s val b ↔ ∃ a, Passes s val a b ∧ Reaches s val a := by
  refine ⟨fun reached => ?_, fun ⟨a, passes, reached⟩ => reached.pass inner passes⟩
  cases reached with
  | entry => exact absurd rfl inner
  | pass reached _ passes => exact ⟨_, passes, reached⟩

lemma Route.entry (s : Setting) (val : ValueId → Nat) : Route s val [0] 0 :=
  ⟨rfl, rfl, nofun, .singleton 0⟩

lemma Route.concat {route : List Nat} (first : Route s val route a) (inner : b ≠ 0)
    (passes : Passes s val a b) : Route s val (route ++ [b]) b := by
  obtain ⟨start, rest, rfl⟩ : ∃ start rest, route = start :: rest := by
    cases route with
    | nil => exact absurd first.first nofun
    | cons start rest => exact ⟨start, rest, rfl⟩
  refine ⟨first.first, getLast?_concat, ?_, ?_⟩
  · show 0 ∉ rest ++ [b]
    rw [mem_append, mem_singleton]
    exact fun listed => listed.elim first.once fun same => inner same.symm
  · refine isChain_append.2 ⟨first.passes, .singleton b, fun x last y next => ?_⟩
    cases (Option.mem_def.1 last).symm.trans first.last
    cases next
    exact passes

lemma Route.of_concat {start : Nat} {rest : List Nat} (found : Route s val (start :: rest ++ [b]) b) :
    ∃ a, Route s val (start :: rest) a ∧ b ≠ 0 ∧ Passes s val a b := by
  obtain ⟨passes, -, joint⟩ := isChain_append.1 found.passes
  have last : (start :: rest).getLast? = some ((start :: rest).getLast (cons_ne_nil start rest)) :=
    getLast?_eq_some_getLast _
  have once : 0 ∉ rest ++ [b] := found.once
  rw [mem_append, mem_singleton, not_or] at once
  exact ⟨_, ⟨found.first, last, once.1, passes⟩, fun same => once.2 same.symm, joint _ last b rfl⟩

lemma reaches_iff_route : Reaches s val b ↔ ∃ route, Route s val route b := by
  constructor
  · intro reached
    induction reached with
    | entry => exact ⟨[0], Route.entry s val⟩
    | pass _ inner passes ih =>
      obtain ⟨route, found⟩ := ih
      exact ⟨route ++ [_], found.concat inner passes⟩
  · rintro ⟨route, found⟩
    -- the route is taken apart at its end
    induction route using reverseRecOn generalizing b with
    | nil => exact absurd found.first nofun
    | append_singleton route c ih =>
      obtain rfl : c = b := by simpa using found.last
      cases route with
      | nil =>
        cases found.first
        exact .entry
      | cons start rest =>
        obtain ⟨a, before, inner, passes⟩ := found.of_concat
        exact (ih before).pass inner passes

end Faultline.Analysis
