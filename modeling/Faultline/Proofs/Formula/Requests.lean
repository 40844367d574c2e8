/-
# Proofs.Formula.Requests — arenas in use

An arena in use has been through any number of requests: calls of builders and
overflow predicates, references taken and given back, and refusals of all of them.
It stays well formed and only grows (`Reachable.wellFormed`, `Request.orderly`).
Every request but that for a variable is quiet (`Request.quietly`): it adds plain
nodes at the end and changes counts, and that is all.

In every arena in use builders mean what they say, and change no value of a formula
that was there.
-/
import Faultline.Formula.Overflow
import Faultline.Proofs.Formula.Builders

namespace Faultline.Formula

open Arena (Built)

variable {a b c : Arena} {f g r w k : Nat} {n : Node}

/-- No variable; an extension has a width that fits in a word, and a constant one that can be stored. -/
def Node.Plain (n : Node) : Prop :=
  match n.term with
  | .var _ => False
  | .const _ => n.width < widthLimit
  | .zext _ | .sext _ => n.width < widthRange
  | _ => True

/-! ## Giving back -/

namespace Arena

def drop (a : Arena) (f : Handle) : Arena :=
  { a.setCount f (a.count f - 1) with live := a.live - 1 }

lemma grows_drop (a : Arena) (f : Handle) : a.Grows (a.drop f) :=
  ⟨le_refl _, id⟩

lemma WellFormed.drop (wf : a.WellFormed) (f : Handle) : (a.drop f).WellFormed where
  isOpen := wf.isOpen
  sizes := by simp [Arena.drop, setCount, wf.sizes]
  fits := fun found =>
    have fits := wf.fits (f := _) found
    ⟨fits.width_pos, fits.older, fits.typed⟩

/-- `b` came out of `a` in good order. -/
structure Keeps (a b : Arena) : Prop where
  grows : a.Grows b
  wellFormed : b.WellFormed

lemma Keeps.refl (wf : a.WellFormed) : a.Keeps a :=
  ⟨Grows.refl a, wf⟩

lemma Keeps.trans (first : a.Keeps b) (second : b.Keeps c) : a.Keeps c :=
  ⟨first.grows.trans second.grows, second.wellFormed⟩

/-- `b` is `a` with more nodes, all of them plain, and maybe with other counts. -/
structure Quiet (a b : Arena) : Prop where
  names : b.names = a.names
  closed : b.closed = a.closed
  nodes : ∃ new, b.nodes.toList = a.nodes.toList ++ new ∧ ∀ n ∈ new, n.Plain

namespace Quiet

lemma of_nodes (names : b.names = a.names) (closed : b.closed = a.closed) (nodes : b.nodes = a.nodes) :
    a.Quiet b :=
  ⟨names, closed, [], by simp [nodes], by simp⟩

lemma push {names : Std.HashSet String} (plain : n.Plain) (same : names = a.names) : a.Quiet (a.push n names) :=
  ⟨same, rfl, [n], by simp [Arena.push], by simpa using plain⟩

lemma refl (a : Arena) : a.Quiet a :=
  of_nodes rfl rfl rfl

lemma trans (first : a.Quiet b) (second : b.Quiet c) : a.Quiet c := by
  obtain ⟨new, nodes, plain⟩ := first.nodes
  obtain ⟨new', nodes', plain'⟩ := second.nodes
  refine ⟨second.names.trans first.names, second.closed.trans first.closed, new ++ new', ?_, ?_⟩
  · rw [nodes', nodes, List.append_assoc]
  · intro n mem
    exact (List.mem_append.1 mem).elim (plain n) (plain' n)

end Quiet

end Arena

/-! ## Quiet computations -/

/-- Whether it returns or is refused, `x` keeps the arena in good order. -/
def Orderly {α : Type} (x : Build α) : Prop :=
  ∀ a : Arena, a.WellFormed → Ends a x (fun _ b => a.Keeps b) (fun _ b => a.Keeps b)

def Quietly {α : Type} (x : Build α) : Prop :=
  ∀ a : Arena, a.WellFormed → Ends a x (fun _ b => a.Keeps b ∧ a.Quiet b) (fun _ b => a.Keeps b ∧ a.Quiet b)

namespace Quietly

variable {α β : Type}

lemma orderly {x : Build α} (quietly : Quietly x) : Orderly x :=
  fun a wf => (quietly a wf).mono (fun _ _ h => h.1) fun _ _ h => h.1

lemma unchanged (wf : a.WellFormed) : a.Keeps a ∧ a.Quiet a :=
  ⟨.refl wf, .refl a⟩

lemma pure (x : α) : Quietly (Pure.pure x) :=
  fun _ wf => Ends.pure (unchanged wf)

lemma bind {x : Build α} {k : α → Build β} (first : Quietly x) (next : ∀ r, Quietly (k r)) :
    Quietly (x >>= k) := by
  intro a wf
  refine Ends.bind (first a wf) fun r b kept => ?_
  exact (next r b kept.1.wellFormed).mono (fun _ _ h => ⟨kept.1.trans h.1, kept.2.trans h.2⟩)
    fun _ _ h => ⟨kept.1.trans h.1, kept.2.trans h.2⟩

lemma need (p : Prop) [Decidable p] (fault : Fault) : Quietly (need p fault) :=
  fun _ wf => (need_ends p fault _).mono (fun _ _ h => h.1 ▸ unchanged wf) fun _ _ h => h.1 ▸ unchanged wf

lemma width (f : Handle) : Quietly (width f) :=
  fun _ wf => (width_ends wf f).mono (fun _ _ h => h.1 ▸ unchanged wf) fun _ _ h => h.1 ▸ unchanged wf

lemma retain (f : Handle) : Quietly (retain f) := by
  intro a wf
  refine (retain_ends wf f).mono (fun r b h => ?_) fun _ _ h => h.1 ▸ unchanged wf
  obtain ⟨-, rfl, -, built⟩ := h
  exact ⟨⟨built.grows, built.wellFormed⟩, .of_nodes rfl rfl rfl⟩

lemma releaseOne (f : Handle) : Quietly (releaseOne f) := by
  intro a wf
  refine Ends.get_bind (need_bind (fun _ => need_bind (fun _ => ?_) fun _ => unchanged wf) fun _ => unchanged wf)
  exact ⟨⟨Arena.grows_drop a f, wf.drop f⟩, .of_nodes rfl rfl rfl⟩

lemma release (fs : List Handle) : Quietly (release fs) := by
  induction fs with
  | nil => exact pure ()
  | cons f fs ih => exact bind (releaseOne f) fun _ => ih

end Quietly

lemma release_other (fs : List Handle) (a : Arena) : Ends a (release fs) (fun _ _ => True) fun e _ => e.Other := by
  induction fs generalizing a with
  | nil => exact Ends.pure trivial
  | cons f fs ih =>
    refine Ends.bind (Q := fun _ _ => True) ?_ fun _ b _ => ih b
    exact Ends.get_bind (need_bind (fun _ => need_bind (fun _ => trivial) fun _ => nofun) fun _ => nofun)

lemma outcome_holding {α : Type} (fs : List Handle) (body : Build α) (a : Arena) :
    outcome (holding fs body) a = match outcome body a with
      | (.ok r, b) => outcome (release fs >>= fun _ => pure r) b
      | (.error e, b) => outcome (release fs >>= fun _ => throw e) b := by
  have unfolded : outcome (holding fs body) a = match outcome body a with
      | (.ok r, b) => (match outcome (release fs) b with
          | (.ok (), c) => (.ok r, c)
          | (.error e, c) => (.error e, c))
      | (.error e, b) => (match outcome (release fs) b with
          | (.ok (), c) => (.error e, c)
          | (.error e, c) => (.error e, c)) := rfl
  rw [unfolded]
  rcases outcome body a with ⟨e | r, b⟩ <;> dsimp only <;> rw [outcome_bind] <;>
    rcases outcome (release fs) b with ⟨_ | ⟨⟨⟩⟩, c⟩ <;> rfl

lemma holding_ends {α : Type} {fs : List Handle} {body : Build α} {R : α → Arena → Prop}
    {E : Fault → Arena → Prop}
    (ends : Ends a body (fun r b => Ends b (release fs) (fun _ c => R r c) E)
      (fun e b => Ends b (release fs) (fun _ c => E e c) E)) :
    Ends a (holding fs body) R E := by
  have ends := Ends.iff_forall.1 ends
  unfold Ends
  rw [outcome_holding]
  rcases run : outcome body a with ⟨e | r, b⟩
  · exact Ends.bind (ends.2 e b run) fun _ _ refused => Ends.throw refused
  · exact Ends.bind (ends.1 r b run) fun _ _ returned => Ends.pure returned

namespace Orderly

lemma width (f : Handle) : Orderly (width f) :=
  (Quietly.width f).orderly

lemma retain (f : Handle) : Orderly (retain f) :=
  (Quietly.retain f).orderly

lemma release (fs : List Handle) : Orderly (release fs) :=
  (Quietly.release fs).orderly

end Orderly

namespace Quietly

lemma keeping {make : Build Handle} {rest : Handle → Build Handle} (first : Quietly make)
    (next : ∀ f, Quietly (rest f)) : Quietly (keeping make rest) := by
  refine bind first fun f a wf => ?_
  refine holding_ends ((next f a wf).mono (fun r b kept => ?_) fun e b kept => ?_)
  all_goals
    exact (release [f] b kept.1.wellFormed).mono (fun _ _ h => ⟨kept.1.trans h.1, kept.2.trans h.2⟩)
      fun _ _ h => ⟨kept.1.trans h.1, kept.2.trans h.2⟩

end Quietly

/-! ## Calls of builders -/

namespace Builder

variable {call : Builder}

lemma Change.built (wf : a.WellFormed) (change : call.Change a r b) : ∃ w v, Built a r b w v := by
  cases change with
  | took counted takes =>
    obtain ⟨n, found⟩ := Arena.exists_node_of_realized wf.isOpen (Arena.realized_of_count wf counted)
    exact ⟨_, _, Arena.built_hold wf found⟩
  | folded fits | added fits => exact ⟨_, _, Arena.built_push wf fits⟩

lemma Change.fresh (change : call.Change a r b) : ∀ w name, call = var w name → r = a.next := by
  rintro w name rfl
  cases change with
  | took counted takes => exact takes.elim
  | folded | added => rfl

lemma Adds.plain (adds : call.Adds a n) (other : ∀ w name, call ≠ var w name) : n.Plain := by
  obtain ⟨w, term⟩ := n
  unfold Node.Plain
  cases call with
  | const => exact adds.elim
  | var w name => exact absurd rfl (other w name)
  | zext f k | sext f k =>
    obtain ⟨rfl, rfl, -⟩ := adds
    exact Nat.mod_lt _ (by decide)
  | binary op f g =>
    cases op
    all_goals
      cases adds
      trivial
  | _ =>
    cases adds
    trivial

lemma Change.quiet (change : call.Change a r b) (other : ∀ w name, call ≠ var w name) : a.Quiet b := by
  cases change with
  | took => exact .of_nodes rfl rfl rfl
  | folded fits narrow => exact .push narrow rfl
  | added fits adds names => exact .push (adds.plain other) (names other)

/-- A call returned `r` and left `b` behind, as SMT-LIB has it. A variable is new. -/
structure Returns (call : Builder) (a : Arena) (r : Handle) (b : Arena) : Prop where
  typed : call.Typed a
  fresh : ∀ w name, call = var w name → r = a.next
  built : Built a r b (call.width a) (fun assign => (call.meaning a assign r).toNat)

/-- A call that returns keeps the arena in good order and, unless an extension wraps, returns what
it stands for; one that is refused changes nothing. -/
lemma run_ends (wf : a.WellFormed) (call : Builder) :
    Ends a call.run (fun r b => (a.Keeps b ∧ b.Realized r) ∧ (call.NoWrap a → call.Returns a r b))
      (fun _ b => a = b) := by
  refine (call.runs wf).mono (fun r b h => ?_) fun _ _ h => h.1
  obtain ⟨w, v, built⟩ := h.1.built wf
  refine ⟨⟨⟨built.grows, built.wellFormed⟩, built.realized⟩, fun noWrap => ?_⟩
  exact ⟨(h.2 noWrap).1, h.1.fresh, (h.2 noWrap).2⟩

lemma ends (call : Builder) (wf : a.WellFormed) (noWrap : call.NoWrap a) :
    Ends a call.run (fun r b => call.Typed a ∧ Built a r b (call.width a) fun assign => (call.meaning a assign r).toNat)
      (fun _ b => a = b) :=
  (call.runs wf).mono (fun _ _ h => h.2 noWrap) fun _ _ h => h.1

lemma orderly (call : Builder) : Orderly call.run :=
  fun _ wf => (run_ends wf call).mono (fun _ _ h => h.1.1) fun _ _ h => h ▸ Arena.Keeps.refl wf

lemma quietly (call : Builder) (other : ∀ w name, call ≠ .var w name) : Quietly call.run := by
  intro a wf
  refine ((call.orderly a wf).and (call.runs wf)).mono (fun _ _ h => ⟨h.1, h.2.1.quiet other⟩) fun _ _ h => ?_
  exact h.2.1 ▸ Quietly.unchanged wf

end Builder

/-! ## Arenas in use -/

/-- What can be asked of an arena while it is open. -/
inductive Request where
  | call (builder : Builder)
  | uaddOverflow (f g : Handle)
  | saddOverflow (f g : Handle)
  | usubOverflow (f g : Handle)
  | ssubOverflow (f g : Handle)
  | umulOverflow (f g : Handle)
  | smulOverflow (f g : Handle)
  | retain (f : Handle)
  | release (fs : List Handle)

def discarding {α : Type} (x : Build α) : Build Unit := do
  let _ ← x

namespace Request

def run : Request → Build Unit
  | call builder => discarding builder.run
  | uaddOverflow f g => discarding (Formula.uaddOverflow f g)
  | saddOverflow f g => discarding (Formula.saddOverflow f g)
  | usubOverflow f g => discarding (Formula.usubOverflow f g)
  | ssubOverflow f g => discarding (Formula.ssubOverflow f g)
  | umulOverflow f g => discarding (Formula.umulOverflow f g)
  | smulOverflow f g => discarding (Formula.smulOverflow f g)
  | retain f => discarding (Formula.retain f)
  | release fs => Formula.release fs

end Request

namespace Quietly

variable {α : Type}

lemma discarding {x : Build α} (quietly : Quietly x) : Quietly (discarding x) :=
  bind quietly fun _ => pure ()

lemma binary (op : Binary) (f g : Handle) : Quietly (binary op f g) :=
  (Builder.binary op f g).quietly nofun

lemma extract (f : Handle) (hi lo : Nat) : Quietly (extract f hi lo) :=
  (Builder.extract f hi lo).quietly nofun

lemma zext (f : Handle) (k : Nat) : Quietly (zext f k) :=
  (Builder.zext f k).quietly nofun

lemma sext (f : Handle) (k : Nat) : Quietly (sext f k) :=
  (Builder.sext f k).quietly nofun

lemma sameWidth (f g : Handle) : Quietly (sameWidth f g) :=
  bind (width f) fun _ => bind (width g) fun _ => bind (need _ _) fun _ => pure _

lemma inWider {ext : Handle → Nat → Build Handle} {test : Handle → Build Handle} {k : Nat} {op : Arith}
    (extends_ : ∀ f, Quietly (ext f k)) (tests : ∀ f, Quietly (test f)) (f g : Handle) :
    Quietly (inWider ext k op f g test) :=
  keeping (extends_ f) fun x => keeping (extends_ g) fun y => keeping (binary _ x y) tests

lemma topBitsDiffer (f : Handle) (w : Nat) : Quietly (topBitsDiffer f w) :=
  keeping (extract f w w) fun hi => keeping (extract f (w - 1) (w - 1)) fun lo => binary _ hi lo

lemma highHalfSet (f : Handle) (w : Nat) : Quietly (highHalfSet f w) :=
  keeping (extract f _ w) fun hi => keeping ((Builder.const w 0).quietly nofun) fun clear => binary _ hi clear

lemma outgrowsLowHalf (f : Handle) (w : Nat) : Quietly (outgrowsLowHalf f w) :=
  keeping (extract f (w - 1) 0) fun lo => keeping (sext lo w) fun back => binary _ f back

lemma uaddOverflow (f g : Handle) : Quietly (uaddOverflow f g) :=
  bind (sameWidth f g) fun w => inWider (zext · 1) (extract · w w) f g

lemma saddOverflow (f g : Handle) : Quietly (saddOverflow f g) :=
  bind (sameWidth f g) fun w => inWider (sext · 1) (topBitsDiffer · w) f g

lemma usubOverflow (f g : Handle) : Quietly (usubOverflow f g) :=
  bind (sameWidth f g) fun _ => binary _ f g

lemma ssubOverflow (f g : Handle) : Quietly (ssubOverflow f g) :=
  bind (sameWidth f g) fun w => inWider (sext · 1) (topBitsDiffer · w) f g

lemma umulOverflow (f g : Handle) : Quietly (umulOverflow f g) :=
  bind (sameWidth f g) fun w => inWider (zext · w) (highHalfSet · w) f g

lemma smulOverflow (f g : Handle) : Quietly (smulOverflow f g) :=
  bind (sameWidth f g) fun w => inWider (sext · w) (outgrowsLowHalf · w) f g

end Quietly

lemma Request.quietly (request : Request) (other : ∀ w name, request ≠ .call (.var w name)) :
    Quietly request.run := by
  cases request with
  | call builder =>
    refine .discarding (builder.quietly fun w name same => other w name ?_)
    rw [same]
  | uaddOverflow f g => exact .discarding (.uaddOverflow f g)
  | saddOverflow f g => exact .discarding (.saddOverflow f g)
  | usubOverflow f g => exact .discarding (.usubOverflow f g)
  | ssubOverflow f g => exact .discarding (.ssubOverflow f g)
  | umulOverflow f g => exact .discarding (.umulOverflow f g)
  | smulOverflow f g => exact .discarding (.smulOverflow f g)
  | retain f => exact .discarding (.retain f)
  | release fs => exact Quietly.release fs

lemma Request.orderly (request : Request) : Orderly request.run := by
  by_cases asked : ∃ w name, request = .call (.var w name)
  · obtain ⟨w, name, rfl⟩ := asked
    exact fun a wf => Ends.bind ((Builder.var w name).orderly a wf) fun _ _ kept => Ends.pure kept
  · exact (request.quietly fun w name same => asked ⟨w, name, same⟩).orderly

namespace Arena

def after (a : Arena) (request : Request) : Arena :=
  (outcome request.run a).2

inductive Reachable : Arena → Prop where
  | start : Reachable {}
  | step {a : Arena} (reached : Reachable a) (request : Request) : Reachable (a.after request)

lemma keeps_after (wf : a.WellFormed) (request : Request) : a.Keeps (a.after request) := by
  have ends := Ends.iff_forall.1 (request.orderly a wf)
  unfold after
  rcases run : outcome request.run a with ⟨e | r, b⟩
  · exact ends.2 e b run
  · exact ends.1 r b run

lemma Reachable.wellFormed (reached : a.Reachable) : a.WellFormed := by
  induction reached with
  | start => exact wellFormed_empty
  | step _ request ih => exact (keeps_after ih request).wellFormed

/-- **Builders mean what they say.** In an arena in use, a call that returns gives a formula with the
width and the value of the operation, applied to the operands, whether it folded constants, used
an identity or added a node; a variable is new. Formulas that were there keep their width and their
value. -/
theorem Reachable.call_means {call : Builder} (reached : a.Reachable) (noWrap : call.NoWrap a)
    (returned : outcome call.run a = (.ok r, b)) :
    call.Typed a ∧ (∀ w name, call = .var w name → ¬ a.Realized r) ∧
    b.Realized r ∧ b.widthOf r = call.width a ∧
    (∀ assign, b.eval assign r = (call.meaning a assign r).toNat) ∧
    ∀ f, a.Realized f →
      b.Realized f ∧ b.widthOf f = a.widthOf f ∧ ∀ assign, b.eval assign f = a.eval assign f := by
  have wf := reached.wellFormed
  obtain ⟨⟨kept, -⟩, returns⟩ := (Builder.run_ends wf call).ok returned
  obtain ⟨typed, fresh, built⟩ := returns noWrap
  refine ⟨typed, fun w name same there => ?_, built.realized, built.width, built.value, fun f there => ?_⟩
  · exact absurd there.2 (by rw [fresh w name same]; exact lt_irrefl _)
  · obtain ⟨n, found⟩ := exists_node_of_realized wf.isOpen there
    exact ⟨kept.grows.realized there, kept.grows.widthOf found, fun assign => eval_of_grows wf.toWellTyped kept.grows found⟩

def withX : Arena :=
  push {} ⟨8, .var "x"⟩ ((∅ : Std.HashSet String).insert "x")

lemma withX_eq : withX = ({} : Arena).after (.call (.var 8 "x")) := by
  have unused : (∅ : Std.HashSet String).contains "x" = false := Std.HashSet.contains_empty
  have named : (if "x".isEmpty || (∅ : Std.HashSet String).contains "x" then "x" ++ "#" ++ toString 1
      else "x") = "x" := by
    rw [unused]
    rfl
  show withX = push {} ⟨8, .var (if "x".isEmpty || (∅ : Std.HashSet String).contains "x" then
    "x" ++ "#" ++ toString 1 else "x")⟩ ((∅ : Std.HashSet String).insert (if "x".isEmpty ||
      (∅ : Std.HashSet String).contains "x" then "x" ++ "#" ++ toString 1 else "x"))
  rw [named]
  rfl

lemma reachable_withX : withX.Reachable :=
  withX_eq ▸ Reachable.start.step _

/-- Eight bits of a variable, filled up with their sign. -/
theorem call_means_sext : withX.Reachable ∧ (Builder.sext 1 8).NoWrap withX ∧
    ∃ b, outcome (Builder.sext 1 8).run withX = (.ok 2, b) ∧ b.widthOf 2 = 16 ∧
      ∀ assign, b.eval assign 2 = (BitVec.signExtend 16 (withX.word assign 1)).toNat := by
  have noWrap : (Builder.sext 1 8).NoWrap withX := by
    show 8 + 8 < twoPow 64
    decide
  obtain ⟨-, -, -, width, value, -⟩ := reachable_withX.call_means noWrap rfl
  exact ⟨reachable_withX, noWrap, _, rfl, width, value⟩

end Arena

end Faultline.Formula
