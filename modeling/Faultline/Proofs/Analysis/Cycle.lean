/-
# Proofs.Analysis.Cycle — which blocks the path engine refuses

With any set of edges to leave out, the path engine ends: blocks under way are
different, so it asks no deeper than there are blocks (`iterate_reachStep`). It
refuses a block with a cycle exactly if the block is `Looped`, and returns a formula
for every other (`path_refuses_iff_looped`).

The engines may have been asked before, and may have refused: every `Event` keeps
the contract `ofCaller` (`Event.keeps`). Two things can still come in between
(`Hinders`): the formula of a value is refused, or formulas of different widths meet
(`path_refuses_words`).
-/
import Faultline.Proofs.Analysis.Service

namespace Faultline.Analysis

open IR (ValueId)
open Formula (Handle)
open Relation (ReflTransGen)
open List Flow.Graph

variable {s : Setting} {b c : Bench} {block : ValueId} {i : Nat} {extra caller : Multiset Handle}

/-! ## The recursion ends -/

def reachStep (s : Setting) (reach : List Nat → Nat → Analyze Handle) (active : List Nat) (b : Nat) : Analyze Handle := do
  let f ← kept b
  if f ≠ 0 then pure f
  else if b = 0 then keep b (← build (Formula.ofBool true))
  else if active.contains b then throw (.unbrokenCycle (s.blockName b))
  else
    let f ← build (Formula.ofBool false)
    let f ← waysInto s (reach (b :: active)) b (s.graph.predsOf b) f
    keep b f

lemma reachFrom_succ (depth : Nat) : reachFrom s (depth + 1) = reachStep s (reachFrom s depth) := rfl

lemma waysInto_congr {reach reach' : Nat → Analyze Handle} (target : Nat) (preds : List Nat)
    (same : ∀ p ∈ preds, s.cut.has p target = false → reach p = reach' p) (f : Handle) :
    waysInto s reach target preds f = waysInto s reach' target preds f := by
  induction preds generalizing f with
  | nil => rfl
  | cons p preds ih =>
    have rest := ih fun q listed => same q (mem_cons_of_mem p listed)
    unfold waysInto
    split
    · exact rest f
    next uncut =>
      rw [same p mem_cons_self (Bool.eq_false_iff.2 uncut)]
      simp only [rest]

lemma reachStep_congr {reach reach' : List Nat → Nat → Analyze Handle} {active : List Nat}
    (same : i ≠ 0 → i ∉ active → ∀ p ∈ s.graph.predsOf i, s.cut.has p i = false →
      reach (i :: active) p = reach' (i :: active) p) :
    reachStep s reach active i = reachStep s reach' active i := by
  unfold reachStep
  by_cases entry : i = 0
  · simp only [entry, if_true]
  by_cases again : active.contains i = true
  · simp only [again, if_true]
  · simp only [waysInto_congr i _ (same entry (by simpa using again))]

lemma iterate_reachStep {fn : IR.Func} (graph : ofFunc s.module fn = .ok s.graph)
    (stop : List Nat → Nat → Analyze Handle) {root depth : Nat} {active : List Nat}
    (descent : Descent s root depth active i) : (reachStep s)^[depth] stop active i = reachFrom s depth active i := by
  induction depth generalizing active i with
  | zero => exact descent.not_zero.elim
  | succ depth ih =>
    rw [Function.iterate_succ_apply', reachFrom_succ]
    refine reachStep_congr fun inner fresh p listed uncut => ?_
    have edge := (mem_predsOf graph descent.below).1 listed
    exact ih (descent.cons inner fresh ⟨edge, uncut⟩ (lt_of_mem_succsOf graph edge))

def lookupStep (s : Setting) (look : ValueId → Analyze Handle) (v : ValueId) : Analyze Handle := do
  match (← get).values.bind (List.lookup v) with
  | some f => pure f
  | none =>
    let f ← express s look v
    match (← get).values with
    | some _ =>
      modify fun b => { b with values := b.values.map ((v, f) :: ·) }
      pure f
    | none => throw .engineClosed

lemma lookupFrom_succ (depth : Nat) : lookupFrom s (depth + 1) = lookupStep s (lookupFrom s depth) := rfl

section Looking

variable {look look' : ValueId → Analyze Handle} {v : ValueId}

lemma lift_bind {α β : Type} (m : Except Fault α) (k : α → Analyze β) :
    (liftM m >>= k) = match m with
      | .ok r => k r
      | .error e => throw e := by
  cases m <;> rfl

lemma steps_congr {indices : List ValueId} (same : ∀ x ∈ indices.filter (isComputed s.module), look x = look' x)
    (owner : ValueId) (fields : LogFields) (isFirst : Bool) (t : IR.Ty) (addr : Handle) (offset : Int) :
    steps s look owner fields indices isFirst t addr offset = steps s look' owner fields indices isFirst t addr offset := by
  induction indices generalizing isFirst t addr offset with
  | nil => rfl
  | cons v vs ih =>
    have rest := ih fun x listed => same x (mem_filter.2 ⟨.tail v (mem_filter.1 listed).1, (mem_filter.1 listed).2⟩)
    unfold steps
    refine bind_congr fun stride => ?_
    cases stride with
    | field o t => exact rest false t addr _
    | elements e =>
      dsimp only
      rw [lift_bind, lift_bind]
      rcases read : constIndex s.module v with e | _ | i
      · rfl
      · have here : look v = look' v := same v (mem_filter.2 ⟨.head vs, by simp [isComputed, read]⟩)
        simp only [pointerIndex, here, rest]
      · simp only [rest]

lemma address_congr {elem : IR.Ty} {base : ValueId} {indices : List ValueId}
    (same : ∀ x ∈ base :: indices.filter (isComputed s.module), look x = look' x) :
    address s look v elem base indices = address s look' v elem base indices := by
  have inner := steps_congr fun x listed => same x (.tail base listed)
  unfold address
  simp only [same base (.head _), inner]

lemma ofInst_congr {i : IR.Inst ValueId} (same : ∀ x ∈ instDemands s i, look x = look' x) :
    ofInst s look v i = ofInst s look' v i := by
  cases i with
  | arith | select =>
    simp only [instDemands, mem_cons, not_mem_nil, or_false, forall_eq_or_imp, forall_eq] at same
    simp only [ofInst, binary, same]
  | icmp pred =>
    cases pred with
    | known =>
      simp only [instDemands, mem_cons, not_mem_nil, or_false, forall_eq_or_imp, forall_eq] at same
      simp only [ofInst, binary, same]
    | unknown => rfl
  | gep => exact address_congr same
  | cast op x =>
    cases op with
    | trunc | zext | sext | ptrtoint | inttoptr => simp only [ofInst, extend, reinterpret, same x (.head _)]
    | bitcast =>
      unfold ofInst
      unfold instDemands at same
      dsimp only at same ⊢
      revert same
      rcases s.width? (s.module.typeOf x) with _ | w
      · exact fun _ => rfl
      · exact fun same => by simp only [same x (.head _)]
    | fptrunc | fpext | fptoui | fptosi | uitofp | sitofp | addrspacecast => rfl
  | extractValue | phi | call | other => rfl

lemma express_congr (same : ∀ x ∈ demands s v, look x = look' x) : express s look v = express s look' v := by
  unfold express
  unfold demands at same
  revert same
  rcases s.width? (s.module.typeOf v) with _ | w
  · exact fun _ => rfl
  · dsimp only [Option.isSome_some]
    rw [if_pos rfl]
    rcases s.module.get? v with _ | ⟨_ | _ | _ | _ | ⟨t, k⟩ | _ | _ | _⟩
    case some.inst => exact fun same => ofInst_congr same
    case some.const =>
      cases k with
      | gep => exact fun same => address_congr same
      | int | null | undef | other => exact fun _ => rfl
    all_goals exact fun _ => rfl

/-- The look-up of a grounded value never comes to its last level either. -/
lemma iterate_lookupStep (stop : ValueId → Analyze Handle) {depth depth' : Nat} (grounded : Grounded s v)
    (deep : Deep s depth v) (deep' : Deep s depth' v) : (lookupStep s)^[depth] stop v = lookupFrom s depth' v := by
  induction depth generalizing v depth' with
  | zero => exact absurd deep.pos (lt_irrefl 0)
  | succ depth ih =>
    obtain ⟨depth', rfl⟩ : ∃ d, depth' = d + 1 := ⟨depth' - 1, by have := deep'.pos; omega⟩
    have same := express_congr fun x demanded => ih (grounded.inv demanded) (deep.next grounded.not_needs demanded)
      (deep'.next grounded.not_needs demanded)
    rw [Function.iterate_succ_apply', lookupFrom_succ, lookupStep, lookupStep, same]

end Looking

/-! ## What the engines keep -/

/-- What the engines and the caller rely on: the references of the caller are held, no looped block has a formula,
and only formulas of values are negated. -/
def ofCaller (s : Setting) (caller : Multiset Handle) : Contract where
  base := caller
  fit := fun i => ¬ Looped s i
  sure := True

lemma spreads_ofCaller (s : Setting) (caller : Multiset Handle) : Spreads (ofCaller s caller) s where
  entry := fun looped => looped.ne_zero rfl
  block := fun _ _ fits looped => by
    obtain ⟨p, before, inner⟩ := looped.exists_pred
    exact fits p inner.1 before

lemma Holds.rebase {caller' extra' : Multiset Handle} (holds : Holds (ofCaller s caller) s b extra)
    (same : caller + extra = caller' + extra') : Holds (ofCaller s caller') s b extra' where
  toBalanced := by
    have balanced := holds.toBalanced
    unfold ofCaller at balanced ⊢
    rwa [same] at balanced
  fit := holds.fit

inductive Ask where
  | value (v : ValueId)
  | condition (call : ValueId)
  | path (block : ValueId)

def Ask.run (s : Setting) : Ask → Analyze Handle
  | value v => Analysis.value s v
  | condition call => conditionOf s call
  | path block => Analysis.path s block

/-- A request that was granted or refused, or references given back. Beside the bench stand the references that are
the caller's. -/
inductive Event (s : Setting) : Bench × Multiset Handle → Bench × Multiset Handle → Prop where
  | granted {b c : Bench} {caller : Multiset Handle} {r : Handle} (ask : Ask)
      (ran : outcome (ask.run s) b = (.ok r, c)) : Event s (b, caller) (c, r ::ₘ caller)
  | refused {b c : Bench} {caller : Multiset Handle} {e : Fault} (ask : Ask)
      (ran : outcome (ask.run s) b = (.error e, c)) : Event s (b, caller) (c, caller)
  | release {b c : Bench} {caller : Multiset Handle} {fs : List Handle}
      (ran : outcome (build (Formula.release fs)) b = (.ok (), c)) : Event s (b, ↑fs + caller) (c, caller)

/-- What can come in between: the formula of a value is refused, or formulas of different widths meet. -/
inductive Hinders (s : Setting) (e : Fault) (b c : Bench) : Prop where
  | value {v : ValueId} (refused : outcome (lookup s v) b = (.error e, c)) (other : e.Other)
  | widths {op : Formula.Binary} {f g : Handle} (differ : b.arena.widthOf f ≠ b.arena.widthOf g)
      (said : e = .binaryWidths op (b.arena.widthOf f) (b.arena.widthOf g))

lemma Hinders.other {e : Fault} (hinders : Hinders s e b c) : e.Other := by
  cases hinders with
  | value _ other => exact other
  | widths _ said =>
    rw [said]
    exact nofun

def Refuses (s : Setting) (i : Nat) (e : Fault) (b c : Bench) : Prop :=
  (∃ name, e = .unbrokenCycle name) ∧ Looped s i ∨ Hinders s e b c

lemma fair_refuses (s : Setting) (caller : Multiset Handle) (i : Nat) : Fair (ofCaller s caller) s i (Refuses s i) where
  look := fun refused other => .inr (.value refused other)
  widths := fun differ => .inr (.widths differ rfl)
  cycle := fun looped => .inl ⟨⟨_, rfl⟩, looped⟩
  unsure := fun unsure => absurd trivial unsure

/-! ## Events -/

section Events

variable {fn : IR.Func} (graph : ofFunc s.module fn = .ok s.graph)

include graph

lemma path_serves_caller (found : s.graph.indexOf s.module block = .ok i) (holds : Holds (ofCaller s caller) s b extra) :
    Ends b (path s block)
      (fun r c => Stays (fun _ => False) b c ∧ Holds (ofCaller s caller) s c (r ::ₘ extra) ∧ c.pathOf i = r ∧ r ≠ 0)
      (fun e c => (∃ left, Holds (ofCaller s caller) s c left) ∧ ∃ d, b.Grows d ∧ Refuses s i e d c) :=
  path_serves graph (fair_refuses s caller i) (spreads_ofCaller s caller) found holds

lemma Ask.leaves (ask : Ask) (holds : Holds (ofCaller s caller) s b extra) :
    Ends b (ask.run s) (fun r c => Holds (ofCaller s caller) s c (r ::ₘ extra))
      (fun _ c => ∃ left, Holds (ofCaller s caller) s c left) := by
  cases ask with
  | value v => exact (value_pays v holds).mono (fun _ _ h => h.1) fun _ _ h => h.1
  | condition call => exact (conditionOf_accounts call holds).imp fun _ _ h => h.1
  | path block =>
    rcases found : s.graph.indexOf s.module block with e | i
    · show Ends b (Analysis.path s block) _ _
      unfold Analysis.path
      rw [found]
      exact Ends.throw ⟨extra, holds⟩
    · exact (path_serves_caller graph found holds).mono (fun _ _ h => h.2.1) fun _ _ h => h.1

lemma Event.keeps {p q : Bench × Multiset Handle} (event : Event s p q)
    (before : ∃ left, Holds (ofCaller s p.2) s p.1 left) : ∃ left, Holds (ofCaller s q.2) s q.1 left := by
  obtain ⟨left, holds⟩ := before
  cases event with
  | granted ask ran =>
    have after := (ask.leaves graph holds).ok ran
    exact ⟨left, after.rebase (by rw [Multiset.add_cons, Multiset.cons_add])⟩
  | refused ask ran => exact (Ends.iff_forall.1 (ask.leaves graph holds)).2 _ _ ran
  | @release b c caller fs ran =>
    have held : Holds (ofCaller s (↑fs + caller)) s b left := holds
    have mine : Holds (ofCaller s caller) s b (↑fs + left) := held.rebase (by abel)
    exact ⟨left, ((mine.release left rfl).ok ran).1⟩

lemma keeps_of_events (events : ReflTransGen (Event s) (s.start, 0) (b, caller)) :
    ∃ left, Holds (ofCaller s caller) s b left := by
  have start : ∃ left, Holds (ofCaller s 0) s s.start left :=
    ⟨0, balanced_start s, fun i some => absurd (pathOf_start s i) some⟩
  have all : ∀ q, ReflTransGen (Event s) (s.start, 0) q → ∃ left, Holds (ofCaller s q.2) s q.1 left := by
    intro q events
    induction events with
    | refl => exact start
    | tail _ event ih => exact event.keeps graph ih
  exact all _ events

lemma path_ends (found : s.graph.indexOf s.module block = .ok i) (holds : Holds (ofCaller s caller) s b extra) :
    Ends b (path s block) (fun _ _ => ¬ Looped s i) (fun e c => ∃ d, b.Grows d ∧ Refuses s i e d c) := by
  refine (path_serves_caller graph found holds).mono (fun r c h => ?_) fun _ _ h => h.2
  obtain ⟨-, holds, place, some⟩ := h
  exact holds.fit i (place ▸ some)

end Events

/-- The request for a block was hindered after it had set out from `b`. -/
def Hindered (s : Setting) (block : ValueId) (b : Bench) : Prop :=
  ∃ e c d, outcome (path s block) b = (.error e, c) ∧ b.Grows d ∧ Hinders s e d c

lemma not_hindered {name : String} (refused : outcome (path s block) b = (.error (.unbrokenCycle name), c)) :
    ¬ Hindered s block b := by
  rintro ⟨e, c', d, again, -, hinders⟩
  cases refused.symm.trans again
  exact hinders.other name rfl

/-- **Cycles are refused exactly.** Whatever edges are left out, and whatever happened before: the recursion over the
blocks ends on its own, and a request for a block that nothing hinders is refused with a cycle exactly if a cycle that
avoids the entry leads to the block by a path that avoids it. A formula is returned for every other block. -/
theorem path_refuses_iff_looped {fn : IR.Func} (graph : Flow.Graph.ofFunc s.module fn = .ok s.graph)
    (events : ReflTransGen (Event s) (s.start, 0) (b, caller)) (found : s.graph.indexOf s.module block = .ok i) :
    (∀ stop, (reachStep s)^[s.graph.size + 1] stop [] i = reachFrom s (s.graph.size + 1) [] i) ∧
    (¬ Hindered s block b →
      ((∃ name c, outcome (path s block) b = (.error (.unbrokenCycle name), c)) ↔ i ≠ 0 ∧ Looped s i) ∧
      (¬ (i ≠ 0 ∧ Looped s i) → ∃ r c, outcome (path s block) b = (.ok r, c))) := by
  obtain ⟨left, holds⟩ := keeps_of_events graph events
  have below := (Flow.Graph.of_indexOf graph found).1
  refine ⟨fun stop => iterate_reachStep graph stop (.start below), fun free => ?_⟩
  have ends := path_ends graph found holds
  rcases ran : outcome (path s block) b with ⟨e | r, c⟩
  · have why := (Ends.iff_forall.1 ends).2 e c ran
    obtain ⟨d, grows, ⟨⟨name, rfl⟩, looped⟩ | hinders⟩ := why
    swap
    · exact absurd ⟨e, c, d, ran, grows, hinders⟩ free
    have both : i ≠ 0 ∧ Looped s i := ⟨looped.ne_zero, looped⟩
    exact ⟨⟨fun _ => both, fun _ => ⟨name, c, rfl⟩⟩, fun none => absurd both none⟩
  · have unlooped := ends.ok ran
    refine ⟨⟨?_, fun both => absurd both.2 unlooped⟩, fun _ => ⟨r, c, rfl⟩⟩
    rintro ⟨name, c, same⟩
    cases same

def unbroken : Setting :=
  { loop with cut := {} }

lemma path_unbroken : path unbroken 5 = reachFrom unbroken 4 [] 2 >>= fun f => build (Formula.retain f) := by
  unfold path
  rw [show unbroken.graph = loop.graph from rfl, indexOf, loop_index.1]
  rfl

/-- The end of the loop is refused, and refused again from the bench that the first request left, with references that
nobody gives back. -/
theorem path_refuses_iff_looped_unbroken : Flow.Graph.ofFunc unbroken.module loopFunc = .ok unbroken.graph ∧
    ∃ b, ReflTransGen (Event unbroken) (unbroken.start, 0) (b, 0) ∧ 0 < b.arena.live ∧ ¬ Hindered unbroken 5 b ∧
      2 ≠ 0 ∧ Looped unbroken 2 := by
  let b := (outcome (path unbroken 5) unbroken.start).2
  have left : 0 < b.arena.live := by
    unfold b
    rw [path_unbroken]
    decide +kernel
  have first : (outcome (path unbroken 5) unbroken.start).1 = .error (.unbrokenCycle (unbroken.blockName 1)) := by
    rw [path_unbroken]
    decide +kernel
  have second : (outcome (path unbroken 5) b).1 = .error (.unbrokenCycle (unbroken.blockName 1)) := by
    unfold b
    rw [path_unbroken]
    decide +kernel
  have events : ReflTransGen (Event unbroken) (unbroken.start, 0) (b, 0) :=
    .single (.refused (.path 5) (Prod.ext first rfl))
  have again : outcome (path unbroken 5) b = (.error (.unbrokenCycle (unbroken.blockName 1)), _) := Prod.ext second rfl
  have free := not_hindered again
  have found : unbroken.graph.indexOf unbroken.module 5 = .ok 2 := by
    rw [show unbroken.graph = loop.graph from rfl, Flow.Graph.indexOf, loop_index.1]
  have graph : Flow.Graph.ofFunc unbroken.module loopFunc = .ok unbroken.graph := loop_graph
  have looped := ((path_refuses_iff_looped graph events found).2 free).1.1 ⟨_, _, again⟩
  exact ⟨graph, b, events, left, free, looped⟩

/-! ## Branches on words -/

/-- A function that branches on a word of 32 bits to one of two ends. -/
def wordFunc : IR.Func where
  id := 0
  name := []
  result := .void
  params := [⟨3, ""⟩]
  blocks := #[⟨4, #[], some 7⟩, ⟨5, #[], some 8⟩, ⟨6, #[], some 9⟩]

def word32 : Setting where
  module :=
    { defs := IR.shared ++ #[.param (.number 0) (.int 32), .block (.number 1), .block (.number 2), .block (.number 3),
        .term (.number 0) .void (.condBr 3 5 6) [], .term (.number 0) .void (.ret none) [],
        .term (.number 0) .void (.ret none) []] }
  layout := {}
  graph :=
    { func := wordFunc
      index := numbering wordFunc
      preds := #[[], [0], [0]]
      succs := #[[1, 2], [], []]
      ids := (((∅ : Std.HashMap ValueId Nat).insert 7 0).insert 8 1).insert 9 2
      blockOf := #[0, 1, 2] }
  cut := {}

lemma word32_index : word32.graph.index[5]? = some 1 ∧ word32.graph.index[6]? = some 2 := by
  have unfolded : word32.graph.index = (((∅ : Std.HashMap ValueId Nat).insert 4 0).insert 5 1).insert 6 2 := rfl
  rw [unfolded]
  constructor <;> simp only [Std.HashMap.getElem?_insert] <;> rfl

lemma word32_graph : ofFunc word32.module wordFunc = .ok word32.graph := by
  obtain ⟨left, right⟩ := word32_index
  refine ofFunc_of_blocks rfl (foldlM_cons_ok (addBlock_ok.2 ⟨[1, 2], .cons left (.cons right .nil), rfl⟩) ?_)
  refine foldlM_cons_ok (addBlock_ok.2 ⟨[], .nil, rfl⟩) ?_
  exact foldlM_cons_ok (addBlock_ok.2 ⟨[], .nil, rfl⟩) rfl

/-- The condition has its formula, and there is no cycle, but neither end has a formula: the condition has 32 bits. -/
theorem path_refuses_words : Flow.Graph.ofFunc word32.module wordFunc = .ok word32.graph ∧
    word32.graph.indexOf word32.module 5 = .ok 1 ∧ (∃ f c, outcome (lookup word32 3) word32.start = (.ok f, c)) ∧
    ¬ Looped word32 1 ∧ ∃ c, outcome (path word32 5) word32.start = (.error (.binaryWidths (.arith .and) 32 1), c) := by
  have found : word32.graph.indexOf word32.module 5 = .ok 1 := by
    rw [Flow.Graph.indexOf, word32_index.1]
  have looked : (outcome (lookup word32 3) word32.start).1.isOk = true := by decide +kernel
  have unfolded : path word32 5 = reachFrom word32 4 [] 1 >>= fun f => build (Formula.retain f) := by
    unfold path
    rw [found]
    rfl
  have refused : (outcome (path word32 5) word32.start).1 = .error (.binaryWidths (.arith .and) 32 1) := by
    rw [unfolded]
    decide +kernel
  refine ⟨word32_graph, found, ?_, ?_, _, Prod.ext refused rfl⟩
  · rcases ran : outcome (lookup word32 3) word32.start with ⟨e | f, c⟩
    · rw [ran] at looked
      cases looked
    · exact ⟨f, c, rfl⟩
  · intro looped
    obtain ⟨i, -, ⟨edge, -⟩, inner, -⟩ := looped.exists_pred
    have below : i < 3 := Flow.Graph.lt_of_mem_succsOf word32_graph edge
    interval_cases i
    · exact inner rfl
    · exact absurd edge (by decide +kernel)
    · exact absurd edge (by decide +kernel)

/-! ## Values that are defined through themselves -/

/-- `v` needs a value that is needed for what it demands itself. -/
def Circular (s : Setting) (v : ValueId) : Prop :=
  ∃ x, Needs s v x ∧ ∃ y ∈ demands s x, Needs s y x

lemma not_circular_iff {v : ValueId} : ¬ Circular s v ↔ Grounded s v := by
  rw [grounded_iff]
  simp [Circular]

/-- **Values are looked up to an end, unless they are defined through themselves.** Whatever happened before: the
recursion over the operands of a value ends on its own, no deeper than there are values, unless the value needs one
that is defined through itself. Such a value has a formula at no depth. No value ever gets a second entry. -/
theorem lookup_ends_iff {fn : IR.Func} (graph : Flow.Graph.ofFunc s.module fn = .ok s.graph)
    (events : ReflTransGen (Event s) (s.start, 0) (b, caller)) (v : ValueId) :
    (¬ Circular s v → ∀ stop depth, s.module.defs.size < depth → (lookupStep s)^[depth] stop v = lookup s v) ∧
    (Circular s v → ∀ depth, ∃ e c, outcome (lookupFrom s depth v) b = (.error e, c)) ∧
    (((outcome (lookup s v) b).2.values.getD []).map Prod.fst).Nodup := by
  obtain ⟨left, holds⟩ := keeps_of_events graph events
  refine ⟨fun free stop depth enough => ?_, fun circular depth => ?_, ?_⟩
  · exact iterate_lookupStep stop (not_circular_iff.1 free) (.start enough) (.start (Nat.lt_succ_self _))
  · exact lookupFrom_refused (fun grounded => not_circular_iff.2 grounded circular) holds.toSound depth
  · have pays := Ends.iff_forall.1 (lookup_borrows v holds)
    rcases ran : outcome (lookup s v) b with ⟨e | r, c⟩
    · obtain ⟨⟨left, holds⟩, -⟩ := pays.2 e c ran
      exact holds.entries
    · exact (pays.1 r c ran).1.entries

theorem lookup_ends_iff_loop : Flow.Graph.ofFunc loop.module loopFunc = .ok loop.graph ∧ ¬ Circular loop IR.trueId ∧
    ∀ stop depth, 9 < depth → (lookupStep loop)^[depth] stop IR.trueId = lookup loop IR.trueId := by
  have free : ¬ Circular loop IR.trueId := not_circular_iff.2 (.intro _ nofun)
  exact ⟨loop_graph, free, (lookup_ends_iff loop_graph .refl IR.trueId).1 free⟩

/-- A value that is one more than itself, as dead code may have it. -/
def incremented : Setting where
  module := { defs := #[.inst (.number 0) (.int 32) (.arith .add [] 0 1) [], .const (.int 32) (.int 1)] }
  layout := {}
  graph := { func := { id := 0, name := [], result := .void, params := [] } }
  cut := {}

/-- However deep it is looked for, the value has no end. -/
theorem lookup_endless : Circular incremented 0 ∧
    ∀ depth, outcome (lookupFrom incremented depth 0) incremented.start = (.error .endless, incremented.start) := by
  refine ⟨⟨0, .refl, 0, by decide, .refl⟩, fun depth => ?_⟩
  induction depth with
  | zero => rfl
  | succ depth ih =>
    show outcome (binary (lookupFrom incremented depth) _ 0 1 >>= _) incremented.start = _
    rw [outcome_bind, binary, outcome_bind, ih]

end Faultline.Analysis
