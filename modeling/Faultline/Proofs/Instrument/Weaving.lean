/-
# Proofs.Instrument.Weaving — groups of guards between the instructions of a block

`Before m c g v group` says what stands before an instruction `v` of `m` in the
instrumented module `c`: nothing unless `v` is guarded, and otherwise the guards
against what can go wrong at `v`. `Woven` puts these groups between the instructions
of a block: without the new instructions the block is what it was (`Woven.removed`),
and after a new call of a sentinel comes the instruction it guards (`Woven.next`).
`blocks` weaves block after block as far as it goes (`blocks_weave`).
-/
import Faultline.Check.Report
import Faultline.Proofs.Instrument.Guards

namespace Faultline.Instrument

open IR (Module ValueId Func Block)
open Faultline.Flow (Graph)
open Check (Kind)
open List

variable {m c c' before : Module} {g : Graph} {f : Func} {v : ValueId} {h : Hazard} {s : Draft} {group : List ValueId}
  {R : ValueId → List ValueId → Prop}

/-! ## What is guarded -/

/-- The operations that can make an error of a kind. -/
def operations : Kind → List Formula.Arith
  | .overflow => [.add, .sub, .mul]
  | .shift => [.shl, .lshr, .ashr]
  | .division => [.udiv, .sdiv]
  | .other _ => []

/-- The value is such an operation, on plain integers. -/
def Computes (m : Module) (v : ValueId) (k : Kind) : Prop :=
  ∃ name type op flags x y trail bits, m.get? v = some (.inst name type (.arith op flags x y) trail) ∧
    m.resolve (m.typeOf x) = .int bits ∧ op ∈ operations k

/-- An instruction that gets a group of guards. -/
def Guarded (m : Module) (g : Graph) (v : ValueId) : Prop :=
  Computes m v .shift ∨ Computes m v .division ∨ Computes m v .overflow ∧ observable m g v = .ok true

def hazardOf (m : Module) (v : ValueId) : Option Hazard :=
  match m.get? v with
  | some (.inst _ _ i _) => hazard? m i
  | _ => none

def Hazard.kind : Hazard → Kind
  | .overflow _ _ _ _ _ => .overflow
  | .shift _ _ _ => .shift
  | .zeroDivisor _ _ | .signedDivision _ _ _ _ => .division

/-- The operations of a kind are those whose hazards are of that kind. -/
lemma computes_iff {k : Kind} : Computes m v k ↔ ∃ h, hazardOf m v = some h ∧ h.kind = k := by
  constructor
  · rintro ⟨name, type, op, flags, x, y, trail, bits, found, int, mem⟩
    unfold hazardOf hazard?
    rw [found]
    dsimp only
    rw [int]
    cases k <;> cases op <;> simp_all [operations, Hazard.kind]
  · rintro ⟨h, hazard, rfl⟩
    unfold hazardOf at hazard
    split at hazard
    next name type i trail found =>
      cases i with
      | arith op flags x y =>
        unfold hazard? at hazard
        dsimp only at hazard
        split at hazard
        next bits int =>
          refine ⟨name, type, op, flags, x, y, trail, bits, found, int, ?_⟩
          cases op <;> cases hazard <;> simp [operations, Hazard.kind]
        next => cases hazard
      | _ => cases hazard
    next => cases hazard

lemma ofValue_of_hazardOf (alike : m.Alike c) (hazard : hazardOf m v = some h) : Kind.ofValue c v = h.kind := by
  obtain ⟨name, type, op, flags, x, y, trail, bits, found, -, mem⟩ := computes_iff.2 ⟨h, hazard, rfl⟩
  obtain ⟨name', there⟩ := alike.inst found
  unfold Kind.ofValue
  rw [there]
  cases h <;> cases op <;> simp_all [operations, Hazard.kind]

lemma Alike.hazardOf_eq (alike : m.Alike c) (closed : m.Closed) (inside : v < m.defs.size) :
    hazardOf c v = hazardOf m v := by
  obtain ⟨d, n, here, there⟩ := alike.renamed inside
  unfold hazardOf
  rw [here, there]
  cases d with
  | inst n t i trail => exact Alike.hazard?_eq alike closed (closed.reads v _ here)
  | _ => rfl

/-! ## Roles and counters -/

/-- What an instruction is counted as. -/
inductive Role where
  | overflow | shift | division | unobservable

def Plays (m : Module) (g : Graph) (v : ValueId) : Role → Prop
  | .overflow => Computes m v .overflow ∧ observable m g v = .ok true
  | .shift => Computes m v .shift
  | .division => Computes m v .division
  | .unobservable => Computes m v .overflow ∧ observable m g v = .ok false

namespace Role

def count : Role → InsertTally → Int
  | overflow, t => t.overflow
  | shift, t => t.shift
  | division, t => t.division
  | unobservable, t => t.unobservable

@[simp] lemma count_add (r : Role) (t u : InsertTally) : r.count (t.add u) = countSum (r.count t) (r.count u) := by
  cases r <;> rfl

@[simp] lemma count_empty (r : Role) : r.count {} = 0 := by
  cases r <;> rfl

end Role

/-! ## Groups -/

/-- What stands before an instruction. -/
inductive Before (m c : Module) (g : Graph) (v : ValueId) : List ValueId → Prop where
  | none (free : ¬ Guarded m g v) : Before m c g v []
  | guards {h : Hazard} {before : List ValueId} {call : ValueId} (due : Guarded m g v)
      (hazard : hazardOf m v = some h) (guards : Guards c h (before ++ [call]))
      (last : Sentinel.isCall c call = true) (others : ∀ u ∈ before, Sentinel.isCall c u = false)
      (fresh : ∀ u ∈ before ++ [call], m.defs.size ≤ u) : Before m c g v (before ++ [call])

lemma Before.of_guards (due : Guarded m g v) (hazard : hazardOf m v = some h) (guards : Guards c h group)
    (fresh : ∀ u ∈ group, m.defs.size ≤ u) : Before m c g v group := by
  obtain ⟨front, call, rfl, last, others⟩ := guards.ends
  exact .guards due hazard guards last others fresh

lemma Before.alike (isGroup : Before m c g v group) (alike : c.Alike c') : Before m c' g v group := by
  cases isGroup with
  | none free => exact .none free
  | guards due hazard guards last others fresh => exact .of_guards due hazard (guards.alike alike) fresh

lemma Before.fresh (isGroup : Before m c g v group) : ∀ u ∈ group, m.defs.size ≤ u := by
  cases isGroup with
  | none free =>
    intro u mem
    cases mem
  | guards due hazard guards last others fresh => exact fresh

lemma Before.last_isCall (isGroup : Before m c g v group) {front later : List ValueId} {call : ValueId}
    (split : group = front ++ call :: later) (isCall : Sentinel.isCall c call = true) :
    later = [] ∧ ∃ h, Guarded m g v ∧ hazardOf m v = some h ∧ Guards c h (front ++ [call]) := by
  cases isGroup with
  | none free => simp at split
  | @guards h others last due hazard guards _ noCall _ =>
    rcases eq_nil_or_concat later with rfl | ⟨later, w, rfl⟩
    · exact ⟨rfl, h, due, hazard, split ▸ guards⟩
    · have earlier : others = front ++ call :: later := by
        have regrouped : others ++ [last] = (front ++ call :: later) ++ [w] := by simpa using split
        exact append_inj_left' regrouped rfl
      have mem : call ∈ others := by simp [earlier]
      rw [noCall call mem] at isCall
      cases isCall

/-- The instruction cannot be judged, or cannot be guarded. -/
def Unfit (m : Module) (g : Graph) (v : ValueId) : Prop :=
  ∃ h, hazardOf m v = some h ∧ (h.Signless ∨ h.kind = .overflow ∧ ∃ e, observable m g v = .error e)

lemma guardsOf_eq (m : Module) (g : Graph) (v : ValueId) : guardsOf m g v =
    (match hazardOf m v with
    | none => pure ([], {})
    | some h => do
      if h.kind = .overflow then
        if ← observable m g v then pure (← guard g.func.name h, h.tally)
        else pure ([], { unobservable := 1 })
      else pure (← guard g.func.name h, h.tally)) := by
  unfold guardsOf hazardOf
  cases m.get? v with
  | none => rfl
  | some d =>
    cases d with
    | inst name type i trail =>
      dsimp only
      cases hazard? m i with
      | none => rfl
      | some h => cases h <;> rfl
    | _ => rfl

lemma observe_builds {E : Fault → Prop} {answer : Except Fault Bool} {α : Type} {next : Bool → Insert α}
    {Q : α → Module → Prop} (refused : ∀ e, answer = .error e → E e)
    (answered : ∀ b, answer = .ok b → Builds E s (next b) Q) : Builds E s (liftM answer >>= next) Q := by
  cases answer with
  | error e =>
    have thrown := Builds.throw (s := s) (Q := Q) (refused e rfl)
    exact thrown
  | ok b =>
    have continues := answered b rfl
    exact continues

lemma computes_kind (hazard : hazardOf m v = some h) (k : Kind) : Computes m v k ↔ h.kind = k := by
  simp [computes_iff, hazard]

lemma guarded_of_hazard (hazard : hazardOf m v = some h) (judged : h.kind = .overflow → observable m g v = .ok true) :
    Guarded m g v := by
  unfold Guarded
  simp only [computes_kind hazard]
  cases h with
  | overflow op withSign t x y => exact .inr (.inr ⟨rfl, judged rfl⟩)
  | shift t bits y => exact .inl rfl
  | zeroDivisor t y => exact .inr (.inl rfl)
  | signedDivision t bits x y => exact .inr (.inl rfl)

open Classical in
lemma count_tally (hazard : hazardOf m v = some h) (judged : h.kind = .overflow → observable m g v = .ok true)
    (role : Role) : role.count h.tally = if Plays m g v role then 1 else 0 := by
  have kinds := computes_kind hazard
  cases h <;> cases role <;> simp_all [Plays, Hazard.kind, Hazard.tally, Role.count]

open Classical in
lemma guardsOf_builds (alike : m.Alike before) (closed : m.Closed) (listed : f ∈ m.funcs)
    (graph : Graph.ofFunc m f = .ok g) (inside : v < m.defs.size) (grown : m.defs.size ≤ s.module.defs.size) :
    Builds (fun _ => Unfit m g v) s (guardsOf before g v) fun r c =>
      Adds s.module c r.1 ∧ Before m c g v r.1 ∧
        ∀ role : Role, role.count r.2 = if Plays m g v role then 1 else 0 := by
  rw [guardsOf_eq, Alike.hazardOf_eq alike closed inside]
  cases hazard : hazardOf m v with
  | none =>
    have free : ¬ Guarded m g v := by simp [Guarded, computes_iff, hazard]
    refine Builds.pure ⟨.nil _, .none free, fun role => ?_⟩
    cases role <;> simp [Plays, computes_iff, hazard]
  | some h =>
    have guarding : (h.kind = .overflow → observable m g v = .ok true) →
        Builds (fun _ => Unfit m g v) s (do pure (← guard g.func.name h, h.tally)) fun r c =>
          Adds s.module c r.1 ∧ Before m c g v r.1 ∧
            ∀ role : Role, role.count r.2 = if Plays m g v role then 1 else 0 := by
      intro judged
      have built := (guard_builds g.func.name h s).refusals fun _ signless =>
        show Unfit m g v from ⟨h, hazard, .inl signless⟩
      refine Builds.bind built fun group s' _ made => Builds.pure ⟨made.1, ?_, count_tally hazard judged⟩
      have fresh : ∀ u ∈ group, m.defs.size ≤ u := fun u mem => grown.trans (made.1.rises.mem mem).1
      exact .of_guards (guarded_of_hazard hazard judged) hazard made.2 fresh
    dsimp only
    by_cases overflow : h.kind = .overflow
    · rw [if_pos overflow, Alike.observable_eq alike closed listed graph]
      refine observe_builds (fun e judged => ⟨h, hazard, .inr ⟨overflow, e, judged⟩⟩) fun b judged => ?_
      cases b with
      | true => exact guarding fun _ => judged
      | false =>
        have kinds := computes_kind hazard
        have free : ¬ Guarded m g v := by simp [Guarded, kinds, overflow, judged]
        refine Builds.pure ⟨.nil _, .none free, fun role => ?_⟩
        cases role <;> simp [Plays, kinds, overflow, judged, Role.count]
    · rw [if_neg overflow]
      exact guarding fun same => absurd same overflow

/-! ## Blocks -/

/-- Groups stand before the values of a list. -/
inductive Woven (R : ValueId → List ValueId → Prop) : List ValueId → List ValueId → Prop where
  | nil : Woven R [] []
  | cons {v : ValueId} {group vs ws : List ValueId} (first : R v group) (rest : Woven R vs ws) :
      Woven R (v :: vs) (group ++ v :: ws)

variable {vs ws : List ValueId}

lemma Woven.mono {S : ValueId → List ValueId → Prop} (woven : Woven R vs ws) (imp : ∀ v group, R v group → S v group) :
    Woven S vs ws := by
  induction woven with
  | nil => exact .nil
  | cons first rest ih => exact .cons (imp _ _ first) ih

lemma Woven.mem_cases (woven : Woven R vs ws) {w : ValueId} (mem : w ∈ ws) :
    w ∈ vs ∨ ∃ v ∈ vs, ∃ group, R v group ∧ w ∈ group := by
  induction woven with
  | nil => cases mem
  | @cons v group vs ws first rest ih =>
    rcases mem_append.1 mem with new | mem
    · exact .inr ⟨v, mem_cons_self, group, first, new⟩
    · obtain rfl | later := mem_cons.1 mem
      · exact .inl mem_cons_self
      · refine (ih later).imp (mem_cons_of_mem v) fun h => ?_
        obtain ⟨u, mem, found⟩ := h
        exact ⟨u, mem_cons_of_mem v mem, found⟩

lemma Woven.split_of_mem (woven : Woven R vs ws) (mem : v ∈ vs) :
    ∃ front group after, ws = front ++ (group ++ v :: after) ∧ R v group := by
  induction woven with
  | nil => cases mem
  | @cons w group vs ws first rest ih =>
    obtain rfl | later := mem_cons.1 mem
    · exact ⟨[], group, ws, rfl, first⟩
    · obtain ⟨front, group', after, rfl, holds⟩ := ih later
      exact ⟨group ++ w :: front, group', after, by simp, holds⟩

lemma Woven.group_of_mem (woven : Woven R vs ws) (mem : v ∈ vs) : ∃ group, R v group ∧ ∀ u ∈ group, u ∈ ws := by
  obtain ⟨front, group, after, rfl, holds⟩ := woven.split_of_mem mem
  exact ⟨group, holds, fun u mem => mem_append_right _ (mem_append_left _ mem)⟩

lemma Woven.removed (woven : Woven (Before m c g) vs ws) (inside : ∀ v ∈ vs, v < m.defs.size) :
    ws.filter (· < m.defs.size) = vs := by
  induction woven with
  | nil => rfl
  | @cons v group vs ws first rest ih =>
    have new : group.filter (· < m.defs.size) = [] := by
      rw [filter_eq_nil_iff]
      intro u mem
      simpa using first.fresh u mem
    have old : v < m.defs.size := inside v mem_cons_self
    rw [filter_append, new, nil_append, filter_cons_of_pos (by simpa using old)]
    rw [ih fun u mem => inside u (mem_cons_of_mem v mem)]

lemma Woven.next (woven : Woven (Before m c g) vs ws) (inside : ∀ v ∈ vs, v < m.defs.size)
    {front after : List ValueId} {call : ValueId} (split : ws = front ++ call :: after) (new : m.defs.size ≤ call)
    (isCall : Sentinel.isCall c call = true) :
    ∃ v rest h earlier others, after = v :: rest ∧ v ∈ vs ∧ Guarded m g v ∧ hazardOf m v = some h ∧
      front = earlier ++ others ∧ Guards c h (others ++ [call]) := by
  induction woven generalizing front with
  | nil => simp at split
  | @cons v group vs ws first rest ih =>
    have old : v < m.defs.size := inside v mem_cons_self
    rcases append_eq_append_iff.1 split with ⟨later, rfl, tail⟩ | ⟨later, rfl, tail⟩
    · cases later with
      | nil =>
        cases tail
        exact absurd old (Nat.not_lt.2 new)
      | cons u later =>
        injection tail with _ tail
        obtain ⟨w, rest', h, earlier, others, next, mem, due, hazard, rfl, guards⟩ :=
          ih (fun u mem => inside u (mem_cons_of_mem v mem)) tail
        refine ⟨w, rest', h, group ++ u :: earlier, others, next, mem_cons_of_mem v mem, due, hazard, ?_, guards⟩
        simp
    · cases later with
      | nil =>
        cases tail
        exact absurd old (Nat.not_lt.2 new)
      | cons u later =>
        injection tail with same tail
        subst same
        obtain ⟨rfl, h, due, hazard, guards⟩ := first.last_isCall rfl isCall
        exact ⟨v, ws, h, [], front, tail, mem_cons_self, due, hazard, rfl, guards⟩

open Classical in
lemma insts_builds (alike : m.Alike before) (closed : m.Closed) (listed : f ∈ m.funcs)
    (graph : Graph.ofFunc m f = .ok g) (inside : ∀ v ∈ vs, v < m.defs.size) (grown : m.defs.size ≤ s.module.defs.size) :
    Builds (fun _ => ∃ v ∈ vs, Unfit m g v) s (insts before g vs) fun r c =>
      Adds s.module c (r.1.filter (m.defs.size ≤ ·)) ∧ Woven (Before m c g) vs r.1 ∧
        ∀ role : Role, role.count r.2 = (vs.countP (Plays m g · role) : Int).bmod (twoPow 64) := by
  induction vs generalizing s with
  | nil =>
    refine Builds.pure ⟨.nil _, .nil, fun role => ?_⟩
    simp
  | cons v vs ih =>
    unfold insts
    have old : v < m.defs.size := inside v mem_cons_self
    have first := (guardsOf_builds alike closed listed graph old grown).refusals fun _ unfit =>
      show ∃ u ∈ v :: vs, Unfit m g u from (exists_mem_cons_iff _ _ _).2 (.inl unfit)
    refine Builds.bind first fun r s₁ extends₁ made => ?_
    have rest := (ih (fun u mem => inside u (mem_cons_of_mem v mem)) (grown.trans extends₁.size)).refusals
      fun _ unfit => show ∃ u ∈ v :: vs, Unfit m g u from (exists_mem_cons_iff _ _ _).2 (.inr unfit)
    refine Builds.bind rest fun r' s₂ extends₂ made' => Builds.pure ?_
    obtain ⟨adds, group, counted⟩ := made
    obtain ⟨adds', woven, counted'⟩ := made'
    refine ⟨?_, .cons (group.alike extends₂.alike) woven, fun role => ?_⟩
    · have new : r.1.filter (m.defs.size ≤ ·) = r.1 := by
        rw [filter_eq_self]
        intro u mem
        simpa using group.fresh u mem
      rw [filter_append, new, filter_cons_of_neg (by simpa using old)]
      exact adds.append extends₂ adds'
    · rw [Role.count_add, counted role, counted' role, countSum, Int.add_bmod_bmod, countP_cons]
      split <;> simp_all [add_comm]

structure Weaves (m c : Module) (g : Graph) (b b' : Block) : Prop where
  same : b' = { b with insts := b'.insts }
  removed : b'.insts.toList.filter (· < m.defs.size) = b.insts.toList
  woven : Woven (Before m c g) b.insts.toList b'.insts.toList
  /-- After a new call of a sentinel comes the instruction that it guards. -/
  next : ∀ front call after, b'.insts.toList = front ++ call :: after → m.defs.size ≤ call →
    Sentinel.isCall c call = true → ∃ v rest h earlier others, after = v :: rest ∧ v ∈ b.insts.toList ∧
      Guarded m g v ∧ hazardOf m v = some h ∧ Kind.ofValue c v = h.kind ∧
      front = earlier ++ others ∧ Guards c h (others ++ [call])

variable {b b' : Block} {bs bs' : List Block} {t : Except Fault InsertTally} {s' : Draft}

lemma Weaves.of_woven (alike : m.Alike c) (inside : ∀ v ∈ b.insts.toList, v < m.defs.size)
    (same : b' = { b with insts := b'.insts }) (woven : Woven (Before m c g) b.insts.toList b'.insts.toList) :
    Weaves m c g b b' := by
  refine ⟨same, woven.removed inside, woven, fun front call after split new isCall => ?_⟩
  obtain ⟨v, rest, h, earlier, others, next, mem, due, hazard, before, guards⟩ := woven.next inside split new isCall
  exact ⟨v, rest, h, earlier, others, next, mem, due, hazard, ofValue_of_hazardOf alike hazard, before, guards⟩

lemma Weaves.inside (weaves : Weaves m c g b b') (mem : v ∈ b.insts.toList) : v < m.defs.size := by
  rw [← weaves.removed, mem_filter] at mem
  simpa using mem.2

lemma Weaves.alike (weaves : Weaves m c g b b') (alike : m.Alike c') (change : c.Alike c') : Weaves m c' g b b' :=
  .of_woven alike (fun _ mem => weaves.inside mem) weaves.same (weaves.woven.mono fun _ _ group => group.alike change)

def blockLocals (b : Block) : List ValueId :=
  b.id :: (b.insts.toList ++ b.term.toList)

open Classical in
/-- What has become of the blocks of a function. -/
structure Wove (m : Module) (g : Graph) (s s' : Draft) (bs bs' : List Block) (t : Except Fault InsertTally) : Prop where
  extends_ : s.module.Extends s'.module
  blocks : Forall₂ (fun b b' => b' = b ∨ Weaves m s'.module g b b') bs bs'
  done : ∀ tally, t = .ok tally → Forall₂ (Weaves m s'.module g) bs bs' ∧
    Adds s.module s'.module ((bs'.flatMap blockLocals).filter (m.defs.size ≤ ·)) ∧
    ∀ role : Role, role.count tally =
      ((bs.flatMap fun b => b.insts.toList).countP (Plays m g · role) : Int).bmod (twoPow 64)
  stopped : ∀ e, t = .error e → ∃ b ∈ bs, ∃ v ∈ b.insts.toList, Unfit m g v

lemma blocks_cons_cases (run : blocks before g (b :: bs) s = ((bs', t), s')) :
    (∃ e, outcome (insts before g b.insts.toList) s = (.error e, s') ∧ bs' = b :: bs ∧ t = .error e) ∨
      ∃ new tally rest ts s₁, outcome (insts before g b.insts.toList) s = (.ok (new, tally), s₁) ∧
        blocks before g bs s₁ = ((rest, ts), s') ∧ bs' = { b with insts := new.toArray } :: rest ∧
        t = ts.map tally.add := by
  unfold blocks at run
  change StateT.bind (insts before g b.insts.toList).run _ s = _ at run
  unfold StateT.bind ExceptT.run at run
  rcases one : outcome (insts before g b.insts.toList) s with ⟨r, s₁⟩
  have one' : insts before g b.insts.toList s = (r, s₁) := one
  rw [one'] at run
  cases r with
  | error e =>
    cases run
    exact .inl ⟨e, rfl, rfl, rfl⟩
  | ok r =>
    change StateT.bind (blocks before g bs) _ s₁ = _ at run
    unfold StateT.bind at run
    rcases two : blocks before g bs s₁ with ⟨⟨rest, ts⟩, s₂⟩
    rw [two] at run
    cases run
    exact .inr ⟨r.1, r.2, rest, ts, s₁, rfl, two, rfl, rfl⟩

lemma filter_blockLocals (old : ∀ v ∈ blockLocals b, v < m.defs.size) (new : List ValueId) :
    (blockLocals { b with insts := new.toArray }).filter (m.defs.size ≤ ·) = new.filter (m.defs.size ≤ ·) := by
  have id : b.id < m.defs.size := old _ mem_cons_self
  have term : b.term.toList.filter (m.defs.size ≤ ·) = [] := by
    rw [filter_eq_nil_iff]
    intro v mem
    simpa using old v (mem_cons_of_mem _ (mem_append_right _ mem))
  rw [blockLocals, filter_cons_of_neg (by simpa using id), filter_append, term, append_nil]

lemma Weaves.old_locals (weaves : Weaves m c g b b') (old : ∀ v ∈ blockLocals b, v < m.defs.size) :
    (blockLocals b').filter (· < m.defs.size) = blockLocals b := by
  have id : b.id < m.defs.size := old _ mem_cons_self
  have term : b.term.toList.filter (· < m.defs.size) = b.term.toList := by
    rw [filter_eq_self]
    intro v mem
    simpa using old v (mem_cons_of_mem _ (mem_append_right _ mem))
  rw [weaves.same]
  show (b.id :: (b'.insts.toList ++ b.term.toList)).filter (· < m.defs.size) = blockLocals b
  rw [filter_cons_of_pos (by simpa using id), filter_append, weaves.removed, term]
  rfl

lemma Weaves.all_old_locals (weaves : Forall₂ (Weaves m c g) bs bs')
    (old : ∀ b ∈ bs, ∀ v ∈ blockLocals b, v < m.defs.size) :
    (bs'.flatMap blockLocals).filter (· < m.defs.size) = bs.flatMap blockLocals := by
  induction weaves with
  | nil => rfl
  | @cons b b' bs bs' first rest ih =>
    rw [flatMap_cons, flatMap_cons, filter_append, first.old_locals (old b mem_cons_self)]
    rw [ih fun b mem => old b (mem_cons_of_mem _ mem)]

lemma blocks_weave (alike : m.Alike before) (closed : m.Closed) (listed : f ∈ m.funcs)
    (graph : Graph.ofFunc m f = .ok g) (inside : ∀ b ∈ bs, ∀ v ∈ blockLocals b, v < m.defs.size)
    (reached : m.Alike s.module) (run : blocks before g bs s = ((bs', t), s')) : Wove m g s s' bs bs' t := by
  induction bs generalizing s s' bs' t with
  | nil =>
    cases run
    refine ⟨.refl _, .nil, ?_, ?_⟩
    · intro tally ok
      cases ok
      exact ⟨.nil, .nil _, fun role => by simp⟩
    · intro e error
      cases error
  | cons b bs ih =>
    have old : ∀ v ∈ blockLocals b, v < m.defs.size := inside b mem_cons_self
    have here : ∀ v ∈ b.insts.toList, v < m.defs.size := fun v mem =>
      old v (mem_cons_of_mem _ (mem_append_left _ mem))
    have first := (insts_builds alike closed listed graph here reached.size (s := s)).ends
    rcases blocks_cons_cases run with ⟨e, one, rfl, rfl⟩ | ⟨new, tally, rest, ts, s₁, one, two, rfl, rfl⟩
    · obtain ⟨extends₁, unfit⟩ := (Ends.iff_forall.1 first).2 e s' one
      refine ⟨extends₁, forall₂_same.2 fun _ _ => .inl rfl, ?_, fun _ _ => ⟨b, mem_cons_self, unfit⟩⟩
      intro tally ok
      cases ok
    · obtain ⟨extends₁, adds, woven, counted⟩ := first.ok one
      have later := ih (fun b mem => inside b (mem_cons_of_mem _ mem)) (reached.trans extends₁.alike) two
      have whole := extends₁.trans later.extends_
      -- what later blocks add changes no group that is woven in already
      have weaves : Weaves m s'.module g b { b with insts := new.toArray } :=
        .of_woven (reached.trans whole.alike) here rfl (woven.mono fun _ _ group => group.alike later.extends_.alike)
      refine ⟨whole, .cons (.inr weaves) later.blocks, ?_, ?_⟩
      · intro total ok
        cases ts with
        | error e => cases ok
        | ok ts =>
          cases ok
          obtain ⟨done, adds', counted'⟩ := later.done ts rfl
          refine ⟨.cons weaves done, ?_, fun role => ?_⟩
          · rw [flatMap_cons, filter_append, filter_blockLocals old]
            exact adds.append later.extends_ adds'
          · rw [Role.count_add, counted role, counted' role, countSum, Int.add_bmod_bmod, Int.bmod_add_bmod]
            simp
      · intro e error
        cases ts with
        | error e' =>
          obtain ⟨b', mem, unfit⟩ := later.stopped e' rfl
          exact ⟨b', mem_cons_of_mem _ mem, unfit⟩
        | ok ts => cases error

end Faultline.Instrument
