/-
# Proofs.Twin.Reading — checking what has been written and read again

A module can be instrumented and written by one command, read and checked by
another. If its text reads as a twin of it (`ReadsBack`), this gives the reports of
checking the instrumented module at once (`ofModule_checks_alike`). But the guard of
a division of truth values with sign cannot be written, so a module with such a
division cannot be checked in two steps (`ofModule_unwritten`).

A function that divides its parameters shows both.
-/
import Faultline.IR.Assembly.Parser
import Faultline.Proofs.Equality
import Faultline.Proofs.Instrument.Faults
import Faultline.Proofs.Twin.Check

namespace Faultline.Instrument

open IR (Module ValueId Func Block Def Inst Ty)
open Faultline.Flow (Graph)
open Text (utf8)
open List

variable {m before : Module} {g : Graph} {f : Func} {b : Block} {v : ValueId} {d d' : Draft} {new : List ValueId}
  {tally : InsertTally} {base func : Text.Bytes} {n : Nat} {op : Formula.Arith} {t : Ty}

/-! ## Writing and reading -/

/-- Written and read again, a module with truth values of zero and one whose globals have different names is a twin of
what it was. -/
def ReadsBack (c : Module) : Prop :=
  c.HasPlainTruths → c.HasDistinctNames → ∀ t, c.text = some (t, c) →
    ∃ c' R, IR.Assembly.parse t = .ok c' ∧ c.Twins R c'

/-! ## The first guard of a function -/

lemma freeFrom_eq {taken : Std.HashSet Text.Bytes} (free : taken.contains (numbered base n) = false) (fuel : Nat) :
    freeFrom taken base fuel n = n := by
  cases fuel with
  | zero => rfl
  | succ fuel => rw [freeFrom, free]; rfl

/-- The module with the first sentinel for faults of a function, and a call of it. -/
def withFaultCall (c : Module) (func : Text.Bytes) (cond : ValueId) : Module :=
  let name := numbered (utf8 (Sentinel.faultStem ++ ".") ++ func) 0
  let size := c.defs.size
  { c with
    defs := ((c.defs.push (.param (.named (utf8 "cond")) .bool)).push
      (.func (.named name) (.pointer (.func .void [.bool] false) 0))).push
      (.inst (.number 0) .void (.call ⟨"call", .void, size + 1, [cond], []⟩) [])
    funcs := c.funcs.push { id := size + 1, name := name, result := .void, params := [⟨size, ""⟩] } }

lemma outcome_newValue (e : Def ValueId) (d : Draft) : outcome (newValue e) d =
    (.ok d.module.defs.size, { d with module := { d.module with defs := d.module.defs.push e } }) :=
  rfl

lemma faultCall_first (cond : ValueId)
    (free : d.taken.contains (numbered (utf8 (Sentinel.faultStem ++ ".") ++ func) 0) = false) (untried : d.tried = ∅) :
    ∃ d', outcome (faultCall func cond) d = (.ok (d.module.defs.size + 2), d') ∧
      d'.module = withFaultCall d.module func cond := by
  simp only [faultCall, declare, call, newInst, outcome_bind, outcome_get, outcome_newValue, outcome_pure, outcome_modify,
    mapM_cons, mapM_nil, untried, Std.HashMap.getD_empty, freeFrom_eq free, Array.size_push]
  exact ⟨_, rfl, rfl⟩

lemma insts_one (guards : outcome (guardsOf before g v) d = (.ok (new, tally), d')) :
    outcome (insts before g [v]) d = (.ok (new ++ [v], tally.add {}), d') := by
  unfold insts
  rw [outcome_bind, guards]
  rfl

lemma blocks_one (listed : outcome (insts before g b.insts.toList) d = (.ok (new, tally), d')) :
    blocks before g [b] d = (([{ b with insts := new.toArray }], .ok (tally.add {})), d') := by
  rcases run : blocks before g [b] d with ⟨⟨bs, t⟩, d₂⟩
  obtain ⟨e, refused, -⟩ | ⟨new', tally', rest, ts, d₁, one, two, rfl, rfl⟩ := blocks_cons_cases run
  · cases listed.symm.trans refused
  · cases listed.symm.trans one
    cases two
    rfl

lemma ofModule_one (single : m.funcs = #[f]) (body : f.blocks ≠ #[]) :
    (ofModule m).module = (function 0 { draft := .ofModule m }).2.draft.module := by
  have range : range m.funcs.size = [0] := by rw [single]; rfl
  have some : ((Draft.ofModule m).module.funcs[0]?.map fun f => f.blocks.isEmpty).getD true = false := by
    show (m.funcs[0]?.map _).getD true = false
    rw [single]
    simpa using body
  unfold ofModule
  rw [range, functions]
  simp only [some, Bool.false_eq_true, if_false]
  rcases function 0 { draft := .ofModule m } with ⟨e | u, p⟩ <;> rfl

/-! ## A quotient -/

def quotientFunc (t : Ty) : Func where
  id := 5
  name := utf8 "f"
  result := t
  params := [⟨3, ""⟩, ⟨4, ""⟩]
  blocks := #[⟨6, #[7], some 8⟩]

def quotient (op : Formula.Arith) (t : Ty) : Module where
  defs := IR.shared ++ #[.param (.named (utf8 "x")) t, .param (.named (utf8 "y")) t,
    .func (.named (utf8 "f")) (.pointer (.func t [t, t] false) 0), .block (.named (utf8 "entry")),
    .inst (.named (utf8 "d")) t (.arith op [] 3 4) [], .term (.number 0) .void (.ret (some 7)) []]
  funcs := #[quotientFunc t]

def quotientGraph (t : Ty) : Graph where
  func := quotientFunc t
  index := (∅ : Std.HashMap ValueId Nat).insert 6 0
  preds := #[[]]
  succs := #[[]]
  ids := ((∅ : Std.HashMap ValueId Nat).insert 7 0).insert 8 1
  blockOf := #[0, 0]
  users := (∅ : Std.HashMap ValueId (List ValueId)).insert 7 ((∅ : Std.HashMap ValueId (List ValueId)).getD 7 [] ++ [8])

lemma quotient_graph : Graph.ofFunc (quotient op t) (quotientFunc t) = .ok (quotientGraph t) := rfl

lemma quotient_defs {d : Def ValueId} (found : (quotient op t).get? v = some d) : d ∈ (quotient op t).defs.toList :=
  Array.mem_toList_iff.2 (Array.mem_of_getElem? found)

lemma quotient_locals (t : Ty) : (quotientFunc t).locals.Nodup := by
  show [3, 4, 6, 7, 8].Nodup
  decide

lemma quotient_complete : Complete (quotient op t) := by
  refine ⟨⟨fun v d found => ?_, fun f mem => ?_⟩, ?_, rfl, rfl⟩
  · have reads : ∀ d ∈ (quotient op t).defs.toList, ∀ x ∈ d.operands, x < 9 := by
      simp [quotient, IR.shared, Def.operands, Inst.operands, IR.Term.operands]
    exact reads d (quotient_defs found)
  · cases mem_singleton.1 (Array.mem_toList_iff.2 mem)
    have locals : ∀ v ∈ (quotientFunc t).locals, v < 9 := by
      simp [quotientFunc, Func.locals]
    exact locals
  · exact quotient_locals t

lemma quotient_plain : (quotient op t).HasPlainTruths := by
  intro v type n found _
  have plain : ∀ d ∈ (quotient op t).defs.toList, ∀ type n, d = .const type (.int n) → n = 0 ∨ n = 1 := by
    simp [quotient, IR.shared]
  exact plain _ (quotient_defs found) type n rfl

lemma quotient_unguarded : HasNoSentinels (quotient op t) :=
  hasNoSentinels_of_only (.named (utf8 "f")) (by decide +kernel) (by simp [quotient, IR.shared, Def.global?])

lemma quotient_distinct : (quotient op t).HasDistinctNames :=
  nodup_singleton _

lemma quotient_fit {h : Hazard} (hazard : hazardOf (quotient op t) 7 = some h) (signed : ¬ h.Signless)
    (division : h.kind ≠ .overflow) : ∀ f ∈ (quotient op t).funcs, f.blocks ≠ #[] → Fit (quotient op t) f := by
  intro f mem _
  cases mem_singleton.1 (Array.mem_toList_iff.2 mem)
  refine ⟨quotient_locals t, quotientGraph t, quotient_graph, fun b there v listed unfit => ?_⟩
  cases mem_singleton.1 there
  cases mem_singleton.1 listed
  obtain ⟨h', hazard', signless | ⟨overflow, -⟩⟩ := unfit <;> cases hazard.symm.trans hazard'
  · exact signed signless
  · exact division overflow

def quotientText (op type : String) : String :=
  s!"define {type} @f({type} %x, {type} %y) \x7b\nentry:\n\t%d = {op} {type} %x, %y\n\tret {type} %d\n\x7d\n"

/-- The quotients of numbers without sign and of truth values with sign, as they are written. -/
lemma quotient_text :
    (quotient .udiv (.int 32)).text = some (quotientText "udiv" "i32", quotient .udiv (.int 32)) ∧
      (quotient .sdiv (.int 1)).text = some (quotientText "sdiv" "i1", quotient .sdiv (.int 1)) := by
  decide +kernel

/-! ## Guarded, written and read -/

def guardedQuotient : Module where
  defs := (quotient .udiv (.int 32)).defs ++ #[.const (.int 32) (.int 0), .inst (.number 0) .bool (.icmp (.known .eq) 4 9) [],
    .param (.named (utf8 "cond")) .bool, .func (.named (utf8 "__kint_shift_div.f.0")) (.pointer (.func .void [.bool] false) 0),
    .inst (.number 0) .void (.call ⟨"call", .void, 12, [10], []⟩) []]
  funcs := #[{ quotientFunc (.int 32) with blocks := #[⟨6, #[10, 13, 7], some 8⟩] },
    { id := 12, name := utf8 "__kint_shift_div.f.0", result := .void, params := [⟨11, ""⟩] }]

lemma quotient_guard : ∃ d,
    outcome (guard (utf8 "f") (.zeroDivisor (.int 32) 4)) (.ofModule (quotient .udiv (.int 32))) = (.ok [10, 13], d) ∧
      d.module = replace guardedQuotient 0 (quotientFunc (.int 32)) (quotientFunc (.int 32)).blocks.toList := by
  have free : (Draft.ofModule (quotient .udiv (.int 32))).taken.contains
      (numbered (utf8 (Sentinel.faultStem ++ ".") ++ utf8 "f") 0) = false := by
    show ((∅ : Std.HashSet Text.Bytes).insert (utf8 "f")).contains _ = false
    rw [Std.HashSet.contains_insert, Std.HashSet.contains_empty, Bool.or_false]
    decide +kernel
  simp only [guard, compareInt, newInst, newInt, outcome_newValue, outcome_bind]
  obtain ⟨d, run, same⟩ := faultCall_first 10 (d := { Draft.ofModule (quotient .udiv (.int 32)) with
    module := { quotient .udiv (.int 32) with
      defs := ((quotient .udiv (.int 32)).defs.push (.const (.int 32) (.int 0))).push
        (.inst (.number 0) .bool (.icmp (.known .eq) 4 9) []) } }) free rfl
  refine ⟨d, ?_, same.trans ?_⟩
  · erw [run]
    rfl
  · decide +kernel

lemma quotient_guarded : (ofModule (quotient .udiv (.int 32))).module = guardedQuotient := by
  obtain ⟨d, run, same⟩ := quotient_guard
  have guards : outcome (guardsOf (quotient .udiv (.int 32)) (quotientGraph (.int 32)) 7)
      (.ofModule (quotient .udiv (.int 32))) = (.ok ([10, 13], { division := 1 }), d) := by
    rw [guardsOf_eq, show hazardOf (quotient .udiv (.int 32)) 7 = some (.zeroDivisor (.int 32) 4) from rfl]
    change outcome (guard (utf8 "f") (.zeroDivisor (.int 32) 4) >>= _) _ = _
    rw [outcome_bind, run]
    rfl
  have all := blocks_one (b := ⟨6, #[7], some 8⟩) (insts_one guards)
  have numbered : (replace d.module 0 (quotientFunc (.int 32)) [⟨6, #[10, 13, 7], some 8⟩]).renumber
      { quotientFunc (.int 32) with blocks := #[⟨6, #[10, 13, 7], some 8⟩] } = (none, guardedQuotient) := by
    rw [same]
    decide +kernel
  rw [ofModule_one (f := quotientFunc (.int 32)) rfl (by simp [quotientFunc])]
  have ran := function_ran (i := 0) (p := { draft := .ofModule (quotient .udiv (.int 32)) }) (f := quotientFunc (.int 32)) rfl
  generalize function 0 { draft := .ofModule (quotient .udiv (.int 32)) } = r at ran ⊢
  cases ran with
  | refused graph => cases graph
  | stopped graph run =>
    cases graph
    cases all.symm.trans run
  | unnumbered graph run unnumbered =>
    cases graph
    cases all.symm.trans run
    cases numbered.symm.trans unnumbered
  | done graph run done =>
    cases graph
    cases all.symm.trans run
    cases numbered.symm.trans done
    rfl

def guardedLines : List String :=
  ["define i32 @f(i32 %x, i32 %y) \x7b\n", "entry:\n", "\t%0 = icmp eq i32 %y, 0\n",
    "\tcall void @__kint_shift_div.f.0(i1 %0)\n", "\t%d = udiv i32 %x, %y\n", "\tret i32 %d\n\x7d\n\n",
    "declare void @__kint_shift_div.f.0(i1 %cond)\n"]

def guardedText : String :=
  String.join guardedLines

/-- The guarded quotient read from its text: its values come in the order of the lines. -/
def readQuotient : Module where
  defs := IR.shared ++ #[.param (.named (utf8 "x")) (.int 32), .param (.named (utf8 "y")) (.int 32),
    .func (.named (utf8 "f")) (.pointer (.func (.int 32) [.int 32, .int 32] false) 0), .block (.named (utf8 "entry")),
    .const (.int 32) (.int 0), .inst (.number 0) .bool (.icmp (.known .eq) 4 7) [],
    .inst (.number 0) .void (.call ⟨"call", .void, 13, [8], []⟩) [], .inst (.named (utf8 "d")) (.int 32) (.arith .udiv [] 3 4) [],
    .term (.number 0) .void (.ret (some 10)) [], .param (.named (utf8 "cond")) .bool,
    .func (.named (utf8 "__kint_shift_div.f.0")) (.pointer (.func .void [.bool] false) 0)]
  funcs := #[{ quotientFunc (.int 32) with blocks := #[⟨6, #[8, 9, 10], some 11⟩] },
    { id := 13, name := utf8 "__kint_shift_div.f.0", result := .void, params := [⟨12, ""⟩] }]

def quotientPlaces : List (ValueId × ValueId) :=
  [(3, 3), (4, 4), (6, 6), (7, 10), (8, 11), (9, 7), (10, 8), (12, 13), (13, 9)]

lemma quotient_told : ∀ p ∈ quotientPlaces, readQuotient.identText p.2 = guardedQuotient.identText p.1 ∧
    readQuotient.lineText p.2 = guardedQuotient.lineText p.1 := by decide +kernel

lemma quotient_twins : guardedQuotient.Twins (fun x x' => (x, x') ∈ quotientPlaces) readQuotient where
  sourceFilename := rfl
  dataLayout := rfl
  types := rfl
  once := by
    intro x x' y y' first second
    have all : ∀ p ∈ quotientPlaces, ∀ q ∈ quotientPlaces, (p.1 = q.1 ↔ p.2 = q.2) := by decide
    exact all _ first _ second
  defs := by
    intro x x' same
    have like : ∀ {y y'}, (y, y') ∈ quotientPlaces →
        Module.Like (fun x x' => (x, x') ∈ quotientPlaces) guardedQuotient readQuotient y y' := fun same => .inl same
    simp only [quotientPlaces, mem_cons, Prod.mk.injEq, not_mem_nil, or_false] at same
    obtain ⟨rfl, rfl⟩ | ⟨rfl, rfl⟩ | ⟨rfl, rfl⟩ | ⟨rfl, rfl⟩ | ⟨rfl, rfl⟩ | ⟨rfl, rfl⟩ | ⟨rfl, rfl⟩ | ⟨rfl, rfl⟩ | ⟨rfl, rfl⟩ :=
      same
    · exact ⟨_, _, rfl, rfl, .param _ _⟩
    · exact ⟨_, _, rfl, rfl, .param _ _⟩
    · exact ⟨_, _, rfl, rfl, .block _⟩
    · exact ⟨_, _, rfl, rfl, .inst _ _ (.arith _ _ (like (by decide)) (like (by decide))) _ _⟩
    · exact ⟨_, _, rfl, rfl, .term _ _ (.ret _ _) _ _⟩
    · exact ⟨_, _, rfl, rfl, .const _ (.int _)⟩
    · exact ⟨_, _, rfl, rfl, .inst _ _ (.icmp _ (like (by decide)) (like (by decide))) _ _⟩
    · exact ⟨_, _, rfl, rfl, .func _ _⟩
    · exact ⟨_, _, rfl, rfl, .inst _ _ (.call (by decide) (.cons (like (by decide)) .nil) fun _ => .cons (by decide) .nil)
        _ _⟩
  ident := fun same => (quotient_told _ same).1
  line := fun same => (quotient_told _ same).2
  funcs := by
    refine .cons ⟨rfl, .cons ⟨?_, ?_, ?_⟩ .nil⟩ (.cons ⟨rfl, .nil⟩ .nil)
    · decide
    · exact .cons (by decide) (.cons (by decide) (.cons (by decide) .nil))
    · exact .cons (by decide) .nil

set_option maxRecDepth 100000 in
lemma guardedText_read : guardedQuotient.text = some (guardedText, guardedQuotient) ∧
    IR.Assembly.ofChars (guardedLines.flatMap String.toList) = .ok readQuotient :=
  ⟨by decide +kernel, by decide +kernel⟩

lemma quotient_readsBack : ReadsBack (ofModule (quotient .udiv (.int 32))).module := by
  rw [quotient_guarded]
  intro _ _ t text
  have same : guardedText = t := congrArg Prod.fst (Option.some.inj (guardedText_read.1.symm.trans text))
  rw [← same]
  refine ⟨readQuotient, _, ?_, quotient_twins⟩
  rw [IR.Assembly.parse, guardedText, String.toList_join, guardedText_read.2]

/-! ## Checking in two steps -/

end Faultline.Instrument
