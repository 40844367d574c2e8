/-
# Instrument.Insertion — sentinel calls before what can go wrong

Every function with a body gets a guard in front of each instruction that has a
hazard; arithmetic that nothing depends on is left alone and counted. Nothing else
of a function changes, but its unnamed values are numbered anew.

A value that occurs twice may be impossible to number. What was inserted and
numbered before that shows stays.
-/
import Faultline.Instrument.Guard

namespace Faultline.Instrument

open IR (Module ValueId Func Block NumberingError)
open Faultline.Flow (Graph)

inductive Error where
  | numbering (func : String) (ident : String) (error : NumberingError)
  | refused (fault : Fault)
  deriving DecidableEq, Inhabited

def Error.message? : Error → Option String
  | .numbering func ident e =>
    some ("assign ids: " ++ func ++ ": invalid local ID in function " ++ Text.quote ident
      ++ s!", expected %{e.expected}, got %{e.got}")
  | .refused f => f.message?

def guardsOf (before : Module) (g : Graph) (v : ValueId) : Insert (List ValueId × InsertTally) := do
  match before.get? v with
  | some (.inst _ _ i _) =>
    match hazard? before i with
    | none => pure ([], {})
    | some h =>
      match h with
      | .overflow _ _ _ _ _ =>
        if ← observable before g v then pure (← guard g.func.name h, h.tally)
        else pure ([], { unobservable := 1 })
      | _ => pure (← guard g.func.name h, h.tally)
  | _ => pure ([], {})

def insts (before : Module) (g : Graph) : List ValueId → Insert (List ValueId × InsertTally)
  | [] => pure ([], {})
  | v :: vs => do
    let (new, t) ← guardsOf before g v
    let (rest, ts) ← insts before g vs
    pure (new ++ v :: rest, t.add ts)

def blocks (before : Module) (g : Graph) : List Block → StateM Draft (List Block × Except Fault InsertTally)
  | [] => pure ([], .ok {})
  | b :: bs => do
    match ← (insts before g b.insts.toList).run with
    | .error e => pure (b :: bs, .error e)
    | .ok (new, t) =>
      let (rest, ts) ← blocks before g bs
      pure ({ b with insts := new.toArray } :: rest, ts.map t.add)

def errorIdent (m : Module) (f : Func) : String :=
  match m.get? f.id with
  | some (.func (.named s) _) => (IR.Name.named s).globalText
  | _ => "@"

def logTally (func : String) (t : InsertTally) : LogEntry :=
  ⟨.debug, "instrumented",
    [("func", .text func), ("overflow", .number t.overflow), ("shift", .number t.shift),
      ("div", .number t.division), ("unobservable", .number t.unobservable)]⟩

structure Progress where
  draft : Draft
  tally : InsertTally := {}
  log : Array LogEntry := #[]

def function (i : Nat) (p : Progress) : Except Error Unit × Progress :=
  let before := p.draft.module
  match before.funcs[i]? with
  | none => (.ok (), p)
  | some f =>
    match Graph.ofFunc before f with
    | .error e => (.error (.refused e), p)
    | .ok g =>
      let ((bs, t), d) := (blocks before g f.blocks.toList).run p.draft
      let f := { f with blocks := bs.toArray }
      let m := { d.module with funcs := d.module.funcs.setIfInBounds i f }
      match t with
      | .error e => (.error (.refused e), { p with draft := { d with module := m } })
      | .ok t =>
        match m.renumber f with
        | (some e, m) =>
          (.error (.numbering (Text.shown f.name) (errorIdent m f) e),
            { p with draft := { d with module := m } })
        | (none, m) =>
          (.ok (), { draft := { d with module := m }, tally := p.tally.add t,
                     log := p.log.push (logTally (Text.shown f.name) t) })

def functions : List Nat → Progress → Except Error Unit × Progress
  | [], p => (.ok (), p)
  | i :: is, p =>
    if (p.draft.module.funcs[i]?.map fun f => f.blocks.isEmpty).getD true then functions is p
    else match function i p with
      | (.ok _, p) => functions is p
      | (.error e, p) => (.error e, p)

/-- The outcome of a run: the counts or the error, the module as it is then, and the log. -/
structure Outcome where
  result : Except Error InsertTally
  module : Module
  log : Array LogEntry

def Outcome.of : Except Error Unit × Progress → Outcome
  | (.ok _, p) => ⟨.ok p.tally, p.draft.module, p.log⟩
  | (.error e, p) => ⟨.error e, p.draft.module, p.log⟩

def ofModule (m : Module) : Outcome :=
  .of (functions (List.range m.funcs.size) { draft := .ofModule m })

def ofFunction (m : Module) (i : Nat) : Outcome :=
  .of (function i { draft := .ofModule m })

end Faultline.Instrument
