/-
# Analysis.Basic — the state of the constraint engines

The engines express one function in formulas. What they are told is a `Setting`: the
module, the layout, the graph, the edges to be left out, and the fields every log
entry carries. What they keep is a `Bench`: the arena, the formula of every value
expressed so far, the reachability of every block computed so far, and the log.

`Analyze` is their monad. A refusal keeps everything done so far, references
included.
-/
import Faultline.Flow.Cycle
import Faultline.Formula.Overflow
import Faultline.Layout
import Faultline.Log

namespace Faultline

open IR (Module ValueId Ty)
open Formula (Arena Build Handle)

structure Setting where
  module : Module
  layout : Layout
  graph : Flow.Graph
  cut : Flow.EdgeSet
  fields : LogFields := []

structure Bench where
  arena : Arena := {}
  /-- Formulas by value, newest first; none once the value engine is closed. -/
  values : Option (List (ValueId × Handle)) := some []
  /-- Formulas by block, the zero handle where there is none yet; none once the path engine is
  closed. -/
  paths : Option (Array Handle)
  log : Array LogEntry := #[]

abbrev Analyze := ExceptT Fault (StateM Bench)

/-- A builder, at work in the arena of the bench. -/
def build {α : Type} (x : Build α) : Analyze α :=
  fun b =>
    match b with
    | ⟨arena, values, paths, log⟩ =>
      match x arena with
      | (r, arena) => (r, ⟨arena, values, paths, log⟩)

namespace Setting

def start (s : Setting) : Bench :=
  { paths := some (Array.replicate s.graph.size 0) }

def logEntry (_ : Setting) (fields : LogFields) (message : String) : Analyze Unit :=
  modify fun b => { b with log := b.log.push ⟨.debug, message, fields⟩ }

def ident (s : Setting) (v : ValueId) : Analyze String :=
  match s.module.identText v with
  | some t => pure t
  | none => throw .unprintable

/-- The bits of integers and pointers; other types are not analysed. -/
def width? (s : Setting) (t : Ty) : Option Nat :=
  match s.module.resolve t with
  | .int bits => some bits
  | .pointer _ _ => some s.layout.pointerBits
  | _ => none

def extent (s : Setting) (t : Ty) : Layout.Extent :=
  s.layout.extent (t.closed s.module.types)

def blockName (s : Setting) (b : Nat) : String :=
  (s.module.identText (s.graph.block b).id).getD ""

end Setting

end Faultline
