/-
# IR.Assembly.Parser — modules from text

`parse` reads the whole text first, then gives every value its type, numbers the
unnamed locals of each function in order, where a number in the text must be the one
that is due, and last puts values in the place of names. What a text mentions it
must define, once.
-/
import Faultline.IR.Assembly.Entity
import Faultline.IR.Assembly.Typing
import Faultline.IR.Numbering
import Faultline.IR.Traverse
import Faultline.Text.NaturalOrder
import Std.Data.TreeMap

namespace Faultline.IR.Assembly

open Text (Bytes)

/-! ## Names -/

abbrev Names := Std.TreeMap Name ValueId

def Names.add (names : Names) (n : Name) (v : ValueId) : Except ReadError Names :=
  if names.contains n then .error .malformed else .ok (names.insert n v)

def key? (d : Def Ref) : Option Name :=
  match d, d.local? with
  | .inst _ _ _ _, some (.named s) | .term _ _ _ _, some (.named s) => some (.named (Name.named s).plain)
  | _, n => n

def localNames (defs : Array (Def Ref)) (vs : List ValueId) : Except ReadError Names :=
  vs.foldlM (fun names v =>
    match defs[v]?.bind key? with
    | some n => names.add n v
    | none => .ok names) ∅

def globalNames (top : Top) : Except ReadError Names := do
  let names ← (top.globals ++ top.aliases ++ top.indirect).foldlM
    (fun (names : Names) g => names.add g.name g.id) ∅
  top.funcs.foldlM (fun (names : Names) f => names.add f.name f.id) names

structure Scope where
  types : TypeDefs
  defs : Array (Def Ref)
  funcs : Array FuncDraft
  globals : Names
  locals : Names := ∅

namespace Scope

variable (s : Scope)

def typeOf (v : ValueId) : Ty :=
  match s.defs[v]? with
  | some (.param _ t) | some (.inst _ t _ _) | some (.term _ t _ _) => t
  | some (.block _) => .label
  | _ => .void

def block? (func name : Name) : Option ValueId := do
  let f ← s.funcs.find? fun f => f.name == func
  let b ← f.blocks.find? fun b => (s.defs[b.id]?.bind Def.name?) == some name
  pure b.id

def resolve : Ref → Except ReadError ValueId
  | .id v => .ok v
  | .global n =>
    match s.globals[n]? with
    | some v => .ok v
    | none => .error .malformed
  | .block f b =>
    match s.block? f b with
    | some v => .ok v
    | none => .error .malformed
  | .truth e b =>
    match e.resolved s.types with
    | .int 1 => .ok (if b then trueId else falseId)
    | _ => .error .malformed
  | .none e =>
    match e.resolved s.types with
    | .token => .ok noneId
    | _ => .error .malformed
  | .local e n =>
    match s.locals[n]? with
    | some v =>
      match e.type? s.types with
      | some t => if Ty.same s.types (s.typeOf v) t then .ok v else .error .malformed
      | none => .ok v
    | none => .error .malformed

def pieces (ps : List (Piece Ref)) : Except ReadError (List (Piece ValueId)) :=
  traversePieces s.resolve ps

def const : Const Ref → Except ReadError (Const ValueId)
  | .int n => .ok (.int n)
  | .null => .ok .null
  | .undef => .ok .undef
  | .gep inbounds elem base indices => do
    let indices ← indices.mapM fun (inRange, r) => do pure (inRange, ← s.resolve r)
    pure (.gep inbounds elem (← s.resolve base) indices)
  | .other ps => do pure (.other (← s.pieces ps))

def value : Def Ref → Except ReadError (Def ValueId)
  | .param n t => .ok (.param n t)
  | .inst n t i trail => do pure (.inst n t (← i.traverse s.resolve) (← s.pieces trail))
  | .term n t i trail => do pure (.term n t (← i.traverse s.resolve) (← s.pieces trail))
  | .block n => .ok (.block n)
  | .const t c => do pure (.const t (← s.const c))
  | .global n t => .ok (.global n t)
  | .func n t => .ok (.func n t)
  | .attributed attrs x => do pure (.attributed attrs (← s.resolve x))

def range (start stop : ValueId) : Except ReadError (Array (Def ValueId)) :=
  (s.defs.extract start stop).mapM s.value

end Scope

/-! ## Functions -/

def FuncDraft.func (f : FuncDraft) : Func :=
  { id := f.id, name := f.name.plain, lead := f.lead, result := f.result, params := f.params,
    variadic := f.variadic, blocks := f.blocks }

def numberDrafts (funcs : Array FuncDraft) (defs : Array (Def Ref)) : Except ReadError (Array (Def Ref)) :=
  funcs.foldlM (fun defs f =>
    match numberFrom Def.local? defs f.func.locals 0 with
    | (none, defs) => .ok defs
    | (some _, _) => .error .malformed) defs

def finishFunc (s : Scope) (done : Array (Def ValueId) × Array Func) (f : FuncDraft) :
    Except ReadError (Array (Def ValueId) × Array Func) := do
  let inner := { s with locals := ← localNames s.defs f.func.locals }
  let before ← s.range done.1.size f.start
  let body ← inner.range f.start f.stop
  let func := { f.func with
    trail := ← s.pieces f.trail
    attached := ← s.pieces f.attached
    orders := ← f.orders.mapM inner.pieces }
  pure (done.1 ++ before ++ body, done.2.push func)

def finishGlobal (s : Scope) (g : GlobalDraft) : Except ReadError Global := do
  pure ⟨g.id, ← s.pieces g.pieces⟩

/-! ## Modules -/

/-- The type definitions by name; a struct of which nothing is known may be defined again. -/
def typeDefs (types : Array (Bytes × Ty)) : Except ReadError TypeDefs := do
  let defs ← types.foldlM (fun (defs : TypeDefs) (name, t) =>
    match defs.lookup name with
    | none => .ok (defs ++ [(name, t)])
    | some .bodiless => .ok (defs.map fun d => if d.1 == name then (name, t) else d)
    | some _ => .error .malformed) []
  pure (Text.sortByName Prod.fst defs)

def once {α β : Type} [BEq α] (xs : List (α × β)) : Except ReadError Unit :=
  if (xs.map Prod.fst).eraseDups.length = xs.length then .ok () else .error .malformed

def Mentions.check (m : Mentions) (types : TypeDefs) (top : Top) : Except ReadError Unit :=
  if m.types.all (fun n => (types.lookup n).isSome)
      && m.comdats.all (fun n => top.comdats.any fun c => c.1 == n)
      && m.groups.all (fun n => top.attributes.any fun a => a.1 == n)
      && m.nodes.all (fun n => top.metadata.any fun d => d.1 == n)
  then .ok () else .error .malformed

/-- Lists under one name are one list. -/
def mergeNamed (xs : Array (Bytes × List String)) : List (Bytes × List String) :=
  let names := (xs.toList.map Prod.fst).eraseDups
  Text.sortByName Prod.fst (names.map fun n =>
    (n, (xs.toList.filter fun x => x.1 == n).flatMap Prod.snd))

def sortById {α : Type} (xs : Array (Nat × α)) : List α :=
  (xs.toList.mergeSort fun a b => a.1 ≤ b.1).map Prod.snd

def finish (top : Top) (st : State) : Except ReadError Module := do
  if let some e := st.flaw? then throw e
  let types ← typeDefs top.types
  once top.comdats.toList
  once top.attributes.toList
  once top.metadata.toList
  st.mentions.check types top
  let defs ← elaborate types st.drafts
  let defs ← numberDrafts top.funcs defs
  let s : Scope := { types := types, defs := defs, funcs := top.funcs, globals := ← globalNames top }
  let (done, funcs) ← top.funcs.foldlM (finishFunc s) (#[], #[])
  let after ← s.range done.size defs.size
  pure { sourceFilename := top.sourceFilename
         dataLayout := top.dataLayout
         targetTriple := top.targetTriple
         inlined := top.inlined.toList
         types := types
         comdats := (Text.sortByName Prod.fst top.comdats.toList).map fun (n, kind) =>
           comdatText n ++ " = comdat " ++ kind
         globals := ← top.globals.mapM (finishGlobal s)
         aliases := ← top.aliases.mapM (finishGlobal s)
         indirect := ← top.indirect.mapM (finishGlobal s)
         funcs := funcs
         attributes := sortById top.attributes
         namedMetadata := (mergeNamed top.namedMetadata).map fun (n, ids) =>
           tagText n ++ " = !\x7b" ++ ", ".intercalate ids ++ "\x7d"
         metadata := ← (sortById top.metadata).mapM s.pieces
         orders := ← top.orders.toList.mapM s.pieces
         defs := done ++ after }

def sharedDrafts : Array Draft :=
  shared.map .plain

def ofChars (cs : List Char) : Except ReadError Module := do
  let tokens := scan cs
  let (top, st) ← (entities (tokens.length + 1) {}).run { tokens := tokens, drafts := sharedDrafts }
  finish top st

def parse (text : String) : Except ReadError Module :=
  ofChars text.toList

def parseType (types : TypeDefs) (text : String) : Except ReadError Ty := do
  let (t, st) ← definedType.run { tokens := scan text.toList }
  if !st.tokens.isEmpty then throw .malformed
  if let some e := st.flaw? then throw e
  st.mentions.check types {}
  pure t

end Faultline.IR.Assembly
