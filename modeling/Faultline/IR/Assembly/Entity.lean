/-
# IR.Assembly.Entity — the top level of a module from tokens

The entities of a module may stand in any order. `Top` collects them as they are
written; the bodies of functions are read at once, with their operands still names.
-/
import Faultline.IR.Assembly.Instruction

namespace Faultline.IR.Assembly

open Text (Bytes)

/-- A function as it is written. Its body takes the places from `start` up to `stop`. -/
structure FuncDraft where
  id : ValueId
  name : Name
  lead : String
  result : Ty
  params : List Param
  variadic : Bool
  trail : List (Piece Ref)
  attached : List (Piece Ref)
  blocks : Array Block := #[]
  orders : List (List (Piece Ref)) := []
  start : ValueId := 0
  stop : ValueId := 0
  deriving Inhabited

structure GlobalDraft where
  id : ValueId
  name : Name
  pieces : List (Piece Ref)
  deriving Inhabited

/-- The entities of a module, in the order of the text. -/
structure Top where
  sourceFilename : Bytes := []
  dataLayout : Bytes := []
  targetTriple : Bytes := []
  inlined : Array Bytes := #[]
  types : Array (Bytes × Ty) := #[]
  comdats : Array (Bytes × String) := #[]
  globals : Array GlobalDraft := #[]
  aliases : Array GlobalDraft := #[]
  indirect : Array GlobalDraft := #[]
  funcs : Array FuncDraft := #[]
  attributes : Array (Nat × String) := #[]
  namedMetadata : Array (Bytes × List String) := #[]
  metadata : Array (Nat × List (Piece Ref)) := #[]
  orders : Array (List (Piece Ref)) := #[]

/-! ## Parts -/

def externalWords : List String :=
  ["extern_weak", "external"]

def linkageWords : List String :=
  ["appending", "available_externally", "common", "internal", "linkonce", "linkonce_odr", "private", "weak",
   "weak_odr"]

/-- At most one of each group of words, in this order. -/
def optionals (groups : List (List String)) : Reader (List String) :=
  groups.filterMapM wordIn?

def bindingGroups : List (List String) :=
  [externalWords ++ linkageWords, ["dso_local", "dso_preemptable"], ["default", "hidden", "protected"],
   ["dllexport", "dllimport"]]

def unnamedWords : List String :=
  ["local_unnamed_addr", "unnamed_addr"]

def comdatText (name : Bytes) : String :=
  "$" ++ nameText name

/-- Where and how something is laid out in memory, in the order in which it is written. -/
structure Placement where
  /-- The group it belongs to; without a name it is the one of its own name. -/
  comdat : List String := []
  sectionName : List String := []
  partition : List String := []
  align : List String := []

def Placement.texts (p : Placement) : List String :=
  p.sectionName ++ p.partition ++ p.comdat ++ p.align

def quotedUnlessEmpty (key : String) (s : Bytes) : List String :=
  if s.isEmpty then [] else [key ++ " " ++ quoteText s]

/-- A part of a placement, if one comes next; `own` is the name of what is placed. -/
def placement? (own : Bytes) (p : Placement) : Reader (Option Placement) := do
  match ← wordIn? ["section", "partition", "comdat", "align"] with
  | some "section" => do pure (some { p with sectionName := quotedUnlessEmpty "section" (← string) })
  | some "partition" => do pure (some { p with partition := quotedUnlessEmpty "partition" (← string) })
  | some "align" => do
    let n ← natural
    pure (some { p with align := if n = 0 then [] else [s!"align {n}"] })
  | some _ => do
    let name ← if ← skipSymbol '(' then do
        match ← next with
        | .comdat name => do
          symbol ')'
          pure name
        | _ => malformed
      else pure own
    mentionComdat name
    pure (some { p with comdat := [if name == own then "comdat" else "comdat(" ++ comdatText name ++ ")"] })
  | none => pure none

/-- The order of the uses of a value. -/
def useOrder : Reader (List (Piece Ref)) := do
  let numbers : Reader String := do
    comma
    symbol '\x7b'
    let ns ← separated natural
    symbol '\x7d'
    pure (", \x7b " ++ ", ".intercalate (ns.map toString) ++ " \x7d")
  match ← wordIn ["uselistorder", "uselistorder_bb"] with
  | "uselistorder" => do
    let (_, v) ← typed
    pure [.text "uselistorder ", .typed v, .text (← numbers)]
  | _ => do
    let f ← globalName
    comma
    let b ← localName
    pure [.text "uselistorder_bb ", .bare (.global f), .text ", ", .bare (.block f b), .text (← numbers)]

def useOrder? : Reader (Option (List (Piece Ref))) := do
  match ← peek? with
  | some (.word "uselistorder") | some (.word "uselistorder_bb") => some <$> useOrder
  | _ => pure none

/-! ## Global variables -/

/-- Parts of a placement, each after a comma. -/
def placementsFrom (own : Bytes) : Nat → Placement → Reader Placement
  | 0, p => pure p
  | n + 1, p => do
    match ← afterComma? with
    | some (.word _) => do
      comma
      match ← placement? own p with
      | some p => placementsFrom own n p
      | none => malformed
    | _ => pure p

def variableAfter (name : Name) (words : List String) (space : Nat) (isExternal : Bool) : Reader GlobalDraft := do
  let t ← type
  let init ← if isExternal then pure [] else do pure [.text " ", .bare (← constantOf t)]
  let placement ← placementsFrom name.plain (← depth) {}
  let attached ← attachments
  let attrs ← functionAttributes
  let places := placement.texts.map fun s => .text (", " ++ s)
  let v ← define (.plain (.global name (.pointer t space)))
  pure ⟨v, name, [.text (lead words), .type t] ++ init ++ places ++ attached ++ trailing attrs⟩

/-- What an alias stands for: a typed constant or an expression that has its type in itself. -/
def symbolOf : Reader Ref := do
  match ← peek? with
  | some (.word w) =>
    if ["bitcast", "getelementptr", "addrspacecast", "inttoptr"].contains w then do
      advance
      expression constantTyped .any w
    else do pure (← constantTyped).2
  | _ => do pure (← constantTyped).2

def aliasAfter (name : Name) (words : List String) : Reader GlobalDraft := do
  let t ← type
  comma
  let v ← symbolOf
  let parts ← afterCommas do
    word "partition"
    pure (quotedUnlessEmpty "partition" (← string))
  let parts := (parts.getLast?.getD []).map fun s => .text (", " ++ s)
  let g ← define (.plain (.global name (.pointer t 0)))
  pure ⟨g, name, [.text (lead words), .type t, .text ", ", .typed v] ++ parts⟩

def globalEntity (name : Name) (top : Top) : Reader Top := do
  symbol '='
  let binding ← optionals bindingGroups
  let threads ← if ← skipWord "thread_local" then do
      if ← skipSymbol '(' then
        let model ← wordIn ["initialexec", "localdynamic", "localexec"]
        symbol ')'
        pure [s!"thread_local({model})"]
      else pure ["thread_local"]
    else pure []
  let unnamed ← optionals [unnamedWords]
  let hasSpace ← isNext (.word "addrspace")
  let space ← addressSpace
  let outside ← optionals [["externally_initialized"]]
  let keyword ← wordIn ["constant", "global", "alias", "ifunc"]
  let words := binding ++ threads ++ unnamed ++ addressSpaceText space ++ outside ++ [keyword]
  if keyword == "constant" || keyword == "global" then
    let isExternal := binding.any externalWords.contains
    pure { top with globals := top.globals.push (← variableAfter name words space isExternal) }
  else
    if hasSpace || !outside.isEmpty then malformed
    let g ← aliasAfter name words
    if keyword == "alias" then pure { top with aliases := top.aliases.push g }
    else pure { top with indirect := top.indirect.push g }

/-! ## Functions -/

def parameter : Reader Param := do
  let t ← type
  let attrs ← paramAttributes
  let name ← match ← peek? with
    | some (.local n) => do
      advance
      pure n
    | _ => pure (.number 0)
  pure ⟨← define (.plain (.param name t)), " ".intercalate attrs⟩

/-- Parameters up to and with the closing bracket; dots may end them. -/
def parameters : Reader (List Param × Bool) := do
  symbol '('
  let params ← upTo ')' do
    if ← skipWord "..." then pure none else some <$> parameter
  if params.dropLast.any Option.isNone then malformed
  pure (params.filterMap id, params.any Option.isNone)

/-- What may follow the parameters of a function. -/
structure Fields where
  attrs : Array String := #[]
  placement : Placement := {}
  collector : List String := []
  /-- Constants that go with the function, by keyword. -/
  constants : List (String × Ref) := []

def field? (own : Bytes) (f : Fields) : Reader (Option Fields) := do
  match ← functionAttribute? with
  | some attr => pure (some { f with attrs := f.attrs.push attr })
  | none =>
  match ← placement? own f.placement with
  | some p => pure (some { f with placement := p })
  | none =>
  match ← wordIn? ["gc", "prefix", "prologue", "personality"] with
  | some "gc" => do pure (some { f with collector := quotedUnlessEmpty "gc" (← string) })
  | some w => do
    let (_, v) ← constantTyped
    pure (some { f with constants := (w, v) :: f.constants.filter fun c => c.1 != w })
  | none => pure none

def fieldsFrom (own : Bytes) : Nat → Fields → Reader Fields
  | 0, f => pure f
  | n + 1, f => do
    match ← field? own f with
    | some f => fieldsFrom own n f
    | none => pure f

def Fields.pieces (f : Fields) : List (Piece Ref) :=
  let constants := ["prefix", "prologue", "personality"].flatMap fun w =>
    match f.constants.lookup w with
    | some v => [.text (" " ++ w ++ " "), .typed v]
    | none => []
  trailing (f.attrs.toList ++ f.placement.texts ++ f.collector) ++ constants

def paramType (drafts : Array Draft) (p : Param) : Ty :=
  match drafts[p.id]? with
  | some (.plain (.param _ t)) => t
  | _ => .void

def header : Reader FuncDraft := do
  let binding ← optionals bindingGroups
  let convention ← convention
  let attrs ← many resultAttribute?
  let result ← type
  let name ← globalName
  let (params, variadic) ← parameters
  let unnamed ← optionals [unnamedWords]
  let space ← addressSpace
  let fields ← fieldsFrom name.plain (← depth) {}
  let t := Ty.func result (params.map (paramType (← get).drafts)) variadic
  let v ← define (.plain (.func name (.pointer t space)))
  pure { id := v, name := name, lead := lead (binding ++ convention ++ attrs), result := result,
         params := params, variadic := variadic, attached := [], start := v, stop := v,
         trail := trailing (unnamed ++ addressSpaceText space) ++ fields.pieces }

/-- The statements of a block up to its terminator. -/
def statements : Nat → Array ValueId → Reader (Array ValueId × ValueId)
  | 0, _ => malformed
  | n + 1, insts => do
    match ← statement with
    | (v, true) => pure (insts, v)
    | (v, false) => statements n (insts.push v)

/-- Blocks up to what cannot begin one. -/
def blocksFrom : Nat → Array Block → Reader (Array Block)
  | 0, _ => malformed
  | n + 1, done => do
    match ← peek? with
    | some (.symbol '\x7d') | some (.word "uselistorder") | some (.word "uselistorder_bb") => pure done
    | t =>
      let name ← match t with
        | some (.label name) => do
          advance
          pure name
        | _ => pure (.number 0)
      let b ← define (.plain (.block name))
      let (insts, term) ← statements (← depth) #[]
      blocksFrom n (done.push ⟨b, insts, some term⟩)

def definition : Reader FuncDraft := do
  let h ← header
  let attached ← many attachment?
  symbol '\x7b'
  let start := (← get).drafts.size
  let blocks ← blocksFrom (← depth) #[]
  if blocks.isEmpty then malformed
  let orders ← many useOrder?
  symbol '\x7d'
  pure { h with attached := attached.flatMap fun ps => .text " " :: ps
                blocks := blocks
                orders := orders
                start := start
                stop := (← get).drafts.size }

def declaration : Reader FuncDraft := do
  let attached ← many attachment?
  let h ← header
  pure { h with attached := attached.flatMap fun ps => ps ++ [.text " "] }

/-! ## Modules -/

def stringAfterEquals : Reader Bytes := do
  symbol '='
  string

/-- What a type may be defined as. -/
def definedType : Reader Ty := do
  if ← skipWord "opaque" then pure .bodiless else type

def comdatKinds : List String :=
  ["any", "exactmatch", "largest", "noduplicates", "samesize"]

def attributeGroup : Reader (Nat × String) := do
  match ← next with
  | .group ds => do
    let n ← identifier ds
    symbol '='
    symbol '\x7b'
    let attrs ← functionAttributes
    symbol '\x7d'
    pure (n, s!"attributes #{n} = \x7b " ++ " ".intercalate attrs ++ " \x7d")
  | _ => malformed

def nodeList : Reader (List String) := do
  symbol '!'
  symbol '\x7b'
  upTo '\x7d' do
    match ← next with
    | .node ds => nodeText ds
    | _ => malformed

def entity (top : Top) : Reader Top := do
  match ← peek? with
  | some (.word "uselistorder") | some (.word "uselistorder_bb") => do
    pure { top with orders := top.orders.push (← useOrder) }
  | _ =>
  match ← next with
  | .word "source_filename" => do pure { top with sourceFilename := ← stringAfterEquals }
  | .word "target" => do
    match ← wordIn ["datalayout", "triple"] with
    | "datalayout" => do pure { top with dataLayout := ← stringAfterEquals }
    | _ => do pure { top with targetTriple := ← stringAfterEquals }
  | .word "module" => do
    word "asm"
    pure { top with inlined := top.inlined.push (← string) }
  | .local n => do
    symbol '='
    word "type"
    pure { top with types := top.types.push (n.plain, ← definedType) }
  | .comdat name => do
    symbol '='
    word "comdat"
    pure { top with comdats := top.comdats.push (name, ← wordIn comdatKinds) }
  | .global n => globalEntity n top
  | .word "declare" => do pure { top with funcs := top.funcs.push (← declaration) }
  | .word "define" => do pure { top with funcs := top.funcs.push (← definition) }
  | .word "attributes" => do pure { top with attributes := top.attributes.push (← attributeGroup) }
  | .tag name => do
    symbol '='
    pure { top with namedMetadata := top.namedMetadata.push (name, ← nodeList) }
  | .node ds => do
    let n ← identifier ds
    symbol '='
    let words := s!"!{n} = " ++ (if ← skipWord "distinct" then "distinct " else "")
    if let some (.node _) ← peek? then malformed
    pure { top with metadata := top.metadata.push (n, .text words :: (← node)) }
  | _ => malformed

def entities : Nat → Top → Reader Top
  | 0, _ => malformed
  | n + 1, top => do
    match ← peek? with
    | none => pure top
    | some _ => entities n (← entity top)

end Faultline.IR.Assembly
