/-
# IR.Assembly.Printer — a module as assembly text

`Module.identText` writes a value the way an operand refers to it, and
`Module.lineText` an instruction or terminator as it stands in its block.
`Module.text` writes a whole module.

A truth value other than zero and one cannot be written. Where an operand stands
with its type there is then a remark in place of both; anywhere else writing fails.
-/
import Faultline.IR.Assembly.Literal
import Faultline.IR.Numbering

namespace Faultline.IR

open Text (Bytes)

/-! ## Operands -/

section Pieces

variable {ν : Type} (typed bare : ν → Except Unwritable String)

def Piece.render : Piece ν → Except Unwritable String
  | .text s => .ok s
  | .type t => .ok t.text
  | .typed v => typed v
  | .bare v | .label v => bare v

def renderPieces (ps : List (Piece ν)) : Except Unwritable String := do
  pure (String.join (← ps.mapM (Piece.render typed bare)))

def Const.render (bits : Nat) : Const ν → Except Unwritable String
  | .int n => intText bits n
  | .null => .ok "null"
  | .undef => .ok "undef"
  | .gep inbounds elem base indices => do
    let indices ← indices.mapM fun (inRange, v) => do
      pure ((if inRange then "inrange " else "") ++ (← typed v))
    pure ("getelementptr " ++ (if inbounds then "inbounds " else "") ++ "(" ++ elem.text ++ ", "
      ++ ", ".intercalate ((← typed base) :: indices) ++ ")")
  | .other pieces => renderPieces typed bare pieces

end Pieces

def words (ws : List String) : String :=
  String.join (ws.map fun w => w ++ " ")

def intBits : Ty → Nat
  | .int bits => bits
  | _ => 0

def orRemark (lead : String) : Except Unwritable String → Except Unwritable String
  | .ok s => .ok (lead ++ " " ++ s)
  | .error e => remark e

/-- Constants are written through their parts, so the depth is bounded by `fuel`. -/
def Module.identFrom (m : Module) : Nat → ValueId → Except Unwritable String
  | 0, _ => .error .absent
  | fuel + 1, v =>
    match m.get? v with
    | none => .error .absent
    | some (.param n _) | some (.inst n _ _ _) | some (.term n _ _ _) | some (.block n) =>
      .ok n.localText
    | some (.global n _) | some (.func n _) => .ok n.globalText
    | some (.attributed _ x) => m.identFrom fuel x
    | some (.const t c) =>
      let ident := m.identFrom fuel
      c.render (fun v => orRemark (m.typeOf v).text (ident v)) ident (intBits (m.resolve t))

namespace Module

variable (m : Module)

def ident (v : ValueId) : Except Unwritable String :=
  m.identFrom (m.defs.size + 1) v

def identText (v : ValueId) : Option String :=
  (m.ident v).toOption

def argText (v : ValueId) : Except Unwritable String :=
  match m.get? v with
  | some (.attributed attrs x) => orRemark ((m.typeOf x).text ++ " " ++ attrs) (m.ident x)
  | _ => orRemark (m.typeOf v).text (m.ident v)

def argsText (vs : List ValueId) : Except Unwritable String := do
  pure (", ".intercalate (← vs.mapM m.argText))

/-- The arguments of a call; they allow no remark. -/
def callArgsText (vs : List ValueId) : Except Unwritable String := do
  pure (", ".intercalate (← vs.mapM fun v => do
    let _ ← m.ident v
    m.argText v))

end Module

/-! ## Instructions -/

def Pred.text : Pred → String
  | .known .eq => "eq" | .known .ne => "ne"
  | .known .ult => "ult" | .known .ule => "ule" | .known .ugt => "ugt" | .known .uge => "uge"
  | .known .slt => "slt" | .known .sle => "sle" | .known .sgt => "sgt" | .known .sge => "sge"
  | .unknown n => s!"IPred({n})"

def Cast.text : Cast → String
  | .trunc => "trunc" | .zext => "zext" | .sext => "sext" | .fptrunc => "fptrunc"
  | .fpext => "fpext" | .fptoui => "fptoui" | .fptosi => "fptosi" | .uitofp => "uitofp"
  | .sitofp => "sitofp" | .ptrtoint => "ptrtoint" | .inttoptr => "inttoptr"
  | .bitcast => "bitcast" | .addrspacecast => "addrspacecast"

def mnemonic : Formula.Arith → String
  | .add => "add" | .sub => "sub" | .mul => "mul" | .udiv => "udiv" | .sdiv => "sdiv"
  | .urem => "urem" | .srem => "srem" | .and => "and" | .or => "or" | .xor => "xor"
  | .shl => "shl" | .lshr => "lshr" | .ashr => "ashr"

namespace Module

variable (m : Module)

/-- The type a call is written with: the type of its result, or of the whole function if it takes any
number of arguments. -/
def callType (c : Call ValueId) : Except Unwritable String :=
  match m.resolve (m.typeOf c.callee) with
  | .pointer f _ =>
    match m.resolve f with
    | .func _ _ variadic => .ok (if variadic then f.text else c.type.text)
    | _ => .error .absent
  | _ => .error .absent

def callText (c : Call ValueId) : Except Unwritable String := do
  pure (c.lead ++ " " ++ (← m.callType c) ++ " " ++ (← m.ident c.callee) ++ "(" ++ (← m.callArgsText c.args)
    ++ ")" ++ (← renderPieces m.argText m.ident c.trail))

def instText : Inst ValueId → Except Unwritable String
  | .arith op flags x y => do
    pure (mnemonic op ++ " " ++ words flags ++ (← m.argText x) ++ ", " ++ (← m.ident y))
  | .icmp pred x y => do
    pure ("icmp " ++ pred.text ++ " " ++ (← m.argText x) ++ ", " ++ (← m.ident y))
  | .gep inbounds elem base indices => do
    pure ("getelementptr " ++ (if inbounds then "inbounds " else "") ++ elem.text ++ ", "
      ++ (← m.argsText (base :: indices)))
  | .cast op x target => do
    pure (op.text ++ " " ++ (← m.argText x) ++ " to " ++ target.text)
  | .select flags c t e => do
    pure ("select " ++ words flags ++ (← m.argsText [c, t, e]))
  | .phi flags type incoming => do
    let incs ← incoming.mapM fun (x, b) => do
      pure ("[ " ++ (← m.ident x) ++ ", " ++ (← m.ident b) ++ " ]")
    pure ("phi " ++ words flags ++ type.text ++ " " ++ ", ".intercalate incs)
  | .call c => m.callText c
  | .extractValue x path => do
    pure ("extractvalue " ++ (← m.argText x) ++ String.join (path.map fun i => s!", {i}"))
  | .other _ pieces => renderPieces m.argText m.ident pieces

def termText : Term ValueId → Except Unwritable String
  | .ret none => .ok "ret void"
  | .ret (some x) => do pure ("ret " ++ (← m.argText x))
  | .br b => do pure ("br " ++ (← m.argText b))
  | .condBr c t e => do pure ("br " ++ (← m.argsText [c, t, e]))
  | .switch x d cases => do
    let lines ← cases.mapM fun (k, b) => do pure ("\t\t" ++ (← m.argsText [k, b]) ++ "\n")
    pure ("switch " ++ (← m.argsText [x, d]) ++ " [\n" ++ String.join lines ++ "\t]")
  | .invoke c normal out => do
    pure ((← m.callText c) ++ "\n\t\tto " ++ (← m.argText normal) ++ " unwind " ++ (← m.argText out))
  | .callbr c normal others => do
    pure ((← m.callText c) ++ "\n\t\tto " ++ (← m.argText normal) ++ " [" ++ (← m.argsText others) ++ "]")
  | .other pieces => renderPieces m.argText m.ident pieces

def resultText (name : Name) (type : Ty) : String :=
  match type with
  | .void => ""
  | _ => name.localText ++ " = "

def piecesText (ps : List (Piece ValueId)) : Except Unwritable String :=
  renderPieces m.argText m.ident ps

def line (v : ValueId) : Except Unwritable String :=
  match m.get? v with
  | some (.inst n t i trail) => do pure (resultText n t ++ (← m.instText i) ++ (← m.piecesText trail))
  | some (.term n t i trail) => do pure (resultText n t ++ (← m.termText i) ++ (← m.piecesText trail))
  | _ => .error .absent

def lineText (v : ValueId) : Option String :=
  (m.line v).toOption

/-! ## Functions and modules -/

def blockText (b : Block) : Except Unwritable String := do
  let label := match m.get? b.id with
    | some (.block n) => n.text
    | _ => ""
  let lines ← (b.insts.toList ++ b.term.toList).mapM fun v => do pure ("\t" ++ (← m.line v) ++ "\n")
  pure (label ++ ":\n" ++ String.join lines)

def paramText (p : Param) : Except Unwritable String := do
  pure ((m.typeOf p.id).text ++ (if p.attrs.isEmpty then "" else " " ++ p.attrs) ++ " "
    ++ (← m.ident p.id))

def funcText (f : Func) : Except Unwritable String := do
  let params ← f.params.mapM m.paramText
  let params := params ++ (if f.variadic then ["..."] else [])
  let name ← m.ident f.id
  let header := f.lead ++ f.result.text ++ " " ++ name ++ "(" ++ ", ".intercalate params ++ ")"
    ++ (← m.piecesText f.trail)
  let attached ← m.piecesText f.attached
  if f.blocks.isEmpty then pure ("declare " ++ attached ++ header ++ "\n")
  else
    let blocks ← f.blocks.toList.mapM m.blockText
    let orders ← f.orders.mapM fun ps => do pure ("\t" ++ (← m.piecesText ps) ++ "\n")
    let orders := if orders.isEmpty then "" else "\n" ++ String.join orders
    pure ("define " ++ header ++ attached ++ " \x7b\n" ++ "\n".intercalate blocks ++ orders ++ "\x7d\n")

def globalText (g : Global) : Except Unwritable String := do
  pure ((← m.ident g.id) ++ " = " ++ (← m.piecesText g.pieces) ++ "\n")

/-- A header line, left out when there is nothing to say. -/
def headerLine (key : String) (value : Bytes) : String :=
  if value.isEmpty then "" else key ++ " = " ++ quoteText value ++ "\n"

def joinGroups (groups : List String) : String :=
  "\n".intercalate (groups.filter fun g => !g.isEmpty)

def joinLines (lines : List String) : String :=
  String.join (lines.map (· ++ "\n"))

/-- The text of a module whose unnamed values have their numbers. -/
def numberedText : Except Unwritable String := do
  let header := headerLine "source_filename" m.sourceFilename
    ++ headerLine "target datalayout" m.dataLayout ++ headerLine "target triple" m.targetTriple
  let types := m.types.map fun (name, t) => "%" ++ nameText name ++ " = type " ++ t.text
  let globals ← m.globals.toList.mapM m.globalText
  let aliases ← m.aliases.toList.mapM m.globalText
  let indirect ← m.indirect.toList.mapM m.globalText
  let funcs ← m.funcs.toList.mapM m.funcText
  let metadata ← m.metadata.mapM m.piecesText
  let orders ← m.orders.mapM m.piecesText
  pure (joinGroups [header, joinLines (m.inlined.map fun s => "module asm " ++ quoteText s), joinLines types,
    joinLines m.comdats, String.join globals, String.join aliases, String.join indirect,
    "\n".intercalate funcs, joinLines m.attributes, joinLines m.namedMetadata, joinLines metadata,
    joinLines orders])

/-- The module with every unnamed value numbered, and its text. -/
def text : Option (String × Module) := do
  let m ← m.numberGlobals.toOption
  let m ← m.numberAll.toOption
  pure (← m.numberedText.toOption, m)

end Module

end Faultline.IR
