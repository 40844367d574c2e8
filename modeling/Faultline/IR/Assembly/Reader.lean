/-
# IR.Assembly.Reader — types and values from tokens

`Reader` is the monad of the readers: it holds the tokens still to be read, the
values met so far, and what has been mentioned and must be defined somewhere. A text
whose tokens make no module fails with `malformed`. A number that is too large for
its place does not stop the reading; it is remembered as the flaw of the text.
-/
import Faultline.IR.Assembly.Draft
import Faultline.IR.Assembly.Token

namespace Faultline.IR.Assembly

open Text (Bytes)

inductive ReadError where
  | malformed
  /-- The text is a module that cannot be given a meaning. -/
  | untypable
  deriving DecidableEq, Inhabited

structure Mentions where
  types : List Bytes := []
  comdats : List Bytes := []
  groups : List Nat := []
  nodes : List Nat := []

structure State where
  tokens : List Token
  size : Nat := tokens.length
  drafts : Array Draft := #[]
  mentions : Mentions := {}
  flaw? : Option ReadError := none

abbrev Reader := StateT State (Except ReadError)

def malformed {α : Type} : Reader α :=
  throw .malformed

def flaw (e : ReadError) : Reader Unit :=
  modify fun s => { s with flaw? := s.flaw? <|> some e }

/-! ## Tokens -/

def peek? : Reader (Option Token) := do
  pure (← get).tokens.head?

def advance : Reader Unit :=
  modify fun s => { s with tokens := s.tokens.tail }

def next : Reader Token := do
  match (← get).tokens with
  | t :: ts =>
    modify fun s => { s with tokens := ts }
    pure t
  | [] => malformed

def isNext (t : Token) : Reader Bool := do
  pure ((← peek?) == some t)

def skip (t : Token) : Reader Bool := do
  if ← isNext t then
    advance
    pure true
  else pure false

def skipSymbol (c : Char) : Reader Bool :=
  skip (.symbol c)

def skipWord (w : String) : Reader Bool :=
  skip (.word w)

def symbol (c : Char) : Reader Unit := do
  if !(← skipSymbol c) then malformed

def word (w : String) : Reader Unit := do
  if !(← skipWord w) then malformed

def comma : Reader Unit :=
  symbol ','

def wordIn? (ws : List String) : Reader (Option String) := do
  match ← peek? with
  | some (.word w) =>
    if ws.contains w then
      advance
      pure (some w)
    else pure none
  | _ => pure none

def wordIn (ws : List String) : Reader String := do
  match ← wordIn? ws with
  | some w => pure w
  | none => malformed

/-- Enough for any text: a nesting takes tokens. -/
def depth : Reader Nat := do
  pure ((← get).size + 1)

def manyFrom {α : Type} (item? : Reader (Option α)) : Nat → Reader (List α)
  | 0 => pure []
  | n + 1 => do
    match ← item? with
    | some x => pure (x :: (← manyFrom item? n))
    | none => pure []

def many {α : Type} (item? : Reader (Option α)) : Reader (List α) := do
  manyFrom item? (← depth)

def afterCommas {α : Type} (item : Reader α) : Reader (List α) :=
  many do if ← skipSymbol ',' then some <$> item else pure none

def separated {α : Type} (item : Reader α) : Reader (List α) := do
  let x ← item
  pure (x :: (← afterCommas item))

/-- Items separated by commas up to and with the closing mark. -/
def upTo {α : Type} (close : Char) (item : Reader α) : Reader (List α) := do
  if ← skipSymbol close then pure []
  else
    let xs ← separated item
    symbol close
    pure xs

def afterComma? : Reader (Option Token) := do
  match (← get).tokens with
  | .symbol ',' :: t :: _ => pure (some t)
  | _ => pure none

/-! ## Numbers, texts and names -/

def natural : Reader Nat := do
  match ← next with
  | .int ds =>
    match Text.digits 10 (twoPow 64) ds with
    | .ok n => pure n
    | .error _ => do
      flaw .untypable
      pure 0
  | _ => malformed

def identifier (ds : List Char) : Reader Nat := do
  match Text.digits 10 (twoPow 63) ds with
  | .ok n => pure n
  | .error _ => do
    flaw .untypable
    pure 0

def string : Reader Bytes := do
  match ← next with
  | .string s => pure s
  | _ => malformed

def localName : Reader Name := do
  match ← next with
  | .local n => pure n
  | _ => malformed

def globalName : Reader Name := do
  match ← next with
  | .global n => pure n
  | _ => malformed

def mentionType (name : Bytes) : Reader Unit :=
  modify fun s => { s with mentions := { s.mentions with types := name :: s.mentions.types } }

def mentionComdat (name : Bytes) : Reader Unit :=
  modify fun s => { s with mentions := { s.mentions with comdats := name :: s.mentions.comdats } }

def mentionGroup (n : Nat) : Reader Unit :=
  modify fun s => { s with mentions := { s.mentions with groups := n :: s.mentions.groups } }

def mentionNode (n : Nat) : Reader Unit :=
  modify fun s => { s with mentions := { s.mentions with nodes := n :: s.mentions.nodes } }

def nodeText (ds : List Char) : Reader String := do
  let n ← identifier ds
  mentionNode n
  pure s!"!{n}"

def bracketed : Reader Nat := do
  symbol '('
  let n ← natural
  symbol ')'
  pure n

def numeral? (ds : List Char) : Option Numeral :=
  match ds with
  | 'u' :: '0' :: 'x' :: hs => (Text.digits 16 (Nat.pow 16 hs.length) hs).toOption.map (.hex false)
  | 's' :: '0' :: 'x' :: hs => (Text.digits 16 (Nat.pow 16 hs.length) hs).toOption.map (.hex true)
  | '-' :: ds => (Text.digits 10 (Nat.pow 10 ds.length) ds).toOption.map fun n => .decimal (-(n : Int))
  | ds => (Text.digits 10 (Nat.pow 10 ds.length) ds).toOption.map fun n => .decimal n

/-! ## Attributes of parameters and results -/

def paramWords : List String :=
  ["immarg", "inalloca", "inreg", "nest", "noalias", "nocapture", "nofree", "nonnull", "readnone",
   "readonly", "returned", "signext", "sret", "swifterror", "swiftself", "writeonly", "zeroext"]

def resultWords : List String :=
  ["inreg", "noalias", "nonnull", "signext", "zeroext"]

def stringAttribute : Reader String := do
  let key ← string
  if ← skipSymbol '=' then pure (quoteText key ++ "=" ++ quoteText (← string))
  else pure (quoteText key)

/-! ## Types -/

def basicType? (w : String) : Option Ty :=
  match w with
  | "void" => some .void
  | "label" => some .label
  | "token" => some .token
  | "metadata" => some .metadata
  | "x86_mmx" => some .mmx
  | w => (FloatKind.all.find? fun k => k.name == w).map .float

def startsType : Token → Bool
  | .word w => (basicType? w).isSome
  | .intType _ | .local _ => true
  | .symbol c => c == '\x7b' || c == '[' || c == '<'
  | _ => false

def intWidth (ds : List Char) : Reader Ty := do
  match Text.digits 10 (twoPow 64) ds with
  | .ok n => pure (.int n)
  | .error _ => do
    flaw .malformed
    pure (.int 0)

/-- An attribute of a parameter, if one comes next; `type` reads the type it may hold. -/
def paramAttribute? (type : Reader Ty) : Reader (Option String) := do
  match ← peek? with
  | some (.string _) => some <$> stringAttribute
  | some (.word "align") => do
    advance
    let n ← natural
    pure (some s!"align {n}")
  | some (.word "byval") => do
    advance
    if ← skipSymbol '(' then
      let t ← type
      symbol ')'
      pure (some ("byval(" ++ t.text ++ ")"))
    else pure (some "byval")
  | some (.word w) =>
    if w == "dereferenceable" || w == "dereferenceable_or_null" then do
      advance
      let n ← bracketed
      pure (some s!"{w}({n})")
    else if paramWords.contains w then do
      advance
      pure (some w)
    else pure none
  | _ => pure none

/-- The parameters of a function type, up to and with the closing bracket. Attributes and names mean
nothing here. -/
def paramTypes (type : Reader Ty) : Reader (List Ty × Bool) := do
  let params ← upTo ')' do
    if ← skipWord "..." then pure none
    else
      let t ← type
      let _ ← many (paramAttribute? type)
      match ← peek? with
      | some (.local _) => advance
      | _ => pure ()
      pure (some t)
  -- dots end the list
  if params.dropLast.any Option.isNone then malformed
  pure (params.filterMap id, params.any Option.isNone)

def suffixes (params : Reader (List Ty × Bool)) : Nat → Ty → Reader Ty
  | 0, t => pure t
  | n + 1, t => do
    if ← skipSymbol '*' then suffixes params n (.pointer t 0)
    else if ← skipWord "addrspace" then
      let space ← bracketed
      symbol '*'
      suffixes params n (.pointer t space)
    else if ← skipSymbol '(' then
      let (ts, variadic) ← params
      suffixes params n (.func t ts variadic)
    else pure t

/-- A type without what may follow it; `type` reads the types inside. -/
def baseType (type : Reader Ty) : Reader Ty := do
  match ← next with
  | .word w =>
    match basicType? w with
    | some t => pure t
    | none => malformed
  | .intType ds => intWidth ds
  | .local n => do
    mentionType n.plain
    pure (.named n.plain)
  | .symbol '[' => do
    let n ← natural
    word "x"
    let elem ← type
    symbol ']'
    pure (.array n elem)
  | .symbol '\x7b' => do pure (.struct false (← upTo '\x7d' type))
  | .symbol '<' => do
    if ← skipSymbol '\x7b' then
      let fields ← upTo '\x7d' type
      symbol '>'
      pure (.struct true fields)
    else
      let scalable ← skipWord "vscale"
      if scalable then word "x"
      let n ← natural
      word "x"
      let elem ← type
      symbol '>'
      pure (.vector scalable n elem)
  | _ => malformed

def typeFrom : Nat → Reader Ty
  | 0 => malformed
  | fuel + 1 => do
    let t ← baseType (typeFrom fuel)
    suffixes (paramTypes (typeFrom fuel)) (← depth) t

def type : Reader Ty := do
  typeFrom (← depth)

def valueType : Reader Ty := do
  match ← type with
  | .void | .func _ _ _ => malformed
  | t => pure t

def paramAttributes : Reader (List String) := do
  many (paramAttribute? type)

def resultAttribute? : Reader (Option String) := do
  match ← peek? with
  | some (.string _) => some <$> stringAttribute
  | some (.word "align") => do
    advance
    let n ← natural
    pure (some s!"align {n}")
  | some (.word w) =>
    if w == "dereferenceable" || w == "dereferenceable_or_null" then do
      advance
      let n ← bracketed
      pure (some s!"{w}({n})")
    else if resultWords.contains w then do
      advance
      pure (some w)
    else pure none
  | _ => pure none

/-! ## Values -/

def define (d : Draft) : Reader ValueId := do
  let v := (← get).drafts.size
  modify fun s => { s with drafts := s.drafts.push d }
  pure v

def constant (e : Expected) (w : Written) : Reader Ref := do
  pure (.id (← define (.const e w)))

/-- Changes what a value has to be, once more is known. -/
def expect (e : Expected) (r : Ref) : Reader Ref := do
  match r with
  | .id v => modify fun s => { s with drafts := s.drafts.modify v (Draft.expect e) }
  | _ => pure ()
  pure (r.expect e)

def floatPreds : List String :=
  ["false", "oeq", "oge", "ogt", "ole", "olt", "one", "ord", "true", "ueq", "uge", "ugt", "ule", "ult",
   "une", "uno"]

def intPreds : List String :=
  ["eq", "ne", "sge", "sgt", "sle", "slt", "uge", "ugt", "ule", "ult"]

def castWords : List String :=
  ["trunc", "zext", "sext", "fptrunc", "fpext", "fptoui", "fptosi", "uitofp", "sitofp", "ptrtoint",
   "inttoptr", "bitcast", "addrspacecast"]

def binaryFlags? (w : String) : Option (List String) :=
  match w with
  | "add" | "sub" | "mul" | "shl" => some ["nsw", "nuw"]
  | "udiv" | "sdiv" | "lshr" | "ashr" => some ["exact"]
  | "urem" | "srem" | "and" | "or" | "xor" | "fadd" | "fsub" | "fmul" | "fdiv" | "frem" => some []
  | _ => none

def flagWords (flags : List String) : Reader (List String) := do
  match flags with
  | ["exact"] => pure (← wordIn? flags).toList
  | flags => many (wordIn? flags)

def commaTyped (v : Ref) : List (Piece Ref) :=
  [.text ", ", .typed v]

def commaList {ν : Type} (vs : List ν) : List (Piece ν) :=
  ((vs.map fun v => [Piece.typed v]).intersperse [.text ", "]).flatten

def pathPieces {ν : Type} (path : List Nat) : List (Piece ν) :=
  path.map fun i => .text s!", {i}"

/-- A constant expression after its keyword; `operand` reads a typed constant. -/
def expression (operand : Reader (Ty × Ref)) (e : Expected) (w : String) : Reader Ref := do
  if castWords.contains w then
    symbol '('
    let (_, x) ← operand
    word "to"
    let target ← type
    symbol ')'
    constant e (.expr (.type target) [.text (w ++ " ("), .typed x, .text " to ", .type target, .text ")"])
  else match binaryFlags? w with
    | some flags => do
      let flags ← flagWords flags
      symbol '('
      let (t, x) ← operand
      comma
      let (_, y) ← operand
      symbol ')'
      let head := " ".intercalate (w :: flags) ++ " ("
      constant e (.expr (.type t) (.text head :: commaList [x, y] ++ [.text ")"]))
    | none =>
      match w with
      | "fneg" => do
        symbol '('
        let (t, x) ← operand
        symbol ')'
        constant e (.expr (.type t) [.text "fneg (", .typed x, .text ")"])
      | "icmp" | "fcmp" => do
        let p ← wordIn (if w == "icmp" then intPreds else floatPreds)
        symbol '('
        let (t, x) ← operand
        comma
        let (_, y) ← operand
        symbol ')'
        constant e (.expr (.comparison (w == "fcmp") t)
          (.text s!"{w} {p} (" :: commaList [x, y] ++ [.text ")"]))
      | "select" => do
        symbol '('
        let (_, c) ← operand
        comma
        let (t, x) ← operand
        comma
        let (_, y) ← operand
        symbol ')'
        constant e (.expr (.type t) (.text "select (" :: commaList [c, x, y] ++ [.text ")"]))
      | "extractelement" => do
        symbol '('
        let (t, x) ← operand
        comma
        let (_, i) ← operand
        symbol ')'
        constant e (.expr (.element t) (.text "extractelement (" :: commaList [x, i] ++ [.text ")"]))
      | "insertelement" => do
        symbol '('
        let (t, x) ← operand
        comma
        let (_, y) ← operand
        comma
        let (_, i) ← operand
        symbol ')'
        constant e (.expr (.vector t) (.text "insertelement (" :: commaList [x, y, i] ++ [.text ")"]))
      | "shufflevector" => do
        symbol '('
        let (t, x) ← operand
        comma
        let (_, y) ← operand
        comma
        let (m, mask) ← operand
        symbol ')'
        constant e (.expr (.shuffled t m)
          (.text "shufflevector (" :: commaList [x, y, mask] ++ [.text ")"]))
      | "extractvalue" => do
        symbol '('
        let (t, x) ← operand
        let path ← afterCommas natural
        if path.isEmpty then malformed
        symbol ')'
        constant e (.expr (.part t path)
          ([.text "extractvalue (", .typed x] ++ pathPieces path ++ [.text ")"]))
      | "insertvalue" => do
        symbol '('
        let (t, x) ← operand
        comma
        let (_, y) ← operand
        let path ← afterCommas natural
        if path.isEmpty then malformed
        symbol ')'
        constant e (.expr (.type t)
          (.text "insertvalue (" :: commaList [x, y] ++ pathPieces path ++ [.text ")"]))
      | "getelementptr" => do
        let inbounds ← skipWord "inbounds"
        symbol '('
        let elem ← type
        comma
        let (base, x) ← operand
        let indices ← afterCommas do
          let inRange ← skipWord "inrange"
          pure (inRange, ← operand)
        symbol ')'
        constant e (.gep inbounds elem base x indices)
      | _ => malformed

/-- A value; constants may not have locals in them. -/
def valueFrom : Nat → Bool → Expected → Reader Ref
  | 0, _, _ => malformed
  | fuel + 1, isConstant, e => do
    let operand : Reader (Ty × Ref) := do
      let t ← valueType
      pure (t, ← valueFrom fuel true (.type t))
    match ← next with
    | .local n => if isConstant then malformed else pure (.local e n)
    | .global n => pure (.global n)
    | .int ds =>
      match numeral? ds with
      | some n => constant e (.int n)
      | none => malformed
    | .real cs => constant e (.real cs)
    | .symbol '[' => do
      let items ← upTo ']' operand
      constant e (.aggregate .array (items.map Prod.snd))
    | .symbol '\x7b' => do
      let items ← upTo '\x7d' operand
      constant e (.aggregate .struct (items.map Prod.snd))
    | .symbol '<' => do
      if ← skipSymbol '\x7b' then
        let items ← upTo '\x7d' operand
        symbol '>'
        constant e (.aggregate .struct (items.map Prod.snd))
      else
        let items ← separated operand
        symbol '>'
        constant e (.aggregate .vector (items.map Prod.snd))
    | .word "true" => pure (.truth e true)
    | .word "false" => pure (.truth e false)
    | .word "none" => pure (.none e)
    | .word "null" => constant e .null
    | .word "undef" => constant e .undef
    | .word "zeroinitializer" => constant e .zero
    | .word "c" => do constant e (.chars (← string))
    | .word "asm" => do
      if isConstant then malformed
      let flags ← ["sideeffect", "alignstack", "inteldialect"].filterM skipWord
      let code ← string
      comma
      let constraints ← string
      let words := " ".intercalate ("asm" :: flags)
      constant e (.pieces [.text (words ++ " " ++ quoteText code ++ ", " ++ quoteText constraints)])
    | .word "blockaddress" => do
      symbol '('
      let f ← globalName
      comma
      let b ← localName
      symbol ')'
      constant e (.blockAddress f b)
    | .word w => expression operand e w
    | _ => malformed

def value (e : Expected) : Reader Ref := do
  valueFrom (← depth) false e

def valueOf (t : Ty) : Reader Ref :=
  value (.type t)

def typed : Reader (Ty × Ref) := do
  let t ← valueType
  pure (t, ← valueOf t)

def constantOf (t : Ty) : Reader Ref := do
  valueFrom (← depth) true (.type t)

def constantTyped : Reader (Ty × Ref) := do
  let t ← valueType
  pure (t, ← constantOf t)

def labelRef (n : Name) : Ref :=
  .local (.type .label) n

def label : Reader Ref := do
  word "label"
  pure (labelRef (← localName))

end Faultline.IR.Assembly
