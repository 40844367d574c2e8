/-
# IR.Assembly.Instruction — instructions and terminators from tokens

Each reader gives the instruction and what is known of the type of its result. The
parts of an instruction that mean nothing to the analyses become text, in the form
in which a module is written.
-/
import Faultline.IR.Assembly.Metadata

namespace Faultline.IR.Assembly

/-! ## Parts -/

def fastFlags : Reader (List String) :=
  many (wordIn? ["afn", "arcp", "contract", "fast", "ninf", "nnan", "nsz", "reassoc"])

def lead (ws : List String) : String :=
  String.join (ws.map (· ++ " "))

/-- A typed operand after a comma, if one comes next. -/
def commaTyped? : Reader (Option (Ty × Ref)) := do
  match ← afterComma? with
  | some t =>
    if startsType t then
      comma
      some <$> typed
    else pure none
  | none => pure none

def path : Reader (List Nat) := do
  let ns ← many do
    match ← afterComma? with
    | some (.int _) => do
      comma
      some <$> natural
    | _ => pure none
  if ns.isEmpty then malformed
  pure ns

/-- An alignment after a comma; zero means none. -/
def alignment : Reader (List (Piece Ref)) := do
  match ← afterComma? with
  | some (.word "align") => do
    comma
    advance
    let n ← natural
    pure (if n = 0 then [] else [.text s!", align {n}"])
  | _ => pure []

/-- Which threads an ordering counts for. -/
def scope : Reader (List String) := do
  if ← skipWord "syncscope" then
    symbol '('
    let s ← string
    symbol ')'
    pure (if s.isEmpty then [] else ["syncscope(" ++ quoteText s ++ ")"])
  else pure []

def orderings : List String :=
  ["acq_rel", "acquire", "monotonic", "release", "seq_cst", "unordered"]

def ordering : Reader (List String) := do
  pure [← wordIn orderings]

def ordering? : Reader (List String) := do
  pure (← wordIn? orderings).toList

/-- Words with a blank in front of each. -/
def trailing (ws : List String) : List (Piece Ref) :=
  if ws.isEmpty then [] else [.text (String.join (ws.map (" " ++ ·)))]

/-- An operand and a second one of the same type. -/
def pair : Reader (Ty × Ref × Ref) := do
  let (t, x) ← typed
  comma
  pure (t, x, ← valueOf t)

/-! ## Calls -/

/-- An argument and its type; metadata is an argument too. -/
def argument : Reader (Ty × Ref) := do
  if ← skipWord "metadata" then
    let ps ← metadata
    pure (.metadata, ← constant (.type .metadata) (.pieces ps))
  else
    let t ← valueType
    let attrs ← paramAttributes
    let v ← valueOf t
    if attrs.isEmpty then pure (t, v)
    else pure (t, .id (← define (.plain (.attributed (" ".intercalate attrs) v))))

/-- Arguments up to the closing bracket; dots that end them mean nothing. -/
def arguments : Reader (List (Ty × Ref)) := do
  symbol '('
  let args ← upTo ')' do
    if ← skipWord "..." then pure none else some <$> argument
  if args.dropLast.any Option.isNone then malformed
  pure (args.filterMap id)

/-- Operands that go along with a call under a tag. -/
def bundle : Reader (List (Piece Ref)) := do
  let tag ← string
  symbol '('
  let xs ← upTo ')' do
    if ← skipWord "metadata" then
      pure (.id (← define (.const (.type .metadata) (.pieces (← metadata)))))
    else
      let (_, v) ← typed
      pure v
  pure (.text (quoteText tag ++ "(") :: commaList xs ++ [.text ")"])

def bundles : Reader (List (Piece Ref)) := do
  if ← skipSymbol '[' then
    let items ← separated bundle
    symbol ']'
    pure (.text " [ " :: commaPieces items ++ [.text " ]"])
  else pure []

def call (words : List String) : Reader (Result × Call Ref) := do
  let convention ← convention
  let attrs ← many resultAttribute?
  let space ← addressSpace
  let t ← type
  let callee ← value (.type t)
  let args ← arguments
  let callee ← expect (.callee t (args.map Prod.fst)) callee
  let after ← functionAttributes
  let more ← bundles
  let words := words ++ convention ++ attrs ++ addressSpaceText space
  pure (.call t, ⟨" ".intercalate words, t, callee, args.map Prod.snd, trailing after ++ more⟩)

/-! ## Instructions -/

/-- The integer operations, by their keyword. -/
def arith? (w : String) : Option Formula.Arith :=
  match w with
  | "add" => some .add | "sub" => some .sub | "mul" => some .mul | "udiv" => some .udiv
  | "sdiv" => some .sdiv | "urem" => some .urem | "srem" => some .srem | "and" => some .and
  | "or" => some .or | "xor" => some .xor | "shl" => some .shl | "lshr" => some .lshr
  | "ashr" => some .ashr
  | _ => none

def pred? (w : String) : Option Pred :=
  match w with
  | "eq" => some (.known .eq) | "ne" => some (.known .ne)
  | "ult" => some (.known .ult) | "ule" => some (.known .ule)
  | "ugt" => some (.known .ugt) | "uge" => some (.known .uge)
  | "slt" => some (.known .slt) | "sle" => some (.known .sle)
  | "sgt" => some (.known .sgt) | "sge" => some (.known .sge)
  | _ => none

def cast? (w : String) : Option Cast :=
  match w with
  | "trunc" => some .trunc | "zext" => some .zext | "sext" => some .sext
  | "fptrunc" => some .fptrunc | "fpext" => some .fpext | "fptoui" => some .fptoui
  | "fptosi" => some .fptosi | "uitofp" => some .uitofp | "sitofp" => some .sitofp
  | "ptrtoint" => some .ptrtoint | "inttoptr" => some .inttoptr | "bitcast" => some .bitcast
  | "addrspacecast" => some .addrspacecast
  | _ => none

abbrev Read := Result × Inst Ref

/-- An instruction without effect that is only passed by. -/
def passed (result : Result) (pieces : List (Piece Ref)) : Reader (Option Read) :=
  pure (some (result, .other true pieces))

/-- An instruction with an effect that is only passed by. -/
def effect (result : Result) (pieces : List (Piece Ref)) : Reader (Option Read) :=
  pure (some (result, .other false pieces))

def phiIncoming (t : Ty) : Reader (Ref × Ref) := do
  symbol '['
  let x ← valueOf t
  comma
  let b ← localName
  symbol ']'
  pure (x, labelRef b)

def clause? : Reader (Option (List (Piece Ref))) := do
  match ← wordIn? ["catch", "filter"] with
  | some w =>
    let (_, v) ← typed
    pure (some [.text ("\n\t\t" ++ w ++ " "), .typed v])
  | none => pure none

/-- The pad an exception is handled in, or none. -/
def pad (mayBeNone : Bool) : Reader Ref := do
  match ← next with
  | .local n => pure (.local (.type .token) n)
  | .word "none" => if mayBeNone then pure (.none (.type .token)) else malformed
  | _ => malformed

def padArguments : Reader (List (Piece Ref)) := do
  symbol '['
  let xs ← upTo ']' do
    if ← skipWord "metadata" then
      pure (.id (← define (.const (.type .metadata) (.pieces (← metadata)))))
    else
      let (_, v) ← typed
      pure v
  pure (.text "[" :: commaList xs ++ [.text "]"])

/-- An instruction that gives a value, after its keyword; none if the keyword is of none. -/
def instruction? (keyword : String) : Reader (Option Read) := do
  match arith? keyword, cast? keyword with
  | some op, _ => do
    let flags ← flagWords ((binaryFlags? keyword).getD [])
    let (t, x, y) ← pair
    pure (some (.type t, .arith op flags x y))
  | _, some op => do
    let (_, x) ← typed
    word "to"
    let target ← type
    pure (some (.type target, .cast op x target))
  | none, none =>
    match keyword with
    | "icmp" => do
      match pred? (← wordIn intPreds) with
      | some p => do
        let (t, x, y) ← pair
        pure (some (.comparison false t, .icmp p x y))
      | none => malformed
    | "getelementptr" => do
      let inbounds ← skipWord "inbounds"
      let elem ← type
      comma
      let (base, x) ← typed
      let indices ← many commaTyped?
      pure (some (.address elem base indices, .gep inbounds elem x (indices.map Prod.snd)))
    | "select" => do
      let flags ← fastFlags
      let (_, c) ← typed
      comma
      let (t, x) ← typed
      comma
      let (_, y) ← typed
      pure (some (.type t, .select flags c x y))
    | "phi" => do
      let flags ← fastFlags
      let t ← type
      let incoming ← separated (phiIncoming t)
      pure (some (.type t, .phi flags t incoming))
    | "call" => do
      let flags ← fastFlags
      let (r, c) ← call ("call" :: flags)
      pure (some (r, .call c))
    | "tail" | "musttail" | "notail" => do
      word "call"
      let flags ← fastFlags
      let (r, c) ← call (keyword :: "call" :: flags)
      pure (some (r, .call c))
    | "extractvalue" => do
      let (t, x) ← typed
      let path ← path
      pure (some (.part t path, .extractValue x path))
    | "insertvalue" => do
      let (t, x) ← typed
      comma
      let (_, e) ← typed
      let path ← path
      passed (.type t) (.text "insertvalue " :: commaList [x, e] ++ pathPieces path)
    | "fadd" | "fsub" | "fmul" | "fdiv" | "frem" => do
      let flags ← fastFlags
      let (t, x, y) ← pair
      passed (.type t) [.text (lead (keyword :: flags)), .typed x, .text ", ", .bare y]
    | "fneg" => do
      let flags ← fastFlags
      let (t, x) ← typed
      passed (.type t) [.text (lead (keyword :: flags)), .typed x]
    | "fcmp" => do
      let flags ← fastFlags
      let p ← wordIn floatPreds
      let (t, x, y) ← pair
      passed (.comparison true t) [.text (lead (keyword :: flags ++ [p])), .typed x, .text ", ", .bare y]
    | "extractelement" => do
      let (t, x) ← typed
      comma
      let (_, i) ← typed
      passed (.element t) (.text "extractelement " :: commaList [x, i])
    | "insertelement" => do
      let (t, x) ← typed
      comma
      let (_, e) ← typed
      comma
      let (_, i) ← typed
      passed (.vector t) (.text "insertelement " :: commaList [x, e, i])
    | "shufflevector" => do
      let (t, x) ← typed
      comma
      let (_, y) ← typed
      comma
      let (m, mask) ← typed
      passed (.shuffled t m) (.text "shufflevector " :: commaList [x, y, mask])
    | "freeze" => do
      let (t, x) ← typed
      passed (.type t) [.text "freeze ", .typed x]
    | "load" => do
      let flags ← ["atomic", "volatile"].filterM skipWord
      let t ← type
      comma
      let (_, p) ← typed
      let order ← do pure ((← scope) ++ (← ordering?))
      let align ← alignment
      effect (.type t)
        ([.text (lead ("load" :: flags)), .type t, .text ", ", .typed p] ++ trailing order ++ align)
    | "alloca" => do
      let flags ← ["inalloca", "swifterror"].filterM skipWord
      let t ← type
      let count ← commaTyped?
      let align ← alignment
      let space ← match ← afterComma? with
        | some (.word "addrspace") => do
          comma
          addressSpace
        | _ => pure 0
      let count := match count with
        | some (_, n) => commaTyped n
        | none => []
      effect (.type (.pointer t space))
        ([.text (lead ("alloca" :: flags)), .type t] ++ count ++ align
          ++ (addressSpaceText space).map fun s => .text (", " ++ s))
    | "atomicrmw" => do
      let flags ← ["volatile"].filterM skipWord
      let op ← wordIn ["add", "and", "fadd", "fsub", "max", "min", "nand", "or", "sub", "umax", "umin",
        "xchg", "xor"]
      let (t, p) ← typed
      comma
      let (_, x) ← typed
      let order ← do pure ((← scope) ++ (← ordering))
      effect (.pointee t)
        (.text (lead ("atomicrmw" :: flags ++ [op])) :: commaList [p, x] ++ trailing order)
    | "cmpxchg" => do
      let flags ← ["weak", "volatile"].filterM skipWord
      let (_, p) ← typed
      comma
      let (_, x) ← typed
      comma
      let (t, y) ← typed
      let order ← do pure ((← scope) ++ (← ordering) ++ (← ordering))
      effect (.type (.struct false [t, .int 8]))
        (.text (lead ("cmpxchg" :: flags)) :: commaList [p, x, y] ++ trailing order)
    | "va_arg" => do
      let (_, x) ← typed
      comma
      let t ← type
      effect (.type t) [.text "va_arg ", .typed x, .text ", ", .type t]
    | "landingpad" => do
      let t ← type
      let cleanup ← skipWord "cleanup"
      let clauses ← many clause?
      effect (.type t) ([.text "landingpad ", .type t]
        ++ (if cleanup then [.text "\n\t\tcleanup"] else []) ++ clauses.flatten)
    | "catchpad" => do
      word "within"
      let p ← pad false
      let args ← padArguments
      effect (.type .token) ([.text "catchpad within ", .bare p, .text " "] ++ args)
    | "cleanuppad" => do
      word "within"
      let p ← pad true
      let args ← padArguments
      effect (.type .token) ([.text "cleanuppad within ", .bare p, .text " "] ++ args)
    | _ => pure none

def action? (keyword : String) : Reader (Option Read) := do
  match keyword with
  | "store" => do
    let flags ← ["atomic", "volatile"].filterM skipWord
    let (_, x) ← typed
    comma
    let (_, p) ← typed
    let order ← do pure ((← scope) ++ (← ordering?))
    let align ← alignment
    effect (.type .void)
      (.text (lead ("store" :: flags)) :: commaList [x, p] ++ trailing order ++ align)
  | "fence" => do
    let order ← do pure ((← scope) ++ (← ordering))
    effect (.type .void) (.text "fence" :: trailing order)
  | _ => pure none

/-! ## Terminators -/

def labelPieces (ls : List Ref) : List (Piece Ref) :=
  .text "[" :: commaPieces (ls.map fun l => [.text "label ", .label l]) ++ [.text "]"]

def labels : Reader (List Ref) := do
  symbol '['
  let ls ← separated label
  symbol ']'
  pure ls

def case? : Reader (Option (Ref × Ref)) := do
  match ← peek? with
  | some t =>
    if startsType t then
      let (_, k) ← constantTyped
      comma
      pure (some (k, ← label))
    else pure none
  | none => pure none

/-- Where an exception goes: a block, or out of the function. -/
def unwind : Reader (List (Piece Ref)) := do
  word "unwind"
  if ← skipWord "to" then
    word "caller"
    pure [.text "unwind to caller"]
  else pure [.text "unwind label ", .label (← label)]

def valueTerminator? (keyword : String) : Reader (Option (Result × Term Ref)) := do
  match keyword with
  | "invoke" => do
    let (r, c) ← call ["invoke"]
    word "to"
    let normal ← label
    word "unwind"
    pure (some (r, .invoke c normal (← label)))
  | "callbr" => do
    let (r, c) ← call ["callbr"]
    word "to"
    let normal ← label
    symbol '['
    pure (some (r, .callbr c normal (← upTo ']' label)))
  | "catchswitch" => do
    word "within"
    let p ← pad true
    let ls ← labels
    let out ← unwind
    pure (some (.type .token, .other
      ([.text "catchswitch within ", .bare p, .text " "] ++ labelPieces ls ++ .text " " :: out)))
  | _ => pure none

def terminator? (keyword : String) : Reader (Option (Term Ref)) := do
  match keyword with
  | "ret" => do
    if ← skipWord "void" then pure (some (.ret none))
    else
      let (_, x) ← typed
      pure (some (.ret (some x)))
  | "br" => do
    if ← isNext (.word "label") then pure (some (.br (← label)))
    else match ← next with
      | .intType ds => do
        let c ← valueOf (← intWidth ds)
        comma
        let t ← label
        comma
        pure (some (.condBr c t (← label)))
      | _ => malformed
  | "switch" => do
    let (_, x) ← typed
    comma
    let d ← label
    symbol '['
    let cases ← many case?
    symbol ']'
    pure (some (.switch x d cases))
  | "unreachable" => pure (some (.other [.text "unreachable"]))
  | "indirectbr" => do
    let (_, p) ← typed
    comma
    let ls ← labels
    pure (some (.other ([.text "indirectbr ", .typed p, .text ", "] ++ labelPieces ls)))
  | "resume" => do
    let (_, x) ← typed
    pure (some (.other [.text "resume ", .typed x]))
  | "catchret" => do
    word "from"
    let p ← valueOf .token
    word "to"
    let l ← label
    pure (some (.other [.text "catchret from ", .bare p, .text " to label ", .label l]))
  | "cleanupret" => do
    word "from"
    let p ← valueOf .token
    let out ← unwind
    pure (some (.other ([.text "cleanupret from ", .bare p, .text " "] ++ out)))
  | _ => pure none

/-! ## Statements -/

/-- An instruction or terminator with its name; true for a terminator. -/
def statement : Reader (ValueId × Bool) := do
  let name? ← match ← peek? with
    | some (.local n) => do
      advance
      symbol '='
      pure (some n)
    | _ => pure none
  let name := name?.getD (.number 0)
  let keyword ← match ← next with
    | .word w => pure w
    | _ => malformed
  match ← instruction? keyword with
  | some (r, i) => do pure (← define (.inst name r i (← attachments)), false)
  | none =>
  match ← valueTerminator? keyword with
  | some (r, i) => do pure (← define (.term name r i (← attachments)), true)
  | none => do
    if name?.isSome then malformed
    match ← action? keyword with
    | some (r, i) => pure (← define (.inst name r i (← attachments)), false)
    | none =>
    match ← terminator? keyword with
    | some i => do pure (← define (.term name (.type .void) i (← attachments)), true)
    | none => malformed

end Faultline.IR.Assembly
