/-
# IR.Assembly.Metadata — metadata and attributes from tokens

Metadata is kept as pieces of text with the constants in between. A node with a
kind, such as a source position, is kept field by field as it is written.
-/
import Faultline.IR.Assembly.Reader

namespace Faultline.IR.Assembly


/-! ## Metadata -/

def commaPieces {ν : Type} (xs : List (List (Piece ν))) : List (Piece ν) :=
  (xs.intersperse [.text ", "]).flatten

def debugName? : Reader (Option String) := do
  match ← peek? with
  | some (.debug w) => do
    advance
    pure (some w)
  | _ => pure none

def debugNames (first : String) : Reader String := do
  let rest ← many do
    if ← skipSymbol '|' then
      match ← debugName? with
      | some w => pure (some w)
      | none => malformed
    else pure none
  pure (" | ".intercalate (first :: rest))

def plainField? : Reader (Option String) := do
  match ← peek? with
  | some (.int ds) => do
    advance
    pure (some (String.ofList ds))
  | some (.string s) => do
    advance
    pure (some (quoteText s))
  | some (.debug w) => do
    advance
    some <$> debugNames w
  | some (.word w) =>
    if ["true", "false", "null", "none", "default"].contains w then do
      advance
      pure (some w)
    else pure none
  | _ => pure none

def nullOr (inner : Reader (List (Piece Ref))) : Reader (List (Piece Ref)) := do
  if ← skipWord "null" then pure [.text "null"] else inner

def field (inner : Reader (List (Piece Ref))) : Reader (List (Piece Ref)) := do
  let key ← match ← peek? with
    | some (.label n) => do
      advance
      pure (n.text ++ ": ")
    | _ => pure ""
  match ← plainField? with
  | some text => pure [.text (key ++ text)]
  | none => do pure (.text key :: (← inner))

/-- Metadata; `fuel` bounds the nesting. -/
def metadataFrom : Nat → Reader (List (Piece Ref))
  | 0 => malformed
  | fuel + 1 => do
    match ← peek? with
    | some (.symbol '!') => do
      advance
      match ← next with
      | .string s => pure [.text ("!" ++ quoteText s)]
      | .symbol '\x7b' => do
        let items ← upTo '\x7d' (nullOr (metadataFrom fuel))
        pure (.text "!\x7b" :: commaPieces items ++ [.text "\x7d"])
      | _ => malformed
    | some (.node ds) => do
      advance
      pure [.text (← nodeText ds)]
    | some (.tag name) => do
      advance
      symbol '('
      let fields ← upTo ')' (field (metadataFrom fuel))
      pure (.text (tagText name ++ "(") :: commaPieces fields ++ [.text ")"])
    | _ => do
      let (_, v) ← typed
      pure [.typed v]

def metadata : Reader (List (Piece Ref)) := do
  metadataFrom (← depth)

def node : Reader (List (Piece Ref)) := do
  match ← peek? with
  | some (.node _) | some (.tag _) => metadata
  | some (.symbol '!') => do
    match (← get).tokens with
    | _ :: .symbol '\x7b' :: _ => metadata
    | _ => malformed
  | _ => malformed

def attachment? : Reader (Option (List (Piece Ref))) := do
  match ← peek? with
  | some (.tag name) => do
    advance
    pure (some (.text (tagText name ++ " ") :: (← node)))
  | _ => pure none

def attachments : Reader (List (Piece Ref)) := do
  let items ← many do
    match ← afterComma? with
    | some (.tag _) => do
      advance
      attachment?
    | _ => pure none
  pure (items.flatMap fun ps => .text ", " :: ps)

/-! ## Attributes of functions -/

def functionWords : List String :=
  ["alwaysinline", "argmemonly", "builtin", "cold", "convergent", "inaccessiblemem_or_argmemonly",
   "inaccessiblememonly", "inlinehint", "jumptable", "minsize", "naked", "nobuiltin", "nocf_check",
   "noduplicate", "nofree", "noimplicitfloat", "noinline", "nonlazybind", "norecurse", "noredzone",
   "noreturn", "nosync", "nounwind", "optforfuzzing", "optnone", "optsize", "readnone", "readonly",
   "returns_twice", "safestack", "sanitize_address", "sanitize_hwaddress", "sanitize_memory",
   "sanitize_memtag", "sanitize_thread", "shadowcallstack", "speculatable", "speculative_load_hardening",
   "ssp", "sspreq", "sspstrong", "strictfp", "uwtable", "willreturn", "writeonly"]

def functionAttribute? : Reader (Option String) := do
  match ← get with
  | { tokens := .string _ :: _, .. } => some <$> stringAttribute
  | { tokens := .group ds :: _, .. } => do
    advance
    let n ← identifier ds
    mentionGroup n
    pure (some s!"#{n}")
  | { tokens := .word "alignstack" :: _, .. } => do
    advance
    if ← skipSymbol '=' then
      let n ← natural
      pure (some s!"alignstack={n}")
    else
      let n ← bracketed
      pure (some s!"alignstack({n})")
  | { tokens := .word "align" :: .symbol '=' :: _, .. } => do
    advance
    advance
    let n ← natural
    pure (some s!"align={n}")
  | { tokens := .word "allocsize" :: _, .. } => do
    advance
    symbol '('
    let size ← natural
    let text ← if ← skipSymbol ',' then do
        let count ← natural
        pure s!"allocsize({size}, {count})"
      else pure s!"allocsize({size})"
    symbol ')'
    pure (some text)
  | _ => wordIn? functionWords

def functionAttributes : Reader (List String) :=
  many functionAttribute?

/-! ## Calling conventions and address spaces -/

def conventionNames : List (Nat × String) :=
  [(8, "fastcc"), (9, "coldcc"), (10, "ghccc"), (12, "webkit_jscc"), (13, "anyregcc"),
   (14, "preserve_mostcc"), (15, "preserve_allcc"), (16, "swiftcc"), (17, "cxx_fast_tlscc"), (18, "tailcc"),
   (19, "cfguard_checkcc"), (64, "x86_stdcallcc"), (65, "x86_fastcallcc"), (66, "arm_apcscc"),
   (67, "arm_aapcscc"), (68, "arm_aapcs_vfpcc"), (69, "msp430_intrcc"), (70, "x86_thiscallcc"),
   (71, "ptx_kernel"), (72, "ptx_device"), (75, "spir_func"), (76, "spir_kernel"), (77, "intel_ocl_bicc"),
   (78, "x86_64_sysvcc"), (79, "win64cc"), (80, "x86_vectorcallcc"), (81, "hhvmcc"), (82, "hhvm_ccc"),
   (83, "x86_intrcc"), (84, "avr_intrcc"), (85, "avr_signalcc"), (87, "amdgpu_vs"), (88, "amdgpu_gs"),
   (89, "amdgpu_ps"), (90, "amdgpu_cs"), (91, "amdgpu_kernel"), (92, "x86_regcallcc"), (93, "amdgpu_hs"),
   (95, "amdgpu_ls"), (96, "amdgpu_es"), (97, "aarch64_vector_pcs"), (98, "aarch64_sve_vector_pcs")]

/-- The calling convention, if one comes next; number zero stands for none. -/
def convention : Reader (List String) := do
  if ← skipWord "cc" then
    let n ← natural
    if n = 0 then pure [] else pure [(conventionNames.lookup n).getD s!"cc {n}"]
  else
    pure (← wordIn? (callingKeywords.filter (· != "cc"))).toList

def addressSpace : Reader Nat := do
  if ← skipWord "addrspace" then bracketed else pure 0

def addressSpaceText (n : Nat) : List String :=
  if n = 0 then [] else [s!"addrspace({n})"]

end Faultline.IR.Assembly
