/-
# IR.Assembly.Typing — the types of drafts

With the definitions of the named types at hand every draft gets its type. A
constant has to fit the type that is written before it: `Written.elaborate` checks
that and gives the constant.
-/
import Faultline.IR.Assembly.Reader
import Faultline.IR.Assembly.Real

namespace Faultline.IR.Assembly

def Expected.type? (defs : TypeDefs) : Expected → Option Ty
  | .any => none
  | .type t => some t
  | .callee t args =>
    match t.resolve defs with
    | .func _ _ _ => some (.pointer t 0)
    | _ => some (.pointer (.func t args false) 0)

def Expected.resolved (defs : TypeDefs) (e : Expected) : Ty :=
  ((e.type? defs).getD .void).resolve defs

structure Typed where
  types : TypeDefs
  drafts : Array Draft
  defs : Array (Def Ref) := #[]

namespace Typed

variable (s : Typed)

/-! ## Indices -/

/-- What is known of an index: its number if it is constant, and its length if it is a vector. -/
structure Index where
  value? : Option Int
  lanes : Nat := 0

def number? : Ref → Option Int
  | .truth _ b => some (if b then 1 else 0)
  | .id v =>
    match s.defs[v]? with
    | some (.const _ (.int n)) => some (n.bmod (twoPow 64))
    | some (.const _ (.other [.text "zeroinitializer"])) => some 0
    | _ => none
  | _ => none

def common? (rs : List Ref) : Option Int :=
  match rs.map s.number? with
  | some n :: ns => if ns.all (· == some n) then some n else none
  | _ => none

def index (t : Ty) (r : Ref) : Index :=
  match r with
  | .local _ _ =>
    match t.resolve s.types with
    | .vector _ n _ => ⟨none, n⟩
    | _ => ⟨none, 0⟩
  | .id v =>
    match s.drafts[v]? with
    | some (.const _ (.aggregate .vector items)) => ⟨s.common? items, items.length⟩
    | _ => ⟨s.number? r, 0⟩
  | _ => ⟨s.number? r, 0⟩

def inward (t : Ty) (i : Index) : Except ReadError Ty :=
  match t.resolve s.types with
  | .array _ e | .vector _ _ e => .ok e
  | .struct _ fields =>
    match i.value? with
    | some (.ofNat k) =>
      match fields[k]? with
      | some f => .ok f
      | none => .error .untypable
    | some (.negSucc _) => .error .untypable
    | none => .error .malformed
  | _ => .error .malformed

/-- The length of a vector of addresses, where the parts must agree. -/
def agree (m n : Nat) : Except ReadError Nat :=
  if n = 0 then .ok m else if m = 0 || m = n then .ok n else .error .malformed

/-- The type of an address. The first index does not lead inward. -/
def addressType (elem base : Ty) (indices : List (Ty × Ref)) : Except ReadError Ty := do
  let (space, lanes) ← match base.resolve s.types with
    | .pointer _ space => pure (space, 0)
    | .vector _ n e =>
      match e.resolve s.types with
      | .pointer _ space => pure (space, n)
      | _ => .error .malformed
    | _ => .error .malformed
  let indices := indices.map fun (t, r) => s.index t r
  let lanes ← (indices.take 1).foldlM (fun lanes i => agree lanes i.lanes) lanes
  let (e, lanes) ← (indices.drop 1).foldlM (fun (e, lanes) i => do
    let lanes ← agree lanes i.lanes
    pure (← s.inward e i, lanes)) (elem, lanes)
  pure (if lanes = 0 then .pointer e space else .vector false lanes (.pointer e space))

/-! ## Results -/

def partType (defs : TypeDefs) : Ty → List Nat → Except ReadError Ty
  | t, [] => .ok t
  | t, i :: is =>
    match t.resolve defs with
    | .array _ e => partType defs e is
    | .struct _ fields =>
      match fields[i]? with
      | some f => partType defs f is
      | none => .error .untypable
    | _ => .error .malformed

def resultType : Result → Except ReadError Ty
  | .type t => .ok t
  | .comparison floats t =>
    match t.resolve s.types with
    | .int _ | .pointer _ _ => if floats then .error .malformed else .ok .bool
    | .float _ => if floats then .ok .bool else .error .malformed
    | .vector _ n _ => .ok (.vector false n .bool)
    | _ => .error .malformed
  | .element t =>
    match t.resolve s.types with
    | .vector _ _ e => .ok e
    | _ => .error .malformed
  | .vector t =>
    match t.resolve s.types with
    | .vector _ _ _ => .ok t
    | _ => .error .malformed
  | .shuffled t mask =>
    match t.resolve s.types, mask.resolve s.types with
    | .vector _ _ e, .vector _ n _ => .ok (.vector false n e)
    | _, _ => .error .malformed
  | .part t path => partType s.types t path
  | .pointee t =>
    match t.resolve s.types with
    | .pointer e _ => .ok e
    | _ => .error .malformed
  | .address elem base indices => s.addressType elem base indices
  | .call t =>
    match t.resolve s.types with
    | .func result _ _ => .ok result
    | _ => .ok t

/-! ## Constants -/

def numeralValue (bits : Nat) : Numeral → Except ReadError Int
  | .decimal n => .ok n
  | .hex false n => .ok n
  | .hex true n =>
    if bits = 0 then .error .untypable
    else .ok (if n.testBit (bits - 1) then (n : Int) - twoPow bits else n)

def aggregatePieces (opening closing : String) (items : List Ref) : List (Piece Ref) :=
  .text opening :: commaList items ++ [.text closing]

def fits (own : Ty) (e : Expected) : Except ReadError Unit :=
  match e.type? s.types with
  | none => .ok ()
  | some t => if Ty.same s.types own t then .ok () else .error .malformed

def constant (e : Expected) (w : Written) : Except ReadError (Def Ref) := do
  let t := (e.type? s.types).getD .void
  match w, t.resolve s.types with
  | .int n, .int bits => do pure (.const t (.int (← numeralValue bits n)))
  | .int _, _ => .error .malformed
  | .real cs, .float kind =>
    match Real.read kind cs with
    | .ok x => pure (.const t (.other [.text (x.text kind)]))
    | .error .short => .error .untypable
    | .error .range => .error .malformed
  | .real _, _ => .error .malformed
  | .null, .pointer _ _ => pure (.const t .null)
  | .null, _ => .error .malformed
  | .undef, _ => pure (.const t .undef)
  | .zero, _ => pure (.const t (.other [.text "zeroinitializer"]))
  | .chars bs, _ =>
    if Ty.same s.types t (.array bs.length (.int 8)) then pure (.const t (.other [.text ("c" ++ quoteText bs)]))
    else .error .malformed
  | .aggregate .struct items, .struct packed _ =>
    let inner := if items.isEmpty then [.text "\x7b\x7d"] else aggregatePieces "\x7b " " \x7d" items
    pure (.const t (.other (if packed then .text "<" :: inner ++ [.text ">"] else inner)))
  | .aggregate .struct items, .bodiless =>
    pure (.const t (.other (if items.isEmpty then [.text "\x7b\x7d"] else aggregatePieces "\x7b " " \x7d" items)))
  | .aggregate .array items, .array _ _ => pure (.const t (.other (aggregatePieces "[" "]" items)))
  | .aggregate .vector items, .vector _ _ _ => pure (.const t (.other (aggregatePieces "<" ">" items)))
  | .aggregate _ _, _ => .error .malformed
  | .blockAddress f b, _ =>
    pure (.const (.pointer (.int 8) 0)
      (.other [.text "blockaddress(", .bare (.global f), .text ", ", .bare (.block f b), .text ")"]))
  | .pieces ps, _ => pure (.const t (.other ps))
  | .expr result ps, _ => do
    let own ← s.resultType result
    s.fits own e
    pure (.const own (.other ps))
  | .gep inbounds elem base x indices, _ => do
    let own ← s.addressType elem base (indices.map Prod.snd)
    s.fits own e
    pure (.const own (.gep inbounds elem x (indices.map fun (inRange, _, r) => (inRange, r))))

/-! ## Drafts -/

def withResult (t : Ty) : Inst Ref → Inst Ref
  | .call c => .call { c with type := t }
  | i => i

def withTermResult (t : Ty) : Term Ref → Term Ref
  | .invoke c normal unwind => .invoke { c with type := t } normal unwind
  | .callbr c normal others => .callbr { c with type := t } normal others
  | i => i

def draft : Draft → Except ReadError (Def Ref)
  | .plain d => .ok d
  | .const e w => s.constant e w
  | .inst name r i trail => do
    let t ← s.resultType r
    pure (.inst name t (withResult t i) trail)
  | .term name r i trail => do
    let t ← s.resultType r
    pure (.term name t (withTermResult t i) trail)

end Typed

def elaborate (types : TypeDefs) (drafts : Array Draft) : Except ReadError (Array (Def Ref)) := do
  let s ← drafts.foldlM (fun (s : Typed) d => do
    pure { s with defs := s.defs.push (← s.draft d) }) ⟨types, drafts, #[]⟩
  pure s.defs

end Faultline.IR.Assembly
