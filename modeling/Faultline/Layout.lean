/-
# Layout — how types lie in memory

A layout gives the width of pointers and the alignment of pointers, integers,
floating-point numbers and aggregates. It is read from the specification string of
a target, in which anything else is skipped. Sizes are words of 64 bits and wrap.

`extent` measures a type whose names are replaced by their definitions. Fields of
a struct follow each other, each at the next multiple of its alignment, unless
the struct is packed.
-/
import Faultline.Fault
import Faultline.IR.Type
import Faultline.Text.Number

namespace Faultline

open IR (Ty)
open Text (Bytes utf8 quoteBytes splitBytes)

structure Layout where
  pointerBits : Nat := 64
  /-- Alignments are in bytes. -/
  pointerAlign : Nat := 8
  aggregateAlign : Nat := 1
  intAligns : List (Nat × Nat) := [(1, 1), (8, 1), (16, 2), (32, 4), (64, 4)]
  floatAligns : List (Nat × Nat) := [(16, 2), (32, 4), (64, 8), (128, 16)]
  deriving DecidableEq, Inhabited

namespace Layout

def blank : Layout := ⟨0, 0, 0, [], []⟩

/-! ## Reading a specification -/

inductive SpecError where
  | pointer (spec : Bytes)
  | alignment (spec : Bytes)
  | aggregate (spec : Bytes)
  | number (text : Bytes) (fault : Text.NumberFault)
  /-- A specification with nothing before its first colon. -/
  | headless
  deriving DecidableEq, Inhabited

def faultText : Text.NumberFault → String
  | .form => "invalid syntax"
  | .range => "value out of range"

/-- A headless specification has no wording. -/
def SpecError.message? : SpecError → Option String
  | .pointer spec => some ("invalid pointer spec: " ++ quoteBytes spec)
  | .alignment spec => some ("invalid alignment spec: " ++ quoteBytes spec)
  | .aggregate spec => some ("invalid aggregate spec: " ++ quoteBytes spec)
  | .number s fault =>
    some ("invalid data layout number " ++ quoteBytes s ++ ": strconv.ParseUint: parsing "
      ++ quoteBytes s ++ ": " ++ faultText fault)
  | .headless => none

def number (s : Bytes) : Except SpecError Nat :=
  match Text.digits 10 (twoPow 32) (Text.codes s) with
  | .ok n => .ok n
  | .error fault => .error (.number s fault)

def bytesOf (bits : Nat) : Nat :=
  if bits < 8 then 1 else bits / 8

def setAlign (size align : Nat) : List (Nat × Nat) → List (Nat × Nat)
  | [] => [(size, align)]
  | (s, a) :: rest =>
    if size < s then (size, align) :: (s, a) :: rest
    else if size = s then (size, align) :: rest
    else (s, a) :: setAlign size align rest

def colon : UInt8 := 58

def dash : UInt8 := 45

def letterI : UInt8 := 105

def letterF : UInt8 := 102

def apply (l : Layout) (spec : Bytes) : Except SpecError Layout := do
  if spec.isEmpty then return l
  let fields := splitBytes colon spec
  let head := fields.headD []
  if head == utf8 "p" || head == utf8 "p0" then
    match fields with
    | _ :: size :: align :: _ =>
      let size ← number size
      let align ← number align
      return { l with pointerBits := size, pointerAlign := bytesOf align }
    | _ => throw (.pointer spec)
  else match head with
    | [] => throw .headless
    | c :: digits =>
      if c == letterI || c == letterF then
        match fields with
        | _ :: align :: _ =>
          let size ← number digits
          let align ← number align
          if c == letterI then return { l with intAligns := setAlign size (bytesOf align) l.intAligns }
          else return { l with floatAligns := setAlign size (bytesOf align) l.floatAligns }
        | _ => throw (.alignment spec)
      else if head == utf8 "a" || head == utf8 "a0" then
        match fields with
        | _ :: align :: _ =>
          let align ← number align
          return { l with aggregateAlign := bytesOf align }
        | _ => throw (.aggregate spec)
      else return l

def parse (s : Bytes) : Except SpecError Layout :=
  if s.isEmpty then .ok {} else (splitBytes dash s).foldlM apply {}

/-! ## Measuring types -/

def wrap (n : Nat) : Nat :=
  n % twoPow 64

/-- The next multiple of `align`, which matters above one. -/
def alignTo (n align : Nat) : Nat :=
  if align ≤ 1 then n else wrap (wrap (n + align - 1) / align * align)

/-- Doubles `p` until it reaches `n`; a word has 64 doublings. -/
def doubleUpTo (n : Nat) : Nat → Nat → Nat
  | 0, p => p
  | fuel + 1, p => if p < n then doubleUpTo n fuel (wrap (2 * p)) else p

def nextPowerOfTwo (n : Nat) : Nat :=
  doubleUpTo n 64 1

/-- The entry of this width, else of the next wider one, else of the widest. -/
def lookupAlign (table : List (Nat × Nat)) (size : Nat) : Nat :=
  match table.find? fun (s, _) => size ≤ s with
  | some (_, a) => a
  | none => (table.getLast?.map Prod.snd).getD 1

/-- The size of a type in bits and its alignment in bytes. -/
structure Extent where
  bits : Nat
  align : Nat
  deriving DecidableEq, Inhabited

namespace Extent

/-- Bytes written when a value is stored. -/
def store (e : Extent) : Nat :=
  wrap (e.bits + 7) / 8

/-- Bytes from one element of an array to the next. -/
def alloc (e : Extent) : Nat :=
  alignTo e.store e.align

end Extent

structure Placement where
  offsets : List Nat
  size : Nat
  align : Nat
  deriving DecidableEq, Inhabited

/-- Places the fields from `offset` on; gives their offsets, the end and the largest alignment. -/
def placeFrom (packed : Bool) : List Extent → Nat → Nat → List Nat × Nat × Nat
  | [], offset, align => ([], offset, align)
  | f :: fs, offset, align =>
    let a := if packed then 1 else f.align
    let offset := alignTo offset a
    let (offsets, stop, align) := placeFrom packed fs (wrap (offset + f.alloc)) (max align a)
    (offset :: offsets, stop, align)

def place (l : Layout) (packed : Bool) (fields : List Extent) : Placement :=
  let (offsets, stop, align) := placeFrom packed fields 0 (if packed then 1 else l.aggregateAlign)
  ⟨offsets, alignTo stop align, align⟩

def floatAlign (l : Layout) (bits : Nat) : Nat :=
  match l.floatAligns.lookup bits with
  | some a => a
  | none => nextPowerOfTwo ((bits + 7) / 8)

mutual

/-- Types without a size measure zero bits and one byte. -/
def extent (l : Layout) : Ty → Extent
  | .int bits => ⟨bits, lookupAlign l.intAligns bits⟩
  | .pointer _ _ => ⟨l.pointerBits, l.pointerAlign⟩
  | .float kind => ⟨kind.bits, l.floatAlign kind.bits⟩
  | .array n t =>
    let e := extent l t
    ⟨wrap (n * e.alloc * 8), e.align⟩
  | .vector _ n t =>
    let bits := wrap (n * (extent l t).bits)
    ⟨bits, nextPowerOfTwo (Extent.store ⟨bits, 1⟩)⟩
  | .struct packed fields =>
    let p := l.place packed (extents l fields)
    ⟨wrap (p.size * 8), p.align⟩
  | _ => ⟨0, 1⟩

def extents (l : Layout) : List Ty → List Extent
  | [] => []
  | t :: ts => extent l t :: extents l ts

end

/-- The offsets of the fields of a struct; other types have none. -/
def fieldOffsets (l : Layout) : Ty → List Nat
  | .struct packed fields => (l.place packed (l.extents fields)).offsets
  | _ => []

def fieldOffset (l : Layout) (t : Ty) (i : Int) : Except Fault Nat :=
  let offsets := l.fieldOffsets t
  match i with
  | .ofNat k =>
    match offsets[k]? with
    | some o => .ok o
    | none => .error (.fieldRange i offsets.length)
  | .negSucc _ => .error (.fieldRange i offsets.length)

def isNoopCast (l : Layout) (a b : Ty) : Bool :=
  (l.extent a).bits == (l.extent b).bits

end Layout

end Faultline
