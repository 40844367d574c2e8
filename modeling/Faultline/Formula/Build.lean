/-
# Formula.Build — the builders

Each builder checks its operands, folds constants, applies the few identities
that keep path formulas small, and otherwise adds a node. Whatever happens, the
caller of a builder that returns owns one reference to the result.

Widths are words of 64 bits: `addWidth` wraps. An extension by a count near
`2 ^ 64` therefore gives a term narrower than its operand, which can be built,
printed and folded, but has no circuit.
-/
import Faultline.Formula.Arena
import Faultline.Formula.Fold

namespace Faultline.Formula

def widthRange : Nat :=
  twoPow 64

def addWidth (a b : Nat) : Nat :=
  (a + b) % widthRange

def subWidth (a b : Nat) : Nat :=
  (a + widthRange - b) % widthRange

/-- The value of a constant of this width, computed with six words to spare, would fill more than
an address space of 48 bits. -/
def widthLimit : Nat :=
  twoPow 51 - 5 * 64

def const (w : Nat) (v : Int) : Build Handle := do
  need (0 < w) .zeroWidthConst
  need (w < widthLimit) .constTooWide
  add ⟨w, .const (truncate w v)⟩

def ofBool (b : Bool) : Build Handle :=
  const 1 (if b then 1 else 0)

/-- A new variable. A name that is empty or taken gets the handle of the new node appended. -/
def var (w : Nat) (name : String) : Build Handle := do
  need (0 < w) (.zeroWidthVar name)
  let a ← get
  need (a.closed = false) .arenaClosed
  let name := if name.isEmpty || a.names.contains name then name ++ "#" ++ toString a.next else name
  modify fun a => { a with names := a.names.insert name }
  add ⟨w, .var name⟩

def constValue? (f : Handle) : Build (Option Nat) := do
  match (← held f).term with
  | .const v => pure (some v)
  | _ => pure none

/-- Whether `f` is the constant `b` of one bit. -/
def isBool (b : Bool) (f : Handle) : Build Bool := do
  match ← held f with
  | ⟨1, .const v⟩ => pure ((v != 0) == b)
  | _ => pure false

def not (f : Handle) : Build Handle := do
  let n ← held f
  match n.term with
  | .const v => const n.width (v ^^^ mask n.width : Nat)
  | .not g => retain g
  | _ => add ⟨n.width, .not f⟩

def neg (f : Handle) : Build Handle := do
  let n ← held f
  match n.term with
  | .const v => const n.width (-(v : Int))
  | _ => add ⟨n.width, .neg f⟩

/-- `f` with `k` more bits, all zero. -/
def zext (f : Handle) (k : Nat) : Build Handle := do
  let n ← held f
  if k = 0 then retain f
  else match n.term with
    | .const v => const (addWidth n.width k) v
    | _ => add ⟨addWidth n.width k, .zext f⟩

/-- `f` with `k` more bits, all equal to its sign bit. -/
def sext (f : Handle) (k : Nat) : Build Handle := do
  let n ← held f
  if k = 0 then retain f
  else match n.term with
    | .const v => const (addWidth n.width k) (signed n.width v)
    | _ => add ⟨addWidth n.width k, .sext f⟩

def extract (f : Handle) (hi lo : Nat) : Build Handle := do
  let n ← held f
  need (lo ≤ hi ∧ hi < n.width) (.extractRange hi lo n.width)
  if lo = 0 ∧ hi + 1 = n.width then retain f
  else match n.term with
    | .const v => const (hi - lo + 1) (v >>> lo : Nat)
    | _ => add ⟨hi - lo + 1, .extract f hi lo⟩

def ite (c t e : Handle) : Build Handle := do
  let wc ← width c
  need (wc = 1) (.iteCondition wc)
  let wt ← width t
  let we ← width e
  need (wt = we) (.iteWidths wt we)
  if (← isBool true c) || t == e then retain t
  else if ← isBool false c then retain e
  else add ⟨wt, .ite c t e⟩

/-- What a constant operand decides about a conjunction or disjunction of single bits: the bit
that fixes the result, if the operation has one. -/
def Arith.absorbing? : Arith → Option Bool
  | .and => some false
  | .or => some true
  | _ => none

def binary (op : Binary) (a b : Handle) : Build Handle := do
  let na ← held a
  let nb ← held b
  let w := na.width
  need (w = nb.width) (.binaryWidths op w nb.width)
  match op, na.term, nb.term with
  | .compare op, .const x, .const y => ofBool (op.fold w x y)
  | .arith op, .const x, .const y => const w (op.fold w x y)
  | .compare op, _, _ => add ⟨1, .compare op a b⟩
  | .arith op, x, y =>
    match if w = 1 then op.absorbing? else none, x, y with
    | some bit, .const v, _ => if (v != 0) == bit then ofBool bit else retain b
    | some bit, _, .const v => if (v != 0) == bit then ofBool bit else retain a
    | _, _, _ => add ⟨w, .arith op a b⟩

def arith (op : Arith) (a b : Handle) : Build Handle :=
  binary (.arith op) a b

def compare (op : Compare) (a b : Handle) : Build Handle :=
  binary (.compare op) a b

/-- `binary` for an operation given by its code, which may be none of two operands. -/
def binaryOfCode (code : Int) (a b : Handle) : Build Handle := do
  match (Op.ofCode? code).bind Op.binary? with
  | some op => binary op a b
  | none => throw (.notBinary code)

end Faultline.Formula
