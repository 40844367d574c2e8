/-
# IR.Type — types of the intermediate representation

Pointers are typed. A named type stands for its definition in the module, so types
may be recursive through pointers; `resolve` looks a name up, and `inline` replaces
the names by definitions wherever the layout of a type depends on them, which is
never below a pointer.

`same` compares types: names stand for what they are defined as, except that a
struct with a name is the same only as itself.
-/
import Faultline.Text.Bytes

namespace Faultline.IR

open Text (Bytes)

inductive FloatKind where
  | half | float | double | x86fp80 | fp128 | ppcfp128
  deriving DecidableEq, Inhabited

inductive Ty where
  | void
  | int (bits : Nat)
  | float (kind : FloatKind)
  | pointer (elem : Ty) (space : Nat)
  | vector (scalable : Bool) (count : Nat) (elem : Ty)
  | array (count : Nat) (elem : Ty)
  | struct (packed : Bool) (fields : List Ty)
  | bodiless
  | named (name : Bytes)
  | func (result : Ty) (params : List Ty) (variadic : Bool)
  | label
  | token
  | metadata
  | mmx
  deriving Inhabited

abbrev TypeDefs := List (Bytes × Ty)

namespace FloatKind

def name : FloatKind → String
  | half => "half" | float => "float" | double => "double" | x86fp80 => "x86_fp80"
  | fp128 => "fp128" | ppcfp128 => "ppc_fp128"

def bits : FloatKind → Nat
  | half => 16 | float => 32 | double => 64 | x86fp80 => 80 | fp128 => 128 | ppcfp128 => 128

def all : List FloatKind :=
  [half, float, double, x86fp80, fp128, ppcfp128]

end FloatKind

namespace Ty

def bool : Ty := .int 1

def resolveFrom (defs : TypeDefs) : Nat → Ty → Ty
  | fuel + 1, .named name =>
    match defs.lookup name with
    | some t => resolveFrom defs fuel t
    | none => .named name
  | _, t => t

def resolve (defs : TypeDefs) (t : Ty) : Ty :=
  resolveFrom defs (defs.length + 1) t

mutual

/-- Replaces names by their definitions, up to `fuel` of them inside each other. -/
def inline (defs : TypeDefs) (fuel : Nat) : Ty → Ty
  | .vector scalable n t => .vector scalable n (inline defs fuel t)
  | .array n t => .array n (inline defs fuel t)
  | .struct packed ts => .struct packed (inlineAll defs fuel ts)
  | .named name =>
    match fuel with
    | 0 => .named name
    | fuel + 1 =>
      match defs.lookup name with
      | some t => inline defs fuel t
      | none => .named name
  | t => t
termination_by t => (fuel, sizeOf t)

def inlineAll (defs : TypeDefs) (fuel : Nat) : List Ty → List Ty
  | [] => []
  | t :: ts => inline defs fuel t :: inlineAll defs fuel ts
termination_by ts => (fuel, sizeOf ts)

end

/-- The last of the names that are defined as one another, from a name on. -/
def lastName (defs : TypeDefs) : Nat → Bytes → Bytes
  | 0, name => name
  | fuel + 1, name =>
    match defs.lookup name with
    | some (.named next) => lastName defs fuel next
    | _ => name

def name? (defs : TypeDefs) : Ty → Option Bytes
  | .named name => some (lastName defs defs.length name)
  | _ => none

mutual

def depth : Ty → Nat
  | .pointer t _ | .vector _ _ t | .array _ t => depth t + 1
  | .struct _ ts => depthAll ts + 1
  | .func t ts _ => depth t + depthAll ts + 1
  | _ => 1

def depthAll : List Ty → Nat
  | [] => 0
  | t :: ts => max (depth t) (depthAll ts)

end

/-- Compares types that are nested up to `fuel` deep. -/
def sameFrom (defs : TypeDefs) : Nat → Ty → Ty → Bool
  | 0, _, _ => false
  | fuel + 1, a, b =>
    let all := fun (ts us : List Ty) =>
      ts.length == us.length && (ts.zip us).all fun (t, u) => sameFrom defs fuel t u
    match resolve defs a, resolve defs b with
    | .void, .void | .label, .label | .token, .token | .metadata, .metadata | .mmx, .mmx => true
    | .int m, .int n => m == n
    | .float j, .float k => j == k
    | .pointer t m, .pointer u n => m == n && sameFrom defs fuel t u
    | .vector _ m t, .vector _ n u => m == n && sameFrom defs fuel t u
    | .array m t, .array n u => m == n && sameFrom defs fuel t u
    | .func t ts v, .func u us w => v == w && sameFrom defs fuel t u && all ts us
    | .struct p ts, .struct q us =>
      match name? defs a, name? defs b with
      | none, none => p == q && all ts us
      | x, y => x == y
    | .struct _ _, .bodiless | .bodiless, .struct _ _ | .bodiless, .bodiless =>
      name? defs a == name? defs b
    | _, _ => false

/-- Two types are the same; every definition is looked into at most once on the way. -/
def same (defs : TypeDefs) (a b : Ty) : Bool :=
  sameFrom defs (defs.foldl (fun n d => n + depth d.2) (depth a + depth b + 1)) a b

/-- A type without names, as far as its layout goes. -/
def closed (defs : TypeDefs) (t : Ty) : Ty :=
  inline defs (defs.length + 1) t

end Ty

end Faultline.IR
