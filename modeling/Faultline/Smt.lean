/-
# Smt — scripts in SMT-LIB

The part of SMT-LIB that a query over bit-vectors needs: terms of bit-vector sort,
and commands that declare, define and assert. A truth value occurs only as the
condition of a choice, and a condition is always a comparison of two terms.

A symbol may be written with bars around it.
-/
import Faultline.Formula.Op

namespace Faultline.Smt

open Formula (Arith Compare)

structure Symbol where
  name : String
  barred : Bool
  deriving DecidableEq, Inhabited

inductive Term where
  | symbol (s : Symbol)
  | numeral (value width : Nat)
  | bit (b : Bool)
  | not (x : Term)
  | neg (x : Term)
  | zeroExtend (count : Nat) (x : Term)
  | signExtend (count : Nat) (x : Term)
  | extract (hi lo : Nat) (x : Term)
  | arith (op : Arith) (x y : Term)
  | choice (op : Compare) (x y first second : Term)
  deriving Inhabited

inductive Command where
  | setLogic
  | declare (s : Symbol) (width : Nat)
  | define (s : Symbol) (width : Nat) (body : Term)
  | assert (x : Term)
  | checkSat
  deriving Inhabited

abbrev Script := List Command

def Symbol.text (s : Symbol) : String :=
  if s.barred then "|" ++ s.name ++ "|" else s.name

/-- A symbol of any name, in bars. Bars and backslashes, which cannot stand between bars, are
written as underscores. -/
def Symbol.quoted (name : String) : Symbol :=
  ⟨String.ofList (name.toList.map fun c => if c == '|' || c == '\\' then '_' else c), true⟩

def Term.text : Term → String
  | .symbol s => s.text
  | .numeral v w => s!"(_ bv{v} {w})"
  | .bit b => if b then "#b1" else "#b0"
  | .not x => "(bvnot " ++ x.text ++ ")"
  | .neg x => "(bvneg " ++ x.text ++ ")"
  | .zeroExtend k x => s!"((_ zero_extend {k}) " ++ x.text ++ ")"
  | .signExtend k x => s!"((_ sign_extend {k}) " ++ x.text ++ ")"
  | .extract hi lo x => s!"((_ extract {hi} {lo}) " ++ x.text ++ ")"
  | .arith op x y => "(" ++ op.name ++ " " ++ x.text ++ " " ++ y.text ++ ")"
  | .choice op x y t e =>
    "(ite (" ++ op.name ++ " " ++ x.text ++ " " ++ y.text ++ ") " ++ t.text ++ " " ++ e.text ++ ")"

def Command.text : Command → String
  | .setLogic => "(set-logic QF_BV)"
  | .declare s w => "(declare-fun " ++ s.text ++ s!" () (_ BitVec {w}))"
  | .define s w body => "(define-fun " ++ s.text ++ s!" () (_ BitVec {w}) " ++ body.text ++ ")"
  | .assert x => "(assert (= " ++ x.text ++ " #b1))"
  | .checkSat => "(check-sat)"

/-- A line for each command. -/
def Script.text (s : Script) : String :=
  String.join (s.map fun c => c.text ++ "\n")

end Faultline.Smt
