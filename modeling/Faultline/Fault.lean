/-
# Fault — why an operation was refused

A formula arena and the engines that build on it refuse an operation whose contract
is broken: an operand that is not held, a width that does not fit, a sentinel call
that says nothing. Each cause is one constructor and its wording is in `message?`
alone. A cause without a wording stands for a state in which there is nothing left
to describe.
-/
import Faultline.Formula.Op
import Faultline.Text.Quoted

namespace Faultline

open Formula (Op Binary)

inductive Fault where
  | notRealized (handle : Nat)
  /-- Nobody holds the formula any more. -/
  | alreadyReleased (handle : Nat)
  | releaseUnrealized (handle : Nat)
  | doubleRelease (handle : Nat)
  | zeroWidth (op : Op)
  | zeroWidthConst
  | zeroWidthVar (name : String)
  | queryWidth (width : Nat)
  | noSolver
  | extractRange (hi lo width : Nat)
  | iteCondition (width : Nat)
  | iteWidths (onTrue onFalse : Nat)
  | notBinary (code : Int)
  | binaryWidths (op : Binary) (left right : Nat)
  | operandWidths (left right : Nat)
  /-- The zero handle has no text. -/
  | noTerm
  /-- A raw handle lies past the arena. -/
  | outsideArena
  /-- A variable is asked of a closed arena. -/
  | arenaClosed
  | constTooWide
  /-- A term has fewer bits than the operand it extends. -/
  | noCircuit
  | nonIntegerType (type : String)
  | structIndex (value : String)
  | nonAggregate (type : String)
  | fieldRange (field : Int) (count : Nat)
  | sentinelArity (name : String) (count : Nat)
  | sentinelOpcode (name : String)
  | sentinelFlag (name : String)
  | overflowOpcode (opcode : Int)
  | faultSentinelArity (name : String) (count : Nat)
  | notSentinel (name : String)
  | predicate (text : String)
  | unbrokenCycle (block : String)
  | foreignBlock (block func : String)
  | foreignSuccessor (block func : String)
  | unindexedUser (text : String)
  | engineClosed
  | unprintable
  | endless
  | signless
  deriving DecidableEq, Inhabited

namespace Fault

private def assertion (text : String) : Option String :=
  some ("assert: " ++ text)

def message? : Fault → Option String
  | notRealized f => assertion s!"formula not realized: {f}"
  | alreadyReleased f => assertion s!"formula already released: {f}"
  | releaseUnrealized f => assertion s!"release of unrealized formula: {f}"
  | doubleRelease f => assertion s!"double release: {f}"
  | zeroWidth op => assertion ("zero width formula: " ++ op.name)
  | zeroWidthConst => assertion "zero width constant"
  | zeroWidthVar name => assertion ("zero width variable: " ++ Text.quote name)
  | queryWidth w => assertion s!"query of non-boolean formula: width {w}"
  | noSolver => assertion "context has no solver"
  | extractRange hi lo w => assertion s!"extract out of range: [{hi}:{lo}] of width {w}"
  | iteCondition w => assertion s!"ite condition width: {w}"
  | iteWidths a b => assertion s!"ite width mismatch: {a} != {b}"
  | notBinary code => assertion ("invalid binary op: " ++ Op.label code)
  | binaryWidths op a b => assertion ("width mismatch: " ++ op.name ++ s!" {a} != {b}")
  | operandWidths a b => assertion s!"width mismatch: {a} != {b}"
  | noTerm => some "unreachable"
  | nonIntegerType t => assertion ("non-integer type: " ++ t)
  | structIndex v => assertion ("non-constant struct index in " ++ v)
  | nonAggregate t => assertion ("indexing into non-aggregate type " ++ t)
  | fieldRange i n => assertion s!"struct field out of range: {i} of {n}"
  | sentinelArity name n => assertion ("overflow sentinel " ++ name ++ s!": {n} arguments")
  | sentinelOpcode name => assertion ("overflow sentinel " ++ name ++ ": non-constant opcode")
  | sentinelFlag name => assertion ("overflow sentinel " ++ name ++ ": non-constant nsw flag")
  | overflowOpcode code => assertion s!"unexpected overflow opcode {code}"
  | faultSentinelArity name n => assertion ("shift/div sentinel " ++ name ++ s!": {n} arguments")
  | notSentinel name => assertion ("not a sentinel call: " ++ name)
  | predicate text => assertion ("unexpected icmp predicate " ++ text)
  | unbrokenCycle block => assertion ("cycle through block " ++ block ++ " not broken by back edges")
  | foreignBlock block func => assertion ("block " ++ block ++ " not in function " ++ func)
  | foreignSuccessor block func => assertion ("successor " ++ block ++ " not in function " ++ func)
  | unindexedUser text => assertion ("user not indexed: " ++ text)
  | outsideArena | arenaClosed | constTooWide | noCircuit | engineClosed | unprintable | endless
  | signless => none

end Fault

end Faultline
