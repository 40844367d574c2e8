/-
# Proofs.Smt.Semantics — what SMT-LIB scripts mean

The sorts, terms and commands of SMT-LIB, on expressions as `read` gives them. The
functions of the theory are known by their names only (`operations`, `relations`).
`Expr.ty?` gives a term its sort and `Expr.eval?` its value, both by one recursion
over terms (`Expr.fold`), in a scope of bound names.

`WellSorted` asks of every command of a script that the names it mentions have been
bound before, with the right sorts, and that it binds no name again. `Holds` says
that all assertions are true, if the declared names have the values that an
interpretation gives them.
-/
import Faultline.Proofs.Formula.Fold
import Faultline.Proofs.Smt.Reader

namespace Faultline.Smt

/-! ## Values -/

inductive Ty where
  | truth
  | word (width : Nat)
  deriving DecidableEq

inductive Value where
  | truth (b : Bool)
  | word (width : Nat) (x : BitVec width)

def Value.ty : Value → Ty
  | .truth _ => .truth
  | .word w _ => .word w

/-! ## Functions of the theory -/

def negations : List (String × (∀ w, BitVec w → BitVec w)) :=
  [("bvnot", fun _ x => ~~~x), ("bvneg", fun _ x => -x)]

def operations : List (String × (∀ w, BitVec w → BitVec w → BitVec w)) :=
  [("bvadd", fun _ x y => x + y), ("bvsub", fun _ x y => x - y), ("bvmul", fun _ x y => x * y),
    ("bvudiv", fun _ x y => x.smtUDiv y), ("bvsdiv", fun _ x y => x.smtSDiv y),
    ("bvurem", fun _ x y => x % y), ("bvsrem", fun _ x y => x.srem y),
    ("bvand", fun _ x y => x &&& y), ("bvor", fun _ x y => x ||| y), ("bvxor", fun _ x y => x ^^^ y),
    ("bvshl", fun _ x y => x <<< y.toNat), ("bvlshr", fun _ x y => x >>> y.toNat),
    ("bvashr", fun _ x y => x.sshiftRight y.toNat)]

def relations : List (String × (∀ w, BitVec w → BitVec w → Bool)) :=
  [("bvult", fun _ x y => x.ult y), ("bvule", fun _ x y => x.ule y),
    ("bvugt", fun _ x y => y.ult x), ("bvuge", fun _ x y => y.ule x),
    ("bvslt", fun _ x y => x.slt y), ("bvsle", fun _ x y => x.sle y),
    ("bvsgt", fun _ x y => y.slt x), ("bvsge", fun _ x y => y.sle x)]

def Value.same? : Value → Value → Option Bool
  | .truth b, .truth c => some (b == c)
  | .word v x, .word w y => if h : v = w then some (x.cast h == y) else none
  | _, _ => none

/-- A function that takes numerals besides its argument. -/
def indexed? (op : String) (index : Expr) (w : Nat) (x : BitVec w) : Option Value :=
  match index with
  | .cons (.numeral k) .nil =>
    if op = "zero_extend" then some (.word (w + k) (x.setWidth (w + k)))
    else if op = "sign_extend" then some (.word (w + k) (x.signExtend (w + k)))
    else none
  | .cons (.numeral hi) (.cons (.numeral lo) .nil) =>
    if op = "extract" ∧ lo ≤ hi ∧ hi < w then some (.word (hi - lo + 1) (x.extractLsb hi lo)) else none
  | _ => none

def binary? (op : String) (u v : Value) : Option Value :=
  if op = "=" then (u.same? v).map .truth
  else if op = "distinct" then (u.same? v).map fun same => .truth !same
  else match u, v with
    | .word v x, .word w y =>
      if h : v = w then
        match operations.lookup op, relations.lookup op with
        | some f, _ => some (.word w (f w (x.cast h) y))
        | none, some r => some (.truth (r w (x.cast h) y))
        | none, none => none
      else none
    | _, _ => none

/-- The function that `head` names, applied; none if it does not take such arguments. -/
def denote (head : Expr) (args : List Value) : Option Value :=
  match head, args with
  | .symbol op, [.word w x] => (negations.lookup op).map fun f => .word w (f w x)
  | .symbol op, [u, v] => binary? op u v
  | .symbol op, [.truth c, u, v] => if op = "ite" ∧ u.ty = v.ty then some (if c then u else v) else none
  | .cons (.symbol mark) (.cons (.symbol op) index), [.word w x] =>
    if mark = "_" then indexed? op index w x else none
  | _, _ => none

def rank (head : Expr) (args : List Ty) : Option Ty :=
  match head, args with
  | .symbol op, [.word w] => (negations.lookup op).map fun _ => .word w
  | .symbol op, [t, u] =>
    if t ≠ u then none
    else if op = "=" ∨ op = "distinct" then some .truth
    else match t with
      | .truth => none
      | .word w =>
        match operations.lookup op, relations.lookup op with
        | some _, _ => some (.word w)
        | none, some _ => some .truth
        | none, none => none
  | .symbol op, [.truth, t, u] => if op = "ite" ∧ t = u then some t else none
  | .cons (.symbol mark) (.cons (.symbol op) (.cons (.numeral k) .nil)), [.word w] =>
    if mark = "_" ∧ (op = "zero_extend" ∨ op = "sign_extend") then some (.word (w + k)) else none
  | .cons (.symbol mark) (.cons (.symbol op) (.cons (.numeral hi) (.cons (.numeral lo) .nil))), [.word w] =>
    if mark = "_" ∧ op = "extract" ∧ lo ≤ hi ∧ hi < w then some (.word (hi - lo + 1)) else none
  | _, _ => none

/-! ## Terms -/

/-- A word written out, or as a decimal number and a width. -/
def constant? : Expr → Option Value
  | .binary [] => none
  | .binary (d :: ds) => some (.word _ (BitVec.ofNat (d :: ds).length ((d :: ds).foldl (fun n d => 2 * n + d.toNat) 0)))
  | .cons (.symbol _) (.cons (.symbol c) (.cons (.numeral w) .nil)) =>
    match c.toList with
    | 'b' :: 'v' :: digits =>
      (numeral? digits).bind fun n => if 0 < w ∧ n < 2 ^ w then some (.word w (BitVec.ofNat w n)) else none
    | _ => none
  | _ => none

section Fold

variable {α : Type} (bound : String → Option α) (const : Value → α) (app : Expr → List α → Option α)

mutual

/-- The recursion over terms: bound names, constants, and applications. -/
def Expr.fold : Expr → Option α
  | .symbol s => bound s
  | .cons head rest =>
    if head = .symbol "_" then (constant? (.cons head rest)).map const
    else (Expr.foldAll rest).bind (app head)
  | e => (constant? e).map const

def Expr.foldAll : Expr → Option (List α)
  | .nil => some []
  | .cons x rest => (Expr.fold x).bind fun v => (Expr.foldAll rest).map (v :: ·)
  | _ => none

end

end Fold

def Expr.ty? (scope : String → Option Ty) (e : Expr) : Option Ty :=
  e.fold scope Value.ty rank

def Expr.eval? (scope : String → Option Value) (e : Expr) : Option Value :=
  e.fold scope id denote

section Fold

variable {α : Type} {bound : String → Option α} {const : Value → α} {app : Expr → List α → Option α}

lemma Expr.foldAll_list (xs : List Expr) :
    (Expr.list xs).foldAll bound const app = xs.mapM (Expr.fold bound const app) := by
  induction xs with
  | nil => rfl
  | cons x xs ih =>
    show ((x.fold bound const app).bind fun v => ((Expr.list xs).foldAll bound const app).map (v :: ·)) = _
    rw [ih, List.mapM_cons]
    cases x.fold bound const app with
    | none => rfl
    | some v => cases xs.mapM (Expr.fold bound const app) <;> rfl

lemma Expr.fold_apply {head : Expr} (function : head ≠ .symbol "_") (args : List Expr) :
    (Expr.list (head :: args)).fold bound const app = (args.mapM (Expr.fold bound const app)).bind (app head) := by
  rw [← Expr.foldAll_list]
  show (Expr.cons head (Expr.list args)).fold bound const app = _
  rw [Expr.fold, if_neg function]

end Fold

/-! ## Scripts -/

def Expr.items? : Expr → Option (List Expr)
  | .nil => some []
  | .cons x rest => rest.items?.map (x :: ·)
  | _ => none

def Expr.width? (e : Expr) : Option Nat :=
  match e.items? with
  | some [.symbol mark, .symbol name, .numeral w] =>
    if mark = "_" ∧ name = "BitVec" ∧ 0 < w then some w else none
  | _ => none

inductive Step where
  | logic (name : String)
  | declare (name : String) (width : Nat)
  | define (name : String) (width : Nat) (body : Expr)
  | assert (e : Expr)
  | check

def Expr.step? (e : Expr) : Option Step :=
  match e.items? with
  | some [.symbol c] => if c = "check-sat" then some .check else none
  | some [.symbol c, x] =>
    if c = "assert" then some (.assert x)
    else match x with
      | .symbol l => if c = "set-logic" then some (.logic l) else none
      | _ => none
  | some [.symbol c, .symbol s, .nil, t] =>
    if c = "declare-fun" then t.width?.map (.declare s) else none
  | some [.symbol c, .symbol s, .nil, t, body] =>
    if c = "define-fun" then t.width?.map (.define s · body) else none
  | _ => none

def readScript (text : String) : Option (List Step) :=
  (read text).bind fun es => es.mapM Expr.step?

def bindName {α : Type} (scope : String → Option α) (name : String) (meaning : Option α) : String → Option α :=
  fun s => if s = name then meaning else scope s

/-- Every command finds the names it mentions bound, with the right sorts, and its own name free. -/
def WellSorted (scope : String → Option Ty) : List Step → Prop
  | [] => True
  | .logic name :: rest => name = "QF_BV" ∧ WellSorted scope rest
  | .declare name w :: rest => scope name = none ∧ WellSorted (bindName scope name (some (.word w))) rest
  | .define name w body :: rest =>
    scope name = none ∧ body.ty? scope = some (.word w) ∧
      WellSorted (bindName scope name (some (.word w))) rest
  | .assert e :: rest => e.ty? scope = some .truth ∧ WellSorted scope rest
  | .check :: rest => WellSorted scope rest

/-- The assertions are true when the declared names have these values. -/
def Holds (values : String → Nat) (scope : String → Option Value) : List Step → Prop
  | [] => True
  | .declare name w :: rest =>
    Holds values (bindName scope name (some (.word w (BitVec.ofNat w (values name))))) rest
  | .define name _ body :: rest => Holds values (bindName scope name (body.eval? scope)) rest
  | .assert e :: rest => e.eval? scope = some (.truth true) ∧ Holds values scope rest
  | .logic _ :: rest => Holds values scope rest
  | .check :: rest => Holds values scope rest

/-! ## Reading commands -/

lemma Expr.items?_list (xs : List Expr) : (Expr.list xs).items? = some xs := by
  induction xs with
  | nil => rfl
  | cons x xs ih =>
    show (Expr.list xs).items?.map (x :: ·) = _
    rw [ih]
    rfl

lemma width?_sortExpr {w : Nat} (positive : 0 < w) : (sortExpr w).width? = some w := by
  simp [Expr.width?, sortExpr, Expr.items?_list, positive]

def Command.step : Command → Step
  | .setLogic => .logic "QF_BV"
  | .declare s w => .declare s.name w
  | .define s w body => .define s.name w body.expr
  | .assert x => .assert (.list [.symbol "=", x.expr, .binary [true]])
  | .checkSat => .check

/-- A command binds no words without bits. -/
def Command.Sized : Command → Prop
  | .declare _ w | .define _ w _ => 0 < w
  | _ => True

lemma Command.step?_expr {c : Command} (sized : c.Sized) : c.expr.step? = some c.step := by
  cases c with
  | setLogic => simp [expr, step, Expr.step?, Expr.items?_list]
  | declare s w => simp [expr, step, Expr.step?, Expr.items?_list, width?_sortExpr sized]
  | define s w body => simp [expr, step, Expr.step?, Expr.items?_list, width?_sortExpr sized]
  | assert x => simp [expr, step, Expr.step?, Expr.items?_list]
  | checkSat => simp [expr, step, Expr.step?, Expr.items?_list]

lemma Script.readScript_text {s : Script} (legal : ∀ c ∈ s, c.Legal) (sized : ∀ c ∈ s, c.Sized) :
    readScript s.text = some (s.map Command.step) := by
  rw [readScript, s.read_text legal, Option.bind_some]
  clear legal
  induction s with
  | nil => rfl
  | cons c s ih =>
    rw [List.map_cons, List.mapM_cons, c.step?_expr (sized c List.mem_cons_self),
      ih fun d mem => sized d (List.mem_cons_of_mem _ mem)]
    rfl

/-! ## The functions that formulas use -/

section

open Formula (Arith Compare)

variable {w : Nat} {v : Nat} {vs : List Value} {es : List Expr}

attribute [local simp] rank denote binary?

lemma lookup_arith (op : Arith) : operations.lookup op.name = some fun _ x y => op.smt x y := by
  cases op <;> simp [operations, List.lookup, Arith.name, Arith.smt]

lemma lookup_compare (op : Compare) : operations.lookup op.name = none := by
  cases op <;> simp [operations, List.lookup, Compare.name]

lemma compare_cases (op : Compare) : op = .eq ∨ op = .ne ∨
      op.name ≠ "=" ∧ op.name ≠ "distinct" ∧ relations.lookup op.name = some fun _ x y => op.smt x y := by
  cases op <;> simp [relations, List.lookup, Compare.name, Compare.smt]

lemma arith_name_ne (op : Arith) : op.name ≠ "=" ∧ op.name ≠ "distinct" := by
  cases op <;> simp [Arith.name]

lemma binary?_arith (op : Arith) (x y : BitVec w) :
    binary? op.name (.word w x) (.word w y) = some (.word w (op.smt x y)) := by
  obtain ⟨ne, ne'⟩ := arith_name_ne op
  simp [ne, ne', lookup_arith]

lemma binary?_compare (op : Compare) (x y : BitVec w) :
    binary? op.name (.word w x) (.word w y) = some (.truth (op.smt x y)) := by
  rcases compare_cases op with rfl | rfl | ⟨ne, ne', found⟩
  · simp [Value.same?, Compare.name, Compare.smt, beq_eq_decide]
  · simp [Value.same?, Compare.name, Compare.smt, beq_eq_decide]
  · simp [ne, ne', lookup_compare, found]

lemma rank_arith (op : Arith) : rank (.symbol op.name) [.word w, .word w] = some (.word w) := by
  obtain ⟨ne, ne'⟩ := arith_name_ne op
  simp [ne, ne', lookup_arith]

lemma rank_compare (op : Compare) : rank (.symbol op.name) [.word w, .word w] = some .truth := by
  rcases compare_cases op with rfl | rfl | ⟨ne, ne', found⟩
  · simp [Compare.name]
  · simp [Compare.name]
  · simp [ne, ne', lookup_compare, found]

/-- In scopes of sorts and of values, `e` has the value `v`, and the sort of `v`. -/
structure Means (types : String → Option Ty) (values : String → Option Value) (e : Expr) (v : Value) : Prop where
  ty : e.ty? types = some v.ty
  value : e.eval? values = some v

namespace Means

variable {types : String → Option Ty} {values : String → Option Value} {e d : Expr} {s t : Term} {x y : BitVec w}

lemma mapM_fold (all : List.Forall₂ (Means types values) es vs) :
    es.mapM (Expr.fold types Value.ty rank) = some (vs.map Value.ty) ∧
      es.mapM (Expr.fold values id denote) = some vs := by
  induction all with
  | nil => exact ⟨rfl, rfl⟩
  | cons means _ ih =>
    rw [List.mapM_cons, List.mapM_cons, ih.1, ih.2]
    constructor
    · rw [show Expr.fold types Value.ty rank _ = _ from means.ty]
      rfl
    · rw [show Expr.fold values id denote _ = _ from means.value]
      rfl

lemma apply {head : Expr} {v : Value} (function : head ≠ .symbol "_")
    (args : List.Forall₂ (Means types values) es vs) (sort : rank head (vs.map Value.ty) = some v.ty)
    (value : denote head vs = some v) : Means types values (.list (head :: es)) v := by
  obtain ⟨sorts, meanings⟩ := mapM_fold args
  constructor
  · rw [Expr.ty?, Expr.fold_apply function, sorts]
    exact sort
  · rw [Expr.eval?, Expr.fold_apply function, meanings]
    exact value

lemma numeral (positive : 0 < w) (fits : v < 2 ^ w) :
    Means types values (Term.numeral v w).expr (.word w (BitVec.ofNat w v)) := by
  have digits : ("bv" ++ toString v).toList = 'b' :: 'v' :: Nat.toDigits 10 v := by
    rw [String.toList_append, Nat.toString_eq_repr, Nat.toList_repr]
    simp
  have constant : constant? (Term.numeral v w).expr = some (.word w (BitVec.ofNat w v)) := by
    show constant? (.cons (.symbol "_") (.cons (.symbol ("bv" ++ toString v)) (.cons (.numeral w) .nil))) = _
    simp only [constant?]
    rw [digits]
    simp [numeral?_toDigits, positive, fits]
  constructor
  · show (constant? (Term.numeral v w).expr).map Value.ty = _
    rw [constant]
    rfl
  · show (constant? (Term.numeral v w).expr).map id = _
    rw [constant]
    rfl

lemma bit (b : Bool) : Means types values (Term.bit b).expr (.word 1 (BitVec.ofBool b)) := by
  constructor
  · rfl
  · cases b <;> rfl

lemma not (means : Means types values t.expr (.word w x)) : Means types values t.not.expr (.word w (~~~x)) :=
  apply (by simp) (.cons means .nil) (by simp [Value.ty, negations]) (by simp [negations])

lemma neg (means : Means types values t.expr (.word w x)) : Means types values t.neg.expr (.word w (-x)) :=
  apply (by simp) (.cons means .nil) (by simp [Value.ty, negations, List.lookup])
    (by simp [negations, List.lookup])

lemma zeroExtend (k : Nat) (means : Means types values t.expr (.word w x)) :
    Means types values (t.zeroExtend k).expr (.word (w + k) (x.setWidth (w + k))) :=
  apply (by simp [Expr.list]) (.cons means .nil) (by simp [Value.ty, Expr.list])
    (by simp [indexed?, Expr.list])

lemma signExtend (k : Nat) (means : Means types values t.expr (.word w x)) :
    Means types values (t.signExtend k).expr (.word (w + k) (x.signExtend (w + k))) :=
  apply (by simp [Expr.list]) (.cons means .nil) (by simp [Value.ty, Expr.list])
    (by simp [indexed?, Expr.list])

lemma extract {hi lo : Nat} (ordered : lo ≤ hi) (inside : hi < w) (means : Means types values t.expr (.word w x)) :
    Means types values (t.extract hi lo).expr (.word (hi - lo + 1) (x.extractLsb hi lo)) :=
  apply (by simp [Expr.list]) (.cons means .nil) (by simp [Value.ty, Expr.list, ordered, inside])
    (by simp [indexed?, Expr.list, ordered, inside])

lemma arith (op : Arith) (left : Means types values s.expr (.word w x)) (right : Means types values t.expr (.word w y)) :
    Means types values (Term.arith op s t).expr (.word w (op.smt x y)) := by
  have function : Expr.symbol op.name ≠ .symbol "_" := by cases op <;> simp [Arith.name]
  exact apply function (.cons left (.cons right .nil)) (rank_arith op) (binary?_arith op x y)

lemma compare (op : Compare) (left : Means types values d (.word w x)) (right : Means types values e (.word w y)) :
    Means types values (.list [.symbol op.name, d, e]) (.truth (op.smt x y)) := by
  have function : Expr.symbol op.name ≠ .symbol "_" := by cases op <;> simp [Compare.name]
  exact apply function (.cons left (.cons right .nil)) (rank_compare op) (binary?_compare op x y)

lemma choice {p q : Term} {z u : BitVec v} (op : Compare) (left : Means types values s.expr (.word w x))
    (right : Means types values t.expr (.word w y)) (first : Means types values p.expr (.word v z))
    (second : Means types values q.expr (.word v u)) :
    Means types values (Term.choice op s t p q).expr (.word v (if op.smt x y then z else u)) := by
  refine apply (by simp) (.cons (compare op left right) (.cons first (.cons second .nil))) ?_ ?_
  · simp [Value.ty]
  · simp only [denote, Value.ty]
    cases op.smt x y <;> simp

end Means

end

end Faultline.Smt
