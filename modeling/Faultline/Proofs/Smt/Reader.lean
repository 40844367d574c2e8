/-
# Proofs.Smt.Reader — reading SMT-LIB

`read` takes a text apart into expressions, one character at a time. It knows
nothing about the commands and terms of `Smt`, so that what they are printed as can
be held against what it reads. A symbol stands in bars, or it is a word of letters.

`ReadsAll s es` says that `s` reads as the expressions `es`, wherever it stands. It
is closed under the two ways texts are put together (`ReadsAll.append`,
`ReadsAll.list`), so a script reads as its commands (`read_text`).
-/
import Mathlib
import Faultline.Smt

namespace Faultline.Smt

open List

/-- An expression as it is written. A list is a chain of pairs. -/
inductive Expr where
  | symbol (name : String)
  | numeral (value : Nat)
  | binary (digits : List Bool)
  | nil
  | cons (head tail : Expr)
  deriving DecidableEq, Inhabited

def Expr.list : List Expr → Expr :=
  foldr .cons .nil

/-! ## Words -/

/-- What a symbol without bars is made of. -/
def isLetter (c : Char) : Bool :=
  c.isAlphanum ||
    ['~', '!', '@', '$', '%', '^', '&', '*', '_', '-', '+', '=', '<', '>', '.', '?', '/'].contains c

def numeral? (w : List Char) : Option Nat :=
  let n := Nat.ofDigitChars 10 w 0
  if Nat.toDigits 10 n = w then some n else none

def bit? : Char → Option Bool
  | '0' => some false
  | '1' => some true
  | _ => none

def word? : List Char → Option Expr
  | [] => none
  | '#' :: 'b' :: d :: ds => ((d :: ds).mapM bit?).map .binary
  | c :: cs =>
    if c.isDigit then (numeral? (c :: cs)).map .numeral
    else if (c :: cs).all isLetter then some (.symbol (String.ofList (c :: cs)))
    else none

/-! ## Texts -/

/-- What stands before the next character. Of a word or a symbol in bars, its characters so far, the
last one first. -/
inductive Mode where
  | blank
  | word (done : List Char)
  | barred (done : List Char)

structure Reading where
  mode : Mode := .blank
  items : List Expr := []
  outer : List (List Expr) := []

namespace Reading

def put (r : Reading) (e : Expr) : Reading :=
  ⟨.blank, e :: r.items, r.outer⟩

def settle (r : Reading) : Option Reading :=
  match r.mode with
  | .blank => some r
  | .word w => (word? w.reverse).map r.put
  | .barred _ => none

def enter (r : Reading) : Reading :=
  ⟨.blank, [], r.items :: r.outer⟩

def leave (r : Reading) : Option Reading :=
  match r.outer with
  | [] => none
  | items :: outer => some ⟨.blank, Expr.list r.items.reverse :: items, outer⟩

def isBlank (c : Char) : Bool :=
  c == ' ' || c == '\n' || c == '\t' || c == '\r'

def plain (r : Reading) (w : List Char) (c : Char) : Option Reading :=
  if c = '(' then r.settle.map enter
  else if c = ')' then r.settle.bind leave
  else if isBlank c then r.settle
  else if isLetter c || c == '#' then some { r with mode := .word (c :: w) }
  else none

def step (r : Reading) (c : Char) : Option Reading :=
  match r.mode with
  | .blank => if c = '|' then some { r with mode := .barred [] } else r.plain [] c
  | .word w => r.plain w c
  | .barred w =>
    if c = '|' then some (r.put (.symbol (String.ofList w.reverse)))
    else if c = '\\' then none
    else some { r with mode := .barred (c :: w) }

def run (r : Reading) (s : String) : Option Reading :=
  s.toList.foldlM step r

def finish (r : Reading) : Option (List Expr) :=
  r.settle.bind fun r => if r.outer.isEmpty then some r.items.reverse else none

end Reading

def read (s : String) : Option (List Expr) :=
  (Reading.run {} s).bind Reading.finish

/-! ## Putting texts together -/

/-- Wherever a word may begin, `s` reads as `es`. -/
def ReadsAll (s : String) (es : List Expr) : Prop :=
  ∀ items outer, ∃ r, Reading.run ⟨.blank, items, outer⟩ s = some r ∧
    r.settle = some ⟨.blank, es.reverse ++ items, outer⟩

abbrev Reads (s : String) (e : Expr) : Prop :=
  ReadsAll s [e]

namespace Reading

lemma run_append (r : Reading) (s t : String) : r.run (s ++ t) = (r.run s).bind (run · t) := by
  unfold run
  rw [String.toList_append, foldlM_append]
  rfl

lemma run_singleton (r : Reading) (c : Char) : r.run (String.singleton c) = r.step c := by
  unfold run
  rw [String.toList_singleton, foldlM_cons]
  simp

variable {r r' : Reading}

lemma step_of_settle (settled : r.settle = some r') {c : Char} (bar : c ≠ '|') :
    ∃ w, r.step c = r.plain w c := by
  unfold settle at settled
  unfold step
  rcases r with ⟨_ | w | w, items, outer⟩
  · exact ⟨[], if_neg bar⟩
  · exact ⟨w, rfl⟩
  · cases settled

lemma step_blank (settled : r.settle = some r') {c : Char} (blank : isBlank c = true) :
    r.step c = some r' := by
  have special : c ≠ '|' ∧ c ≠ '(' ∧ c ≠ ')' := by
    refine ⟨?_, ?_, ?_⟩ <;> (rintro rfl; exact absurd blank (by decide))
  obtain ⟨w, step⟩ := step_of_settle settled special.1
  rw [step, plain, if_neg special.2.1, if_neg special.2.2, if_pos blank, settled]

lemma step_leave (settled : r.settle = some r') : r.step ')' = r'.leave := by
  obtain ⟨w, step⟩ := step_of_settle settled (c := ')') (by decide)
  rw [step, plain, if_neg (by decide), if_pos rfl, settled]
  rfl

lemma step_enter (settled : r.settle = some r') : r.step '(' = some r'.enter := by
  obtain ⟨w, step⟩ := step_of_settle settled (c := '(') (by decide)
  rw [step, plain, if_pos rfl, settled]
  rfl

end Reading

namespace ReadsAll

open Reading

variable {s t : String} {es es' : List Expr} {e : Expr}

lemma empty : ReadsAll "" [] :=
  fun items outer => ⟨⟨.blank, items, outer⟩, rfl, rfl⟩

lemma append {c : Char} (blank : isBlank c = true) (left : ReadsAll s es) (right : ReadsAll t es') :
    ReadsAll (s ++ String.singleton c ++ t) (es ++ es') := by
  intro items outer
  obtain ⟨r, ran, settled⟩ := left items outer
  obtain ⟨r', ran', settled'⟩ := right (es.reverse ++ items) outer
  refine ⟨r', ?_, ?_⟩
  · rw [run_append, run_append, ran, Option.bind_some, run_singleton, step_blank settled blank, Option.bind_some, ran']
  · rw [settled', reverse_append, append_assoc]

lemma list (all : ReadsAll s es) : Reads ("(" ++ s ++ ")") (Expr.list es) := by
  intro items outer
  obtain ⟨r, ran, settled⟩ := all [] (items :: outer)
  refine ⟨⟨.blank, Expr.list es :: items, outer⟩, ?_, rfl⟩
  have entered : run ⟨.blank, items, outer⟩ "(" = some ⟨.blank, [], items :: outer⟩ := by
    have settled : settle ⟨.blank, items, outer⟩ = some ⟨.blank, items, outer⟩ := rfl
    rw [show "(" = String.singleton '(' from rfl, run_singleton, step_enter settled]
    rfl
  rw [run_append, run_append, entered, Option.bind_some, ran, Option.bind_some,
    show ")" = String.singleton ')' from rfl, run_singleton, step_leave settled]
  simp [leave]

end ReadsAll

namespace Reads

variable {s t u v : String} {d e g h : Expr}

lemma pair (first : Reads s d) (second : Reads t e) : Reads ("(" ++ (s ++ " " ++ t) ++ ")") (.list [d, e]) :=
  (first.append (c := ' ') rfl second).list

lemma triple (first : Reads s d) (second : Reads t e) (third : Reads u g) :
    Reads ("(" ++ (s ++ " " ++ t ++ " " ++ u) ++ ")") (.list [d, e, g]) :=
  ((first.append (c := ' ') rfl second).append (c := ' ') rfl third).list

lemma quadruple (first : Reads s d) (second : Reads t e) (third : Reads u g) (fourth : Reads v h) :
    Reads ("(" ++ (s ++ " " ++ t ++ " " ++ u ++ " " ++ v) ++ ")") (.list [d, e, g, h]) :=
  (((first.append (c := ' ') rfl second).append (c := ' ') rfl third).append (c := ' ') rfl fourth).list

lemma of_eq (reads : Reads s e) (same : t.toList = s.toList) : Reads t e :=
  String.toList_inj.1 same ▸ reads

end Reads

/-! ## Words and symbols in bars -/

def inWord (c : Char) : Bool :=
  isLetter c || c == '#'

lemma Reading.plain_inWord (r : Reading) (w : List Char) {c : Char} (inside : inWord c = true) :
    r.plain w c = some { r with mode := .word (c :: w) } := by
  have special : c ≠ '(' ∧ c ≠ ')' ∧ isBlank c = false := by
    refine ⟨?_, ?_, ?_⟩
    · rintro rfl
      exact absurd inside (by decide)
    · rintro rfl
      exact absurd inside (by decide)
    · by_contra blank
      simp only [isBlank, Bool.not_eq_false, Bool.or_eq_true, beq_iff_eq] at blank
      rcases blank with ((rfl | rfl) | rfl) | rfl
      all_goals exact absurd inside (by decide)
  rw [plain, if_neg special.1, if_neg special.2.1, if_neg (by simp [special.2.2])]
  exact if_pos inside

lemma Reading.run_word {cs : List Char} (inside : ∀ c ∈ cs, inWord c = true) (w : List Char)
    (items : List Expr) (outer : List (List Expr)) :
    cs.foldlM step ⟨.word w, items, outer⟩ = some ⟨.word (cs.reverse ++ w), items, outer⟩ := by
  induction cs generalizing w with
  | nil => rfl
  | cons c cs ih =>
    have here : step ⟨.word w, items, outer⟩ c = some ⟨.word (c :: w), items, outer⟩ :=
      plain_inWord _ w (inside c mem_cons_self)
    rw [foldlM_cons, here]
    show cs.foldlM step _ = _
    rw [ih fun d mem => inside d (mem_cons_of_mem _ mem)]
    simp

lemma Reads.word {s : String} {e : Expr} (cs : List Char) (letters : s.toList = cs)
    (inside : cs.all inWord = true) (means : word? cs = some e) : Reads s e := by
  intro items outer
  rw [all_eq_true] at inside
  rcases cs with _ | ⟨c, cs⟩
  · cases means
  · have first : Reading.step ⟨.blank, items, outer⟩ c = some ⟨.word [c], items, outer⟩ := by
      have bar : c ≠ '|' := by
        rintro rfl
        exact absurd (inside '|' mem_cons_self) (by decide)
      exact (if_neg bar).trans (Reading.plain_inWord _ [] (inside c mem_cons_self))
    refine ⟨⟨.word (cs.reverse ++ [c]), items, outer⟩, ?_, ?_⟩
    · unfold Reading.run
      rw [letters, foldlM_cons, first]
      exact Reading.run_word (fun d mem => inside d (mem_cons_of_mem _ mem)) [c] items outer
    · simp [Reading.settle, means, Reading.put]

def isSimple (s : String) : Bool :=
  match s.toList with
  | [] => false
  | c :: cs => !c.isDigit && (c :: cs).all isLetter

lemma Reads.symbol {s : String} (simple : isSimple s = true) : Reads s (.symbol s) := by
  unfold isSimple at simple
  rcases letters : s.toList with _ | ⟨c, cs⟩
  · rw [letters] at simple
    cases simple
  · simp only [letters, Bool.and_eq_true, Bool.not_eq_true'] at simple
    have mark : c ≠ '#' := by
      rintro rfl
      exact absurd simple.2 (by simp [show isLetter '#' = false by decide])
    refine .word (c :: cs) letters (all_eq_true.2 fun d mem => ?_) ?_
    · rw [inWord, all_eq_true.1 simple.2 d mem, Bool.true_or]
    · rw [word?]
      · rw [if_neg (by simp [simple.1]), if_pos simple.2, ← letters, String.ofList_toList]
      · intro d ds same
        exact absurd same mark

lemma isLetter_of_isDigit {c : Char} (digit : c.isDigit = true) : isLetter c = true := by
  simp [isLetter, Char.isAlphanum, digit]

lemma isDigit_of_mem_toDigits {n : Nat} {c : Char} (mem : c ∈ Nat.toDigits 10 n) : c.isDigit = true :=
  Nat.isDigit_of_mem_toDigits (by omega) (by omega) mem

lemma numeral?_toDigits (n : Nat) : numeral? (Nat.toDigits 10 n) = some n := by
  simp [numeral?]

lemma Reads.numeral (n : Nat) : Reads (toString n) (.numeral n) := by
  have digits : (toString n).toList = Nat.toDigits 10 n := by
    rw [Nat.toString_eq_repr, Nat.toList_repr]
  refine .word _ digits (all_eq_true.2 fun c mem => ?_) ?_
  · rw [inWord, isLetter_of_isDigit (isDigit_of_mem_toDigits mem), Bool.true_or]
  · rcases shape : Nat.toDigits 10 n with _ | ⟨c, cs⟩
    · exact absurd shape (by simp)
    · have first : c.isDigit = true := isDigit_of_mem_toDigits (n := n) (by rw [shape]; exact mem_cons_self)
      rw [word?]
      · rw [if_pos first, ← shape, numeral?_toDigits]
        rfl
      · rintro d ds rfl
        exact absurd first (by decide)

lemma isSimple_numbered {s : String} (simple : isSimple s = true) (n : Nat) :
    isSimple (s ++ toString n) = true := by
  unfold isSimple at simple ⊢
  rcases letters : s.toList with _ | ⟨c, cs⟩
  · rw [letters] at simple
    cases simple
  · rw [String.toList_append, letters, Nat.toString_eq_repr, Nat.toList_repr]
    rw [letters] at simple
    simp only [Bool.and_eq_true, all_cons, cons_append, all_append] at simple ⊢
    refine ⟨simple.1, simple.2.1, simple.2.2, all_eq_true.2 fun d mem => ?_⟩
    exact isLetter_of_isDigit (isDigit_of_mem_toDigits mem)

lemma Reading.run_barred {cs : List Char} (inside : ∀ c ∈ cs, c ≠ '|' ∧ c ≠ '\\') (w : List Char)
    (items : List Expr) (outer : List (List Expr)) :
    cs.foldlM step ⟨.barred w, items, outer⟩ = some ⟨.barred (cs.reverse ++ w), items, outer⟩ := by
  induction cs generalizing w with
  | nil => rfl
  | cons c cs ih =>
    have here : step ⟨.barred w, items, outer⟩ c = some ⟨.barred (c :: w), items, outer⟩ := by
      obtain ⟨bar, slash⟩ := inside c mem_cons_self
      simp only [step, if_neg bar, if_neg slash]
    rw [foldlM_cons, here]
    show cs.foldlM step _ = _
    rw [ih fun d mem => inside d (mem_cons_of_mem _ mem)]
    simp

lemma Reads.barred {s : String} (inside : ∀ c ∈ s.toList, c ≠ '|' ∧ c ≠ '\\') :
    Reads ("|" ++ s ++ "|") (.symbol s) := by
  intro items outer
  refine ⟨⟨.blank, .symbol s :: items, outer⟩, ?_, rfl⟩
  have bars : Reading.run ⟨.blank, items, outer⟩ "|" = some ⟨.barred [], items, outer⟩ := by
    rw [show "|" = String.singleton '|' from rfl, Reading.run_singleton]
    rfl
  have letters : Reading.run ⟨.barred [], items, outer⟩ s = some ⟨.barred s.toList.reverse, items, outer⟩ := by
    rw [Reading.run, Reading.run_barred inside, append_nil]
  rw [Reading.run_append, Reading.run_append, bars, Option.bind_some, letters, Option.bind_some,
    show "|" = String.singleton '|' from rfl, Reading.run_singleton]
  simp [Reading.step, Reading.put]

/-! ## Terms and commands -/

/-- A symbol that can be written as it says. -/
def Symbol.Legal (s : Symbol) : Prop :=
  if s.barred then ∀ c ∈ s.name.toList, c ≠ '|' ∧ c ≠ '\\' else isSimple s.name = true

lemma Symbol.legal_quoted (name : String) : (Symbol.quoted name).Legal := by
  intro c mem
  simp only [Symbol.quoted, String.toList_ofList, mem_map] at mem
  obtain ⟨d, -, rfl⟩ := mem
  split
  · exact ⟨by decide, by decide⟩
  · rename_i other
    simpa using other

lemma Symbol.reads {s : Symbol} (legal : s.Legal) : Reads s.text (.symbol s.name) := by
  unfold Legal at legal
  unfold text
  split
  · rename_i barred
    rw [if_pos barred] at legal
    exact .barred legal
  · rename_i bare
    rw [if_neg bare] at legal
    exact .symbol legal

def Term.expr : Term → Expr
  | .symbol s => .symbol s.name
  | .numeral v w => .list [.symbol "_", .symbol ("bv" ++ toString v), .numeral w]
  | .bit b => .binary [b]
  | .not x => .list [.symbol "bvnot", x.expr]
  | .neg x => .list [.symbol "bvneg", x.expr]
  | .zeroExtend k x => .list [.list [.symbol "_", .symbol "zero_extend", .numeral k], x.expr]
  | .signExtend k x => .list [.list [.symbol "_", .symbol "sign_extend", .numeral k], x.expr]
  | .extract hi lo x => .list [.list [.symbol "_", .symbol "extract", .numeral hi, .numeral lo], x.expr]
  | .arith op x y => .list [.symbol op.name, x.expr, y.expr]
  | .choice op x y t e =>
    .list [.symbol "ite", .list [.symbol op.name, x.expr, y.expr], t.expr, e.expr]

def Term.Legal : Term → Prop
  | .symbol s => s.Legal
  | .numeral _ _ | .bit _ => True
  | .not x | .neg x | .zeroExtend _ x | .signExtend _ x | .extract _ _ x => x.Legal
  | .arith _ x y => x.Legal ∧ y.Legal
  | .choice _ x y t e => x.Legal ∧ y.Legal ∧ t.Legal ∧ e.Legal

lemma reads_bit (b : Bool) : Reads (if b then "#b1" else "#b0") (.binary [b]) := by
  cases b
  · have letters : "#b0".toList = ['#', 'b', '0'] := by simp
    exact .word _ letters rfl rfl
  · have letters : "#b1".toList = ['#', 'b', '1'] := by simp
    exact .word _ letters rfl rfl

lemma toString_self (s : String) : toString s = s := rfl

lemma isSimple_arith (op : Formula.Arith) : isSimple op.name = true := by
  cases op <;> decide

lemma isSimple_compare (op : Formula.Compare) : isSimple op.name = true := by
  cases op <;> decide

lemma Term.reads {t : Term} (legal : t.Legal) : Reads t.text t.expr := by
  induction t with
  | symbol s => exact s.reads legal
  | numeral v w =>
    have plain : isSimple "bv" = true := by decide
    have value : Reads ("bv" ++ toString v) (.symbol ("bv" ++ toString v)) := .symbol (isSimple_numbered plain v)
    refine ((Reads.symbol (s := "_") (by decide)).triple value (.numeral w)).of_eq ?_
    show ("(_ bv" ++ toString v ++ " " ++ toString w ++ ")").toList = _
    simp
  | bit b => exact reads_bit b
  | not x ih =>
    refine ((Reads.symbol (s := "bvnot") (by decide)).pair (ih legal)).of_eq ?_
    show ("(bvnot " ++ x.text ++ ")").toList = _
    simp
  | neg x ih =>
    refine ((Reads.symbol (s := "bvneg") (by decide)).pair (ih legal)).of_eq ?_
    show ("(bvneg " ++ x.text ++ ")").toList = _
    simp
  | zeroExtend k x ih =>
    have head := (Reads.symbol (s := "_") (by decide)).triple (.symbol (s := "zero_extend") (by decide)) (.numeral k)
    refine (head.pair (ih legal)).of_eq ?_
    show ("((_ zero_extend " ++ toString k ++ ") " ++ x.text ++ ")").toList = _
    simp
  | signExtend k x ih =>
    have head := (Reads.symbol (s := "_") (by decide)).triple (.symbol (s := "sign_extend") (by decide)) (.numeral k)
    refine (head.pair (ih legal)).of_eq ?_
    show ("((_ sign_extend " ++ toString k ++ ") " ++ x.text ++ ")").toList = _
    simp
  | extract hi lo x ih =>
    have head := (Reads.symbol (s := "_") (by decide)).quadruple (.symbol (s := "extract") (by decide))
      (.numeral hi) (.numeral lo)
    refine (head.pair (ih legal)).of_eq ?_
    show ("((_ extract " ++ toString hi ++ " " ++ toString lo ++ ") " ++ x.text ++ ")").toList = _
    simp
  | arith op x y ihx ihy =>
    refine ((Reads.symbol (isSimple_arith op)).triple (ihx legal.1) (ihy legal.2)).of_eq ?_
    show ("(" ++ op.name ++ " " ++ x.text ++ " " ++ y.text ++ ")").toList = _
    simp
  | choice op x y t e ihx ihy iht ihe =>
    have compared := (Reads.symbol (isSimple_compare op)).triple (ihx legal.1) (ihy legal.2.1)
    refine ((Reads.symbol (s := "ite") (by decide)).quadruple compared (iht legal.2.2.1) (ihe legal.2.2.2)).of_eq ?_
    show ("(ite (" ++ op.name ++ " " ++ x.text ++ " " ++ y.text ++ ") " ++ t.text ++ " " ++ e.text ++ ")").toList = _
    simp

def sortExpr (w : Nat) : Expr :=
  .list [.symbol "_", .symbol "BitVec", .numeral w]

def Command.expr : Command → Expr
  | .setLogic => .list [.symbol "set-logic", .symbol "QF_BV"]
  | .declare s w => .list [.symbol "declare-fun", .symbol s.name, .nil, sortExpr w]
  | .define s w body => .list [.symbol "define-fun", .symbol s.name, .nil, sortExpr w, body.expr]
  | .assert x => .list [.symbol "assert", .list [.symbol "=", x.expr, .binary [true]]]
  | .checkSat => .list [.symbol "check-sat"]

def Command.Legal : Command → Prop
  | .setLogic | .checkSat => True
  | .declare s _ => s.Legal
  | .define s _ body => s.Legal ∧ body.Legal
  | .assert x => x.Legal

lemma reads_sortExpr (w : Nat) : Reads ("(_ BitVec " ++ toString w ++ ")") (sortExpr w) := by
  refine ((Reads.symbol (s := "_") (by decide)).triple (.symbol (s := "BitVec") (by decide)) (.numeral w)).of_eq ?_
  simp

lemma Command.reads {c : Command} (legal : c.Legal) : Reads c.text c.expr := by
  cases c with
  | setLogic =>
    refine ((Reads.symbol (s := "set-logic") (by decide)).pair (.symbol (s := "QF_BV") (by decide))).of_eq ?_
    simp [text]
  | declare s w =>
    have none : Reads "()" .nil := ReadsAll.empty.list
    refine ((Reads.symbol (s := "declare-fun") (by decide)).quadruple (s.reads legal) none (reads_sortExpr w)).of_eq ?_
    simp [text, toString_self]
  | define s w body =>
    have none : Reads "()" .nil := ReadsAll.empty.list
    have four := (((Reads.symbol (s := "define-fun") (by decide)).append (c := ' ') rfl
      (s.reads legal.1)).append (c := ' ') rfl none).append (c := ' ') rfl (reads_sortExpr w)
    refine Reads.of_eq (four.append (c := ' ') rfl (body.reads legal.2)).list ?_
    simp [text, toString_self]
  | assert x =>
    have holds := (Reads.symbol (s := "=") (by decide)).triple (x.reads legal) (reads_bit true)
    refine ((Reads.symbol (s := "assert") (by decide)).pair holds).of_eq ?_
    simp [text]
  | checkSat =>
    refine Reads.of_eq (Reads.symbol (s := "check-sat") (by decide)).list ?_
    simp [text]

lemma Script.readsAll {s : Script} (legal : ∀ c ∈ s, c.Legal) : ReadsAll s.text (s.map Command.expr) := by
  induction s with
  | nil => exact .empty
  | cons c s ih =>
    have line := (c.reads (legal c mem_cons_self)).append (c := '\n') rfl
      (ih fun d mem => legal d (mem_cons_of_mem _ mem))
    rw [Script.text, map_cons, String.join_cons]
    exact line

lemma Script.read_text {s : Script} (legal : ∀ c ∈ s, c.Legal) : read s.text = some (s.map Command.expr) := by
  obtain ⟨r, ran, settled⟩ := Script.readsAll legal [] []
  have start : ({} : Reading) = ⟨.blank, [], []⟩ := rfl
  rw [read, start, ran, Option.bind_some, Reading.finish, settled]
  simp

end Faultline.Smt
