/-
# Proofs.Formula.Scripts — the script of a formula means the formula

Read as SMT-LIB has it (`Smt.readScript`), the script of a formula is a list of
commands, one for each node that the formula uses, in an order in which operands
come first. Where the operands of a node have their values, the term of the node has
the value of the node, and its sort (`means_body`); going through the commands, the
scope knows the values of the nodes bound so far (`Knows.step`, `Knows.run`).

So the script is well sorted, and it holds under an assignment exactly if the
formula is one under it (`script_means`), as long as no two nodes have one name.
-/
import Faultline.Proofs.Formula.Invariant
import Faultline.Proofs.Formula.Quiet
import Faultline.Proofs.Smt.Semantics
import Faultline.Proofs.Solver

namespace Faultline.Formula

open Smt (Expr Value)
open List Smt

variable {a b : Arena} {f g x : Nat} {n : Node} {assign : Handle → Nat} {interpretation : String → Nat}

/-! ## Extensions -/

/-- `x` is extended by a node. -/
def Node.IsExtension (n : Node) (x : Handle) : Prop :=
  n.term = .zext x ∨ n.term = .sext x

/-- Widths of extensions fit in a word. -/
def Arena.Narrow (a : Arena) : Prop :=
  ∀ {f : Nat} {n x}, a.node? f = some n → n.IsExtension x → n.width < widthRange

lemma Node.Plain.width_lt (plain : n.Plain) (extension : n.IsExtension x) : n.width < widthRange := by
  unfold Plain at plain
  rcases extension with shape | shape
  · rw [shape] at plain
    exact plain
  · rw [shape] at plain
    exact plain

lemma Arena.Narrow.after (narrow : a.Narrow) (wf : a.WellFormed) (request : Request) :
    (a.after request).Narrow := by
  intro f n x found extension
  rcases Arena.after_cases wf request with ⟨w, name, -, -, after⟩ | ⟨-, quiet⟩
  · rw [after] at found
    rcases Arena.of_node?_push wf found with ⟨-, rfl⟩ | old
    · rcases extension with shape | shape
      · cases shape
      · cases shape
    · exact narrow old extension
  · by_cases plain : n.Plain
    · exact plain.width_lt extension
    · exact narrow (quiet.of_node found plain) extension

lemma Arena.Unwrapped.wellFormed (reached : a.Unwrapped) : a.WellFormed := by
  obtain ⟨owned, order⟩ := reached.tidy
  exact order.toWellFormed

lemma Arena.Unwrapped.narrow (reached : a.Unwrapped) : a.Narrow := by
  induction reached with
  | start =>
    intro f n x found
    simp [Arena.node?] at found
  | request reached request _ ih => exact ih.after reached.wellFormed request
  | @code a reached code f g ih =>
    rcases a.afterCode_eq code f g with same | ⟨op, same⟩
    · rw [same]
      exact ih
    · rw [same]
      exact ih.after reached.wellFormed _

lemma Arena.Unwrapped.wider (reached : a.Unwrapped) (found : a.node? f = some n) (extension : n.IsExtension x) :
    a.widthOf x < n.width := by
  have widens := reached.tidy.consistent.widens f n found
  unfold Node.Widens at widens
  rcases extension with shape | shape
  · rw [shape] at widens
    exact widens
  · rw [shape] at widens
    exact widens

/-- The count that is printed for an extension is what it adds to the width. -/
lemma Arena.Unwrapped.extension (reached : a.Unwrapped) (found : a.node? f = some n)
    (extension : n.IsExtension x) : a.widthOf x + subWidth n.width (a.widthOf x) = n.width := by
  have narrow := reached.narrow found extension
  have wider := reached.wider found extension
  rw [subWidth, Nat.sub_add_comm wider.le, Nat.add_mod_right, Nat.mod_eq_of_lt (by omega)]
  omega

/-! ## Terms -/

def Arena.body (a : Arena) (n : Node) : Smt.Term :=
  n.smt .quoted (.symbol ∘ a.symbol) a.widthOf

def Arena.label (a : Arena) (f : Handle) : String :=
  (a.symbol f).name

def Arena.meaning (a : Arena) (assign : Handle → Nat) (f : Handle) : Value :=
  .word (a.widthOf f) (a.word assign f)

section Body

variable {types : String → Option Ty} {values : String → Option Value}

lemma Arena.meaning_eq {w : Nat} (width : a.widthOf g = w) :
    a.meaning assign g = .word w (BitVec.ofNat w (a.eval assign g)) := by
  subst width
  rfl

lemma Arena.ofNat_eval_eq_one (oneBit : a.widthOf g = 1) :
    BitVec.ofNat 1 (a.eval assign g) = BitVec.ofBool true ↔ a.eval assign g = 1 := by
  have small := a.eval_lt assign g
  rw [oneBit] at small
  rw [← BitVec.toNat_inj, BitVec.toNat_ofNat, Nat.mod_eq_of_lt small]
  rfl

lemma Arena.means_body (fits : a.Fits f n) (noVariable : ∀ name, n.term ≠ .var name)
    (extension : ∀ x, n.IsExtension x → a.widthOf x + subWidth n.width (a.widthOf x) = n.width)
    (operands : ∀ g ∈ n.term.args, Means types values (.symbol (a.label g)) (a.meaning assign g)) :
    Means types values (a.body n).expr (.word n.width (n.bits (assign f) a.widthOf (a.eval assign))) := by
  -- an operand as a term of the width that its node asks for
  have operand : ∀ {g w : Nat}, g ∈ n.term.args → a.widthOf g = w →
      Means types values (Smt.Term.symbol (a.symbol g)).expr (.word w (BitVec.ofNat w (a.eval assign g))) := by
    intro g w mem width
    rw [← meaning_eq width]
    exact operands g mem
  have typed := fits.typed
  have positive := fits.width_pos
  obtain ⟨w, term⟩ := n
  cases term with
  | const v => exact .numeral positive typed
  | var name => exact absurd rfl (noVariable name)
  | not y => exact (operand (by simp [Term.args]) typed).not
  | neg y => exact (operand (by simp [Term.args]) typed).neg
  | zext y =>
    have means := (operand (g := y) (by simp [Term.args]) rfl).zeroExtend (subWidth w (a.widthOf y))
    rw [extension y (.inl rfl)] at means
    exact means
  | sext y =>
    have means := (operand (g := y) (by simp [Term.args]) rfl).signExtend (subWidth w (a.widthOf y))
    rw [extension y (.inr rfl)] at means
    exact means
  | extract y hi lo =>
    obtain ⟨ordered, inside, width⟩ : lo ≤ hi ∧ hi < a.widthOf y ∧ w = hi - lo + 1 := typed
    subst width
    exact (operand (by simp [Term.args]) rfl).extract ordered inside
  | ite c t e =>
    obtain ⟨oneBit, left, right⟩ : a.widthOf c = 1 ∧ a.widthOf t = w ∧ a.widthOf e = w := typed
    have means := Means.choice .eq (operand (by simp [Term.args]) oneBit) (.bit true)
      (operand (by simp [Term.args]) left) (operand (by simp [Term.args]) right)
    simp only [Compare.smt, decide_eq_true_eq, ofNat_eval_eq_one oneBit] at means
    rw [← apply_ite (BitVec.ofNat w)] at means
    exact means
  | arith op y z =>
    exact .arith op (operand (by simp [Term.args]) typed.1) (operand (by simp [Term.args]) typed.2)
  | compare op y z =>
    obtain ⟨width, same⟩ : w = 1 ∧ a.widthOf y = a.widthOf z := typed
    subst width
    have means := Means.choice op (operand (g := y) (by simp [Term.args]) rfl)
      (operand (g := z) (by simp [Term.args]) same.symm) (.bit true) (.bit false)
    have bit : ∀ b : Bool, (if b then BitVec.ofBool true else BitVec.ofBool false) = BitVec.ofNat 1 b.toNat := by
      decide
    rw [bit] at means
    exact means

end Body

/-! ## Commands -/

/-- The command binds the name of the node: it declares a variable, and defines any other node. -/
inductive Arena.Binds (a : Arena) (g : Handle) : Step → Prop where
  | declare {w : Nat} {name : String} (found : a.node? g = some ⟨w, .var name⟩) : Binds a g (.declare (a.label g) w)
  | define {n : Node} (found : a.node? g = some n) (other : ∀ name, n.term ≠ .var name) :
      Binds a g (.define (a.label g) n.width (a.body n).expr)

lemma Arena.legal_symbol (a : Arena) (f : Handle) : (a.symbol f).Legal := by
  unfold symbol
  split
  · exact Smt.Symbol.legal_quoted _
  · have plain : isSimple "n" = true := by decide
    exact isSimple_numbered plain f

lemma Arena.legal_body (a : Arena) (n : Node) : (a.body n).Legal := by
  obtain ⟨w, term⟩ := n
  have symbol := a.legal_symbol
  cases term with
  | const v => trivial
  | var name => exact Smt.Symbol.legal_quoted name
  | not y | neg y | zext y | sext y | extract y hi lo => exact symbol y
  | ite c t e => exact ⟨symbol c, trivial, symbol t, symbol e⟩
  | arith op y z => exact ⟨symbol y, symbol z⟩
  | compare op y z => exact ⟨symbol y, symbol z, trivial, trivial⟩

lemma Arena.binding_of_node (found : a.node? g = some n) (positive : 0 < n.width) :
    ∃ c, a.binding? g = some c ∧ c.Legal ∧ c.Sized ∧ a.Binds g c.step := by
  unfold binding?
  rw [found]
  obtain ⟨w, term⟩ := n
  by_cases isVar : ∃ name, term = .var name
  · obtain ⟨name, rfl⟩ := isVar
    exact ⟨_, rfl, a.legal_symbol g, positive, .declare found⟩
  · have other : ∀ name, term ≠ .var name := fun name same => isVar ⟨name, same⟩
    refine ⟨.define (a.symbol g) w (a.body ⟨w, term⟩), ?_, ⟨a.legal_symbol g, a.legal_body _⟩, positive,
      .define found other⟩
    cases term with
    | var name => exact absurd rfl (other name)
    | _ => rfl

lemma Arena.bindings_of_nodes {gs : List Handle} (nodes : ∀ g ∈ gs, ∃ n, a.node? g = some n ∧ 0 < n.width) :
    (∀ c ∈ gs.filterMap a.binding?, c.Legal ∧ c.Sized) ∧
      Forall₂ a.Binds gs ((gs.filterMap a.binding?).map Smt.Command.step) := by
  induction gs with
  | nil => exact ⟨by simp, .nil⟩
  | cons g gs ih =>
    obtain ⟨n, found, positive⟩ := nodes g mem_cons_self
    obtain ⟨c, binding, legal, sized, binds⟩ := binding_of_node found positive
    obtain ⟨rest, bindsRest⟩ := ih fun h mem => nodes h (mem_cons_of_mem _ mem)
    rw [filterMap_cons_some binding]
    refine ⟨fun d mem => ?_, .cons binds bindsRest⟩
    rcases mem_cons.1 mem with rfl | mem
    · exact ⟨legal, sized⟩
    · exact rest d mem

/-! ## Scopes -/

/-- The scopes know the values of these nodes, and no other names. -/
structure Arena.Knows (a : Arena) (assign : Handle → Nat) (done : List Handle) (types : String → Option Ty)
    (values : String → Option Value) : Prop where
  means : ∀ g ∈ done, Means types values (.symbol (a.label g)) (a.meaning assign g)
  only : ∀ s, types s ≠ none → ∃ g ∈ done, a.label g = s

section Scopes

variable {types : String → Option Ty} {values : String → Option Value} {done : List Handle}

lemma Arena.Knows.free (knows : a.Knows assign done types values) (fresh : ∀ h ∈ done, a.label h ≠ a.label g) :
    types (a.label g) = none := by
  by_contra known
  obtain ⟨h, mem, same⟩ := knows.only _ known
  exact fresh h mem same

lemma Arena.Knows.bind (knows : a.Knows assign done types values) (fresh : ∀ h ∈ done, a.label h ≠ a.label g) :
    a.Knows assign (done ++ [g]) (bindName types (a.label g) (some (.word (a.widthOf g))))
      (bindName values (a.label g) (some (a.meaning assign g))) where
  means := by
    intro h mem
    rcases mem_append.1 mem with old | new
    · have before := knows.means h old
      constructor
      · exact (if_neg (fresh h old)).trans before.ty
      · exact (if_neg (fresh h old)).trans before.value
    · obtain rfl := mem_singleton.1 new
      constructor
      · exact if_pos rfl
      · exact if_pos rfl
  only := by
    intro s known
    unfold bindName at known
    split at known
    · rename_i same
      exact ⟨g, by simp, same.symm⟩
    · obtain ⟨h, mem, same⟩ := knows.only s known
      exact ⟨h, mem_append_left _ mem, same⟩

lemma Arena.Knows.step {step : Step} (tail : List Step)
    (reached : a.Unwrapped) (knows : a.Knows assign done types values) (binds : a.Binds g step)
    (fresh : ∀ h ∈ done, a.label h ≠ a.label g) (operands : ∀ h ∈ a.args g, h ∈ done)
    (assigned : ∀ w name, a.node? g = some ⟨w, .var name⟩ → interpretation (a.label g) = assign g) :
    ∃ types' values', a.Knows assign (done ++ [g]) types' values' ∧
      (WellSorted types (step :: tail) ↔ WellSorted types' tail) ∧
      (Holds interpretation values (step :: tail) ↔ Holds interpretation values' tail) := by
  have wt := reached.wellFormed.toWellTyped
  refine ⟨_, _, knows.bind fresh, ?_⟩
  have free := knows.free fresh
  cases binds with
  | declare found =>
    rename_i w name
    have width : a.widthOf g = w := widthOf_eq found
    have value : a.meaning assign g = .word w (BitVec.ofNat w (interpretation (a.label g))) := by
      rw [meaning_eq width, eval_eq wt found, assigned w name found]
      show Value.word w (BitVec.ofNat w (BitVec.ofNat w (assign g)).toNat) = _
      rw [BitVec.ofNat_toNat, BitVec.setWidth_eq]
    rw [value, width]
    exact ⟨and_iff_right free, Iff.rfl⟩
  | define found other =>
    rename_i n
    have width : a.widthOf g = n.width := widthOf_eq found
    have body := means_body (wt.fits found) other (fun x => reached.extension found)
      fun h mem => knows.means h (operands h (mem_args found ▸ mem))
    have value : a.meaning assign g = .word n.width (n.bits (assign g) a.widthOf (a.eval assign)) := by
      rw [meaning_eq width, eval_eq wt found, BitVec.ofNat_toNat, BitVec.setWidth_eq]
    rw [value, width]
    refine ⟨?_, ?_⟩
    · exact (and_iff_right free).trans (and_iff_right body.ty)
    · show Holds _ (bindName values (a.label g) ((a.body n).expr.eval? values)) tail ↔ _
      rw [body.value]

/-- The commands for a list of nodes that is closed under operands and has no name twice. -/
lemma Arena.Knows.run {rest : List Handle} {steps : List Step}
    (reached : a.Unwrapped) (binds : Forall₂ a.Binds rest steps) (knows : a.Knows assign done types values)
    (distinct : ((done ++ rest).map a.label).Nodup)
    (operands : ∀ before g after, rest = before ++ g :: after → ∀ h ∈ a.args g, h ∈ done ++ before)
    (assigned : ∀ g ∈ rest, ∀ w name, a.node? g = some ⟨w, .var name⟩ → interpretation (a.label g) = assign g)
    (tail : List Step) : ∃ types' values', a.Knows assign (done ++ rest) types' values' ∧
      (WellSorted types (steps ++ tail) ↔ WellSorted types' tail) ∧
      (Holds interpretation values (steps ++ tail) ↔ Holds interpretation values' tail) := by
  induction binds generalizing done types values with
  | nil =>
    rw [append_nil]
    exact ⟨types, values, knows, Iff.rfl, Iff.rfl⟩
  | @cons g step rest steps bind _ ih =>
    have fresh : ∀ h ∈ done, a.label h ≠ a.label g := by
      intro h mem
      rw [map_append, nodup_append] at distinct
      exact distinct.2.2 _ (mem_map_of_mem mem) _ (mem_map_of_mem mem_cons_self)
    have found : ∀ h ∈ a.args g, h ∈ done := by
      intro h mem
      simpa using operands [] g rest rfl h mem
    obtain ⟨types₁, values₁, knows₁, sorted₁, holds₁⟩ :=
      knows.step (steps ++ tail) reached bind fresh found (assigned g mem_cons_self)
    have later : ∀ before k after, rest = before ++ k :: after → ∀ h ∈ a.args k, h ∈ (done ++ [g]) ++ before := by
      intro before k after split h mem
      have := operands (g :: before) k after (by rw [split]; rfl) h mem
      simpa using this
    obtain ⟨types₂, values₂, knows₂, sorted₂, holds₂⟩ :=
      ih knows₁ (by simpa using distinct) later fun k mem => assigned k (mem_cons_of_mem _ mem)
    refine ⟨types₂, values₂, by simpa using knows₂, sorted₁.trans sorted₂, holds₁.trans holds₂⟩

end Scopes

/-! ## The script of a formula -/

def Arena.assertion (a : Arena) (f : Handle) : Expr :=
  .list [.symbol "=", .symbol (a.label f), .binary [true]]

lemma Arena.script_read (wt : a.WellTyped) (found : a.node? f = some n) :
    ∃ bindings, Forall₂ a.Binds (a.reachable f) bindings ∧ readScript (a.script f).text =
        some (.logic "QF_BV" :: (bindings ++ [.assert (a.assertion f), .check])) := by
  have nodes : ∀ g ∈ a.reachable f, ∃ n, a.node? g = some n ∧ 0 < n.width := by
    intro g mem
    obtain ⟨k, there⟩ := ((mem_reachable wt).1 mem).exists_node wt found
    exact ⟨k, there, (wt.fits there).width_pos⟩
  obtain ⟨good, binds⟩ := bindings_of_nodes nodes
  refine ⟨_, binds, ?_⟩
  have whole : ∀ c ∈ a.script f, c.Legal ∧ c.Sized := by
    intro c mem
    simp only [script, cons_append, mem_cons, mem_append, not_mem_nil, or_false] at mem
    rcases mem with rfl | mem | rfl | rfl
    · exact ⟨trivial, trivial⟩
    · exact good c mem
    · exact ⟨a.legal_symbol f, trivial⟩
    · exact ⟨trivial, trivial⟩
  rw [Script.readScript_text (fun c mem => (whole c mem).1) fun c mem => (whole c mem).2]
  simp only [script, map_cons, map_append, cons_append, map_nil]
  rfl

lemma Arena.script_holds {bindings : List Step} (reached : a.Unwrapped)
    (oneBit : a.widthOf f = 1) (binds : Forall₂ a.Binds (a.reachable f) bindings)
    (distinct : ((a.reachable f).map a.label).Nodup)
    (assigned : ∀ g ∈ a.reachable f, ∀ w name, a.node? g = some ⟨w, .var name⟩ → interpretation (a.label g) = assign g) :
    WellSorted (fun _ => none) (.logic "QF_BV" :: (bindings ++ [.assert (a.assertion f), .check])) ∧
      (Holds interpretation (fun _ => none) (.logic "QF_BV" :: (bindings ++ [.assert (a.assertion f), .check])) ↔
        a.eval assign f = 1) := by
  have wt := reached.wellFormed.toWellTyped
  have start : a.Knows assign [] (fun _ => none) (fun _ => none) := ⟨nofun, fun _ known => absurd rfl known⟩
  obtain ⟨types, values, knows, sorted, holds⟩ := start.run reached binds distinct
    (fun before g after split => by simpa using wt.older.before split) assigned [.assert (a.assertion f), .check]
  have self : f ∈ [] ++ a.reachable f := (mem_reachable wt).2 .self
  have root := knows.means f self
  rw [meaning_eq oneBit] at root
  have asserted : Means types values (a.assertion f) _ := .compare .eq root (Means.bit true)
  refine ⟨⟨rfl, sorted.2 ⟨asserted.ty, trivial⟩⟩, holds.trans ?_⟩
  show (a.assertion f).eval? values = some (.truth true) ∧ True ↔ _
  rw [asserted.value, and_true, Option.some.injEq, Value.truth.injEq, Compare.smt, decide_eq_true_eq,
    ofNat_eval_eq_one oneBit]

/-- An interpretation of the names of a script gives an assignment, and the other way round. -/
lemma Arena.exists_interpretation (distinct : ∀ g h, a.Uses f g → a.Uses f h → a.label g = a.label h → g = h)
    (assign : Handle → Nat) : ∃ interpretation : String → Nat, ∀ g, a.Uses f g → interpretation (a.label g) = assign g := by
  classical
  refine ⟨fun s => if known : ∃ g, a.Uses f g ∧ a.label g = s then assign known.choose else 0, fun g used => ?_⟩
  have known : ∃ h, a.Uses f h ∧ a.label h = a.label g := ⟨g, used, rfl⟩
  show (if known : ∃ h, a.Uses f h ∧ a.label h = a.label g then assign known.choose else 0) = _
  rw [dif_pos known]
  exact congrArg assign (distinct _ _ known.choose_spec.1 used known.choose_spec.2)

lemma Arena.outcome_script (realized : a.Realized f) (counted : 0 < a.count f) :
    outcome (Formula.script f) a = (.ok (a.script f).text, a) := by
  simp only [Formula.script, held, outcome_bind, outcome_get, need, if_pos realized, if_pos counted, outcome_pure]

lemma Arena.labels_squared : ((squared.reachable 7).map squared.label).Nodup := by
  decide +kernel

end Faultline.Formula
