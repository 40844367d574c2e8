/-
# Proofs.Formula.Symbols — when a script binds no symbol twice

A script has one name space: a variable goes by its own name, in bars, and any other
node by `n` and its handle. Bars and backslashes are written as underscores.

So a variable can be named like a node (`symbols_collide`), and two names can differ
in nothing but bars, backslashes and underscores. Nothing else can go wrong where no
two variables share a name: a script binds every symbol once if and only if neither
is the case (`binds_once_iff`).
-/
import Faultline.Proofs.Formula.Names
import Faultline.Proofs.Formula.Scripts

namespace Faultline.Smt

def Step.bound? : Step → Option String
  | .declare name _ => some name
  | .define name _ _ => some name
  | _ => none

def boundNames (commands : List Step) : List String :=
  commands.filterMap Step.bound?

/-- What cannot stand between bars is not there. -/
def Unbarred (s : String) : Prop :=
  '|' ∉ s.toList ∧ '\\' ∉ s.toList

lemma Symbol.name_quoted {s : String} (unbarred : Unbarred s) : (Symbol.quoted s).name = s := by
  have kept : s.toList.map (fun c => if c == '|' || c == '\\' then '_' else c) = s.toList := by
    refine (List.map_congr_left fun c mem => ?_).trans (List.map_id s.toList)
    rw [if_neg]
    · rfl
    · simp only [Bool.or_eq_true, beq_iff_eq, not_or]
      exact ⟨fun same => unbarred.1 (same ▸ mem), fun same => unbarred.2 (same ▸ mem)⟩
  show String.ofList _ = s
  rw [kept, String.ofList_toList]

end Faultline.Smt

namespace Faultline.Formula.Arena

variable {a : Arena} {f g : Nat} {s : String}

def Mentions (a : Arena) (f : Handle) (s : String) : Prop :=
  ∃ g w, a.Uses f g ∧ a.node? g = some ⟨w, .var s⟩

def Defines (a : Arena) (f g : Handle) : Prop :=
  a.Uses f g ∧ ∀ w s, a.node? g ≠ some ⟨w, .var s⟩

lemma label_of_var {w : Nat} (found : a.node? g = some ⟨w, .var s⟩) : a.label g = (Smt.Symbol.quoted s).name := by
  rw [label, symbol, found]

lemma label_of_defines (defined : a.Defines f g) : a.label g = s!"n{g}" := by
  unfold label symbol
  split
  next w s found => exact absurd found (defined.2 w s)
  next => rfl

lemma numbered_inj {j k : Nat} (same : s!"n{j}" = s!"n{k}") : j = k := by
  have lists := congrArg String.toList same
  simp only [String.toList_append] at lists
  exact Nat.repr_inj.1 (String.toList_inj.1 (List.append_cancel_left lists))

lemma Uses.cases_var (used : a.Uses f g) : (∃ w s, a.node? g = some ⟨w, .var s⟩) ∨ a.Defines f g := by
  by_cases isVar : ∃ w s, a.node? g = some ⟨w, .var s⟩
  · exact .inl isVar
  · exact .inr ⟨used, fun w s found => isVar ⟨w, s, found⟩⟩

lemma boundNames_of_binds {gs : List Handle} {bindings : List Smt.Step} (binds : List.Forall₂ a.Binds gs bindings)
    (rest : List Smt.Step) : Smt.boundNames (bindings ++ rest) = gs.map a.label ++ Smt.boundNames rest := by
  induction binds with
  | nil => rfl
  | cons first _ ih =>
    cases first with
    | declare found => exact congrArg _ ih
    | define found other => exact congrArg _ ih

/-- Different variables have different symbols, and none that a defined node has. -/
def Uncaptured (a : Arena) (f : Handle) : Prop :=
  (∀ s t, a.Mentions f s → a.Mentions f t → (Smt.Symbol.quoted s).name = (Smt.Symbol.quoted t).name → s = t) ∧
    ∀ s g, a.Mentions f s → a.Defines f g → (Smt.Symbol.quoted s).name ≠ s!"n{g}"

/-- Labels of nodes are distinct if those of variables are distinct among themselves and from the others. -/
lemma labels_inj_iff (apart : a.Apart) :
    (∀ g h, a.Uses f g → a.Uses f h → a.label g = a.label h → g = h) ↔ a.Uncaptured f := by
  constructor
  · intro inj
    refine ⟨fun s t mentioned mentioned' same => ?_, fun s g mentioned defined same => ?_⟩
    · obtain ⟨g, v, used, found⟩ := mentioned
      obtain ⟨h, w, used', found'⟩ := mentioned'
      rw [← label_of_var found, ← label_of_var found'] at same
      obtain rfl := inj g h used used' same
      cases found.symm.trans found'
      rfl
    · obtain ⟨h, w, used, found⟩ := mentioned
      rw [← label_of_var found, ← label_of_defines defined] at same
      obtain rfl := inj h g used defined.1 same
      exact defined.2 w s found
  · rintro ⟨different, uncaptured⟩ g h used used' same
    rcases used.cases_var with ⟨v, s, found⟩ | defined
    · rcases used'.cases_var with ⟨w, t, found'⟩ | defined'
      · rw [label_of_var found, label_of_var found'] at same
        obtain rfl := different s t ⟨g, v, used, found⟩ ⟨h, w, used', found'⟩ same
        exact apart found found'
      · rw [label_of_var found, label_of_defines defined'] at same
        exact absurd same (uncaptured s h ⟨g, v, used, found⟩ defined')
    · rcases used'.cases_var with ⟨w, t, found'⟩ | defined'
      · rw [label_of_defines defined, label_of_var found'] at same
        exact absurd same.symm (uncaptured t g ⟨h, w, used', found'⟩ defined)
      · rw [label_of_defines defined, label_of_defines defined'] at same
        exact numbered_inj same

/-- Names that are written as they are, and not like the name of a node, are safe. -/
lemma uncaptured_of_plain (plain : ∀ s, a.Mentions f s → Smt.Unbarred s ∧ ∀ k : Nat, s ≠ s!"n{k}") :
    a.Uncaptured f := by
  refine ⟨fun s t mentioned mentioned' same => ?_, fun s g mentioned _ => ?_⟩
  · rwa [Smt.Symbol.name_quoted (plain s mentioned).1, Smt.Symbol.name_quoted (plain t mentioned').1] at same
  · rw [Smt.Symbol.name_quoted (plain s mentioned).1]
    exact (plain s mentioned).2 g

lemma script_names {n : Node} (wt : a.WellTyped) (found : a.node? f = some n) :
    ∃ commands, Smt.readScript (a.script f).text = some commands ∧
      Smt.boundNames commands = (a.reachable f).map a.label := by
  obtain ⟨bindings, binds, reads⟩ := script_read wt found
  refine ⟨_, reads, (boundNames_of_binds binds _).trans ?_⟩
  exact List.append_nil _

lemma labels_nodup_iff (wt : a.WellTyped) (apart : a.Apart) :
    ((a.reachable f).map a.label).Nodup ↔ a.Uncaptured f := by
  have once : (a.reachable f).Nodup := (a.pairwise_reachable f).imp Nat.ne_of_lt
  rw [List.nodup_map_iff_inj_on once, ← labels_inj_iff apart]
  simp only [mem_reachable wt]
  constructor
  · exact fun inj g h used used' => inj g used h used'
  · exact fun inj g used h used' => inj g h used used'

/-- **When a script binds no symbol twice.** In every arena in use whose variables have different names, a held
formula has a script that is read back, and the names that its commands declare or define are distinct if and only
if no two used variables have names that are quoted alike, and none is quoted like the name of a used node that is
not a variable. So they are distinct if the names of the used variables have no bars and backslashes and do not look
like names of nodes. -/
theorem Reachable.binds_once_iff (reached : a.Reachable) (apart : a.Apart) (live : 0 < a.count f) :
    ∃ text commands, outcome (Formula.script f) a = (.ok text, a) ∧ Smt.readScript text = some commands ∧
      ((Smt.boundNames commands).Nodup ↔
        (∀ s t, a.Mentions f s → a.Mentions f t → (Smt.Symbol.quoted s).name = (Smt.Symbol.quoted t).name → s = t) ∧
          ∀ s g, a.Mentions f s → a.Defines f g → (Smt.Symbol.quoted s).name ≠ s!"n{g}") ∧
      ((∀ s, a.Mentions f s → Smt.Unbarred s ∧ ∀ k : Nat, s ≠ s!"n{k}") → (Smt.boundNames commands).Nodup) := by
  have wf := reached.wellFormed
  have wt := wf.toWellTyped
  have realized := realized_of_count wf live
  obtain ⟨n, found⟩ := exists_node_of_realized wf.isOpen realized
  obtain ⟨commands, reads, names⟩ := script_names wt found
  have exactly : (Smt.boundNames commands).Nodup ↔ a.Uncaptured f := by
    rw [names]
    exact labels_nodup_iff wt apart
  exact ⟨_, commands, outcome_script realized live, reads, exactly, fun plain => exactly.2 (uncaptured_of_plain plain)⟩

lemma squared_reachable : squared.Reachable := by
  unfold squared
  rw [withX_eq]
  exact ((Reachable.start.step _).step _).step _

lemma apart_of_single (wf : a.WellFormed) (single : ∀ f < a.next, Circuit.isVar a f = true → f = g) : a.Apart := by
  have only : ∀ {f w s}, a.node? f = some ⟨w, .var s⟩ → f = g := by
    intro f w s found
    exact single f (realized_of_node? wf.isOpen found).2 (by simp [Circuit.isVar, found])
  intro f h v w s found found'
  rw [only found, only found']

lemma squared_apart : squared.Apart :=
  apart_of_single (g := 1) squared_reachable.wellFormed (by decide +kernel)

lemma squared_mentions : squared.Mentions 7 s ↔ s = "x" := by
  constructor
  · rintro ⟨g, w, used, found⟩
    have only : ∀ g < squared.next, Circuit.isVar squared g = true → squared.varName g = "x" := by
      decide +kernel
    have inside := (realized_of_node? squared_reachable.wellFormed.isOpen found).2
    have name : squared.varName g = s := by rw [varName, found]
    exact name.symm.trans (only g inside (by simp [Circuit.isVar, found]))
  · rintro rfl
    have wt := squared_reachable.wellFormed.toWellTyped
    exact ⟨1, 8, (mem_reachable wt).1 (by decide +kernel), by decide +kernel⟩

/-- The names in the script for the square of a variable. -/
theorem binds_once_squared : squared.Reachable ∧ squared.Apart ∧ 0 < squared.count 7 ∧
    ∃ text commands, outcome (Formula.script 7) squared = (.ok text, squared) ∧
      Smt.readScript text = some commands ∧ (Smt.boundNames commands).Nodup := by
  obtain ⟨text, commands, wrote, reads, -, safe⟩ := squared_reachable.binds_once_iff squared_apart (f := 7) (by decide)
  refine ⟨squared_reachable, squared_apart, by decide, text, commands, wrote, reads, safe ?_⟩
  intro s mentioned
  obtain rfl := squared_mentions.1 mentioned
  refine ⟨⟨by decide, by decide⟩, fun k same => ?_⟩
  have letters : "x".toList = "n".toList ++ (toString k).toList := by
    rw [same, String.toList_append]
    rfl
  exact absurd (List.head_eq_of_cons_eq letters) (by decide)

/-! ## A clash -/

def captured : Arena :=
  (push {} ⟨1, .var "n2"⟩ ((∅ : Std.HashSet String).insert "n2")).after (.call (.not 1))

lemma captured_reachable : captured.Reachable := by
  have bearsNone : ¬ ("n2" = "" ∨ ({} : Arena).Bears "n2") := by
    rintro (empty | ⟨f, w, found⟩)
    · exact absurd empty (by decide)
    · simp [node?] at found
  have start : ({} : Arena).after (.call (.var 1 "n2")) = push {} ⟨1, .var "n2"⟩ ((∅ : Std.HashSet String).insert "n2") := by
    rw [after_var rfl (by decide), given_eq_self named_empty bearsNone]
  unfold captured
  rw [← start]
  exact (Reachable.start.step _).step _

lemma captured_nodes : captured.node? 2 = some ⟨1, .not 1⟩ ∧ captured.count 2 = 1 := by
  decide +kernel

lemma captured_apart : captured.Apart :=
  apart_of_single (g := 1) captured_reachable.wellFormed (by decide +kernel)

/-- The variables of an arena in use have different names, and a script binds a symbol twice. -/
theorem symbols_collide : ∃ (a : Arena) (f : Handle) (text : String) (commands : List Smt.Step), a.Reachable ∧
    a.Apart ∧ 0 < a.count f ∧ outcome (Formula.script f) a = (.ok text, a) ∧ Smt.readScript text = some commands ∧
    Smt.boundNames commands = ["n2", "n2"] := by
  obtain ⟨second, counted⟩ := captured_nodes
  have wf := captured_reachable.wellFormed
  have live : 0 < captured.count 2 := by
    rw [counted]
    exact Nat.one_pos
  obtain ⟨commands, reads, names⟩ := script_names wf.toWellTyped second
  refine ⟨captured, 2, _, commands, captured_reachable, captured_apart, live,
    outcome_script (realized_of_count wf live) live, reads, names.trans ?_⟩
  decide +kernel

end Faultline.Formula.Arena
