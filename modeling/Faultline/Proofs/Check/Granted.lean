/-
# Proofs.Check.Granted — a check whose questions are granted returns

A site is `Clear` if its texts can be written and its question is granted. With a
solver that answers every query, a clear site is asked about (`ask_granted`), so a
function with clear sites is checked to the end (`function_granted`), and a module
of such functions gets its reports (`module_granted`).
-/
import Faultline.Proofs.Analysis.Alarm
import Faultline.Proofs.Check.Reports

namespace Faultline.Check

open IR (Module ValueId Func)
open Formula (Handle)
open Flow.Graph (ofFunc)

variable {m : Module} {f fn : Func} {s : Setting} {o : Options} {st : State} {layout : Layout} {α : Type}
  {P : Handle → Prop} {b : Bench}

/-! ## One question -/

/-- The question is asked, in a formula of one bit that belongs to the caller. -/
def Grants (s : Setting) (block call : ValueId) : Prop :=
  ∃ bug reach both b, outcome (question s block call) s.start = (.ok (bug, reach, both), b) ∧
    Analysis.Fine s b (both ::ₘ reach ::ₘ bug ::ₘ 0) ∧ b.arena.widthOf both = 1

lemma analyze_granted {x : Analyze α} {c : Bench} {r : α} (ran : outcome x b = (.ok r, c)) (st : State) :
    Ends st (analyze x b) (fun q st' => st'.solver = st.solver ∧ q = (r, { c with log := #[] })) (fun _ _ => False) := by
  unfold analyze
  rw [show x.run b = (.ok r, c) from ran]
  exact Ends.modify_bind (Ends.pure ⟨rfl, rfl⟩)

lemma dump_granted {both : Handle} {owned : Multiset Handle}
    (stocked : b.arena.Stocked P owned) (mem : both ∈ owned) (st : State) :
    Ends st (dump o s both b) (fun _ st' => st'.solver = st.solver) (fun _ _ => False) := by
  have script : Ends b (build (Formula.script both)) (fun _ _ => True) (fun _ _ => False) := by
    refine (Ends.build (Q := fun _ _ => True) (E := fun _ _ => False) ?_).mono (fun _ _ _ => trivial) fun _ _ h => h.2
    unfold Formula.script
    refine Ends.bind (Formula.held_granted stocked.wellFormed (stocked.count_pos mem)) fun n a _ => ?_
    exact Ends.get_bind (Ends.pure trivial)
  unfold dump
  split
  · obtain ⟨text, c, ran, -⟩ := script.exists_ok
    exact Ends.bind (analyze_granted ran st) fun _ st' h => h.1
  · exact rfl

lemma solve_granted {a : Formula.Arena} {both : Handle} {owned : Multiset Handle}
    (stocked : a.Stocked P owned) (mem : both ∈ owned) (oneBit : a.widthOf both = 1) (unlimited : st.solver.Unlimited) :
    Ends st (solve a both) (fun r st' => st'.solver.Unlimited ∧ ∃ verdict, r = .ok verdict) (fun _ _ => False) := by
  obtain ⟨answer, solver, ran, after, -⟩ := query_answers st.solver stocked mem oneBit
  unfold solve
  refine Ends.get_bind ?_
  rw [ran]
  exact after unlimited

lemma giveBack_granted {held : List Handle} (order : b.arena.InOrder False P (b.owned + ↑held)) (st : State) :
    Ends st (giveBack s held b) (fun _ st' => st'.solver = st.solver) (fun _ _ => False) := by
  obtain ⟨left, c, ran, rfl⟩ := (Analysis.settle_leaves order).exists_ok
  unfold giveBack
  refine Ends.bind (analyze_granted ran st) ?_
  rintro _ st' ⟨same, rfl⟩
  exact same

lemma ask_granted {block call : ValueId} (graph : ofFunc s.module fn = .ok s.graph) (granted : Grants s block call)
    (inst : String) (unlimited : st.solver.Unlimited) :
    Ends st (ask o s block call inst) (fun _ st' => st'.solver.Unlimited) (fun _ _ => False) := by
  obtain ⟨bug, reach, both, b, asked, fine, oneBit⟩ := granted
  have balanced := (Analysis.question_pays graph block call).ok asked
  have mem : both ∈ b.owned + both ::ₘ reach ::ₘ bug ::ₘ 0 := by simp
  unfold ask
  refine Ends.bind (analyze_granted asked st) ?_
  rintro _ st₁ ⟨same₁, rfl⟩
  refine Ends.bind (dump_granted (b := { b with log := #[] }) fine.stocked mem st₁) fun _ st₂ same₂ => ?_
  have unlimited : st₂.solver.Unlimited := by rwa [same₂, same₁]
  refine Ends.bind (solve_granted (a := b.arena) fine.stocked mem oneBit unlimited) ?_
  rintro _ st₃ ⟨unlimited, verdict, rfl⟩
  refine Ends.bind (giveBack_granted (b := { b with log := #[] }) balanced.order st₃) fun _ st₄ same₄ => ?_
  exact Ends.pure (same₄ ▸ unlimited)

/-! ## Sites -/

/-- The site can be described, and asked about. -/
structure Clear (s : Setting) (site : Site) : Prop where
  inst : (site.next.bind s.module.lineText).isSome
  block : (s.module.identText site.block).isSome
  grants : Grants (settingAt s site) site.block site.call

lemma text_granted {t : Option String} (some : t.isSome) (st : State) :
    Ends st (text t) (fun r st' => st' = st ∧ t = Option.some r) (fun _ _ => False) := by
  obtain ⟨r, rfl⟩ := Option.isSome_iff_exists.1 some
  exact Ends.pure ⟨rfl, rfl⟩

lemma visit_granted (graph : ofFunc s.module f = .ok s.graph) (sites : List Site) (clear : ∀ site ∈ sites, Clear s site)
    (k : Nat) (found : List (Nat × Report)) (unlimited : st.solver.Unlimited) :
    Ends st (visit o s (fun _ => false) sites k found) (fun _ st' => st'.solver.Unlimited) (fun _ _ => False) := by
  induction sites generalizing k found st with
  | nil => exact Ends.pure unlimited
  | cons site rest ih =>
    have here := clear site List.mem_cons_self
    have later := fun other mem => clear other (List.mem_cons_of_mem site mem)
    unfold visit
    dsimp only
    rw [if_neg Bool.false_ne_true]
    split
    · exact ih later (k + 1) found unlimited
    · refine Ends.bind (text_granted here.inst st) ?_
      rintro inst _ ⟨rfl, instText⟩
      refine Ends.bind (text_granted here.block _) ?_
      rintro block _ ⟨rfl, blockText⟩
      rw [← settingAt_eq instText blockText]
      have graph : ofFunc (settingAt s site).module f = .ok (settingAt s site).graph := graph
      refine Ends.bind (ask_granted graph here.grants inst unlimited) fun answer st₁ unlimited => ?_
      obtain ⟨verdict, q⟩ := answer
      cases verdict with
      | unsat => exact ih later (k + 1) found unlimited
      | sat model => exact Ends.bind (dumpModel_ends q model st₁) fun _ st₂ same => ih later (k + 1) _ (same ▸ unlimited)

/-! ## Functions and modules -/

/-- The function has a graph, and its sites are clear. -/
structure Settled (m : Module) (layout : Layout) (f : Func) : Prop where
  graph : ofFunc m f = .ok (settingOf m layout f).graph
  clear : ∀ site ∈ sentinelSites m f, Clear (settingOf m layout f) site

lemma function_granted (settled : Settled m layout f) (unlimited : st.solver.Unlimited) :
    Ends st (function o m layout f fun _ => false) (fun _ st' => st'.solver.Unlimited) (fun _ _ => False) := by
  unfold function
  rw [settled.graph]
  refine Ends.modify_bind ?_
  dsimp only
  rw [← settingOf_eq layout settled.graph, sites_eq]
  have graph : ofFunc (settingOf m layout f).module f = .ok (settingOf m layout f).graph := settled.graph
  exact Ends.bind (visit_granted graph _ settled.clear 0 [] unlimited) fun _ _ unlimited => Ends.pure unlimited

lemma functions_granted (fs : List Func) (settled : ∀ f ∈ fs, Settled m layout f) (i : Nat) (unlimited : st.solver.Unlimited) :
    Ends st (functions o m layout (fun _ _ => false) fs i) (fun _ _ => True) (fun _ _ => False) := by
  induction fs generalizing i st with
  | nil => exact Ends.pure trivial
  | cons f fs ih =>
    unfold functions
    refine Ends.bind (function_granted (settled f List.mem_cons_self) unlimited) fun r st₁ unlimited => ?_
    exact Ends.bind (ih (fun g mem => settled g (List.mem_cons_of_mem f mem)) (i + 1) unlimited) fun _ _ _ => Ends.pure trivial

/-- No pattern is malformed as far as it is compared with the names of functions that have a body. -/
def Patterned (o : Options) (m : Module) : Prop :=
  ∀ f ∈ m.funcs, f.blocks ≠ #[] → ∀ p ∈ o.exclude, Text.Glob.matches? p f.name ≠ none

lemma isExcluded_granted {name : Text.Bytes} {ps : List String} (fine : ∀ p ∈ ps, Text.Glob.matches? p name ≠ none) :
    ∃ out, isExcluded name ps = .ok out := by
  induction ps with
  | nil => exact ⟨false, rfl⟩
  | cons p ps ih =>
    unfold isExcluded
    split
    next malformed => exact absurd malformed (fine p List.mem_cons_self)
    next => exact ⟨true, rfl⟩
    next => exact ih fun q mem => fine q (List.mem_cons_of_mem p mem)

lemma selected_granted (fs : List Func) (st : State)
    (fine : ∀ f ∈ fs, f.blocks ≠ #[] → ∀ p ∈ o.exclude, Text.Glob.matches? p f.name ≠ none) :
    Ends st (selected o fs) (fun _ _ => True) (fun _ _ => False) := by
  induction fs generalizing st with
  | nil => exact Ends.pure trivial
  | cons f fs ih =>
    have later := fun g mem => fine g (List.mem_cons_of_mem f mem)
    unfold selected
    split
    · exact ih st later
    next body =>
      obtain ⟨out, judged⟩ := isExcluded_granted (fine f List.mem_cons_self (by simpa using body))
      rw [judged]
      cases out with
      | true => exact Ends.modify_bind (ih _ later)
      | false => exact Ends.bind (ih _ later) fun _ _ _ => Ends.pure trivial

/-- **A check of settled functions returns**, if the solver has no limits and nothing interrupts. -/
theorem module_granted (parsed : Layout.parse m.dataLayout = .ok layout) (patterned : Patterned o m)
    (settled : ∀ f ∈ checked o m, Settled m layout f) (unlimited : st.solver.Unlimited) :
    ∃ reports tally st', outcome (module o m fun _ _ => false) st = (.ok (reports, tally), st') := by
  have ends : Ends st (module o m fun _ _ => false) (fun _ _ => True) (fun _ _ => False) := by
    unfold module layoutOf
    rw [parsed]
    refine Ends.bind (Q := fun l st' => l = layout ∧ st' = st) ⟨rfl, rfl⟩ ?_
    rintro _ _ ⟨rfl, rfl⟩
    have patterns := fun f mem => patterned f (Array.mem_toList_iff.1 mem)
    refine Ends.bind (((selected_granted _ _ patterns).and (selected_exact o _ _)).mono (fun _ _ h => h.2) fun _ _ h => h.1) ?_
    rintro _ st₁ ⟨same, rfl⟩
    exact Ends.bind (functions_granted _ settled 0 (same ▸ unlimited)) fun _ _ _ => Ends.pure trivial
  obtain ⟨⟨reports, tally⟩, st', ran, -⟩ := ends.exists_ok
  exact ⟨reports, tally, st', ran⟩

end Faultline.Check
