/-
# Proofs.Check.Reports — the reports are the feasible sentinels

A check that returns reports exactly the feasible sentinel calls of the functions it
was to check, in program order, and counts what it did; a check with a query that
fails returns no reports (`module_exact`). A call that is listed at several sites is
reported once, on the first feasible one, and takes the place of its last position.
-/
import Faultline.Check.Module
import Faultline.Proofs.Check.Visit

namespace Faultline.Check

open IR (Module ValueId Func)
open Flow.Graph (ofFunc listing number)
open List

variable {m : Module} {f : Func} {s : Setting} {o : Options} {α : Type}

/-! ## Functions -/

def settingOf (m : Module) (layout : Layout) (f : Func) : Setting :=
  let g := (ofFunc m f).toOption.getD { func := f }
  ⟨m, layout, g, g.backEdges, [("func", .text (Text.shown f.name))]⟩

lemma settingOf_eq {g : Flow.Graph} (layout : Layout) (graph : ofFunc m f = .ok g) :
    settingOf m layout f = ⟨m, layout, g, g.backEdges, [("func", .text (Text.shown f.name))]⟩ := by
  unfold settingOf
  rw [graph]
  rfl

/-- The sites of a function that are asked about. -/
noncomputable def queries (m : Module) (layout : Layout) (f : Func) : List Site :=
  asked (settingOf m layout f) [] (sentinelSites m f)

open Classical in
/-- The reports on a function. -/
structure Tells (m : Module) (layout : Layout) (f : Func) (reports : List Report) : Prop where
  /-- There is one for each call that is feasible at one of its sites, on the first such site. They are in
  program order; a call that is listed several times has its last position. -/
  calls : Forall₂
    (fun v r => ∃ site ∈ queries m layout f, site.call = v ∧ Feasible (settingOf m layout f) site ∧
      Describes m f site r)
    ((listing f).dedup.filter fun v =>
      ∃ site ∈ sentinelSites m f, site.call = v ∧ Feasible (settingOf m layout f) site)
    reports
  /-- If nothing is listed twice, there is one for each feasible site. -/
  sites : (listing f).Nodup →
    Forall₂ (Describes m f)
      ((sentinelSites m f).filter fun site => Feasible (settingOf m layout f) site) reports

lemma exists_sorted {sites : List Site} {news found : List (Nat × Report)} (perm : found.Perm news)
    (entries : Forall₂ (EntryOf s f) sites news) (ascending : found.Pairwise fun e e' => e.1 < e'.1) :
    ∃ sorted : List Site, sorted.Perm sites ∧
      (sorted.Pairwise fun p q => s.graph.number p.call < s.graph.number q.call) ∧
      Forall₂ (Describes s.module f) sorted (found.map Prod.snd) := by
  have related : Relation.Comp (Forall₂ (EntryOf s f)) Perm sites found := ⟨news, entries, perm.symm⟩
  rw [forall₂_comp_perm_eq_perm_comp_forall₂] at related
  obtain ⟨sorted, perm', entries'⟩ := related
  refine ⟨sorted, perm'.symm, ?_, ?_⟩
  · have numbers : sorted.map (fun site => s.graph.number site.call) = found.map Prod.fst := by
      clear perm' ascending perm
      induction entries' with
      | nil => rfl
      | cons here _ ih => rw [map_cons, map_cons, ih, here.1]
    have pairs : (found.map Prod.fst).Pairwise (· < ·) := pairwise_map.2 ascending
    rw [← numbers] at pairs
    exact pairwise_map.1 pairs
  · exact forall₂_map_right_iff.2 (entries'.imp fun _ _ entry => entry.2)

lemma eq_of_ascending {key : α → Nat} {xs ys : List α} (perm : xs.Perm ys)
    (left : xs.Pairwise fun x y => key x < key y) (right : ys.Pairwise fun x y => key x < key y) : xs = ys := by
  refine Perm.eq_of_pairwise ?_ left right perm
  intro x y _ _ less more
  omega

lemma nodup_of_ascending {key : α → Nat} {xs : List α}
    (ascending : xs.Pairwise fun x y => key x < key y) : xs.Nodup := by
  refine ascending.imp ?_
  intro x y less same
  rw [same] at less
  omega

open Classical in
lemma tells_of_visited {layout : Layout} {found : List (Nat × Report)} {solver solver' : Solver}
    (graph : ofFunc m f = .ok (settingOf m layout f).graph)
    (visited : Visited (settingOf m layout f) f solver [] (sentinelSites m f) [] found solver') :
    Tells m layout f (found.map Prod.snd) := by
  obtain ⟨news, perm, entries⟩ := visited.entries
  rw [append_nil] at perm
  obtain ⟨sorted, same, ascending, describe⟩ := exists_sorted perm entries visited.ascending
  have ascends := Flow.Graph.ascending_listing graph
  constructor
  · -- The calls of the reported sites and the feasible calls are the same, and both ascend.
    have calls : sorted.map Site.call = (listing f).dedup.filter fun v =>
        ∃ site ∈ sentinelSites m f, site.call = v ∧ Feasible (settingOf m layout f) site := by
      have left : (sorted.map Site.call).Pairwise fun u v =>
          (settingOf m layout f).graph.number u < (settingOf m layout f).graph.number v :=
        pairwise_map.2 ascending
      have right := ascends.filter fun v =>
        decide (∃ site ∈ sentinelSites m f, site.call = v ∧ Feasible (settingOf m layout f) site)
      refine eq_of_ascending ?_ left right
      refine (perm_ext_iff_of_nodup (nodup_of_ascending left) (nodup_of_ascending right)).2 ?_
      intro v
      have found := exists_asked (settingOf m layout f) [] (sentinelSites m f) v
      simp only [mem_map, same.mem_iff, mem_filter, decide_eq_true_eq, mem_dedup]
      constructor
      · rintro ⟨site, ⟨mem, feasible⟩, rfl⟩
        have listed := asked_subset _ _ _ mem
        exact ⟨(calls_sublist m f).subset (mem_map_of_mem listed), site, listed, rfl, feasible⟩
      · rintro ⟨-, feasible⟩
        obtain ⟨site, mem, here, feasible⟩ := found.2 ⟨not_mem_nil, feasible⟩
        exact ⟨site, ⟨mem, feasible⟩, here⟩
    rw [← calls, forall₂_map_left_iff]
    have members : ∀ site ∈ sorted, site ∈ queries m layout f ∧ Feasible (settingOf m layout f) site := by
      intro site mem
      simpa [queries] using same.mem_iff.1 mem
    refine ((forall₂_and_left _ _).2 ⟨members, describe⟩).imp ?_
    rintro site r ⟨⟨mem, feasible⟩, describes⟩
    exact ⟨site, mem, rfl, feasible, describes⟩
  · intro nodup
    rw [dedup_eq_self.2 nodup] at ascends
    have all : asked (settingOf m layout f) [] (sentinelSites m f) = sentinelSites m f :=
      asked_of_nodup ((calls_sublist m f).nodup nodup) fun _ _ => not_mem_nil
    rw [all] at same
    have inOrder := pairwise_map.1 (ascends.sublist (calls_sublist m f))
    rw [← eq_of_ascending same ascending (inOrder.filter _)]
    exact describe

/-- The tally of a function. -/
def tallyOf (m : Module) (f : Func) (reports : List Report) : CheckTally where
  functions := 1
  sentinels := (sites m f).length
  reports := reports.length

lemma function_exact (o : Options) (m : Module) (layout : Layout) (f : Func) (interrupted : Nat → Bool) (st : State) :
    Ends st (function o m layout f interrupted) (fun r st' => (Tells m layout f r.1 ∧ r.2 = tallyOf m f r.1) ∧
        (∀ site ∈ queries m layout f, Answered st.solver.limit? (settingOf m layout f) site) ∧
        st.solver.After (queries m layout f).length st'.solver) (fun _ _ => True) := by
  unfold function
  rcases graph : ofFunc m f with e | g
  · exact Ends.throw trivial
  · have setting := settingOf_eq layout graph
    have graph' : ofFunc (settingOf m layout f).module f = .ok (settingOf m layout f).graph := by
      rw [setting]
      exact graph
    have func : (settingOf m layout f).graph.func = f := (Flow.Graph.laid_of_ofFunc graph').1.func
    have start : Tracks (settingOf m layout f) f [] [] := ⟨List.Pairwise.nil, by simp⟩
    have listed : ∀ site ∈ sentinelSites m f, site.call ∈ listing f := fun site mem =>
      (calls_sublist m f).subset (mem_map_of_mem mem)
    refine Ends.modify_bind ?_
    dsimp only
    rw [← setting, sites_eq]
    refine Ends.bind (visit_exact graph' func interrupted _ listed start 0 _) fun found st' visited => Ends.pure ?_
    refine ⟨⟨tells_of_visited graph' visited, ?_⟩, visited.answered, visited.after⟩
    rw [tallyOf, sites_eq]

/-! ## Modules -/

/-- The functions to be checked: those with a body that no pattern fits, in the order of the module. -/
def checked (o : Options) (m : Module) : List Func :=
  m.funcs.toList.filter fun f => ¬ f.blocks.isEmpty ∧ ∀ p ∈ o.exclude, Text.Glob.matches? p f.name ≠ some true

lemma mem_checked : f ∈ checked o m ↔
    f ∈ m.funcs ∧ f.blocks ≠ #[] ∧ ∀ p ∈ o.exclude, Text.Glob.matches? p f.name ≠ some true := by
  simp [checked]

lemma isExcluded_ok {name : Text.Bytes} {ps : List String} {out : Bool} (run : isExcluded name ps = .ok out) :
    out = false ↔ ∀ p ∈ ps, Text.Glob.matches? p name ≠ some true := by
  induction ps with
  | nil =>
    cases run
    simp
  | cons p ps ih =>
    unfold isExcluded at run
    split at run
    next => cases run
    next fits =>
      cases run
      simp [fits]
    next misses =>
      rw [ih run]
      simp [misses]

lemma selected_exact (o : Options) (fs : List Func) (st : State) : Ends st (selected o fs)
      (fun r st' => st'.solver = st.solver ∧ r = fs.filter fun f =>
        ¬ f.blocks.isEmpty ∧ ∀ p ∈ o.exclude, Text.Glob.matches? p f.name ≠ some true) (fun _ _ => True) := by
  induction fs generalizing st with
  | nil => exact Ends.pure ⟨rfl, rfl⟩
  | cons f fs ih =>
    unfold selected
    by_cases empty : f.blocks.isEmpty = true
    · rw [if_pos empty, filter_cons_of_neg (by simp [empty])]
      exact ih st
    · rw [if_neg empty]
      rcases excluded : isExcluded f.name o.exclude with e | out
      · exact Ends.throw trivial
      · have fits := isExcluded_ok excluded
        cases out with
        | true =>
          have some_ : ¬ ∀ p ∈ o.exclude, Text.Glob.matches? p f.name ≠ some true := by
            rw [← fits]
            simp
          rw [filter_cons_of_neg (by simpa [empty] using some_)]
          exact Ends.modify_bind (ih _)
        | false =>
          have none_ := fits.1 rfl
          rw [filter_cons_of_pos (by simpa [empty] using none_)]
          refine Ends.bind (ih st) fun r st' h => Ends.pure ⟨h.1, ?_⟩
          rw [h.2]

noncomputable def queryCount (m : Module) (layout : Layout) (fs : List Func) : Nat :=
  (fs.map fun f => (queries m layout f).length).sum

lemma functions_exact (o : Options) (m : Module) (layout : Layout) (interrupted : Nat → Nat → Bool) (fs : List Func)
    (i : Nat) (st : State) : Ends st (functions o m layout interrupted fs i)
      (fun rs st' => Forall₂ (fun f r => Tells m layout f r.1 ∧ r.2 = tallyOf m f r.1) fs rs ∧
        (∀ f ∈ fs, ∀ site ∈ queries m layout f, Answered st.solver.limit? (settingOf m layout f) site) ∧
        st.solver.After (queryCount m layout fs) st'.solver) (fun _ _ => True) := by
  induction fs generalizing i st with
  | nil => exact Ends.pure ⟨Forall₂.nil, by simp, Solver.After.refl _⟩
  | cons f fs ih =>
    unfold functions
    refine Ends.bind (function_exact o m layout f (interrupted i) st) fun r st₁ first => ?_
    obtain ⟨tells, answered, after⟩ := first
    refine Ends.bind (ih (i + 1) st₁) fun rs st₂ rest => Ends.pure ?_
    obtain ⟨tells', answered', after'⟩ := rest
    refine ⟨Forall₂.cons tells tells', ?_, ?_⟩
    · intro g mem site asked
      rcases mem_cons.1 mem with rfl | mem
      · exact answered site asked
      · exact after.limit? ▸ answered' g mem site asked
    · rw [queryCount, map_cons, sum_cons]
      exact after.trans after'

lemma counter_gather (counter : CheckTally → Int) (adds : ∀ t u, counter (t.add u) = countSum (counter t) (counter u))
    (zero : counter {} = 0) (rs : List (List Report × CheckTally)) :
    counter (gather rs).2 = ((rs.map fun r => counter r.2).sum).bmod (twoPow 64) := by
  have sum : ∀ (rs : List (List Report × CheckTally)) (t : CheckTally) (n : Int),
      counter t = n.bmod (twoPow 64) →
      counter (rs.foldl (fun t r => t.add r.2) t) = (n + (rs.map fun r => counter r.2).sum).bmod (twoPow 64) := by
    intro rs
    induction rs with
    | nil =>
      intro t n start
      simpa using start
    | cons r rs ih =>
      intro t n start
      rw [foldl_cons, ih (t.add r.2) (n + counter r.2), map_cons, sum_cons, Int.add_assoc]
      rw [adds, countSum, start, Int.bmod_add_bmod]
  have total := sum rs {} 0 (by rw [zero]; rfl)
  rwa [Int.zero_add] at total

/-- The counts of a check, as words. -/
structure Counts (tally : CheckTally) (functions sentinels reports : Nat) : Prop where
  functions : tally.functions = (functions : Int).bmod (twoPow 64)
  sentinels : tally.sentinels = (sentinels : Int).bmod (twoPow 64)
  reports : tally.reports = (reports : Int).bmod (twoPow 64)

lemma gather_counts {layout : Layout} {fs : List Func} {rs : List (List Report × CheckTally)}
    (told : Forall₂ (fun f r => Tells m layout f r.1 ∧ r.2 = tallyOf m f r.1) fs rs) :
    Counts (gather rs).2 fs.length (fs.map fun f => (sentinelSites m f).length).sum (gather rs).1.length := by
  have sums : (rs.map fun r => r.2.functions).sum = (fs.length : Int) ∧
      (rs.map fun r => r.2.sentinels).sum = ((fs.map fun f => (sentinelSites m f).length).sum : Nat) ∧
      (rs.map fun r => r.2.reports).sum = ((rs.flatMap Prod.fst).length : Int) := by
    induction told with
    | nil => simp
    | cons here _ ih =>
      obtain ⟨functions, sentinels, reports⟩ := ih
      simp only [map_cons, sum_cons, functions, sentinels, reports, here.2, tallyOf, sites_eq]
      simp [Int.add_comm]
  obtain ⟨functions, sentinels, reports⟩ := sums
  constructor
  · rw [counter_gather CheckTally.functions (fun _ _ => rfl) rfl, functions]
  · rw [counter_gather CheckTally.sentinels (fun _ _ => rfl) rfl, sentinels]
  · rw [counter_gather CheckTally.reports (fun _ _ => rfl) rfl, reports]
    rfl

/-- Some query of a check has no answer: the solver does not find one, or its quota does not allow for it. -/
def Fails (o : Options) (m : Module) (layout : Layout) (solver : Solver) : Prop :=
  (∃ f ∈ checked o m, ∃ site ∈ queries m layout f, ¬ Answered solver.limit? (settingOf m layout f) site) ∨
    ∃ n e, solver.quota = some (n, e) ∧ n < queryCount m layout (checked o m)

lemma module_ends (o : Options) (m : Module) (interrupted : Nat → Nat → Bool) (st : State) :
    Ends st (module o m interrupted)
      (fun r _ => ∃ layout, Layout.parse m.dataLayout = .ok layout ∧ ¬ Fails o m layout st.solver ∧
        ∃ rs, Forall₂ (fun f r => Tells m layout f r.1 ∧ r.2 = tallyOf m f r.1) (checked o m) rs ∧ r = gather rs)
      (fun _ _ => True) := by
  unfold module layoutOf
  rcases parsed : Layout.parse m.dataLayout with e | layout
  · exact trivial
  · refine Ends.bind (Q := fun l st' => l = layout ∧ st' = st) ⟨rfl, rfl⟩ fun layout st' h => ?_
    obtain ⟨rfl, rfl⟩ := h
    refine Ends.bind (selected_exact o m.funcs.toList _) fun fs st₁ h => ?_
    obtain ⟨same, rfl⟩ := h
    refine Ends.bind (functions_exact o m layout interrupted _ 0 st₁) fun rs st₂ h => Ends.pure ?_
    obtain ⟨told, answered, after⟩ := h
    rw [same] at answered after
    refine ⟨layout, rfl, ?_, rs, told, rfl⟩
    rintro (⟨f, mem, site, asked, unanswered⟩ | ⟨n, e, quota, less⟩)
    · exact unanswered (answered f mem site asked)
    · exact absurd (after.quota n e quota).1 (Nat.not_le_of_lt less)

/-- The reports of a check that returned are those on its functions. -/
lemma module_tells {interrupted : Nat → Nat → Bool} {st st' : State} {reports : List Report}
    {tally : CheckTally} (ran : outcome (module o m interrupted) st = (.ok (reports, tally), st')) :
    ∃ layout, Layout.parse m.dataLayout = .ok layout ∧
      ∃ parts, Forall₂ (Tells m layout) (checked o m) parts ∧ reports = parts.flatten := by
  obtain ⟨layout, parsed, -, rs, told, same⟩ := (module_ends o m interrupted st).ok ran
  exact ⟨layout, parsed, rs.map Prod.fst, forall₂_map_right_iff.2 (told.imp fun _ _ h => h.1),
    (congrArg Prod.fst same).trans (flatMap_def ..)⟩

/-- **The reports are the feasible sentinels.** When a check of a module returns, its reports are those on the
functions that were to be checked, one function after the other in the order of the module; on each of them there
is one report for each feasible sentinel call, in program order, and nothing else. The tally counts the functions
checked, their sentinel calls and the reports. When a query fails, there are no reports, but an error. -/
theorem module_exact (o : Options) (m : Module) (interrupted : Nat → Nat → Bool) (st : State) :
    (∀ reports tally st', outcome (module o m interrupted) st = (.ok (reports, tally), st') →
      ∃ layout, Layout.parse m.dataLayout = .ok layout ∧
        (∃ parts, List.Forall₂ (Tells m layout) (checked o m) parts ∧ reports = parts.flatten) ∧
        Counts tally (checked o m).length ((checked o m).map fun f => (sentinelSites m f).length).sum reports.length) ∧
    ∀ layout, Layout.parse m.dataLayout = .ok layout → Fails o m layout st.solver →
      ∃ e st', outcome (module o m interrupted) st = (.error e, st') := by
  have ends := module_ends o m interrupted st
  constructor
  · intro reports tally st' ran
    obtain ⟨layout, parsed, parts⟩ := module_tells ran
    obtain ⟨layout', parsed', -, rs, told, same⟩ := ends.ok ran
    cases parsed.symm.trans parsed'
    have counts := gather_counts told
    rw [← same] at counts
    exact ⟨layout, parsed, parts, counts⟩
  · intro layout parsed fails
    rcases ran : outcome (module o m interrupted) st with ⟨e | r, st'⟩
    · exact ⟨e, st', rfl⟩
    · obtain ⟨layout', parsed', answered, -⟩ := ends.ok ran
      cases parsed.symm.trans parsed'
      exact absurd fails answered

/-! ## A function with one sentinel -/

def guardedFunc : Func where
  id := 3
  name := Text.utf8 "f"
  result := .void
  params := []
  blocks := #[⟨4, #[6], some 7⟩]

def guarded : Module where
  defs := IR.shared ++ #[.func (.named (Text.utf8 "f")) .void, .block (.number 0),
    .func (.named (Text.utf8 Sentinel.faultStem)) .void,
    .inst (.number 0) .void (.call ⟨"call", .void, 5, [IR.trueId], []⟩) [],
    .term (.number 0) .void (.ret none) []]
  funcs := #[guardedFunc, { id := 5, name := Text.utf8 Sentinel.faultStem, result := .void, params := [] }]

def guardedGraph : Flow.Graph where
  func := guardedFunc
  index := (∅ : Std.HashMap ValueId Nat).insert 4 0
  preds := #[[]]
  succs := #[[]]
  ids := ((∅ : Std.HashMap ValueId Nat).insert 6 0).insert 7 1
  blockOf := #[0, 0]

lemma guarded_graph : Flow.Graph.ofFunc guarded guardedFunc = .ok guardedGraph := rfl

def guardedSite : Site := ⟨4, 6, some 7⟩

lemma guarded_sites : sites guarded guardedFunc = [guardedSite] := by
  have sentinel : Sentinel.isCall guarded 6 = true := by decide +kernel
  show [guardedSite].filter (fun site => Sentinel.isCall guarded site.call) = [guardedSite]
  simp [guardedSite, sentinel]

def guardedSetting : Setting where
  module := guarded
  layout := {}
  graph := guardedGraph
  cut := guardedGraph.backEdges
  fields := [("func", .text (Text.shown guardedFunc.name))]

def guardedState : State where
  solver := {}
  log := #[⟨.debug, "checking", guardedSetting.fields.put "backedges" (.number guardedGraph.backEdges.size)⟩]

lemma guarded_visit : ∃ found st,
    outcome (visit {} guardedSetting (fun _ => false) [guardedSite] 0 []) guardedState = (.ok found, st) ∧
      found.length = 1 := by
  have index : guardedGraph.index[4]? = some 0 := by
    simp only [guardedGraph, Std.HashMap.getElem?_insert]
    rfl
  have granted : (outcome (visit {} guardedSetting (fun _ => false) [guardedSite] 0 [])
      guardedState).1.toOption.map length = some 1 := by
    unfold visit
    dsimp only
    rw [if_neg (by decide), if_neg (by decide)]
    simp only [ask, question, Analysis.path, Flow.Graph.indexOf]
    rw [show guardedSetting.graph = guardedGraph from rfl, show guardedSite.block = 4 from rfl, index]
    decide +kernel
  rcases ran : outcome (visit {} guardedSetting (fun _ => false) [guardedSite] 0 []) guardedState with ⟨e | found, st⟩
  · rw [ran] at granted
    cases granted
  · rw [ran] at granted
    exact ⟨found, st, rfl, Option.some.inj granted⟩

lemma guarded_module : ∃ reports tally st,
    outcome (module {} guarded fun _ _ => false) { solver := {} } = (.ok (reports, tally), st) ∧
      reports.length = 1 := by
  obtain ⟨found, st, visited, one⟩ := guarded_visit
  have parsed : Layout.parse guarded.dataLayout = .ok {} := by decide +kernel
  have layout : outcome (layoutOf guarded) { solver := {} } = (.ok {}, { solver := {} }) := by
    unfold layoutOf
    rw [parsed]
    rfl
  have selected : outcome (selected {} guarded.funcs.toList) { solver := {} } =
      (.ok [guardedFunc], { solver := {} }) := rfl
  have first : outcome (function {} guarded {} guardedFunc fun _ => false) { solver := {} } =
      (.ok (found.map Prod.snd, tallyOf guarded guardedFunc (found.map Prod.snd)), st) := by
    unfold function
    rw [guarded_graph]
    rw [← guarded_sites] at visited
    exact bind_ok.2 ⟨(), guardedState, rfl, bind_ok.2 ⟨found, st, visited, rfl⟩⟩
  have all : outcome (functions {} guarded {} (fun _ _ => false) [guardedFunc] 0) { solver := {} } =
      (.ok [(found.map Prod.snd, tallyOf guarded guardedFunc (found.map Prod.snd))], st) :=
    bind_ok.2 ⟨_, st, first, rfl⟩
  refine ⟨_, _, st, bind_ok.2 ⟨_, _, layout, bind_ok.2 ⟨_, _, selected, bind_ok.2 ⟨_, _, all, rfl⟩⟩⟩, ?_⟩
  simpa using one

/-- The call is feasible, and reported; a solver that answers no query makes the check fail. -/
theorem module_exact_guarded :
    (∃ reports tally st,
      outcome (module {} guarded fun _ _ => false) { solver := {} } = (.ok (reports, tally), st) ∧
        Tells guarded {} guardedFunc reports ∧ tally.functions = 1 ∧ tally.sentinels = 1 ∧ tally.reports = 1) ∧
      ∃ e st, outcome (module {} guarded fun _ _ => false) { solver := { quota := some (0, .timeout) } } =
        (.error e, st) := by
  have parsed : Layout.parse guarded.dataLayout = .ok {} := by decide +kernel
  have only : checked {} guarded = [guardedFunc] := rfl
  have site : sentinelSites guarded guardedFunc = [guardedSite] := (sites_eq ..).symm.trans guarded_sites
  constructor
  · obtain ⟨reports, tally, st, ran, one⟩ := guarded_module
    obtain ⟨layout, parsed', ⟨parts, tells, same⟩, counts⟩ := (module_exact _ _ _ _).1 reports tally st ran
    cases parsed.symm.trans parsed'
    rw [only] at tells counts
    refine ⟨reports, tally, st, ran, ?_, counts.functions, ?_, ?_⟩
    · cases tells with
      | cons first rest =>
        cases rest
        simpa [same] using first
    · rw [counts.sentinels]
      simp [site]
      rfl
    · rw [counts.reports, one]
      rfl
  · refine (module_exact _ _ _ _).2 {} parsed (.inr ⟨0, .timeout, rfl, ?_⟩)
    rw [only]
    simp [queryCount, queries, site, asked]
end Faultline.Check
