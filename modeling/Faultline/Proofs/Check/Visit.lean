/-
# Proofs.Check.Visit — a visit of sentinels enters the feasible ones

A site is feasible if some assignment of the variables makes both the condition of
its call and the path formula of its block true. A query is answered with a model
exactly if its site is feasible (`ask_exact`).

The sentinels of a function are visited in program order (`sites_eq`). A call can be
listed at several sites. It is asked about until it is found feasible, and then it
is entered once, by its number (`visit_exact`).
-/
import Faultline.Proofs.Analysis.Ownership
import Faultline.Proofs.Solver

namespace Faultline.Check

open IR (Module ValueId Func Block)
open Formula (Handle)
open Flow.Graph (ofFunc listing)
open List Analysis

variable {m : Module} {f fn : Func} {s : Setting} {o : Options} {st : State} {site : Site}

/-! ## Sites -/

def siteAt (b : Block) (i : Nat) : Site where
  block := b.id
  call := b.insts.getD i 0
  next := if i + 1 < b.insts.size then b.insts[i + 1]? else b.term

/-- The value is a call of a function whose name begins like that of a sentinel. -/
def CallsSentinel (m : Module) (v : ValueId) : Prop :=
  ∃ name type call trail, m.get? v = some (.inst name type (.call call) trail) ∧
    ∃ stem ∈ [Sentinel.overflowStem, Sentinel.faultStem],
      Text.utf8 stem <+: Sentinel.calleeName m call.callee

open Classical in
/-- The sites of the sentinel calls of a function, in program order. -/
noncomputable def sentinelSites (m : Module) (f : Func) : List Site :=
  (f.blocks.toList.flatMap fun b => (range b.insts.size).map (siteAt b)).filter fun site =>
    CallsSentinel m site.call

lemma isCall_iff (v : ValueId) : Sentinel.isCall m v = true ↔ CallsSentinel m v := by
  unfold Sentinel.isCall CallsSentinel
  split
  next name type call trail found =>
    have kind : (Sentinel.kindOf? (Sentinel.calleeName m call.callee)).isSome = true ↔
        ∃ stem ∈ [Sentinel.overflowStem, Sentinel.faultStem],
          Text.utf8 stem <+: Sentinel.calleeName m call.callee := by
      unfold Sentinel.kindOf?
      simp only [ isPrefixOf_iff_prefix]
      split
      next overflow => simp [overflow]
      next noOverflow =>
        split
        next fault => simp [fault]
        next noFault => simp [noOverflow, noFault]
    rw [kind]
    constructor
    · intro stem
      exact ⟨name, type, call, trail, found, stem⟩
    · rintro ⟨name', type', call', trail', found', stem⟩
      cases found.symm.trans found'
      exact stem
  next other =>
    constructor
    · intro impossible
      cases impossible
    · rintro ⟨name, type, call, trail, found, -⟩
      exact absurd found (other name type call trail)

lemma sitesFrom_eq (block : ValueId) (term : Option ValueId) (vs : List ValueId) :
    sitesFrom block term vs = (range vs.length).map fun i =>
      ⟨block, vs.getD i 0, if i + 1 < vs.length then vs[i + 1]? else term⟩ := by
  induction vs with
  | nil => rfl
  | cons v vs ih =>
    rw [sitesFrom, ih, length_cons, range_succ_eq_map, map_cons, map_map]
    congr 1
    · cases vs <;> simp
    · apply map_congr_left
      intro i _
      simp

open Classical in
lemma sites_eq (m : Module) (f : Func) : sites m f = sentinelSites m f := by
  unfold sites sentinelSites
  have blocks : (fun b : Block => sitesFrom b.id b.term b.insts.toList) = fun b =>
      (range b.insts.size).map (siteAt b) := by
    funext b
    rw [sitesFrom_eq]
    simp [siteAt]
  rw [blocks]
  apply filter_congr
  intro site _
  rw [Bool.eq_iff_iff, isCall_iff, decide_eq_true_iff]

lemma mem_sitesFrom {block : ValueId} {term : Option ValueId} {vs : List ValueId} {site : Site} :
    site ∈ sitesFrom block term vs ↔
      ∃ front after, vs = front ++ site.call :: after ∧ site = ⟨block, site.call, after.head? <|> term⟩ := by
  induction vs with
  | nil => simp [sitesFrom]
  | cons v vs ih =>
    rw [sitesFrom, mem_cons, ih]
    constructor
    · rintro (rfl | ⟨front, after, rfl, same⟩)
      · exact ⟨[], vs, rfl, rfl⟩
      · exact ⟨v :: front, after, rfl, same⟩
    · rintro ⟨_ | ⟨u, front⟩, after, split, same⟩
      · obtain ⟨here, rfl⟩ := cons.inj split
        exact .inl (same.trans (by rw [here]))
      · exact .inr ⟨front, after, (cons.inj split).2, same⟩

lemma mem_sentinelSites : site ∈ sentinelSites m f ↔ Sentinel.isCall m site.call = true ∧
    ∃ b ∈ f.blocks, ∃ front after, b.insts.toList = front ++ site.call :: after ∧
      site = ⟨b.id, site.call, after.head? <|> b.term⟩ := by
  rw [← sites_eq, sites, mem_filter, mem_flatMap, and_comm]
  simp only [mem_sitesFrom, Array.mem_toList_iff]

lemma calls_sublist (m : Module) (f : Func) : ((sentinelSites m f).map Site.call).Sublist (listing f) := by
  have filtered : (sentinelSites m f).Sublist _ := filter_sublist
  refine (filtered.map Site.call).trans ?_
  unfold listing
  induction f.blocks.toList with
  | nil => simp
  | cons b bs ih =>
    rw [flatMap_cons, flatMap_cons, map_append]
    refine List.Sublist.append ?_ ih
    have insts : ((range b.insts.size).map (siteAt b)).map Site.call = b.insts.toList := by
      apply ext_getElem
      · simp
      · intro i low _
        simp at low
        simp [siteAt, low]
    rw [insts]
    exact sublist_append_left _ _

/-! ## Queries -/

/-- The setting in which a site is asked about: log entries name the site. -/
def settingAt (s : Setting) (site : Site) : Setting :=
  let block := (s.module.identText site.block).getD ""
  let inst := (site.next.bind s.module.lineText).getD ""
  { s with fields := (s.fields.put "block" (.text block)).put "inst" (.text inst) }

lemma settingAt_eq {inst block : String} (instText : site.next.bind s.module.lineText = some inst)
    (blockText : s.module.identText site.block = some block) :
    settingAt s site = { s with fields := (s.fields.put "block" (.text block)).put "inst" (.text inst) } := by
  unfold settingAt
  rw [instText, blockText]
  rfl

/-- Some assignment makes the condition of the call and the path formula of its block true. -/
def Feasible (s : Setting) (site : Site) : Prop :=
  ∃ bug reach b c,
    outcome (conditionOf (settingAt s site) site.call) s.start = (.ok bug, b) ∧
    outcome (path (settingAt s site) site.block) b = (.ok reach, c) ∧
    ∃ vars, c.arena.eval vars bug = 1 ∧ c.arena.eval vars reach = 1

/-- The query about a site has an answer that a solver with this limit finds. -/
def Answered (limit? : Option Nat) (s : Setting) (site : Site) : Prop :=
  ∃ bug reach both b dr verdict,
    outcome (question (settingAt s site) site.block site.call) s.start = (.ok (bug, reach, both), b) ∧
    Circuit.blast b.arena both = some dr ∧ Solver.decideDrawing limit? dr = .ok verdict

/-- The formula that is asked about can be true exactly if the site is feasible. -/
lemma question_exact (graph : ofFunc s.module fn = .ok s.graph) {bug reach both : Handle} {d : Bench}
    (asked : outcome (question (settingAt s site) site.block site.call) s.start = (.ok (bug, reach, both), d))
    (oneBit : d.arena.widthOf both = 1) :
    (∃ vars, d.arena.eval vars both = 1) ↔ Feasible s site := by
  unfold question at asked
  obtain ⟨bug', b, condition, asked⟩ := bind_ok.1 asked
  obtain ⟨reach', c, path, asked⟩ := bind_ok.1 asked
  obtain ⟨both', d', joined, asked⟩ := bind_ok.1 asked
  cases asked
  have first := conditionOf_accounts site.call (balanced_start (settingAt s site)).holds
  have balanced := (first.ok condition).1.balanced
  have graph : ofFunc (settingAt s site).module fn = .ok (settingAt s site).graph := graph
  have wellFormed := ((path_pays graph site.block balanced).ok path).1.wellFormed
  obtain ⟨-, same, built⟩ := (Ends.build ((Formula.Builder.binary (.arith .and) bug reach).ends wellFormed trivial)).ok joined
  have one : c.arena.widthOf bug = 1 := built.width.symm.trans oneBit
  have value : ∀ vars, d.arena.eval vars both = 1 ↔ c.arena.eval vars bug = 1 ∧ c.arena.eval vars reach = 1 := by
    intro vars
    rw [built.value vars]
    show (Formula.Arith.smt .and (c.arena.word vars bug) (BitVec.setWidth _ (c.arena.word vars reach))).toNat = 1 ↔ _
    rw [toNat_and_eq_one one, Formula.Arena.toNat_word, Formula.Arena.toNat_setWidth_word same]
  constructor
  · rintro ⟨vars, true_⟩
    exact ⟨bug, reach, b, c, condition, path, vars, (value vars).1 true_⟩
  · rintro ⟨bug', reach', b', c', condition', path', vars, true_⟩
    cases condition.symm.trans condition'
    cases path.symm.trans path'
    exact ⟨vars, (value vars).2 true_⟩

lemma solve_exact {a : Formula.Arena} {h : Handle} (wellFormed : a.WellFormed) (st : State) :
    Ends st (solve a h)
      (fun r st' => ∀ verdict, r = .ok verdict → a.widthOf h = 1 ∧
        ((∃ model, verdict = .sat model) ↔ ∃ vars, a.eval vars h = 1) ∧
        (∃ dr, Circuit.blast a h = some dr ∧ Solver.decideDrawing st.solver.limit? dr = .ok verdict) ∧
        st.solver.After 1 st'.solver)
      (fun _ _ => True) := by
  unfold solve
  refine Ends.get_bind ?_
  rcases answered : query (some st.solver) a h with ⟨e | answer, solver⟩
  · exact trivial
  · rintro verdict rfl
    exact query_exact wellFormed answered

lemma dump_ends (h : Handle) (b : Bench) (st : State) :
    Ends st (dump o s h b) (fun _ st' => st'.solver = st.solver) (fun _ _ => True) := by
  unfold dump
  split
  · refine Ends.bind ((analyze_ends _ b st).blame fun _ _ _ => trivial) fun _ st' h => ?_
    exact h.1
  · exact rfl

lemma giveBack_ends (held : List Handle) (b : Bench) (st : State) :
    Ends st (giveBack s held b) (fun _ st' => st'.solver = st.solver) (fun _ _ => True) := by
  unfold giveBack
  refine Ends.bind ((analyze_ends _ b st).blame fun _ _ _ => trivial) fun r st' h => ?_
  dsimp only
  split
  · exact h.1
  · exact h.1

lemma ask_exact (graph : ofFunc s.module fn = .ok s.graph) (o : Options) (inst : String) (st : State) :
    Ends st (ask o (settingAt s site) site.block site.call inst)
      (fun r st' => ((∃ model, r.1 = .sat model) ↔ Feasible s site) ∧ Answered st.solver.limit? s site ∧
        st.solver.After 1 st'.solver)
      (fun _ _ => True) := by
  have graph' : ofFunc (settingAt s site).module fn = .ok (settingAt s site).graph := graph
  unfold ask
  refine Ends.bind ((analyze_ends _ _ st).blame fun _ _ _ => trivial) fun r st₁ h => ?_
  obtain ⟨⟨bug, reach, both⟩, b⟩ := r
  obtain ⟨same₁, c, asked, rfl⟩ := h
  have balanced := (question_pays graph' site.block site.call).ok asked
  refine Ends.bind (dump_ends _ _ st₁) fun _ st₂ same₂ => ?_
  refine Ends.bind (solve_exact balanced.wellFormed st₂) fun answer st₃ exact_ => ?_
  refine Ends.bind (giveBack_ends _ _ st₃) fun _ st₄ same₄ => ?_
  cases answer with
  | error e => exact Ends.throw trivial
  | ok verdict =>
    obtain ⟨oneBit, sat, ⟨dr, drawing, decided⟩, after⟩ := exact_ verdict rfl
    rw [same₂, same₁] at decided after
    rw [← same₄] at after
    refine Ends.pure ⟨?_, ⟨bug, reach, both, c, dr, verdict, asked, drawing, decided⟩, after⟩
    exact sat.trans (question_exact graph asked oneBit)

/-! ## All sites of a function -/

open Classical in
/-- The sites that are asked about: a call that has been found feasible is not asked about again. -/
noncomputable def asked (s : Setting) : List ValueId → List Site → List Site
  | _, [] => []
  | told, site :: rest =>
    if site.call ∈ told then asked s told rest
    else site :: asked s (if Feasible s site then site.call :: told else told) rest

lemma asked_subset (s : Setting) (told : List ValueId) (sites : List Site) : asked s told sites ⊆ sites := by
  induction sites generalizing told with
  | nil => simp [asked]
  | cons site rest ih =>
    unfold asked
    split
    · exact List.Subset.trans (ih told) (subset_cons_self _ _)
    · exact cons_subset_cons _ (ih _)

/-- Every call that is feasible at one of the sites is asked about until it is found to be. -/
lemma exists_asked (s : Setting) (told : List ValueId) (sites : List Site) (v : ValueId) :
    (∃ site ∈ asked s told sites, site.call = v ∧ Feasible s site) ↔
      v ∉ told ∧ ∃ site ∈ sites, site.call = v ∧ Feasible s site := by
  induction sites generalizing told with
  | nil => simp [asked]
  | cons site rest ih =>
    unfold asked
    by_cases known : site.call ∈ told
    · rw [if_pos known, ih]
      constructor
      · rintro ⟨new, other, mem, found⟩
        exact ⟨new, other, mem_cons_of_mem site mem, found⟩
      · rintro ⟨new, other, mem, same, feasible⟩
        refine ⟨new, other, ?_, same, feasible⟩
        rcases mem_cons.1 mem with rfl | mem
        · exact absurd (same ▸ known) new
        · exact mem
    · rw [if_neg known]
      by_cases feasible : Feasible s site
      · rw [if_pos feasible]
        by_cases here : site.call = v
        · subst here
          exact iff_of_true ⟨site, mem_cons_self, rfl, feasible⟩
            ⟨known, site, mem_cons_self, rfl, feasible⟩
        · have rest := ih (site.call :: told)
          simp only [mem_cons, exists_eq_or_imp, here, false_and, false_or] at rest ⊢
          rw [rest]
          simp [Ne.symm here]
      · rw [if_neg feasible]
        simp only [mem_cons, exists_eq_or_imp, feasible, and_false, false_or]
        exact ih told

/-- Calls that are listed once are all asked about. -/
lemma asked_of_nodup {told : List ValueId} {sites : List Site} (nodup : (sites.map Site.call).Nodup)
    (new : ∀ site ∈ sites, site.call ∉ told) : asked s told sites = sites := by
  induction sites generalizing told with
  | nil => rfl
  | cons site rest ih =>
    obtain ⟨once, nodup⟩ := nodup_cons.1 nodup
    have later : ∀ other ∈ rest, other.call ∉ told := fun other mem => new other (mem_cons_of_mem site mem)
    unfold asked
    rw [if_neg (new site mem_cons_self)]
    split
    · rw [ih nodup]
      intro other mem
      rw [mem_cons, not_or]
      refine ⟨?_, later other mem⟩
      intro same
      exact once (same ▸ mem_map_of_mem mem)
    · rw [ih nodup later]

/-- A report on a site of a function: it names the function and the block, and shows what directly follows the
call. -/
structure Describes (m : Module) (f : Func) (site : Site) (r : Report) : Prop where
  module : r.module = Text.shown m.sourceFilename
  function : r.function = Text.shown f.name
  block : r.block = blockLabel m site.block
  inst : ∃ v, site.next = some v ∧ m.lineText v = some r.inst ∧ r.kind = Kind.ofValue m v

lemma reportOn_describes (func : s.graph.func = f) {inst : String}
    (text : site.next.bind s.module.lineText = some inst) (model : Model) (q : Question) :
    Describes s.module f site (reportOn s site inst model q) := by
  obtain ⟨v, next, line⟩ := Option.bind_eq_some_iff.1 text
  refine ⟨rfl, by rw [← func]; rfl, rfl, v, next, line, ?_⟩
  rw [reportOn, next]
  rfl

lemma dumpModel_ends (q : Question) (model : Model) (st : State) :
    Ends st (dumpModel o s q model) (fun _ st' => st'.solver = st.solver) (fun _ _ => False) := by
  unfold dumpModel
  split
  · exact rfl
  · exact rfl

lemma insertReport_perm (id : Nat) (r : Report) (found : List (Nat × Report)) :
    (insertReport id r found).Perm ((id, r) :: found) := by
  induction found with
  | nil => exact Perm.refl _
  | cons e found ih =>
    unfold insertReport
    split
    · exact Perm.refl _
    · exact (ih.cons e).trans (Perm.swap _ _ _)

lemma pairwise_insertReport {id : Nat} {found : List (Nat × Report)} (r : Report)
    (ascending : found.Pairwise fun e e' => e.1 < e'.1) (new : ∀ e ∈ found, e.1 ≠ id) :
    (insertReport id r found).Pairwise fun e e' => e.1 < e'.1 := by
  induction found with
  | nil => simp [insertReport]
  | cons e found ih =>
    obtain ⟨first, ascending'⟩ := pairwise_cons.1 ascending
    unfold insertReport
    split
    next less =>
      refine pairwise_cons.2 ⟨?_, ascending⟩
      intro e' mem
      rcases mem_cons.1 mem with rfl | mem
      · exact less
      · exact less.trans (first e' mem)
    next notLess =>
      have other := new e mem_cons_self
      refine pairwise_cons.2 ⟨?_, ih ascending' fun e' mem => new e' (mem_cons_of_mem e mem)⟩
      intro e' mem
      rcases mem_cons.1 ((insertReport_perm id r found).mem_iff.1 mem) with rfl | mem
      · show e.1 < id
        omega
      · exact first e' mem

lemma text_ends (t : Option String) (st : State) :
    Ends st (text t) (fun r st' => st' = st ∧ t = some r) (fun _ _ => True) := by
  cases t with
  | none => exact Ends.throw trivial
  | some t => exact Ends.pure ⟨rfl, rfl⟩

def EntryOf (s : Setting) (f : Func) (site : Site) (e : Nat × Report) : Prop :=
  e.1 = s.graph.number site.call ∧ Describes s.module f site e.2

open Classical in
/-- What a visit of some sites adds to the entries `found` of the calls `told`. -/
structure Visited (s : Setting) (f : Func) (solver : Solver) (told : List ValueId) (sites : List Site)
    (found found' : List (Nat × Report)) (solver' : Solver) : Prop where
  after : solver.After (asked s told sites).length solver'
  answered : ∀ site ∈ asked s told sites, Answered solver.limit? s site
  ascending : found'.Pairwise fun e e' => e.1 < e'.1
  entries : ∃ news, found'.Perm (news ++ found) ∧
    Forall₂ (EntryOf s f) ((asked s told sites).filter fun site => Feasible s site) news

structure Tracks (s : Setting) (f : Func) (told : List ValueId) (found : List (Nat × Report)) : Prop where
  ascending : found.Pairwise fun e e' => e.1 < e'.1
  entry : ∀ v ∈ listing f, (found.any fun e => e.1 = s.graph.number v) = true ↔ v ∈ told

lemma Tracks.insertReport (graph : ofFunc s.module f = .ok s.graph) {told : List ValueId}
    {found : List (Nat × Report)} (tracks : Tracks s f told found) {v : ValueId} (mem : v ∈ listing f)
    (new : v ∉ told) (r : Report) :
    Tracks s f (v :: told) (insertReport (s.graph.number v) r found) := by
  have fresh : ¬ (found.any fun e => e.1 = s.graph.number v) = true := fun old => new ((tracks.entry v mem).1 old)
  constructor
  · apply pairwise_insertReport r tracks.ascending
    intro e listed same
    exact fresh (any_eq_true.2 ⟨e, listed, decide_eq_true same⟩)
  · intro u memU
    have split : ((Check.insertReport (s.graph.number v) r found).any fun e => e.1 = s.graph.number u) = true ↔
        s.graph.number v = s.graph.number u ∨ (found.any fun e => e.1 = s.graph.number u) = true := by
      simp only [any_eq_true, (insertReport_perm _ r found).mem_iff, mem_cons, exists_eq_or_imp,
        decide_eq_true_eq]
    rw [split, tracks.entry u memU, mem_cons]
    constructor
    · rintro (same | old)
      · exact .inl (Flow.Graph.number_inj graph mem memU same).symm
      · exact .inr old
    · rintro (rfl | old)
      · exact .inl rfl
      · exact .inr old

section Steps

variable {solver solver₁ solver' : Solver} {told : List ValueId} {rest : List Site} {found found' : List (Nat × Report)}

lemma Visited.skip (known : site.call ∈ told) (visited : Visited s f solver told rest found found' solver') :
    Visited s f solver told (site :: rest) found found' solver' := by
  have same : asked s told (site :: rest) = asked s told rest := by rw [asked, if_pos known]
  exact ⟨same ▸ visited.after, same ▸ visited.answered, visited.ascending, same ▸ visited.entries⟩

lemma asked_step {told' : List ValueId} (new : site.call ∉ told) (answered : Answered solver.limit? s site)
    (after : solver.After 1 solver₁) (visited : Visited s f solver₁ told' rest found found' solver')
    (same : asked s told (site :: rest) = site :: asked s told' rest) :
    solver.After (asked s told (site :: rest)).length solver' ∧
      ∀ other ∈ asked s told (site :: rest), Answered solver.limit? s other := by
  rw [same]
  constructor
  · rw [length_cons, Nat.add_comm]
    exact after.trans visited.after
  · intro other mem
    rcases mem_cons.1 mem with rfl | mem
    · exact answered
    · exact after.limit? ▸ visited.answered other mem

lemma Visited.infeasible (new : site.call ∉ told) (infeasible : ¬ Feasible s site)
    (answered : Answered solver.limit? s site) (after : solver.After 1 solver₁)
    (visited : Visited s f solver₁ told rest found found' solver') :
    Visited s f solver told (site :: rest) found found' solver' := by
  have same : asked s told (site :: rest) = site :: asked s told rest := by
    rw [asked, if_neg new, if_neg infeasible]
  obtain ⟨after, answered⟩ := asked_step new answered after visited same
  refine ⟨after, answered, visited.ascending, ?_⟩
  rw [same, filter_cons_of_neg (by simpa using infeasible)]
  exact visited.entries

lemma Visited.feasible {r : Report} (new : site.call ∉ told) (feasible : Feasible s site)
    (answered : Answered solver.limit? s site) (after : solver.After 1 solver₁) (describes : Describes s.module f site r)
    (visited : Visited s f solver₁ (site.call :: told) rest (insertReport (s.graph.number site.call) r found)
      found' solver') :
    Visited s f solver told (site :: rest) found found' solver' := by
  have same : asked s told (site :: rest) = site :: asked s (site.call :: told) rest := by
    rw [asked, if_neg new, if_pos feasible]
  obtain ⟨after, answered⟩ := asked_step new answered after visited same
  obtain ⟨news, perm, entries⟩ := visited.entries
  refine ⟨after, answered, visited.ascending, (s.graph.number site.call, r) :: news, ?_, ?_⟩
  · refine perm.trans (((insertReport_perm _ r found).append_left news).trans ?_)
    exact perm_middle
  · rw [same, filter_cons_of_pos (by simpa using feasible)]
    exact Forall₂.cons ⟨rfl, describes⟩ entries

end Steps

/-- Visiting sites: those that have to be asked about are answered, and the feasible ones among them are entered. -/
lemma visit_exact (graph : ofFunc s.module f = .ok s.graph) (func : s.graph.func = f) (interrupted : Nat → Bool)
    (sites : List Site) (listed : ∀ site ∈ sites, site.call ∈ listing f) {told : List ValueId}
    {found : List (Nat × Report)} (tracks : Tracks s f told found) (k : Nat) (st : State) :
    Ends st (visit o s interrupted sites k found)
      (fun found' st' => Visited s f st.solver told sites found found' st'.solver) (fun _ _ => True) := by
  induction sites generalizing told found k st with
  | nil =>
    refine Ends.pure ⟨Solver.After.refl _, ?_, tracks.ascending, [], Perm.refl _, ?_⟩
    · simp [asked]
    · simp [asked]
  | cons site rest ih =>
    have here := listed site mem_cons_self
    have listed' : ∀ other ∈ rest, other.call ∈ listing f := fun other mem =>
      listed other (mem_cons_of_mem site mem)
    have entry := tracks.entry site.call here
    unfold visit
    dsimp only
    by_cases stop : interrupted k = true
    · rw [if_pos stop]
      exact trivial
    rw [if_neg stop]
    split
    -- a call that has been told is not asked again, though its site counts as visited
    next known =>
      exact (ih listed' tracks (k + 1) st).imp fun _ _ visited => visited.skip (entry.1 known)
    next unknown =>
      have new : site.call ∉ told := fun old => unknown (entry.2 old)
      refine Ends.bind (text_ends _ st) fun inst st₁ h => ?_
      obtain ⟨rfl, instText⟩ := h
      refine Ends.bind (text_ends _ st₁) fun block st₂ h => ?_
      obtain ⟨rfl, blockText⟩ := h
      rw [← settingAt_eq instText blockText]
      refine Ends.bind (ask_exact graph o inst st₂) fun answer st₃ h => ?_
      obtain ⟨verdict, q⟩ := answer
      obtain ⟨sat, answered, after⟩ := h
      cases verdict with
      | unsat =>
        have infeasible : ¬ Feasible s site := fun feasible => by
          obtain ⟨model, same⟩ := sat.2 feasible
          cases same
        exact (ih listed' tracks (k + 1) st₃).imp
          fun _ _ visited => visited.infeasible new infeasible answered after
      | sat model =>
        have feasible : Feasible s site := sat.1 ⟨model, rfl⟩
        have describes := reportOn_describes func instText model q
        refine Ends.bind (dumpModel_ends q model st₃).granted fun _ st₄ same => ?_
        rw [← same] at after
        exact (ih listed' (tracks.insertReport graph here new _) (k + 1) st₄).imp
          fun _ _ visited => visited.feasible new feasible answered after describes

end Faultline.Check
