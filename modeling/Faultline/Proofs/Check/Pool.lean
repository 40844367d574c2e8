/-
# Proofs.Check.Pool — functions checked at the same time

The functions of a module can be checked by several workers, which are started in
order; before each of its sentinels a worker looks whether the check was canceled.
The first failure is kept and cancels the others, and the check ends when all have
returned. A `Step` is one move of one worker, or a cancellation; a run is any
sequence of steps, and `Concludes` says what a check can return.

A check that returns without an error has asked about all sentinels of all
functions, and returns what checking one function after the other returns
(`concludes_exact`). That rests on `Sound`, which every step preserves: as long as
nothing has failed, what each worker has found so far can be found again, in any
state with enough queries left.
-/
import Faultline.Proofs.Check.Replay
import Faultline.Proofs.Check.Reports

namespace Faultline.Check

open IR (Module Func)
open Flow.Graph (ofFunc listing number)
open List

/-! ## Workers -/

structure Job where
  options : Options
  module : Module
  layout : Layout
  funcs : List Func
  limit : Nat

def limitOf (jobs : Int) : Nat :=
  if 1 < jobs then jobs.toNat else 1

abbrev Result := Except Error (List Report × CheckTally)

inductive Task where
  | waiting
  /-- Between two sentinels. -/
  | between (rest : List Site) (found : List (Nat × Report))
  /-- At a sentinel: the check was not canceled when it was looked. -/
  | inside (site : Site) (rest : List Site) (found : List (Nat × Report))
  | returned (result : Result)
  /-- The result was taken note of, and the worker is free. -/
  | done (result : Result)

namespace Task

def isActive : Task → Bool
  | .waiting | .done _ => false
  | _ => true

def Failed : Task → Prop
  | .returned (.error _) | .done (.error _) => True
  | _ => False

def opening (m : Module) (f : Func) : Task :=
  match ofFunc m f with
  | .error e => .returned (.error (.refused e))
  | .ok _ => .between (sites m f) []

end Task

def greeted (s : Setting) (st : State) : State :=
  (outcome (say .debug "checking" (s.fields.put "backedges" (.number s.cut.size))) st).2

/-- A move of the worker on `f`: its task and the shared state before and after, and the sites it asks about. -/
inductive Move (job : Job) (f : Func) (canceled : Bool) : Task → State → Task → State → List Site → Prop where
  | interrupted {site : Site} {rest : List Site} {found : List (Nat × Report)} {st : State} (stop : canceled = true) :
      Move job f canceled (.between (site :: rest) found) st (.returned (.error .interrupted)) st []
  | look {site : Site} {rest : List Site} {found : List (Nat × Report)} {st : State} (go : canceled = false) :
      Move job f canceled (.between (site :: rest) found) st (.inside site rest found) st []
  | pass {site : Site} {rest : List Site} {found : List (Nat × Report)} {st : State}
      (known : isKnown (settingOf job.module job.layout f) site found = true) :
      Move job f canceled (.inside site rest found) st (.between rest found) st []
  | answer {site : Site} {rest : List Site} {found found' : List (Nat × Report)} {st st' : State}
      (new : isKnown (settingOf job.module job.layout f) site found = false)
      (entered : outcome (enter job.options (settingOf job.module job.layout f) site found) st = (.ok found', st')) :
      Move job f canceled (.inside site rest found) st (.between rest found') st' [site]
  | fail {site : Site} {rest : List Site} {found : List (Nat × Report)} {st st' : State} {e : Error}
      (new : isKnown (settingOf job.module job.layout f) site found = false)
      (refused : outcome (enter job.options (settingOf job.module job.layout f) site found) st = (.error e, st')) :
      Move job f canceled (.inside site rest found) st (.returned (.error e)) st' [site]
  | giveUp {site : Site} {rest : List Site} {found : List (Nat × Report)} {st : State} (inst : String) (e : SolverError)
      (new : isKnown (settingOf job.module job.layout f) site found = false) :
      Move job f canceled (.inside site rest found) st (.returned (.error (.solver (Text.shown f.name) inst e))) st [site]
  | finish {found : List (Nat × Report)} {st : State} :
      Move job f canceled (.between [] found) st
        (.returned (.ok (found.map Prod.snd, tallyOf job.module f (found.map Prod.snd)))) st []

/-! ## The pool -/

structure Pool where
  /-- The tasks, by the positions of their functions. -/
  tasks : Nat → Task := fun _ => .waiting
  canceled : Bool := false
  /-- The first failure. -/
  error? : Option Error := none
  state : State
  /-- The sites that have been asked about. -/
  asked : Nat → List Site := fun _ => []

namespace Pool

def active (job : Job) (p : Pool) : Nat :=
  ((range job.funcs.length).filter fun i => (p.tasks i).isActive).length

def started (job : Job) (p : Pool) (i : Nat) (f : Func) : Pool :=
  { p with
    tasks := Function.update p.tasks i (.opening job.module f)
    state := greeted (settingOf job.module job.layout f) p.state }

def moved (p : Pool) (i : Nat) (t : Task) (st : State) (asked : List Site) : Pool :=
  { p with
    tasks := Function.update p.tasks i t
    state := st
    asked := Function.update p.asked i (p.asked i ++ asked) }

/-- The result of a worker is taken note of. The first failure is kept, and cancels the check. -/
def collected (p : Pool) (i : Nat) : Result → Pool
  | .ok r => { p with tasks := Function.update p.tasks i (.done (.ok r)) }
  | .error e =>
    { p with
      tasks := Function.update p.tasks i (.done (.error e))
      canceled := true
      error? := p.error? <|> some e }

end Pool

/-- One step of a check. -/
inductive Step (job : Job) (p : Pool) : Pool → Prop where
  | cancel : Step job p { p with canceled := true }
  | start {i : Nat} {f : Func} (here : job.funcs[i]? = some f) (waiting : p.tasks i = .waiting)
      (inOrder : ∀ k < i, p.tasks k ≠ .waiting) (room : p.active job < job.limit) : Step job p (p.started job i f)
  | move {i : Nat} {f : Func} {t : Task} {st : State} {asked : List Site} (here : job.funcs[i]? = some f)
      (moves : Move job f p.canceled (p.tasks i) p.state t st asked) : Step job p (p.moved i t st asked)
  | collect {i : Nat} {r : Result} (here : i < job.funcs.length) (returned : p.tasks i = .returned r) :
      Step job p (p.collected i r)

structure Answer where
  reports : List Report
  tally : CheckTally
  error? : Option Error

namespace Pool

def result (p : Pool) (i : Nat) : List Report × CheckTally :=
  match p.tasks i with
  | .done (.ok r) => r
  | _ => ([], {})

def answer (job : Job) (p : Pool) : Answer :=
  match p.error? with
  | some e => ⟨[], {}, some e⟩
  | none =>
    let (reports, tally) := gather ((range job.funcs.length).map p.result)
    ⟨reports, tally, none⟩

end Pool

/-- A check of a module by several workers can end with this answer, the workers being left like this. -/
inductive Concludes (o : Options) (jobs : Int) (m : Module) (st : State) : Answer → Pool → Prop where
  | layout {e : Layout.SpecError} (bad : Layout.parse m.dataLayout = .error e) :
      Concludes o jobs m st ⟨[], {}, some (.layout e)⟩ { state := st }
  | pattern {layout : Layout} {e : Error} {st' : State} (parsed : Layout.parse m.dataLayout = .ok layout)
      (bad : outcome (selected o m.funcs.toList) st = (.error e, st')) :
      Concludes o jobs m st ⟨[], {}, some e⟩ { state := st' }
  | pool {layout : Layout} {fs : List Func} {st' : State} {p : Pool} (parsed : Layout.parse m.dataLayout = .ok layout)
      (chosen : outcome (selected o m.funcs.toList) st = (.ok fs, st'))
      (run : Relation.ReflTransGen (Step ⟨o, m, layout, fs, limitOf jobs⟩) { state := st' } p)
      (finished : ∀ i < fs.length, ∃ r, p.tasks i = .done r) :
      Concludes o jobs m st (p.answer ⟨o, m, layout, fs, limitOf jobs⟩) p

/-! ## What a worker has done -/

/-- The sites asked about are all of the function's, up to sites of a call that has been asked about. -/
structure Complete (m : Module) (f : Func) (asked : List Site) : Prop where
  inOrder : asked.Sublist (sentinelSites m f)
  all : ∀ site ∈ sentinelSites m f, ∃ q ∈ asked, q.call = site.call
  /-- If nothing is listed twice, they are all sites. -/
  exact : (listing f).Nodup → asked = sentinelSites m f

/-- The worker on `f` has gone through the sites of `done`, the others of the function are `rest`. -/
structure Reached (job : Job) (f : Func) (limit : Int) (asked done rest : List Site) (found : List (Nat × Report))
    (k : Nat) : Prop where
  graph : ofFunc job.module f = .ok (settingOf job.module job.layout f).graph
  split : sites job.module f = done ++ rest
  /-- What was found is found again. -/
  replays : Replays limit k (enterAll job.options (settingOf job.module job.layout f) done []) found
  inOrder : asked.Sublist done
  all : ∀ site ∈ done, ∃ q ∈ asked, q.call = site.call
  entries : ∀ e ∈ found, ∃ q ∈ asked, e.1 = (settingOf job.module job.layout f).graph.number q.call

/-- A task that has not failed, with so many queries made. -/
def Sane (job : Job) (f : Func) (limit : Int) (asked : List Site) (k : Nat) : Task → Prop
  | .waiting => asked = [] ∧ k = 0
  | .between rest found => ∃ done, Reached job f limit asked done rest found k
  | .inside site rest found => ∃ done, Reached job f limit asked done (site :: rest) found k
  | .returned (.ok r) | .done (.ok r) => ∃ found, Reached job f limit asked (sites job.module f) [] found k ∧
      r = (found.map Prod.snd, tallyOf job.module f (found.map Prod.snd))
  | .returned (.error _) | .done (.error _) => True

variable {job : Job} {f : Func} {limit : Int} {asked done rest : List Site} {site : Site}
  {found found' : List (Nat × Report)} {k : Nat} {st st' : State} {m : Module} {o : Options} {i : Nat} {fs : List Func}
  {p q : Pool} {t t' : Task} {new : List Site}

namespace Reached

/-- A call that is listed twice has been asked about when it has been reported. -/
lemma pass (reached : Reached job f limit asked done (site :: rest) found k)
    (known : isKnown (settingOf job.module job.layout f) site found = true) :
    Reached job f limit asked (done ++ [site]) rest found k := by
  have listed : ∀ q ∈ sites job.module f, q.call ∈ listing f := by
    intro q mem
    rw [sites_eq] at mem
    exact (calls_sublist job.module f).subset (mem_map_of_mem mem)
  refine ⟨reached.graph, by rw [reached.split]; simp, ?_, reached.inOrder.trans (sublist_append_left _ _), ?_,
    reached.entries⟩
  · rw [enterAll_append]
    refine reached.replays.last ?_
    rw [enterAll_cons, if_pos known, pure_bind]
    exact .pure found
  · intro other mem
    rcases mem_append.1 mem with mem | mem
    · exact reached.all other mem
    obtain rfl := mem_singleton.1 mem
    obtain ⟨e, entry, number⟩ := any_eq_true.1 known
    obtain ⟨q, asked, same⟩ := reached.entries e entry
    refine ⟨q, asked, Flow.Graph.number_inj reached.graph (listed q ?_) (listed other ?_) ?_⟩
    · rw [reached.split]
      exact mem_append_left _ (reached.inOrder.subset asked)
    · rw [reached.split]
      simp
    · exact same.symm.trans (of_decide_eq_true number)

lemma answer (reached : Reached job f st.solver.timeout asked done (site :: rest) found k)
    (new : isKnown (settingOf job.module job.layout f) site found = false)
    (entered : outcome (enter job.options (settingOf job.module job.layout f) site found) st = (.ok found', st')) :
    Reached job f st.solver.timeout (asked ++ [site]) (done ++ [site]) rest found' (k + 1) := by
  refine ⟨reached.graph, by rw [reached.split]; simp, ?_, reached.inOrder.append (List.Sublist.refl _), ?_, ?_⟩
  · rw [enterAll_append]
    refine reached.replays.bind ?_
    rw [enterAll_cons, if_neg (by simp [new])]
    exact (enter_replays entered).2.last (.pure found')
  · intro other mem
    rcases mem_append.1 mem with mem | mem
    · obtain ⟨q, here, same⟩ := reached.all other mem
      exact ⟨q, mem_append_left _ here, same⟩
    · exact ⟨other, mem_append_right _ mem, rfl⟩
  · intro e mem
    rcases enter_entries entered e mem with old | here
    · obtain ⟨q, here, same⟩ := reached.entries e old
      exact ⟨q, mem_append_left _ here, same⟩
    · exact ⟨site, mem_append_right _ (mem_singleton_self site), here⟩

lemma complete (reached : Reached job f limit asked (sites job.module f) [] found k) : Complete job.module f asked := by
  have inOrder := reached.inOrder
  have all := reached.all
  rw [sites_eq] at inOrder all
  refine ⟨inOrder, all, fun nodup => ?_⟩
  have calls := (calls_sublist job.module f).nodup nodup
  refine inOrder.eq_of_length_le ?_
  -- No two sites have the same call, so that each of them has been asked about itself.
  have lengths : ((sentinelSites job.module f).map Site.call).length ≤ (asked.map Site.call).length := by
    refine (subperm_of_subset calls ?_).length_le
    intro v mem
    obtain ⟨site, here, rfl⟩ := mem_map.1 mem
    obtain ⟨q, asked, same⟩ := all site here
    exact mem_map.2 ⟨q, asked, same⟩
  simpa using lengths

end Reached

lemma Move.at_work {canceled : Bool} (moves : Move job f canceled t st t' st' new) :
    ¬ t.Failed ∧ ∀ r, t' ≠ .done r := by
  cases moves with
  | interrupted | look | pass | answer | fail | giveUp | finish => exact ⟨id, fun _ => Task.noConfusion⟩

/-- **A move that does not fail keeps a task sane.** -/
theorem Sane.move {canceled : Bool} (sane : Sane job f limit asked k t)
    (moves : Move job f canceled t st t' st' new) (same : st.solver.timeout = limit) (fine : ¬ t'.Failed) :
    ∃ j, st.solver.Spends j st'.solver ∧ Sane job f limit (asked ++ new) (k + j) t' := by
  subst same
  cases moves with
  | interrupted | fail | giveUp => exact absurd trivial fine
  | look =>
    rw [append_nil]
    exact ⟨0, .refl _, sane⟩
  | pass known =>
    obtain ⟨done, reached⟩ := sane
    rw [append_nil]
    exact ⟨0, .refl _, done ++ [_], reached.pass known⟩
  | answer new entered =>
    obtain ⟨done, reached⟩ := sane
    exact ⟨1, (enter_replays entered).1, done ++ [_], reached.answer new entered⟩
  | finish =>
    obtain ⟨done, reached⟩ := sane
    have all : sites job.module f = done := by simpa using reached.split
    subst all
    rw [append_nil]
    exact ⟨0, .refl _, _, reached, rfl⟩

/-- Without a graph a task has failed when it begins; otherwise all sites are before it. -/
lemma Sane.opening (job : Job) (f : Func) (limit : Int) (fine : ¬ (Task.opening job.module f).Failed) :
    Sane job f limit [] 0 (.opening job.module f) := by
  unfold Task.opening at fine ⊢
  rcases graph : ofFunc job.module f with e | g
  · rw [graph] at fine
    exact absurd trivial fine
  · refine ⟨[], ?_, rfl, .pure [], List.Sublist.refl _, by simp, by simp⟩
    unfold settingOf
    rw [graph]
    rfl

/-! ## What the pool keeps -/

/-- What holds of a pool that began in the state `st`. -/
structure Sound (job : Job) (st : State) (p : Pool) : Prop where
  /-- A failure that was taken note of is not forgotten. -/
  kept : ∀ i e, p.tasks i = .done (.error e) → p.error? ≠ none
  /-- If nothing has failed, what was found can be found again, with as many queries as have been made. -/
  fine : (∀ i < job.funcs.length, ¬ (p.tasks i).Failed) → p.error? = none ∧ ∃ k : Nat → Nat,
    st.solver.Spends (∑ i ∈ Finset.range job.funcs.length, k i) p.state.solver ∧
      ∀ i f, job.funcs[i]? = some f → Sane job f st.solver.timeout (p.asked i) (k i) (p.tasks i)

namespace Sound

lemma init (job : Job) (st : State) : Sound job st { state := st } := by
  refine ⟨fun i e failed => (nomatch failed), fun _ => ⟨rfl, fun _ => 0, ?_, fun i f _ => ⟨rfl, rfl⟩⟩⟩
  simpa using Solver.Spends.refl st.solver

lemma update (new : List Site) (sound : Sound job st p)
    (here : job.funcs[i]? = some f) (tasks : q.tasks = Function.update p.tasks i t)
    (asked : q.asked = Function.update p.asked i (p.asked i ++ new))
    (kept : p.error? ≠ none → q.error? ≠ none) (noted : ∀ e, t = .done (.error e) → q.error? ≠ none)
    (quiet : ¬ t.Failed → p.error? = none → q.error? = none) (before : ¬ t.Failed → ¬ (p.tasks i).Failed)
    (sane : ∀ k, ¬ t.Failed → p.state.solver.timeout = st.solver.timeout →
      Sane job f st.solver.timeout (p.asked i) k (p.tasks i) →
      ∃ j, p.state.solver.Spends j q.state.solver ∧ Sane job f st.solver.timeout (p.asked i ++ new) (k + j) t) :
    Sound job st q := by
  constructor
  · intro l e failed
    rw [tasks] at failed
    by_cases same : l = i
    · subst same
      rw [Function.update_self] at failed
      exact noted e failed
    · rw [Function.update_of_ne same] at failed
      exact kept (sound.kept l e failed)
  · intro fine
    rw [tasks] at fine
    have inside : i < job.funcs.length := (List.getElem?_eq_some_iff.1 here).1
    have now : ¬ t.Failed := by simpa using fine i inside
    have earlier : ∀ l < job.funcs.length, ¬ (p.tasks l).Failed := by
      intro l less
      by_cases same : l = i
      · exact same ▸ before now
      · simpa [Function.update_of_ne same] using fine l less
    obtain ⟨none_, k, spends, all⟩ := sound.fine earlier
    obtain ⟨j, more, now_⟩ := sane (k i) now spends.timeout (all i f here)
    -- the bill of the task that moved grows by what the step has spent
    refine ⟨quiet now none_, fun l => k l + if l = i then j else 0, ?_, fun l g there => ?_⟩
    · rw [Finset.sum_add_distrib, Finset.sum_ite_eq', if_pos (Finset.mem_range.2 inside)]
      exact spends.trans more
    · rw [tasks, asked]
      dsimp only
      by_cases same : l = i
      · subst same
        cases here.symm.trans there
        rw [Function.update_self, Function.update_self, if_pos rfl]
        exact now_
      · rw [Function.update_of_ne same, Function.update_of_ne same, if_neg same]
        exact all l g there

lemma move (sound : Sound job st p) (here : job.funcs[i]? = some f)
    (moves : Move job f p.canceled (p.tasks i) p.state t st' asked) : Sound job st (p.moved i t st' asked) := by
  obtain ⟨before, after⟩ := moves.at_work
  exact sound.update asked here rfl rfl id (fun e same => absurd same (after _)) (fun _ => id) (fun _ => before)
    fun k fine same sane => sane.move moves same fine

lemma start (sound : Sound job st p) (here : job.funcs[i]? = some f)
    (waiting : p.tasks i = .waiting) : Sound job st (p.started job i f) := by
  refine sound.update [] here rfl ?_ id ?_ (fun _ => id) ?_ ?_
  · rw [append_nil]
    exact (Function.update_eq_self i p.asked).symm
  · intro e failed
    unfold Task.opening at failed
    split at failed
    · cases failed
    · cases failed
  · intro _
    rw [waiting]
    exact id
  · intro k fine _ sane
    rw [waiting] at sane
    obtain ⟨none_, rfl⟩ := sane
    rw [none_]
    exact ⟨0, .refl _, .opening job f _ fine⟩

lemma collect {r : Result} (sound : Sound job st p) (here : job.funcs[i]? = some f)
    (returned : p.tasks i = .returned r) : Sound job st (p.collected i r) := by
  cases r with
  | ok r =>
    refine sound.update (t := .done (.ok r)) [] here rfl ?_ id (fun e failed => nomatch failed)
      (fun _ => id) ?_ ?_
    · rw [append_nil]
      exact (Function.update_eq_self i p.asked).symm
    · intro _
      rw [returned]
      exact id
    · intro k _ _ sane
      rw [returned] at sane
      rw [append_nil]
      exact ⟨0, .refl _, sane⟩
  | error e =>
    have noted : (p.error? <|> some e) ≠ none := by cases p.error? <;> simp
    refine sound.update (t := .done (.error e)) [] here rfl ?_ (fun _ => noted) (fun _ _ => noted)
      (fun fine => absurd trivial fine) (fun fine => absurd trivial fine) (fun _ fine => absurd trivial fine)
    rw [append_nil]
    exact (Function.update_eq_self i p.asked).symm

lemma step (sound : Sound job st p) (step : Step job p q) : Sound job st q := by
  cases step with
  | cancel => exact ⟨sound.kept, sound.fine⟩
  | start here waiting => exact sound.start here waiting
  | move here moves => exact sound.move here moves
  | collect here returned => exact sound.collect (getElem?_eq_getElem here) returned

/-- **Every run keeps a pool sound.** -/
theorem run (run : Relation.ReflTransGen (Step job) { state := st } p) : Sound job st p := by
  induction run with
  | refl => exact init job st
  | tail _ last ih => exact ih.step last

end Sound

/-! ## One function after the other -/

lemma function_replays (reached : Reached job f limit asked (sites job.module f) [] found k) :
    Replays limit k (function job.options job.module job.layout f fun _ => false)
      (found.map Prod.snd, tallyOf job.module f (found.map Prod.snd)) := by
  unfold function
  rw [reached.graph]
  refine Replays.then_ (q := ()) (fun st _ _ => ⟨_, rfl, .refl _⟩) ?_
  refine Replays.last (q := found) ?_ (.pure _)
  have replays := reached.replays
  rw [← visit_never _ _ _ 0] at replays
  unfold settingOf at replays
  rw [reached.graph] at replays
  exact replays

lemma functions_replays {layout : Layout} (k : Nat → Nat)
    (result : Nat → List Report × CheckTally) (fs : List Func) (i : Nat)
    (each : ∀ l f, fs[l]? = some f → Replays limit (k (i + l)) (function o m layout f fun _ => false) (result (i + l))) :
    Replays limit (∑ l ∈ Finset.range fs.length, k (i + l)) (functions o m layout (fun _ _ => false) fs i)
      ((range fs.length).map fun l => result (i + l)) := by
  induction fs generalizing i with
  | nil => exact .pure _
  | cons f fs ih =>
    rw [length_cons, Finset.sum_range_succ', Nat.add_comm, range_succ_eq_map, map_cons, map_map]
    refine (each 0 f rfl).bind ?_
    have later := ih (i + 1) fun l g there => by
      rw [Nat.add_assoc, Nat.add_comm 1 l]
      exact each (l + 1) g there
    simp only [Nat.add_assoc, Nat.add_comm 1] at later
    exact later.last (.pure _)

/-- A check in which nothing failed has asked about all sites, and returns what checking one function after the other returns. -/
lemma sequential_of_sound {layout : Layout} {limit : Nat}
    {st₁ : State} (parsed : Layout.parse m.dataLayout = .ok layout)
    (chosen : outcome (selected o m.funcs.toList) st = (.ok fs, st₁)) (sound : Sound ⟨o, m, layout, fs, limit⟩ st₁ p)
    (finished : ∀ i < fs.length, ∃ r, p.tasks i = .done (.ok r)) :
    (∀ i f, fs[i]? = some f → Complete m f (p.asked i)) ∧
      ∃ st', outcome (module o m fun _ _ => false) st = (.ok (gather ((range fs.length).map p.result)), st') := by
  have fine : ∀ i < fs.length, ¬ (p.tasks i).Failed := by
    intro i less
    obtain ⟨r, done⟩ := finished i less
    rw [done]
    exact id
  obtain ⟨-, k, spends, all⟩ := sound.fine fine
  have reached : ∀ l f, fs[l]? = some f → ∃ found,
      Reached ⟨o, m, layout, fs, limit⟩ f st₁.solver.timeout (p.asked l) (sites m f) [] found (k l) ∧
        p.result l = (found.map Prod.snd, tallyOf m f (found.map Prod.snd)) := by
    intro l f here
    obtain ⟨r, done⟩ := finished l (List.getElem?_eq_some_iff.1 here).1
    have sane := all l f here
    rw [done] at sane
    obtain ⟨found, reached, rfl⟩ := sane
    exact ⟨found, reached, by rw [Pool.result, done]⟩
  refine ⟨fun l f here => (reached l f here).choose_spec.1.complete, ?_⟩
  have each : ∀ l f, fs[l]? = some f → Replays st₁.solver.timeout (k (0 + l)) (function o m layout f fun _ => false)
      (p.result (0 + l)) := by
    intro l f here
    obtain ⟨found, reached, same⟩ := reached l f here
    have replays := function_replays reached
    rw [Nat.zero_add, same]
    exact replays
  have replays := functions_replays k p.result fs 0 each
  simp only [Nat.zero_add] at replays
  obtain ⟨st', ran, -⟩ := replays st₁ rfl spends.allows
  refine ⟨st', bind_ok.2 ⟨layout, st, ?_, bind_ok.2 ⟨fs, st₁, chosen, bind_ok.2 ⟨_, st', ran, rfl⟩⟩⟩⟩
  unfold layoutOf
  rw [parsed]
  rfl

/-! ## A run for each check -/

/-- The first functions are done, with these results, and the others wait. -/
structure Pool.Upto (p : Pool) (rs : List (List Report × CheckTally)) (st : State) : Prop where
  tasks : ∀ i, p.tasks i = (rs[i]?.elim .waiting fun r => .done (.ok r))
  canceled : p.canceled = false
  error? : p.error? = none
  state : p.state = st

lemma exists_run_sites (here : job.funcs[i]? = some f) (between : p.tasks i = .between rest found)
    (live : p.canceled = false)
    (entered : outcome (enterAll job.options (settingOf job.module job.layout f) rest found) p.state = (.ok found', st')) :
    ∃ q : Pool, Relation.ReflTransGen (Step job) p q ∧ q.tasks = Function.update p.tasks i (.between [] found') ∧
      q.canceled = false ∧ q.error? = p.error? ∧ q.state = st' := by
  induction rest generalizing p found with
  | nil =>
    cases entered
    refine ⟨p, .refl, ?_, live, rfl, rfl⟩
    rw [← between, Function.update_eq_self]
  | cons site rest ih =>
    rw [enterAll_cons] at entered
    obtain ⟨found₁, st₁, first, others⟩ := bind_ok.1 entered
    have looks : Move job f p.canceled (p.tasks i) p.state (.inside site rest found) p.state [] :=
      between ▸ .look live
    have goes : ∃ asked, Move job f p.canceled (.inside site rest found) p.state (.between rest found₁) st₁ asked := by
      by_cases known : isKnown (settingOf job.module job.layout f) site found = true
      · rw [if_pos known] at first
        cases first
        exact ⟨[], .pass known⟩
      · rw [if_neg known] at first
        exact ⟨[site], .answer (Bool.eq_false_of_not_eq_true known) first⟩
    obtain ⟨asked, goes⟩ := goes
    -- The pool after the look, and after the site.
    obtain ⟨p₁, same₁⟩ : ∃ p₁, p₁ = p.moved i (.inside site rest found) p.state [] := ⟨_, rfl⟩
    have inside : p₁.tasks i = .inside site rest found := by rw [same₁]; exact Function.update_self ..
    have second : Step job p₁ (p₁.moved i (.between rest found₁) st₁ asked) := by
      refine .move here ?_
      rw [inside, same₁]
      exact goes
    obtain ⟨q, run, tasks, canceled, error, state⟩ :=
      ih (p := p₁.moved i (.between rest found₁) st₁ asked) (Function.update_self ..) (same₁ ▸ live) others
    subst same₁
    refine ⟨q, .head (.move here looks) (.head second run), ?_, canceled, error, state⟩
    rw [tasks]
    simp [Pool.moved]

lemma exists_run_finish (here : job.funcs[i]? = some f) (between : p.tasks i = .between [] found) :
    ∃ q : Pool, Relation.ReflTransGen (Step job) p q ∧
      q.tasks = Function.update p.tasks i (.done (.ok (found.map Prod.snd, tallyOf job.module f (found.map Prod.snd)))) ∧
      q.canceled = p.canceled ∧ q.error? = p.error? ∧ q.state = p.state := by
  have finishes := Step.move here (between ▸ Move.finish)
  have returned : (p.moved i (.returned (.ok (found.map Prod.snd, tallyOf job.module f (found.map Prod.snd))))
      p.state []).tasks i = .returned (.ok (found.map Prod.snd, tallyOf job.module f (found.map Prod.snd))) :=
    Function.update_self ..
  refine ⟨_, .tail (.single finishes) (.collect (List.getElem?_eq_some_iff.1 here).1 returned), ?_, rfl, rfl, rfl⟩
  simp [Pool.moved, Pool.collected]

lemma exists_run_function {rs : List (List Report × CheckTally)} {r : List Report × CheckTally}
    (here : job.funcs[rs.length]? = some f) (room : 0 < job.limit) (upto : p.Upto rs st)
    (ran : outcome (function job.options job.module job.layout f fun _ => false) st = (.ok r, st')) :
    ∃ q : Pool, Relation.ReflTransGen (Step job) p q ∧ q.Upto (rs ++ [r]) st' := by
  unfold function at ran
  rcases graph : ofFunc job.module f with e | g
  · rw [graph] at ran
    cases ran
  have setting : settingOf job.module job.layout f =
      ⟨job.module, job.layout, g, g.backEdges, [("func", .text (Text.shown f.name))]⟩ := by
    unfold settingOf
    rw [graph]
    rfl
  rw [graph] at ran
  dsimp only at ran
  obtain ⟨_, st₁, said, ran⟩ := bind_ok.1 ran
  obtain ⟨found, st₂, visited, ran⟩ := bind_ok.1 ran
  cases ran
  rw [← setting, visit_never] at visited
  have waiting : p.tasks rs.length = .waiting := by simp [upto.tasks]
  -- every other task is done or waiting, so a worker is free
  have starts : Step job p (p.started job rs.length f) := by
    refine .start here waiting (fun k less => ?_) ?_
    · rw [upto.tasks, getElem?_eq_getElem less]
      exact Task.noConfusion
    · suffices idle : p.active job = 0 by omega
      unfold Pool.active
      rw [length_eq_zero_iff, filter_eq_nil_iff]
      intro l _
      rw [upto.tasks]
      cases rs[l]? <;> simp [Task.isActive]
  have between : (p.started job rs.length f).tasks rs.length = .between (sites job.module f) [] := by
    unfold Pool.started Task.opening
    dsimp only
    rw [Function.update_self, graph]
  have greeted : (p.started job rs.length f).state = st₁ := by
    unfold Pool.started greeted
    rw [upto.state, setting]
    exact congrArg Prod.snd said
  obtain ⟨q, run, tasks, canceled, error, state⟩ :=
    exists_run_sites here between upto.canceled (greeted.symm ▸ visited)
  have last : q.tasks rs.length = .between [] found := by rw [tasks, Function.update_self]
  obtain ⟨q', run', tasks', canceled', error', state'⟩ := exists_run_finish here last
  refine ⟨q', (run.head starts).trans run', ?_, canceled'.trans canceled, ?_, state'.trans state⟩
  · intro l
    rw [tasks', tasks, Function.update_idem, Pool.started, Function.update_idem]
    by_cases same : l = rs.length
    · subst same
      rw [Function.update_self, getElem?_append_right (Nat.le_refl _), Nat.sub_self]
      rfl
    · rw [Function.update_of_ne same, upto.tasks]
      rcases Nat.lt_or_gt_of_ne same with less | more
      · rw [getElem?_append_left less]
      · rw [getElem?_eq_none (Nat.le_of_lt more), getElem?_eq_none (by simpa using more)]
  · exact error'.trans (error.trans upto.error?)

lemma exists_run_functions (job : Job) (p : Pool) (rs : List (List Report × CheckTally))
    {rs' : List (List Report × CheckTally)} (split : job.funcs.drop rs.length = fs) (room : 0 < job.limit) (upto : p.Upto rs st)
    (ran : outcome (functions job.options job.module job.layout (fun _ _ => false) fs i) st = (.ok rs', st')) :
    ∃ q : Pool, Relation.ReflTransGen (Step job) p q ∧ q.Upto (rs ++ rs') st' ∧ rs'.length = fs.length := by
  induction fs generalizing p rs rs' st i with
  | nil =>
    cases ran
    rw [append_nil]
    exact ⟨p, .refl, upto, rfl⟩
  | cons f fs ih =>
    obtain ⟨r, st₁, first, ran⟩ := bind_ok.1 ran
    obtain ⟨others, st₂, rest, ran⟩ := bind_ok.1 ran
    cases ran
    have here : job.funcs[rs.length]? = some f := by
      rw [← Nat.add_zero rs.length, ← getElem?_drop, split]
      rfl
    obtain ⟨q, run, upto'⟩ := exists_run_function here room upto first
    have split' : job.funcs.drop (rs ++ [r]).length = fs := by
      rw [length_append, ← drop_drop, split]
      rfl
    obtain ⟨q', run', upto'', length⟩ := ih q (rs ++ [r]) split' upto' rest
    refine ⟨q', run.trans run', ?_, congrArg Nat.succ length⟩
    rwa [append_cons]

/-- What checking one function after the other returns, workers can return. -/
lemma exists_concludes {reports : List Report} {tally : CheckTally} (jobs : Int)
    (ran : outcome (module o m fun _ _ => false) st = (.ok (reports, tally), st')) :
    ∃ p, Concludes o jobs m st ⟨reports, tally, none⟩ p := by
  unfold module at ran
  obtain ⟨layout, st₁, parsed, ran⟩ := bind_ok.1 ran
  obtain ⟨fs, st₂, chosen, ran⟩ := bind_ok.1 ran
  obtain ⟨rs, st₃, checked, gathered⟩ := bind_ok.1 ran
  have whole : gather rs = (reports, tally) := Except.ok.inj (congrArg Prod.fst gathered)
  unfold layoutOf at parsed
  rcases read : Layout.parse m.dataLayout with e | layout'
  · rw [read] at parsed
    cases parsed
  rw [read] at parsed
  cases parsed
  have room : 0 < limitOf jobs := by
    unfold limitOf
    split <;> omega
  obtain ⟨p, run, upto, length⟩ := exists_run_functions ⟨o, m, layout, fs, limitOf jobs⟩ { state := st₂ } [] rfl room
    ⟨fun i => rfl, rfl, rfl, rfl⟩ checked
  rw [nil_append] at upto
  have finished : ∀ i (less : i < fs.length), p.tasks i = .done (.ok (rs.get ⟨i, length ▸ less⟩)) := by
    intro i less
    rw [upto.tasks, getElem?_eq_getElem (length ▸ less)]
    rfl
  have results : (range fs.length).map p.result = rs := by
    refine ext_getElem (by simp [length]) fun i less less' => ?_
    have done := finished i (by simpa using less)
    simp [Pool.result, done]
  have concludes := Concludes.pool read chosen run fun i less => ⟨_, finished i less⟩
  rw [Pool.answer, upto.error?] at concludes
  dsimp only at concludes
  rw [results, whole] at concludes
  exact ⟨p, concludes⟩

/-! ## What a check returns -/

/-- **Workers lose and reorder no reports.** Whatever the schedule is, and whenever the check is canceled: if it
returns no error, every function that was to be checked was checked to its end, all its sentinels were asked about,
and the reports and the tally are those of checking one function after the other. If a function failed or was cut
short, there is an error; with an error there are no reports and no counts. And what checking one function after the
other returns, some schedule returns. -/
theorem concludes_exact (o : Options) (jobs : Int) (m : Module) (st : State) :
    (∀ answer p, Concludes o jobs m st answer p →
      (answer.error? = none →
        (∀ i f, (checked o m)[i]? = some f → (∃ r, p.tasks i = .done (.ok r)) ∧ Complete m f (p.asked i)) ∧
          ∃ st', outcome (module o m fun _ _ => false) st = (.ok (answer.reports, answer.tally), st')) ∧
      ((∃ i e, p.tasks i = .done (.error e)) → answer.error? ≠ none) ∧
      (answer.error? ≠ none → answer.reports = [] ∧ answer.tally = {})) ∧
    ∀ reports tally st', outcome (module o m fun _ _ => false) st = (.ok (reports, tally), st') →
      ∃ p, Concludes o jobs m st ⟨reports, tally, none⟩ p := by
  refine ⟨fun answer p ends => ?_, fun reports tally st' ran => exists_concludes jobs ran⟩
  cases ends with
  | layout bad => exact ⟨fun none_ => (nomatch none_), fun ⟨i, e, failed⟩ => (nomatch failed), fun _ => ⟨rfl, rfl⟩⟩
  | pattern parsed bad =>
    exact ⟨fun none_ => (nomatch none_), fun ⟨i, e, failed⟩ => (nomatch failed), fun _ => ⟨rfl, rfl⟩⟩
  | pool parsed chosen run finished =>
    rename_i layout fs st₁
    have sound := Sound.run run
    obtain ⟨-, rfl⟩ := (selected_exact o m.funcs.toList st).ok chosen
    unfold Pool.answer
    rcases error : p.error? with _ | e
    · refine ⟨fun _ => ?_, fun ⟨i, e, failed⟩ => absurd error (sound.kept i e failed), fun some_ => absurd rfl some_⟩
      have done : ∀ i < (checked o m).length, ∃ r, p.tasks i = .done (.ok r) := by
        intro i less
        obtain ⟨e | r, done⟩ := finished i less
        · exact absurd error (sound.kept i e done)
        · exact ⟨r, done⟩
      obtain ⟨complete, sequential⟩ := sequential_of_sound parsed chosen sound done
      exact ⟨fun i f here => ⟨done i (List.getElem?_eq_some_iff.1 here).1, complete i f here⟩, sequential⟩
    · exact ⟨fun none_ => (nomatch none_), fun _ some_ => (nomatch some_), fun _ => ⟨rfl, rfl⟩⟩

/-- Four workers on a module with one function and one sentinel can conclude with its report. The sentinel has then
been asked about, and checking one function after the other gives the same report. -/
theorem concludes_exact_guarded : ∃ answer p, Concludes {} 4 guarded { solver := {} } answer p ∧
    answer.error? = none ∧ answer.reports.length = 1 ∧ p.asked 0 = [guardedSite] ∧
      ∃ st, outcome (module {} guarded fun _ _ => false) { solver := {} } = (.ok (answer.reports, answer.tally), st) := by
  obtain ⟨reports, tally, st, ran, one⟩ := guarded_module
  obtain ⟨p, ends⟩ := (concludes_exact {} 4 guarded { solver := {} }).2 reports tally st ran
  obtain ⟨complete, sequential⟩ := ((concludes_exact {} 4 guarded { solver := {} }).1 _ p ends).1 rfl
  refine ⟨_, p, ends, rfl, one, ?_, sequential⟩
  have site : sentinelSites guarded guardedFunc = [guardedSite] := (sites_eq ..).symm.trans guarded_sites
  rw [← site]
  exact (complete 0 guardedFunc rfl).2.exact (by decide)

end Faultline.Check
