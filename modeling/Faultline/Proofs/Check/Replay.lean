/-
# Proofs.Check.Replay — a query that was answered is answered again

What the check of a site finds does not depend on when it is done. The log only
grows, and of the solver only the limit matters and whether its quota allows for one
more query: if a site was entered in some state, it is entered with the same result
in every other state with that limit and with quota left (`enter_replays`).
-/
import Faultline.Check.Module
import Faultline.Proofs.Check.Visit

namespace Faultline

/-! ## Queries left -/

namespace Solver

def Allows (s : Solver) (k : Nat) : Prop :=
  ∀ n e, s.quota = some (n, e) → k ≤ n

structure Spends (s : Solver) (k : Nat) (s' : Solver) : Prop where
  allows : s.Allows k
  timeout : s'.timeout = s.timeout
  quota : s'.quota = s.quota.map fun q => (q.1 - k, q.2)

variable {s s' s'' : Solver} {j k : Nat}

lemma Allows.mono (allows : s.Allows k) (le : j ≤ k) : s.Allows j :=
  fun n e same => le.trans (allows n e same)

lemma Spends.refl (s : Solver) : s.Spends 0 s := by
  refine ⟨fun _ _ _ => Nat.zero_le _, rfl, ?_⟩
  cases s.quota <;> rfl

lemma Spends.allows_rest (spends : s.Spends j s') (allows : s.Allows (j + k)) : s'.Allows k := by
  intro n e same
  rw [spends.quota, Option.map_eq_some_iff] at same
  obtain ⟨⟨n', e'⟩, quota, pair⟩ := same
  obtain ⟨rfl, rfl⟩ := Prod.mk.inj pair
  have enough := allows n' e' quota
  show k ≤ n' - j
  omega

lemma Spends.trans (first : s.Spends j s') (second : s'.Spends k s'') : s.Spends (j + k) s'' := by
  refine ⟨fun n e same => ?_, second.timeout.trans first.timeout, ?_⟩
  · have left : s'.quota = some (n - j, e) := by rw [first.quota, same]; rfl
    have enough := first.allows n e same
    have more := second.allows _ e left
    omega
  · rw [second.quota, first.quota, Option.map_map]
    congr 1
    funext q
    show (q.1 - j - k, q.2) = _
    rw [Nat.sub_sub]

end Solver

namespace Check

open Formula (Handle)

variable {α β : Type} {o : Options} {s : Setting} {site : Site} {st st' : State}

/-! ## One site -/

/-- Whether a call that stands at the site has been reported. -/
def isKnown (s : Setting) (site : Site) (found : List (Nat × Report)) : Bool :=
  found.any fun r => r.1 = (s.graph.id? site.call).getD 0

/-- Asks about a site, and enters it if its call is feasible. -/
def enter (o : Options) (s : Setting) (site : Site) (found : List (Nat × Report)) :
    Examine (List (Nat × Report)) := do
  let inst ← text (site.next.bind s.module.lineText)
  let block ← text (s.module.identText site.block)
  let s' := { s with fields := (s.fields.put "block" (.text block)).put "inst" (.text inst) }
  match ← ask o s' site.block site.call inst with
  | (.unsat, _) => pure found
  | (.sat model, q) => do
    dumpModel o s' q model
    pure (insertReport ((s.graph.id? site.call).getD 0) (reportOn s site inst model q) found)

/-- A visit looks whether it is interrupted, does one site, and then the others. -/
lemma visit_cons (o : Options) (s : Setting) (interrupted : Nat → Bool) (site : Site) (rest : List Site) (k : Nat)
    (found : List (Nat × Report)) :
    visit o s interrupted (site :: rest) k found =
      if interrupted k then throw .interrupted
      else if isKnown s site found then visit o s interrupted rest (k + 1) found
      else enter o s site found >>= visit o s interrupted rest (k + 1) := by
  rw [visit]
  by_cases stop : interrupted k = true
  · rw [if_pos stop, if_pos stop]
    rfl
  · rw [if_neg stop, if_neg stop]
    show (if isKnown s site found = true then _ else _) = _
    congr 1
    simp only [enter, bind_assoc]
    refine bind_congr fun inst => bind_congr fun block => bind_congr fun answer => ?_
    rcases answer with ⟨_ | model, q⟩
    · simp
    · simp

/-- The sites of a list, one after the other, without interruption. -/
def enterAll (o : Options) (s : Setting) (sites : List Site) (found : List (Nat × Report)) :
    Examine (List (Nat × Report)) :=
  sites.foldlM (fun found site => if isKnown s site found then pure found else enter o s site found) found

lemma enterAll_cons (o : Options) (s : Setting) (site : Site) (rest : List Site) (found : List (Nat × Report)) :
    enterAll o s (site :: rest) found =
      (if isKnown s site found then pure found else enter o s site found) >>= enterAll o s rest :=
  List.foldlM_cons

lemma visit_never (o : Options) (s : Setting) (sites : List Site) (k : Nat) (found : List (Nat × Report)) :
    visit o s (fun _ => false) sites k found = enterAll o s sites found := by
  induction sites generalizing k found with
  | nil => rfl
  | cons site rest ih =>
    rw [visit_cons, if_neg (by decide), enterAll_cons]
    split
    · rw [ih, pure_bind]
    · exact bind_congr fun found' => ih (k + 1) found'

lemma enterAll_append (o : Options) (s : Setting) (done rest : List Site) (found : List (Nat × Report)) :
    enterAll o s (done ++ rest) found = enterAll o s done found >>= enterAll o s rest :=
  List.foldlM_append

/-! ## Replaying -/

/-- In every state with this limit and enough queries left, `x` returns `r`. -/
def Replays (limit : Int) (k : Nat) (x : Examine α) (r : α) : Prop :=
  ∀ st : State, st.solver.timeout = limit → st.solver.Allows k →
    ∃ st', outcome x st = (.ok r, st') ∧ st.solver.Spends k st'.solver

namespace Replays

variable {limit : Int} {j k : Nat} {x : Examine α} {f : α → Examine β} {q : α} {r : β}

lemma pure (r : α) : Replays limit 0 (Pure.pure r) r :=
  fun st _ _ => ⟨st, rfl, Solver.Spends.refl _⟩

lemma bind (first : Replays limit j x q) (second : Replays limit k (f q) r) : Replays limit (j + k) (x >>= f) r := by
  intro st same allows
  obtain ⟨st₁, ran₁, spends₁⟩ := first st same (allows.mono (Nat.le_add_right j k))
  obtain ⟨st₂, ran₂, spends₂⟩ := second st₁ (spends₁.timeout.trans same) (spends₁.allows_rest allows)
  exact ⟨st₂, bind_ok.2 ⟨q, st₁, ran₁, ran₂⟩, spends₁.trans spends₂⟩

lemma then_ (first : Replays limit 0 x q) (second : Replays limit k (f q) r) : Replays limit k (x >>= f) r :=
  Nat.zero_add k ▸ first.bind second

lemma last (first : Replays limit k x q) (second : Replays limit 0 (f q) r) : Replays limit k (x >>= f) r :=
  first.bind second

end Replays

/-! ## Computations that leave the solver alone -/

/-- Whatever the state is, `x` ends in the same way, and the solver stays as it is. -/
def Free (x : Examine α) : Prop :=
  ∃ result, ∀ st, ∃ st', outcome x st = (result, st') ∧ st'.solver = st.solver

namespace Free

variable {x : Examine α} {f : α → Examine β} {r : α}

lemma pure (r : α) : Free (Pure.pure r) :=
  ⟨.ok r, fun st => ⟨st, rfl, rfl⟩⟩

lemma throw (e : Error) : Free (MonadExcept.throw e : Examine α) :=
  ⟨.error e, fun st => ⟨st, rfl, rfl⟩⟩

lemma bind (first : Free x) (next : ∀ r, Free (f r)) : Free (x >>= f) := by
  obtain ⟨result, ends⟩ := first
  cases result with
  | error e =>
    refine ⟨.error e, fun st => ?_⟩
    obtain ⟨st₁, ran, same⟩ := ends st
    refine ⟨st₁, ?_, same⟩
    rw [outcome_bind, ran]
  | ok r =>
    obtain ⟨result', ends'⟩ := next r
    refine ⟨result', fun st => ?_⟩
    obtain ⟨st₁, ran, same⟩ := ends st
    obtain ⟨st₂, ran', same'⟩ := ends' st₁
    refine ⟨st₂, ?_, same'.trans same⟩
    rw [outcome_bind, ran]
    exact ran'

lemma say (level : LogLevel) (message : String) (fields : LogFields) : Free (say level message fields) :=
  ⟨.ok (), fun _ => ⟨_, rfl, rfl⟩⟩

lemma text (t : Option String) : Free (text t) := by
  cases t with
  | none => exact throw _
  | some t => exact pure t

lemma analyze (y : Analyze α) (b : Bench) : Free (analyze y b) := by
  unfold Check.analyze
  rcases y.run b with ⟨_ | r, b'⟩
  · exact bind ⟨.ok (), fun _ => ⟨_, rfl, rfl⟩⟩ fun _ => throw _
  · exact bind ⟨.ok (), fun _ => ⟨_, rfl, rfl⟩⟩ fun _ => pure _

lemma dump (o : Options) (s : Setting) (h : Handle) (b : Bench) : Free (dump o s h b) := by
  unfold Check.dump
  split
  · exact bind (analyze _ b) fun _ => say _ _ _
  · exact pure ()

lemma giveBack (s : Setting) (held : List Handle) (b : Bench) : Free (giveBack s held b) := by
  refine bind (analyze _ b) fun _ => ?_
  dsimp only
  split
  · exact say _ _ _
  · exact pure ()

lemma dumpModel (o : Options) (s : Setting) (q : Question) (model : Model) : Free (dumpModel o s q model) := by
  unfold Check.dumpModel
  split
  · exact say _ _ _
  · exact pure ()

lemma replays (free : Free x) (ran : outcome x st = (.ok r, st')) (limit : Int) :
    st'.solver = st.solver ∧ Replays limit 0 x r := by
  obtain ⟨result, ends⟩ := free
  obtain ⟨st₁, ran₁, same⟩ := ends st
  cases ran₁.symm.trans ran
  refine ⟨same, fun st₂ _ _ => ?_⟩
  obtain ⟨st₃, ran₃, same₃⟩ := ends st₂
  exact ⟨st₃, ran₃, same₃ ▸ Solver.Spends.refl _⟩

end Free

/-! ## Queries -/

lemma solve_allowed {solver : Solver} {a : Formula.Arena} {h : Handle} {dr : Circuit.Drawing} (allows : solver.Allows 1)
    (drawing : Circuit.blast a h = some dr) :
    ∃ solver', solver.solve a h = (.ok (Solver.decideDrawing solver.limit? dr), solver') ∧ solver.Spends 1 solver' := by
  unfold Solver.solve
  rw [drawing]
  split
  · rename_i e quota
    exact absurd (allows 0 e quota) (by omega)
  · exact ⟨_, rfl, allows, rfl, rfl⟩

lemma query_replays {solver : Solver} {solver' : Option Solver} {a : Formula.Arena} {h : Handle} {verdict : Verdict}
    (answered : query (some solver) a h = (.ok (.ok verdict), solver')) :
    solver.Spends 1 (solver'.getD solver) ∧ ∀ other : Solver, other.timeout = solver.timeout → other.Allows 1 →
      ∃ other', query (some other) a h = (.ok (.ok verdict), some other') ∧ other.Spends 1 other' := by
  unfold query at answered ⊢
  rcases granted : askable h a with ⟨e | _, b⟩
  · rw [granted] at answered
    cases answered
  · rw [granted] at answered
    rcases worked : solver.solve a h with ⟨answer, solver₁⟩
    simp only [worked] at answered
    cases answered
    obtain ⟨dr, drawing, decided, after⟩ := Solver.solve_answered worked
    have allows : solver.Allows 1 := fun n e same => (after.quota n e same).1
    obtain ⟨solver₂, again, spends⟩ := solve_allowed allows drawing
    obtain rfl : solver₂ = solver₁ := congrArg Prod.snd (again.symm.trans worked)
    refine ⟨spends, fun other limit left => ?_⟩
    obtain ⟨other', ran, spent⟩ := solve_allowed left drawing
    rw [show other.limit? = solver.limit? by unfold Solver.limit?; rw [limit], decided] at ran
    refine ⟨other', ?_, spent⟩
    simp only [ran]

lemma solve_replays {a : Formula.Arena} {h : Handle} {verdict : Verdict}
    (ran : outcome (solve a h) st = (.ok (.ok verdict), st')) :
    st.solver.Spends 1 st'.solver ∧ Replays st.solver.timeout 1 (solve a h) (.ok verdict) := by
  have unfolded : ∀ st : State, outcome (solve a h) st = match query (some st.solver) a h with
      | (.error e, solver) => (.error (.refused e), { st with solver := solver.getD st.solver })
      | (.ok answer, solver) => (.ok answer, { st with solver := solver.getD st.solver }) := by
    intro st
    unfold solve
    rw [outcome_bind, outcome_get]
    dsimp only
    rcases query (some st.solver) a h with ⟨_ | _, _⟩
    · rfl
    · rfl
  rw [unfolded] at ran
  rcases asked : query (some st.solver) a h with ⟨e | answer, solver⟩
  · rw [asked] at ran
    cases ran
  · rw [asked] at ran
    cases ran
    obtain ⟨spends, again⟩ := query_replays asked
    refine ⟨spends, fun other limit left => ?_⟩
    obtain ⟨solver', ran, spent⟩ := again other.solver limit left
    refine ⟨{ other with solver := solver' }, ?_, spent⟩
    rw [unfolded, ran]
    rfl

lemma ask_replays {block call : IR.ValueId} {inst : String} {r : Verdict × Question}
    (ran : outcome (ask o s block call inst) st = (.ok r, st')) :
    st.solver.Spends 1 st'.solver ∧ Replays st.solver.timeout 1 (ask o s block call inst) r := by
  unfold ask at ran ⊢
  obtain ⟨⟨⟨bug, reach, both⟩, b⟩, st₁, analyzed, ran⟩ := bind_ok.1 ran
  obtain ⟨_, st₂, dumped, ran⟩ := bind_ok.1 ran
  obtain ⟨answer, st₃, solved, ran⟩ := bind_ok.1 ran
  obtain ⟨_, st₄, given, ran⟩ := bind_ok.1 ran
  obtain ⟨same₁, first⟩ := (Free.analyze _ _).replays analyzed st.solver.timeout
  obtain ⟨same₂, second⟩ := (Free.dump o s both b).replays dumped st.solver.timeout
  obtain ⟨same₄, fourth⟩ := (Free.giveBack s [bug, reach, both] b).replays given st.solver.timeout
  cases answer with
  | error e => cases ran
  | ok verdict =>
    cases ran
    obtain ⟨spends, third⟩ := solve_replays solved
    rw [same₂, same₁] at spends third
    refine ⟨same₄ ▸ spends, ?_⟩
    exact first.then_ (second.then_ (third.last (fourth.last (.pure _))))

lemma mem_insertReport {id : Nat} {r : Report} {found : List (Nat × Report)} {e : Nat × Report}
    (mem : e ∈ insertReport id r found) : e ∈ found ∨ e.1 = id := by
  induction found with
  | nil =>
    obtain rfl := List.mem_singleton.1 mem
    exact .inr rfl
  | cons entry rest ih =>
    unfold insertReport at mem
    split at mem
    · rcases List.mem_cons.1 mem with rfl | old
      · exact .inr rfl
      · exact .inl old
    · rcases List.mem_cons.1 mem with rfl | later
      · exact .inl List.mem_cons_self
      · exact (ih later).imp_left (List.mem_cons_of_mem _)

lemma enter_entries {found found' : List (Nat × Report)} (ran : outcome (enter o s site found) st = (.ok found', st')) :
    ∀ e ∈ found', e ∈ found ∨ e.1 = s.graph.number site.call := by
  unfold enter at ran
  obtain ⟨inst, st₁, -, ran⟩ := bind_ok.1 ran
  obtain ⟨block, st₂, -, ran⟩ := bind_ok.1 ran
  obtain ⟨⟨verdict, q⟩, st₃, -, ran⟩ := bind_ok.1 ran
  intro e mem
  cases verdict with
  | unsat =>
    cases ran
    exact .inl mem
  | sat model =>
    obtain ⟨_, st₄, -, ran⟩ := bind_ok.1 ran
    cases ran
    exact mem_insertReport mem

/-- What is found at a site is found there anywhere. -/
lemma enter_replays {found found' : List (Nat × Report)} (ran : outcome (enter o s site found) st = (.ok found', st')) :
    st.solver.Spends 1 st'.solver ∧ Replays st.solver.timeout 1 (enter o s site found) found' := by
  unfold enter at ran ⊢
  obtain ⟨inst, st₁, line, ran⟩ := bind_ok.1 ran
  obtain ⟨block, st₂, label, ran⟩ := bind_ok.1 ran
  obtain ⟨⟨verdict, q⟩, st₃, asked, ran⟩ := bind_ok.1 ran
  obtain ⟨same₁, first⟩ := (Free.text _).replays line st.solver.timeout
  obtain ⟨same₂, second⟩ := (Free.text _).replays label st.solver.timeout
  obtain ⟨spends, third⟩ := ask_replays asked
  rw [same₂, same₁] at spends third
  cases verdict with
  | unsat =>
    cases ran
    exact ⟨spends, first.then_ (second.then_ (third.last (.pure _)))⟩
  | sat model =>
    obtain ⟨_, st₄, dumped, ran⟩ := bind_ok.1 ran
    cases ran
    obtain ⟨same₄, fourth⟩ := (Free.dumpModel o _ q model).replays dumped st.solver.timeout
    exact ⟨same₄ ▸ spends, first.then_ (second.then_ (third.last (fourth.last (.pure _))))⟩

end Check

end Faultline
