/-
# Proofs.Twin.Check — twins get the same reports

`Agree` compares two checks with one solver: both return, or neither does, unless
the solver is limited in time, which may run out for one of them only.

Twins are asked the same questions in the same order, and the answers are alike. So
the lines of the reports are the same, one by one, and so are the tallies
(`module_agree`).
-/
import Faultline.Proofs.Analysis.Ownership
import Faultline.Proofs.Query
import Faultline.Proofs.Twin.Path

namespace Faultline.Check

open IR (Module ValueId Func)
open Faultline.Flow (Graph)
open Formula (Arena Handle Links)
open List Formula Analysis

variable {R : ValueId → ValueId → Prop} {m m' : Module} {s s' : Setting} {o : Options} {τ : Int} {α α' β β' : Type}
  {fs fs' : List Func} {found' : List (Nat × Report) } {site site' : Site} {block' : ValueId} {b b' : Bench}
  {f f' : Handle} {l : Links} {e e' : Error}

/-! ## Checks side by side -/

/-- Two checks, both by a solver with the limit `τ`. -/
def Agree (τ : Int) (P : α → α' → Prop) (x : Examine α) (x' : Examine α') : Prop :=
  ∀ st st' : State, st.solver.timeout = τ → st'.solver = st.solver →
    match outcome x st, outcome x' st' with
    | (.ok r, t), (.ok r', t') => P r r' ∧ t.solver.timeout = τ ∧ t'.solver = t.solver
    | (.error _, _), (.error _, _) => True
    | _, _ => 0 < τ

namespace Agree

variable {P : α → α' → Prop} {Q : β → β' → Prop} {x : Examine α} {x' : Examine α'} {k : α → Examine β}
  {k' : α' → Examine β'}

lemma bind (first : Agree τ P x x') (next : ∀ r r', P r r' → Agree τ Q (k r) (k' r')) :
    Agree τ Q (x >>= k) (x' >>= k') := by
  intro st st' limit same
  have both := first st st' limit same
  rw [outcome_bind, outcome_bind]
  revert both
  rcases outcome x st with ⟨e | r, t⟩ <;> rcases outcome x' st' with ⟨e' | r', t'⟩ <;> intro both
  · trivial
  · -- the second check goes on alone
    dsimp only
    rcases outcome (k' r') t' with ⟨_ | _, _⟩
    · trivial
    · exact both
  · dsimp only
    rcases outcome (k r) t with ⟨_ | _, _⟩
    · trivial
    · exact both
  · exact next r r' both.1 t t' both.2.1 both.2.2

lemma pure {r : α} {r' : α'} (holds : P r r') : Agree τ P (Pure.pure r : Examine α) (Pure.pure r' : Examine α') :=
  fun _ _ limit same => ⟨holds, limit, same⟩

lemma throw : Agree τ P (MonadExcept.throw e : Examine α) (MonadExcept.throw e' : Examine α') :=
  fun _ _ _ _ => trivial

/-- Where time is limited one check may fail alone. -/
lemma throw_pure {r' : α'} (limited : 0 < τ) :
    Agree τ P (MonadExcept.throw e : Examine α) (Pure.pure r' : Examine α') :=
  fun _ _ _ _ => limited

lemma pure_throw {r : α} (limited : 0 < τ) :
    Agree τ P (Pure.pure r : Examine α) (MonadExcept.throw e' : Examine α') :=
  fun _ _ _ _ => limited

end Agree

lemma say_agree (level level' : LogLevel) (message message' : String) (fields fields' : LogFields) :
    Agree τ (fun _ _ => True) (say level message fields) (say level' message' fields') :=
  fun _ _ limit same => ⟨trivial, limit, same⟩

lemma analyze_agree {x : Analyze α} {x' : Analyze α'} {Q : α → Bench → α' → Bench → Prop}
    (both : Abreast b b' x x' Q) :
    Agree τ (fun r r' => ∃ c c', Q r.1 c r'.1 c' ∧ r.2 = { c with log := #[] } ∧ r'.2 = { c' with log := #[] })
      (analyze x b) (analyze x' b') := by
  intro st st' limit same
  unfold analyze
  rw [show x.run b = outcome x b from rfl, show x'.run b' = outcome x' b' from rfl]
  obtain ⟨r, c, r', c', run, run', holds⟩ | ⟨e, c, e', c', run, run'⟩ := both.cases
  · rw [run, run']
    exact ⟨⟨c, c', holds, rfl, rfl⟩, limit, same⟩
  · rw [run, run']
    trivial

/-! ## One sentinel -/

lemma solve_agree {a a' : Arena} (tied : a.Tied l a') (pair : l.Pair f f') :
    Agree τ (fun r r' => (∀ v v', r = .ok v → r' = .ok v' → v.Alike v') ∧ (τ ≤ 0 → r.isOk = r'.isOk)) (solve a f) (solve a' f') := by
  intro st st' limit same
  have unlimited : st.solver.limit? = none ↔ τ ≤ 0 := by
    unfold Solver.limit?
    rw [limit]
    split <;> simp_all
  obtain ⟨answers, after⟩ := query_alike st.solver tied (.inl pair)
  have timeout := timeout_query st.solver a f
  unfold solve
  rw [outcome_bind, outcome_bind, outcome_get, outcome_get]
  dsimp only
  rw [same]
  rcases run : query (some st.solver) a f with ⟨e | r, t⟩ <;> rcases run' : query (some st.solver) a' f' with ⟨e' | r', t'⟩ <;>
    rw [run, run'] at answers after <;> rw [run] at timeout
  · trivial
  · exact answers.elim
  · exact answers.elim
  · obtain rfl : t' = t := after
    refine ⟨⟨answers.alike, fun none => answers.both (unlimited.2 none)⟩, ?_, rfl⟩
    rcases t' with _ | t
    · exact limit
    · exact (timeout t rfl).trans limit

lemma dump_agree (b b' : Bench) (tied : b.arena.Tied l b'.arena) (pair : l.Pair f f') :
    Agree τ (fun _ _ => True) (dump o s f b) (dump o s' f' b') := by
  have script : Abreast b b' (build (script f)) (build (script f')) fun _ _ _ _ => True := by
    have arenas : Abreast b.arena b'.arena (script f) (script f') fun _ _ _ _ => True := by
      unfold script
      exact Abreast.bind (held_abreast tied (.inl pair)) fun _ _ _ _ _ => Abreast.get_bind (Abreast.pure trivial)
    unfold Abreast at arenas ⊢
    rw [outcome_build, outcome_build]
    revert arenas
    rcases outcome (script f) b.arena with ⟨e | r, a⟩ <;>
      rcases outcome (script f') b'.arena with ⟨e' | r', a'⟩ <;> exact id
  unfold dump
  split
  · exact (analyze_agree script).bind fun r r' _ => say_agree _ _ _ _ _ _
  · exact .pure trivial

lemma giveBack_agree {held held' : List Handle} (balanced : Analysis.Balanced s False b ↑held)
    (balanced' : Analysis.Balanced s' False b' ↑held') :
    Agree τ (fun _ _ => True) (giveBack s held { b with log := #[] }) (giveBack s' held' { b' with log := #[] }) := by
  have settled := Abreast.of_ends (settle_leaves (b := { b with log := #[] }) balanced.order)
    (settle_leaves (b := { b' with log := #[] }) balanced'.order)
  unfold giveBack
  refine (analyze_agree settled).bind fun r r' h => ?_
  obtain ⟨c, c', ⟨zero, zero'⟩, -⟩ := h
  dsimp only
  rw [zero, zero', if_neg fun some => some rfl, if_neg fun some => some rfl]
  exact .pure trivial

lemma side_start (twins : s.Twins R s') : Side R s s' {} s.start s'.start := by
  have nothing (t : Setting) (v : ValueId) : t.start.formula? v = none := rfl
  refine ⟨Arena.tied_empty, (ordered_start s).toSound, (ordered_start s').toSound,
    fun v v' _ => .inl ⟨rfl, rfl⟩, fun v _ _ _ h known => ?_, fun v _ _ _ h known => ?_,
    _, _, rfl, rfl, by simp [twins.graph.size_eq], fun i => .inl ?_⟩
  · rw [nothing] at known
    cases known
  · rw [nothing] at known
    cases known
  · constructor <;> rw [Array.getD_eq_getD_getElem?, Array.getElem?_replicate] <;> split <;> rfl

lemma ask_agree (twins : s.Twins R s') {block call call' : ValueId} (blocks : R block block') (calls : R call call')
    (inst inst' : String) :
    Agree τ (fun r r' => r.1.Alike r'.1) (ask o s block call inst) (ask o s' block' call' inst') := by
  obtain ⟨fn, built⟩ := twins.built
  obtain ⟨fn', built'⟩ := twins.built'
  have asked := (question_both twins blocks calls {} _ _ (.refl _) (side_start twins)).and_ends
    (question_pays built block call) (question_pays built' block' call')
  unfold ask
  refine (analyze_agree asked).bind fun r r' h => ?_
  obtain ⟨⟨bug, reach, both⟩, b⟩ := r
  obtain ⟨⟨bug', reach', both'⟩, b'⟩ := r'
  obtain ⟨c, c', ⟨⟨l, -, side, -, -, pair⟩, balanced, balanced'⟩, rfl, rfl⟩ := h
  refine (dump_agree { c with log := #[] } { c' with log := #[] } side.tied pair).bind fun _ _ _ => ?_
  refine (solve_agree side.tied pair).bind fun answer answer' h => ?_
  obtain ⟨alike, there⟩ := h
  refine (giveBack_agree balanced balanced').bind fun _ _ _ => ?_
  rcases answer with e | v <;> rcases answer' with e' | v'
  · exact .throw
  · exact .throw_pure (Int.not_le.1 fun unlimited => Bool.noConfusion (there unlimited))
  · exact .pure_throw (Int.not_le.1 fun unlimited => Bool.noConfusion (there unlimited))
  · exact .pure (alike v v' rfl rfl)

/-! ## All sentinels -/

structure Site.Twin (R : ValueId → ValueId → Prop) (site site' : Site) : Prop where
  block : R site.block site'.block
  call : R site.call site'.call
  next : Forall₂ R site.next.toList site'.next.toList

lemma sitesFrom_twin {block : ValueId} (blocks : R block block') {term term' : Option ValueId}
    (terms : Forall₂ R term.toList term'.toList) {vs vs' : List ValueId} (listed : Forall₂ R vs vs') :
    Forall₂ (Site.Twin R) (sitesFrom block term vs) (sitesFrom block' term' vs') := by
  induction listed with
  | nil => exact .nil
  | @cons v v' vs vs' here rest ih =>
    refine .cons ⟨blocks, here, ?_⟩ ih
    cases rest with
    | nil => exact terms
    | cons next _ => exact .cons next .nil

lemma forall₂_flatMap {γ γ' : Type} {P : γ → γ' → Prop} {Q : α → α' → Prop} {f : γ → List α} {f' : γ' → List α'}
    (each : ∀ x x', P x x' → Forall₂ Q (f x) (f' x')) {xs : List γ} {xs' : List γ'} (listed : Forall₂ P xs xs') :
    Forall₂ Q (xs.flatMap f) (xs'.flatMap f') := by
  induction listed with
  | nil => exact .nil
  | cons here _ ih =>
    rw [flatMap_cons, flatMap_cons]
    exact rel_append (each _ _ here) ih

lemma sites_twin (twins : m.Twins R m') {f f' : Func} (same : f.Twin R f') :
    Forall₂ (Site.Twin R) (sites m f) (sites m' f') := by
  refine forall₂_filter ((forall₂_flatMap (fun b b' block => ?_) same.blocks).imp fun site site' twin =>
    ⟨twin, twins.isCall_eq twin.call⟩)
  exact sitesFrom_twin block.id block.term block.insts

abbrev SameLines : List (Nat × Report) → List (Nat × Report) → Prop :=
  Forall₂ fun e e' => e'.1 = e.1 ∧ e'.2.text = e.2.text

lemma insertReport_twin (id : Nat) {r r' : Report} (text : r'.text = r.text) {found : List (Nat × Report)}
    (same : SameLines found found') : SameLines (insertReport id r found) (insertReport id r' found') := by
  induction same with
  | nil => exact .cons ⟨rfl, text⟩ .nil
  | @cons e e' _ _ here rest ih =>
    obtain ⟨n, q⟩ := e
    obtain ⟨n', q'⟩ := e'
    obtain ⟨rfl, lines⟩ := here
    unfold insertReport
    split
    · exact .cons ⟨rfl, text⟩ (.cons ⟨rfl, lines⟩ rest)
    · exact .cons ⟨rfl, lines⟩ ih

lemma any_twin (id : Nat) {found : List (Nat × Report)} (same : SameLines found found') :
    (found'.any fun r => r.1 = id) = found.any fun r => r.1 = id := by
  induction same with
  | nil => rfl
  | cons here _ ih => rw [any_cons, any_cons, ih, here.1]

lemma Site.Twin.line (same : Site.Twin R site site') (twins : m.Twins R m') :
    site'.next.bind m'.lineText = site.next.bind m.lineText := by
  have next := same.next
  revert next
  rcases site.next with _ | v <;> rcases site'.next with _ | v' <;> intro next
  · rw [Option.bind_none, Option.bind_none]
  · cases next
  · cases next
  · rw [Option.bind_some, Option.bind_some]
    exact twins.line (forall₂_cons.1 next).1

lemma reportOn_text (twins : s.Twins R s') (same : site.Twin R site') (inst : String)
    (model model' : Model) (q q' : Question) :
    (reportOn s' site' inst model' q').text = (reportOn s site inst model q).text := by
  unfold Report.text Report.location reportOn
  dsimp only
  rw [twins.module.sourceFilename, twins.graph.func.name, twins.module.blockLabel_eq same.block]

lemma text_agree {t t' : Option String} (same : t' = t) : Agree τ Eq (text t) (text t') := by
  subst same
  unfold text
  split
  · exact .pure rfl
  · exact .throw

lemma dumpModel_agree (q q' : Question) (model model' : Model) :
    Agree τ (fun _ _ => True) (dumpModel o s q model) (dumpModel o s' q' model') := by
  unfold dumpModel
  split
  · exact say_agree _ _ _ _ _ _
  · exact .pure trivial

lemma visit_agree (twins : s.Twins R s') (interrupted : Nat → Bool) {listed listed' : List Site}
    (same : Forall₂ (Site.Twin R) listed listed') (k : Nat) {found : List (Nat × Report)}
    (lines : SameLines found found') :
    Agree τ SameLines (visit o s interrupted listed k found) (visit o s' interrupted listed' k found') := by
  induction same generalizing k found found' with
  | nil => exact .pure lines
  | @cons site site' _ _ here _ ih =>
    unfold visit
    split
    · exact Agree.throw.bind fun _ _ (h : False) => h.elim
    · dsimp only
      rw [twins.graph.ids _ _ here.call, any_twin _ lines]
      split
      · exact ih (k + 1) lines
      · refine (text_agree (here.line twins.module)).bind fun inst _ same => ?_
        subst same
        refine (text_agree (twins.module.ident here.block)).bind fun block _ same => ?_
        subst same
        refine (ask_agree (twins.withFields _ _) here.block here.call inst inst).bind fun r r' alike => ?_
        obtain ⟨v, q⟩ := r
        obtain ⟨v', q'⟩ := r'
        rcases v with _ | model <;> rcases v' with _ | model'
        · exact ih (k + 1) lines
        · obtain ⟨_, none⟩ := alike.2 ⟨model', rfl⟩
          cases none
        · obtain ⟨_, none⟩ := alike.1 ⟨model, rfl⟩
          cases none
        · exact (dumpModel_agree q q' model model').bind fun _ _ _ =>
            ih (k + 1) (insertReport_twin _ (reportOn_text twins here inst model model' q q') lines)

/-! ## Functions and modules -/

abbrev SameReports (r r' : List Report × CheckTally) : Prop :=
  r'.1.map Report.text = r.1.map Report.text ∧ r'.2 = r.2

lemma SameLines.map_text {found : List (Nat × Report)} (same : SameLines found found') :
    (found'.map Prod.snd).map Report.text = (found.map Prod.snd).map Report.text := by
  induction same with
  | nil => rfl
  | cons here _ ih =>
    simp only [map_cons, here.2]
    exact congrArg _ ih

lemma function_agree (twins : m.Twins R m') {f f' : Func} (same : f.Twin R f') (layout : Layout)
    (interrupted : Nat → Bool) :
    Agree τ SameReports (function o m layout f interrupted) (function o m' layout f' interrupted) := by
  have graphs := Graph.ofFunc_alongside twins same
  unfold function
  rcases built : Graph.ofFunc m f with e | g <;> rcases built' : Graph.ofFunc m' f' with e' | g' <;>
    rw [built, built'] at graphs
  · exact .throw
  · exact graphs.elim
  · exact graphs.elim
  · have settings (fields fields' : LogFields) :
        Setting.Twins R ⟨m, layout, g, g.backEdges, fields⟩ ⟨m', layout, g', g'.backEdges, fields'⟩ :=
      ⟨twins, rfl, graphs, graphs.backEdges_eq, ⟨f, built⟩, ⟨f', built'⟩⟩
    have calls := sites_twin twins same
    refine (say_agree _ _ _ _ _ _).bind fun _ _ _ => ?_
    refine (visit_agree (settings _ _) interrupted calls 0 .nil).bind fun found found' lines => ?_
    refine .pure ⟨lines.map_text, ?_⟩
    rw [length_map, length_map, lines.length_eq, calls.length_eq]

lemma selected_agree (same : Forall₂ (IR.Func.Twin R) fs fs') :
    Agree τ (Forall₂ (IR.Func.Twin R)) (selected o fs) (selected o fs') := by
  induction same with
  | nil => exact .pure .nil
  | @cons f f' _ _ here _ ih =>
    have empty : f'.blocks.isEmpty = f.blocks.isEmpty := by
      have length := here.blocks.length_eq
      rw [Array.length_toList, Array.length_toList] at length
      rw [Array.isEmpty, Array.isEmpty, length]
    unfold selected
    rw [empty, here.name]
    split
    · exact ih
    · split
      · exact .throw
      · exact (say_agree _ _ _ _ _ _).bind fun _ _ _ => ih
      · exact ih.bind fun _ _ rest => .pure (.cons here rest)

lemma functions_agree (twins : m.Twins R m') (layout : Layout) (interrupted : Nat → Nat → Bool)
    (same : Forall₂ (IR.Func.Twin R) fs fs') (i : Nat) :
    Agree τ (Forall₂ SameReports) (functions o m layout interrupted fs i)
      (functions o m' layout interrupted fs' i) := by
  induction same generalizing i with
  | nil => exact .pure .nil
  | cons here _ ih =>
    exact (function_agree twins here layout (interrupted i)).bind fun _ _ first =>
      (ih (i + 1)).bind fun _ _ rest => .pure (.cons first rest)

lemma gather_same {rs rs' : List (List Report × CheckTally)} (same : Forall₂ SameReports rs rs') :
    SameReports (gather rs) (gather rs') := by
  have tallies (t : CheckTally) :
      rs'.foldl (fun t r => t.add r.2) t = rs.foldl (fun t r => t.add r.2) t := by
    induction same generalizing t with
    | nil => rfl
    | cons here _ ih => rw [foldl_cons, foldl_cons, here.2, ih]
  have lines : (rs'.flatMap Prod.fst).map Report.text = (rs.flatMap Prod.fst).map Report.text := by
    clear tallies
    induction same with
    | nil => rfl
    | cons here _ ih => rw [flatMap_cons, flatMap_cons, map_append, map_append, here.1, ih]
  exact ⟨lines, tallies {}⟩

/-- **Twins get the same reports**, line by line, and the same tally. -/
theorem module_agree (twins : m.Twins R m') (interrupted : Nat → Nat → Bool) :
    Agree τ SameReports (module o m interrupted) (module o m' interrupted) := by
  have layouts : Agree τ Eq (layoutOf m) (layoutOf m') := by
    unfold layoutOf
    rw [twins.dataLayout]
    split
    · exact .pure rfl
    · exact .throw
  unfold module
  refine layouts.bind fun layout _ same => ?_
  subst same
  refine (selected_agree twins.funcs).bind fun fs fs' same => ?_
  exact (functions_agree twins layout interrupted same 0).bind fun _ _ results => .pure (gather_same results)

end Faultline.Check
