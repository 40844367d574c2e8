/-
# Proofs.Instrument.Insertion — instrumentation only inserts, and where it should

`Layout` says of all functions what the weaving of its blocks says of one, together
with the two other things that happen to a module: values are added and unnamed
locals numbered anew (`Module.Alike`), and functions without a body are declared.

A run that is refused leaves functions that are done, at most one that is done in
part, and functions that are untouched. A run that is not (`Fit` says for which
functions it is not) has given every function its guards, and its counters are the
numbers of instructions in their roles.
-/
import Faultline.Proofs.Instrument.Weaving

namespace Faultline.IR

/-! ## Numbering -/

/-- An unnamed local counts as having no number. -/
def Unnumbered (defs : Array (Def ValueId)) (v : ValueId) : Prop :=
  ∀ k, defs[v]?.bind Def.local? = some (.number k) → k = 0

variable {defs : Array (Def ValueId)} {v w : ValueId} {vs : List ValueId}

lemma Def.number_setName {d : Def ValueId} {k l : Int}
    (unnamed : (d.setName (.number l)).local? = some (.number k)) : k = l := by
  cases d with
  | inst n t i trail => cases t <;> simp_all [Def.local?, Def.setName]
  | term n t i trail => cases t <;> simp_all [Def.local?, Def.setName]
  | _ => simp_all [Def.local?, Def.setName]

lemma setNumber_unnumbered (either : v = w ∨ Unnumbered defs w) : Unnumbered (setNumber defs v 0) w := by
  intro k unnamed
  unfold setNumber at unnamed
  rw [Array.getElem?_modify] at unnamed
  by_cases same : v = w
  · rw [if_pos same] at unnamed
    obtain ⟨d, found, unnamed⟩ := Option.bind_eq_some_iff.1 unnamed
    obtain ⟨e, -, rfl⟩ := Option.map_eq_some_iff.1 found
    exact Def.number_setName unnamed
  · rw [if_neg same] at unnamed
    exact either.resolve_left same k unnamed

lemma unnumber_unnumbered (either : w ∈ vs ∨ Unnumbered defs w) : Unnumbered (unnumber Def.local? defs vs) w := by
  induction vs generalizing defs with
  | nil => exact either.resolve_left List.not_mem_nil
  | cons v vs ih =>
    unfold unnumber
    split
    next k unnamed =>
      rcases either with mem | holds
      · rcases List.mem_cons.1 mem with rfl | later
        · exact ih (.inr (setNumber_unnumbered (.inl rfl)))
        · exact ih (.inl later)
      · exact ih (.inr (setNumber_unnumbered (.inr holds)))
    next named =>
      rcases either with mem | holds
      · rcases List.mem_cons.1 mem with rfl | later
        · exact ih (.inr fun k unnamed => absurd unnamed (named k))
        · exact ih (.inl later)
      · exact ih (.inr holds)

lemma numberFrom_none (distinct : vs.Nodup) (unnumbered : ∀ v ∈ vs, Unnumbered defs v) (next : Nat) :
    (numberFrom Def.local? defs vs next).1 = none := by
  induction vs generalizing defs next with
  | nil => rfl
  | cons v vs ih =>
    obtain ⟨once, distinct⟩ := List.nodup_cons.1 distinct
    unfold numberFrom
    split
    next k unnamed =>
      have zero : k = 0 := unnumbered v List.mem_cons_self k unnamed
      rw [if_neg (by simp [zero])]
      refine ih distinct (fun w mem => ?_) _
      intro k unnamed
      have other : v ≠ w := fun same => once (same ▸ mem)
      unfold setNumber at unnamed
      rw [Array.getElem?_modify, if_neg other] at unnamed
      exact unnumbered w (List.mem_cons_of_mem v mem) k unnamed
    next => exact ih distinct (fun w mem => unnumbered w (List.mem_cons_of_mem v mem)) next

/-- A function that lists no value twice can be numbered. -/
lemma Module.renumber_none (m : Module) {f : Func} (distinct : f.locals.Nodup) : (m.renumber f).1 = none :=
  numberFrom_none distinct (fun _ mem => unnumber_unnumbered (.inl mem)) 0

end Faultline.IR

namespace Faultline.Instrument

open IR (Module ValueId Func Block)
open Faultline.Flow (Graph)
open List Array

variable {m c c' d : Module} {f f' : Func} {g : Graph} {i : Nat} {p p' : Progress} {k : Nat}
  {rel rel' : Nat → Func → Func → Prop}

/-! ## One function -/

/-- The function can be instrumented. -/
structure Fit (m : Module) (f : Func) : Prop where
  distinct : f.locals.Nodup
  judged : ∃ g, Graph.ofFunc m f = .ok g ∧ ∀ b ∈ f.blocks.toList, ∀ v ∈ b.insts.toList, ¬ Unfit m g v

/-- Every block of the function has got its guards, and nothing else has changed. -/
def Finished (m c : Module) (f f' : Func) : Prop :=
  f' = { f with blocks := f'.blocks } ∧
    ∃ g, Graph.ofFunc m f = .ok g ∧ Forall₂ (Weaves m c g) f.blocks.toList f'.blocks.toList

/-- Some blocks of the function have got their guards, and nothing else has changed. -/
def Begun (m c : Module) (f f' : Func) : Prop :=
  f' = { f with blocks := f'.blocks } ∧ (f' = f ∨ ∃ g, Graph.ofFunc m f = .ok g ∧
    Forall₂ (fun b b' => b' = b ∨ Weaves m c g b b') f.blocks.toList f'.blocks.toList)

lemma Finished.begun (finished : Finished m c f f') : Begun m c f f' := by
  obtain ⟨same, g, graph, blocks⟩ := finished
  exact ⟨same, .inr ⟨g, graph, blocks.imp fun _ _ weaves => .inr weaves⟩⟩

lemma Finished.alike (finished : Finished m c f f') (alike : m.Alike c') (change : c.Alike c') : Finished m c' f f' := by
  obtain ⟨same, g, graph, blocks⟩ := finished
  exact ⟨same, g, graph, blocks.imp fun _ _ weaves => weaves.alike alike change⟩

lemma Begun.alike (begun : Begun m c f f') (alike : m.Alike c') (change : c.Alike c') : Begun m c' f f' := by
  obtain ⟨same, untouched | ⟨g, graph, blocks⟩⟩ := begun
  · exact ⟨same, .inl untouched⟩
  · refine ⟨same, .inr ⟨g, graph, blocks.imp fun _ _ either => ?_⟩⟩
    exact either.imp id fun weaves => weaves.alike alike change

lemma finished_of_empty (empty : f.blocks = #[]) : Finished m c f f := by
  obtain ⟨g, graph⟩ : ∃ g, Graph.ofFunc m f = .ok g := by
    unfold Graph.ofFunc
    rw [empty]
    exact ⟨_, rfl⟩
  exact ⟨rfl, g, graph, by simp [empty]⟩

/-! ## All functions -/

/-- The functions of `m` have become functions of `c` that stand in a relation to them; what else `c` has is
declared only. -/
structure Layout (m c : Module) (rel : Nat → Func → Func → Prop) : Prop where
  alike : m.Alike c
  funcs : ∀ i f, m.funcs[i]? = some f → ∃ f', c.funcs[i]? = some f' ∧ rel i f f'
  declared : ∀ i f', m.funcs.size ≤ i → c.funcs[i]? = some f' → f'.blocks = #[]

lemma Layout.mono (layout : Layout m c rel)
    (imp : ∀ i f f', m.funcs[i]? = some f → rel i f f' → rel' i f f') : Layout m c rel' := by
  refine ⟨layout.alike, fun i f found => ?_, layout.declared⟩
  obtain ⟨f', there, holds⟩ := layout.funcs i f found
  exact ⟨f', there, imp i f f' found holds⟩

lemma Layout.put (layout : Layout m c rel) (grown : c.Extends d)
    (alike : m.Alike c') (funcs : c'.funcs = d.funcs.setIfInBounds i f') (below : i < m.funcs.size)
    (here : ∀ f, m.funcs[i]? = some f → rel' i f f') (others : ∀ j f f₁, j ≠ i → rel j f f₁ → rel' j f f₁) :
    Layout m c' rel' := by
  refine ⟨alike, fun j f found => ?_, fun j f₁ beyond found => ?_⟩
  · obtain ⟨f₁, there, holds⟩ := layout.funcs j f found
    have later := grown.func? there
    rw [funcs]
    by_cases same : i = j
    · subst same
      rw [getElem?_setIfInBounds_self_of_lt (Array.getElem?_eq_some_iff.1 later).1]
      exact ⟨f', rfl, here f found⟩
    · rw [getElem?_setIfInBounds_ne same]
      exact ⟨f₁, later, others j f f₁ (Ne.symm same) holds⟩
  · rw [funcs, getElem?_setIfInBounds_ne (Nat.ne_of_lt (below.trans_le beyond))] at found
    rcases grown.func?_cases found with old | new
    · exact layout.declared j f₁ beyond old
    · exact new

/-! ## Steps -/

def replace (c : Module) (i : Nat) (f : Func) (bs : List Block) : Module :=
  { c with funcs := c.funcs.setIfInBounds i { f with blocks := bs.toArray } }

/-- How the instrumentation of a function can end. -/
inductive Ran (i : Nat) (p : Progress) (f : Func) : Except Error Unit × Progress → Prop where
  | refused {e : Fault} (graph : Graph.ofFunc p.draft.module f = .error e) : Ran i p f (.error (.refused e), p)
  | stopped {g : Graph} {bs : List Block} {e : Fault} {d : Draft} (graph : Graph.ofFunc p.draft.module f = .ok g)
      (run : blocks p.draft.module g f.blocks.toList p.draft = ((bs, .error e), d)) :
      Ran i p f (.error (.refused e), { p with draft := { d with module := replace d.module i f bs } })
  | unnumbered {g : Graph} {bs : List Block} {t : InsertTally} {d : Draft} {c : Module} {e : IR.NumberingError}
      {error : Error} (graph : Graph.ofFunc p.draft.module f = .ok g)
      (run : blocks p.draft.module g f.blocks.toList p.draft = ((bs, .ok t), d))
      (numbered : (replace d.module i f bs).renumber { f with blocks := bs.toArray } = (some e, c)) :
      Ran i p f (.error error, { p with draft := { d with module := c } })
  | done {g : Graph} {bs : List Block} {t : InsertTally} {d : Draft} {c : Module} {log : Array LogEntry}
      (graph : Graph.ofFunc p.draft.module f = .ok g)
      (run : blocks p.draft.module g f.blocks.toList p.draft = ((bs, .ok t), d))
      (numbered : (replace d.module i f bs).renumber { f with blocks := bs.toArray } = (none, c)) :
      Ran i p f (.ok (), { draft := { d with module := c }, tally := p.tally.add t, log := log })

lemma function_ran (there : p.draft.module.funcs[i]? = some f) : Ran i p f (function i p) := by
  unfold function
  dsimp only
  rw [there]
  dsimp only
  cases graph : Graph.ofFunc p.draft.module f with
  | error e => exact .refused graph
  | ok g =>
    dsimp only
    rcases run : (blocks p.draft.module g f.blocks.toList).run p.draft with ⟨⟨bs, t⟩, d⟩
    cases t with
    | error e => exact .stopped graph run
    | ok t =>
      dsimp only
      rcases numbered : (replace d.module i f bs).renumber { f with blocks := bs.toArray } with ⟨_ | e, c⟩
      · unfold replace at numbered
        rw [numbered]
        exact .done graph run numbered
      · unfold replace at numbered
        rw [numbered]
        exact .unnumbered graph run numbered

open Classical in
noncomputable def population (m : Module) (role : Role) (f : Func) : Nat :=
  match Graph.ofFunc m f with
  | .ok g => (f.blocks.toList.flatMap fun b => b.insts.toList).countP (Plays m g · role)
  | .error _ => 0

open Classical in
lemma population_eq (graph : Graph.ofFunc m f = .ok g) (role : Role) :
    population m role f = (f.blocks.toList.flatMap fun b => b.insts.toList).countP (Plays m g · role) := by
  unfold population
  rw [graph]

/-- The functions before a position have their guards, the others are as they were. -/
structure Reached (m : Module) (k : Nat) (p : Progress) : Prop where
  layout : Layout m p.draft.module fun i f f' => if i < k then Finished m p.draft.module f f' else f' = f
  counted : ∀ role : Role, role.count p.tally =
    (((m.funcs.toList.take k).map (population m role)).sum : Int).bmod (twoPow 64)

lemma Reached.untouched (reached : Reached m i p) (found : m.funcs[i]? = some f) : p.draft.module.funcs[i]? = some f := by
  obtain ⟨f', there, rel⟩ := reached.layout.funcs i f found
  rw [if_neg (Nat.lt_irrefl i)] at rel
  rwa [rel] at there

lemma Reached.begun (reached : Reached m k p) :
    Layout m p.draft.module fun _ f f' => Begun m p.draft.module f f' := by
  refine reached.layout.mono fun j f f' _ rel => ?_
  split at rel
  next => exact rel.begun
  next => exact ⟨by rw [rel], .inl rel⟩

lemma Reached.finished (reached : Reached m m.funcs.size p) :
    Layout m p.draft.module fun _ f f' => Finished m p.draft.module f f' :=
  reached.layout.mono fun j f f' found rel => by rwa [if_pos (Array.getElem?_eq_some_iff.1 found).1] at rel

lemma take_succ (found : m.funcs[k]? = some f) : m.funcs.toList.take (k + 1) = m.funcs.toList.take k ++ [f] := by
  rw [take_add_one, getElem?_toList, found]
  rfl

lemma Reached.skip (reached : Reached m i p) (found : m.funcs[i]? = some f) (empty : f.blocks = #[]) :
    Reached m (i + 1) p := by
  refine ⟨reached.layout.mono fun j f₁ f' found' rel => ?_, fun role => ?_⟩
  · by_cases done : j < i
    · rw [if_pos done] at rel
      rw [if_pos (Nat.lt_succ_of_lt done)]
      exact rel
    · rw [if_neg done] at rel
      subst rel
      split
      next here =>
        cases Nat.le_antisymm (Nat.le_of_lt_succ here) (Nat.le_of_not_lt done)
        cases found.symm.trans found'
        exact finished_of_empty empty
      next => rfl
  · have none : population m role f = 0 := by
      unfold population
      split <;> simp [empty]
    rw [reached.counted role, take_succ found]
    simp [none]

lemma blockLocals_lt (closed : m.Closed) (listed : f ∈ m.funcs) {b : Block} (there : b ∈ f.blocks.toList) {v : ValueId}
    (mem : v ∈ blockLocals b) : v < m.defs.size :=
  closed.locals f listed v (List.mem_append_right _ (List.mem_flatMap.2 ⟨b, there, mem⟩))

lemma nodup_of_filter {α : Type} [DecidableEq α] {vs : List α} {keep : α → Bool} (kept : (vs.filter keep).Nodup)
    (rest : (vs.filter fun v => !keep v).Nodup) : vs.Nodup := by
  rw [nodup_iff_count_le_one] at kept rest ⊢
  intro v
  cases kind : keep v with
  | true => exact (List.count_filter kind (l := vs)) ▸ kept v
  | false =>
    have other : (!keep v) = true := by simp [kind]
    exact (List.count_filter (p := fun v => !keep v) other (l := vs)) ▸ rest v

/-- A function that lists no value twice does not do so with its guards. -/
lemma nodup_locals (closed : m.Closed) (listed : f ∈ m.funcs) (distinct : f.locals.Nodup) {bs : List Block} {lo hi : Nat}
    (done : Forall₂ (Weaves m c g) f.blocks.toList bs)
    (rises : Rises lo hi ((bs.flatMap blockLocals).filter (m.defs.size ≤ ·))) :
    ({ f with blocks := bs.toArray } : Func).locals.Nodup := by
  have params : ∀ v ∈ f.params.map IR.Param.id, v < m.defs.size := fun v mem =>
    closed.locals f listed v (List.mem_append_left _ mem)
  have blocks := Weaves.all_old_locals done fun b mem v entry => blockLocals_lt closed listed mem entry
  have old : (f.params.map IR.Param.id ++ bs.flatMap blockLocals).filter (· < m.defs.size) = f.locals := by
    rw [List.filter_append, blocks, List.filter_eq_self.2 (by simpa using params)]
    rfl
  have new : (f.params.map IR.Param.id ++ bs.flatMap blockLocals).filter (fun v => !decide (v < m.defs.size)) =
      (bs.flatMap blockLocals).filter (m.defs.size ≤ ·) := by
    have none : (f.params.map IR.Param.id).filter (fun v => !decide (v < m.defs.size)) = [] := by
      rw [filter_eq_nil_iff]
      intro v mem
      simpa using params v mem
    rw [List.filter_append, none, nil_append]
    apply List.filter_congr
    intro v _
    rw [← decide_not]
    exact decide_eq_decide.2 Nat.not_lt
  show (f.params.map IR.Param.id ++ bs.flatMap blockLocals).Nodup
  exact nodup_of_filter (old ▸ distinct) (new ▸ rises.nodup)

lemma alike_replace (c : Module) (i : Nat) (f : Func) (bs : List Block) : c.Alike (replace c i f bs) :=
  ⟨rfl, le_refl _, fun _ _ => rfl⟩

section Step

variable {bs : List Block} {t : Except Fault InsertTally} {e : Draft}

lemma Reached.wove (reached : Reached m i p) (closed : m.Closed) (found : m.funcs[i]? = some f)
    (graph : Graph.ofFunc p.draft.module f = .ok g)
    (run : blocks p.draft.module g f.blocks.toList p.draft = ((bs, t), e)) :
    Graph.ofFunc m f = .ok g ∧ Wove m g p.draft e f.blocks.toList bs t := by
  have listed : f ∈ m.funcs := Array.mem_of_getElem? found
  have alike := reached.layout.alike
  have graph := (Alike.ofFunc_ok alike closed listed).1 graph
  exact ⟨graph, blocks_weave alike closed listed graph (fun b mem v entry => blockLocals_lt closed listed mem entry) alike run⟩

variable (reached : Reached m i p) (found : m.funcs[i]? = some f) (graph : Graph.ofFunc m f = .ok g)
  (wove : Wove m g p.draft e f.blocks.toList bs t) (change : e.module.Alike c)
  (funcs : c.funcs = (replace e.module i f bs).funcs)

include reached found graph wove change funcs

lemma Reached.begun_replace : Layout m c fun _ f f' => Begun m c f f' := by
  have whole : p.draft.module.Alike c := wove.extends_.alike.trans change
  have alike : m.Alike c := reached.layout.alike.trans whole
  refine reached.begun.put wove.extends_ alike funcs (Array.getElem?_eq_some_iff.1 found).1 ?_ ?_
  · intro f₁ found'
    cases found.symm.trans found'
    refine ⟨rfl, .inr ⟨g, graph, wove.blocks.imp fun b b' either => ?_⟩⟩
    exact either.imp id fun weaves => weaves.alike alike change
  · intro j f₁ f' _ begun
    exact begun.alike alike whole

lemma Reached.finished_replace (done : Forall₂ (Weaves m e.module g) f.blocks.toList bs) :
    Layout m c fun j f f' => if j < i + 1 then Finished m c f f' else f' = f := by
  have whole : p.draft.module.Alike c := wove.extends_.alike.trans change
  have alike : m.Alike c := reached.layout.alike.trans whole
  refine reached.layout.put wove.extends_ alike funcs (Array.getElem?_eq_some_iff.1 found).1 ?_ ?_
  · intro f₁ found'
    cases found.symm.trans found'
    rw [if_pos (Nat.lt_succ_self i)]
    exact ⟨rfl, g, graph, done.imp fun b b' weaves => weaves.alike alike change⟩
  · intro j f₁ f' other rel
    by_cases earlier : j < i
    · rw [if_pos earlier] at rel
      rw [if_pos (Nat.lt_succ_of_lt earlier)]
      exact rel.alike alike whole
    · rw [if_neg earlier] at rel
      rw [if_neg (by omega)]
      exact rel

end Step

lemma function_step (closed : m.Closed) (reached : Reached m i p) (found : m.funcs[i]? = some f) :
    match function i p with
    | (.ok _, p') => Reached m (i + 1) p'
    | (.error _, p') => (Layout m p'.draft.module fun _ f f' => Begun m p'.draft.module f f') ∧ ¬ Fit m f := by
  have listed : f ∈ m.funcs := Array.mem_of_getElem? found
  have ran := function_ran (reached.untouched found)
  generalize function i p = r at ran
  cases ran with
  | @refused e graph =>
    refine ⟨reached.begun, fun fit => ?_⟩
    obtain ⟨g, judged, -⟩ := fit.judged
    rw [(Alike.ofFunc_ok reached.layout.alike closed listed).2 judged] at graph
    cases graph
  | @stopped g bs e d graph run =>
    obtain ⟨graph, wove⟩ := reached.wove closed found graph run
    refine ⟨reached.begun_replace found graph wove (alike_replace _ _ _ _) rfl, fun fit => ?_⟩
    obtain ⟨b, mem, v, listed, unfit⟩ := wove.stopped e rfl
    obtain ⟨g', judged, fit⟩ := fit.judged
    cases graph.symm.trans judged
    exact fit b mem v listed unfit
  | @unnumbered g bs t d c e error graph run numbered =>
    obtain ⟨graph, wove⟩ := reached.wove closed found graph run
    obtain ⟨done, adds, -⟩ := wove.done t rfl
    obtain ⟨same, funcs, -⟩ := (replace d.module i f bs).alike_renumber { f with blocks := bs.toArray }
    rw [numbered] at same funcs
    refine ⟨reached.begun_replace found graph wove ((alike_replace _ _ _ _).trans same) funcs, fun fit => ?_⟩
    have none := (replace d.module i f bs).renumber_none (nodup_locals closed listed fit.distinct done adds.rises)
    rw [numbered] at none
    cases none
  | @done g bs t d c log graph run numbered =>
    obtain ⟨graph, wove⟩ := reached.wove closed found graph run
    obtain ⟨done, -, counted⟩ := wove.done t rfl
    obtain ⟨same, funcs, -⟩ := (replace d.module i f bs).alike_renumber { f with blocks := bs.toArray }
    rw [numbered] at same funcs
    refine ⟨reached.finished_replace found graph wove ((alike_replace _ _ _ _).trans same) funcs done, fun role => ?_⟩
    rw [Role.count_add, counted role, reached.counted role, countSum, Int.add_bmod_bmod, Int.bmod_add_bmod, take_succ found]
    simp [population_eq graph role]

/-- How one function gets its guards: `d` has got what is new, and `p'` the function with its locals numbered. -/
structure Stepped (m : Module) (i : Nat) (f : Func) (p p' : Progress) (g : Graph) (bs : List Block) (t : InsertTally)
    (d : Draft) : Prop where
  graph : Graph.ofFunc m f = .ok g
  run : blocks p.draft.module g f.blocks.toList p.draft = ((bs, .ok t), d)
  wove : Wove m g p.draft d f.blocks.toList bs (.ok t)
  taken : p'.draft.taken = d.taken
  numbered : p'.draft.module = ((replace d.module i f bs).renumber { f with blocks := bs.toArray }).2
  alike : d.module.Alike p'.draft.module
  funcs : p'.draft.module.funcs = d.module.funcs.setIfInBounds i { f with blocks := bs.toArray }
  size : p'.draft.module.defs.size = d.module.defs.size
  mine : p'.draft.module.funcs[i]? = some { f with blocks := bs.toArray }

lemma Reached.stepped (closed : m.Closed) (reached : Reached m i p) (found : m.funcs[i]? = some f)
    (run : function i p = (.ok (), p')) : ∃ g bs t d, Stepped m i f p p' g bs t d := by
  have ran := function_ran (reached.untouched found)
  rw [run] at ran
  clear run
  cases ran with
  | @done g bs t d c log graph run numbered =>
    obtain ⟨graph, wove⟩ := reached.wove closed found graph run
    obtain ⟨alike, funcs, size⟩ := (replace d.module i f bs).alike_renumber { f with blocks := bs.toArray }
    rw [numbered] at alike funcs size
    have funcs : c.funcs = d.module.funcs.setIfInBounds i { f with blocks := bs.toArray } := funcs
    have bound := (Array.getElem?_eq_some_iff.1 (wove.extends_.func? (reached.untouched found))).1
    have mine : c.funcs[i]? = some { f with blocks := bs.toArray } := by
      rw [funcs, getElem?_setIfInBounds_self_of_lt bound]
    exact ⟨g, bs, t, d, graph, run, wove, rfl, by rw [numbered], (alike_replace _ _ _ _).trans alike, funcs, size, mine⟩

lemma Stepped.map_funcs {bs : List Block} {t : InsertTally} {d : Draft} (stepped : Stepped m i f p p' g bs t d)
    (there : p.draft.module.funcs[i]? = some f) {β : Type} (key : Func → β)
    (same : key { f with blocks := bs.toArray } = key f) :
    p'.draft.module.funcs.toList.map key = d.module.funcs.toList.map key := by
  have there := stepped.wove.extends_.func? there
  refine List.ext_getElem? fun j => ?_
  rw [List.getElem?_map, List.getElem?_map, getElem?_toList, getElem?_toList]
  by_cases here : i = j
  · rw [← here, stepped.mine, there, Option.map_some, Option.map_some, same]
  · rw [stepped.funcs, getElem?_setIfInBounds_ne here]

/-! ## Runs -/

/-- What holds of a module before its instrumentation, and every function preserves. -/
structure Kept (m : Module) (I : Nat → Progress → Prop) : Prop where
  start : I 0 { draft := .ofModule m }
  skip : ∀ {i p f}, Reached m i p → I i p → m.funcs[i]? = some f → f.blocks = #[] → I (i + 1) p
  step : ∀ {i p p' f}, Reached m i p → I i p → m.funcs[i]? = some f → function i p = (.ok (), p') → I (i + 1) p'

lemma functions_run {I : Nat → Progress → Prop} (closed : m.Closed) (kept : Kept m I) (all : i + k = m.funcs.size) (reached : Reached m i p) (holds : I i p) :
    match functions (List.range' i k) p with
    | (.ok _, p') => Reached m m.funcs.size p' ∧ I m.funcs.size p'
    | (.error _, p') => (Layout m p'.draft.module fun _ f f' => Begun m p'.draft.module f f') ∧
        ∃ f ∈ m.funcs, f.blocks ≠ #[] ∧ ¬ Fit m f := by
  induction k generalizing i p with
  | zero =>
    cases all
    exact ⟨reached, holds⟩
  | succ k ih =>
    have below : i < m.funcs.size := by omega
    have later : i + 1 + k = m.funcs.size := by omega
    obtain ⟨f, found⟩ : ∃ f, m.funcs[i]? = some f := ⟨_, Array.getElem?_eq_getElem below⟩
    rw [List.range'_succ]
    unfold functions
    rw [reached.untouched found]
    by_cases empty : f.blocks = #[]
    · rw [if_pos (by simp [empty])]
      exact ih later (reached.skip found empty) (kept.skip reached holds found empty)
    · rw [if_neg (by simpa using empty)]
      have next := function_step closed reached found
      rcases run : function i p with ⟨e | _, p'⟩ <;> rw [run] at next
      · exact ⟨next.1, f, Array.mem_of_getElem? found, empty, next.2⟩
      · exact ih later next (kept.step reached holds found run)

lemma reached_start (m : Module) : Reached m 0 { draft := .ofModule m } := by
  refine ⟨⟨.refl m, fun i f found => ⟨f, found, ?_⟩, fun i f' beyond found => ?_⟩, fun role => ?_⟩
  · rw [if_neg (Nat.not_lt_zero i)]
  · exact absurd (Array.getElem?_eq_some_iff.1 found).1 (Nat.not_lt.2 beyond)
  · simp

/-- A run gets to the end, or is refused at a function that is not fit. -/
lemma ofModule_ran {I : Nat → Progress → Prop} (closed : m.Closed) (kept : Kept m I) :
    ∃ p : Progress, (ofModule m).module = p.draft.module ∧
      ((ofModule m).result = .ok p.tally ∧ Reached m m.funcs.size p ∧ I m.funcs.size p ∨
        (∃ e, (ofModule m).result = .error e) ∧ (Layout m p.draft.module fun _ f f' => Begun m p.draft.module f f') ∧
          ∃ f ∈ m.funcs, f.blocks ≠ #[] ∧ ¬ Fit m f) := by
  have run := functions_run closed kept (Nat.zero_add m.funcs.size) (reached_start m) kept.start
  unfold ofModule
  rw [List.range_eq_range']
  generalize functions (List.range' 0 m.funcs.size) { draft := .ofModule m } = r at run ⊢
  rcases r with ⟨e | u, p⟩
  · exact ⟨p, rfl, .inr ⟨⟨e, rfl⟩, run⟩⟩
  · exact ⟨p, rfl, .inl ⟨rfl, run⟩⟩

lemma ofModule_invariant {I : Nat → Progress → Prop} (closed : m.Closed) (kept : Kept m I) {tally : InsertTally}
    (done : (ofModule m).result = .ok tally) :
    ∃ p, (ofModule m).module = p.draft.module ∧ Reached m m.funcs.size p ∧ I m.funcs.size p := by
  obtain ⟨p, same, ⟨-, reached⟩ | ⟨⟨e, refused⟩, -⟩⟩ := ofModule_ran closed kept
  · exact ⟨p, same, reached⟩
  · cases refused.symm.trans done

lemma kept_trivial (m : Module) : Kept m fun _ _ => True :=
  ⟨trivial, fun _ _ _ _ => trivial, fun _ _ _ _ => trivial⟩

lemma ofModule_granted (closed : m.Closed) (fit : ∀ f ∈ m.funcs, f.blocks ≠ #[] → Fit m f) :
    ∃ tally, (ofModule m).result = .ok tally := by
  obtain ⟨p, -, ⟨done, -⟩ | ⟨-, -, f, mem, body, unfit⟩⟩ := ofModule_ran closed (kept_trivial m)
  · exact ⟨p.tally, done⟩
  · exact absurd (fit f mem body) unfit

def dividingFunc : Func where
  id := 3
  name := Text.utf8 "f"
  result := .int 32
  params := [⟨4, ""⟩, ⟨5, ""⟩]
  blocks := #[⟨6, #[7, 8], some 9⟩]

def dividing : Module where
  defs := IR.shared ++ #[.func (.named (Text.utf8 "f")) .void, .param (.named (Text.utf8 "x")) (.int 32),
    .param (.named (Text.utf8 "y")) (.int 32), .block (.number 0),
    .inst (.number 0) (.int 32) (.arith .sdiv [] 4 5) [], .inst (.number 0) (.int 32) (.arith .add [] 4 5) [],
    .term (.number 0) .void (.ret (some 7)) []]
  funcs := #[dividingFunc]

def dividingGraph : Graph where
  func := dividingFunc
  index := (∅ : Std.HashMap ValueId Nat).insert 6 0
  preds := #[[]]
  succs := #[[]]
  ids := (((∅ : Std.HashMap ValueId Nat).insert 7 0).insert 8 1).insert 9 2
  blockOf := #[0, 0, 0]
  users := (∅ : Std.HashMap ValueId (List ValueId)).insert 7 ((∅ : Std.HashMap ValueId (List ValueId)).getD 7 [] ++ [9])

lemma dividing_graph : Graph.ofFunc dividing dividingFunc = .ok dividingGraph := rfl

lemma dividing_closed : dividing.Closed := by
  have reads : ∀ d ∈ dividing.defs.toList, ∀ x ∈ d.operands, x < dividing.defs.size := by decide
  refine ⟨fun v d found => reads d (mem_toList_iff.2 (Array.mem_of_getElem? found)), ?_⟩
  have locals : ∀ f ∈ dividing.funcs.toList, ∀ v ∈ f.locals, v < dividing.defs.size := by decide
  exact fun f mem => locals f (mem_toList_iff.2 mem)

lemma dividing_unobservable : observable dividing dividingGraph 8 = .ok false := by
  have unused : dividingGraph.usersOf 8 = [] := by
    simp [Graph.usersOf, dividingGraph, Std.HashMap.getD_insert]
  unfold observable
  rw [unused]
  rfl

lemma dividing_hazards : hazardOf dividing 7 = some (.signedDivision (.int 32) 32 4 5) ∧
    hazardOf dividing 8 = some (.overflow .add false (.int 32) 4 5) :=
  ⟨rfl, rfl⟩

lemma dividing_fit : Fit dividing dividingFunc := by
  obtain ⟨quotient, sum⟩ := dividing_hazards
  refine ⟨by decide, dividingGraph, dividing_graph, fun b mem v listed unfit => ?_⟩
  cases List.mem_singleton.1 mem
  obtain ⟨h, hazard, signless | ⟨overflow, e, refused⟩⟩ := unfit
  · obtain ⟨t, x, y, rfl⟩ := signless
    rcases mem_pair.1 listed with rfl | rfl
    · cases quotient.symm.trans hazard
    · cases sum.symm.trans hazard
  · rcases mem_pair.1 listed with rfl | rfl
    · cases quotient.symm.trans hazard
      cases overflow
    · rw [dividing_unobservable] at refused
      cases refused

lemma dividing_done : ∃ tally, (ofModule dividing).result = .ok tally :=
  ofModule_granted dividing_closed fun f mem _ => by
    cases List.mem_singleton.1 (mem_toList_iff.2 mem)
    exact dividing_fit

lemma dividing_population (role : Role) : population dividing role dividingFunc =
    match role with
    | .overflow | .shift => 0
    | .division | .unobservable => 1 := by
  obtain ⟨quotient, sum⟩ := dividing_hazards
  rw [population_eq dividing_graph]
  show List.countP _ [7, 8] = _
  cases role <;> simp [Plays, computes_kind quotient, computes_kind sum, Hazard.kind, dividing_unobservable]

end Faultline.Instrument
