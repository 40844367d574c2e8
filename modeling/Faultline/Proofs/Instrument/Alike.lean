/-
# Proofs.Instrument.Alike — modules that differ in what instrumentation may change

A module is `Alike` another one if instrumentation may have made it: the values of
that one are the same up to the numbers of unnamed locals (`Def.bare`), and so is
everything but the functions. What the instrumenter asks about an instruction of a
closed module is answered alike: its hazard (`Alike.hazard?_eq`), the graph of its
function (`Alike.ofFunc_ok`) and whether its result is observable
(`Alike.observable_eq`).
-/
import Faultline.Instrument.Insertion
import Faultline.Proofs.Flow.Graph

namespace Faultline.IR

/-! ## Definitions up to local numbers -/

namespace Def

variable {ν : Type} {d e : Def ν} {n : Name}

/-- A definition without the number that it may have as an unnamed local. -/
def bare (d : Def ν) : Def ν :=
  match d.local? with
  | some (.number _) => d.setName (.number 0)
  | _ => d

lemma bare_cases (d : Def ν) :
    d.bare = d ∨ (∃ k, d.local? = some (.number k)) ∧ d.bare = d.setName (.number 0) := by
  unfold bare
  split
  next k unnamed => exact .inr ⟨⟨k, unnamed⟩, rfl⟩
  next => exact .inl rfl

lemma local?_setName {k l : Int} (unnamed : d.local? = some (.number k)) :
    (d.setName (.number l)).local? = some (.number l) := by
  cases d with
  | inst n t i trail => cases t <;> simp_all [local?, setName]
  | term n t i trail => cases t <;> simp_all [local?, setName]
  | _ => simp_all [local?, setName]

lemma bare_setName {k l : Int} (unnamed : d.local? = some (.number k)) :
    (d.setName (.number l)).bare = d.bare := by
  have twice : (d.setName (.number l)).setName (.number 0) = d.setName (.number 0) := by
    cases d <;> rfl
  unfold bare
  rw [local?_setName unnamed, unnamed]
  exact twice

/-- Only unnamed locals lose anything. -/
lemma eq_of_bare (unnumbered : ∀ k, d.local? ≠ some (.number k)) (same : e.bare = d.bare) : e = d := by
  have unchanged : d.bare = d := by
    rcases bare_cases d with plain | ⟨⟨k, unnamed⟩, -⟩
    · exact plain
    · exact absurd unnamed (unnumbered k)
  rw [unchanged] at same
  rcases bare_cases e with plain | ⟨⟨k, unnamed⟩, renamed⟩
  · exact plain.symm.trans same
  · have number := local?_setName (l := 0) unnamed
    rw [← renamed, same] at number
    exact absurd number (unnumbered 0)

lemma setName_setName (d : Def ν) (n n' : Name) : (d.setName n).setName n' = d.setName n' := by
  cases d <;> rfl

lemma exists_setName (d : Def ν) : ∃ n, d = d.setName n := by
  cases d with
  | param n t => exact ⟨n, rfl⟩
  | inst n t i trail => exact ⟨n, rfl⟩
  | term n t i trail => exact ⟨n, rfl⟩
  | block n => exact ⟨n, rfl⟩
  | global n t => exact ⟨n, rfl⟩
  | func n t => exact ⟨n, rfl⟩
  | const t k => exact ⟨.number 0, rfl⟩
  | attributed a x => exact ⟨.number 0, rfl⟩

lemma setName_of_bare (same : e.bare = d.bare) : ∃ n, e = d.setName n := by
  have bare : ∀ d : Def ν, ∃ k, d.bare = d.setName k := by
    intro d
    rcases bare_cases d with unchanged | ⟨-, renamed⟩
    · rw [unchanged]
      exact exists_setName d
    · exact ⟨.number 0, renamed⟩
  obtain ⟨n, own⟩ := exists_setName e
  obtain ⟨k, first⟩ := bare e
  obtain ⟨l, second⟩ := bare d
  refine ⟨n, ?_⟩
  calc e = (e.setName k).setName n := by rw [setName_setName, ← own]
    _ = (d.setName l).setName n := by rw [← first, same, second]
    _ = d.setName n := setName_setName d l n

def operands : Def ν → List ν
  | .inst _ _ i _ => i.operands
  | .term _ _ t _ => t.operands
  | .attributed _ x => [x]
  | _ => []

end Def

/-! ## Modules -/

namespace Module

variable {m c c' : Module} {v x : ValueId} {d : Def ValueId} {f : Func}

/-- Whatever is read, and whatever is a parameter, a block or an instruction of a function, is in the table. -/
structure Closed (m : Module) : Prop where
  reads : ∀ v d, m.get? v = some d → ∀ x ∈ d.operands, x < m.defs.size
  locals : ∀ f ∈ m.funcs, ∀ v ∈ f.locals, v < m.defs.size

lemma Closed.lists (closed : m.Closed) (listed : f ∈ m.funcs) (mem : v ∈ Flow.Graph.listing f) : v < m.defs.size := by
  obtain ⟨b, there, entry⟩ := List.mem_flatMap.1 mem
  refine closed.locals f listed v (List.mem_append_right _ (List.mem_flatMap.2 ⟨b, there, ?_⟩))
  exact List.mem_cons_of_mem _ entry

/-- The values of `m` are still there, up to the numbers of unnamed locals, and only functions may be different. -/
structure Alike (m c : Module) : Prop where
  rest : c = { m with funcs := c.funcs, defs := c.defs }
  size : m.defs.size ≤ c.defs.size
  values : ∀ v < m.defs.size, (c.get? v).map Def.bare = (m.get? v).map Def.bare

lemma Alike.refl (m : Module) : m.Alike m :=
  ⟨rfl, le_refl _, fun _ _ => rfl⟩

lemma Alike.trans (first : m.Alike c) (second : c.Alike c') : m.Alike c' := by
  refine ⟨?_, first.size.trans second.size, fun v inside => ?_⟩
  · rw [second.rest, first.rest]
  · exact (second.values v (inside.trans_le first.size)).trans (first.values v inside)

lemma lt_size_of_get? (found : m.get? v = some d) : v < m.defs.size :=
  (Array.getElem?_eq_some_iff.1 found).1

lemma Alike.get? (alike : m.Alike c) (found : m.get? v = some d) : ∃ e, c.get? v = some e ∧ e.bare = d.bare := by
  have same := alike.values v (lt_size_of_get? found)
  rw [found] at same
  obtain ⟨e, there, bare⟩ := Option.map_eq_some_iff.1 same
  exact ⟨e, there, bare⟩

lemma Alike.renamed (alike : m.Alike c) (inside : v < m.defs.size) :
    ∃ d n, m.get? v = some d ∧ c.get? v = some (d.setName n) := by
  obtain ⟨d, found⟩ : ∃ d, m.get? v = some d := ⟨_, Array.getElem?_eq_getElem inside⟩
  obtain ⟨e, there, bare⟩ := alike.get? found
  obtain ⟨n, rfl⟩ := Def.setName_of_bare bare
  exact ⟨d, n, found, there⟩

lemma Alike.inst (alike : m.Alike c) {n : Name} {t : Ty} {i : Inst ValueId} {trail : List (Piece ValueId)}
    (found : m.get? v = some (.inst n t i trail)) : ∃ n', c.get? v = some (.inst n' t i trail) := by
  obtain ⟨d, n', here, there⟩ := alike.renamed (lt_size_of_get? found)
  cases here.symm.trans found
  exact ⟨n', there⟩

lemma Alike.global (alike : m.Alike c) (found : m.get? v = some d) (global : d.local? = none) :
    c.get? v = some d := by
  obtain ⟨e, there, bare⟩ := alike.get? found
  rwa [Def.eq_of_bare (by simp [global]) bare] at there

/-! ## Numbering -/

lemma setNumber_bare {defs : Array (Def ValueId)} {k : Int} (unnamed : defs[v]?.bind Def.local? = some (.number k))
    (n : Nat) (w : ValueId) : (setNumber defs v n)[w]?.map Def.bare = defs[w]?.map Def.bare := by
  obtain ⟨d, found, number⟩ := Option.bind_eq_some_iff.1 unnamed
  unfold setNumber
  rw [Array.getElem?_modify]
  by_cases same : v = w
  · subst same
    rw [if_pos rfl, found]
    exact congrArg some (Def.bare_setName number)
  · rw [if_neg same]

lemma unnumber_bare (defs : Array (Def ValueId)) (vs : List ValueId) (w : ValueId) :
    (unnumber Def.local? defs vs)[w]?.map Def.bare = defs[w]?.map Def.bare := by
  induction vs generalizing defs with
  | nil => rfl
  | cons v vs ih =>
    unfold unnumber
    split
    next k unnamed => exact (ih _).trans (setNumber_bare unnamed 0 w)
    next => exact ih defs

lemma numberFrom_bare (defs : Array (Def ValueId)) (vs : List ValueId) (next : Nat) (w : ValueId) :
    (numberFrom Def.local? defs vs next).2[w]?.map Def.bare = defs[w]?.map Def.bare := by
  induction vs generalizing defs next with
  | nil => rfl
  | cons v vs ih =>
    unfold numberFrom
    split
    next k unnamed =>
      split
      · rfl
      · exact (ih _ _).trans (setNumber_bare unnamed next w)
    next => exact ih defs next

lemma alike_of_values (values : ∀ v : ValueId, c.defs[v]?.map Def.bare = m.defs[v]?.map Def.bare)
    (rest : c = { m with funcs := c.funcs, defs := c.defs }) : m.Alike c := by
  refine ⟨rest, ?_, fun v _ => values v⟩
  by_contra less
  have missing := values c.defs.size
  rw [Array.getElem?_eq_none (le_refl _), Array.getElem?_eq_getElem (Nat.lt_of_not_le less)] at missing
  cases missing

/-- Numbering the locals of a function anew changes nothing else. -/
lemma alike_renumber (m : Module) (f : Func) :
    m.Alike (m.renumber f).2 ∧ (m.renumber f).2.funcs = m.funcs ∧ (m.renumber f).2.defs.size = m.defs.size := by
  have values : ∀ v : ValueId, (m.renumber f).2.defs[v]?.map Def.bare = m.defs[v]?.map Def.bare := fun v =>
    (numberFrom_bare _ _ _ v).trans (unnumber_bare _ _ v)
  have alike := alike_of_values values rfl
  have back : (m.renumber f).2.Alike m := alike_of_values (fun v => (values v).symm) rfl
  exact ⟨alike, rfl, le_antisymm back.size alike.size⟩

/-! ## What the instrumenter asks -/

lemma Alike.types (alike : m.Alike c) : c.types = m.types := by
  rw [alike.rest]

lemma Alike.resolve (alike : m.Alike c) (t : Ty) : c.resolve t = m.resolve t := by
  unfold Module.resolve
  rw [alike.types]

lemma Alike.typeOf_eq (alike : m.Alike c) (closed : m.Closed) (inside : v < m.defs.size) :
    c.typeOf v = m.typeOf v := by
  have plain : ∀ (d : Def ValueId) (n : Name), typeOf.plain (d.setName n) = typeOf.plain d := by
    intro d n
    cases d <;> rfl
  obtain ⟨d, n, here, there⟩ := alike.renamed inside
  unfold typeOf
  rw [here, there]
  cases d with
  | attributed a x =>
    have read : x < m.defs.size := closed.reads v _ here x (by simp [Def.operands])
    obtain ⟨d, n', here', there'⟩ := alike.renamed read
    dsimp only [Def.setName]
    rw [here', there']
    exact plain d n'
  | _ => rfl

end Module

end Faultline.IR

namespace Faultline.Instrument

open IR (Module ValueId Func Block Def Inst)
open Faultline.Flow (Graph)
open List

variable {m c : Module} {f : Func} {g : Graph} {v x : ValueId}

lemma Alike.hazard?_eq (alike : m.Alike c) (closed : m.Closed) {i : Inst ValueId}
    (inside : ∀ x ∈ i.operands, x < m.defs.size) : hazard? c i = hazard? m i := by
  cases i with
  | arith op flags x y =>
    have there : x < m.defs.size := inside x (by simp [Inst.operands])
    unfold hazard?
    dsimp only
    rw [alike.typeOf_eq closed there, alike.resolve]
  | _ => rfl

/-! ## The graph of a function -/

lemma Alike.operandsOf_eq (alike : m.Alike c) (inside : v < m.defs.size) :
    Graph.operandsOf c v = Graph.operandsOf m v := by
  obtain ⟨d, n, here, there⟩ := alike.renamed inside
  unfold Graph.operandsOf
  rw [here, there]
  cases d <;> rfl

lemma Alike.targets_eq (alike : m.Alike c) {b : Block} (inside : ∀ v ∈ b.term, v < m.defs.size) :
    Graph.targets c b = Graph.targets m b := by
  unfold Graph.targets
  cases term : b.term with
  | none => rfl
  | some v =>
    obtain ⟨d, n, here, there⟩ := alike.renamed (inside v (by simp [term]))
    rw [Option.bind_some, Option.bind_some, here, there]
    cases d <;> rfl

lemma Alike.addUse_eq (alike : m.Alike c) (inside : x < m.defs.size) (user : ValueId)
    (users : Std.HashMap ValueId (List ValueId)) : Graph.addUse c user users x = Graph.addUse m user users x := by
  obtain ⟨d, n, here, there⟩ := alike.renamed inside
  unfold Graph.addUse
  rw [here, there]
  cases d <;> rfl

lemma Alike.addUser_eq (alike : m.Alike c) (closed : m.Closed) (inside : v < m.defs.size) (b : Nat) (g : Graph) :
    Graph.addUser c b g v = Graph.addUser m b g v := by
  have reads : ∀ x ∈ Graph.operandsOf m v, x < m.defs.size := by
    intro x mem
    unfold Graph.operandsOf at mem
    split at mem
    next i trail found => exact closed.reads v _ found x mem
    next t trail found => exact closed.reads v _ found x mem
    next => cases mem
  have folded : ∀ (xs : List ValueId) (users : Std.HashMap ValueId (List ValueId)),
      (∀ x ∈ xs, x < m.defs.size) → xs.foldl (Graph.addUse c v) users = xs.foldl (Graph.addUse m v) users := by
    intro xs
    induction xs with
    | nil => exact fun _ _ => rfl
    | cons x xs ih =>
      intro users inside
      rw [foldl_cons, foldl_cons, Alike.addUse_eq alike (inside x mem_cons_self)]
      exact ih _ fun y mem => inside y (mem_cons_of_mem x mem)
  unfold Graph.addUser
  rw [Alike.operandsOf_eq alike inside, folded _ _ reads]

lemma mem_listing {b : Block} (there : b ∈ f.blocks) (mem : v ∈ Graph.entries b) : v ∈ Graph.listing f :=
  mem_flatMap.2 ⟨b, there.val, mem⟩

lemma Alike.addBlock_ok (alike : m.Alike c) (closed : m.Closed) (listed : f ∈ m.funcs) {h : Graph} {i : Nat}
    (func : g.func = f) (below : i < f.blocks.size) : Graph.addBlock c g i = .ok h ↔ Graph.addBlock m g i = .ok h := by
  have there : g.block i ∈ f.blocks := by
    rw [Graph.block, func, Array.getD_eq_getD_getElem?, Array.getElem?_eq_getElem below]
    exact Array.getElem_mem below
  have inside : ∀ v ∈ Graph.entries (g.block i), v < m.defs.size := fun v mem =>
    closed.lists listed (mem_listing there mem)
  have targets : Graph.targets c (g.block i) = Graph.targets m (g.block i) := by
    apply Alike.targets_eq alike
    intro v term
    apply inside v
    rw [Graph.entries, Option.mem_def.1 term]
    simp
  have folded : ∀ (vs : List ValueId) (g : Graph), (∀ v ∈ vs, v < m.defs.size) →
      vs.foldl (Graph.addUser c i) g = vs.foldl (Graph.addUser m i) g := by
    intro vs
    induction vs with
    | nil => exact fun _ _ => rfl
    | cons v vs ih =>
      intro g inside
      rw [foldl_cons, foldl_cons, Alike.addUser_eq alike closed (inside v mem_cons_self)]
      exact ih _ fun u mem => inside u (mem_cons_of_mem v mem)
  have same := folded _ g inside
  unfold Graph.entries at same
  rw [Graph.addBlock_ok, Graph.addBlock_ok, targets, same]

lemma bind_eq_ok_iff {ε α β : Type} {x : Except ε α} {k : α → Except ε β} {r : β} :
    (x >>= k) = .ok r ↔ ∃ a, x = .ok a ∧ k a = .ok r := by
  cases x with
  | error e =>
    constructor
    · intro run
      cases run
    · rintro ⟨a, run, -⟩
      cases run
  | ok a =>
    constructor
    · intro run
      exact ⟨a, rfl, run⟩
    · rintro ⟨_, same, run⟩
      cases same
      exact run

lemma func_of_addBlock {h : Graph} {i : Nat} (run : Graph.addBlock m g i = .ok h) : h.func = g.func := by
  obtain ⟨js, -, rfl⟩ := Graph.addBlock_ok.1 run
  exact (Graph.foldl_addUser _ _ g).1

lemma Alike.ofFunc_ok (alike : m.Alike c) (closed : m.Closed) (listed : f ∈ m.funcs) :
    Graph.ofFunc c f = .ok g ↔ Graph.ofFunc m f = .ok g := by
  have folded : ∀ (is : List Nat) (g h : Graph), (∀ i ∈ is, i < f.blocks.size) → g.func = f →
      (is.foldlM (Graph.addBlock c) g = .ok h ↔ is.foldlM (Graph.addBlock m) g = .ok h) := by
    intro is
    induction is with
    | nil => exact fun _ _ _ _ => Iff.rfl
    | cons i is ih =>
      intro g h below func
      have first : ∀ g', Graph.addBlock c g i = .ok g' ↔ Graph.addBlock m g i = .ok g' := fun g' =>
        Alike.addBlock_ok alike closed listed func (below i mem_cons_self)
      have rest : ∀ g', Graph.addBlock m g i = .ok g' →
          (is.foldlM (Graph.addBlock c) g' = .ok h ↔ is.foldlM (Graph.addBlock m) g' = .ok h) := fun g' run =>
        ih g' h (fun j mem => below j (mem_cons_of_mem i mem)) ((func_of_addBlock run).trans func)
      rw [foldlM_cons, foldlM_cons, bind_eq_ok_iff, bind_eq_ok_iff]
      constructor
      · rintro ⟨g', run, later⟩
        exact ⟨g', (first g').1 run, (rest g' ((first g').1 run)).1 later⟩
      · rintro ⟨g', run, later⟩
        exact ⟨g', (first g').2 run, (rest g' run).2 later⟩
  unfold Graph.ofFunc
  dsimp only
  rw [bind_eq_ok_iff, bind_eq_ok_iff]
  apply exists_congr
  intro h
  rw [folded _ _ h (fun i mem => mem_range.1 mem) rfl]

/-! ## Observability -/

lemma Alike.isNonZero_eq (alike : m.Alike c) (inside : v < m.defs.size) : isNonZero c v = isNonZero m v := by
  obtain ⟨d, n, here, there⟩ := alike.renamed inside
  unfold isNonZero
  rw [here, there]
  cases d <;> rfl

lemma Alike.constIndex_eq (alike : m.Alike c) (inside : v < m.defs.size) :
    Analysis.constIndex c v = Analysis.constIndex m v := by
  obtain ⟨d, n, here, there⟩ := alike.renamed inside
  unfold Analysis.constIndex
  rw [here, there]
  cases d with
  | const t k =>
    cases k with
    | int n =>
      dsimp only [Def.setName]
      rw [alike.resolve]
    | _ => rfl
  | _ => rfl

lemma Alike.isSpeculatableInst_eq (alike : m.Alike c) {i : Inst ValueId}
    (inside : ∀ x ∈ i.operands, x < m.defs.size) : isSpeculatableInst c i = isSpeculatableInst m i := by
  cases i with
  | arith op flags x y =>
    have there : y < m.defs.size := inside y (by simp [Inst.operands])
    have nonZero := Alike.isNonZero_eq alike there
    have allOnes : isAllOnes c y = isAllOnes m y := by
      unfold isAllOnes
      rw [Alike.constIndex_eq alike there]
    cases op <;> simp only [isSpeculatableInst, nonZero, allOnes]
  | _ => rfl

lemma Alike.isSpeculatable_eq (alike : m.Alike c) (closed : m.Closed) (inside : v < m.defs.size) :
    isSpeculatable c v = isSpeculatable m v := by
  obtain ⟨d, n, here, there⟩ := alike.renamed inside
  unfold isSpeculatable
  rw [here, there]
  cases d with
  | inst n t i trail => exact Alike.isSpeculatableInst_eq alike (closed.reads v _ here)
  | _ => rfl

lemma Alike.observableFrom_eq (alike : m.Alike c) (closed : m.Closed)
    (users : ∀ v, ∀ u ∈ g.usersOf v, u < m.defs.size) (fuel : Nat) (seen : Std.HashSet ValueId) (stack : List ValueId)
    (inside : ∀ u ∈ stack, u < m.defs.size) : observableFrom c g fuel seen stack = observableFrom m g fuel seen stack := by
  induction fuel generalizing seen stack with
  | zero => rfl
  | succ fuel ih =>
    cases stack with
    | nil => rfl
    | cons u stack =>
      have later : ∀ w ∈ stack, w < m.defs.size := fun w mem => inside w (mem_cons_of_mem u mem)
      unfold observableFrom
      rw [Alike.isSpeculatable_eq alike closed (inside u mem_cons_self), ih seen stack later]
      rw [ih (seen.insert u) ((g.usersOf u).reverse ++ stack)]
      intro w mem
      rcases mem_append.1 mem with new | old
      · exact users u w (mem_reverse.1 new)
      · exact later w old

lemma Alike.observable_eq (alike : m.Alike c) (closed : m.Closed) (listed : f ∈ m.funcs)
    (graph : Graph.ofFunc m f = .ok g) (v : ValueId) : observable c g v = observable m g v := by
  have users : ∀ v, ∀ u ∈ g.usersOf v, u < m.defs.size := fun v u mem =>
    closed.lists listed ((Graph.mem_usersOf graph).1 mem).2.1
  have func : g.func = f := (Graph.laid_of_ofFunc graph).1.func
  have count : useCount c g = useCount m g := by
    unfold useCount
    congr 1
    apply flatMap_congr
    intro b there
    apply flatMap_congr
    intro u mem
    rw [func] at there
    exact Alike.operandsOf_eq alike (closed.lists listed (mem_listing (Array.mem_toList_iff.1 there) mem))
  unfold observable
  rw [count]
  exact Alike.observableFrom_eq alike closed users _ _ _ fun u mem => users v u (mem_reverse.1 mem)

end Faultline.Instrument
