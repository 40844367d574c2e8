/-
# Proofs.Flow.Graph — the edges and the numbers of a function graph

The successors of a block are the numbers of the blocks its terminator names, and
predecessors are the converse relation (`mem_predsOf`). The number of an instruction
or terminator is its last position in the listing of the function, so numbers ascend
along the listing with each value at its last position (`ascending_listing`). The
users of a result are those of the listing that read it, once for each time
(`usersOf_eq`).
-/
import Faultline.Flow.Graph
import Mathlib

namespace Faultline.Flow.Graph

open IR (Module Func Block ValueId)
open List Array

variable {m : Module} {f : Func} {g h : Graph} {k : Nat} {u v : ValueId} {listed : List ValueId} {b c i : Nat}
  {α β : Type}

def numbering (f : Func) : Std.HashMap ValueId Nat :=
  (List.range f.blocks.size).foldl (fun index i => index.insert (f.blocks.getD i default).id i) ∅

def entries (b : Block) : List ValueId :=
  b.insts.toList ++ b.term.toList

/-- The instructions and terminators of a function, in program order. -/
def listing (f : Func) : List ValueId :=
  f.blocks.toList.flatMap entries

/-- The value is one whose uses are recorded. -/
def isResult (m : Module) (v : ValueId) : Bool :=
  match m.get? v with
  | some (.inst _ _ _ _) => true
  | _ => false

/-- Those of the listed that read a result, once for each time they do. -/
def readers (m : Module) (listed : List ValueId) (v : ValueId) : List ValueId :=
  if isResult m v then listed.flatMap fun u => List.replicate ((operandsOf m u).count v) u else []

/-- The listed values are numbered by their last positions. -/
structure Numbered (listed : List ValueId) (g : Graph) : Prop where
  size : g.blockOf.size = listed.length
  known : ∀ v ∈ listed, ∃ i, g.id? v = some i
  last : ∀ v i, g.id? v = some i → listed[i]? = some v ∧ ∀ j, i < j → listed[j]? ≠ some v

lemma addUse_eq (user : ValueId) (users : Std.HashMap ValueId (List ValueId)) (v : ValueId) :
    addUse m user users v = if isResult m v then users.insert v (users.getD v [] ++ [user]) else users := by
  unfold addUse isResult
  rcases m.get? v with _ | d
  · rfl
  · cases d <;> rfl

lemma getD_foldl_addUse (user : ValueId) (vs : List ValueId) (users : Std.HashMap ValueId (List ValueId)) (v : ValueId) :
    (vs.foldl (addUse m user) users).getD v [] =
      users.getD v [] ++ if isResult m v then List.replicate (vs.count v) user else [] := by
  induction vs generalizing users with
  | nil => simp
  | cons w vs ih =>
    rw [foldl_cons, ih]
    have here : (addUse m user users w).getD v [] =
        users.getD v [] ++ if isResult m v ∧ w = v then [user] else [] := by
      rw [addUse_eq]
      by_cases same : w = v
      · subst same
        split <;> simp [*]
      · split <;> simp [Std.HashMap.getD_insert, same]
    rw [here, List.append_assoc, count_cons]
    by_cases result : isResult m v
    · by_cases same : w = v
      · simp [result, same, List.replicate_succ]
      · simp [result, same]
    · simp [result]

lemma readers_append (listed more : List ValueId) (v : ValueId) :
    readers m (listed ++ more) v = readers m listed v ++ readers m more v := by
  unfold readers
  split
  · rw [List.flatMap_append]
  · rfl

lemma usersOf_foldl (b : Nat) (vs : List ValueId) (g : Graph) (v : ValueId) :
    (vs.foldl (addUser m b) g).usersOf v = g.usersOf v ++ readers m vs v := by
  induction vs generalizing g with
  | nil => simp [readers]
  | cons u vs ih =>
    have first : (addUser m b g u).usersOf v = g.usersOf v ++ readers m [u] v := by
      refine (getD_foldl_addUse u (operandsOf m u) g.users v).trans ?_
      simp [readers, usersOf]
    rw [foldl_cons, ih, first, List.append_assoc, ← readers_append]
    rfl

lemma Numbered.addUser (numbered : Numbered listed g) (b : Nat) (v : ValueId) :
    Numbered (listed ++ [v]) (addUser m b g v) := by
  have number : ∀ w, (Graph.addUser m b g v).id? w = if v = w then some listed.length else g.id? w := by
    intro w
    show (g.ids.insert v g.blockOf.size)[w]? = _
    rw [Std.HashMap.getElem?_insert, numbered.size]
    simp only [beq_iff_eq]
    rfl
  refine ⟨?_, fun w mem => ?_, fun w i found => ?_⟩
  · show (g.blockOf.push b).size = _
    rw [size_push, numbered.size, length_append]
    rfl
  · rw [number]
    split
    · exact ⟨_, rfl⟩
    next other =>
      refine numbered.known w ?_
      rcases List.mem_append.1 mem with old | new
      · exact old
      · exact absurd (List.mem_singleton.1 new).symm other
  · rw [number] at found
    split at found
    -- the value is now listed last, so nothing comes after it
    next same =>
      cases found
      cases same
      refine ⟨by simp, fun j above => ?_⟩
      rw [List.getElem?_eq_none (by simp; omega)]
      exact Option.some_ne_none v |>.symm
    next other =>
      obtain ⟨here, later⟩ := numbered.last w i found
      have inside : i < listed.length := (List.getElem?_eq_some_iff.1 here).1
      refine ⟨by rw [List.getElem?_append_left inside, here], fun j above => ?_⟩
      rcases Nat.lt_trichotomy j listed.length with low | rfl | high
      · rw [List.getElem?_append_left low]
        exact later j above
      · simpa using other
      · rw [List.getElem?_eq_none (by simp; omega)]
        exact Option.some_ne_none w |>.symm

lemma Numbered.foldl (numbered : Numbered listed g) (b : Nat) (vs : List ValueId) :
    Numbered (listed ++ vs) (vs.foldl (Graph.addUser m b) g) := by
  induction vs generalizing listed g with
  | nil => simpa using numbered
  | cons v vs ih => simpa using ih (numbered.addUser b v)

/-- The first `k` blocks of `f` have been added to the graph. -/
structure Laid (m : Module) (f : Func) (k : Nat) (g : Graph) : Prop where
  func : g.func = f
  index : g.index = numbering f
  size : g.succs.size = k
  edges : ∀ b < k, ∃ js : List Nat, Forall₂ (fun v c => g.index[v]? = some c) (targets m (f.blocks.getD b default)) js ∧
    g.succsOf b = js.eraseDups
  places : g.blockOf.toList = (List.range k).flatMap fun b => (entries (f.blocks.getD b default)).map fun _ => b
  numbers : Numbered ((List.range k).flatMap fun b => entries (f.blocks.getD b default)) g
  users : ∀ v, g.usersOf v = readers m ((List.range k).flatMap fun b => entries (f.blocks.getD b default)) v

lemma foldl_addUser (b : Nat) (vs : List ValueId) (g : Graph) :
    (vs.foldl (addUser m b) g).func = g.func ∧ (vs.foldl (addUser m b) g).index = g.index ∧
      (vs.foldl (addUser m b) g).succs = g.succs := by
  induction vs generalizing g with
  | nil => exact ⟨rfl, rfl, rfl⟩
  | cons v vs ih => exact ih (addUser m b g v)

lemma blockOf_foldl (b : Nat) (vs : List ValueId) (g : Graph) :
    (vs.foldl (addUser m b) g).blockOf.toList = g.blockOf.toList ++ vs.map fun _ => b := by
  induction vs generalizing g with
  | nil => simp
  | cons v vs ih =>
    rw [foldl_cons, ih]
    simp [addUser]

lemma mapM_ok {ε : Type} {step : α → Except ε β} {xs : List α} {ys : List β} :
    xs.mapM step = .ok ys ↔ Forall₂ (fun x y => step x = .ok y) xs ys := by
  induction xs generalizing ys with
  | nil => cases ys <;> simp [pure, Except.pure]
  | cons x xs ih =>
    rw [mapM_cons, forall₂_cons_left_iff]
    rcases first : step x with e | y
    · simp [bind, Except.bind]
    · rcases rest : xs.mapM step with e | zs
      · simp [bind, Except.bind, ← ih, rest]
      · simp [bind, Except.bind, pure, Except.pure, ← ih, rest, eq_comm]

lemma mem_of_forall₂ {key : α → Option β} {xs : List α} {ys : List β}
    (found : Forall₂ (fun x y => key x = some y) xs ys) :
    (∀ x ∈ xs, ∃ y, key x = some y) ∧ ∀ y, y ∈ ys ↔ ∃ x ∈ xs, key x = some y := by
  induction found with
  | nil => simp
  | cons here _ ih =>
    refine ⟨?_, fun y => ?_⟩
    · rintro x (_ | ⟨_, listed⟩)
      · exact ⟨_, here⟩
      · exact ih.1 x listed
    · simp [ih.2 y, here, eq_comm]

lemma Laid.known (laid : Laid m f k g) :
    ∀ b < k, ∀ v ∈ targets m (f.blocks.getD b default), ∃ c, g.index[v]? = some c := by
  intro b below
  obtain ⟨js, known, -⟩ := laid.edges b below
  exact (mem_of_forall₂ known).1

lemma Laid.succs (laid : Laid m f k g) : ∀ b < k, ∀ c, c ∈ g.succsOf b ↔
    ∃ v ∈ targets m (f.blocks.getD b default), g.index[v]? = some c := by
  intro b below c
  obtain ⟨js, known, same⟩ := laid.edges b below
  rw [same, mem_eraseDups]
  exact (mem_of_forall₂ known).2 c

/-- The number of a target, which has to be a block of the function. -/
def targetIndex (m : Module) (g : Graph) (v : ValueId) : Except Fault Nat :=
  match g.index[v]? with
  | some j => pure j
  | none => throw (.foreignSuccessor ((m.identText v).getD "") ((m.identText g.func.id).getD ""))

lemma targetIndex_ok : targetIndex m g v = .ok c ↔ g.index[v]? = some c := by
  unfold targetIndex
  rcases g.index[v]? with _ | j
  · exact ⟨nofun, nofun⟩
  · exact ⟨fun same => by cases same; rfl, fun same => by cases same; rfl⟩

lemma addBlock_ok : addBlock m g b = .ok h ↔
    ∃ js : List Nat, Forall₂ (fun v c => g.index[v]? = some c) (targets m (g.block b)) js ∧
      h = { ((g.block b).insts.toList ++ (g.block b).term.toList).foldl (addUser m b) g with
        succs := g.succs.push js.eraseDups } := by
  obtain ⟨func, index, succs⟩ :=
    foldl_addUser (m := m) b ((g.block b).insts.toList ++ (g.block b).term.toList) g
  have unfolded : addBlock m g b = ((targets m (g.block b)).mapM (targetIndex m g)).bind fun js =>
      .ok { ((g.block b).insts.toList ++ (g.block b).term.toList).foldl (addUser m b) g with
        succs := g.succs.push js.eraseDups } := by
    rw [← succs]
    unfold addBlock targetIndex
    dsimp only
    rw [index, func]
    rfl
  rw [unfolded]
  rcases run : (targets m (g.block b)).mapM (targetIndex m g) with e | js
  · refine ⟨nofun, fun ⟨js, known, _⟩ => ?_⟩
    rw [mapM_ok.2 (known.imp fun _ _ => targetIndex_ok.2)] at run
    cases run
  · have known := (mapM_ok.1 run).imp fun _ _ => targetIndex_ok.1
    refine ⟨fun same => ?_, fun ⟨is, known', same⟩ => ?_⟩
    · cases same
      exact ⟨js, known, rfl⟩
    · rw [mapM_ok.2 (known'.imp fun _ _ => targetIndex_ok.2)] at run
      cases run
      rw [same]
      rfl

lemma Laid.addBlock (laid : Laid m f b g) (run : addBlock m g b = .ok h) : Laid m f (b + 1) h := by
  obtain ⟨js, known, rfl⟩ := addBlock_ok.1 run
  obtain ⟨func, index, -⟩ :=
    foldl_addUser (m := m) b ((g.block b).insts.toList ++ (g.block b).term.toList) g
  have block : g.block b = f.blocks.getD b default := by rw [Graph.block, laid.func]
  have numbers := laid.numbers.foldl (m := m) b (entries (g.block b))
  rw [block] at known
  refine ⟨func.trans laid.func, index.trans laid.index, ?_, fun c below => ?_, ?_, ?_, fun v => ?_⟩
  · show (g.succs.push js.eraseDups).size = b + 1
    rw [size_push, laid.size]
  · show ∃ js', _ ∧ (g.succs.push js.eraseDups).getD c [] = _
    rw [index]
    rcases Nat.lt_succ_iff_lt_or_eq.1 below with older | rfl
    · obtain ⟨js', known', same⟩ := laid.edges c older
      refine ⟨js', known', same ▸ ?_⟩
      rw [Graph.succsOf, getD_eq_getD_getElem?, getD_eq_getD_getElem?, getElem?_push_lt (laid.size ▸ older),
        Array.getElem?_eq_getElem (laid.size ▸ older)]
    · refine ⟨js, known, ?_⟩
      rw [← laid.size, getD_eq_getD_getElem?, getElem?_push_size, Option.getD_some]
  · rw [List.range_succ, List.flatMap_append, List.flatMap_singleton, ← laid.places, ← block]
    exact blockOf_foldl b (entries (g.block b)) g
  · rw [List.range_succ, List.flatMap_append, List.flatMap_singleton]
    rw [block] at numbers ⊢
    exact ⟨numbers.size, numbers.known, numbers.last⟩
  · rw [List.range_succ, List.flatMap_append, List.flatMap_singleton, readers_append, ← laid.users, ← block]
    exact usersOf_foldl b (entries (g.block b)) g v

lemma Laid.blocks (run : (List.range k).foldlM (Graph.addBlock m)
    { func := f, index := numbering f } = .ok g) : Laid m f k g := by
  induction k generalizing g with
  | zero =>
    cases run
    exact ⟨rfl, rfl, rfl, nofun, rfl, ⟨rfl, nofun, by simp [id?]⟩, by simp [usersOf, readers]⟩
  | succ k ih =>
    rw [List.range_succ, List.foldlM_append] at run
    rcases first : (List.range k).foldlM (Graph.addBlock m) { func := f, index := numbering f } with e | h
    · rw [first] at run
      cases run
    · rw [first] at run
      refine (ih first).addBlock ?_
      rcases last : Graph.addBlock m h k with e | h'
      · simp [last, bind, Except.bind] at run
      · simpa [last, bind, Except.bind, pure, Except.pure] using run

lemma ofFunc_ok : ofFunc m f = .ok g ↔
    ∃ h, (List.range f.blocks.size).foldlM (Graph.addBlock m) { func := f, index := numbering f } = .ok h ∧
      g = { h with preds := ((List.range f.blocks.size).map (predecessors h.succs)).toArray } := by
  have unfolded : ofFunc m f =
      ((List.range f.blocks.size).foldlM (Graph.addBlock m) { func := f, index := numbering f }).bind fun h =>
        .ok { h with preds := ((List.range f.blocks.size).map (predecessors h.succs)).toArray } := rfl
  rw [unfolded]
  rcases (List.range f.blocks.size).foldlM (Graph.addBlock m) { func := f, index := numbering f } with e | h
  · simp [Except.bind]
  · simp [Except.bind, eq_comm]

/-- A graph is that of a function if its blocks, added one after the other, make it up to the predecessors. -/
lemma ofFunc_of_blocks (preds : g.preds = ((List.range f.blocks.size).map (predecessors g.succs)).toArray)
    (blocks : (List.range f.blocks.size).foldlM (Graph.addBlock m) { func := f, index := numbering f } =
      .ok { g with preds := #[] }) : ofFunc m f = .ok g :=
  ofFunc_ok.2 ⟨_, blocks, by rw [← preds]⟩

lemma foldlM_cons_ok {ε : Type} {step : β → α → Except ε β} {a : α} {as : List α} {x y z : β} (first : step x a = .ok y)
    (rest : as.foldlM step y = .ok z) : (a :: as).foldlM step x = .ok z := by
  rw [List.foldlM_cons, first]
  exact rest

lemma laid_of_ofFunc (run : ofFunc m f = .ok g) : Laid m f f.blocks.size g ∧
    g.preds = ((List.range f.blocks.size).map (predecessors g.succs)).toArray := by
  obtain ⟨h, added, rfl⟩ := ofFunc_ok.1 run
  have blocks := Laid.blocks added
  have numbers := blocks.numbers
  exact ⟨⟨blocks.func, blocks.index, blocks.size, blocks.edges, blocks.places,
    ⟨numbers.size, numbers.known, numbers.last⟩, blocks.users⟩, rfl⟩

lemma lt_of_mem_succsOf (run : ofFunc m f = .ok g) (edge : c ∈ g.succsOf b) : b < g.size := by
  obtain ⟨laid, -⟩ := laid_of_ofFunc run
  rw [Graph.size, laid.func, ← laid.size]
  by_contra beyond
  rw [Graph.succsOf, getD_eq_getD_getElem?, Array.getElem?_eq_none (Nat.not_lt.1 beyond)] at edge
  cases edge

lemma mem_predsOf (run : ofFunc m f = .ok g) (below : c < g.size) : b ∈ g.predsOf c ↔ c ∈ g.succsOf b := by
  obtain ⟨laid, preds⟩ := laid_of_ofFunc run
  have there : c < f.blocks.size := laid.func ▸ below
  have listed : g.predsOf c = predecessors g.succs c := by
    rw [Graph.predsOf, preds, getD_eq_getD_getElem?]
    simp [there]
  rw [listed, predecessors, List.mem_filter, List.mem_range, List.contains_iff_mem, Graph.succsOf]
  refine ⟨fun h => h.2, fun edge => ⟨?_, edge⟩⟩
  rw [laid.size, ← laid.func]
  exact lt_of_mem_succsOf run edge

lemma of_numbering (found : (numbering f)[v]? = some i) :
    i < f.blocks.size ∧ (f.blocks.getD i default).id = v := by
  -- every entry is the position of a block with this value, from the first insertion on
  have entries : ∀ (is : List Nat) (index : Std.HashMap ValueId Nat),
      (∀ i ∈ is, i < f.blocks.size) →
      (∀ v i, index[v]? = some i → i < f.blocks.size ∧ (f.blocks.getD i default).id = v) →
      ∀ v i, (is.foldl (fun index i => index.insert (f.blocks.getD i default).id i) index)[v]? = some i →
        i < f.blocks.size ∧ (f.blocks.getD i default).id = v := by
    intro is
    induction is with
    | nil => exact fun index _ holds => holds
    | cons j is ih =>
      intro index below holds
      refine ih _ (fun i listed => below i (mem_cons_of_mem _ listed)) fun v i found => ?_
      rw [Std.HashMap.getElem?_insert] at found
      split at found
      next same =>
        cases found
        exact ⟨below j (mem_cons_self ..), beq_iff_eq.1 same⟩
      next => exact holds v i found
  exact entries _ ∅ (fun i listed => List.mem_range.1 listed) (fun v i found => by simp at found) v i found

lemma of_indexOf (run : ofFunc m f = .ok g) (found : g.indexOf m v = .ok i) :
    i < g.size ∧ (g.block i).id = v := by
  obtain ⟨laid, -⟩ := laid_of_ofFunc run
  unfold Graph.indexOf at found
  split at found
  next j there =>
    cases found
    rw [laid.index] at there
    rw [Graph.size, Graph.block, laid.func]
    exact of_numbering there
  next => cases found

lemma block_eq (below : i < g.func.blocks.size) : g.block i = g.func.blocks[i] := by
  rw [Graph.block, getD_eq_getD_getElem?, Array.getElem?_eq_getElem below]
  rfl

lemma block_of_le (outside : g.size ≤ i) : g.block i = default := by
  rw [Graph.block, getD_eq_getD_getElem?, Array.getElem?_eq_none outside]
  rfl

lemma mem_blocks {b : Block} (run : ofFunc m f = .ok g) : b ∈ f.blocks ↔ ∃ i < g.size, g.block i = b := by
  obtain rfl : g.func = f := (laid_of_ofFunc run).1.func
  constructor
  · intro mem
    obtain ⟨i, below, here⟩ := Array.getElem_of_mem mem
    exact ⟨i, below, (block_eq below).trans here⟩
  · rintro ⟨i, below, rfl⟩
    rw [block_eq below]
    exact Array.getElem_mem below

lemma exists_numbering (below : i < f.blocks.size) :
    ∃ j, (numbering f)[(f.blocks.getD i default).id]? = some j := by
  have kept : ∀ (is : List Nat) (index : Std.HashMap ValueId Nat) (v : ValueId),
      (∃ j, index[v]? = some j) ∨ (∃ i ∈ is, (f.blocks.getD i default).id = v) →
        ∃ j, (is.foldl (fun index i => index.insert (f.blocks.getD i default).id i) index)[v]? = some j := by
    intro is
    induction is with
    | nil =>
      intro index v either
      simpa using either
    | cons i is ih =>
      intro index v either
      refine ih _ v ?_
      rw [Std.HashMap.getElem?_insert]
      by_cases same : (f.blocks.getD i default).id = v
      · exact .inl ⟨i, if_pos (beq_iff_eq.2 same)⟩
      · rw [if_neg (by simpa using same)]
        refine either.imp id fun ⟨k, mem, here⟩ => ⟨k, ?_, here⟩
        rcases mem_cons.1 mem with rfl | later
        · exact absurd here same
        · exact later
  exact kept _ ∅ _ (.inr ⟨i, List.mem_range.2 below, rfl⟩)

/-- Where no two blocks are the same value, a block has the number of its position. -/
lemma index_block (run : ofFunc m f = .ok g) (distinct : (f.blocks.toList.map Block.id).Nodup)
    (below : i < g.size) : g.index[(g.block i).id]? = some i := by
  obtain ⟨laid, -⟩ := laid_of_ofFunc run
  rw [Graph.size, laid.func] at below
  rw [laid.index, Graph.block, laid.func]
  obtain ⟨j, found⟩ := exists_numbering below
  obtain ⟨below', same⟩ := of_numbering found
  have ids : ∀ {k : Nat} (low : k < f.blocks.size),
      (f.blocks.toList.map Block.id)[k]? = some (f.blocks.getD k default).id := by
    intro k low
    rw [List.getElem?_map, getElem?_toList, getD_eq_getD_getElem?, Array.getElem?_eq_getElem low]
    rfl
  have met := (ids below').trans ((congrArg some same).trans (ids below).symm)
  rw [found, (getElem?_inj (by simpa using below') distinct).1 met]

/-! ## Numbers -/

lemma flatMap_range_getD (blocks : Array Block) :
    ((List.range blocks.size).flatMap fun b => entries (blocks.getD b default)) = blocks.toList.flatMap entries := by
  rw [← List.flatMap_map (f := fun b => blocks.getD b default)]
  congr 1
  refine ext_getElem (by simp) fun i low _ => ?_
  simp at low
  simp [low]

lemma numbered_of_ofFunc (run : ofFunc m f = .ok g) : Numbered (listing f) g := by
  have numbers := (laid_of_ofFunc run).1.numbers
  rwa [flatMap_range_getD] at numbers

lemma usersOf_eq (run : ofFunc m f = .ok g) (v : ValueId) : g.usersOf v = readers m (listing f) v := by
  have users := (laid_of_ofFunc run).1.users v
  rwa [flatMap_range_getD] at users

lemma mem_usersOf (run : ofFunc m f = .ok g) :
    u ∈ g.usersOf v ↔ isResult m v ∧ u ∈ listing f ∧ v ∈ operandsOf m u := by
  rw [usersOf_eq run, readers]
  split
  next result => simp [result, List.mem_flatMap, List.mem_replicate, List.count_eq_zero]
  next other => simp [other]

def number (g : Graph) (v : ValueId) : Nat :=
  (g.id? v).getD 0

lemma Numbered.number_last (numbered : Numbered listed g) (mem : v ∈ listed) :
    listed[g.number v]? = some v ∧ ∀ j, g.number v < j → listed[j]? ≠ some v := by
  obtain ⟨i, found⟩ := numbered.known v mem
  have same : g.number v = i := by rw [number, found, Option.getD_some]
  rw [same]
  exact numbered.last v i found

/-- Last positions ascend along a list from which earlier repetitions are removed. -/
lemma pairwise_dedup {l : List ValueId} {last : ValueId → Nat}
    (spec : ∀ v ∈ l, l[last v]? = some v ∧ ∀ j, last v < j → l[j]? ≠ some v) :
    l.dedup.Pairwise fun u v => last u < last v := by
  induction l generalizing last with
  | nil => exact List.Pairwise.nil
  | cons x l ih =>
    have later : ∀ v ∈ l, 0 < last v := by
      intro v mem
      by_contra zero
      obtain ⟨i, inside, here⟩ := List.getElem_of_mem mem
      refine (spec v (mem_cons_of_mem x mem)).2 (i + 1) (by omega) ?_
      rw [getElem?_cons_succ, List.getElem?_eq_getElem inside, here]
    have shifted : l.dedup.Pairwise fun u v => last u - 1 < last v - 1 := by
      refine ih fun v mem => ?_
      obtain ⟨here, beyond⟩ := spec v (mem_cons_of_mem x mem)
      obtain ⟨i, same⟩ := Nat.exists_eq_succ_of_ne_zero (later v mem).ne'
      rw [same] at here beyond ⊢
      exact ⟨here, fun j above found => beyond (j + 1) (Nat.succ_lt_succ above) found⟩
    have rest : l.dedup.Pairwise fun u v => last u < last v := by
      refine shifted.imp_of_mem fun {u v} memU memV less => ?_
      have := later u (mem_dedup.1 memU)
      omega
    by_cases mem : x ∈ l
    · rwa [dedup_cons_of_mem mem]
    · rw [dedup_cons_of_notMem mem]
      refine pairwise_cons.2 ⟨fun v memV => ?_, rest⟩
      have zero : last x = 0 := by
        by_contra some
        obtain ⟨i, same⟩ := Nat.exists_eq_succ_of_ne_zero some
        have here := (spec x mem_cons_self).1
        rw [same, Nat.succ_eq_add_one, getElem?_cons_succ] at here
        exact mem (List.mem_of_getElem? here)
      rw [zero]
      exact later v (mem_dedup.1 memV)

lemma ascending_listing (run : ofFunc m f = .ok g) :
    (listing f).dedup.Pairwise fun u v => g.number u < g.number v :=
  pairwise_dedup fun _ mem => (numbered_of_ofFunc run).number_last mem

lemma number_inj (run : ofFunc m f = .ok g) (memU : u ∈ listing f) (memV : v ∈ listing f)
    (same : g.number u = g.number v) : u = v := by
  have numbered := numbered_of_ofFunc run
  have first := (numbered.number_last memU).1
  rw [same, (numbered.number_last memV).1] at first
  exact (Option.some.inj first).symm

end Faultline.Flow.Graph
