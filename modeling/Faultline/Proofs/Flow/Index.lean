/-
# Proofs.Flow.Index — what a graph knows of its function

A function whose terminators name its own blocks has a graph, and the graph tells what
the function says (`ofFunc_faithful`): where control may go next, in the order in which
the terminator names it, and where it may come from; the position of an instruction or
terminator, and the block it is in; who uses a result, once for each time.

Users are found by the operands that are listed. They are all that read a result just
where none reads it with attributes or under a tag (`Overlooked`).
-/
import Faultline.Proofs.Instrument.Observable

namespace Faultline.Flow.Graph

open IR (Module Func ValueId)
open Instrument (bare tagged)
open List

variable {m : Module} {f : Func} {g : Graph} {u v : ValueId} {b c i : Nat}

/-! ## First occurrences -/

section Firsts

variable {α β : Type} [DecidableEq α] [DecidableEq β]

lemma eraseDups_concat (l : List α) (x : α) :
    (l ++ [x]).eraseDups = if x ∈ l then l.eraseDups else l.eraseDups ++ [x] := by
  rw [eraseDups_append]
  split
  · next old => simp [removeAll, old]
  · next new => simp [removeAll, new, eraseDups_cons]

lemma pairwise_eraseDups (l : List α) : l.eraseDups.Pairwise fun x y => l.idxOf x < l.idxOf y := by
  induction l using reverseRecOn with
  | nil => exact .nil
  | append_singleton l x ih =>
    have kept : l.eraseDups.Pairwise fun y z => (l ++ [x]).idxOf y < (l ++ [x]).idxOf z := by
      refine ih.imp_of_mem fun {y z} memY memZ less => ?_
      rwa [idxOf_append_of_mem (mem_eraseDups.1 memY), idxOf_append_of_mem (mem_eraseDups.1 memZ)]
    rw [eraseDups_concat]
    split
    · exact kept
    · next new =>
      refine pairwise_append.2 ⟨kept, pairwise_singleton _ _, fun y mem z last => ?_⟩
      rw [List.mem_singleton.1 last, idxOf_append_of_mem (mem_eraseDups.1 mem), idxOf_append_of_notMem new]
      exact (idxOf_lt_length_of_mem (mem_eraseDups.1 mem)).trans_le (Nat.le_add_right _ _)

lemma eraseDups_map {key : α → β} {l : List α} (inj : ∀ x ∈ l, ∀ y ∈ l, key x = key y → x = y) :
    (l.map key).eraseDups = l.eraseDups.map key := by
  induction l using reverseRecOn with
  | nil => rfl
  | append_singleton l x ih =>
    have inj' : ∀ y ∈ l, key y = key x → y = x := fun y mem => inj y (mem_append_left _ mem) x (by simp)
    have known : key x ∈ l.map key ↔ x ∈ l := by
      refine ⟨fun mem => ?_, mem_map_of_mem⟩
      obtain ⟨y, mem, same⟩ := List.mem_map.1 mem
      exact inj' y mem same ▸ mem
    have rest := ih fun y memY z memZ => inj y (mem_append_left _ memY) z (mem_append_left _ memZ)
    rw [map_append, map_singleton, eraseDups_concat, eraseDups_concat, rest]
    simp only [known]
    split
    · rfl
    · rw [map_append, map_singleton]

end Firsts

/-! ## Graphs that exist -/

/-- Terminators name blocks of their own function. -/
def OwnTargets (m : Module) (f : Func) : Prop :=
  ∀ b < f.blocks.size, ∀ v ∈ targets m (f.blocks.getD b default), ∃ c < f.blocks.size, (f.blocks.getD c default).id = v

lemma exists_ofFunc (own : OwnTargets m f) : ∃ g, ofFunc m f = .ok g := by
  have folded : ∀ k ≤ f.blocks.size, ∃ g, (List.range k).foldlM (addBlock m) { func := f, index := numbering f } = .ok g := by
    intro k
    induction k with
    | zero => exact fun _ => ⟨_, rfl⟩
    | succ k ih =>
      intro below
      obtain ⟨g, run⟩ := ih (Nat.le_of_succ_le below)
      have laid := Laid.blocks run
      have block : g.block k = f.blocks.getD k default := by rw [Graph.block, laid.func]
      have numbers : Forall₂ (fun v c => g.index[v]? = some c) (targets m (g.block k))
          ((targets m (g.block k)).map fun v => g.index.getD v 0) := by
        refine forall₂_map_right_iff.2 (forall₂_same.2 fun v named => ?_)
        obtain ⟨c, inside, rfl⟩ := own k below v (block ▸ named)
        obtain ⟨j, number⟩ := exists_numbering inside
        rw [← laid.index] at number
        rw [Std.HashMap.getD_eq_getD_getElem?, number, Option.getD_some]
      obtain ⟨h, added⟩ : ∃ h, addBlock m g k = .ok h := ⟨_, addBlock_ok.2 ⟨_, numbers, rfl⟩⟩
      refine ⟨h, ?_⟩
      rw [List.range_succ, List.foldlM_append, run]
      simp [added, bind, Except.bind, pure, Except.pure]
  obtain ⟨g, run⟩ := folded f.blocks.size le_rfl
  exact ⟨_, ofFunc_ok.2 ⟨g, run, rfl⟩⟩

/-! ## Edges -/

def namesOf (f : Func) (bs : List Nat) : List ValueId :=
  bs.map fun b => (f.blocks.getD b default).id

lemma namesOf_succsOf (run : ofFunc m f = .ok g) (below : b < f.blocks.size) :
    namesOf f (g.succsOf b) = (targets m (f.blocks.getD b default)).eraseDups := by
  obtain ⟨laid, -⟩ := laid_of_ofFunc run
  obtain ⟨js, known, same⟩ := laid.edges b below
  have named : targets m (f.blocks.getD b default) = namesOf f js := by
    refine forall₂_eq_eq_eq ▸ forall₂_map_right_iff.2 (known.imp fun v c number => ?_)
    exact (of_numbering (laid.index ▸ number)).2.symm
  have numbered : ∀ c ∈ js, g.index[(f.blocks.getD c default).id]? = some c := by
    intro c mem
    obtain ⟨v, -, number⟩ := ((mem_of_forall₂ known).2 c).1 mem
    rwa [(of_numbering (laid.index ▸ number)).2]
  rw [same, named]
  refine (eraseDups_map fun c mem c' mem' one => ?_).symm
  rw [← Option.some.injEq, ← numbered c mem, ← numbered c' mem', one]

lemma pairwise_predsOf (run : ofFunc m f = .ok g) (c : Nat) : (g.predsOf c).Pairwise (· < ·) := by
  rw [Graph.predsOf, (laid_of_ofFunc run).2, Array.getD_eq_getD_getElem?]
  by_cases below : c < f.blocks.size
  · have listed : (predecessors g.succs c).Pairwise (· < ·) := pairwise_lt_range.filter _
    simpa [below] using listed
  · simp [below]

/-! ## Places -/

/-- The instructions and terminators with the blocks they are in. -/
def placed (f : Func) : List (ValueId × Nat) :=
  (List.range f.blocks.size).flatMap fun b => (entries (f.blocks.getD b default)).map fun v => (v, b)

lemma mem_placed : (v, b) ∈ placed f ↔ b < f.blocks.size ∧ v ∈ entries (f.blocks.getD b default) := by
  simp [placed]

lemma pairwise_placed (f : Func) : (placed f).Pairwise fun p q => p.2 ≤ q.2 := by
  refine pairwise_flatMap.2 ⟨fun b _ => ?_, pairwise_lt_range.imp fun {b c} less p mem q mem' => ?_⟩
  · exact pairwise_map.2 (pairwise_of_forall fun _ _ => le_rfl)
  · obtain ⟨-, -, rfl⟩ := List.mem_map.1 mem
    obtain ⟨-, -, rfl⟩ := List.mem_map.1 mem'
    exact less.le

lemma getElem?_placed (run : ofFunc m f = .ok g) (i : Nat) :
    (placed f)[i]? = some (v, b) ↔ (listing f)[i]? = some v ∧ g.blockOf[i]? = some b := by
  have places := (laid_of_ofFunc run).1.places
  have values : (placed f).map Prod.fst = listing f := by
    rw [listing, ← flatMap_range_getD]
    simp [placed, map_flatMap, Function.comp_def]
  have blocks : (placed f).map Prod.snd = g.blockOf.toList := by
    rw [places]
    simp [placed, map_flatMap, Function.comp_def]
  rw [← values, ← Array.getElem?_toList, ← blocks, getElem?_map, getElem?_map]
  rcases (placed f)[i]? with _ | p
  · simp
  · simp [Prod.ext_iff]

/-- An instruction or terminator is in the last block that holds it. -/
lemma blockOf?_eq (run : ofFunc m f = .ok g) : g.blockOf? v = some b ↔
    (v, b) ∈ placed f ∧ ∀ c, (v, c) ∈ placed f → c ≤ b := by
  have numbered := numbered_of_ofFunc run
  have last (b : Nat) (found : g.blockOf? v = some b) : (v, b) ∈ placed f ∧ ∀ c, (v, c) ∈ placed f → c ≤ b := by
    obtain ⟨i, number, place⟩ := Option.bind_eq_some_iff.1 found
    obtain ⟨there, later⟩ := numbered.last v i number
    have here := (getElem?_placed run i).2 ⟨there, place⟩
    refine ⟨List.mem_of_getElem? here, fun c mem => ?_⟩
    obtain ⟨j, found⟩ := List.mem_iff_getElem?.1 mem
    have before : j ≤ i := Nat.le_of_not_lt fun above => later j above ((getElem?_placed run j).1 found).1
    rcases before.lt_or_eq with less | rfl
    · obtain ⟨inside, same⟩ := List.getElem?_eq_some_iff.1 here
      obtain ⟨inside', same'⟩ := List.getElem?_eq_some_iff.1 found
      simpa [same, same'] using pairwise_iff_getElem.1 (pairwise_placed f) j i inside' inside less
    · cases here.symm.trans found
      exact le_rfl
  refine ⟨last b, fun ⟨mem, greatest⟩ => ?_⟩
  obtain ⟨j, found⟩ := List.mem_iff_getElem?.1 mem
  obtain ⟨i, number⟩ := numbered.known v (List.mem_of_getElem? ((getElem?_placed run j).1 found).1)
  have inside : i < g.blockOf.size := by
    rw [numbered.size]
    exact (List.getElem?_eq_some_iff.1 (numbered.last v i number).1).1
  have there : g.blockOf? v = some g.blockOf[i] :=
    Option.bind_eq_some_iff.2 ⟨i, number, Array.getElem?_eq_getElem inside⟩
  obtain ⟨mem', above⟩ := last _ there
  rw [there, Nat.le_antisymm (greatest _ mem') (above b mem)]

/-! ## Users -/

/-- What an instruction or terminator reads: its operands, without their attributes, and the values under its tags. -/
def reads (m : Module) (u : ValueId) : List ValueId :=
  (operandsOf m u).map (bare m) ++ tagged m u

/-- `u` reads `v` with attributes or under a tag. -/
def Overlooked (m : Module) (v u : ValueId) : Prop :=
  v ∈ tagged m u ∨ ∃ x ∈ operandsOf m u, x ≠ v ∧ bare m x = v

lemma count_reads_iff (result : isResult m v) :
    (reads m u).count v = (operandsOf m u).count v ↔ ¬ Overlooked m v u := by
  have apart (xs : List ValueId) :
      (xs.map (bare m)).count v = xs.count v + xs.countP fun x => decide (x ≠ v ∧ bare m x = v) := by
    induction xs with
    | nil => rfl
    | cons x xs ih =>
      rw [map_cons, count_cons, count_cons, countP_cons, ih]
      by_cases same : x = v
      · subst same
        simp [Instrument.bare_of_isResult result]
        omega
      · simp [same]
        omega
  rw [reads, count_append, apart]
  constructor
  · rintro same (under | ⟨x, mem, other, inner⟩)
    · have := count_pos_iff.2 under
      omega
    · have : 0 < (operandsOf m u).countP fun x => decide (x ≠ v ∧ bare m x = v) :=
        countP_pos_iff.2 ⟨x, mem, by simp [other, inner]⟩
      omega
  · intro none
    have first : (operandsOf m u).countP (fun x => decide (x ≠ v ∧ bare m x = v)) = 0 :=
      countP_eq_zero.2 fun x mem found => none (.inr ⟨x, mem, of_decide_eq_true found⟩)
    have second : (tagged m u).count v = 0 := count_eq_zero.2 fun mem => none (.inl mem)
    omega

lemma count_flatMap_replicate (us : List ValueId) (times : ValueId → Nat) (x : ValueId) :
    (us.flatMap fun u => List.replicate (times u) u).count x = us.count x * times x := by
  induction us with
  | nil => simp
  | cons u us ih =>
    rw [flatMap_cons, count_append, ih, count_replicate, count_cons]
    by_cases same : u = x
    · subst same
      simp [Nat.add_mul, Nat.add_comm]
    · simp [same]

lemma usersOf_eq_reads_iff (run : ofFunc m f = .ok g) (result : isResult m v) :
    (g.usersOf v = (listing f).flatMap fun u => List.replicate ((reads m u).count v) u) ↔
      ∀ u ∈ listing f, ¬ Overlooked m v u := by
  rw [usersOf_eq run, readers, if_pos result]
  constructor
  · intro same u mem
    refine (count_reads_iff result).1 ?_
    have counts := congrArg (count u) same
    rw [count_flatMap_replicate, count_flatMap_replicate] at counts
    exact (Nat.eq_of_mul_eq_mul_left (count_pos_iff.2 mem) counts).symm
  · intro none
    exact flatMap_congr fun u mem => by rw [(count_reads_iff result).2 (none u mem)]

/-! ## The index -/

/-- The graph tells what the function says. Of what is listed twice, the last place counts. -/
structure Faithful (m : Module) (f : Func) (g : Graph) : Prop where
  inside : ∀ b, ∀ c ∈ g.succsOf b, b < f.blocks.size ∧ c < f.blocks.size
  targets : ∀ b < f.blocks.size, ∀ v, v ∈ namesOf f (g.succsOf b) ↔ v ∈ targets m (f.blocks.getD b default)
  order : ∀ b < f.blocks.size, (namesOf f (g.succsOf b)).Pairwise fun u v =>
    (Graph.targets m (f.blocks.getD b default)).idxOf u < (Graph.targets m (f.blocks.getD b default)).idxOf v
  preds : ∀ c < f.blocks.size, (g.predsOf c).Pairwise (· < ·) ∧ ∀ b, b ∈ g.predsOf c ↔ c ∈ g.succsOf b
  numbers : ∀ v i, g.id? v = some i ↔ (listing f)[i]? = some v ∧ ∀ j, i < j → (listing f)[j]? ≠ some v
  blocks : ∀ v b, g.blockOf? v = some b ↔ (v, b) ∈ placed f ∧ ∀ c, (v, c) ∈ placed f → c ≤ b
  users : ∀ v, isResult m v →
    g.usersOf v = (listing f).flatMap fun u => List.replicate ((operandsOf m u).count v) u
  readers : ∀ v, isResult m v → ((g.usersOf v = (listing f).flatMap fun u => List.replicate ((reads m u).count v) u) ↔
    ∀ u ∈ listing f, ¬ Overlooked m v u)

/-- **The index of a function.** A function whose terminators name its own blocks has a graph. The successors of a block
are the blocks that its terminator names, each once, in the order in which they are named first; predecessors are the
converse, ascending. Instructions and terminators have the numbers of their positions, and the blocks that hold them. The
users of a result are those that list it as an operand, in order and once for each time; they are all that read it if
and only if none reads it with attributes or under a tag. -/
theorem ofFunc_faithful (own : OwnTargets m f) : ∃ g, ofFunc m f = .ok g ∧ Faithful m f g := by
  obtain ⟨g, run⟩ := exists_ofFunc own
  obtain ⟨laid, -⟩ := laid_of_ofFunc run
  have size : g.size = f.blocks.size := by rw [Graph.size, laid.func]
  have numbered := numbered_of_ofFunc run
  refine ⟨g, run, ⟨fun b c edge => ?_, fun b below v => ?_, fun b below => ?_, fun c below => ?_, fun v i => ?_,
    fun v b => blockOf?_eq run, fun v result => ?_, fun v result => usersOf_eq_reads_iff run result⟩⟩
  · have below := size ▸ lt_of_mem_succsOf run edge
    obtain ⟨v, -, number⟩ := (laid.succs b below c).1 edge
    exact ⟨below, (of_numbering (laid.index ▸ number)).1⟩
  · rw [namesOf_succsOf run below, mem_eraseDups]
  · rw [namesOf_succsOf run below]
    exact pairwise_eraseDups _
  · exact ⟨pairwise_predsOf run c, fun b => mem_predsOf run (size ▸ below)⟩
  · refine ⟨numbered.last v i, fun found => ?_⟩
    obtain ⟨here, later⟩ := found
    obtain ⟨j, number⟩ := numbered.known v (List.mem_of_getElem? here)
    obtain ⟨there, beyond⟩ := numbered.last v j number
    rcases Nat.lt_trichotomy i j with less | rfl | more
    · exact absurd there (later j less)
    · exact number
    · exact absurd here (beyond i more)
  · rw [usersOf_eq run, Graph.readers, if_pos result]

/-- A number is squared and switched on, with targets named more than once. -/
def switchingFunc : Func where
  id := 3
  name := []
  result := .int 8
  params := [⟨4, ""⟩]
  blocks := #[⟨5, #[9, 10], some 11⟩, ⟨6, #[], some 12⟩, ⟨7, #[], some 13⟩]

def switching : Module where
  defs := IR.shared ++ #[.func (.number 0) .void, .param (.number 0) (.int 8), .block (.number 1), .block (.number 4),
    .block (.number 5), .const (.int 8) (.int 1), .inst (.number 2) (.int 8) (.arith .add [] 4 8) [],
    .inst (.number 3) (.int 8) (.arith .mul [] 9 9) [], .term (.number 0) .void (.switch 10 7 [(8, 6), (4, 7), (9, 6)]) [],
    .term (.number 0) .void (.br 7) [], .term (.number 0) .void (.ret (some 9)) []]
  funcs := #[switchingFunc]

theorem ofFunc_faithful_switching : ∃ g, ofFunc switching switchingFunc = .ok g ∧ g.usersOf 9 = [10, 10, 13] ∧
    g.id? 13 = some 4 ∧ g.blockOf? 13 = some 2 ∧ (∀ v, v ∈ namesOf switchingFunc (g.succsOf 0) ↔ v ∈ [7, 6, 7, 6]) ∧
    (g.predsOf 2).Pairwise (· < ·) := by
  have own : OwnTargets switching switchingFunc := by
    unfold OwnTargets
    decide
  obtain ⟨g, run, faithful⟩ := ofFunc_faithful own
  refine ⟨g, run, (faithful.users 9 rfl).trans (by decide), (faithful.numbers 13 4).2 ⟨rfl, fun j above => ?_⟩,
    (faithful.blocks 13 2).2 ⟨by decide, fun c mem => ?_⟩, faithful.targets 0 (by decide), (faithful.preds 2 (by decide)).1⟩
  · have beyond : (listing switchingFunc)[j]? = none := List.getElem?_eq_none above
    simp [beyond]
  · exact Nat.le_of_lt_succ (mem_placed.1 mem).1

/-- The call reads the sum, which has no users. -/
theorem reader_overlooked : ∃ g, ofFunc Instrument.extending Instrument.extendingFunc = .ok g ∧
    isResult Instrument.extending 8 ∧ 10 ∈ listing Instrument.extendingFunc ∧ 8 ∈ reads Instrument.extending 10 ∧
    g.usersOf 8 = [] := by
  have run : ofFunc Instrument.extending Instrument.extendingFunc = .ok _ := rfl
  exact ⟨_, run, rfl, by decide, by decide, (usersOf_eq run 8).trans (by decide)⟩

end Faultline.Flow.Graph
