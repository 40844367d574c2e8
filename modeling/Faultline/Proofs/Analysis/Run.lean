/-
# Proofs.Analysis.Run — runs of a function

A run starts at the entry with the values that are there from the start. It computes
the instructions of a block one after the other: each gets the value its definition
says, or any word if the definition says nothing. The terminator decides which block
comes next; over the edge to it, which is none of the cut, the phis at its head get
the values that come in.

In a function of typed blocks that lists nothing twice, the values of a run hang
together, and let control reach the block where the run is (`Run.reaches`).
-/
import Faultline.Proofs.Analysis.Environment
import Faultline.Proofs.Analysis.Follow

namespace Faultline.Analysis

open IR (Module ValueId Ty Term)
open Flow.Graph (entries)
open Env (Within Extends)
open List Array Flow.Graph

variable {s : Setting} {env env' : Env} {v : ValueId} {a b n : Nat} {rest : List ValueId} {val : ValueId → Nat}
  {fn : IR.Func}

/-! ## Steps -/

/-- The terminator goes on to a block. -/
def Branches (env : Env) : Term ValueId → ValueId → Prop
  | .condBr c t e, dest => ∃ n, env c = some n ∧ dest = if n = 1 then t else e
  | .switch x d cases, dest => ∃ n, env x = some n ∧ (∀ arm ∈ cases, env arm.1 ≠ none) ∧
      dest = ((cases.find? fun arm => env arm.1 = some n).map Prod.snd).getD d
  | t, dest => dest ∈ t.succs

def isPhi (m : Module) (v : ValueId) : Bool :=
  match m.get? v with
  | some (.inst _ _ (.phi _ _ _) _) => true
  | _ => false

def heads (s : Setting) (b : Nat) : List ValueId :=
  (entries (s.graph.block b)).takeWhile (isPhi s.module)

def body (s : Setting) (b : Nat) : List ValueId :=
  (entries (s.graph.block b)).dropWhile (isPhi s.module)

/-- The phi gets a value that comes in from the block `source`; an undefined one may be anything. -/
def Gets (s : Setting) (env : Env) (source v : ValueId) (n : Nat) : Prop :=
  ∃ name t flags type incoming trail x, s.module.get? v = some (.inst name t (.phi flags type incoming) trail) ∧
    (x, source) ∈ incoming ∧ (isUndef s.module x = true ∨ env x = some n) ∧ ∀ w, HasBits s v w → n < 2 ^ w

/-- Control passes from `a` to `b`, and the phis of `b` get their values. -/
structure Jumps (s : Setting) (env : Env) (a b : Nat) (env' : Env) : Prop where
  edge : b ∈ s.graph.succsOf a
  uncut : s.cut.has a b = false
  goes : ∀ t, terminatorOf? s a = some t → Branches env t (s.graph.block b).id
  phis : ∀ v ∈ heads s b, ∃ n, env' v = some n ∧ Gets s env (s.graph.block a).id v n
  others : ∀ v, v ∉ heads s b → env' v = env v

/-- A run is at block `b`, with `rest` still to be computed there, and has the values of `env`. -/
inductive Run (s : Setting) : Nat → List ValueId → Env → Prop where
  | start {env : Env} (given : Consistent s env) (fresh : ∀ i, ∀ v ∈ entries (s.graph.block i), env v = none) :
      Run s 0 (entries (s.graph.block 0)) env
  | compute {b : Nat} {v : ValueId} {rest : List ValueId} {env : Env} {n : Nat} (before : Run s b (v :: rest) env)
      (value : MayBe s env v n) : Run s b rest (env.set v n)
  | jump {a b : Nat} {env env' : Env} (before : Run s a [] env) (jumps : Jumps s env a b env') : Run s b (body s b) env'

/-! ## Passing an edge -/

lemma Branches.goes {t : Term ValueId} (branches : Branches env t (s.graph.block b).id)
    (term : terminatorOf? s a = some t) (typed : TermTyped s t) (consistent : Consistent s env)
    (extends_ : Extends val env) : Goes s val a b := by
  unfold Goes
  rw [term]
  cases t with
  | condBr c t e =>
    obtain ⟨n, given, dest⟩ := branches
    have value : val c = n := extends_ c n given
    have small : n < 2 ^ 1 := (consistent c n given).bounded 1 typed.2
    by_cases one : n = 1
    · rw [if_pos one] at dest
      right
      rw [if_pos dest.symm, value]
      exact one
    · rw [if_neg one] at dest
      by_cases same : t = e
      · exact .inl same
      · right
        rw [if_neg (dest ▸ same), value]
        omega
  | switch x d cases =>
    obtain ⟨n, given, known, dest⟩ := branches
    have value : val x = n := extends_ x n given
    rcases found : cases.find? fun arm => decide (env arm.1 = some n) with _ | arm
    · rw [found] at dest
      right
      refine ⟨dest.symm, fun arm listed same => ?_⟩
      have other := List.find?_eq_none.1 found arm listed
      obtain ⟨k, there⟩ := Option.ne_none_iff_exists'.1 (known arm listed)
      rw [value, extends_ arm.1 k there] at same
      exact other (by simp [there, same])
    · rw [found] at dest
      left
      have matching : env arm.1 = some n := by simpa using List.find?_some found
      exact ⟨arm, List.mem_of_find?_eq_some found, dest.symm, value.trans (extends_ arm.1 n matching).symm⟩
  | ret | br | invoke | callbr | other => trivial

/-- For every phi and source, one value comes in. -/
def SingleIncoming (s : Setting) (v : ValueId) : Prop :=
  ∀ name t flags type incoming trail, s.module.get? v = some (.inst name t (.phi flags type incoming) trail) →
    ∀ x y source, (x, source) ∈ incoming → (y, source) ∈ incoming → x = y

lemma phisHold {source : ValueId} {insts : List ValueId} (single : ∀ v ∈ insts, SingleIncoming s v)
    (gets : ∀ v ∈ insts.takeWhile (isPhi s.module), ∃ n, env' v = some n ∧ Gets s env source v n)
    (before : Extends val env) (after : Extends val env') : PhisHold s val source insts := by
  induction insts with
  | nil => trivial
  | cons v vs ih =>
    unfold PhisHold
    rcases found : s.module.get? v with _ | (_ | ⟨name, t, i, trail⟩ | _ | _ | _ | _ | _ | _)
    case some.inst =>
      cases i with
      | phi flags type incoming =>
        have head : isPhi s.module v = true := by rw [isPhi, found]
        rw [takeWhile_cons_of_pos head] at gets
        obtain ⟨here, later⟩ := forall_mem_cons.1 gets
        refine ⟨fun _ pair listed from_ defined => ?_, ih (fun u mem => single u (mem_cons_of_mem v mem)) later⟩
        obtain ⟨n, given, name', t', flags', type', incoming', trail', x, found', mem, value, -⟩ := here
        cases found.symm.trans found'
        obtain ⟨y, source'⟩ := pair
        obtain rfl : source' = source := from_
        obtain rfl := single v mem_cons_self _ _ _ _ _ _ found x y source' mem listed
        have value : env x = some n := value.resolve_left fun undefined => by simp [undefined] at defined
        exact (before x n value).trans (after v n given).symm
      | _ => trivial
    all_goals trivial

lemma phi_free (val : ValueId → Nat) {name : IR.Name} {t type : Ty} {flags : List String} {incoming : List (ValueId × ValueId)}
    {trail : List (IR.Piece ValueId)} (found : s.module.get? v = some (.inst name t (.phi flags type incoming) trail)) :
    demands s v = [] ∧ meaning? s val v = none := by
  unfold demands meaning?
  rw [found]
  constructor
  · split <;> rfl
  · split <;> rfl

lemma Jumps.within (jumps : Jumps s env a b env') (fresh : ∀ v ∈ heads s b, env v = none) : Within env env' := by
  intro v n given
  have other : v ∉ heads s b := by
    intro mem
    rw [fresh v mem] at given
    cases given
  rw [jumps.others v other]
  exact given

lemma Jumps.consistent (jumps : Jumps s env a b env') (consistent : Consistent s env) (within : Within env env') :
    Consistent s env' := by
  intro v n given
  by_cases head : v ∈ heads s b
  · obtain ⟨k, there, name, t, flags, type, incoming, trail, x, found, -, -, small⟩ := jumps.phis v head
    cases given.symm.trans there
    have nothing : demands s v = [] := (phi_free env'.value found).1
    refine ⟨by simp [nothing], small, fun k means => ?_⟩
    rw [(phi_free env'.value found).2] at means
    cases means
  · rw [jumps.others v head] at given
    exact (consistent v n given).of_within within

lemma mem_heads (mem : v ∈ (s.graph.block b).insts.toList.takeWhile (isPhi s.module)) : v ∈ heads s b := by
  unfold heads entries
  rw [List.takeWhile_append]
  split
  · exact List.mem_append_left _ (( takeWhile_prefix _).subset mem)
  · exact mem

/-! ## Where a run is -/

lemma entries_disjoint (once : (listing s.graph.func).Nodup) (other : a ≠ b) :
    (entries (s.graph.block a)).Disjoint (entries (s.graph.block b)) := by
  have pairs := List.pairwise_iff_getElem.1 (nodup_flatMap.1 once).2
  unfold block
  rw [getD_eq_getD_getElem?, getD_eq_getD_getElem?]
  by_cases belowA : a < s.graph.func.blocks.size
  · by_cases belowB : b < s.graph.func.blocks.size
    · rw [Array.getElem?_eq_getElem belowA, Array.getElem?_eq_getElem belowB]
      rcases Nat.lt_or_gt_of_ne other with less | more
      · exact pairs a b (by simpa using belowA) (by simpa using belowB) less
      · exact (pairs b a (by simpa using belowB) (by simpa using belowA) more).symm
    · rw [Array.getElem?_eq_none (Nat.le_of_not_lt belowB)]
      exact disjoint_nil_right _
  · rw [Array.getElem?_eq_none (Nat.le_of_not_lt belowA)]
    exact disjoint_nil_left _

lemma entries_nodup (once : (listing s.graph.func).Nodup) (b : Nat) : (entries (s.graph.block b)).Nodup := by
  unfold block
  rw [getD_eq_getD_getElem?]
  by_cases below : b < s.graph.func.blocks.size
  · rw [Array.getElem?_eq_getElem below]
    exact (nodup_flatMap.1 once).1 _ (by simp)
  · rw [Array.getElem?_eq_none (Nat.le_of_not_lt below)]
    exact nodup_nil

/-- What is true wherever a run is. Blocks are numbered so that every edge outside the cut goes up. -/
structure Underway (s : Setting) (rank : Nat → Nat) (b : Nat) (rest : List ValueId) (env : Env) : Prop where
  consistent : Consistent s env
  reaches : ∀ val, Extends val env → Reaches s val b
  /-- Nothing is computed before its turn. -/
  ahead : ∀ j, rank b < rank j → ∀ v ∈ entries (s.graph.block j), env v = none
  here : ∀ v ∈ rest, env v = none
  suffix : rest <:+ entries (s.graph.block b)
  inside : rank 0 ≤ rank b

variable {rank : Nat → Nat}

lemma Underway.compute (once : (listing s.graph.func).Nodup) (underway : Underway s rank b (v :: rest) env)
    (value : MayBe s env v n) : Underway s rank b rest (env.set v n) := by
  have new : env v = none := underway.here v mem_cons_self
  have listed : v ∈ entries (s.graph.block b) := underway.suffix.subset mem_cons_self
  have left : v ∉ rest := (nodup_cons.1 (underway.suffix.sublist.nodup (entries_nodup once b))).1
  refine ⟨underway.consistent.set new value, fun val extends_ => ?_, fun j above u mem => ?_, fun u mem => ?_,
    (suffix_cons v rest).trans underway.suffix, underway.inside⟩
  · exact underway.reaches val (extends_.of_within (Env.within_set new n))
  · have other : u ≠ v := by
      rintro rfl
      exact entries_disjoint once (fun same : b = j => absurd above (same ▸ lt_irrefl _)) listed mem
    rw [Env.set_of_ne other]
    exact underway.ahead j above u mem
  · have other : u ≠ v := by
      rintro rfl
      exact left mem
    rw [Env.set_of_ne other]
    exact underway.here u (mem_cons_of_mem v mem)

section

variable (graph : ofFunc s.module fn = .ok s.graph) (typed : ∀ i < s.graph.size, BlockTyped s i)
  (single : ∀ i, ∀ v ∈ (s.graph.block i).insts.toList, SingleIncoming s v)
  (rises : ∀ p i, i ∈ s.graph.succsOf p → s.cut.has p i = false → rank p < rank i)
  (once : (listing s.graph.func).Nodup)

include graph typed single rises once

lemma Underway.jump (underway : Underway s rank a [] env) (jumps : Jumps s env a b env') :
    Underway s rank b (body s b) env' := by
  have up : rank a < rank b := rises a b jumps.edge jumps.uncut
  have split : heads s b ++ body s b = entries (s.graph.block b) := takeWhile_append_dropWhile
  have fresh : ∀ v ∈ entries (s.graph.block b), env v = none := underway.ahead b up
  have heads_fresh : ∀ v ∈ heads s b, env v = none := fun v mem => fresh v (split ▸ List.mem_append_left _ mem)
  have within := jumps.within heads_fresh
  refine ⟨jumps.consistent underway.consistent within, fun val extends_ => ?_, fun j above v mem => ?_, fun v mem => ?_,
    dropWhile_suffix _, underway.inside.trans up.le⟩
  · have before := extends_.of_within within
    have inner : b ≠ 0 := by
      rintro rfl
      exact absurd (underway.inside.trans_lt up) (lt_irrefl _)
    refine (underway.reaches val before).pass inner ⟨jumps.edge, jumps.uncut, ?_, ?_⟩
    · rcases term : terminatorOf? s a with _ | t
      · unfold Goes
        rw [term]
        trivial
      · have typed := (typed a (lt_of_mem_succsOf graph jumps.edge)).term t term
        exact (jumps.goes t term).goes term typed underway.consistent before
    · exact phisHold (single b) (fun v mem => jumps.phis v (mem_heads mem)) before extends_
  · have other : v ∉ heads s b := fun head =>
      entries_disjoint once (fun same : b = j => absurd above (same ▸ lt_irrefl _)) (split ▸ List.mem_append_left _ head) mem
    rw [jumps.others v other]
    exact underway.ahead j (up.trans above) v mem
  · have apart := nodup_append.1 (split ▸ entries_nodup once b)
    rw [jumps.others v fun head => apart.2.2 v head v mem rfl]
    exact fresh v (split ▸ List.mem_append_right _ mem)

lemma Run.underway (run : Run s b rest env) : Underway s rank b rest env := by
  induction run with
  | start given fresh => exact ⟨given, fun _ _ => .entry, fun j _ => fresh j, fresh 0, suffix_rfl, le_refl _⟩
  | compute _ value ih => exact ih.compute once value
  | jump _ jumps ih => exact ih.jump graph typed single rises once jumps

end

lemma Run.reaches (graph : ofFunc s.module fn = .ok s.graph)
    (cut : s.cut = s.graph.backEdges) (typed : ∀ i < s.graph.size, BlockTyped s i)
    (single : ∀ i, ∀ v ∈ (s.graph.block i).insts.toList, SingleIncoming s v)
    (once : (listing s.graph.func).Nodup) (run : Run s b rest env) :
    Consistent s env ∧ (∀ val, Extends val env → Reaches s val b) ∧ rest <:+ entries (s.graph.block b) := by
  obtain ⟨rank, -, rises⟩ := exists_rank graph
  have underway := run.underway graph typed single (cut ▸ rises) once
  exact ⟨underway.consistent, underway.reaches, underway.suffix⟩

end Faultline.Analysis
