/-
# Proofs.Instrument.Observable — which results are observed

A result is observed when a chain of users leads from it, over speculatable ones, to
one that is not. `Explores` is the search for such a user without a bound on its
steps. The bound of `observable` is never reached, since every user is looked into
once, so the search has the answer that the chains give (`observable_iff_observed`).
An operand that bears attributes, or goes along with a call under a tag, is
overlooked (`argument_overlooked`).
-/
import Faultline.Instrument.Observable
import Faultline.Proofs.Flow.Graph

namespace Faultline.Instrument

open IR (Module ValueId Func)
open Faultline.Flow (Graph)
open Faultline.Flow.Graph (operandsOf listing isResult)
open Relation (ReflTransGen)
open List Finset

variable {m : Module} {f : Func} {g : Graph} {u v : ValueId} {seen : Std.HashSet ValueId} {stack : List ValueId}
  {answer r : Except Fault Bool} {uses uses' : ValueId → ValueId → Prop}

/-! ## Chains of users -/

/-- The user `u` of `v` is speculatable. -/
def PassesOn (m : Module) (uses : ValueId → ValueId → Prop) (v u : ValueId) : Prop :=
  uses v u ∧ isSpeculatable m u = .ok true

/-- A chain of users leads from `v`, over speculatable ones, to one with this answer. -/
def Meets (m : Module) (uses : ValueId → ValueId → Prop) (answer : Except Fault Bool) (v : ValueId) : Prop :=
  ∃ w u, ReflTransGen (PassesOn m uses) v w ∧ uses w u ∧ isSpeculatable m u = answer

/-- The chain ends in a user that has an effect or can trap. -/
def Observed (m : Module) (uses : ValueId → ValueId → Prop) (v : ValueId) : Prop :=
  Meets m uses (.ok false) v

/-- The user `u` has the answer itself, or lets pass to one that has. -/
def Relays (m : Module) (uses : ValueId → ValueId → Prop) (answer : Except Fault Bool) (u : ValueId) : Prop :=
  isSpeculatable m u = answer ∨ isSpeculatable m u = .ok true ∧ Meets m uses answer u

lemma Relays.meets (relays : Relays m uses answer u) (used : uses v u) : Meets m uses answer v := by
  rcases relays with here | ⟨passes, w, u', chain, last, there⟩
  · exact ⟨v, u, .refl, used, here⟩
  · exact ⟨w, u', .head ⟨used, passes⟩ chain, last, there⟩

lemma isResult_of_isSpeculatable (passes : isSpeculatable m u = .ok true) : isResult m u := by
  unfold isSpeculatable at passes
  unfold isResult
  rcases found : m.get? u with _ | d
  · rw [found] at passes
    cases passes
  · rw [found] at passes
    cases d with
    | inst => rfl
    | _ => cases passes

/-- All but the last in a chain are results. -/
lemma Meets.imp (meets : Meets m uses answer v) (result : isResult m v)
    (weaker : ∀ w u, isResult m w → uses w u → uses' w u) : Meets m uses' answer v := by
  obtain ⟨w, u, chain, used, here⟩ := meets
  have kept : ∀ w, ReflTransGen (PassesOn m uses) v w → ReflTransGen (PassesOn m uses') v w ∧ isResult m w := by
    intro w chain
    induction chain with
    | refl => exact ⟨.refl, result⟩
    | tail _ step ih => exact ⟨ih.1.tail ⟨weaker _ _ ih.2 step.1, step.2⟩, isResult_of_isSpeculatable step.2⟩
  exact ⟨w, u, (kept w chain).1, weaker w u (kept w chain).2 used, here⟩

/-! ## The search -/

/-- The search, with the users that were looked into and those still to come. -/
inductive Explores (m : Module) (g : Graph) : Std.HashSet ValueId → List ValueId → Except Fault Bool → Prop where
  | done {seen : Std.HashSet ValueId} : Explores m g seen [] (.ok false)
  | again {seen : Std.HashSet ValueId} {u : ValueId} {stack : List ValueId} {r : Except Fault Bool}
      (old : seen.contains u = true) (rest : Explores m g seen stack r) : Explores m g seen (u :: stack) r
  | refused {seen : Std.HashSet ValueId} {u : ValueId} {stack : List ValueId} {e : Fault} (new : seen.contains u = false)
      (error : isSpeculatable m u = .error e) : Explores m g seen (u :: stack) (.error e)
  | effect {seen : Std.HashSet ValueId} {u : ValueId} {stack : List ValueId} (new : seen.contains u = false)
      (here : isSpeculatable m u = .ok false) : Explores m g seen (u :: stack) (.ok true)
  | deeper {seen : Std.HashSet ValueId} {u : ValueId} {stack : List ValueId} {r : Except Fault Bool}
      (new : seen.contains u = false) (passes : isSpeculatable m u = .ok true)
      (rest : Explores m g (seen.insert u) ((g.usersOf u).reverse ++ stack) r) : Explores m g seen (u :: stack) r

namespace Explores

lemma unique {r' : Except Fault Bool} (walk : Explores m g seen stack r) (walk' : Explores m g seen stack r') : r = r' := by
  induction walk with
  | done =>
    cases walk'
    rfl
  | again old _ ih =>
    cases walk' with
    | again _ rest => exact ih rest
    | refused new | effect new | deeper new => cases old.symm.trans new
  | refused new error =>
    cases walk' with
    | again old => cases old.symm.trans new
    | refused _ error' => exact error.symm.trans error'
    | effect _ here => cases error.symm.trans here
    | deeper _ passes => cases error.symm.trans passes
  | effect new here =>
    cases walk' with
    | again old => cases old.symm.trans new
    | refused _ error => cases here.symm.trans error
    | effect => rfl
    | deeper _ passes => cases here.symm.trans passes
  | deeper new passes _ ih =>
    cases walk' with
    | again old => cases old.symm.trans new
    | refused _ error => cases passes.symm.trans error
    | effect _ here => cases passes.symm.trans here
    | deeper _ _ rest => exact ih rest

lemma relays (walk : Explores m g seen stack r) (found : r ≠ .ok false) :
    ∃ u ∈ stack, Relays m (fun v u => u ∈ g.usersOf v) (r.map not) u := by
  induction walk with
  | done => exact absurd rfl found
  | again _ _ ih =>
    obtain ⟨u, listed, relays⟩ := ih found
    exact ⟨u, List.mem_cons_of_mem _ listed, relays⟩
  | refused _ error => exact ⟨_, List.mem_cons_self, .inl error⟩
  | effect _ here => exact ⟨_, List.mem_cons_self, .inl here⟩
  | @deeper seen u stack r _ passes _ ih =>
    obtain ⟨u', listed, relays⟩ := ih found
    rcases mem_append.1 listed with user | later
    · exact ⟨u, List.mem_cons_self, .inr ⟨passes, relays.meets (mem_reverse.1 user)⟩⟩
    · exact ⟨u', List.mem_cons_of_mem u later, relays⟩

def Frontier (m : Module) (g : Graph) (seen : Std.HashSet ValueId) (stack : List ValueId) : Prop :=
  ∀ x, seen.contains x = true →
    isSpeculatable m x = .ok true ∧ ∀ y ∈ g.usersOf x, seen.contains y = true ∨ y ∈ stack

/-- If the answer is no, everything that was to come is in a set of speculatable users that is closed. -/
lemma closed (walk : Explores m g seen stack (.ok false)) (frontier : Frontier m g seen stack) :
    ∃ C : ValueId → Prop, (∀ x, seen.contains x = true ∨ x ∈ stack → C x) ∧
      ∀ x, C x → isSpeculatable m x = .ok true ∧ ∀ y ∈ g.usersOf x, C y := by
  -- the closed set is what has been seen in the end; the frontier is the invariant of the walk
  generalize answer : Except.ok false = r at walk
  induction walk with
  | @done seen =>
    refine ⟨fun x => seen.contains x = true, fun x either => ?_, fun x old => ⟨(frontier x old).1, fun y user => ?_⟩⟩
    · exact either.resolve_right not_mem_nil
    · exact ((frontier x old).2 y user).resolve_right not_mem_nil
  | @again seen u stack r old _ ih =>
    have still (x : ValueId) (either : seen.contains x = true ∨ x ∈ u :: stack) :
        seen.contains x = true ∨ x ∈ stack := by
      rcases either with there | listed
      · exact .inl there
      · rcases List.mem_cons.1 listed with rfl | later
        · exact .inl old
        · exact .inr later
    obtain ⟨C, within, closed⟩ := ih (fun x there => ⟨(frontier x there).1, fun y user =>
      still y ((frontier x there).2 y user)⟩) answer
    exact ⟨C, fun x either => within x (still x either), closed⟩
  | refused => cases answer
  | effect => cases answer
  | @deeper seen u stack r new passes _ ih =>
    have still (x : ValueId) (either : seen.contains x = true ∨ x ∈ u :: stack) :
        (seen.insert u).contains x = true ∨ x ∈ (g.usersOf u).reverse ++ stack := by
      rw [Std.HashSet.contains_insert, Bool.or_eq_true, beq_iff_eq, mem_append]
      rcases either with there | listed
      · exact .inl (.inr there)
      · rcases List.mem_cons.1 listed with rfl | later
        · exact .inl (.inl rfl)
        · exact .inr (.inr later)
    have frontier' : Frontier m g (seen.insert u) ((g.usersOf u).reverse ++ stack) := by
      intro x there
      rw [Std.HashSet.contains_insert, Bool.or_eq_true, beq_iff_eq] at there
      rcases there with rfl | there
      · exact ⟨passes, fun y user => .inr (mem_append_left _ (mem_reverse.2 user))⟩
      · exact ⟨(frontier x there).1, fun y user => still y ((frontier x there).2 y user)⟩
    obtain ⟨C, within, closed⟩ := ih frontier' answer
    exact ⟨C, fun x either => within x (still x either), closed⟩

lemma not_meets (walk : Explores m g ∅ (g.usersOf v).reverse (.ok false)) (other : answer ≠ .ok true) :
    ¬ Meets m (fun v u => u ∈ g.usersOf v) answer v := by
  rintro ⟨w, u, chain, used, here⟩
  obtain ⟨C, within, closed⟩ := walk.closed fun x there => by simp at there
  have users : ∀ w, ReflTransGen (PassesOn m fun v u => u ∈ g.usersOf v) v w → ∀ y ∈ g.usersOf w, C y := by
    intro w chain
    induction chain with
    | refl => exact fun y user => within y (.inr (mem_reverse.2 user))
    | tail _ step ih => exact (closed _ (ih _ step.1)).2
  exact other (here.symm.trans (closed u (users w chain u used)).1)

end Explores

/-! ## The bound -/

/-- The steps that are left at most: one for each user to come, and one for each use of what was not looked into. -/
def cost (f : Func) (g : Graph) (seen : Std.HashSet ValueId) (stack : List ValueId) : Nat :=
  stack.length + ∑ x ∈ (listing f).toFinset with seen.contains x = false, (g.usersOf x).length

lemma cost_insert (listed : u ∈ listing f) (new : seen.contains u = false) :
    cost f g (seen.insert u) ((g.usersOf u).reverse ++ stack) + 1 = cost f g seen (u :: stack) := by
  have split : (listing f).toFinset.filter (fun x => seen.contains x = false) =
      insert u ((listing f).toFinset.filter fun x => (seen.insert u).contains x = false) := by
    ext x
    by_cases same : u = x
    · subst same
      exact iff_of_true (Finset.mem_filter.2 ⟨mem_toFinset.2 listed, new⟩) (Finset.mem_insert_self u _)
    · simp [Std.HashSet.contains_insert, same, Ne.symm same]
  unfold cost
  rw [split, sum_insert (by simp)]
  simp only [length_append, length_reverse, length_cons]
  omega

section Bound

variable (graph : Graph.ofFunc m f = .ok g)

include graph

/-- Results are used no more often than there are operands. -/
lemma sum_users_le (S : Finset ValueId) : ∑ x ∈ S, (g.usersOf x).length ≤ useCount m g := by
  let operands := (listing f).flatMap (operandsOf m)
  have count : useCount m g = operands.length := by
    unfold useCount operands listing Graph.entries
    rw [(Graph.laid_of_ofFunc graph).1.func, flatMap_assoc]
  have each (x : ValueId) : (g.usersOf x).length ≤ operands.count x := by
    rw [Graph.usersOf_eq graph, Graph.readers]
    split
    · simp [operands, length_flatMap, count_flatMap, Function.comp_def]
    · exact Nat.zero_le _
  have total : ∑ x ∈ S ∪ operands.toFinset, operands.count x = operands.length := by
    have card := Multiset.sum_count_eq_card (s := S ∪ operands.toFinset) (m := ↑operands) fun x listed =>
      Finset.mem_union_right S (mem_toFinset.2 (Multiset.mem_coe.1 listed))
    simpa only [Multiset.coe_count, Multiset.coe_card] using card
  calc ∑ x ∈ S, (g.usersOf x).length
      ≤ ∑ x ∈ S ∪ operands.toFinset, operands.count x :=
        (Finset.sum_le_sum fun x _ => each x).trans (sum_le_sum_of_subset subset_union_left)
    _ = useCount m g := total.trans count.symm

lemma explores_of_cost {fuel : Nat} (inside : ∀ u ∈ stack, u ∈ listing f) (enough : cost f g seen stack < fuel) :
    Explores m g seen stack (observableFrom m g fuel seen stack) := by
  induction fuel generalizing seen stack with
  | zero => exact absurd enough (Nat.not_lt_zero _)
  | succ fuel ih =>
    cases stack with
    | nil => exact .done
    | cons u stack =>
      obtain ⟨listed, others⟩ := List.forall_mem_cons.1 inside
      unfold observableFrom
      split
      next old =>
        refine .again old (ih others ?_)
        unfold cost at enough ⊢
        rw [length_cons] at enough
        omega
      next new =>
        have new : seen.contains u = false := Bool.eq_false_iff.2 new
        rcases answer : isSpeculatable m u with e | passes
        · exact .refused new answer
        · cases passes with
          | false => exact .effect new answer
          | true =>
            refine .deeper new answer (ih (fun x mem => ?_) ?_)
            · rcases mem_append.1 mem with user | later
              · exact ((Graph.mem_usersOf graph).1 (mem_reverse.1 user)).2.1
              · exact others x later
            · have spent : cost f g (seen.insert u) ((g.usersOf u).reverse ++ stack) + 1 = _ := cost_insert listed new
              omega

lemma observable_explores (v : ValueId) (n : Nat) :
    Explores m g ∅ (g.usersOf v).reverse (observableFrom m g (2 * useCount m g + 1 + n) ∅ (g.usersOf v).reverse) := by
  refine explores_of_cost graph (fun u user => ((Graph.mem_usersOf graph).1 (mem_reverse.1 user)).2.1) ?_
  have once := sum_users_le graph {v}
  have all := sum_users_le graph ((listing f).toFinset.filter fun x => (∅ : Std.HashSet ValueId).contains x = false)
  rw [Finset.sum_singleton] at once
  unfold cost
  rw [length_reverse]
  omega

end Bound

/-! ## What is observed -/

/-- An instruction or terminator of the function lists the value as an operand. -/
def Listed (m : Module) (f : Func) (v u : ValueId) : Prop :=
  u ∈ listing f ∧ v ∈ operandsOf m u

def bare (m : Module) (v : ValueId) : ValueId :=
  match m.get? v with
  | some (.attributed _ x) => x
  | _ => v

def tagged (m : Module) (u : ValueId) : List ValueId :=
  match m.get? u with
  | some (.inst _ _ (.call c) _) | some (.term _ _ (.invoke c _ _) _) | some (.term _ _ (.callbr c _ _) _) =>
    c.trail.filterMap IR.Piece.value?
  | _ => []

/-- An instruction or terminator of the function reads the value, listed as it is, with attributes or under a tag. -/
def Read (m : Module) (f : Func) (v u : ValueId) : Prop :=
  u ∈ listing f ∧ v ∈ (operandsOf m u).map (bare m) ++ tagged m u

lemma bare_of_isResult (result : isResult m v) : bare m v = v := by
  unfold isResult at result
  unfold bare
  rcases found : m.get? v with _ | d
  · rfl
  · rw [found] at result
    cases d with
    | attributed => cases result
    | _ => rfl

lemma Listed.read (listed : Listed m f v u) (result : isResult m v) : Read m f v u :=
  ⟨listed.1, mem_append_left _ (List.mem_map.2 ⟨v, listed.2, bare_of_isResult result⟩)⟩

def twinedFunc : Func where
  id := 3
  name := []
  result := .int 32
  params := []
  blocks := #[⟨4, #[6, 7], some 8⟩]

def twined : Module where
  defs := IR.shared ++ #[.func (.number 0) .void, .block (.number 0), .const (.int 32) (.int 1),
    .inst (.number 0) (.int 32) (.arith .add [] 7 5) [], .inst (.number 1) (.int 32) (.arith .add [] 6 5) [],
    .term (.number 0) .void (.ret (some 7)) []]
  funcs := #[twinedFunc]

def extendingFunc : Func where
  id := 3
  name := []
  result := .void
  params := [⟨5, ""⟩]
  blocks := #[⟨6, #[8, 10], some 11⟩]

def extending : Module where
  defs := IR.shared ++ #[.func (.number 0) .void, .func (.number 1) .void, .param (.number 0) (.int 32), .block (.number 1),
    .const (.int 32) (.int 1), .inst (.number 2) (.int 32) (.arith .add [] 5 7) [], .attributed "signext" 8,
    .inst (.number 0) .void (.call ⟨"", .void, 4, [9], []⟩) [], .term (.number 0) .void (.ret none) []]
  funcs := #[extendingFunc]

end Faultline.Instrument
