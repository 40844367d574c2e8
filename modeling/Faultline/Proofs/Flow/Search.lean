/-
# Proofs.Flow.Search — depth-first search

The searches of a graph take the same turns. A `Turn` says what one of them can do,
without a bound on their number; the bound that the searches are given suffices
(`Searching.finishes`, `Searching.traverses`).

The timeline of a search lists its blocks in the order in which they will have been
left, the last one first. A turn that enters a block puts it between the path and
the blocks left, so what is once said about the order of two blocks stays true. A
block reaches all those that were entered while it was on the path, along edges that
go down the timeline (`Branch`), and every edge that was looked at goes down or
closes a cycle (`Searching`).
-/
import Faultline.Flow.Cycle
import Mathlib

namespace Faultline.Flow

open Relation (ReflTransGen)
open List Finset

variable {next : Nat → List Nat} {n fuel a b c s root : Nat} {rest order older roots : List Nat}

/-- One block leads to another. -/
def Leads (next : Nat → List Nat) (a b : Nat) : Prop :=
  b ∈ next a

/-! ## Turns -/

/-- The state of a search: the path, the blocks seen, those left, the last one first, and the edges
found to close a cycle. -/
structure Search where
  path : List Frame := []
  seen : List Nat := []
  left : List Nat := []
  found : List Edge := []

inductive Turn (next : Nat → List Nat) : Search → Search → Prop where
  | leave {b : Nat} {path : List Frame} {seen left : List Nat} {found : List Edge} :
      Turn next ⟨(b, []) :: path, seen, left, found⟩ ⟨path, seen, b :: left, found⟩
  | enter {b s : Nat} {rest : List Nat} {path : List Frame} {seen left : List Nat} {found : List Edge}
      (fresh : s ∉ seen) :
      Turn next ⟨(b, s :: rest) :: path, seen, left, found⟩
        ⟨(s, next s) :: (b, rest) :: path, s :: seen, left, found⟩
  | close {b s : Nat} {rest : List Nat} {path : List Frame} {seen left : List Nat} {found : List Edge}
      (known : s ∈ seen) (onPath : s ∈ b :: path.map Prod.fst) :
      Turn next ⟨(b, s :: rest) :: path, seen, left, found⟩ ⟨(b, rest) :: path, seen, left, (b, s) :: found⟩
  | pass {b s : Nat} {rest : List Nat} {path : List Frame} {seen left : List Nat} {found : List Edge}
      (known : s ∈ seen) (offPath : s ∉ b :: path.map Prod.fst) :
      Turn next ⟨(b, s :: rest) :: path, seen, left, found⟩ ⟨(b, rest) :: path, seen, left, found⟩

lemma onPath_iff {path : List Frame} : onPath path b = true ↔ b ∈ path.map Prod.fst := by
  simp [onPath, any_eq_true]

/-- While there is a path, both searches take the same turn. -/
lemma exists_turn (next : Nat → List Nat) {t : Search} (going : t.path ≠ []) : ∃ t', Turn next t t' ∧ ∀ fuel,
    explore next (fuel + 1) t.path t.seen t.found = explore next fuel t'.path t'.seen t'.found ∧
      leave next (fuel + 1) t.path t.seen t.left = leave next fuel t'.path t'.seen t'.left := by
  obtain ⟨_ | ⟨⟨b, _ | ⟨s, rest⟩⟩, path⟩, seen, left, found⟩ := t
  · exact absurd rfl going
  · exact ⟨_, .leave, fun _ => ⟨rfl, rfl⟩⟩
  · by_cases known : s ∈ seen
    · by_cases there : s ∈ b :: path.map Prod.fst
      · have there' : onPath ((b, rest) :: path) s = true := onPath_iff.2 there
        exact ⟨_, .close known there, fun _ => ⟨by simp [explore, known, there'], by simp [Flow.leave, known]⟩⟩
      · have there' : ¬ onPath ((b, rest) :: path) s = true := mt onPath_iff.1 there
        exact ⟨_, .pass known there, fun _ => ⟨by simp [explore, known, there'], by simp [Flow.leave, known]⟩⟩
    · exact ⟨_, .enter known, fun _ => ⟨by simp [explore, known], by simp [Flow.leave, known]⟩⟩

def Finishes (next : Nat → List Nat) (t t' : Search) : Prop :=
  ReflTransGen (Turn next) t t' ∧ t'.path = []

def Search.setOut (next : Nat → List Nat) (t : Search) (root : Nat) : Search :=
  { t with path := [(root, next root)], seen := root :: t.seen }

/-- From each root that is not seen by then, a search is made to its end. -/
inductive Traverses (next : Nat → List Nat) : List Nat → Search → Search → Prop where
  | done {t : Search} : Traverses next [] t t
  | skip {root : Nat} {roots : List Nat} {t t' : Search} (known : root ∈ t.seen)
      (later : Traverses next roots t t') : Traverses next (root :: roots) t t'
  | search {root : Nat} {roots : List Nat} {t t₁ t' : Search} (fresh : root ∉ t.seen)
      (run : Finishes next (t.setOut next root) t₁) (later : Traverses next roots t₁ t') :
      Traverses next (root :: roots) t t'

/-! ## The timeline -/

/-- The blocks in the order in which they will have been left, the last one first. -/
def Search.timeline (t : Search) : List Nat :=
  (t.path.map Prod.fst).reverse ++ t.left

lemma Search.timeline_of_rest {t : Search} (ended : t.path = []) : t.timeline = t.left := by
  rw [timeline, ended]
  rfl

/-- An edge that goes down: its target is left before its source. -/
def Falls (next : Nat → List Nat) (order : List Nat) (a b : Nat) : Prop :=
  b ∈ next a ∧ [a, b].Sublist order

lemma Falls.mono {order' : List Nat} (falls : Falls next order a b) (more : order.Sublist order') :
    Falls next order' a b :=
  ⟨falls.1, falls.2.trans more⟩

lemma leads_of_falls (reach : ReflTransGen (Falls next order) a b) : ReflTransGen (Leads next) a b :=
  ReflTransGen.mono (fun _ _ falls => falls.1) _ _ reach

lemma reach_mono {order' : List Nat} (reach : ReflTransGen (Falls next order) a b)
    (more : order.Sublist order') : ReflTransGen (Falls next order') a b :=
  ReflTransGen.mono (fun _ _ falls => falls.mono more) _ _ reach

lemma idxOf_lt_of_sublist (nodup : order.Nodup) (down : [a, b].Sublist order) :
    order.idxOf a < order.idxOf b := by
  obtain ⟨above, below, rfl, high, low⟩ := cons_sublist_iff.1 down
  have apart : b ∉ above := fun mem =>
    disjoint_of_nodup_append nodup mem (singleton_sublist.1 low)
  rw [idxOf_append_of_mem high, idxOf_append_of_notMem apart]
  exact Nat.lt_add_right _ (idxOf_lt_length_iff.2 high)

lemma idxOf_le_of_reach (nodup : order.Nodup) (reach : ReflTransGen (Falls next order) a b) :
    order.idxOf a ≤ order.idxOf b := by
  induction reach with
  | refl => exact le_refl _
  | tail _ falls ih => exact ih.trans (idxOf_lt_of_sublist nodup falls.2).le

lemma mem_left_of_sublist {first second : List Nat} (nodup : (first ++ second).Nodup)
    (down : [a, b].Sublist (first ++ second)) (mem : b ∈ first) : a ∈ first := by
  by_contra outside
  have less := idxOf_lt_of_sublist nodup down
  rw [idxOf_append_of_notMem outside, idxOf_append_of_mem mem] at less
  have := idxOf_lt_length_iff.2 mem
  omega

/-! ## Branches -/

/-- The blocks that follow `b` on the timeline down to the `older` ones are reached from `b`, and no edge
leads to them from the older ones. -/
def Branch (next : Nat → List Nat) (t : Search) (b : Nat) (older : List Nat) : Prop :=
  older <:+ t.left ∧ ∃ above below, t.timeline = above ++ b :: (below ++ older) ∧
    (∀ x ∈ below, ReflTransGen (Falls next t.timeline) b x) ∧ ∀ x ∈ older, ∀ y ∈ next x, y ∈ above ∨ y ∈ older

lemma Branch.of_same {t t' : Search} (branch : Branch next t b older) (same : t'.timeline = t.timeline)
    (left : t.left <:+ t'.left) : Branch next t' b older := by
  unfold Branch
  rw [same]
  exact ⟨branch.1.trans left, branch.2⟩

/-- A block that the path leads to is entered between the path and the blocks left. -/
lemma Branch.insert {t t' : Search} (path : List Nat) (branch : Branch next t b older)
    (before : t.timeline = path ++ t.left) (after : t'.timeline = path ++ s :: t.left) (left : t'.left = t.left)
    (tied : ∀ x ∈ path, ReflTransGen (Falls next t'.timeline) x s) : Branch next t' b older := by
  obtain ⟨⟨newer, whole⟩, above, below, split, reaches, apart⟩ := branch
  have grown : t.timeline.Sublist t'.timeline := by
    rw [before, after]
    exact (sublist_cons_self s t.left).append_left path
  have parts : path ++ newer = above ++ b :: below := by
    have joined : path ++ newer ++ older = above ++ b :: below ++ older := by
      rw [append_assoc, whole, ← before, split, append_assoc, cons_append]
    exact append_cancel_right joined
  refine ⟨left ▸ ⟨newer, whole⟩, ?_⟩
  rcases append_eq_append_iff.1 parts with ⟨upper, rfl, whole'⟩ | ⟨lower, rfl, tail⟩
  · -- `b` was left before
    refine ⟨path ++ s :: upper, below, ?_, fun x mem => reach_mono (reaches x mem) grown, fun x mem y edge => ?_⟩
    · rw [after, ← whole, whole']
      simp
    · refine (apart x mem y edge).imp_left fun high => ?_
      simp only [mem_append, List.mem_cons] at high ⊢
      tauto
  · rcases append_eq_cons_iff.1 tail.symm with ⟨rfl, whole'⟩ | ⟨upper, rfl, below'⟩
    · -- it was the last one to be left
      refine ⟨above ++ [s], below, ?_, fun x mem => reach_mono (reaches x mem) grown, fun x mem y edge => ?_⟩
      · rw [after, ← whole, whole']
        simp
      · exact (apart x mem y edge).imp_left (mem_append_left [s])
    · -- it is on the path
      refine ⟨above, upper ++ s :: newer, ?_, fun x mem => ?_, apart⟩
      · rw [after, ← whole]
        simp
      · rcases mem_append.1 mem with high | low
        · exact reach_mono (reaches x (by simp [below', high])) grown
        · rcases List.mem_cons.1 low with rfl | low
          · exact tied b (by simp)
          · exact reach_mono (reaches x (by simp [below', low])) grown

/-! ## Searches at work -/

/-- The successor `s` of `b` has not been looked at. -/
def Search.Waits (t : Search) (b s : Nat) : Prop :=
  ∃ rest, (b, rest) ∈ t.path ∧ s ∈ rest

/-- A search at work in a graph of `n` blocks. -/
structure Searching (next : Nat → List Nat) (n : Nat) (t : Search) : Prop where
  seen_iff : ∀ b, b ∈ t.seen ↔ b ∈ t.timeline
  nodup : t.timeline.Nodup
  below : ∀ b ∈ t.timeline, b < n
  waiting : ∀ frame ∈ t.path, frame.2 ⊆ next frame.1
  /-- An edge waits, closes a cycle, or goes down. -/
  settled : ∀ b ∈ t.timeline, ∀ s ∈ next b,
    t.Waits b s ∨ ((b : Int), (s : Int)) ∈ t.found ∨ [b, s].Sublist t.timeline
  /-- The target of an edge that closes a cycle reaches its source. -/
  closing : ∀ e ∈ t.found, ∃ b s : Nat, e = ((b : Int), (s : Int)) ∧ b ∈ t.timeline ∧ s ∈ next b ∧
    ReflTransGen (Falls next t.timeline) s b
  branches : ∀ b ∈ t.timeline, ∃ older, Branch next t b older

namespace Searching

variable {t t' : Search}

lemma start (next : Nat → List Nat) (n : Nat) : Searching next n {} :=
  ⟨by simp [Search.timeline], by simp [Search.timeline], by simp [Search.timeline], by simp, by simp [Search.timeline],
    by simp, by simp [Search.timeline]⟩

lemma target_mem (search : Searching next n t) (found : ((b : Int), (s : Int)) ∈ t.found) : s ∈ t.timeline := by
  obtain ⟨b', s', same, mem, -, reach⟩ := search.closing _ found
  obtain ⟨rfl, rfl⟩ : b = b' ∧ s = s' := by simpa using same
  rcases reach.cases_head with rfl | ⟨_, falls, -⟩
  · exact mem
  · exact falls.2.subset (by simp)

lemma closed (search : Searching next n t) (mem : b ∈ t.left) (edge : s ∈ next b) : s ∈ t.timeline := by
  rcases search.settled b (mem_append_right _ mem) s edge with ⟨rest, there, -⟩ | found | down
  · refine absurd mem (disjoint_of_nodup_append search.nodup ?_)
    exact mem_reverse.2 (List.mem_map_of_mem there)
  · exact search.target_mem found
  · exact down.subset (by simp)

lemma mem_of_leads (search : Searching next n t) (atRest : t.path = []) (way : ReflTransGen (Leads next) b c)
    (mem : b ∈ t.left) : c ∈ t.left := by
  induction way with
  | refl => exact mem
  | tail _ edge ih =>
    rw [← Search.timeline_of_rest atRest]
    exact search.closed ih edge

/-- Every block on the path reaches the last one. -/
lemma reaches_top (search : Searching next n t) {path : List Frame} (top : t.path = (b, rest) :: path)
    (mem : c ∈ b :: path.map Prod.fst) : ReflTransGen (Falls next t.timeline) c b := by
  rcases List.mem_cons.1 mem with rfl | mem
  · exact .refl
  obtain ⟨above, upper, parts⟩ := append_of_mem (mem_reverse.2 mem)
  have whole : t.timeline = above ++ c :: (upper ++ b :: t.left) := by
    rw [Search.timeline, top, List.map_cons, reverse_cons, parts]
    simp
  have nodup := search.nodup
  obtain ⟨older, old, above', below, split, reaches, -⟩ := search.branches c (by simp [whole])
  -- the timeline has `c` once, so both ways to split it there are the same
  have once : c ∉ above' ∧ c ∉ below ++ older := by
    rw [split, nodup_middle, nodup_cons, mem_append, not_or] at nodup
    exact nodup.1
  obtain ⟨-, -, same⟩ := (append_cons_inj_of_notMem once.1 once.2).1 (split.symm.trans whole)
  have mem' : b ∈ below ++ older := by simp [same]
  refine reaches b ((mem_append.1 mem').resolve_right fun low => ?_)
  refine disjoint_of_nodup_append search.nodup (a := b) ?_ (old.subset low)
  simp [top]

lemma of_same (search : Searching next n t) (same : t'.timeline = t.timeline) (seen : t'.seen = t.seen)
    (left : t.left <:+ t'.left) (waiting : ∀ frame ∈ t'.path, frame.2 ⊆ next frame.1) (more : t.found ⊆ t'.found)
    (settled : ∀ b s, t.Waits b s → t'.Waits b s ∨ ((b : Int), (s : Int)) ∈ t'.found ∨ [b, s].Sublist t.timeline)
    (closing : ∀ e ∈ t'.found, e ∈ t.found ∨ ∃ b s : Nat, e = ((b : Int), (s : Int)) ∧ b ∈ t.timeline ∧ s ∈ next b ∧
      ReflTransGen (Falls next t.timeline) s b) : Searching next n t' where
  seen_iff b := by rw [seen, same, search.seen_iff]
  nodup := same ▸ search.nodup
  below b mem := search.below b (same ▸ mem)
  waiting := waiting
  settled b mem s edge := by
    rw [same] at mem ⊢
    rcases search.settled b mem s edge with waits | found | down
    · exact settled b s waits
    · exact .inr (.inl (more found))
    · exact .inr (.inr down)
  closing e mem := by
    rw [same]
    exact (closing e mem).elim (search.closing e) id
  branches b mem := by
    obtain ⟨older, branch⟩ := search.branches b (same ▸ mem)
    exact ⟨older, branch.of_same same left⟩

lemma insert (search : Searching next n t) (path : List Nat) (fresh : s ∉ t.seen) (low : s < n)
    (before : t.timeline = path ++ t.left) (after : t'.timeline = path ++ s :: t.left) (seen : t'.seen = s :: t.seen)
    (left : t'.left = t.left) (found : t'.found = t.found)
    (tied : ∀ x ∈ path, ReflTransGen (Falls next t'.timeline) x s)
    (waiting : ∀ frame ∈ t'.path, frame.2 ⊆ next frame.1) (new : ∀ u ∈ next s, t'.Waits s u)
    (settled : ∀ b u, t.Waits b u → t'.Waits b u ∨ [b, u].Sublist t'.timeline) : Searching next n t' := by
  have grown : t.timeline.Sublist t'.timeline := by
    rw [before, after]
    exact (sublist_cons_self s t.left).append_left path
  have mem_iff : ∀ b, b ∈ t'.timeline ↔ b = s ∨ b ∈ t.timeline := by
    intro b
    rw [before, after]
    simp only [mem_append, List.mem_cons]
    tauto
  have outside : s ∉ t.timeline := mt (search.seen_iff s).2 fresh
  refine ⟨fun b => ?_, ?_, fun b mem => ?_, waiting, fun b mem u edge => ?_, fun e mem => ?_, fun b mem => ?_⟩
  · rw [seen, List.mem_cons, mem_iff, search.seen_iff]
  · rw [after, nodup_middle, nodup_cons, ← before]
    exact ⟨outside, search.nodup⟩
  · rcases (mem_iff b).1 mem with rfl | old
    · exact low
    · exact search.below b old
  · rcases (mem_iff b).1 mem with rfl | old
    · exact .inl (new u edge)
    · rcases search.settled b old u edge with waits | closes | down
      · exact (settled b u waits).imp_right .inr
      · exact .inr (.inl (found ▸ closes))
      · exact .inr (.inr (down.trans grown))
  · obtain ⟨b, u, same, old, edge, reach⟩ := search.closing e (found ▸ mem)
    exact ⟨b, u, same, grown.subset old, edge, reach_mono reach grown⟩
  · rcases (mem_iff b).1 mem with rfl | old
    · refine ⟨t.left, by rw [left], path, [], after, by simp, fun x old y edge => ?_⟩
      have := search.closed old edge
      rwa [before, mem_append] at this
    · obtain ⟨older, branch⟩ := search.branches b old
      exact ⟨older, branch.insert path before after left tied⟩

lemma waits_cons {path : List Frame} {seen left : List Nat} {found : List Edge} (found' : List Edge)
    (waits : Search.Waits ⟨(b, s :: rest) :: path, seen, left, found⟩ a c) :
    (a = b ∧ c = s) ∨ Search.Waits ⟨(b, rest) :: path, seen, left, found'⟩ a c := by
  obtain ⟨others, there, mem⟩ := waits
  rcases List.mem_cons.1 there with same | there
  · cases same
    rcases List.mem_cons.1 mem with rfl | mem
    · exact .inl ⟨rfl, rfl⟩
    · exact .inr ⟨rest, List.mem_cons_self, mem⟩
  · exact .inr ⟨others, List.mem_cons_of_mem _ there, mem⟩

lemma waiting_cons {path : List Frame} (waiting : ∀ frame ∈ (b, s :: rest) :: path, frame.2 ⊆ next frame.1) :
    ∀ frame ∈ (b, rest) :: path, frame.2 ⊆ next frame.1 := by
  obtain ⟨first, others⟩ := List.forall_mem_cons.1 waiting
  exact List.forall_mem_cons.2 ⟨fun u mem => first (List.mem_cons_of_mem s mem), others⟩

lemma top_edge {path : List Frame} {seen left : List Nat} {found : List Edge}
    (search : Searching next n ⟨(b, s :: rest) :: path, seen, left, found⟩) : s ∈ next b :=
  search.waiting (b, s :: rest) List.mem_cons_self List.mem_cons_self

/-- **One turn keeps the search in order.** -/
theorem turn (search : Searching next n t) (bounded : ∀ b s, s ∈ next b → s < n) (turn : Turn next t t') :
    Searching next n t' := by
  cases turn with
  | @leave b path seen left found =>
    refine search.of_same (by simp [Search.timeline]) rfl (suffix_cons b left)
      (fun frame mem => search.waiting frame (List.mem_cons_of_mem _ mem)) (List.Subset.refl _) (fun c u waits => ?_)
      fun e mem => .inl mem
    obtain ⟨others, there, mem⟩ := waits
    rcases List.mem_cons.1 there with same | there
    · cases same
      cases mem
    · exact .inl ⟨others, there, mem⟩
  | @enter b s rest path seen left found fresh =>
    have down : [b, s].Sublist ((b :: path.map Prod.fst).reverse ++ s :: left) := by
      rw [reverse_cons, append_assoc]
      exact sublist_append_of_sublist_right (by simp)
    have grown : ((b :: path.map Prod.fst).reverse ++ left).Sublist ((b :: path.map Prod.fst).reverse ++ s :: left) :=
      (sublist_cons_self s left).append_left _
    refine search.insert (s := s) (b :: path.map Prod.fst).reverse fresh (bounded b s search.top_edge) rfl
      (by simp [Search.timeline]) rfl rfl rfl (fun x mem => ?_) ?_ (fun u edge => ⟨_, List.mem_cons_self, edge⟩)
      fun c u waits => ?_
    · have top : ReflTransGen (Falls next _) x b := search.reaches_top rfl (mem_reverse.1 mem)
      have after : (⟨(s, next s) :: (b, rest) :: path, s :: seen, left, found⟩ : Search).timeline =
          (b :: path.map Prod.fst).reverse ++ s :: left := by simp [Search.timeline]
      rw [after]
      exact (reach_mono top grown).tail ⟨search.top_edge, down⟩
    · exact List.forall_mem_cons.2 ⟨List.Subset.refl _, waiting_cons search.waiting⟩
    · rcases waits_cons found waits with ⟨rfl, rfl⟩ | ⟨others, there, mem⟩
      · exact .inr (by simp [Search.timeline])
      · exact .inl ⟨others, List.mem_cons_of_mem _ there, mem⟩
  | @close b s rest path seen left found known there =>
    refine search.of_same rfl rfl suffix_rfl (waiting_cons search.waiting) (subset_cons_self _ _)
      (fun c u waits => ?_) fun e mem => ?_
    · rcases waits_cons _ waits with ⟨rfl, rfl⟩ | waits
      · exact .inr (.inl List.mem_cons_self)
      · exact .inl waits
    · rcases List.mem_cons.1 mem with rfl | old
      · exact .inr ⟨b, s, rfl, by simp [Search.timeline], search.top_edge, search.reaches_top rfl there⟩
      · exact .inl old
  | @pass b s rest path seen left found known offPath =>
    refine search.of_same rfl rfl suffix_rfl (waiting_cons search.waiting) (List.Subset.refl _)
      (fun c u waits => ?_) fun e mem => .inl mem
    rcases waits_cons found waits with ⟨rfl, rfl⟩ | waits
    · -- the target is not on the path, so it was left
      have there := (search.seen_iff u).1 known
      rw [Search.timeline, mem_append, mem_reverse] at there
      have low : u ∈ left := there.resolve_left offPath
      have above : [c].Sublist ((c, rest) :: path |>.map Prod.fst).reverse := singleton_sublist.2 (by simp)
      exact .inr (.inr (above.append (singleton_sublist.2 low)))
    · exact .inl waits

lemma turns (search : Searching next n t) (bounded : ∀ b s, s ∈ next b → s < n)
    (turns : ReflTransGen (Turn next) t t') : Searching next n t' := by
  induction turns with
  | refl => exact search
  | tail _ last ih => exact ih.turn bounded last

lemma branch_turn (search : Searching next n t) (turn : Turn next t t') (branch : Branch next t b older)
    (bounded : ∀ b s, s ∈ next b → s < n) : Branch next t' b older := by
  have later := search.turn bounded turn
  cases turn with
  | leave => exact branch.of_same (by simp [Search.timeline]) (suffix_cons _ _)
  | @enter c s rest path seen left found fresh =>
    refine branch.insert (s := s) (c :: path.map Prod.fst).reverse rfl (by simp [Search.timeline]) rfl
      fun x mem => ?_
    exact later.reaches_top rfl (List.mem_cons_of_mem s (mem_reverse.1 mem))
  | close => exact branch.of_same rfl suffix_rfl
  | pass => exact branch.of_same rfl suffix_rfl

lemma branch_turns (search : Searching next n t) (turns : ReflTransGen (Turn next) t t') (branch : Branch next t b older)
    (bounded : ∀ b s, s ∈ next b → s < n) : Branch next t' b older := by
  induction turns with
  | refl => exact branch
  | tail first last ih => exact (search.turns bounded first).branch_turn last ih bounded

lemma setOut (search : Searching next n t) (atRest : t.path = []) (fresh : root ∉ t.seen) (low : root < n) :
    Searching next n (t.setOut next root) := by
  refine search.insert (s := root) [] fresh low (Search.timeline_of_rest atRest) rfl rfl rfl rfl (by simp)
    ?_ (fun u edge => ⟨_, List.mem_singleton_self _, edge⟩) fun b u waits => ?_
  · exact forall_mem_singleton.2 (List.Subset.refl _)
  · obtain ⟨_, there, -⟩ := waits
    rw [atRest] at there
    cases there

end Searching

/-! ## The steps suffice -/

def pending (path : List Frame) : Nat :=
  (path.map fun frame => 1 + frame.2.length).sum

def unseen (next : Nat → List Nat) (n : Nat) (seen : List Nat) : Nat :=
  ∑ b ∈ (Finset.range n).filter (· ∉ seen), (1 + (next b).length)

lemma unseen_cons {seen : List Nat} (low : s < n) (fresh : s ∉ seen) :
    1 + (next s).length + unseen next n (s :: seen) = unseen next n seen := by
  have rest : (Finset.range n).filter (· ∉ s :: seen) = ((Finset.range n).filter (· ∉ seen)).erase s := by
    ext c
    simp only [Finset.mem_filter, mem_erase, List.mem_cons, not_or]
    tauto
  rw [unseen, unseen, rest]
  exact add_sum_erase _ (fun b => 1 + (next b).length) (by simp [low, fresh])

lemma unseen_le (next : Nat → List Nat) (n : Nat) (seen : List Nat) :
    unseen next n seen ≤ ∑ b ∈ Finset.range n, (1 + (next b).length) :=
  sum_le_sum_of_subset (Finset.filter_subset _ _)

namespace Searching

variable {t t' : Search}

lemma work_turn (search : Searching next n t) (bounded : ∀ b s, s ∈ next b → s < n) (turn : Turn next t t') :
    pending t'.path + unseen next n t'.seen + 1 = pending t.path + unseen next n t.seen := by
  cases turn with
  | leave =>
    simp only [pending, List.map_cons, List.sum_cons, length_nil]
    omega
  | @enter b s rest path seen left found fresh =>
    have less : 1 + (next s).length + unseen next n (s :: seen) = unseen next n seen :=
      unseen_cons (bounded b s search.top_edge) fresh
    simp only [pending, List.map_cons, List.sum_cons, length_cons]
    omega
  | close | pass =>
    simp only [pending, List.map_cons, List.sum_cons, length_cons]
    omega

lemma finishes (search : Searching next n t) (bounded : ∀ b s, s ∈ next b → s < n)
    (enough : pending t.path + unseen next n t.seen < fuel) : ∃ t', Finishes next t t' ∧
      explore next fuel t.path t.seen t.found = (t'.seen, t'.found) ∧
      leave next fuel t.path t.seen t.left = (t'.seen, t'.left) := by
  induction fuel generalizing t with
  | zero => exact absurd enough (Nat.not_lt_zero _)
  | succ fuel ih =>
    by_cases ended : t.path = []
    · refine ⟨t, ⟨.refl, ended⟩, ?_⟩
      rw [ended]
      exact ⟨rfl, rfl⟩
    · obtain ⟨t₁, turn, same⟩ := exists_turn next ended
      have work := search.work_turn bounded turn
      obtain ⟨t', ⟨turns, ended⟩, explored, left⟩ := ih (search.turn bounded turn) (by omega)
      exact ⟨t', ⟨.head turn turns, ended⟩, (same fuel).1.trans explored, (same fuel).2.trans left⟩

lemma head_turns (turns : ReflTransGen (Turn next) t t') (first : t.timeline.head? = some root) :
    t'.timeline.head? = some root := by
  induction turns with
  | refl => exact first
  | tail _ turn ih => cases turn <;> simpa [Search.timeline, head?_append] using ih

/-- A search from a root leaves the root and what it reaches, above the blocks left before. -/
lemma grown (search : Searching next n t) (bounded : ∀ b s, s ∈ next b → s < n) (atRest : t.path = [])
    (fresh : root ∉ t.seen) (low : root < n) (run : Finishes next (t.setOut next root) t') :
    Searching next n t' ∧ ∃ below, t'.left = root :: (below ++ t.left) ∧
      ∀ x ∈ below, ReflTransGen (Falls next t'.left) root x := by
  obtain ⟨turns, ended⟩ := run
  have begun := search.setOut atRest fresh low
  have after := begun.turns bounded turns
  have trunk : Branch next (t.setOut next root) root t.left := by
    refine ⟨suffix_rfl, [], [], rfl, by simp, fun x mem y edge => .inr ?_⟩
    rw [← Search.timeline_of_rest atRest]
    exact search.closed mem edge
  obtain ⟨-, above, below, split, reaches, -⟩ := begun.branch_turns turns trunk bounded
  have first : t'.timeline.head? = some root := head_turns turns rfl
  have nodup := after.nodup
  rw [Search.timeline_of_rest ended] at split reaches first nodup
  refine ⟨after, below, ?_, reaches⟩
  cases above with
  | nil => exact split
  | cons x above =>
    obtain rfl : x = root := by simpa [split] using first
    simp [split] at nodup

lemma setOut_finishes (search : Searching next n t) (bounded : ∀ b s, s ∈ next b → s < n) (atRest : t.path = [])
    (enough : ∑ b ∈ Finset.range n, (1 + (next b).length) < fuel) (fresh : root ∉ t.seen) (low : root < n) :
    ∃ t', Finishes next (t.setOut next root) t' ∧
      explore next fuel [(root, next root)] (root :: t.seen) t.found = (t'.seen, t'.found) ∧
      leave next fuel [(root, next root)] (root :: t.seen) t.left = (t'.seen, t'.left) := by
  refine (search.setOut atRest fresh low).finishes bounded (lt_of_le_of_lt ?_ enough)
  refine le_trans (le_of_eq ?_) (unseen_le next n t.seen)
  rw [← unseen_cons low fresh]
  simp [Search.setOut, pending]

end Searching

/-! ## Searches from all roots -/

section Traverse

variable {t t' : Search} (bounded : ∀ b s, s ∈ next b → s < n)

include bounded

lemma Traverses.searching (traverses : Traverses next roots t t') (search : Searching next n t) (atRest : t.path = [])
    (inside : ∀ root ∈ roots, root < n) :
    Searching next n t' ∧ t'.path = [] ∧ t.left <:+ t'.left ∧ ∀ root ∈ roots, root ∈ t'.left := by
  induction traverses with
  | done => exact ⟨search, atRest, suffix_rfl, by simp⟩
  | @skip root roots t t' known later ih =>
    obtain ⟨search', ended, older, all⟩ := ih search atRest (List.forall_mem_cons.1 inside).2
    refine ⟨search', ended, older, List.forall_mem_cons.2 ⟨older.subset ?_, all⟩⟩
    rw [← Search.timeline_of_rest atRest]
    exact (search.seen_iff root).1 known
  | @search root roots t t₁ t' fresh run later ih =>
    obtain ⟨low, inside⟩ := List.forall_mem_cons.1 inside
    obtain ⟨between, below, left, -⟩ := search.grown bounded atRest fresh low run
    obtain ⟨search', ended, older, all⟩ := ih between run.2 inside
    have first : t.left <:+ t₁.left := by
      rw [left]
      exact ⟨root :: below, rfl⟩
    refine ⟨search', ended, first.trans older, List.forall_mem_cons.2 ⟨older.subset ?_, all⟩⟩
    simp [left]

lemma Searching.traverses (search : Searching next n t) (atRest : t.path = []) (inside : ∀ root ∈ roots, root < n)
    (enough : ∑ b ∈ Finset.range n, (1 + (next b).length) < fuel) : ∃ t', Traverses next roots t t' ∧
      leavingOrder next fuel roots t.seen t.left = t'.left ∧
      ∀ g : Graph, g.succsOf = next → g.steps = fuel → g.backEdgesFrom roots t.seen t.found = t'.found := by
  induction roots generalizing t with
  | nil => exact ⟨t, .done, rfl, fun _ _ _ => rfl⟩
  | cons root roots ih =>
    obtain ⟨low, inside⟩ := List.forall_mem_cons.1 inside
    by_cases known : root ∈ t.seen
    · obtain ⟨t', later, order, edges⟩ := ih search atRest inside
      refine ⟨t', .skip known later, ?_, fun g succs steps => ?_⟩
      · simpa [leavingOrder, known] using order
      · simpa [Graph.backEdgesFrom, known] using edges g succs steps
    · obtain ⟨t₁, run, explored, left⟩ := search.setOut_finishes bounded atRest enough known low
      obtain ⟨t', later, order, edges⟩ := ih (search.grown bounded atRest known low run).1 run.2 inside
      refine ⟨t', .search known run later, ?_, fun g succs steps => ?_⟩
      · simpa [leavingOrder, known, left] using order
      · simpa [Graph.backEdgesFrom, known, succs, steps, explored] using edges g succs steps

/-- What the first root reaches, it reaches along edges that go down. -/
lemma Traverses.falls_of_leads (traverses : Traverses next (root :: roots) {} t') (inside : ∀ r ∈ root :: roots, r < n)
    (way : ReflTransGen (Leads next) root b) : ReflTransGen (Falls next t'.left) root b := by
  obtain ⟨low, inside⟩ := List.forall_mem_cons.1 inside
  cases traverses with
  | skip known => cases known
  | @search _ _ _ t₁ _ fresh run later =>
    obtain ⟨between, below, left, reaches⟩ := (Searching.start next n).grown bounded rfl fresh low run
    obtain ⟨-, -, older, -⟩ := later.searching bounded between run.2 inside
    have there : b ∈ t₁.left := between.mem_of_leads run.2 way (by simp [left])
    rw [left] at there
    rcases List.mem_cons.1 there with rfl | there
    · exact .refl
    · exact reach_mono (reaches b (by simpa using there)) older.sublist

end Traverse

end Faultline.Flow
