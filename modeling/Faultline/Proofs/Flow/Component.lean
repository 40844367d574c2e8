/-
# Proofs.Flow.Component — components, and the cycle that is reported

Blocks are tied if each reaches the other. The groups that the backward searches
gather, in the reverse of the order in which a forward search leaves the blocks, are
exactly the classes of tied blocks (`groups_component`): what a backward search
comes to lies on the branch of its root, where the root reaches it (`mem_branch`).

A graph without self loops therefore has a cycle if and only if a component has two
blocks, and `Graph.cycle?` names a block on a cycle or there is none
(`Graph.cycle?_exact`).
-/
import Faultline.Proofs.Flow.BackEdge

namespace Faultline.Flow

open Relation (ReflTransGen TransGen)
open List Finset

variable {next prev : Nat → List Nat} {n fuel a b root : Nat} {roots above below older group : List Nat}
  {t t' done : Search}

/-! ## Tied blocks -/

def Tied (next : Nat → List Nat) (a b : Nat) : Prop :=
  ReflTransGen (Leads next) a b ∧ ReflTransGen (Leads next) b a

lemma Tied.symm (tied : Tied next a b) : Tied next b a :=
  ⟨tied.2, tied.1⟩

lemma Tied.trans {c : Nat} (first : Tied next a b) (second : Tied next b c) : Tied next a c :=
  ⟨first.1.trans second.1, second.2.trans first.2⟩

/-- A class of tied blocks. -/
structure Component (next : Nat → List Nat) (group : List Nat) : Prop where
  nodup : group.Nodup
  tied : ∀ a ∈ group, ∀ b ∈ group, Tied next a b
  whole : ∀ a ∈ group, ∀ b, Tied next a b → b ∈ group

lemma Component.reverse (component : Component next group) : Component next group.reverse := by
  refine ⟨nodup_reverse.2 component.nodup, ?_, ?_⟩
  · simpa using component.tied
  · simpa using component.whole

/-! ## Backward searches -/

lemma leave_append (path : List Frame) (seen left : List Nat) : leave next fuel path seen (left ++ older) =
    ((leave next fuel path seen left).1, (leave next fuel path seen left).2 ++ older) := by
  fun_induction leave next fuel path seen left with
  | case1 | case2 => rfl
  | case3 fuel b path seen left ih => exact ih
  | case4 fuel b s rest path seen left known ih => rw [leave, if_pos known, ih]
  | case5 fuel b s rest path seen left fresh ih => rw [leave, if_neg fresh, ih]

lemma Searching.gather (search : Searching prev n t) (bounded : ∀ b s, s ∈ prev b → s < n) (atRest : t.path = [])
    (enough : ∑ b ∈ Finset.range n, (1 + (prev b).length) < fuel) (fresh : root ∉ t.seen) (low : root < n) :
    ∃ t' group, leave prev fuel [(root, prev root)] (root :: t.seen) [] = (t'.seen, group) ∧ root ∈ group ∧
      Searching prev n t' ∧ t'.path = [] ∧ t'.left = group ++ t.left ∧
      ∀ x ∈ group, ReflTransGen (Falls prev t'.left) root x := by
  obtain ⟨t', run, -, left⟩ := search.setOut_finishes bounded atRest enough fresh low
  obtain ⟨after, below, parts, reaches⟩ := search.grown bounded atRest fresh low run
  have apart : leave prev fuel [(root, prev root)] (root :: t.seen) ([] ++ t.left) = _ :=
    leave_append [(root, prev root)] (root :: t.seen) []
  rw [nil_append, left] at apart
  obtain ⟨seen, whole⟩ := Prod.mk.inj apart
  have gathered : (leave prev fuel [(root, prev root)] (root :: t.seen) []).2 = root :: below :=
    append_cancel_right (whole.symm.trans parts)
  refine ⟨t', root :: below, ?_, List.mem_cons_self, after, run.2, parts, List.forall_mem_cons.2 ⟨.refl, reaches⟩⟩
  rw [← gathered, seen]

section Gather

variable (converse : ∀ a b, a ∈ prev b ↔ b ∈ next a)

include converse

lemma leads_converse : ReflTransGen (Leads prev) a b ↔ ReflTransGen (Leads next) b a := by
  have swapped : Leads prev = Function.swap (Leads next) := by
    funext a b
    exact propext (converse b a)
  rw [swapped, Relation.reflTransGen_swap]

/-- What a backward search comes to lies on the branch of its root. -/
lemma mem_branch (nodup : (above ++ root :: (below ++ older)).Nodup)
    (all : ∀ a b, b ∈ next a → a ∈ above ++ root :: (below ++ older))
    (apart : ∀ x ∈ older, ∀ y ∈ next x, y ∈ above ∨ y ∈ older) {left : List Nat} (nodup' : (group ++ left).Nodup)
    (gathered : ∀ x ∈ above, x ∈ left) (reach : ReflTransGen (Falls prev (group ++ left)) root b) (mem : b ∈ group) :
    b ∈ root :: below := by
  induction reach with
  | refl => exact List.mem_cons_self
  | @tail a b _ falls ih =>
    have branch := ih (mem_left_of_sublist nodup' falls.2 mem)
    have edge : a ∈ next b := (converse b a).1 falls.1
    have outside : b ∉ above := fun high => disjoint_of_nodup_append nodup' mem (gathered b high)
    rw [← cons_append] at all nodup
    rcases mem_append.1 ((mem_append.1 (all b a edge)).resolve_left outside) with here | low
    · exact here
    · -- a block left before the root does not lead to its branch
      obtain ⟨-, nodup₂, apart'⟩ := nodup_append.1 nodup
      rcases apart b low a edge with high | low'
      · exact absurd rfl (apart' a high a (mem_append_left _ branch))
      · exact absurd low' (disjoint_of_nodup_append nodup₂ branch)

section Order

variable (forward : Searching next n done) (ended : done.path = []) (bounded : ∀ a b, b ∈ next a → a < n)
  (all : ∀ b < n, b ∈ done.left)

include forward ended bounded all

lemma tied_of_gathered (split : done.left = above ++ root :: roots) (nodup : (group ++ t.left).Nodup)
    (gathered : ∀ x ∈ above, x ∈ t.left) (mem : b ∈ group)
    (reach : ReflTransGen (Falls prev (group ++ t.left)) root b) : Tied next root b := by
  refine ⟨?_, (leads_converse converse).1 (leads_of_falls reach)⟩
  have timeline := Search.timeline_of_rest ended
  obtain ⟨older, -, above', below, parts, reaches, apart⟩ := forward.branches root (by simp [timeline, split])
  have once := forward.nodup
  rw [timeline] at parts reaches once
  have lone := once
  rw [parts, nodup_middle, nodup_cons, mem_append, not_or] at lone
  obtain ⟨rfl, -, -⟩ := (append_cons_inj_of_notMem lone.1.1 lone.1.2).1 (parts.symm.trans split)
  rw [parts] at once
  rcases List.mem_cons.1 (mem_branch converse once (fun x y edge => parts ▸ all x (bounded x y edge)) apart nodup
    gathered reach mem) with rfl | low
  · exact .refl
  · exact leads_of_falls (reaches b low)

lemma component_of_gathered (split : done.left = above ++ root :: roots) (search : Searching prev n t)
    (atRest : t.path = []) (search' : Searching prev n t') (atRest' : t'.path = []) (left : t'.left = group ++ t.left)
    (gathered : ∀ x ∈ above, x ∈ t.left) (reaches : ∀ x ∈ group, ReflTransGen (Falls prev t'.left) root x) :
    Component next group := by
  have nodup := search'.nodup
  rw [Search.timeline_of_rest atRest', left] at nodup
  have tied : ∀ x ∈ group, Tied next root x := fun x mem =>
    tied_of_gathered converse forward ended bounded all split nodup gathered mem (left ▸ reaches x mem)
  refine ⟨(nodup_append.1 nodup).1, fun a memA b memB => (tied a memA).symm.trans (tied b memB),
    fun a mem b both => ?_⟩
  -- both the blocks gathered before and those gathered now are closed under going back
  have now : b ∈ t'.left :=
    search'.mem_of_leads atRest' ((leads_converse converse).2 both.2) (left ▸ mem_append_left _ mem)
  rw [left] at now
  refine (mem_append.1 now).resolve_right fun before => ?_
  exact disjoint_of_nodup_append nodup mem
    (search.mem_of_leads atRest ((leads_converse converse).2 both.1) before)

/-- **The groups are the components.** -/
theorem groups_component (enough : ∑ b ∈ Finset.range n, (1 + (prev b).length) < fuel)
    (split : done.left = above ++ roots) (search : Searching prev n t) (atRest : t.path = [])
    (gathered : ∀ x ∈ above, x ∈ t.left) : (∀ group ∈ groups prev fuel roots t.seen, Component next group) ∧
      ∀ b ∈ roots, b ∉ t.left → ∃ group ∈ groups prev fuel roots t.seen, b ∈ group := by
  have bounded' : ∀ b s, s ∈ prev b → s < n := fun b s edge => bounded s b ((converse s b).1 edge)
  have seen_iff : ∀ {t : Search} (b : Nat), Searching prev n t → t.path = [] → (b ∈ t.seen ↔ b ∈ t.left) :=
    fun b search atRest => by rw [search.seen_iff, Search.timeline_of_rest atRest]
  induction roots generalizing above t with
  | nil => exact ⟨by simp [groups], by simp⟩
  | cons root roots ih =>
    have later : done.left = (above ++ [root]) ++ roots := by simp [split]
    by_cases known : root ∈ t.seen
    · have there := (seen_iff root search atRest).1 known
      -- the root was gathered with an earlier one, and so is in the component of that one
      obtain ⟨components, covers⟩ := ih later search atRest fun x mem =>
        (mem_append.1 mem).elim (gathered x) fun same => List.mem_singleton.1 same ▸ there
      rw [groups, if_pos (by simpa using known)]
      refine ⟨components, List.forall_mem_cons.2 ⟨fun fresh => absurd there fresh, covers⟩⟩
    · have low : root < n := by
        have := forward.below root
        rw [Search.timeline_of_rest ended, split] at this
        exact this (by simp)
      obtain ⟨t', group, same, mem, search', atRest', left, reaches⟩ :=
        search.gather bounded' atRest enough known low
      obtain ⟨components, covers⟩ := ih later search' atRest' fun x mem' => by
        rw [left, mem_append]
        rcases mem_append.1 mem' with old | same
        · exact .inr (gathered x old)
        · exact .inl (List.mem_singleton.1 same ▸ mem)
      rw [groups, if_neg (by simpa using known), same]
      have component := component_of_gathered converse forward ended bounded all split search atRest search' atRest'
        left gathered reaches
      refine ⟨List.forall_mem_cons.2 ⟨component.reverse, components⟩, fun b listed fresh => ?_⟩
      by_cases here : b ∈ group
      · exact ⟨group.reverse, List.mem_cons_self, mem_reverse.2 here⟩
      · have other : b ≠ root := fun same => here (same ▸ mem)
        obtain ⟨found, listed, inside⟩ := covers b (mem_of_ne_of_mem other listed) (by simp [left, here, fresh])
        exact ⟨found, List.mem_cons_of_mem _ listed, inside⟩

end Order

end Gather

/-! ## Cycles -/

lemma Component.cycle (component : Component next (b :: group)) (long : 1 < (b :: group).length) :
    TransGen (Leads next) b b := by
  obtain ⟨c, rest, rfl⟩ : ∃ c rest, group = c :: rest := exists_cons_of_length_pos (by simpa using long)
  have other : b ≠ c := fun same => (nodup_cons.1 component.nodup).1 (same ▸ List.mem_cons_self)
  obtain ⟨there, back⟩ := component.tied b List.mem_cons_self c (by simp)
  rcases Relation.reflTransGen_iff_eq_or_transGen.1 there with same | way
  · exact absurd same.symm other
  · exact way.trans_left back

/-- A block alone in its component lies on a self loop or on no cycle. -/
lemma Component.loop_of_cycle (component : Component next group) (short : ¬ 1 < group.length) (mem : a ∈ group)
    (cycle : TransGen (Leads next) a a) : Leads next a a := by
  obtain ⟨b, edge, way⟩ := TransGen.head'_iff.1 cycle
  obtain ⟨c, rfl⟩ : ∃ c, group = [c] := length_eq_one_iff.1 (by have := length_pos_of_mem mem; omega)
  have alone := component.whole a mem b ⟨.single edge, way⟩
  rwa [List.mem_singleton.1 alone, ← List.mem_singleton.1 mem] at edge

namespace Graph

variable {m : IR.Module} {f : IR.Func} {g : Graph} {cut : EdgeSet}

lemma leads_forward : Leads (g.forward cut) = g.Flows cut := by
  funext a b
  simp [Leads, forward, Flows]

lemma mem_backward (run : ofFunc m f = .ok g) : a ∈ g.backward cut b ↔ b ∈ g.forward cut a := by
  rw [backward, List.mem_filter, List.mem_range, contains_iff_mem]
  refine ⟨fun h => h.2, fun edge => ⟨?_, edge⟩⟩
  exact lt_of_mem_succsOf run (List.mem_filter.1 edge).1

lemma sum_forward_lt (run : ofFunc m f = .ok g) (cut : EdgeSet) :
    ∑ b ∈ Finset.range g.size, (1 + (g.forward cut b).length) < g.steps :=
  lt_of_le_of_lt (Finset.sum_le_sum fun _ _ => Nat.add_le_add_left (length_filter_le _ _) 1) (sum_succsOf_lt run)

/-- Each edge is counted once at its source and once at its target. -/
lemma sum_backward_le (cut : EdgeSet) : ∑ b ∈ Finset.range g.size, (g.backward cut b).length ≤
    ∑ b ∈ Finset.range g.size, (g.forward cut b).length := by
  have counted : ∀ b, (g.backward cut b).length =
      (bipartiteBelow (fun a b => b ∈ g.forward cut a) (Finset.range g.size) b).card := by
    intro b
    rw [backward, ← toFinset_card_of_nodup (nodup_range.filter _), bipartiteBelow]
    congr 1
    ext a
    simp
  rw [sum_congr rfl fun b _ => counted b, ← sum_card_bipartiteAbove_eq_sum_card_bipartiteBelow]
  refine Finset.sum_le_sum fun a _ => le_trans (card_le_card fun b mem => ?_) (toFinset_card_le _)
  exact mem_toFinset.2 (Finset.mem_filter.1 mem).2

lemma sum_backward_lt (run : ofFunc m f = .ok g) (cut : EdgeSet) :
    ∑ b ∈ Finset.range g.size, (1 + (g.backward cut b).length) < g.steps := by
  refine lt_of_le_of_lt ?_ (sum_forward_lt run cut)
  rw [sum_add_distrib, sum_add_distrib]
  exact Nat.add_le_add_left (sum_backward_le cut) _

lemma components_component (run : ofFunc m f = .ok g) (cut : EdgeSet) :
    (∀ group ∈ g.components cut, Component (g.forward cut) group) ∧
      ∀ b < g.size, ∃ group ∈ g.components cut, b ∈ group := by
  have source : ∀ a b, b ∈ g.forward cut a → a < g.size := fun a b edge =>
    lt_of_mem_succsOf run (List.mem_filter.1 edge).1
  have target : ∀ a b, b ∈ g.forward cut a → b < g.size := fun a b edge =>
    target_lt_of_mem_succsOf run (List.mem_filter.1 edge).1
  have inside : ∀ root ∈ List.range g.size, root < g.size := fun root => List.mem_range.1
  have start := Searching.start (g.forward cut) g.size
  obtain ⟨done, traverses, order, -⟩ := start.traverses target rfl inside (sum_forward_lt run cut)
  obtain ⟨forward, ended, -, all⟩ := traverses.searching target start rfl inside
  have all : ∀ b < g.size, b ∈ done.left := fun b low => all b (List.mem_range.2 low)
  have same : g.components cut = groups (g.backward cut) g.steps done.left [] := by rw [components, ← order]
  obtain ⟨components, covers⟩ := groups_component (fun a b => mem_backward run) forward ended source all
    (sum_backward_lt run cut) (nil_append _).symm (Searching.start (g.backward cut) g.size) rfl (by simp)
  rw [same]
  exact ⟨components, fun b low => covers b (all b low) (by simp)⟩

lemma lt_of_cycle (run : ofFunc m f = .ok g) (cycle : TransGen (g.Flows cut) b b) : b < g.size := by
  obtain ⟨c, edge, -⟩ := TransGen.head'_iff.1 cycle
  exact lt_of_mem_succsOf run edge.1

/-- What the report of a cycle says. -/
def Confirms (g : Graph) (cut : EdgeSet) : Cycle → Prop
  | .selfLoop b => g.Flows cut b b
  | .through b => TransGen (g.Flows cut) b b

lemma confirms_of_cycle? (run : ofFunc m f = .ok g) {c : Cycle} (found : g.cycle? cut = some c) : g.Confirms cut c := by
  unfold cycle? at found
  rcases loop : g.selfLoop? cut with _ | b
  · rw [loop] at found
    rcases long : (g.components cut).find? fun c => 1 < c.length with _ | _ | ⟨b, group⟩
    · rw [long] at found
      cases found
    · rw [long] at found
      cases found
    · rw [long] at found
      cases found
      rw [Confirms, ← leads_forward]
      exact ((components_component run cut).1 _ (mem_of_find?_eq_some long)).cycle
        (by simpa using find?_some long)
  · rw [loop] at found
    cases found
    rw [Confirms, ← leads_forward]
    have there := find?_some loop
    exact contains_iff_mem.1 there

lemma acyclic_of_cycle? (run : ofFunc m f = .ok g) (none : g.cycle? cut = none) (b : Nat) :
    ¬ TransGen (g.Flows cut) b b := by
  intro cycle
  have low := lt_of_cycle run cycle
  rw [← leads_forward] at cycle
  unfold cycle? at none
  rcases loop : g.selfLoop? cut with _ | a
  · rw [loop] at none
    obtain ⟨components, covers⟩ := components_component run cut
    obtain ⟨group, listed, mem⟩ := covers b low
    rcases long : (g.components cut).find? fun c => 1 < c.length with _ | group
    · have short := find?_eq_none.1 long group listed
      have edge := (components group listed).loop_of_cycle (by simpa using short) mem cycle
      have := find?_eq_none.1 loop b (List.mem_range.2 low)
      exact this (contains_iff_mem.2 edge)
    · rw [long] at none
      have := find?_some long
      cases group with
      | nil => cases this
      | cons => cases none
  · rw [loop] at none
    cases none

lemma cycle?_of_acyclic (run : ofFunc m f = .ok g) (acyclic : ∀ b, ¬ TransGen (g.Flows cut) b b) :
    g.cycle? cut = none := by
  rcases found : g.cycle? cut with _ | c
  · rfl
  · have confirmed := confirms_of_cycle? run found
    cases c with
    | selfLoop b => exact absurd (.single confirmed) (acyclic b)
    | through b => exact absurd confirmed (acyclic b)

/-- **Cycles are found exactly.** None is reported if and only if there is none, and a report names a block on a cycle.
The groups it is read from are the classes of blocks that reach each other, and no block is missing. -/
theorem cycle?_exact (run : ofFunc m f = .ok g) (cut : EdgeSet) :
    (g.cycle? cut = none ↔ ∀ b, ¬ TransGen (g.Flows cut) b b) ∧ (∀ c, g.cycle? cut = some c → g.Confirms cut c) ∧
      (∀ group ∈ g.components cut, Component (g.forward cut) group) ∧
      ∀ b < g.size, ∃ group ∈ g.components cut, b ∈ group :=
  ⟨⟨acyclic_of_cycle? run, cycle?_of_acyclic run⟩, fun _ => confirms_of_cycle? run, components_component run cut⟩

def ringFunc : IR.Func where
  id := 0
  name := []
  result := .void
  params := []
  blocks := #[⟨3, #[], some 5⟩, ⟨4, #[], some 6⟩]

def ringModule : IR.Module :=
  { defs := IR.shared ++ #[.block (.number 0), .block (.number 1), .term (.number 0) .void (.br 4) [],
      .term (.number 0) .void (.br 3) []] }

def ring : Graph :=
  { func := ringFunc
    index := numbering ringFunc
    preds := #[[1], [0]]
    succs := #[[1], [0]]
    ids := ((∅ : Std.HashMap IR.ValueId Nat).insert 5 0).insert 6 1
    blockOf := #[0, 1] }

lemma ofFunc_ring : ofFunc ringModule ringFunc = .ok ring := by
  have unfolded : ring.index = ((∅ : Std.HashMap IR.ValueId Nat).insert 3 0).insert 4 1 := rfl
  have second : ring.index[4]? = some 1 := by
    rw [unfolded, Std.HashMap.getElem?_insert]
    rfl
  have first : ring.index[3]? = some 0 := by
    rw [unfolded, Std.HashMap.getElem?_insert, Std.HashMap.getElem?_insert]
    rfl
  refine ofFunc_of_blocks rfl (foldlM_cons_ok (addBlock_ok.2 ⟨[1], .cons second .nil, rfl⟩) ?_)
  exact foldlM_cons_ok (addBlock_ok.2 ⟨[0], .cons first .nil, rfl⟩) rfl

/-- The ring is named by its second block, and without the way back there is no cycle. -/
theorem cycle?_exact_ring : ofFunc ringModule ringFunc = .ok ring ∧ ring.cycle? {} = some (.through 1) ∧
    TransGen (ring.Flows {}) 1 1 ∧ ∀ b, ¬ TransGen (ring.Flows ⟨[(1, 0)]⟩) b b :=
  ⟨ofFunc_ring, by decide +kernel, (cycle?_exact ofFunc_ring {}).2.1 (.through 1) (by decide +kernel),
    (cycle?_exact ofFunc_ring ⟨[(1, 0)]⟩).1.1 (by decide +kernel)⟩

end Graph

end Faultline.Flow
