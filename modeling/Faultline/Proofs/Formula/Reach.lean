/-
# Proofs.Formula.Reach — the sweep finds the nodes of a formula

A formula uses itself and the operands of what it uses. Where operands are older than the
nodes they belong to, one sweep downward lists exactly what a formula uses, in ascending
order, so operands come before the nodes that use them.

The same is found by a search that takes nodes from a stack, expands each of them the
first time it comes up, and sorts what it has seen (`reachable_exact`). That search ends,
since a node that is put on the stack is older than one that was seen for the first time.
-/
import Faultline.Proofs.Formula.Meaning
import Faultline.Proofs.Outcome

namespace Faultline.Formula

variable {a : Arena} {f g : Nat} {n : Node} {h : Nat} {old asked all : Set Nat}

/-- `f` is built from `g`. -/
inductive Arena.Uses (a : Arena) (f : Nat) : Nat → Prop where
  | self : Uses a f f
  | operand {g h : Nat} (used : Uses a f g) (mem : h ∈ a.args g) : Uses a f h

/-- Operands are older than the nodes they belong to. -/
def Arena.Older (a : Arena) : Prop :=
  ∀ g, ∀ h ∈ a.args g, h < g

lemma Arena.Uses.trans (first : a.Uses f g) (second : a.Uses g h) : a.Uses f h := by
  induction second with
  | self => exact first
  | operand _ mem ih => exact ih.operand mem

lemma Arena.mem_args (found : a.node? f = some n) : a.args f = n.term.args := by
  simp [args, found]

lemma Arena.WellTyped.args_older (wt : a.WellTyped) (mem : h ∈ a.args g) : h < g := by
  unfold args at mem
  split at mem
  · exact ((wt.fits ‹_›).older h mem).2
  · cases mem

lemma Arena.WellTyped.older (wt : a.WellTyped) : a.Older :=
  fun _ _ => wt.args_older

lemma Arena.Uses.exists_node (wt : a.WellTyped) (found : a.node? f = some n)
    (used : a.Uses f g) : ∃ k, a.node? g = some k := by
  induction used with
  | self => exact ⟨n, found⟩
  | operand _ mem ih =>
    obtain ⟨k, node⟩ := ih
    rw [mem_args node] at mem
    exact wt.exists_operand node mem

lemma Arena.Uses.le_of_older (older : a.Older) (used : a.Uses f g) : g ≤ f := by
  induction used with
  | self => exact le_refl _
  | operand _ mem ih => exact (older _ _ mem).le.trans ih

lemma Arena.Uses.le (wt : a.WellTyped) (used : a.Uses f g) : g ≤ f :=
  used.le_of_older wt.older

/-! ## What a search covers -/

/-- What is asked for and all that it uses is there, besides what is old. -/
structure Arena.Covers (a : Arena) (old asked all : Set Nat) : Prop where
  kept : old ⊆ all
  met : asked ⊆ all
  closed : ∀ g ∈ all, g ∈ old ∨ ∀ h ∈ a.args g, h ∈ all
  source : ∀ g ∈ all, g ∈ old ∨ ∃ f ∈ asked, a.Uses f g

lemma Arena.covers_self (old : Set Nat) : a.Covers old ∅ old :=
  ⟨subset_rfl, Set.empty_subset _, fun _ => .inl, fun _ => .inl⟩

/-- A node is expanded: it is old from then on, and its operands are asked for. -/
lemma Arena.Covers.expand (rest : a.Covers (insert g old) ({h | h ∈ a.args g} ∪ asked) all) :
    a.Covers old (insert g asked) all := by
  have self : g ∈ all := rest.kept (Set.mem_insert g old)
  refine ⟨fun x mem => rest.kept (.inr mem), ?_, fun x mem => ?_, fun x mem => ?_⟩
  · rintro x (rfl | mem)
    · exact self
    · exact rest.met (.inr mem)
  · rcases rest.closed x mem with (rfl | mem) | closed
    · exact .inr fun h mem => rest.met (.inl mem)
    · exact .inl mem
    · exact .inr closed
  · rcases rest.source x mem with (rfl | mem) | ⟨f, operand | mem, used⟩
    · exact .inr ⟨x, .inl rfl, .self⟩
    · exact .inl mem
    · exact .inr ⟨g, .inl rfl, (Uses.self.operand operand).trans used⟩
    · exact .inr ⟨f, .inr mem, used⟩

lemma Arena.Covers.mem_iff (covers : a.Covers ∅ {f} all) : g ∈ all ↔ a.Uses f g := by
  constructor
  · intro mem
    obtain none | ⟨_, rfl, used⟩ := covers.source g mem
    · exact none.elim
    · exact used
  · intro used
    induction used with
    | self => exact covers.met rfl
    | operand _ mem ih => exact (covers.closed _ ih).resolve_left id _ mem

/-! ## The sweep -/

lemma getD_markAll (marks : Array Bool) (fs : List Nat) (i : Nat) :
    (markAll marks fs).getD i false = (marks.getD i false || decide (i ∈ fs ∧ i < marks.size)) := by
  unfold markAll
  induction fs generalizing marks with
  | nil => simp
  | cons f fs ih =>
    rw [List.foldl_cons, ih, Array.size_setIfInBounds]
    simp only [Array.getD_eq_getD_getElem?, Array.getElem?_setIfInBounds]
    by_cases same : f = i
    · subst same
      by_cases inside : f < marks.size
      · simp [inside]
      · simp [inside]
    · simp [same, Ne.symm same]

@[simp] lemma size_markAll (marks : Array Bool) (fs : List Nat) : (markAll marks fs).size = marks.size := by
  unfold markAll
  induction fs generalizing marks with
  | nil => rfl
  | cons f fs ih => rw [List.foldl_cons, ih, Array.size_setIfInBounds]

/-- The handles below `n` that are marked. -/
def markedBelow (marks : Array Bool) (n : Nat) : Set Nat :=
  {g | g < n ∧ marks.getD g false = true}

lemma sweep_covers (older : a.Older) (n : Nat) (marks : Array Bool) (found : List Nat) (large : n ≤ marks.size) :
    a.Covers {g | g ∈ found} (markedBelow marks n) {g | g ∈ sweep a n marks found} := by
  induction n generalizing marks found with
  | zero =>
    have none : markedBelow marks 0 = ∅ := by simp [markedBelow]
    rw [none]
    exact a.covers_self _
  | succ n ih =>
    unfold sweep
    split
    next here =>
      have rest := ih (markAll marks (a.args n)) (n :: found) (by simp; omega)
      have listed : {g | g ∈ n :: found} = insert n {g | g ∈ found} := by ext g; simp
      have operands : markedBelow (markAll marks (a.args n)) n = {h | h ∈ a.args n} ∪ markedBelow marks n := by
        ext g
        have low : g ∈ a.args n → g < n := older n g
        simp only [markedBelow, getD_markAll, Set.mem_ofPred_eq, Set.mem_union]
        grind
      have marked : markedBelow marks (n + 1) = insert n (markedBelow marks n) := by
        ext g
        simp only [markedBelow, Set.mem_ofPred_eq, Set.mem_insert_iff]
        grind
      rw [listed, operands] at rest
      rw [marked]
      exact rest.expand
    next absent =>
      have marked : markedBelow marks (n + 1) = markedBelow marks n := by
        ext g
        simp only [markedBelow, Set.mem_ofPred_eq]
        grind
      rw [marked]
      exact ih marks found (by omega)

lemma pairwise_sweep (n : Nat) (marks : Array Bool) {found : List Nat} (sorted : found.Pairwise (· < ·))
    (above : ∀ g ∈ found, n ≤ g) : (sweep a n marks found).Pairwise (· < ·) := by
  induction n generalizing marks found with
  | zero => exact sorted
  | succ n ih =>
    unfold sweep
    split
    · refine ih _ (List.pairwise_cons.2 ⟨above, sorted⟩) (List.forall_mem_cons.2 ⟨le_rfl, fun g mem => ?_⟩)
      exact Nat.le_of_succ_le (above g mem)
    · exact ih marks sorted fun g mem => Nat.le_of_succ_le (above g mem)

lemma Arena.Older.mem_reachable (older : a.Older) : g ∈ a.reachable f ↔ a.Uses f g := by
  have covers := sweep_covers older (f + 1) (markAll (Array.replicate (f + 1) false) [f]) [] (by simp)
  have marked : markedBelow (markAll (Array.replicate (f + 1) false) [f]) (f + 1) = {f} := by
    ext i
    have blank : (Array.replicate (f + 1) false).getD i false = false := by
      rw [Array.getD_eq_getD_getElem?, Array.getElem?_replicate]
      split <;> rfl
    simp only [markedBelow, getD_markAll, blank, Set.mem_ofPred_eq, Set.mem_singleton_iff]
    grind
  have none : {g : Nat | g ∈ ([] : List Nat)} = ∅ := by simp
  rw [marked, none] at covers
  exact covers.mem_iff

lemma Arena.mem_reachable (wt : a.WellTyped) : g ∈ a.reachable f ↔ a.Uses f g :=
  wt.older.mem_reachable

lemma Arena.pairwise_reachable (a : Arena) (f : Nat) : (a.reachable f).Pairwise (· < ·) :=
  pairwise_sweep (f + 1) _ .nil nofun

/-- What a formula uses comes in order: operands first. -/
lemma Arena.Older.before (older : a.Older) {before after : List Handle} (split : a.reachable f = before ++ g :: after) :
    ∀ h ∈ a.args g, h ∈ before := by
  intro h mem
  have used : a.Uses f g := older.mem_reachable.1 (by rw [split]; simp)
  have listed : h ∈ before ++ g :: after := split ▸ older.mem_reachable.2 (used.operand mem)
  have sorted := a.pairwise_reachable f
  rw [split, List.pairwise_append] at sorted
  rcases List.mem_append.1 listed with first | later
  · exact first
  · rcases List.mem_cons.1 later with rfl | later
    · exact absurd (older _ _ mem) (lt_irrefl _)
    · exact absurd ((List.pairwise_cons.1 sorted.2.1).1 h later) (Nat.lt_asymm (older _ _ mem))

lemma Arena.Older.getLast?_reachable (older : a.Older) (f : Nat) : (a.reachable f).getLast? = some f := by
  obtain ⟨before, after, split⟩ := List.append_of_mem (older.mem_reachable.2 (Uses.self (a := a) (f := f)))
  have sorted := a.pairwise_reachable f
  rw [split, List.pairwise_append, List.pairwise_cons] at sorted
  have none : after = [] := by
    refine List.eq_nil_iff_forall_not_mem.2 fun g mem => ?_
    have used : a.Uses f g := older.mem_reachable.1 (by rw [split]; simp [mem])
    exact absurd (sorted.2.1.1 g mem) (Nat.not_lt.2 (used.le_of_older older))
  rw [split, none, List.getLast?_append, List.getLast?_singleton, Option.some_or]

/-! ## The search -/

/-- The search with a stack: with the nodes seen so far it comes to see them all. -/
inductive Arena.Visits (a : Arena) : Finset Nat → List Nat → Finset Nat → Prop where
  | done {seen : Finset Nat} : Visits a seen [] seen
  | again {seen all : Finset Nat} {g : Nat} {stack : List Nat} (known : g ∈ seen) (rest : Visits a seen stack all) :
      Visits a seen (g :: stack) all
  | expand {seen all : Finset Nat} {g : Nat} {stack : List Nat} (new : g ∉ seen)
      (rest : Visits a (insert g seen) ((a.args g).reverse ++ stack) all) : Visits a seen (g :: stack) all

namespace Arena.Visits

variable {seen all : Finset Nat} {stack : List Nat}

lemma covers (visits : a.Visits seen stack all) : a.Covers ↑seen {g | g ∈ stack} ↑all := by
  induction visits with
  | done => simpa using a.covers_self _
  | @again seen all g stack known rest ih =>
    refine ⟨ih.kept, ?_, ih.closed, fun x mem => (ih.source x mem).imp_right fun source => ?_⟩
    · intro x mem
      rcases List.mem_cons.1 mem with rfl | mem
      · exact ih.kept known
      · exact ih.met mem
    · obtain ⟨f, asked, used⟩ := source
      exact ⟨f, List.mem_cons_of_mem g asked, used⟩
  | @expand seen all g stack new rest ih =>
    have pushed : {h | h ∈ (a.args g).reverse ++ stack} = {h | h ∈ a.args g} ∪ {h | h ∈ stack} := by ext h; simp
    have listed : {h | h ∈ g :: stack} = insert g {h | h ∈ stack} := by ext h; simp
    rw [Finset.coe_insert, pushed] at ih
    rw [listed]
    exact ih.expand

/-- Every node is expanded once, and all that comes up is below the bound. -/
lemma exists_of_older (older : a.Older) (bound : Nat) (below : ∀ g ∈ stack, g < bound) (seen : Finset Nat) :
    ∃ all, a.Visits seen stack all := by
  induction left : (Finset.range bound \ seen).card using Nat.strong_induction_on generalizing seen stack with
  | _ left ih =>
    subst left
    induction stack with
    | nil => exact ⟨seen, .done⟩
    | cons g stack rest =>
      obtain ⟨low, others⟩ := List.forall_mem_cons.1 below
      by_cases known : g ∈ seen
      · obtain ⟨all, visits⟩ := rest others
        exact ⟨all, .again known visits⟩
      · have fewer : (Finset.range bound \ insert g seen).card < (Finset.range bound \ seen).card := by
          refine Finset.card_lt_card ⟨Finset.sdiff_subset_sdiff subset_rfl (Finset.subset_insert g seen), fun all => ?_⟩
          simpa using all (Finset.mem_sdiff.2 ⟨Finset.mem_range.2 low, known⟩)
        have pushed : ∀ h ∈ (a.args g).reverse ++ stack, h < bound := List.forall_mem_append.2
          ⟨fun h operand => (older g h (List.mem_reverse.1 operand)).trans low, others⟩
        obtain ⟨all, visits⟩ := ih _ fewer pushed (insert g seen) rfl
        exact ⟨all, .expand known visits⟩

end Arena.Visits

/-- **The nodes of a formula.** Where operands are older than the nodes they belong to, the nodes of a formula of the
arena are listed in strictly ascending order, the formula last and every operand before what it belongs to. The list
holds the nodes that the formula is built from and no others. It is what the search with a stack has seen, which always
comes to its end. -/
theorem reachable_exact (older : a.Older) (inside : f < a.next) :
    ∃ fs all, outcome (reachable f) a = (.ok fs, a) ∧ fs.Pairwise (· < ·) ∧ (∀ g, g ∈ fs ↔ a.Uses f g) ∧
      fs.getLast? = some f ∧ (∀ before g after, fs = before ++ g :: after → ∀ h ∈ a.args g, h ∈ before) ∧
      a.Visits ∅ [f] all ∧ ∀ all', a.Visits ∅ [f] all' → all'.sort = fs := by
  obtain ⟨all, visits⟩ : ∃ all, a.Visits ∅ [f] all := Arena.Visits.exists_of_older older (f + 1) (by simp) ∅
  have sorted := a.pairwise_reachable f
  refine ⟨a.reachable f, all, ?_, sorted, fun g => older.mem_reachable, older.getLast?_reachable f,
    fun before g after split => older.before split, visits, fun all' visits' => ?_⟩
  · simp [reachable, outcome_bind, need, inside]
  · have covers := visits'.covers
    rw [Finset.coe_empty, show {g | g ∈ [f]} = ({f} : Set Nat) by ext g; simp] at covers
    have same : all' = (a.reachable f).toFinset := by
      ext g
      rw [List.mem_toFinset, older.mem_reachable, ← covers.mem_iff, Finset.mem_coe]
    rw [same]
    exact (List.toFinset_sort _ (sorted.imp Nat.ne_of_lt)).2 (sorted.imp Nat.le_of_lt)

def squaring : Arena where
  nodes := #[⟨8, .var "x"⟩, ⟨8, .arith .mul 1 1⟩, ⟨8, .var "y"⟩, ⟨1, .compare .eq 2 1⟩]
  refs := #[1, 1, 1, 1]
  live := 4

/-- The variable comes up three times and is listed once. -/
theorem reachable_exact_squaring : outcome (reachable 4) squaring = (.ok [1, 2, 4], squaring) ∧
    ∃ all, squaring.Visits ∅ [4] all ∧ all.sort = [1, 2, 4] := by
  have older : squaring.Older := by
    intro g h mem
    rcases g with _ | _ | _ | _ | _ | g
    case zero | succ.zero | succ.succ.succ.zero | succ.succ.succ.succ.succ => cases mem
    all_goals
      revert h
      decide
  obtain ⟨fs, all, run, -, -, -, -, visits, same⟩ := reachable_exact older (f := 4) (by decide)
  have listed : outcome (reachable 4) squaring = (.ok [1, 2, 4], squaring) := rfl
  cases run.symm.trans listed
  exact ⟨listed, all, visits, same all visits⟩

end Faultline.Formula
