/-
# Proofs.Formula.Tied — arenas that are filled side by side

Two arenas are `Tied` when the formulas that were built together are of one shape:
`Links` lists their handles in pairs. Either arena may have further constants of its
own, of which equal ones stand for each other as operands of arithmetic and of
comparisons.

Every builder takes tied arenas to tied arenas: it returns in both of them or in
neither, and the results are a pair again.
-/
import Faultline.Proofs.Abreast
import Faultline.Proofs.Formula.Granted

namespace Faultline.Formula

open List

/-- What was built in two arenas side by side. -/
structure Links where
  pairs : List (Handle × Handle) := []
  /-- Constants that only the first arena has, -/
  left : List (Handle × Node) := []
  /-- and those that only the second one has. -/
  right : List (Handle × Node) := []

namespace Links

variable {l k j : Links} {f f' : Handle}

/-- The handles are a pair, or of equal constants that belong to one arena each. -/
def Alike (l : Links) (f f' : Handle) : Prop :=
  (f, f') ∈ l.pairs ∨ ∃ n, (f, n) ∈ l.left ∧ (f', n) ∈ l.right

/-- Nothing is lost. -/
structure Within (l k : Links) : Prop where
  pairs : l.pairs ⊆ k.pairs
  left : l.left ⊆ k.left
  right : l.right ⊆ k.right

lemma Within.refl (l : Links) : l.Within l :=
  ⟨List.Subset.refl _, List.Subset.refl _, List.Subset.refl _⟩

lemma Within.trans (first : l.Within k) (second : k.Within j) : l.Within j :=
  ⟨List.Subset.trans first.pairs second.pairs, List.Subset.trans first.left second.left,
    List.Subset.trans first.right second.right⟩

lemma Alike.mono (alike : l.Alike f f') (within : l.Within k) : k.Alike f f' := by
  obtain pair | ⟨n, left, right⟩ := alike
  · exact .inl (within.pairs pair)
  · exact .inr ⟨n, within.left left, within.right right⟩

def join (l : Links) (f f' : Handle) : Links :=
  { l with pairs := (f, f') :: l.pairs }

lemma within_join (l : Links) (f f' : Handle) : l.Within (l.join f f') :=
  ⟨subset_cons_self _ _, List.Subset.refl _, List.Subset.refl _⟩

def joinLeft (l : Links) (f : Handle) (n : Node) : Links :=
  { l with left := (f, n) :: l.left }

lemma within_joinLeft (l : Links) (f : Handle) (n : Node) : l.Within (l.joinLeft f n) :=
  ⟨List.Subset.refl _, subset_cons_self _ _, List.Subset.refl _⟩

def joinRight (l : Links) (f : Handle) (n : Node) : Links :=
  { l with right := (f, n) :: l.right }

lemma within_joinRight (l : Links) (f : Handle) (n : Node) : l.Within (l.joinRight f n) :=
  ⟨List.Subset.refl _, List.Subset.refl _, subset_cons_self _ _⟩

def swap (l : Links) : Links where
  pairs := l.pairs.map Prod.swap
  left := l.right
  right := l.left

@[simp] lemma mem_swap : (f, f') ∈ l.swap.pairs ↔ (f', f) ∈ l.pairs := by
  simp [swap]

lemma Alike.swap (alike : l.Alike f f') : l.swap.Alike f' f := by
  obtain pair | ⟨n, left, right⟩ := alike
  · exact .inl (mem_swap.2 pair)
  · exact .inr ⟨n, right, left⟩

end Links

/-! ## Shapes -/

def Term.const? : Term → Option Nat
  | .const v => some v
  | _ => none

/-- Terms of one shape. Names of variables do not count. -/
inductive Term.Tied (l : Links) : Term → Term → Prop where
  | const (v : Nat) : Tied l (.const v) (.const v)
  | var (name name' : String) : Tied l (.var name) (.var name')
  | not {x x' : Handle} (pair : (x, x') ∈ l.pairs) : Tied l (.not x) (.not x')
  | zext {x x' : Handle} (pair : (x, x') ∈ l.pairs) : Tied l (.zext x) (.zext x')
  | sext {x x' : Handle} (pair : (x, x') ∈ l.pairs) : Tied l (.sext x) (.sext x')
  | extract {x x' : Handle} (pair : (x, x') ∈ l.pairs) (hi lo : Nat) : Tied l (.extract x hi lo) (.extract x' hi lo)
  | ite {c c' t t' e e' : Handle} (cond : (c, c') ∈ l.pairs) (onTrue : (t, t') ∈ l.pairs)
      (onFalse : (e, e') ∈ l.pairs) : Tied l (.ite c t e) (.ite c' t' e')
  | arith {x x' y y' : Handle} (op : Arith) (first : l.Alike x x') (second : l.Alike y y') :
      Tied l (.arith op x y) (.arith op x' y')
  | compare {x x' y y' : Handle} (op : Compare) (first : l.Alike x x') (second : l.Alike y y') :
      Tied l (.compare op x y) (.compare op x' y')

structure Node.Tied (l : Links) (n n' : Node) : Prop where
  width : n'.width = n.width
  term : Term.Tied l n.term n'.term

variable {l k : Links} {a a' b b' : Arena} {f f' g g' r r' w v : Nat} {n n' : Node}

lemma Term.Tied.mono {t t' : Term} (tied : Term.Tied l t t') (within : l.Within k) : Term.Tied k t t' := by
  cases tied with
  | const v => exact .const v
  | var name name' => exact .var name name'
  | not pair => exact .not (within.pairs pair)
  | zext pair => exact .zext (within.pairs pair)
  | sext pair => exact .sext (within.pairs pair)
  | extract pair hi lo => exact .extract (within.pairs pair) hi lo
  | ite cond onTrue onFalse => exact .ite (within.pairs cond) (within.pairs onTrue) (within.pairs onFalse)
  | arith op first second => exact .arith op (first.mono within) (second.mono within)
  | compare op first second => exact .compare op (first.mono within) (second.mono within)

lemma Term.Tied.node {t t' : Term} (tied : Term.Tied l t t') (w : Nat) : Node.Tied l ⟨w, t⟩ ⟨w, t'⟩ :=
  ⟨rfl, tied⟩

lemma Node.Tied.mono (tied : Node.Tied l n n') (within : l.Within k) : Node.Tied k n n' :=
  ⟨tied.width, tied.term.mono within⟩

lemma Term.Tied.swap {t t' : Term} (tied : Term.Tied l t t') : Term.Tied l.swap t' t := by
  cases tied with
  | const v => exact .const v
  | var name name' => exact .var name' name
  | not pair => exact .not (Links.mem_swap.2 pair)
  | zext pair => exact .zext (Links.mem_swap.2 pair)
  | sext pair => exact .sext (Links.mem_swap.2 pair)
  | extract pair hi lo => exact .extract (Links.mem_swap.2 pair) hi lo
  | ite cond onTrue onFalse =>
    exact .ite (Links.mem_swap.2 cond) (Links.mem_swap.2 onTrue) (Links.mem_swap.2 onFalse)
  | arith op first second => exact .arith op first.swap second.swap
  | compare op first second => exact .compare op first.swap second.swap

lemma Term.Tied.const?_eq {t t' : Term} (tied : Term.Tied l t t') : t'.const? = t.const? := by
  cases tied <;> rfl

lemma Term.Tied.args {t t' : Term} (tied : Term.Tied l t t') : Forall₂ l.Alike t.args t'.args := by
  cases tied with
  | const | var => exact .nil
  | not pair | zext pair | sext pair | extract pair => exact .cons (.inl pair) .nil
  | ite cond onTrue onFalse => exact .cons (.inl cond) (.cons (.inl onTrue) (.cons (.inl onFalse) .nil))
  | arith op first second | compare op first second => exact .cons first (.cons second .nil)

namespace Arena

/-- Constants that an arena has for itself. -/
def Distinct (a : Arena) (taken : List Handle) (alone : List (Handle × Node)) : Prop :=
  ∀ e ∈ alone, a.node? e.1 = some e.2 ∧ e.2.term.const?.isSome ∧ a.count e.1 = 1 ∧ e.1 ∉ taken

/-- Pairs are of one shape and have equal counts. -/
structure Linked (l : Links) (a a' : Arena) : Prop where
  once : ∀ p ∈ l.pairs, ∀ q ∈ l.pairs, p.1 = q.1 ↔ p.2 = q.2
  node : ∀ p ∈ l.pairs, ∃ n n', a.node? p.1 = some n ∧ a'.node? p.2 = some n' ∧ n.Tied l n'
  count : ∀ p ∈ l.pairs, a'.count p.2 = a.count p.1
  left : a.Distinct (l.pairs.map Prod.fst) l.left
  right : a'.Distinct (l.pairs.map Prod.snd) l.right

/-- Well-formed arenas that were filled side by side. -/
structure Tied (l : Links) (a a' : Arena) : Prop extends a.Linked l a' where
  ofLeft : a.WellFormed
  ofRight : a'.WellFormed

lemma Tied.swap (tied : a.Tied l a') : a'.Tied l.swap a := by
  refine ⟨⟨fun p mem q mem' => ?_, fun p mem => ?_, fun p mem => ?_, ?_, ?_⟩, tied.ofRight, tied.ofLeft⟩
  · exact (tied.once _ (Links.mem_swap.1 mem) _ (Links.mem_swap.1 mem')).symm
  · obtain ⟨n, n', found, found', shape⟩ := tied.node _ (Links.mem_swap.1 mem)
    exact ⟨n', n, found', found, shape.width.symm, shape.term.swap⟩
  · exact (tied.count _ (Links.mem_swap.1 mem)).symm
  · have firsts : l.swap.pairs.map Prod.fst = l.pairs.map Prod.snd := by simp [Links.swap]
    rw [firsts]
    exact tied.right
  · have seconds : l.swap.pairs.map Prod.snd = l.pairs.map Prod.fst := by simp [Links.swap]
    rw [seconds]
    exact tied.left

lemma tied_empty : Tied {} {} {} :=
  ⟨⟨nofun, nofun, nofun, nofun, nofun⟩, wellFormed_empty, wellFormed_empty⟩

/-! ## Single changes -/

lemma lt_next (wf : a.WellFormed) (found : a.node? f = some n) : f < a.next :=
  (realized_of_node? wf.isOpen found).2

lemma count_next (wf : a.WellFormed) : a.count a.next = 0 := by
  rw [count_eq wf.isOpen, next_eq wf]
  simp [wf.sizes]

lemma Distinct.push {taken : List Handle} {alone : List (Handle × Node)} (apart : a.Distinct taken alone)
    (wf : a.WellFormed) (n : Node) (names : Std.HashSet String) : (a.push n names).Distinct (a.next :: taken) alone := by
  intro e mem
  obtain ⟨found, constant, single, free⟩ := apart e mem
  have older : e.1 ≠ a.next := (lt_next wf found).ne
  refine ⟨(grows_push wf n names).node found, constant, ?_, ?_⟩
  · rw [count_push wf, if_neg older]
    exact single
  · rw [mem_cons, not_or]
    exact ⟨older, free⟩

lemma Tied.push (tied : a.Tied l a') (nodes : n.Tied l n') (names names' : Std.HashSet String) :
    (a.push n names).Linked (l.join a.next a'.next) (a'.push n' names') := by
  have within := l.within_join a.next a'.next
  have older : ∀ p ∈ l.pairs, p.1 ≠ a.next ∧ p.2 ≠ a'.next := by
    intro p mem
    obtain ⟨m, m', found, found', -⟩ := tied.node p mem
    exact ⟨(lt_next tied.ofLeft found).ne, (lt_next tied.ofRight found').ne⟩
  refine ⟨fun p mem q mem' => ?_, fun p mem => ?_, fun p mem => ?_, tied.left.push tied.ofLeft n names,
    tied.right.push tied.ofRight n' names'⟩
  · rcases mem_cons.1 mem with rfl | mem <;> rcases mem_cons.1 mem' with rfl | mem'
    · exact iff_of_true rfl rfl
    · exact iff_of_false (older q mem').1.symm (older q mem').2.symm
    · exact iff_of_false (older p mem).1 (older p mem).2
    · exact tied.once p mem q mem'
  · rcases mem_cons.1 mem with rfl | mem
    · exact ⟨n, n', node?_push_next tied.ofLeft, node?_push_next tied.ofRight, nodes.mono within⟩
    · obtain ⟨m, m', found, found', shape⟩ := tied.node p mem
      exact ⟨m, m', (grows_push tied.ofLeft n names).node found, (grows_push tied.ofRight n' names').node found',
        shape.mono within⟩
  · rw [count_push tied.ofLeft, count_push tied.ofRight]
    rcases mem_cons.1 mem with rfl | mem
    · rw [count_next tied.ofLeft, count_next tied.ofRight, if_pos rfl, if_pos rfl]
    · rw [if_neg (older p mem).1, if_neg (older p mem).2, tied.count p mem]

/-- Counts of a pair change alike, and nothing else does. -/
lemma Linked.recount (linked : a.Linked l a') (pair : (f, f') ∈ l.pairs) (change : Nat → Nat)
    (nodes : b.node? = a.node?) (nodes' : b'.node? = a'.node?)
    (counts : ∀ g : Nat, b.count g = if g = f then change (a.count g) else a.count g)
    (counts' : ∀ g : Nat, b'.count g = if g = f' then change (a'.count g) else a'.count g) : b.Linked l b' := by
  refine ⟨linked.once, fun p mem => ?_, fun p mem => ?_, fun e mem => ?_, fun e mem => ?_⟩
  · rw [nodes, nodes']
    exact linked.node p mem
  · rw [counts, counts', linked.count p mem]
    exact if_congr (linked.once p mem _ pair).symm rfl rfl
  · obtain ⟨found, constant, single, free⟩ := linked.left e mem
    have other : e.1 ≠ f := fun same => free (same ▸ mem_map_of_mem pair)
    rw [nodes, counts, if_neg other]
    exact ⟨found, constant, single, free⟩
  · obtain ⟨found, constant, single, free⟩ := linked.right e mem
    have other : e.1 ≠ f' := fun same => free (same ▸ mem_map_of_mem pair)
    rw [nodes', counts', if_neg other]
    exact ⟨found, constant, single, free⟩

lemma Tied.hold (tied : a.Tied l a') (pair : (f, f') ∈ l.pairs) : (a.hold f).Tied l (a'.hold f') := by
  obtain ⟨n, n', found, found', -⟩ := tied.node _ pair
  have adds {c : Arena} (wf : c.WellFormed) {h : Nat} (realized : c.Realized h) (g : Nat) :
      (c.hold h).count g = if g = h then c.count g + 1 else c.count g := by
    rw [count_hold wf realized]
    split <;> rfl
  exact ⟨tied.recount pair (· + 1) rfl rfl (adds tied.ofLeft (realized_of_node? tied.ofLeft.isOpen found))
    (adds tied.ofRight (realized_of_node? tied.ofRight.isOpen found')), tied.ofLeft.hold f, tied.ofRight.hold f'⟩

lemma Tied.drop (tied : a.Tied l a') (pair : (f, f') ∈ l.pairs) (counted : 0 < a.count f) :
    (a.drop f).Tied l (a'.drop f') := by
  have takes {c : Arena} (wf : c.WellFormed) {h : Nat} (counted : 0 < c.count h) (g : Nat) :
      (c.drop h).count g = if g = h then c.count g - 1 else c.count g := by
    rw [count_drop wf counted]
    split <;> rfl
  have same : a'.count f' = a.count f := tied.count _ pair
  exact ⟨tied.recount pair (· - 1) rfl rfl (takes tied.ofLeft counted) (takes tied.ofRight (same ▸ counted)),
    tied.ofLeft.drop f, tied.ofRight.drop f'⟩

lemma Tied.pushLeft (tied : a.Tied l a') (constant : n.term.const?.isSome) (fits : a.Fits a.next n)
    (names : Std.HashSet String) : (a.push n names).Tied (l.joinLeft a.next n) a' := by
  have within := l.within_joinLeft a.next n
  have older : ∀ p ∈ l.pairs, p.1 ≠ a.next := fun p mem => by
    obtain ⟨m, m', found, -⟩ := tied.node p mem
    exact (lt_next tied.ofLeft found).ne
  refine ⟨⟨tied.once, fun p mem => ?_, fun p mem => ?_, fun e mem => ?_, tied.right⟩, tied.ofLeft.push fits, tied.ofRight⟩
  · obtain ⟨m, m', found, found', shape⟩ := tied.node p mem
    exact ⟨m, m', (grows_push tied.ofLeft n names).node found, found', shape.mono within⟩
  · rw [count_push tied.ofLeft, if_neg (older p mem)]
    exact tied.count p mem
  · rcases mem_cons.1 mem with rfl | mem
    · refine ⟨node?_push_next tied.ofLeft, constant, ?_, fun taken => ?_⟩
      · rw [count_push tied.ofLeft, count_next tied.ofLeft, if_pos rfl]
      · obtain ⟨p, mem, same⟩ := mem_map.1 taken
        exact older p mem same
    · obtain ⟨found, constant, single, free⟩ := tied.left.push tied.ofLeft n names e mem
      exact ⟨found, constant, single, fun taken => free (mem_cons_of_mem _ taken)⟩

end Arena

/-! ## Checks -/


lemma outcome_need (p : Prop) [Decidable p] (fault : Fault) (a : Arena) :
    outcome (need p fault) a = if p then (.ok (), a) else (.error fault, a) := by
  unfold need
  split <;> rfl

lemma need_abreast {α α' : Type} {p p' : Prop} [Decidable p] [Decidable p'] {e e' : Fault} {x : Unit → Build α}
    {x' : Unit → Build α'} {Q : α → Arena → α' → Arena → Prop} (same : p ↔ p')
    (next : p → Abreast a a' (x ()) (x' ()) Q) : Abreast a a' (need p e >>= x) (need p' e' >>= x') Q := by
  unfold need
  by_cases holds : p
  · rw [if_pos holds, if_pos (same.1 holds)]
    exact Abreast.bind (Q := fun _ b _ b' => b = a ∧ b' = a') ⟨rfl, rfl⟩ (by rintro _ _ _ _ ⟨rfl, rfl⟩; exact next holds)
  · rw [if_neg holds, if_neg fun holds' => holds (same.2 holds')]
    exact Abreast.bind (Q := fun _ _ _ _ => False) Abreast.throw fun _ _ _ _ none => none.elim

lemma outcome_held (wf : a.WellFormed) (found : a.node? f = some n) :
    outcome (held f) a = if 0 < a.count f then (.ok n, a) else (.error (.alreadyReleased f), a) := by
  unfold held
  rw [outcome_bind, outcome_get]
  dsimp only
  rw [outcome_bind, outcome_need, if_pos (Arena.realized_of_node? wf.isOpen found)]
  dsimp only
  rw [outcome_bind, outcome_need]
  by_cases counted : 0 < a.count f
  · rw [if_pos counted, if_pos counted]
    simp [found]
  · rw [if_neg counted, if_neg counted]

/-- Nodes that stand for each other are of one shape; only constants need not be a pair. -/
def Seen (l : Links) (f f' : Handle) (n n' : Node) : Prop :=
  n.Tied l n' ∧ ((f, f') ∈ l.pairs ∨ n.term.const?.isSome)

lemma held_abreast (tied : a.Tied l a') (alike : l.Alike f f') :
    Abreast a a' (held f) (held f') fun n b n' b' => b = a ∧ b' = a' ∧ Seen l f f' n n' := by
  obtain pair | ⟨n, left, right⟩ := alike
  · obtain ⟨n, n', found, found', shape⟩ := tied.node _ pair
    have count : a'.count f' = a.count f := tied.count _ pair
    have run := outcome_held tied.ofLeft found
    have run' := outcome_held tied.ofRight found'
    by_cases counted : 0 < a.count f
    · rw [if_pos counted] at run
      rw [if_pos (count ▸ counted)] at run'
      exact Abreast.of_ok run run' ⟨rfl, rfl, shape, .inl pair⟩
    · rw [if_neg counted] at run
      rw [if_neg (count ▸ counted)] at run'
      exact Abreast.of_error run run'
  · obtain ⟨found, constant, single, -⟩ := tied.left _ left
    obtain ⟨found', -, single', -⟩ := tied.right _ right
    have run := outcome_held tied.ofLeft found
    have run' := outcome_held tied.ofRight found'
    rw [if_pos (by rw [single]; exact Nat.one_pos)] at run
    rw [if_pos (by rw [single']; exact Nat.one_pos)] at run'
    refine Abreast.of_ok run run' ⟨rfl, rfl, ⟨rfl, ?_⟩, .inr constant⟩
    obtain ⟨w, term⟩ := n
    cases term <;> first | exact .const _ | cases constant

lemma width_abreast (tied : a.Tied l a') (alike : l.Alike f f') :
    Abreast a a' (width f) (width f') fun w b w' b' => b = a ∧ b' = a' ∧ w' = w := by
  unfold width
  rw [map_eq_pure_bind, map_eq_pure_bind]
  refine Abreast.bind (held_abreast tied alike) fun n b n' b' h => ?_
  obtain ⟨rfl, rfl, shape, -⟩ := h
  exact Abreast.pure ⟨rfl, rfl, shape.width⟩

/-! ## The ways to return -/

/-- The results are a pair in arenas that are still linked. -/
def Makes (l : Links) (r : Handle) (b : Arena) (r' : Handle) (b' : Arena) : Prop :=
  ∃ k, l.Within k ∧ b.Linked k b' ∧ (r, r') ∈ k.pairs

lemma add_abreast (tied : a.Tied l a') (nodes : n.Tied l n') (names names' : Std.HashSet String) :
    Abreast { a with names := names } { a' with names := names' } (add n) (add n') (Makes l) := by
  unfold add
  refine need_abreast (by rw [nodes.width]) fun _ => ?_
  refine Abreast.get_bind (Abreast.modify_bind (Abreast.pure ?_))
  exact ⟨_, l.within_join _ _, tied.push nodes names names', mem_cons_self⟩

lemma const_abreast (tied : a.Tied l a') (w : Nat) (v : Int) : Abreast a a' (const w v) (const w v) (Makes l) := by
  unfold const
  refine need_abreast Iff.rfl fun _ => need_abreast Iff.rfl fun _ => ?_
  exact add_abreast tied (Term.Tied.node (.const _) w) a.names a'.names

lemma ofBool_abreast (tied : a.Tied l a') (v : Bool) : Abreast a a' (ofBool v) (ofBool v) (Makes l) :=
  const_abreast tied 1 _

lemma var_abreast (tied : a.Tied l a') (w : Nat) (name name' : String) :
    Abreast a a' (var w name) (var w name') (Makes l) := by
  unfold var
  refine need_abreast Iff.rfl fun _ => Abreast.get_bind (need_abreast ?_ fun _ => Abreast.modify_bind ?_)
  · rw [tied.ofLeft.isOpen, tied.ofRight.isOpen]
  · exact add_abreast tied (Term.Tied.node (.var _ _) w) _ _

lemma retain_tied (tied : a.Tied l a') (pair : (f, f') ∈ l.pairs) :
    Abreast a a' (retain f) (retain f') fun r b r' b' => r = f ∧ r' = f' ∧ b.Tied l b' := by
  unfold retain
  refine Abreast.bind (held_abreast tied (.inl pair)) fun n b n' b' h => ?_
  obtain ⟨rfl, rfl, -⟩ := h
  exact Abreast.modify_bind (Abreast.pure ⟨rfl, rfl, tied.hold pair⟩)

lemma retain_abreast (tied : a.Tied l a') (pair : (f, f') ∈ l.pairs) : Abreast a a' (retain f) (retain f') (Makes l) := by
  refine (retain_tied tied pair).mono fun r b r' b' h => ?_
  obtain ⟨rfl, rfl, tied⟩ := h
  exact ⟨l, .refl l, tied.toLinked, pair⟩

lemma releaseOne_abreast (tied : a.Tied l a') (pair : (f, f') ∈ l.pairs) :
    Abreast a a' (releaseOne f) (releaseOne f') fun _ b _ b' => b.Tied l b' := by
  obtain ⟨n, n', found, found', -⟩ := tied.node _ pair
  have realized := Arena.realized_of_node? tied.ofLeft.isOpen found
  have realized' := Arena.realized_of_node? tied.ofRight.isOpen found'
  unfold releaseOne
  refine Abreast.get_bind (need_abreast (iff_of_true realized realized') fun _ => need_abreast ?_ fun counted => ?_)
  · rw [tied.count _ pair]
  · exact tied.drop pair counted

lemma release_abreast (tied : a.Tied l a') {fs fs' : List Handle}
    (pairs : Forall₂ (fun f f' => (f, f') ∈ l.pairs) fs fs') :
    Abreast a a' (release fs) (release fs') fun _ b _ b' => b.Tied l b' := by
  induction pairs generalizing a a' with
  | nil => exact Abreast.pure tied
  | cons here _ ih => exact Abreast.bind (releaseOne_abreast tied here) fun _ _ _ _ tied => ih tied

/-! ## Builders -/

lemma looked_abreast (tied : a.Tied l a') (alike : l.Alike f f') {look look' : Node → Build Handle}
    (next : ∀ w t t', Term.Tied l t t' → (f, f') ∈ l.pairs ∨ t.const?.isSome →
      Abreast a a' (look ⟨w, t⟩) (look' ⟨w, t'⟩) (Makes l)) :
    Abreast a a' (held f >>= look) (held f' >>= look') (Makes l) := by
  refine Abreast.bind (held_abreast tied alike) fun n b n' b' h => ?_
  obtain ⟨rfl, rfl, ⟨width, shape⟩, pair⟩ := h
  obtain ⟨w, term⟩ := n
  obtain ⟨w', term'⟩ := n'
  obtain rfl : w' = w := width
  exact next _ _ _ shape pair

lemma not_abreast (tied : a.Tied l a') (pair : (f, f') ∈ l.pairs) : Abreast a a' (not f) (not f') (Makes l) := by
  refine looked_abreast tied (.inl pair) fun w t t' shape _ => ?_
  cases shape with
  | const v => exact const_abreast tied _ _
  | not inner => exact retain_abreast tied inner
  | var | zext | sext | extract | ite | arith | compare => exact add_abreast tied (Term.Tied.node (.not pair) _) _ _

/-- An extension of a constant that is no pair adds bits. -/
lemma zext_abreast (tied : a.Tied l a') {k : Nat} (alike : l.Alike f f') (some : k = 0 → (f, f') ∈ l.pairs) :
    Abreast a a' (zext f k) (zext f' k) (Makes l) := by
  refine looked_abreast tied alike fun w t t' shape pair => ?_
  split
  · next zero => exact retain_abreast tied (some zero)
  · cases shape with
    | const v => exact const_abreast tied _ _
    | var | not | zext | sext | extract | ite | arith | compare =>
      exact add_abreast tied (Term.Tied.node (.zext (pair.resolve_right Bool.false_ne_true)) _) _ _

lemma sext_abreast (tied : a.Tied l a') {k : Nat} (alike : l.Alike f f') (some : k = 0 → (f, f') ∈ l.pairs) :
    Abreast a a' (sext f k) (sext f' k) (Makes l) := by
  refine looked_abreast tied alike fun w t t' shape pair => ?_
  split
  · next zero => exact retain_abreast tied (some zero)
  · cases shape with
    | const v => exact const_abreast tied _ _
    | var | not | zext | sext | extract | ite | arith | compare =>
      exact add_abreast tied (Term.Tied.node (.sext (pair.resolve_right Bool.false_ne_true)) _) _ _

lemma extract_abreast (tied : a.Tied l a') (pair : (f, f') ∈ l.pairs) (hi lo : Nat) :
    Abreast a a' (extract f hi lo) (extract f' hi lo) (Makes l) := by
  refine looked_abreast tied (.inl pair) fun w t t' shape _ => need_abreast Iff.rfl fun _ => ?_
  split
  · exact retain_abreast tied pair
  · cases shape with
    | const v => exact const_abreast tied _ _
    | var | not | zext | sext | extract | ite | arith | compare =>
      exact add_abreast tied (Term.Tied.node (.extract pair hi lo) _) _ _

lemma isBool_eq (bit : Bool) (f : Handle) :
    isBool bit f = (fun n : Node => n.width == 1 && n.term.const?.any fun v => (v != 0) == bit) <$> held f := by
  unfold isBool
  rw [map_eq_pure_bind]
  refine bind_congr fun n => ?_
  obtain ⟨w, t⟩ := n
  rcases w with _ | _ | w <;> cases t <;> rfl

lemma isBool_abreast (tied : a.Tied l a') (pair : (f, f') ∈ l.pairs) (bit : Bool) :
    Abreast a a' (isBool bit f) (isBool bit f') fun v b v' b' => b = a ∧ b' = a' ∧ v' = v := by
  rw [isBool_eq, isBool_eq, map_eq_pure_bind, map_eq_pure_bind]
  refine Abreast.bind (held_abreast tied (.inl pair)) fun n b n' b' h => ?_
  obtain ⟨rfl, rfl, shape, -⟩ := h
  refine Abreast.pure ⟨rfl, rfl, ?_⟩
  rw [shape.width, shape.term.const?_eq]

lemma ite_abreast (tied : a.Tied l a') {c c' t t' e e' : Nat} (cond : (c, c') ∈ l.pairs) (onTrue : (t, t') ∈ l.pairs)
    (onFalse : (e, e') ∈ l.pairs) : Abreast a a' (ite c t e) (ite c' t' e') (Makes l) := by
  unfold ite
  refine Abreast.bind (width_abreast tied (.inl cond)) fun wc b wc' b' h => ?_
  obtain ⟨rfl, rfl, rfl⟩ := h
  refine need_abreast Iff.rfl fun _ => ?_
  refine Abreast.bind (width_abreast tied (.inl onTrue)) fun wt _ wt' _ h => ?_
  obtain ⟨rfl, rfl, rfl⟩ := h
  refine Abreast.bind (width_abreast tied (.inl onFalse)) fun we _ we' _ h => ?_
  obtain ⟨rfl, rfl, rfl⟩ := h
  refine need_abreast Iff.rfl fun _ => ?_
  refine Abreast.bind (isBool_abreast tied cond true) fun yes _ yes' _ h => ?_
  obtain ⟨rfl, rfl, rfl⟩ := h
  have same : (t == e) = (t' == e') := by
    rw [Bool.eq_iff_iff, beq_iff_eq, beq_iff_eq]
    exact tied.once _ onTrue _ onFalse
  rw [same]
  split
  · exact retain_abreast tied onTrue
  · refine Abreast.bind (isBool_abreast tied cond false) fun no _ no' _ h => ?_
    obtain ⟨rfl, rfl, rfl⟩ := h
    split
    · exact retain_abreast tied onFalse
    · exact add_abreast tied (Term.Tied.node (.ite cond onTrue onFalse) _) _ _

/-- What `binary` does with operands of one width. -/
def finishBinary (op : Binary) (w : Nat) (x y : Option Nat) (f g : Handle) : Build Handle :=
  match op, x, y with
  | .compare op, some x, some y => ofBool (op.fold w x y)
  | .arith op, some x, some y => const w (op.fold w x y)
  | .compare op, _, _ => add ⟨1, .compare op f g⟩
  | .arith op, x, y =>
    match if w = 1 then op.absorbing? else none, x, y with
    | some bit, some v, _ => if (v != 0) == bit then ofBool bit else retain g
    | some bit, none, some v => if (v != 0) == bit then ofBool bit else retain f
    | _, _, _ => add ⟨w, .arith op f g⟩

lemma binary_eq_finish (op : Binary) (f g : Handle) :
    binary op f g = held f >>= fun n => held g >>= fun k =>
      need (n.width = k.width) (.binaryWidths op n.width k.width) >>= fun _ =>
        finishBinary op n.width (Term.const? n.term) (Term.const? k.term) f g := by
  unfold binary finishBinary
  refine bind_congr fun n => bind_congr fun k => bind_congr fun _ => ?_
  obtain ⟨w, x⟩ := n
  obtain ⟨w', y⟩ := k
  cases op with
  | compare op => cases x <;> cases y <;> rfl
  | arith op =>
    -- the inner choice looks at the operands again
    cases x <;> cases y <;> dsimp only [Term.const?] <;> rcases (if w = 1 then op.absorbing? else none) with _ | bit <;>
      rfl

/-- An operand that is returned is no constant, so it belongs to a pair. -/
lemma finishBinary_abreast (tied : a.Tied l a') (op : Binary) (w : Nat) {x y : Option Nat} (first : l.Alike f f')
    (second : l.Alike g g') (left : (f, f') ∈ l.pairs ∨ x.isSome) (right : (g, g') ∈ l.pairs ∨ y.isSome) :
    Abreast a a' (finishBinary op w x y f g) (finishBinary op w x y f' g') (Makes l) := by
  unfold finishBinary
  cases op with
  | compare op =>
    have adds := add_abreast tied (Term.Tied.node (.compare op first second) 1) a.names a'.names
    rcases x with _ | x <;> rcases y with _ | y
    · exact adds
    · exact adds
    · exact adds
    · exact ofBool_abreast tied _
  | arith op =>
    have adds := add_abreast tied (Term.Tied.node (.arith op first second) w) a.names a'.names
    rcases x with _ | x <;> rcases y with _ | y <;> dsimp only <;>
      rcases (if w = 1 then op.absorbing? else none) with _ | bit
    case none.some.some =>
      dsimp only
      split
      · exact ofBool_abreast tied bit
      · exact retain_abreast tied (left.resolve_right Bool.false_ne_true)
    case some.none.some =>
      dsimp only
      split
      · exact ofBool_abreast tied bit
      · exact retain_abreast tied (right.resolve_right Bool.false_ne_true)
    case some.some.none | some.some.some => exact const_abreast tied _ _
    all_goals exact adds

lemma binary_abreast (tied : a.Tied l a') (op : Binary) (first : l.Alike f f') (second : l.Alike g g') :
    Abreast a a' (binary op f g) (binary op f' g') (Makes l) := by
  rw [binary_eq_finish, binary_eq_finish]
  refine Abreast.bind (held_abreast tied first) fun n b n' b' h => ?_
  obtain ⟨rfl, rfl, shape, left⟩ := h
  refine Abreast.bind (held_abreast tied second) fun k b k' b' h => ?_
  obtain ⟨rfl, rfl, shape', right⟩ := h
  rw [shape.width, shape'.width, shape.term.const?_eq, shape'.term.const?_eq]
  exact need_abreast Iff.rfl fun _ => finishBinary_abreast tied op n.width first second left right

end Faultline.Formula
