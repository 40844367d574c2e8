/-
# Proofs.Analysis.Ownership — references balance over the life of the engines

A `Move` is a request to the engines that returned, or something the caller did with
references of its own. The main statement is about every bench that moves lead to:
`live` counts the entries of both engines and the caller's references, entries stay
what they are, the engines close in either order, and a query settles with nothing
left over.
-/
import Faultline.Check.Function
import Faultline.Proofs.Analysis.Service

namespace Faultline.Analysis

open IR (ValueId)
open Formula (Arena Handle)
open Check

variable {s : Setting} {b c d : Bench} {v x : ValueId} {h r : Handle}
  {extra caller : Multiset Handle} {P : Handle → Prop} {α : Type} {p q : Bench × Multiset Handle} {fn : IR.Func}

/-! ## Blocks -/

lemma path_pays (graph : Flow.Graph.ofFunc s.module fn = .ok s.graph) (block : ValueId)
    (balanced : Balanced s False b extra) : Ends b (path s block) (fun r c => Balanced s False c (r ::ₘ extra) ∧
      (∃ i, s.graph.indexOf s.module block = .ok i ∧ c.pathOf i = r) ∧
      ∀ j, b.pathOf j ≠ 0 → c.pathOf j = b.pathOf j) (fun _ _ => True) := by
  rcases found : s.graph.indexOf s.module block with e | i
  · unfold path
    rw [found]
    exact Ends.throw trivial
  · have fair : Fair {} s i fun _ _ _ => True :=
      ⟨fun _ _ => trivial, fun _ => trivial, fun _ => trivial, fun _ _ _ _ => trivial⟩
    have serves := path_serves graph fair ⟨trivial, fun _ _ _ => trivial⟩ found balanced.holds
    refine Ends.mono serves (fun r c h => ?_) fun _ _ _ => trivial
    obtain ⟨stays, holds, place, -⟩ := h
    exact ⟨holds.balanced, ⟨i, rfl, place⟩, fun j some => stays.path j (.inr some)⟩

/-! ## Closing -/

lemma closeValues_leaves (order : b.arena.InOrder False P (b.owned + caller)) :
    Ends b closeValues (fun _ c => c.arena.InOrder False P (c.owned + caller) ∧ c.values = none ∧ c.paths = b.paths)
      (fun _ _ => False) := by
  unfold closeValues
  refine Ends.get_bind ?_
  unfold Bench.owned at order
  rw [add_assoc] at order
  refine Ends.bind ((Ends.build (Formula.release_pays b.cached order)).blame fun _ _ h => h.2)
    fun _ c h => ?_
  obtain ⟨same, -, order⟩ := h
  refine ⟨?_, rfl, by rw [same]⟩
  have rest : ({ c with values := none } : Bench).owned = ↑b.reached := by
    rw [same]
    exact zero_add _
  rw [rest]
  exact order

lemma closePaths_leaves (order : b.arena.InOrder False P (b.owned + caller)) :
    Ends b closePaths (fun _ c => c.arena.InOrder False P (c.owned + caller) ∧ c.paths = none ∧ c.values = b.values)
      (fun _ _ => False) := by
  unfold closePaths
  refine Ends.get_bind ?_
  unfold Bench.owned at order
  rw [add_comm (b.cached : Multiset Handle), add_assoc] at order
  refine Ends.bind ((Ends.build (Formula.release_pays b.reached order)).blame fun _ _ h => h.2)
    fun _ c h => ?_
  obtain ⟨same, -, order⟩ := h
  refine ⟨?_, rfl, by rw [same]⟩
  have rest : ({ c with paths := none } : Bench).owned = ↑b.cached := by
    rw [same]
    exact add_zero _
  rw [rest]
  exact order

lemma owned_closed (values : b.values = none) (paths : b.paths = none) : b.owned = 0 := by
  unfold Bench.owned Bench.cached Bench.reached
  rw [values, paths]
  rfl

lemma closeBoth_leaves (order : b.arena.InOrder False P (b.owned + caller)) :
    Ends b (closeValues >>= fun _ => closePaths) (fun _ c => c.arena.InOrder False P caller) (fun _ _ => False) ∧
      Ends b (closePaths >>= fun _ => closeValues) (fun _ c => c.arena.InOrder False P caller) (fun _ _ => False) := by
  constructor
  · refine Ends.bind (closeValues_leaves order) fun _ c h => ?_
    refine (closePaths_leaves h.1).imp fun _ d h' => ?_
    rw [owned_closed (h'.2.2.trans h.2.1) h'.2.1, zero_add] at h'
    exact h'.1
  · refine Ends.bind (closePaths_leaves order) fun _ c h => ?_
    refine (closeValues_leaves h.1).imp fun _ d h' => ?_
    rw [owned_closed h'.2.1 (h'.2.2.trans h.2.1), zero_add] at h'
    exact h'.1

/-! ## Queries -/

lemma question_pays (graph : Flow.Graph.ofFunc s.module fn = .ok s.graph) (block call : ValueId) :
    Ends s.start (question s block call) (fun r c => Balanced s False c ↑[r.1, r.2.1, r.2.2]) (fun _ _ => True) := by
  unfold question
  have first := conditionOf_accounts call (balanced_start s).holds
  refine Ends.bind (first.blame fun _ _ _ => trivial) fun bug c h => ?_
  refine Ends.bind (path_pays graph block h.1.balanced) fun reach c h => ?_
  have last := h.1.holds.call (.binary (.arith .and) bug reach) trivial
  refine Ends.bind (last.blame fun _ _ _ => trivial) fun both c h => Ends.pure ?_
  have order : both ::ₘ reach ::ₘ bug ::ₘ 0 = (↑[bug, reach, both] : Multiset Handle) := by
    rw [Regime.two_below]
    rfl
  exact order ▸ h.1.balanced

lemma settle_leaves {held : List Handle} (order : b.arena.InOrder False P (b.owned + ↑held)) :
    Ends b (settle held) (fun left _ => left = 0) (fun _ _ => False) := by
  unfold settle
  have order : b.arena.InOrder False P (↑held + b.owned) := by rwa [add_comm]
  refine Ends.bind ((Ends.build (Formula.release_pays held order)).blame fun _ _ h => h.2)
    fun _ c h => ?_
  obtain ⟨same, -, order⟩ := h
  have rest : c.arena.InOrder False P (c.owned + 0) := by
    rw [add_zero, same]
    exact order
  rw [← bind_assoc]
  refine Ends.bind (closeBoth_leaves rest).2 fun _ d order => ?_
  exact Ends.get_bind (Ends.pure order.live)

lemma analyze_ends (x : Analyze α) (b : Bench) (st : State) : Ends st (analyze x b)
      (fun r st' => st'.solver = st.solver ∧ ∃ c, outcome x b = (.ok r.1, c) ∧ r.2 = { c with log := #[] })
      (fun e _ => ∃ fault, e = .refused fault) := by
  unfold analyze
  rw [show x.run b = outcome x b from rfl]
  rcases outcome x b with ⟨e | r, c⟩
  · exact Ends.modify_bind (Ends.throw ⟨e, rfl⟩)
  · exact Ends.modify_bind (Ends.pure ⟨rfl, c, rfl, rfl⟩)

/-- A query that is not refused has asked its question and settles with nothing left over. -/
def Settles (s : Setting) (block call : ValueId) : Prop :=
  ∃ bug reach both b c, outcome (question s block call) s.start = (.ok (bug, reach, both), b) ∧
    outcome (settle [bug, reach, both]) { b with log := #[] } = (.ok 0, c)

lemma ask_settles (graph : Flow.Graph.ofFunc s.module fn = .ok s.graph) (o : Options)
    (block call : ValueId) (inst : String) (st : State) :
    Ends st (ask o s block call inst) (fun _ _ => Settles s block call)
      (fun e _ => (∃ fault, e = .refused fault) ∨ Settles s block call) := by
  unfold ask
  refine Ends.bind ((analyze_ends _ _ st).blame fun _ _ h => .inl h) fun r st h => ?_
  obtain ⟨⟨bug, reach, both⟩, b⟩ := r
  obtain ⟨-, c, asked, rfl⟩ := h
  have balanced : Balanced s False c ↑[bug, reach, both] := (question_pays graph block call).ok asked
  obtain ⟨left, d, settled, rfl⟩ := (settle_leaves (b := { c with log := #[] }) balanced.order).exists_ok
  have settles : Settles s block call := ⟨bug, reach, both, c, d, asked, settled⟩
  exact Ends.iff_forall.2 ⟨fun _ _ _ => settles, fun _ _ _ => .inr settles⟩

/-! ## The life of the engines -/

/-- A request to the engines or to the arena that returned, or references given back. Beside the bench
stand the references that are the caller's. -/
inductive Move (s : Setting) : Bench × Multiset Handle → Bench × Multiset Handle → Prop where
  | value {b c : Bench} {caller : Multiset Handle} {r : Handle} (v : ValueId)
      (returned : outcome (value s v) b = (.ok r, c)) : Move s (b, caller) (c, r ::ₘ caller)
  | condition {b c : Bench} {caller : Multiset Handle} {r : Handle} (call : ValueId)
      (returned : outcome (conditionOf s call) b = (.ok r, c)) : Move s (b, caller) (c, r ::ₘ caller)
  | path {b c : Bench} {caller : Multiset Handle} {r : Handle} (block : ValueId)
      (returned : outcome (path s block) b = (.ok r, c)) : Move s (b, caller) (c, r ::ₘ caller)
  | call {b c : Bench} {caller : Multiset Handle} {r : Handle} (call : Formula.Builder)
      (returned : outcome (build call.run) b = (.ok r, c)) : Move s (b, caller) (c, r ::ₘ caller)
  | release {b c : Bench} {caller : Multiset Handle} {fs : List Handle}
      (returned : outcome (build (Formula.release fs)) b = (.ok (), c)) : Move s (b, ↑fs + caller) (c, caller)

/-- The entries of both engines stay what they are. -/
structure Fixed (b c : Bench) : Prop where
  value : ∀ v h, b.formula? v = some h → c.formula? v = some h
  block : ∀ i, b.pathOf i ≠ 0 → c.pathOf i = b.pathOf i

lemma Fixed.trans (first : Fixed b c) (second : Fixed c d) : Fixed b d where
  value := fun v h known => second.value v h (first.value v h known)
  block := fun i some => by
    have same := first.block i some
    rw [← same] at some ⊢
    exact second.block i some

lemma fixed_of_accounts {m : Analyze α} {after : α → Multiset Handle} {R : α → Bench → Prop} {q : α}
    (returned : outcome m b = (.ok q, c)) (accounts : Accounts {} s b m after) (does : Does (Walk s) b m R) :
    Balanced s False c (after q) ∧ Fixed b c := by
  obtain ⟨holds, kept⟩ := accounts.ok returned
  obtain ⟨walk, -⟩ := does.ok returned
  exact ⟨holds.balanced, fun _ _ => walk.grows.formula, fun i _ => pathOf_congr kept.symm i⟩

lemma Move.balanced (graph : Flow.Graph.ofFunc s.module fn = .ok s.graph)
    (move : Move s p q) (balanced : Balanced s False p.1 p.2) : Balanced s False q.1 q.2 ∧ Fixed p.1 q.1 := by
  have ordered := balanced.toOrdered
  cases move with
  | value v returned =>
    have kept := fixed_of_accounts returned (value_pays v balanced.holds).accounts (value_does v ordered)
    exact kept
  | condition call returned =>
    have kept := fixed_of_accounts returned (conditionOf_accounts call balanced.holds) (conditionOf_does call ordered)
    exact kept
  | path block returned =>
    obtain ⟨balanced, -, kept⟩ := (path_pays graph block balanced).ok returned
    obtain ⟨walk, -⟩ := (path_does graph block ordered).ok returned
    exact ⟨balanced, fun _ _ => walk.grows.formula, kept⟩
  | call call returned =>
    have kept := fixed_of_accounts returned (balanced.holds.calls nofun call).accounts (ordered.build call.orderly)
    exact kept
  | @release b c caller fs returned =>
    have kept := fixed_of_accounts returned (balanced.holds.givesBack caller rfl).accounts (ordered.build (.release fs))
    exact kept

lemma balanced_of_moves (graph : Flow.Graph.ofFunc s.module fn = .ok s.graph)
    (moves : Relation.ReflTransGen (Move s) p q)
    (balanced : Balanced s False p.1 p.2) : Balanced s False q.1 q.2 ∧ Fixed p.1 q.1 := by
  induction moves with
  | refl => exact ⟨balanced, fun _ _ => id, fun _ _ => rfl⟩
  | tail _ move ih =>
    obtain ⟨after, fixed⟩ := move.balanced graph ih.1
    exact ⟨after, ih.2.trans fixed⟩

lemma value_known (v : ValueId) (sound : Sound s b) :
    Ends b (value s v) (fun r c => c.formula? v = some r) (fun _ _ => True) := by
  unfold value
  refine Ends.bind (Ends.mono (lookupFrom_does _ v sound) (fun _ _ h => h) fun _ _ _ => trivial) fun f c h => ?_
  refine (Ends.build (Formula.retain_ends h.1.sound.wellFormed f)).mono (fun r d h' => ?_) fun _ _ _ => trivial
  obtain ⟨same, rfl, -⟩ := h'
  rw [same]
  exact h.2

end Faultline.Analysis
