/-
# Proofs.Analysis.Balance — who owns the formulas of a bench

The value engine owns one reference to the formula of every value it knows, the path
engine one to the formula of every block it has computed; all others belong to the
caller. A bench is `Balanced` for the caller's references when these are all there
are.

A part of an engine works under a `Contract`. `Pays k s b x after` follows it, with
the references that are the caller's after it: a look-up borrows, a builder hands
its result over, and `release` gives back.
-/
import Faultline.Proofs.Analysis.Path
import Faultline.Proofs.Formula.Ledger

namespace Faultline

open IR (ValueId)
open Formula (Arena Handle)
open List Multiset

namespace Bench

variable {b c : Bench} {v : ValueId} {f : Handle}

lemma filter_set {l : List Handle} {i : Nat} (empty : l[i]? = some 0) (some : f ≠ 0) :
    (↑((l.set i f).filter (· ≠ 0)) : Multiset Handle) = f ::ₘ ↑(l.filter (· ≠ 0)) := by
  induction l generalizing i with
  | nil => simp at empty
  | cons g l ih =>
    cases i with
    | zero =>
      obtain rfl : g = 0 := by simpa using empty
      simp [some]
    | succ i =>
      have rest := ih (i := i) (by simpa using empty)
      by_cases zero : g = 0
      · simpa [zero] using rest
      · simp only [set_cons_succ, List.filter_cons, zero, ne_eq, not_false_eq_true, decide_true, if_true,
          ← cons_coe] at rest ⊢
        rw [rest, cons_swap]

end Bench

namespace Analysis

open Formula (Build Orderly)

variable {s : Setting} {b c : Bench} {v x : ValueId} {f g r : Handle} {extra : Multiset Handle}
  {α β : Type}

/-! ## Balanced benches -/

structure Balanced (s : Setting) (sure : Prop) (b : Bench) (caller : Multiset Handle) : Prop extends Ordered s b where
  /-- References are those of the engines and those of the caller. While it is `sure` to say so, only formulas
  of values are negated. -/
  order : b.arena.InOrder False (fun f => sure → b.IsCached f) (b.owned + caller)
  entries : ((b.values.getD []).map Prod.fst).Nodup

lemma owned_start (s : Setting) : s.start.owned = 0 := by
  have zeros : ∀ n : Nat, (List.replicate n (0 : Handle)).filter (· ≠ 0) = [] := by
    intro n
    rw [filter_eq_nil_iff]
    intro f mem
    simp [(List.mem_replicate.1 mem).2]
  show (↑([] : List Handle) + ↑(((Array.replicate s.graph.size 0).toList).filter (· ≠ 0)) : Multiset Handle) = 0
  rw [Array.toList_replicate, zeros]
  rfl

lemma pathOf_start (s : Setting) (i : Nat) : s.start.pathOf i = 0 := by
  show (Array.replicate s.graph.size 0).getD i 0 = 0
  rw [Array.getD_eq_getD_getElem?, Array.getElem?_replicate]
  split <;> rfl

lemma balanced_start (s : Setting) {sure : Prop} : Balanced s sure s.start 0 where
  toOrdered := ordered_start s
  order := by
    rw [owned_start]
    exact Arena.inOrder_empty
  entries := nodup_nil

lemma Balanced.of_arena {sure : Prop} {caller caller' : Multiset Handle} (balanced : Balanced s sure b caller)
    (same : c = { b with arena := c.arena }) (grows : b.arena.Grows c.arena)
    (order : c.arena.InOrder False (fun f => sure → b.IsCached f) (b.owned + caller')) : Balanced s sure c caller' := by
  have step : Step s (fun _ => False) b c := .of_keeps balanced.toSound same ⟨grows, order.toWellFormed⟩
  refine ⟨balanced.toOrdered.of_step step, ?_, ?_⟩
  · rw [same]
    exact order
  · rw [same]
    exact balanced.entries

/-! ## Contracts -/

/-- On what terms a part of an engine works. -/
structure Contract where
  /-- References that stay with the caller, also if the part is refused. -/
  base : Multiset Handle := 0
  /-- Blocks that may get a formula. -/
  fit : Nat → Prop := fun _ => True
  /-- Only formulas of values are negated. -/
  sure : Prop := False

variable {k : Contract}

/-- The references `extra` are the caller's besides those of the contract. -/
structure Holds (k : Contract) (s : Setting) (b : Bench) (extra : Multiset Handle) : Prop
    extends Balanced s k.sure b (k.base + extra) where
  fit : ∀ i, b.pathOf i ≠ 0 → k.fit i

lemma Balanced.holds {caller : Multiset Handle} (balanced : Balanced s False b caller) : Holds {} s b caller where
  toBalanced := by
    rw [zero_add]
    exact balanced
  fit := fun _ _ => trivial

lemma Holds.balanced {caller : Multiset Handle} (holds : Holds {} s b caller) : Balanced s False b caller := by
  have balanced := holds.toBalanced
  rwa [zero_add] at balanced

lemma Holds.pos (holds : Holds k s b extra) (mem : f ∈ extra) : 0 < b.arena.count f :=
  holds.order.pos (by simp [mem])

lemma Holds.pos_cached (holds : Holds k s b extra) (cached : b.IsCached f) : 0 < b.arena.count f := by
  refine holds.order.pos ?_
  unfold Bench.owned
  rw [mem_add, mem_add, mem_coe]
  exact .inl (.inl cached)

lemma Holds.of_paths {extra' : Multiset Handle} (holds : Holds k s b extra)
    (balanced : Balanced s k.sure c (k.base + extra')) (same : c.paths = b.paths) : Holds k s c extra' where
  toBalanced := balanced
  fit := fun i some => holds.fit i (by rwa [Bench.pathOf, ← same])

/-- `x` works on terms, and leaves the path engine alone. If it returns, the references `after` its result are
the caller's. -/
def Accounts (k : Contract) (s : Setting) (b : Bench) (x : Analyze α) (after : α → Multiset Handle) : Prop :=
  Ends b x (fun r c => Holds k s c (after r) ∧ c.paths = b.paths) (fun _ c => ∃ left, Holds k s c left)

def Pays (k : Contract) (s : Setting) (b : Bench) (x : Analyze α) (after : α → Multiset Handle) : Prop :=
  Ends b x (fun r c => Holds k s c (after r) ∧ c.paths = b.paths) (fun e c => (∃ left, Holds k s c left) ∧ e.Other)

namespace Pays

variable {m : Analyze α} {next : α → Analyze β} {before after : α → Multiset Handle} {last : β → Multiset Handle}

lemma bind (first : Pays k s b m before) (then_ : ∀ r c, Holds k s c (before r) → Pays k s c (next r) last) :
    Pays k s b (m >>= next) last := by
  refine Ends.bind first fun r c ⟨holds, same⟩ => ?_
  exact (then_ r c holds).imp fun _ d h => ⟨h.1, h.2.trans same⟩

lemma accounts (pays : Pays k s b m before) : Accounts k s b m before :=
  Ends.blame pays fun _ _ h => h.1

lemma andThen (first : Pays k s b m before) (then_ : ∀ r c, Holds k s c (before r) → Accounts k s c (next r) last) :
    Accounts k s b (m >>= next) last := by
  refine Ends.bind first.accounts fun r c ⟨holds, same⟩ => ?_
  exact (then_ r c holds).imp fun _ d h => ⟨h.1, h.2.trans same⟩

lemma pure {r : α} (holds : Holds k s b (after r)) : Pays k s b (Pure.pure r) after :=
  Ends.pure ⟨holds, rfl⟩

lemma throw {e : Fault} (holds : Holds k s b extra) (other : e.Other) :
    Pays k s b (MonadExcept.throw e : Analyze α) after :=
  Ends.throw ⟨⟨extra, holds⟩, other⟩

end Pays

section Parts

variable (holds : Holds k s b extra)

include holds

lemma Holds.hands {m : Build Handle} (orderly : Orderly m)
    (pays : b.arena.Pays False (fun f => k.sure → b.IsCached f) (b.owned + (k.base + extra)) m) :
    Accounts k s b (build m) (· ::ₘ extra) := by
  refine (Ends.build ((orderly b.arena holds.wellFormed).and pays)).mono (fun r c h => ?_) fun e c h => ?_
  · obtain ⟨same, keeps, -, order⟩ := h
    rw [← add_cons, ← add_cons] at order
    have paths : c.paths = b.paths := by rw [same]
    exact ⟨holds.of_paths (holds.toBalanced.of_arena same keeps.grows order) paths, paths⟩
  · obtain ⟨same, keeps, order⟩ := h
    exact ⟨extra, holds.of_paths (holds.toBalanced.of_arena same keeps.grows order) (by rw [same])⟩

lemma Holds.allowed (call : Formula.Builder) (allowed : call.Allowed False (fun f => k.sure → b.IsCached f) b.arena) :
    Pays k s b (build call.run) (· ::ₘ extra) := by
  have hands := holds.hands call.orderly (call.finishes holds.order allowed)
  exact (hands.and (Ends.build (call.runs holds.wellFormed))).mono (fun _ _ h => h.1) fun _ _ h => ⟨h.1, h.2.2.2.1⟩

lemma Holds.call (call : Formula.Builder) (positive : call.Positive) : Pays k s b (build call.run) (· ::ₘ extra) :=
  holds.allowed call positive.allowed

lemma Holds.calls (unsure : ¬ k.sure) (call : Formula.Builder) : Pays k s b (build call.run) (· ::ₘ extra) :=
  holds.allowed call (.of_unwrapped (fun _ sure => (unsure sure).elim) nofun)

lemma Holds.retain (f : Handle) : Pays k s b (build (Formula.retain f)) (· ::ₘ extra) := by
  have hands := holds.hands (.retain f) ((Formula.retain_pays f holds.order).mono (fun _ _ h => h.2)
    fun _ _ same => same ▸ holds.order)
  exact (hands.and (Ends.build (Formula.retain_ends holds.wellFormed f))).mono (fun _ _ h => h.1) fun _ _ h => ⟨h.1, h.2.2.2.1⟩

lemma Holds.overflow (op : Sentinel.Guarded) (withSign : Bool) (f g : Handle) :
    Accounts k s b (build (overflow op withSign f g)) (· ::ₘ extra) := by
  refine holds.hands (overflow_orderly op withSign f g) ?_
  cases op <;> cases withSign
  · exact Formula.uaddOverflow_pays holds.order nofun
  · exact Formula.saddOverflow_pays holds.order nofun
  · exact Formula.usubOverflow_pays holds.order f g
  · exact Formula.ssubOverflow_pays holds.order nofun
  · exact Formula.umulOverflow_pays holds.order nofun
  · exact Formula.smulOverflow_pays holds.order nofun

lemma Holds.lift {x : Except Fault α} (others : ∀ e, x = .error e → e.Other) :
    Pays k s b (liftM x : Analyze α) fun _ => extra := by
  rcases x with fault | r
  · exact Pays.throw holds (others fault rfl)
  · exact Pays.pure holds

end Parts

lemma Holds.release {fs : List Handle} {held : Multiset Handle} (holds : Holds k s b held)
    (rest : Multiset Handle) (split : held = ↑fs + rest) :
    Ends b (build (Formula.release fs)) (fun _ c => Holds k s c rest ∧ c.paths = b.paths) (fun _ _ => False) := by
  subst split
  have order := holds.order
  rw [add_left_comm k.base, add_left_comm] at order
  refine (Ends.build (Formula.release_pays fs order)).mono (fun _ c h => ?_) fun _ _ h => h.2
  obtain ⟨same, grows, order⟩ := h
  have paths : c.paths = b.paths := by rw [same]
  exact ⟨holds.of_paths (holds.toBalanced.of_arena same grows order) paths, paths⟩

lemma Holds.givesBack {fs : List Handle} {held : Multiset Handle} (holds : Holds k s b held)
    (rest : Multiset Handle) (split : held = ↑fs + rest) : Pays k s b (build (Formula.release fs)) fun _ => rest :=
  (holds.release rest split).granted

/-! ## Looking up -/

/-- An unknown value gets its entry; the reference to the formula passes to the engine. -/
lemma Holds.enter (holds : Holds k s b (f ::ₘ extra)) (made : Made f b) (grounded : Grounded s v)
    (unknown : b.formula? v = none) : Holds k s (b.enter v f) extra := by
  obtain ⟨known, open_⟩ := holds.open_
  have cached : ∀ g, b.IsCached g → (b.enter v f).IsCached g := by
    intro g mem
    unfold Bench.IsCached Bench.cached Bench.enter at *
    rw [open_] at mem ⊢
    exact List.mem_cons_of_mem f mem
  have ordered : Ordered s (b.enter v f) := by
    refine ⟨⟨holds.toSound.enter made grounded, fun {ps i g} at_ found some => ?_⟩, holds.places⟩
    exact (holds.paths at_ found some).of_grows holds.toKept (Bench.grows_enter open_ unknown)
  refine ⟨⟨ordered, ?_, ?_⟩, holds.fit⟩
  · rw [Bench.owned_enter open_, cons_add, ← add_cons, ← add_cons]
    exact holds.order.mono fun g old sure => cached g (old sure)
  · have entries := holds.entries
    unfold Bench.formula? at unknown
    unfold Bench.enter
    rw [open_] at entries unknown ⊢
    show (v :: known.map Prod.fst).Nodup
    refine List.nodup_cons.2 ⟨fun mem => ?_, entries⟩
    obtain ⟨⟨u, h⟩, listed, rfl⟩ := List.mem_map.1 mem
    simpa using lookup_eq_none_iff.1 unknown (u, h) listed

def books (k : Contract) (s : Setting) : Books s where
  keeps := Holds k s
  sound := fun holds => holds.toSound
  call := fun call positive holds => (holds.call call positive).mono (fun _ _ h => h.1) fun _ _ h => h.1
  retain := fun f holds => (holds.retain f).mono (fun _ _ h => h.1) fun _ _ h => h.1
  release := fun _ holds => (holds.release _ rfl).mono (fun _ _ h => h.1) fun _ _ h => h.elim
  log := fun fields message holds =>
    have does : Does (Step s (fun _ => False)) _ (s.logEntry fields message) fun _ _ => True :=
      log_does fields message holds.toSound
    ⟨⟨holds.toOrdered.of_step does.1, holds.order, holds.entries⟩, holds.fit⟩
  enter := fun holds made grounded unknown => holds.enter made grounded unknown

lemma lookup_borrows (v : ValueId) (holds : Holds k s b extra) : Pays k s b (lookup s v) fun _ => extra :=
  Ends.mono (lookupFrom_follows (books k s) _ v b extra holds) (fun _ _ h => ⟨h.1.2, h.1.1.paths.symm⟩) fun _ _ h => h.2

lemma value_pays (v : ValueId) (holds : Holds k s b extra) : Pays k s b (value s v) (· ::ₘ extra) := by
  unfold value
  exact Pays.bind (lookup_borrows v holds) fun f c holds => holds.retain f

lemma conditionOf_accounts (call : ValueId) (holds : Holds k s b extra) :
    Accounts k s b (conditionOf s call) (· ::ₘ extra) := by
  have refused {c : Bench} {e : Fault} (holds : Holds k s c extra) :
      Accounts k s c (throw e : Analyze Handle) (· ::ₘ extra) := Ends.throw ⟨extra, holds⟩
  unfold conditionOf
  split
  next =>
    unfold condition
    split
    next =>
      split
      next code x y flag _ =>
        refine Pays.andThen (holds.lift (constIndex_other _ code)) fun i c holds => ?_
        rcases i with _ | i
        · exact refused holds
        · refine Pays.andThen (holds.lift (constIndex_other _ flag)) fun j c holds => ?_
          rcases j with _ | j
          · exact refused holds
          · refine Pays.andThen (lookup_borrows x holds) fun f c holds => ?_
            refine Pays.andThen (lookup_borrows y holds) fun g c holds => ?_
            split
            · exact holds.overflow _ _ f g
            · exact refused holds
      next => exact refused holds
    next =>
      split
      next cond _ => exact (value_pays cond holds).accounts
      next => exact refused holds
    next => exact refused holds
  next => exact refused holds

end Analysis

end Faultline
