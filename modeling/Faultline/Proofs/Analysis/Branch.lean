/-
# Proofs.Analysis.Branch — the conditions of the edges part the values

`Transfers` says to which block a terminator transfers control: a branch looks at
whether its condition is one, and a switch looks for the case whose literal, in the
bits of the value, is the value. Where the literals of the cases differ in these
bits there is one such block for all values of the program (`Transfers.total`,
`Transfers.unique`).

Whatever the variables are, exactly one of the conditions of its edges is true: that
of the edge to this block (`edges_partition`).
-/
import Faultline.Proofs.Analysis.Alarm

namespace Faultline.Analysis

open IR (Module ValueId Term)
open Formula (Handle)
open List Flow.Graph

variable {s : Setting} {T : ValueId → Prop} {source i j w : Nat} {t : Term ValueId} {val : ValueId → Nat}
  {assign : Handle → Nat} {b c : Bench} {v x dest dest' : ValueId} {f : Handle} {extra : Multiset Handle}

/-! ## Terminators -/

/-- An integer literal as a word of `w` bits. -/
def literal? (m : Module) (w : Nat) (v : ValueId) : Option (BitVec w) :=
  match m.get? v with
  | some (.const _ (.int n)) => some (BitVec.ofInt w n)
  | _ => none

/-- The terminator transfers control to a block. -/
inductive Transfers (s : Setting) (val : ValueId → Nat) : Term ValueId → ValueId → Prop where
  | br (dest : ValueId) : Transfers s val (.br dest) dest
  | yes {c t e : ValueId} (one : val c = 1) : Transfers s val (.condBr c t e) t
  | no {c t e : ValueId} (other : val c ≠ 1) : Transfers s val (.condBr c t e) e
  | case {x d : ValueId} {cases : List (ValueId × ValueId)} {arm : ValueId × ValueId} (listed : arm ∈ cases)
      (equal : literal? s.module (bits s x) arm.1 = some (wordOf s val x)) : Transfers s val (.switch x d cases) arm.2
  | default {x d : ValueId} {cases : List (ValueId × ValueId)}
      (none : ∀ arm ∈ cases, literal? s.module (bits s x) arm.1 ≠ some (wordOf s val x)) :
      Transfers s val (.switch x d cases) d

/-- A terminator that branches on typed values. The cases of a switch are integer literals of the bits of its value,
and no two of them are the same in these bits. -/
inductive Branching (s : Setting) (T : ValueId → Prop) : Term ValueId → Prop where
  | br (dest : ValueId) : Branching s T (.br dest)
  | condBr {c : ValueId} (among : T c) (bit : HasBits s c 1) (t e : ValueId) : Branching s T (.condBr c t e)
  | switch {x : ValueId} {cases : List (ValueId × ValueId)} (among : T x) (d : ValueId)
      (typed : ∀ arm ∈ cases, T arm.1 ∧ HasBits s arm.1 (bits s x) ∧ literal? s.module (bits s x) arm.1 ≠ none)
      (distinct : (cases.map fun arm => literal? s.module (bits s x) arm.1).Nodup) : Branching s T (.switch x d cases)

namespace Transfers

lemma total (branching : Branching s T t) (val : ValueId → Nat) : ∃ dest ∈ t.succs, Transfers s val t dest := by
  cases branching with
  | br dest => exact ⟨dest, mem_cons_self, .br dest⟩
  | @condBr c among bit t e =>
    by_cases one : val c = 1
    · exact ⟨t, mem_cons_self, .yes one⟩
    · exact ⟨e, mem_cons_of_mem t mem_cons_self, .no one⟩
  | @switch x cases among d typed distinct =>
    by_cases some : ∃ arm ∈ cases, literal? s.module (bits s x) arm.1 = Option.some (wordOf s val x)
    · obtain ⟨arm, listed, equal⟩ := some
      exact ⟨arm.2, mem_cons_of_mem d (mem_map_of_mem listed), .case listed equal⟩
    · exact ⟨d, mem_cons_self, .default fun arm listed equal => some ⟨arm, listed, equal⟩⟩

lemma unique (branching : Branching s T t) (first : Transfers s val t dest) (second : Transfers s val t dest') :
    dest = dest' := by
  cases branching with
  | br => cases first; cases second; rfl
  | condBr =>
    cases first with
    | yes one =>
      cases second with
      | yes => rfl
      | no other => exact absurd one other
    | no other =>
      cases second with
      | yes one => exact absurd one other
      | no => rfl
  | switch among d typed distinct =>
    cases first with
    | case listed equal =>
      cases second with
      | case listed' equal' =>
        rw [inj_on_of_nodup_map distinct listed listed' (equal.trans equal'.symm)]
      | default none => exact absurd equal (none _ listed)
    | default none =>
      cases second with
      | case listed equal => exact absurd equal (none _ listed)
      | default => rfl

end Transfers

/-! ## Edges -/

section Edges

variable {fn : IR.Func} (graph : ofFunc s.module fn = .ok s.graph) (term : terminatorOf? s source = some t)

include graph term

lemma targets_of_terminator :
    source < fn.blocks.size ∧ targets s.module (fn.blocks.getD source default) = t.succs := by
  obtain ⟨laid, -⟩ := laid_of_ofFunc graph
  rw [terminatorOf?, block, laid.func] at term
  refine ⟨?_, ?_⟩
  · by_contra beyond
    rw [Array.getD_eq_getD_getElem?, Array.getElem?_eq_none (Nat.not_lt.1 beyond)] at term
    cases term
  · unfold targets
    generalize (fn.blocks.getD source default).term.bind s.module.get? = found at term ⊢
    rcases found with _ | d
    · cases term
    · cases d with
      | term => exact congrArg Term.succs (Option.some.inj term)
      | _ => cases term

lemma mem_succsOf_iff :
    j ∈ s.graph.succsOf source ↔ (s.graph.block j).id ∈ t.succs ∧ s.graph.index[(s.graph.block j).id]? = some j := by
  obtain ⟨laid, -⟩ := laid_of_ofFunc graph
  obtain ⟨below, targets⟩ := targets_of_terminator graph term
  rw [laid.succs source below, targets]
  refine ⟨fun ⟨v, listed, number⟩ => ?_, fun ⟨listed, number⟩ => ⟨_, listed, number⟩⟩
  have same : (s.graph.block j).id = v := by
    rw [block, laid.func]
    exact (of_numbering (laid.index ▸ number)).2
  rw [same]
  exact ⟨listed, number⟩

lemma exists_succ (target : dest ∈ t.succs) : ∃ j ∈ s.graph.succsOf source, (s.graph.block j).id = dest := by
  obtain ⟨laid, -⟩ := laid_of_ofFunc graph
  obtain ⟨below, targets⟩ := targets_of_terminator graph term
  obtain ⟨j, number⟩ := laid.known source below dest (targets ▸ target)
  refine ⟨j, (laid.succs source below j).2 ⟨dest, targets ▸ target, number⟩, ?_⟩
  rw [block, laid.func]
  exact (of_numbering (laid.index ▸ number)).2

end Edges

/-- The values, with those of literals as they are written. -/
def settled (s : Setting) (val : ValueId → Nat) (v : ValueId) : Nat :=
  ((literal? s.module (bits s v) v).map BitVec.toNat).getD (val v)

lemma settled_literal {word : BitVec w} (has : HasBits s v w) (literal : literal? s.module w v = some word) :
    settled s val v = word.toNat := by
  obtain rfl := has.bits_eq
  rw [settled, literal]
  rfl

section Settled

variable (typing : Typing s T) (fit : Fit s T b extra) (agrees : b.Agrees assign val)

include typing fit agrees

lemma settled_known (known : b.formula? v = some f) : settled s val v = val v := by
  obtain ⟨w, d, typed⟩ := typing.typed (fit.within known)
  unfold settled literal?
  rw [typed.found, typed.bits.bits_eq]
  split
  next t n same =>
    cases Option.some.inj same
    have int : s.module.resolve t = .int w := typed.typed
    have means : meaning? s (b.reading assign) v = some (BitVec.ofInt w n).toNat := by
      rw [meaning?, typed.bits, typed.found]
      dsimp only
      rw [int]
    exact ((agrees v f known).trans (fit.value known assign _ means)).symm
  next => rfl

lemma agrees_settled : b.Agrees assign (settled s val) := fun v h known =>
  (settled_known typing fit agrees known).trans (agrees v h known)

lemma goes_settled_iff (branching : Branching s T t) (term : terminatorOf? s source = some t)
    (decided : ∀ v, Regime.decider? t = some v → Known v b) (target : (s.graph.block i).id ∈ t.succs) :
    Goes s (settled s val) source i ↔ Transfers s val t (s.graph.block i).id := by
  unfold Goes
  rw [term]
  revert target
  generalize (s.graph.block i).id = dest
  intro target
  cases branching with
  | br dest' =>
    obtain rfl : dest = dest' := by simpa [Term.succs] using target
    exact iff_of_true trivial (.br dest)
  | @condBr c among bit t e =>
    have target : dest = t ∨ dest = e := by simpa [Term.succs] using target
    dsimp only
    by_cases alike : t = e
    · subst alike
      obtain rfl := target.elim id id
      refine iff_of_true (.inl rfl) ?_
      by_cases one : val c = 1
      · exact .yes one
      · exact .no one
    · obtain ⟨f, known⟩ := decided c (by simp [Regime.decider?, alike])
      have small : val c < 2 ^ 1 := by
        rw [agrees c f known, ← bit.bits_eq, ← fit.width known]
        exact b.arena.eval_lt assign f
      rw [settled_known typing fit agrees known, or_iff_right alike]
      rcases target with rfl | rfl
      · rw [if_pos rfl]
        refine ⟨.yes, fun transfers => ?_⟩
        cases transfers with
        | yes one => exact one
        | no => exact absurd rfl alike
      · rw [if_neg alike]
        refine ⟨fun zero => .no (by omega), fun transfers => ?_⟩
        cases transfers with
        | yes => exact absurd rfl alike
        | no other => omega
  | @switch x cases among d typed distinct =>
    obtain ⟨f, known⟩ := decided x rfl
    have small : val x < 2 ^ bits s x := by
      rw [agrees x f known, ← fit.width known]
      exact b.arena.eval_lt assign f
    -- cases are literals, so they are settled to their words whether or not they are known
    have equal_iff : ∀ arm ∈ cases, settled s val x = settled s val arm.1 ↔
        literal? s.module (bits s x) arm.1 = some (wordOf s val x) := by
      intro arm listed
      obtain ⟨-, has, literal⟩ := typed arm listed
      obtain ⟨word, literal⟩ := Option.ne_none_iff_exists'.1 literal
      rw [settled_known typing fit agrees known, settled_literal has literal, literal, Option.some_inj, wordOf,
        ← BitVec.toNat_inj, BitVec.toNat_ofNat, Nat.mod_eq_of_lt small]
      exact eq_comm
    dsimp only
    refine ⟨fun goes => ?_, fun transfers => ?_⟩
    · rcases goes with ⟨arm, listed, rfl, equal⟩ | ⟨rfl, none⟩
      · exact .case listed ((equal_iff arm listed).1 equal)
      · exact .default fun arm listed => (equal_iff arm listed).not.1 (none arm listed)
    · cases transfers with
      | case listed equal => exact .inl ⟨_, listed, rfl, (equal_iff _ listed).2 equal⟩
      | default none => exact .inr ⟨rfl, fun arm listed => (equal_iff arm listed).not.2 (none arm listed)⟩

end Settled

lemma Branching.asks (branching : Branching s T t) (typing : Typing s T) (unlooped : ¬ Looped s j) :
    (typing.regime unlooped).AsksTerm t := by
  cases branching with
  | br => trivial
  | condBr among bit t e => exact ⟨among, bit⟩
  | switch among d typed distinct =>
    exact ⟨_, ⟨among, typing.hasBits among⟩, fun arm listed => ⟨(typed arm listed).1, (typed arm listed).2.1⟩⟩

lemma edges_tell (typing : Typing s T) (term : terminatorOf? s source = some t) (branching : Branching s T t)
    (targets : List Nat) (follows : Follows s T b extra) :
    Ends b (targets.mapM (edgeCondition s source))
      (fun rs c => b.Grows c ∧ (∃ left, Follows s T c left) ∧
        Forall₂ (fun i r => c.Tells r fun val => Goes s val source i) targets rs ∧
        (targets ≠ [] → ∀ v, Regime.decider? t = some v → Known v c))
      (fun e c => (∃ left, Follows s T c left) ∧ Reasoned s T e) := by
  induction targets generalizing b extra with
  | nil => exact .pure ⟨.refl b, ⟨extra, follows⟩, .nil, fun some => absurd rfl some⟩
  | cons i targets ih =>
    rw [mapM_cons]
    have unlooped : ¬ Looped s 0 := fun looped => looped.ne_zero rfl
    have asks : ∀ t', terminatorOf? s source = some t' → (typing.regime unlooped).AsksTerm t' := by
      intro t' found
      cases term.symm.trans found
      exact branching.asks typing unlooped
    have keeps : (typing.regime unlooped).keeps b extra := follows
    have first : (typing.regime unlooped).Works (fun _ => False) b (edgeCondition s source i) _ :=
      Regime.edgeCondition_works source i asks keeps
    refine Ends.bind (first.blame fun e c h => ⟨h.1, h.2.choose_spec.2⟩) fun r c h => ?_
    obtain ⟨stays, made, decided⟩ := h
    have told := made.tells.tells (made.width trivial)
    refine Ends.bind (ih made.keeps) fun rs d h => .pure ?_
    obtain ⟨grows, left, others, -⟩ := h
    refine ⟨stays.grows.trans grows, left, .cons (told.of_grows made.keeps.1.toKept grows) others, fun _ v decides => ?_⟩
    exact (decided v (by rw [term]; exact decides)).of_grows grows

/-- **The edges part the values.** The terminator of a block is a branch or a switch on typed values, the literals of
the cases being different in the bits of the value. Then the conditions of the edges to its successors, asked for one
after the other, are formulas of one bit, of which for all values of the variables exactly one is true: that of the
edge to the one block that the terminator transfers control to. Only values that cannot be written or stored keep an
edge from having a formula. -/
theorem edges_partition {fn : IR.Func} (graph : Flow.Graph.ofFunc s.module fn = .ok s.graph) (typing : Typing s T)
    (term : terminatorOf? s source = some t) (branching : Branching s T t) (follows : Follows s T b extra) :
    Ends b ((s.graph.succsOf source).mapM (edgeCondition s source))
      (fun rs c => (∃ left, Follows s T c left) ∧ ∀ assign val, c.Agrees assign val →
        ∃ j ∈ s.graph.succsOf source, (∀ dest, Transfers s val t dest ↔ dest = (s.graph.block j).id) ∧
          List.Forall₂ (fun i r => c.arena.widthOf r = 1 ∧ c.arena.eval assign r = if i = j then 1 else 0)
            (s.graph.succsOf source) rs)
      (fun e c => (∃ left, Follows s T c left) ∧ Reasoned s T e) := by
  refine (edges_tell typing term branching _ follows).imp fun rs c h => ?_
  obtain ⟨-, ⟨left, fit, ordered⟩, told, decided⟩ := h
  refine ⟨⟨left, fit, ordered⟩, fun assign val agrees => ?_⟩
  obtain ⟨dest, target, transfers⟩ := Transfers.total branching val
  obtain ⟨j, edge, rfl⟩ := exists_succ graph term target
  refine ⟨j, edge, fun dest => ⟨fun other => other.unique branching transfers, fun same => same ▸ transfers⟩, ?_⟩
  have each : List.Forall₂ (fun i r => i ∈ s.graph.succsOf source ∧ c.Tells r fun val => Goes s val source i)
      (s.graph.succsOf source) rs := (List.forall₂_and_left _ _).2 ⟨fun _ => id, told⟩
  refine each.imp fun i r ⟨listed, tells⟩ => ⟨tells.width, ?_⟩
  obtain ⟨inside, number⟩ := (mem_succsOf_iff graph term).1 listed
  have true_iff : c.arena.eval assign r = 1 ↔ i = j := by
    rw [tells.value assign _ (agrees_settled typing fit agrees),
      goes_settled_iff typing fit agrees branching term (decided (List.ne_nil_of_mem edge)) inside]
    refine ⟨fun other => ?_, fun same => same ▸ transfers⟩
    have number' := ((mem_succsOf_iff graph term).1 edge).2
    rw [← other.unique branching transfers, number] at number'
    exact Option.some.inj number'
  have small : c.arena.eval assign r < 2 ^ 1 := tells.width ▸ c.arena.eval_lt assign r
  split
  next same => exact true_iff.2 same
  next other =>
    have := true_iff.not.2 other
    omega

/-! ## A switch -/

def forkingFunc : IR.Func where
  id := 0
  name := []
  result := .void
  params := [⟨3, ""⟩]
  blocks := #[⟨6, #[], some 9⟩, ⟨7, #[], some 10⟩, ⟨8, #[], some 11⟩]

/-- A switch on a parameter of `w` bits with two cases, of which one leads to the same block as if there were none. -/
def forking (w : Nat) : Setting where
  module :=
    { defs := #[.const .bool (.int 1), .const .bool (.int 0), .const .token (.other [.text "none"]),
        .param (.named (Text.utf8 "x")) (.int w), .const (.int w) (.int 1), .const (.int w) (.int 2),
        .block (.number 0), .block (.number 1), .block (.number 2), .term (.number 0) .void (.switch 3 8 [(4, 7), (5, 8)]) [],
        .term (.number 0) .void (.ret none) [], .term (.number 0) .void (.ret none) []] }
  layout := {}
  graph :=
    { func := forkingFunc
      index := numbering forkingFunc
      preds := #[[], [0], [0]]
      succs := #[[2, 1], [], []]
      ids := (((∅ : Std.HashMap ValueId Nat).insert 9 0).insert 10 1).insert 11 2
      blockOf := #[0, 1, 2] }
  cut := {}

lemma forking_graph (w : Nat) : ofFunc (forking w).module forkingFunc = .ok (forking w).graph := by
  have numbers : (forking w).graph.index = (((∅ : Std.HashMap ValueId Nat).insert 6 0).insert 7 1).insert 8 2 := rfl
  have second : (forking w).graph.index[7]? = some 1 := by
    simp only [numbers, Std.HashMap.getElem?_insert]
    rfl
  have third : (forking w).graph.index[8]? = some 2 := by
    simp only [numbers, Std.HashMap.getElem?_insert]
    rfl
  refine ofFunc_of_blocks rfl
    (foldlM_cons_ok (addBlock_ok.2 ⟨[2, 1, 2], .cons third (.cons second (.cons third .nil)), rfl⟩) ?_)
  refine foldlM_cons_ok (addBlock_ok.2 ⟨[], .nil, rfl⟩) ?_
  exact foldlM_cons_ok (addBlock_ok.2 ⟨[], .nil, rfl⟩) rfl

lemma forking_typing (positive : 0 < w) (short : w < Formula.widthRange) :
    Typing (forking w) fun v => v = 3 ∨ v = 4 ∨ v = 5 := by
  have free {v : ValueId} (among : v = 3 ∨ v = 4 ∨ v = 5) : demands (forking w) v = [] := by
    rcases among with rfl | rfl | rfl <;> rfl
  refine ⟨fun among => ?_, fun among x demanded => ?_, fun among cycle => ?_⟩
  · rcases among with rfl | rfl | rfl
    · exact ⟨w, .param (.named (Text.utf8 "x")) (.int w), rfl, rfl, positive, short, trivial⟩
    · exact ⟨w, .const (.int w) (.int 1), rfl, rfl, positive, short, rfl⟩
    · exact ⟨w, .const (.int w) (.int 2), rfl, rfl, positive, short, rfl⟩
  · rw [free among] at demanded
    cases demanded
  · obtain ⟨x, demanded, -⟩ := Relation.TransGen.head'_iff.1 cycle
    rw [free among] at demanded
    cases demanded

lemma forking_branching (positive : 0 < w) :
    Branching (forking w) (fun v => v = 3 ∨ v = 4 ∨ v = 5) (.switch 3 8 [(4, 7), (5, 8)]) := by
  refine .switch (.inl rfl) 8 ?_ ?_
  · refine forall_mem_cons.2 ⟨?_, forall_mem_cons.2 ⟨?_, nofun⟩⟩
    · exact ⟨.inr (.inl rfl), rfl, Option.some_ne_none _⟩
    · exact ⟨.inr (.inr rfl), rfl, Option.some_ne_none _⟩
  · show [some (BitVec.ofInt w 1), some (BitVec.ofInt w 2)].Nodup
    have differ : BitVec.ofInt w 1 ≠ BitVec.ofInt w 2 := fun same => by
      have low : (BitVec.ofNat w 1).getLsbD 0 = (BitVec.ofNat w 2).getLsbD 0 := congrArg (BitVec.getLsbD · 0) same
      rw [BitVec.getLsbD_ofNat, BitVec.getLsbD_ofNat] at low
      simp at low
      omega
    simpa using differ

/-- Of the edges of a switch on eight bits, the one to the second block is taken for the value 1 only. -/
theorem edges_partition_forking : ∃ rs c, outcome ([2, 1].mapM (edgeCondition (forking 8) 0)) (forking 8).start = (.ok rs, c) ∧
    ∀ assign val, c.Agrees assign val → ∃ j ∈ [2, 1],
      (∀ dest, Transfers (forking 8) val (.switch 3 8 [(4, 7), (5, 8)]) dest ↔ dest = ((forking 8).graph.block j).id) ∧
        List.Forall₂ (fun i r => c.arena.widthOf r = 1 ∧ c.arena.eval assign r = if i = j then 1 else 0) [2, 1] rs := by
  have graph := forking_graph 8
  have typing := forking_typing (w := 8) (by decide) (by decide)
  have term : terminatorOf? (forking 8) 0 = some (.switch 3 8 [(4, 7), (5, 8)]) := rfl
  have branching := forking_branching (w := 8) (by decide)
  have succs : (forking 8).graph.succsOf 0 = [2, 1] := rfl
  have granted : (outcome ([2, 1].mapM (edgeCondition (forking 8) 0)) (forking 8).start).1.isOk = true := by
    decide +kernel
  generalize forking 8 = s at *
  have ends := edges_partition graph typing term branching (follows_start s _)
  rw [succs] at ends
  rcases run : outcome ([2, 1].mapM (edgeCondition s 0)) s.start with ⟨e | rs, c⟩
  · rw [run] at granted
    cases granted
  · exact ⟨rs, c, rfl, (ends.ok run).2⟩

/-- The edges of a switch on `2 ^ 51` bits have no conditions, since its cases cannot be stored. -/
theorem edge_refused : Typing (forking (twoPow 51)) (fun v => v = 3 ∨ v = 4 ∨ v = 5) ∧
    Branching (forking (twoPow 51)) (fun v => v = 3 ∨ v = 4 ∨ v = 5) (.switch 3 8 [(4, 7), (5, 8)]) ∧
    ∀ i ∈ (forking (twoPow 51)).graph.succsOf 0,
      (outcome (edgeCondition (forking (twoPow 51)) 0 i) (forking (twoPow 51)).start).1 = .error .constTooWide := by
  refine ⟨forking_typing (by decide) (by decide), forking_branching (by decide), ?_⟩
  decide +kernel

end Faultline.Analysis
