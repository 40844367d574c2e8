/-
# Proofs.Twin.Bench — the benches of twins

While the engines express twins, their benches are `Side` by side: the arenas are
tied, matching values have formulas that are a pair, or have none yet, and so do
blocks. An integer that is matched with nothing is a constant that only one of the
arenas has.
-/
import Faultline.Proofs.Analysis.Demand
import Faultline.Proofs.Formula.Paired
import Faultline.Proofs.Twin.Module

namespace Faultline

open IR (Module ValueId)
open Formula (Arena Build Handle Links Node Orderly truncate widthLimit)
open Analysis (Sound Step Grounded Made demands)
open Formula

/-- The engines are told of twins. -/
structure Setting.Twins (R : ValueId → ValueId → Prop) (s s' : Setting) : Prop where
  module : s.module.Twins R s'.module
  layout : s'.layout = s.layout
  graph : s.graph.Twins R s'.graph
  cut : s'.cut = s.cut
  built : ∃ fn, Flow.Graph.ofFunc s.module fn = .ok s.graph
  built' : ∃ fn, Flow.Graph.ofFunc s'.module fn = .ok s'.graph

lemma Setting.Twins.withFields {R : ValueId → ValueId → Prop} {s s' : Setting} (twins : s.Twins R s')
    (fields fields' : LogFields) : Setting.Twins R { s with fields := fields } { s' with fields := fields' } :=
  ⟨twins.module, twins.layout, twins.graph, twins.cut, twins.built, twins.built'⟩

/-- The bench knows an integer that is matched with nothing as a constant of its own. -/
def Bench.KnowsSpare (b : Bench) (m : Module) (matched : ValueId → Prop) (alone : List (Handle × Node)) : Prop :=
  ∀ v bits n, m.Spare matched bits n v → ∀ h, b.formula? v = some h →
    (h, ⟨bits, .const (truncate bits n)⟩) ∈ alone ∧ bits < widthLimit

/-- The formulas kept for blocks are pairs; there are none in the same places. -/
def Bench.PathsAlike (l : Links) (b b' : Bench) : Prop :=
  ∃ ps ps', b.paths = some ps ∧ b'.paths = some ps' ∧ ps'.size = ps.size ∧
    ∀ i, (ps.getD i 0 = 0 ∧ ps'.getD i 0 = 0) ∨ l.Pair (ps.getD i 0) (ps'.getD i 0)

def Bench.KnownAlike (l : Links) (b b' : Bench) (v v' : ValueId) : Prop :=
  (b.formula? v = none ∧ b'.formula? v' = none) ∨
    ∃ h h', b.formula? v = some h ∧ b'.formula? v' = some h' ∧ l.Pair h h'

structure Side (R : ValueId → ValueId → Prop) (s s' : Setting) (l : Links) (b b' : Bench) : Prop where
  tied : b.arena.Tied l b'.arena
  ofLeft : Sound s b
  ofRight : Sound s' b'
  known : ∀ v v', R v v' → b.KnownAlike l b' v v'
  left : b.KnowsSpare s.module (fun x => ∃ x', R x x') l.left
  right : b'.KnowsSpare s'.module (fun x' => ∃ x, R x x') l.right
  paths : b.PathsAlike l b'

variable {R : ValueId → ValueId → Prop} {s s' : Setting} {l k : Links} {b b' c c' : Bench} {v v' : ValueId} {n : Int}
  {matched : ValueId → Prop} {m : Module} {f f' h h' : Handle}

lemma Bench.KnowsSpare.mono {alone more : List (Handle × Node)}
    (knows : b.KnowsSpare m matched alone) (within : alone ⊆ more) (same : c.formula? = b.formula?) :
    c.KnowsSpare m matched more := by
  intro v bits n spare h found
  rw [same] at found
  obtain ⟨mem, narrow⟩ := knows v bits n spare h found
  exact ⟨within mem, narrow⟩

lemma Bench.PathsAlike.mono (alike : b.PathsAlike l b') (within : l.Within k) (same : c.paths = b.paths)
    (same' : c'.paths = b'.paths) : c.PathsAlike k c' := by
  obtain ⟨ps, ps', paths, paths', sizes, pairs⟩ := alike
  exact ⟨ps, ps', same.trans paths, same'.trans paths', sizes, fun i => (pairs i).imp_right fun pair => within.pairs pair⟩

lemma Side.of_arenas (side : Side R s s' l b b') (within : l.Within k) (same : c = { b with arena := c.arena })
    (same' : c' = { b' with arena := c'.arena }) (tied : c.arena.Tied k c'.arena) (keeps : b.arena.Keeps c.arena)
    (keeps' : b'.arena.Keeps c'.arena) : Side R s s' k c c' := by
  have formulas : c.formula? = b.formula? := by rw [same]; rfl
  have formulas' : c'.formula? = b'.formula? := by rw [same']; rfl
  have step : Step s (fun _ => False) b c := .of_keeps side.ofLeft same keeps
  have step' : Step s' (fun _ => False) b' c' := .of_keeps side.ofRight same' keeps'
  refine ⟨tied, step.sound, step'.sound, fun v v' here => ?_, side.left.mono within.left formulas,
    side.right.mono within.right formulas', side.paths.mono within step.paths.symm step'.paths.symm⟩
  unfold Bench.KnownAlike
  rw [formulas, formulas']
  refine (side.known v v' here).imp id fun both => ?_
  obtain ⟨h, h', found, found', pair⟩ := both
  exact ⟨h, h', found, found', within.pairs pair⟩

lemma build_inStep {α α' : Type} {x : Build α} {x' : Build α'} {P : Links → α → α' → Prop} (orderly : Orderly x)
    (orderly' : Orderly x') (both : InStep Arena.Tied l P x x') : InStep (Side R s s') l P (build x) (build x') := by
  intro k b b' within side
  have arenas := (both k b.arena b'.arena within side.tied).and_ends (orderly _ side.ofLeft.wellFormed)
    (orderly' _ side.ofRight.wellFormed)
  unfold Abreast
  rw [outcome_build, outcome_build]
  obtain ⟨r, a, r', a', run, run', ⟨j, more, tied, holds⟩, keeps, keeps'⟩ | ⟨e, a, e', a', run, run'⟩ := arenas.cases
  · rw [run, run']
    exact ⟨j, more, side.of_arenas more rfl rfl tied keeps keeps', holds⟩
  · rw [run, run']
    trivial

lemma call_both {call call' : Builder} (same : Builder.Tied l call call') :
    InStep (Side R s s') l Links.Pair (build call.run) (build call'.run) :=
  build_inStep call.orderly call'.orderly (call_inStep same)

lemma ofBool_both (bit : Bool) :
    InStep (Side R s s') l Links.Pair (build (ofBool bit)) (build (ofBool bit)) :=
  call_both (.const 1 _)

lemma retain_both (pair : l.Pair f f') :
    InStep (Side R s s') l Links.Pair (build (retain f)) (build (retain f')) :=
  build_inStep (.retain f) (.retain f') (retain_inStep pair)

lemma width_both (alike : l.Alike f f') :
    InStep (Side R s s') l (fun _ w w' => w' = w) (build (width f)) (build (width f')) :=
  (build_inStep (.width f) (.width f') (width_inStep alike)).imp fun _ _ _ _ h => h.1

lemma release_both {fs fs' : List Handle} (pairs : List.Forall₂ l.Pair fs fs') :
    InStep (Side R s s') l (fun _ _ _ => True) (build (release fs)) (build (release fs')) :=
  build_inStep (.release fs) (.release fs') (release_inStep pairs)

lemma log_both (fields fields' : LogFields) (message message' : String) :
    InStep (Side R s s') l (fun _ _ _ => True) (s.logEntry fields message) (s'.logEntry fields' message') := by
  intro k b b' within side
  have sound := side.ofLeft
  have sound' := side.ofRight
  refine Abreast.of_ok rfl rfl ⟨k, .refl k, ⟨side.tied, ?_, ?_, side.known, side.left, side.right, side.paths⟩, trivial⟩
  · exact ⟨⟨sound.wellFormed, sound.node⟩, sound.open_, sound.grounded⟩
  · exact ⟨⟨sound'.wellFormed, sound'.node⟩, sound'.open_, sound'.grounded⟩

/-! ## Entering formulas -/

lemma Side.swap (side : Side R s s' l b b') : Side (fun x' x => R x x') s' s l.swap b' b := by
  refine ⟨side.tied.swap, side.ofRight, side.ofLeft, fun v' v here => ?_, side.right, side.left, ?_⟩
  · refine (side.known v v' here).imp And.symm fun both => ?_
    obtain ⟨h, h', found, found', pair⟩ := both
    exact ⟨h', h, found', found, Links.mem_swap.2 pair⟩
  · obtain ⟨ps, ps', paths, paths', sizes, pairs⟩ := side.paths
    exact ⟨ps', ps, paths', paths, sizes.symm, fun i => (pairs i).imp And.symm Links.mem_swap.2⟩

lemma Side.made (side : Side R s s' l b b') (pair : l.Pair h h') : Made h b ∧ Made h' b' := by
  obtain ⟨n, n', found, found', -⟩ := side.tied.node _ pair
  exact ⟨⟨n, found⟩, ⟨n', found'⟩⟩

/-- Matching values get formulas that are a pair. -/
lemma Side.enter (twins : s.Twins R s') (side : Side R s s' l b b') (pair : l.Pair h h') (same : R v v')
    (grounded : Grounded s v) (grounded' : Grounded s' v') : Side R s s' l (b.enter v h) (b'.enter v' h') := by
  obtain ⟨made, made'⟩ := side.made pair
  obtain ⟨entries, open_⟩ := side.ofLeft.open_
  obtain ⟨entries', open'⟩ := side.ofRight.open_
  refine ⟨side.tied, side.ofLeft.enter made grounded, side.ofRight.enter made' grounded', fun x x' here => ?_,
    fun x bits n spare g known => ?_, fun x bits n spare g known => ?_, side.paths⟩
  · unfold Bench.KnownAlike
    rw [Bench.formula?_enter open_, Bench.formula?_enter open']
    by_cases equal : x = v
    · rw [if_pos equal, if_pos ((twins.module.once here same).1 equal)]
      exact .inr ⟨h, h', rfl, rfl, pair⟩
    · rw [if_neg equal, if_neg fun equal' => equal ((twins.module.once here same).2 equal')]
      exact side.known x x' here
  · rw [Bench.formula?_enter open_, if_neg fun equal : x = v => spare.1 ⟨v', equal ▸ same⟩] at known
    exact side.left x bits n spare g known
  · rw [Bench.formula?_enter open', if_neg fun equal : x = v' => spare.1 ⟨v, equal ▸ same⟩] at known
    exact side.right x bits n spare g known

lemma demands_spare {bits : Nat} (spare : s.module.Spare matched bits n v) : demands s v = [] := by
  obtain ⟨-, t, found, -⟩ := spare
  unfold demands
  rw [found]
  exact ite_self _

lemma grounded_spare {bits : Nat} (spare : s.module.Spare matched bits n v) : Grounded s v :=
  .intro v fun x demanded => by rw [demands_spare spare] at demanded; cases demanded

def withConst (b : Bench) (v : ValueId) (bits : Nat) (n : Int) : Bench :=
  Bench.enter { b with arena := b.arena.push ⟨bits, .const (truncate bits n)⟩ b.arena.names } v b.arena.next

lemma spare_unique {bits bits' : Nat} {n' : Int} (first : m.Spare matched bits n v)
    (second : m.Spare matched bits' n' v) : bits' = bits ∧ n' = n := by
  obtain ⟨-, t, found, type⟩ := first
  obtain ⟨-, t', found', type'⟩ := second
  cases found.symm.trans found'
  cases type.symm.trans type'
  exact ⟨rfl, rfl⟩

/-- The first bench gets a constant for an integer that is matched with nothing. -/
lemma Side.withLeft {bits : Nat} (side : Side R s s' l b b') (spare : s.module.Spare (fun x => ∃ x', R x x') bits n v)
    (positive : 0 < bits) (narrow : bits < widthLimit) :
    Side R s s' (l.joinLeft b.arena.next ⟨bits, .const (truncate bits n)⟩) (withConst b v bits n) b' := by
  have fits : b.arena.Fits b.arena.next ⟨bits, .const (truncate bits n)⟩ :=
    ⟨positive, by simp [Term.args], truncate_lt bits n⟩
  have within := l.within_joinLeft b.arena.next ⟨bits, .const (truncate bits n)⟩
  have tied := side.tied.pushLeft rfl fits b.arena.names
  have keeps : b.arena.Keeps (b.arena.push ⟨bits, .const (truncate bits n)⟩ b.arena.names) :=
    ⟨Arena.grows_push side.ofLeft.wellFormed _ _, tied.ofLeft⟩
  have pushed := side.of_arenas (c := { b with arena := b.arena.push ⟨bits, .const (truncate bits n)⟩ b.arena.names })
    within rfl rfl tied keeps (.refl side.ofRight.wellFormed)
  obtain ⟨entries, open_⟩ := pushed.ofLeft.open_
  have made : Made b.arena.next { b with arena := b.arena.push ⟨bits, .const (truncate bits n)⟩ b.arena.names } :=
    ⟨_, Arena.node?_push_next side.ofLeft.wellFormed⟩
  refine ⟨pushed.tied, pushed.ofLeft.enter made (grounded_spare spare), pushed.ofRight, fun x x' here => ?_,
    fun x bits' n' spare' g known => ?_, pushed.right, pushed.paths⟩
  · unfold Bench.KnownAlike
    rw [withConst, Bench.formula?_enter open_, if_neg fun equal : x = v => spare.1 ⟨x', equal ▸ here⟩]
    exact pushed.known x x' here
  · rw [withConst, Bench.formula?_enter open_] at known
    split at known
    · rename_i this
      subst this
      obtain ⟨rfl, rfl⟩ := spare_unique spare spare'
      cases known
      exact ⟨List.mem_cons_self, narrow⟩
    · exact pushed.left x bits' n' spare' g known

lemma Side.withRight {bits : Nat} (side : Side R s s' l b b') (spare : s'.module.Spare (fun x' => ∃ x, R x x') bits n v')
    (positive : 0 < bits) (narrow : bits < widthLimit) :
    Side R s s' (l.joinRight b'.arena.next ⟨bits, .const (truncate bits n)⟩) b (withConst b' v' bits n) := by
  have entered := (side.swap.withLeft spare positive narrow).swap
  have links : (l.swap.joinLeft b'.arena.next ⟨bits, .const (truncate bits n)⟩).swap =
      l.joinRight b'.arena.next ⟨bits, .const (truncate bits n)⟩ := by
    simp [Links.swap, Links.joinLeft, Links.joinRight]
  exact links ▸ entered

end Faultline
