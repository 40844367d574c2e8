/-
# Proofs.Formula.Invariant — what is true of every arena in use

The representation invariant of an arena (`Arena.Consistent`): as many counts as
nodes, `live` the sum of the counts, operands older than the nodes that use them,
and nodes typed as their operations ask.

It holds in every arena that any requests lead to, also refused ones, as long as no
extension wraps around the widths (`Arena.Unwrapped`).
-/
import Faultline.Proofs.Formula.Ledger

namespace Faultline.Formula

variable {a b : Arena} {f g : Nat} {n : Node} {safe : Prop}

/-! ## Requests that do not wrap -/

/-- No extension that is made for the request wraps around. A request whose operands are refused
makes none. -/
def Request.Unwrapped (a : Arena) : Request → Prop
  | call builder => builder.Unwrapped a
  | uaddOverflow f g | saddOverflow f g | ssubOverflow f g => a.Pair f g → a.widthOf f + 1 < twoPow 64
  | umulOverflow f g | smulOverflow f g => a.Pair f g → a.widthOf f + a.widthOf f < twoPow 64
  | usubOverflow _ _ | retain _ | release _ => True

/-- In order for some ledger. -/
def Arena.Tidy (safe : Prop) (a : Arena) : Prop :=
  ∃ owned, a.InOrder safe (fun _ => True) owned

lemma discarding_tidy {x : Build Handle} {owned : Multiset Handle} (pays : a.Pays safe (fun _ => True) owned x) :
    Ends a (discarding x) (fun _ b => b.Tidy safe) (fun _ b => b.Tidy safe) :=
  Ends.bind (Q := fun _ b => b.Tidy safe) (Ends.mono pays (fun r _ h => ⟨r ::ₘ owned, h.2⟩) fun _ _ order => ⟨_, order⟩)
    fun _ _ tidy => Ends.pure tidy

/-- Whatever is asked to be given back, the arena stays in order for some ledger. -/
lemma release_tidy (fs : List Handle) (tidy : a.Tidy safe) :
    Ends a (release fs) (fun _ b => b.Tidy safe) (fun _ b => b.Tidy safe) := by
  induction fs generalizing a with
  | nil => exact Ends.pure tidy
  | cons f fs ih =>
    refine Ends.bind ?_ fun _ b h => ih (a := b) h
    obtain ⟨owned, order⟩ := tidy
    unfold releaseOne
    refine Ends.get_bind (need_bind (fun _ => need_bind (fun counted => ?_) fun _ => ?_) fun _ => ?_)
    · obtain ⟨rest, rfl⟩ := Multiset.exists_cons_of_mem (order.mem counted)
      exact ⟨rest, order.drop⟩
    · exact ⟨owned, order⟩
    · exact ⟨owned, order⟩

lemma Request.run_tidy (request : Request) (tidy : a.Tidy safe) (unwrapped : safe → request.Unwrapped a) :
    Ends a request.run (fun _ b => b.Tidy safe) (fun _ b => b.Tidy safe) := by
  obtain ⟨owned, order⟩ := tidy
  cases request with
  | call builder => exact discarding_tidy (builder.finishes order (.of_unwrapped (fun _ => trivial) unwrapped))
  | uaddOverflow f g => exact discarding_tidy (uaddOverflow_pays order unwrapped)
  | saddOverflow f g => exact discarding_tidy (saddOverflow_pays order unwrapped)
  | usubOverflow f g => exact discarding_tidy (usubOverflow_pays order f g)
  | ssubOverflow f g => exact discarding_tidy (ssubOverflow_pays order unwrapped)
  | umulOverflow f g => exact discarding_tidy (umulOverflow_pays order unwrapped)
  | smulOverflow f g => exact discarding_tidy (smulOverflow_pays order unwrapped)
  | retain f =>
    exact discarding_tidy ((retain_pays f order).mono (fun _ _ h => h.2) fun _ _ same => same ▸ order)
  | release fs => exact release_tidy fs ⟨owned, order⟩

namespace Arena

lemma tidy_after (request : Request) (tidy : a.Tidy safe)
    (unwrapped : safe → request.Unwrapped a) : (a.after request).Tidy safe := by
  have ends := Ends.iff_forall.1 (request.run_tidy tidy unwrapped)
  unfold after
  rcases run : outcome request.run a with ⟨e | r, b⟩
  · exact ends.2 e b run
  · exact ends.1 r b run

def afterCode (a : Arena) (code : Int) (f g : Handle) : Arena :=
  (outcome (binaryOfCode code f g) a).2

/-- A code that names an operation of two operands is a request for it; any other is refused. -/
lemma afterCode_eq (a : Arena) (code : Int) (f g : Handle) :
    a.afterCode code f g = a ∨ ∃ op, a.afterCode code f g = a.after (.call (.binary op f g)) := by
  unfold afterCode binaryOfCode
  cases (Op.ofCode? code).bind Op.binary? with
  | none => exact .inl rfl
  | some op =>
    refine .inr ⟨op, ?_⟩
    show (outcome (binary op f g) a).2 = (outcome (discarding (binary op f g)) a).2
    unfold discarding
    rw [outcome_bind]
    rcases outcome (binary op f g) a with ⟨_ | _, _⟩
    · rfl
    · rfl

inductive Next (a : Arena) : Arena → Prop where
  | request (request : Request) : Next a (a.after request)
  | code (code : Int) (f g : Handle) : Next a (a.afterCode code f g)

/-- Reached by requests that make no extension wrap around. -/
inductive Unwrapped : Arena → Prop where
  | start : Unwrapped {}
  | request {a : Arena} (reached : Unwrapped a) (request : Request) (unwrapped : request.Unwrapped a) :
      Unwrapped (a.after request)
  | code {a : Arena} (reached : Unwrapped a) (code : Int) (f g : Handle) : Unwrapped (a.afterCode code f g)

lemma Unwrapped.tidy (reached : a.Unwrapped) : a.Tidy True := by
  induction reached with
  | start => exact ⟨0, inOrder_empty⟩
  | request _ request unwrapped ih => exact tidy_after request ih fun _ => unwrapped
  | @code a _ code f g ih =>
    rcases a.afterCode_eq code f g with same | ⟨op, same⟩
    · rw [same]
      exact ih
    · rw [same]
      exact tidy_after _ ih fun _ => trivial

lemma Reachable.tidy (reached : a.Reachable) : a.Tidy False := by
  induction reached with
  | start => exact ⟨0, inOrder_empty⟩
  | step _ request ih => exact tidy_after request ih nofun

lemma Next.keeps (wf : a.WellFormed) (next : a.Next b) : a.Keeps b := by
  cases next with
  | request request => exact keeps_after wf request
  | code code f g =>
    rcases a.afterCode_eq code f g with same | ⟨op, same⟩
    · rw [same]
      exact .refl wf
    · rw [same]
      exact keeps_after wf _

lemma keeps_of_next (wf : a.WellFormed) (later : Relation.ReflTransGen Next a b) : a.Keeps b := by
  induction later with
  | refl => exact .refl wf
  | tail _ next ih => exact ih.trans (next.keeps ih.wellFormed)

/-! ## The invariant -/

structure Consistent (a : Arena) : Prop where
  /-- There are as many counts as nodes, -/
  sizes : a.refs.size = a.nodes.size
  /-- and `live` is the sum of the counts of all handles. -/
  live : a.live = ∑ f ∈ Finset.range a.next, a.count f
  width_pos : ∀ f n, a.node? f = some n → 0 < n.width
  older : ∀ f n, a.node? f = some n → ∀ g ∈ n.term.args, 0 < g ∧ g < f
  /-- Operands have the widths their operation asks for, and constants fit in theirs. -/
  typed : ∀ f n, a.node? f = some n → n.Typed a.widthOf
  widens : ∀ f n, a.node? f = some n → n.Widens a.widthOf

lemma Tidy.consistent (tidy : a.Tidy True) : a.Consistent := by
  obtain ⟨owned, order⟩ := tidy
  exact
    { sizes := order.sizes
      live := order.live_eq_sum
      width_pos := fun f n found => (order.fits found).width_pos
      older := fun f n found => (order.fits found).older
      typed := fun f n found => (order.fits found).typed
      widens := fun f n found => order.strict trivial found }

/-- **The representation invariant.** It holds in every arena reached without an extension that
wraps around, and no request ever changes a node that is there. -/
theorem Unwrapped.invariant (reached : a.Unwrapped) :
    a.Consistent ∧
      ∀ b, Relation.ReflTransGen Next a b → ∀ f n, a.node? f = some n → b.node? f = some n := by
  have tidy := reached.tidy
  refine ⟨tidy.consistent, fun b later f n found => ?_⟩
  obtain ⟨owned, order⟩ := tidy
  exact (keeps_of_next order.toWellFormed later).grows.node found

/-- A variable is squared, and given back once more than it was taken: the second time is refused. -/
def squared : Arena :=
  (withX.after (.umulOverflow 1 1)).after (.release [1, 1])

lemma unwrapped_squared : squared.Unwrapped := by
  have reached : withX.Unwrapped := withX_eq ▸ Unwrapped.start.request (.call (.var 8 "x")) trivial
  have fits : (Request.umulOverflow 1 1).Unwrapped withX := by
    intro _
    show 8 + 8 < twoPow 64
    decide
  exact (reached.request _ fits).request _ trivial

/-- Five intermediate terms are left without references, the result has one. -/
theorem invariant_squared : squared.Unwrapped ∧ squared.Consistent ∧ squared.live = 1 ∧ squared.count 1 = 0 ∧
    ∀ b, Relation.ReflTransGen Next squared b → b.node? 1 = some ⟨8, .var "x"⟩ := by
  obtain ⟨consistent, kept⟩ := unwrapped_squared.invariant
  exact ⟨unwrapped_squared, consistent, rfl, rfl, fun b later => kept b later 1 _ rfl⟩

end Arena

end Faultline.Formula
