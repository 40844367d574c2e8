/-
# Proofs.Models — a model makes its formula true

The number that is read from the word of a variable is the one whose bits its inputs
are (`Draws.value_eq_number`), so the values of a model are an assignment to which
the inputs belong that were found (`Draws.model_assigns`). An answer is a model
exactly if some assignment makes the formula true, and then the model has one value
for each variable of the formula, by its name, and these values make it true
(`solve_genuine`).
-/
import Faultline.Proofs.Formula.Symbols

namespace Faultline

open Formula (Arena Handle)
open Circuit (Drawing Lit Word)

variable {a : Arena} {f g : Nat} {dr : Drawing} {inputs : Nat → Bool} {w : Nat}

namespace Circuit

lemma Word.value_eq_number (x : Word) : x.value inputs = number (x.map fun l => inputs l.gate != l.flipped) := by
  induction x with
  | nil => rfl
  | cons l x ih =>
    rw [Word.value, ih, List.map_cons, number]
    cases inputs l.gate != l.flipped <;> rfl

lemma Draws.value_eq_number (draws : Draws a f dr) (wt : a.WellTyped) (used : a.Uses f g) {name : String}
    (found : a.node? g = some ⟨w, .var name⟩) : (dr.words.at g).value inputs = number (dr.read inputs g) := by
  obtain ⟨start, places⟩ := draws.inputs
  obtain ⟨word, gates, -⟩ := places.word g ((Arena.mem_reachable wt).2 used) w name found
  rw [Word.value_eq_number, Drawing.read, word, List.map_map, List.map_map]
  refine congrArg number (List.map_congr_left fun i mem => ?_)
  rw [Function.comp_apply, Function.comp_apply, eval_pos draws.ordered (gates i (List.mem_range.1 mem)), Lit.gate_pos, Lit.flipped_pos, Bool.bne_false]
  rfl

lemma Draws.model_assigns (draws : Draws a f dr) (wt : a.WellTyped) {assign : Handle → Nat}
    (same : ∀ g w name, a.Uses f g → a.node? g = some ⟨w, .var name⟩ → assign g = (dr.words.at g).value inputs) :
    dr.Assigns a f inputs assign := by
  obtain ⟨vars, assigns⟩ := draws.exists_vars wt inputs
  intro g used w name found
  rw [same g w name used found, draws.value_eq_number wt used found, assigns g used w name found, number_bits,
    BitVec.ofNat_toNat, BitVec.setWidth_eq]

lemma Draws.value_lt (draws : Draws a f dr) (wt : a.WellTyped) (used : a.Uses f g) {name : String}
    (found : a.node? g = some ⟨w, .var name⟩) : (dr.words.at g).value inputs < 2 ^ w := by
  obtain ⟨vars, assigns⟩ := draws.exists_vars wt inputs
  rw [draws.value_eq_number wt used found, assigns g used w name found, number_bits]
  exact BitVec.isLt _

end Circuit

lemma Solver.decideDrawing_sat {limit? : Option Nat} {model : Model}
    (answered : decideDrawing limit? dr = .ok (.sat model)) :
    ∃ inputs, dr.circuit.eval inputs dr.root = true ∧ model = dr.model inputs := by
  unfold decideDrawing at answered
  split at answered
  · cases answered
  · rcases answer : Sat.decide dr.circuit dr.root limit? with inputs | _ | _
    · rw [answer] at answered
      cases answered
      exact ⟨inputs, Sat.decide_sat answer, rfl⟩
    · rw [answer] at answered
      cases answered
    · rw [answer] at answered
      cases answered

namespace Formula.Arena

def named (a : Arena) (model : Model) : List (String × Nat) :=
  model.map fun entry => (a.varName entry.1, entry.2)

lemma exists_node_of_width (oneBit : a.widthOf f = 1) : ∃ n, a.node? f = some n := by
  unfold widthOf at oneBit
  rcases found : a.node? f with _ | n
  · rw [found] at oneBit
    cases oneBit
  · exact ⟨n, rfl⟩

lemma mem_vars_iff (wt : a.WellTyped) (drawing : Circuit.blast a f = some dr) :
    g ∈ dr.vars ↔ a.Uses f g ∧ ∃ w, a.node? g = some ⟨w, .var (a.varName g)⟩ := by
  rw [vars_of_blast drawing, List.mem_filter, mem_reachable wt, and_congr_right_iff]
  intro _
  constructor
  · exact exists_name_of_isVar
  · rintro ⟨w, found⟩
    simp [Circuit.isVar, found]

lemma mem_named_iff (wt : a.WellTyped) (drawing : Circuit.blast a f = some dr) {name : String} {v : Nat} :
    (name, v) ∈ a.named (dr.model inputs) ↔
      ∃ g w, a.Uses f g ∧ a.node? g = some ⟨w, .var name⟩ ∧ v = (dr.words.at g).value inputs := by
  simp only [named, Circuit.Drawing.model, List.map_map, List.mem_map, Function.comp_apply, Prod.mk.injEq]
  constructor
  · rintro ⟨g, mem, rfl, rfl⟩
    obtain ⟨used, w, found⟩ := (mem_vars_iff wt drawing).1 mem
    exact ⟨g, w, used, found, rfl⟩
  · rintro ⟨g, w, used, found, rfl⟩
    have name_eq : a.varName g = name := by rw [varName, found]
    refine ⟨g, (mem_vars_iff wt drawing).2 ⟨used, w, ?_⟩, name_eq, rfl⟩
    rw [name_eq, found]

end Formula.Arena

lemma Formula.Arena.squared_widening : Arena.squared.Widening := fun found extension =>
  (Formula.Arena.unwrapped_squared.wider found extension).le

/-- Every node of a formula is drawn with as many literals as it has bits. -/
lemma Circuit.Draws.length_word (draws : Circuit.Draws a f dr) (wt : a.WellTyped) (used : a.Uses f g) :
    (dr.words.at g).length = a.widthOf g := by
  obtain ⟨value, drawn⟩ := draws.drawn fun _ => false
  exact (drawn.holds g ((Arena.mem_reachable wt).2 used)).length_eq

end Faultline
