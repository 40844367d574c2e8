/-
# Proofs.Formula.Quiet — requests that make no variable

A quiet request leaves the nodes where they are and adds plain ones, so a node that is
not plain was there before. `after_cases` puts the two kinds of requests side by side: one
makes a variable with its name, or it is quiet.
-/
import Faultline.Proofs.Formula.Requests

namespace Faultline.Formula

variable {a b : Arena} {f w : Nat} {n : Node}

namespace Arena.Quiet

lemma first_eq (quiet : a.Quiet b) : b.first = a.first := by
  unfold first
  rw [quiet.closed]

lemma node (quiet : a.Quiet b) (found : a.node? f = some n) : b.node? f = some n := by
  obtain ⟨new, nodes, -⟩ := quiet.nodes
  unfold node? at found ⊢
  rw [quiet.first_eq]
  split at found
  · cases found
  · rename_i inside
    rw [if_neg inside, ← Array.getElem?_toList, nodes]
    rw [← Array.getElem?_toList] at found
    obtain ⟨inList, -⟩ := List.getElem?_eq_some_iff.1 found
    rw [List.getElem?_append_left inList, found]

lemma of_node (quiet : a.Quiet b) (found : b.node? f = some n) (special : ¬ n.Plain) :
    a.node? f = some n := by
  obtain ⟨new, nodes, plain⟩ := quiet.nodes
  unfold node? at found ⊢
  rw [quiet.first_eq] at found
  split at found
  · cases found
  · rename_i inside
    rw [if_neg inside, ← Array.getElem?_toList]
    rw [← Array.getElem?_toList, nodes] at found
    by_cases old : f - a.first < a.nodes.toList.length
    · rw [← found, List.getElem?_append_left old]
    · rw [List.getElem?_append_right (by omega)] at found
      exact absurd (plain n (List.mem_of_getElem? found)) special

end Arena.Quiet

namespace Arena

lemma quiet_after (wf : a.WellFormed) (request : Request) (other : ∀ w name, request ≠ .call (.var w name)) :
    a.Quiet (a.after request) := by
  have ends := Ends.iff_forall.1 (request.quietly other a wf)
  unfold after
  rcases run : outcome request.run a with ⟨e | r, b⟩
  · exact (ends.2 e b run).2
  · exact (ends.1 r b run).2

/-! ## The other request -/

/-- The name that a variable gets which is asked for by this one. -/
def given (a : Arena) (name : String) : String :=
  if name.isEmpty || a.names.contains name then name ++ "#" ++ toString a.next else name

/-- A variable is a new node with its name, and its name is taken from then on. -/
lemma after_var (isOpen : a.closed = false) (pos : 0 < w) (name : String) :
    a.after (.call (.var w name)) =
      a.push ⟨w, .var (a.given name)⟩ (a.names.insert (a.given name)) := by
  show (outcome (discarding (var w name)) a).2 = _
  simp only [discarding, var, add, outcome_bind, Formula.need, if_pos pos, outcome_pure, outcome_get,
    if_pos isOpen, outcome_modify]
  rfl

lemma after_var_zero (zero : ¬ 0 < w) (name : String) : a.after (.call (.var w name)) = a := by
  show (outcome (discarding (var w name)) a).2 = _
  simp only [discarding, var, outcome_bind, Formula.need, if_neg zero, outcome_throw]

/-- What one request does: it makes a variable, or it is quiet. -/
lemma after_cases (wf : a.WellFormed) (request : Request) :
    (∃ w name, request = .call (.var w name) ∧ 0 < w ∧
      a.after request = a.push ⟨w, .var (a.given name)⟩ (a.names.insert (a.given name))) ∨
    (∀ w name, request = .call (.var w name) → ¬ 0 < w) ∧ a.Quiet (a.after request) := by
  by_cases asked : ∃ w name, request = .call (.var w name)
  · obtain ⟨w, name, rfl⟩ := asked
    by_cases pos : 0 < w
    · exact .inl ⟨w, name, rfl, pos, after_var wf.isOpen pos name⟩
    · refine .inr ⟨?_, ?_⟩
      · intro v s same
        cases same
        exact pos
      · rw [after_var_zero pos]
        exact Quiet.refl a
  · refine .inr ⟨?_, quiet_after wf request fun w name same => asked ⟨w, name, same⟩⟩
    intro w name same
    exact absurd ⟨w, name, same⟩ asked

end Arena

end Faultline.Formula
