/-
# Proofs.Formula.Names — when the names of variables are unique

A name that is empty or taken gets `#` and the handle of the new node appended, and
nothing looks whether the result is taken itself. So names are not unique in every
arena in use (`names_collide`). After any requests, no two variables share a name if
and only if no request on the way was renamed to a name that some variable had
(`names_apart_iff`); what one request does to uniqueness is `apart_after`.
-/
import Faultline.Proofs.Formula.Quiet
import Faultline.Proofs.Solver

namespace Faultline.Formula

open List

variable {a b : Arena} {f w : Nat} {s t : String} {solver' : Option Solver} {requests : List Request}

namespace Arena

def Bears (a : Arena) (s : String) : Prop :=
  ∃ f w, a.node? f = some ⟨w, .var s⟩

def Apart (a : Arena) : Prop :=
  ∀ ⦃f g v w s⦄, a.node? f = some ⟨v, .var s⟩ → a.node? g = some ⟨w, .var s⟩ → f = g

/-- The arena keeps the names of its variables. -/
structure Named (a : Arena) : Prop extends WellFormed a where
  names : ∀ s, a.names.contains s = true ↔ a.Bears s

/-- What a name that is empty or taken is turned into. -/
def spare (a : Arena) (name : String) : String :=
  name ++ "#" ++ toString a.next

/-- A variable asked for by this name is given one that some variable has already. -/
def Clashes (a : Arena) (name : String) : Prop :=
  (name = "" ∨ a.Bears name) ∧ a.Bears (a.spare name)

lemma given_eq_spare (named : a.Named) (taken : s = "" ∨ a.Bears s) : a.given s = a.spare s := by
  unfold given
  rw [if_pos]
  · rfl
  · rw [Bool.or_eq_true, String.isEmpty_iff, named.names]
    exact taken

lemma given_eq_self (named : a.Named) (free : ¬ (s = "" ∨ a.Bears s)) : a.given s = s := by
  unfold given
  rw [if_neg]
  rw [Bool.or_eq_true, String.isEmpty_iff, named.names]
  exact free

/-- The only name that can be given twice is a spare one. -/
lemma bears_given_iff (named : a.Named) : a.Bears (a.given s) ↔ a.Clashes s := by
  unfold Clashes
  by_cases taken : s = "" ∨ a.Bears s
  · rw [given_eq_spare named taken]
    exact (and_iff_right taken).symm
  · rw [given_eq_self named taken]
    constructor
    · intro bears
      exact absurd (.inr bears) taken
    · intro clash
      exact absurd clash.1 taken

/-! ## One request -/

lemma Quiet.bears_iff (quiet : a.Quiet b) : b.Bears s ↔ a.Bears s := by
  constructor
  · rintro ⟨f, w, found⟩
    exact ⟨f, w, quiet.of_node found fun plain => plain⟩
  · rintro ⟨f, w, found⟩
    exact ⟨f, w, quiet.node found⟩

lemma Quiet.apart_iff (quiet : a.Quiet b) : b.Apart ↔ a.Apart := by
  constructor
  · intro apart f g v w s left right
    exact apart (quiet.node left) (quiet.node right)
  · intro apart f g v w s left right
    exact apart (quiet.of_node left fun plain => plain) (quiet.of_node right fun plain => plain)

lemma bears_push (wf : a.WellFormed) {names : Std.HashSet String} :
    (a.push ⟨w, .var s⟩ names).Bears t ↔ a.Bears t ∨ t = s := by
  constructor
  · rintro ⟨f, v, found⟩
    rcases of_node?_push wf found with ⟨-, same⟩ | old
    · cases same
      exact .inr rfl
    · exact .inl ⟨f, v, old⟩
  · rintro (⟨f, v, found⟩ | rfl)
    · exact ⟨f, v, (grows_push wf _ names).node found⟩
    · exact ⟨a.next, w, node?_push_next wf⟩

lemma apart_push (wf : a.WellFormed) {names : Std.HashSet String} :
    (a.push ⟨w, .var s⟩ names).Apart ↔ a.Apart ∧ ¬ a.Bears s := by
  have old : ∀ {f n}, a.node? f = some n → (a.push ⟨w, .var s⟩ names).node? f = some n :=
    (grows_push wf _ names).node
  have new : (a.push ⟨w, .var s⟩ names).node? a.next = some ⟨w, .var s⟩ := node?_push_next wf
  constructor
  · intro apart
    refine ⟨fun f g v u t left right => apart (old left) (old right), ?_⟩
    rintro ⟨f, v, found⟩
    obtain rfl : f = a.next := apart (old found) new
    exact absurd (realized_of_node? wf.isOpen found).2 (lt_irrefl _)
  · rintro ⟨apart, free⟩ f g v u t left right
    rcases of_node?_push wf left with ⟨rfl, same⟩ | left
    · cases same
      rcases of_node?_push wf right with ⟨rfl, -⟩ | right
      · rfl
      · exact absurd ⟨g, u, right⟩ free
    · rcases of_node?_push wf right with ⟨rfl, same⟩ | right
      · cases same
        exact absurd ⟨f, v, left⟩ free
      · exact apart left right

lemma Named.after (named : a.Named) (request : Request) : (a.after request).Named := by
  refine ⟨(keeps_after named.toWellFormed request).wellFormed, fun s => ?_⟩
  rcases after_cases named.toWellFormed request with ⟨w, name, -, -, after⟩ | ⟨-, quiet⟩
  · rw [after, bears_push named.toWellFormed, ← named.names]
    show (a.names.insert (a.given name)).contains s = true ↔ _
    rw [Std.HashSet.contains_insert, Bool.or_eq_true, beq_iff_eq, or_comm, eq_comm (a := s)]
  · rw [quiet.bears_iff, quiet.names]
    exact named.names s

/-- A request keeps names apart unless it gives a taken one. -/
lemma apart_after (named : a.Named) (request : Request) : (a.after request).Apart ↔
      a.Apart ∧ ∀ w name, request = .call (.var w name) → 0 < w → ¬ a.Clashes name := by
  rcases after_cases named.toWellFormed request with ⟨w, name, rfl, pos, after⟩ | ⟨none, quiet⟩
  · rw [after, apart_push named.toWellFormed, bears_given_iff named, and_congr_right_iff]
    intro _
    constructor
    · rintro free v s same -
      cases same
      exact free
    · intro all
      exact all w name rfl pos
  · rw [quiet.apart_iff, and_iff_left]
    intro w name same pos
    exact absurd pos (none w name same)

/-! ## Any number of requests -/

def afterAll (a : Arena) (requests : List Request) : Arena :=
  requests.foldl after a

lemma Named.afterAll (named : a.Named) : (a.afterAll requests).Named := by
  induction requests generalizing a with
  | nil => exact named
  | cons request requests ih => exact ih (named.after request)

lemma apart_afterAll (named : a.Named) (requests : List Request) :
    (a.afterAll requests).Apart ↔ a.Apart ∧ ∀ before w name rest,
      requests = before ++ .call (.var w name) :: rest → 0 < w → ¬ (a.afterAll before).Clashes name := by
  induction requests generalizing a with
  | nil => simp [afterAll]
  | cons request requests ih =>
    show ((a.after request).afterAll requests).Apart ↔ _
    rw [ih (named.after request), apart_after named, and_assoc, and_congr_right_iff]
    intro _
    constructor
    · rintro ⟨now, later⟩ before w name rest split
      -- the request in question is the first one, or one of those that follow
      rcases before with _ | ⟨first, before⟩
      · obtain ⟨rfl, rfl⟩ := cons.inj split
        exact now w name rfl
      · obtain ⟨rfl, rfl⟩ := cons.inj split
        exact later before w name rest rfl
    · intro all
      refine ⟨fun w name same => ?_, fun before w name rest split => ?_⟩
      · exact all [] w name requests (by rw [same]; rfl)
      · exact all (request :: before) w name rest (by rw [split]; rfl)

/-! ## Names without the mark -/

/-- Without a mark, or made up for a node that is there. -/
def Traceable (a : Arena) (s : String) : Prop :=
  '#' ∉ s.toList ∨ ∃ name k, k < a.next ∧ s = name ++ "#" ++ toString k

lemma mark_not_mem_toString (k : Nat) : '#' ∉ (toString k).toList := by
  intro mem
  rw [Nat.toString_eq_repr, Nat.toList_repr] at mem
  exact absurd (Nat.isDigit_of_mem_toDigits (by omega) (by omega) mem) (by decide)

lemma marked_inj {name name' : String} {j k : Nat} (plain : '#' ∉ name.toList)
    (same : name ++ "#" ++ toString j = name' ++ "#" ++ toString k) : j = k := by
  have lists : name.toList ++ '#' :: (toString j).toList = name'.toList ++ '#' :: (toString k).toList := by
    simpa using congrArg String.toList same
  obtain ⟨-, -, digits⟩ := (append_cons_inj_of_notMem plain (mark_not_mem_toString j)).1 lists
  exact Nat.repr_inj.1 (String.toList_inj.1 digits)

/-- The spare name of one without a mark is new, if all names can be traced. -/
lemma not_clashes (traced : ∀ s, a.Bears s → a.Traceable s) (plain : '#' ∉ s.toList) : ¬ a.Clashes s := by
  rintro ⟨-, bears⟩
  rcases traced _ bears with unmarked | ⟨name, k, inside, same⟩
  · exact unmarked (by simp [spare])
  · exact absurd (marked_inj plain same) (Nat.ne_of_gt inside)

lemma Traceable.mono (le : a.next ≤ b.next) (traced : a.Traceable s) : b.Traceable s := by
  rcases traced with unmarked | ⟨name, k, inside, same⟩
  · exact .inl unmarked
  · exact .inr ⟨name, k, lt_of_lt_of_le inside le, same⟩

lemma traced_after (named : a.Named) (traced : ∀ s, a.Bears s → a.Traceable s) {request : Request}
    (plain : ∀ w name, request = .call (.var w name) → '#' ∉ name.toList) :
    ∀ s, (a.after request).Bears s → (a.after request).Traceable s := by
  intro s bears
  have grown := (keeps_after named.toWellFormed request).grows.next_le
  rcases after_cases named.toWellFormed request with ⟨w, name, rfl, -, after⟩ | ⟨-, quiet⟩
  · rw [after] at bears grown ⊢
    rcases (bears_push named.toWellFormed).1 bears with old | rfl
    · exact (traced s old).mono grown
    · by_cases taken : name = "" ∨ a.Bears name
      · rw [given_eq_spare named taken]
        refine .inr ⟨name, a.next, ?_, rfl⟩
        exact (realized_of_node? (a := a.push _ _) named.isOpen (node?_push_next named.toWellFormed)).2
      · rw [given_eq_self named taken]
        exact .inl (plain w name rfl)
  · exact (traced s (quiet.bears_iff.1 bears)).mono grown

lemma traced_afterAll (named : a.Named) (traced : ∀ s, a.Bears s → a.Traceable s)
    (plain : ∀ w name, Request.call (.var w name) ∈ requests → '#' ∉ name.toList) :
    ∀ s, (a.afterAll requests).Bears s → (a.afterAll requests).Traceable s := by
  induction requests generalizing a with
  | nil => exact traced
  | cons request requests ih =>
    refine ih (named.after request) (traced_after named traced fun w name same => ?_) fun w name mem => ?_
    · exact plain w name (by rw [same]; exact mem_cons_self)
    · exact plain w name (mem_cons_of_mem _ mem)

/-! ## Models -/

lemma vars_of_blast {dr : Circuit.Drawing} (drawing : Circuit.blast a f = some dr) :
    dr.vars = (a.reachable f).filter (Circuit.isVar a) := by
  unfold Circuit.blast at drawing
  dsimp only at drawing
  split at drawing
  · cases drawing
  · cases drawing
    rfl

/-- A model has one entry for each variable of the formula. -/
lemma model_keys {solver : Solver} {model : Model} (wf : a.WellFormed)
    (answered : query (some solver) a f = (.ok (.ok (.sat model)), solver')) :
    model.map Prod.fst = (a.reachable f).filter (Circuit.isVar a) := by
  obtain ⟨-, -, ⟨dr, drawing, decided⟩, -⟩ := query_exact wf answered
  have vars := vars_of_blast drawing
  unfold Solver.decideDrawing at decided
  split at decided
  · cases decided
  · split at decided
    · cases decided
      rw [← vars, Circuit.Drawing.model, map_map]
      exact map_id _
    · cases decided
    · cases decided

lemma exists_name_of_isVar (isVar : Circuit.isVar a f = true) :
    ∃ w, a.node? f = some ⟨w, .var (a.varName f)⟩ := by
  unfold Circuit.isVar at isVar
  split at isVar
  · rename_i w name found
    refine ⟨w, ?_⟩
    rw [varName, found]
  · cases isVar

lemma Apart.names_nodup (apart : a.Apart) :
    (((a.reachable f).filter (Circuit.isVar a)).map a.varName).Nodup := by
  have sorted : ((a.reachable f).filter (Circuit.isVar a)).Nodup :=
    ((a.pairwise_reachable f).imp Nat.ne_of_lt).filter _
  refine List.Nodup.map_on (fun g mem h mem' same => ?_) sorted
  obtain ⟨v, found⟩ := exists_name_of_isVar (mem_filter.1 mem).2
  obtain ⟨w, found'⟩ := exists_name_of_isVar (mem_filter.1 mem').2
  rw [same] at found
  exact apart found found'

lemma Apart.model_names_nodup {solver : Solver} {model : Model} (wf : a.WellFormed)
    (apart : a.Apart) (answered : query (some solver) a f = (.ok (.ok (.sat model)), solver')) :
    (model.map fun entry => a.varName entry.1).Nodup := by
  show (model.map (a.varName ∘ Prod.fst)).Nodup
  rw [← map_map, model_keys wf answered]
  exact apart.names_nodup

/-! ## Arenas in use -/

lemma named_empty : ({} : Arena).Named := by
  refine ⟨wellFormed_empty, fun s => ?_⟩
  constructor
  · intro kept
    exact absurd kept (by simp)
  · rintro ⟨f, w, found⟩
    simp [node?] at found

lemma apart_empty : ({} : Arena).Apart := by
  intro f g v w s found
  simp [node?] at found

/-- **When names are unique.** After any requests, no two variables share a name if and only if no
request for a variable on the way was given, as the spare name of one that was empty or taken, a
name that some variable had. Requests by names without a mark never are. As long as no two variables
share a name, a model keyed by name has an entry for each variable. -/
theorem names_apart_iff (requests : List Request) :
    ((afterAll {} requests).Apart ↔ ∀ before w name rest,
      requests = before ++ .call (.var w name) :: rest → 0 < w → ¬ (afterAll {} before).Clashes name) ∧
    ((∀ w name, .call (.var w name) ∈ requests → '#' ∉ name.toList) → (afterAll {} requests).Apart) ∧
    ((afterAll {} requests).Apart → ∀ solver f model solver',
      query (some solver) (afterAll {} requests) f = (.ok (.ok (.sat model)), solver') →
      (model.map fun entry => (afterAll {} requests).varName entry.1).Nodup) := by
  have unique := (apart_afterAll named_empty requests).trans (and_iff_right apart_empty)
  have named : (afterAll {} requests).Named := named_empty.afterAll
  refine ⟨unique, fun plain => unique.2 ?_, fun apart solver f model solver' answered => ?_⟩
  · rintro before w name rest rfl -
    refine not_clashes (traced_afterAll named_empty ?_ fun v s mem => ?_) (plain w name (by simp))
    · rintro s ⟨f, v, found⟩
      simp [node?] at found
    · exact plain v s (List.mem_append_left _ mem)
  · exact apart.model_names_nodup named.toWellFormed answered

/-- A variable that is asked for without a name is given the one of the variable before it. -/
theorem names_collide : ¬ (afterAll {} [.call (.var 8 "#2"), .call (.var 8 "")]).Apart := by
  rw [apart_afterAll named_empty]
  rintro ⟨-, free⟩
  have marked : afterAll {} [.call (.var 8 "#2")] = ({} : Arena).push ⟨8, .var "#2"⟩ (({} : Arena).names.insert "#2") := by
    show ({} : Arena).after (.call (.var 8 "#2")) = _
    have bearsNone : ¬ ("#2" = "" ∨ ({} : Arena).Bears "#2") := by
      rintro (empty | ⟨f, w, found⟩)
      · exact absurd empty (by decide)
      · simp [node?] at found
    rw [after_var rfl (by decide), given_eq_self named_empty bearsNone]
  refine free [.call (.var 8 "#2")] 8 "" [] rfl (by decide) ⟨.inl rfl, ?_⟩
  rw [marked]
  exact ⟨1, 8, rfl⟩

end Arena

end Faultline.Formula
