/-
# Proofs.Analysis.Address — addresses are exact modulo the width of a pointer

`contributions?` says what the indices of an address add to its base, from their
signed numbers alone: the offset of a field, or so many times the allocation size of
the type that is stepped over. The address that the engine builds is the base plus
these contributions, modulo the width of a pointer (`address_exact`).

Indices that step into no part of the type are refused.
-/
import Faultline.Proofs.Analysis.Alarm

namespace Faultline.Analysis

open IR (ValueId Ty)
open Formula (Handle widthLimit)

variable {s : Setting} {T : ValueId → Prop} {b c : Bench} {v x base : ValueId} {elem t : Ty} {indices : List ValueId}
  {isFirst : Bool} {step : Stride} {r : Handle} {extra : Multiset Handle} {e : Fault}

/-! ## Contributions -/

/-- The part of a type that an index of this number steps over. -/
def partAt (s : Setting) (t : Ty) (isFirst : Bool) (number : Int) : Option Stride :=
  if isFirst then some (.elements t)
  else match s.module.resolve t with
    | .struct packed fields =>
      match s.layout.fieldOffset ((Ty.struct packed fields).closed s.module.types) (word number) with
      | .ok offset => some (.field offset (fields.getD (word number).toNat .void))
      | .error _ => none
    | .array _ e => some (.elements e)
    | .vector _ _ e => some (.elements e)
    | _ => none

/-- What indices of these numbers add to an address. A number is cut or filled with its sign to the width of a
pointer. -/
def contributions? (s : Setting) : List Int → Bool → Ty → Option (List Int)
  | [], _, _ => some []
  | number :: numbers, isFirst, t =>
    match partAt s t isFirst number with
    | some (.field offset t) => (contributions? s numbers false t).map ((offset : Int) :: ·)
    | some (.elements e) => (contributions? s numbers false e).map
        ((BitVec.ofInt s.layout.pointerBits number).toInt * (s.extent e).alloc :: ·)
    | none => none

/-- An index steps over what its number does. -/
lemma partAt_eq (into : stepInto s t isFirst v = some step) (val : ValueId → Nat) :
    partAt s t isFirst (indexValue s val v) = some step := by
  unfold stepInto at into
  unfold partAt
  by_cases first : isFirst = true
  · rwa [if_pos first] at into ⊢
  · rw [if_neg first] at into ⊢
    generalize s.module.resolve t = shape at into ⊢
    cases shape with
    | struct packed fields =>
      rw [indexValue]
      generalize constIndex s.module v = read at into ⊢
      rcases read with _ | _ | i
      · cases into
      · cases into
      · exact into
    | _ => exact into

lemma ofInt_scaled (p : Nat) (number : Int) (size : Nat) :
    BitVec.ofInt p ((BitVec.ofInt p number).toInt * size) = BitVec.ofInt p (number * size) := by
  rw [BitVec.ofInt_mul, BitVec.ofInt_toInt, ← BitVec.ofInt_mul]

/-- The bytes that accepted indices step over are their contributions, as far as a pointer can tell. -/
lemma StepsInto.contributions (typed : StepsInto s indices isFirst t) (val : ValueId → Nat) :
    ∃ parts, contributions? s (indices.map (indexValue s val)) isFirst t = some parts ∧
      BitVec.ofInt s.layout.pointerBits (displacement s val indices isFirst t) = BitVec.ofInt _ parts.sum := by
  induction indices generalizing isFirst t with
  | nil => exact ⟨[], rfl, rfl⟩
  | cons v vs ih =>
    rcases into : stepInto s t isFirst v with _ | step
    · rw [StepsInto, into] at typed
      exact typed.2.elim
    · obtain ⟨parts, adds, same⟩ := ih ((stepsInto_cons into).1 typed).2
      rw [List.map_cons, contributions?, partAt_eq into, displacement, into]
      cases step with
      | field offset t' =>
        refine ⟨offset :: parts, congrArg (Option.map _) adds, ?_⟩
        rw [List.sum_cons, BitVec.ofInt_add, BitVec.ofInt_add, ← same]
        rfl
      | elements e =>
        refine ⟨_ :: parts, congrArg (Option.map _) adds, ?_⟩
        rw [List.sum_cons, BitVec.ofInt_add, BitVec.ofInt_add, ← same, ofInt_scaled]
        rfl

/-! ## Addresses -/

inductive Unaddressed (s : Setting) (v : ValueId) (elem : Ty) (base : ValueId) (indices : List ValueId) : Fault → Prop where
  | outside {e : Fault} (outside : ¬ StepsInto s indices true elem) : Unaddressed s v elem base indices e
  | unnamed (absent : s.module.identText v = none) : Unaddressed s v elem base indices .unprintable
  | wide (long : widthLimit ≤ s.layout.pointerBits) : Unaddressed s v elem base indices .constTooWide
  | operand {e : Fault} {x : ValueId} (demanded : x ∈ base :: indices.filter (isComputed s.module)) (cause : Cause s x e) :
      Unaddressed s v elem base indices e

lemma address_means (typing : Typing s T) (pointer : HasBits s base s.layout.pointerBits)
    (among : ∀ x ∈ base :: indices.filter (isComputed s.module), T x) (fit : Fit s T b extra) :
    Tries s T (Unaddressed s v elem base indices) b (address s (lookup s) v elem base indices) fun r c =>
      StepsInto s indices true elem ∧ Yields s T extra
        (fun val => BitVec.ofInt s.layout.pointerBits (val base + displacement s val indices true elem)) r c := by
  obtain ⟨p, d, typed⟩ := typing.typed (among base List.mem_cons_self)
  obtain rfl := typed.bits.unique pointer
  have looks : ∀ x ∈ base :: indices.filter (isComputed s.module),
      LooksUp s T (Unaddressed s v elem base indices) (lookup s) x := by
    intro x demanded b extra fit
    exact (lookup_fit typing (among x demanded) b extra fit).blame
      fun _ _ h => ⟨h.1, .operand demanded h.2⟩
  refine address_tries typed.positive typed.short .wide pointer .unnamed (fun no _ => .outside no)
    (looks base List.mem_cons_self) (fun x listed computed => ?_) fit
  have demanded := List.mem_cons_of_mem base (List.mem_filter.2 ⟨listed, computed⟩)
  obtain ⟨n, d, typed⟩ := typing.typed (among x demanded)
  exact ⟨looks x demanded, n, typed.bits, typed.positive⟩

lemma eval_address (typed : StepsInto s indices true elem)
    (means : c.Means r fun val => BitVec.ofInt s.layout.pointerBits (val base + displacement s val indices true elem))
    (assign : Handle → Nat) :
    ∃ parts, contributions? s (indices.map (indexValue s (c.reading assign))) true elem = some parts ∧
      (c.arena.eval assign r : Int) = (c.reading assign base + parts.sum) % 2 ^ s.layout.pointerBits := by
  obtain ⟨parts, adds, same⟩ := typed.contributions (c.reading assign)
  refine ⟨parts, adds, ?_⟩
  rw [means.value assign _ (c.agrees_reading assign), BitVec.ofInt_add, same, ← BitVec.ofInt_add, BitVec.toNat_ofInt,
    Int.toNat_of_nonneg (Int.emod_nonneg _ (by positivity))]
  push_cast
  rfl

/-- **Addresses are exact.** An address of typed operands is a formula of the width of a pointer, and under every
assignment it is the base plus the contributions of the indices, modulo this width. So if other indices have the same
numbers, whether they are constant or computed, they give the same address. An address is refused for indices that step
into no part of the type, and else only if a constant cannot be stored or a name cannot be written. -/
theorem address_exact (typing : Typing s T) (pointer : HasBits s base s.layout.pointerBits)
    (among : ∀ x ∈ base :: indices.filter (isComputed s.module), T x) (fit : Fit s T b extra) :
    Ends b (address s (lookup s) v elem base indices)
      (fun r c => (StepsInto s indices true elem ∧ Fit s T c (r ::ₘ extra)) ∧
        c.arena.widthOf r = s.layout.pointerBits ∧
        (∀ assign, ∃ parts, contributions? s (indices.map (indexValue s (c.reading assign))) true elem = some parts ∧
          (c.arena.eval assign r : Int) = (c.reading assign base + parts.sum) % 2 ^ s.layout.pointerBits) ∧
        ∀ {u indices' r' d}, (∀ x ∈ indices'.filter (isComputed s.module), T x) →
          outcome (address s (lookup s) u elem base indices') c = (.ok r', d) → ∀ assign,
          indices'.map (indexValue s (d.reading assign)) = indices.map (indexValue s (d.reading assign)) →
          d.arena.eval assign r' = d.arena.eval assign r)
      (fun e _ => Unaddressed s v elem base indices e) := by
  refine (address_means typing pointer among fit).mono (fun r c h => ?_) fun _ _ h => h.2
  obtain ⟨-, typed, yields⟩ := h
  refine ⟨⟨typed, yields.fit⟩, yields.means.width, eval_address typed yields.means, fun {u indices' r' d} others ran assign same => ?_⟩
  obtain ⟨step, typed', yields'⟩ := (address_means typing pointer
    (List.forall_mem_cons.2 ⟨among base List.mem_cons_self, others⟩) yields.fit).ok ran
  obtain ⟨parts, adds, value⟩ := eval_address typed (yields.means.of_grows yields.fit.toKept step.grows) assign
  obtain ⟨parts', adds', value'⟩ := eval_address typed' yields'.means assign
  obtain rfl : parts' = parts := by
    rw [same, adds] at adds'
    exact (Option.some.inj adds').symm
  exact_mod_cast value'.trans value.symm

/-! ## An address with computed indices -/

/-- A byte beside four words of 32 bits. -/
def recordTy : Ty :=
  .struct false [.int 8, .array 4 (.int 32)]

/-- A pointer to records, two computed indices and a constant one. -/
def records : Setting where
  module :=
    { defs := #[.const .bool (.int 1), .const .bool (.int 0), .const .token (.other [.text "none"]),
        .param (.named (Text.utf8 "p")) (.pointer recordTy 0), .param (.named (Text.utf8 "i")) (.int 16),
        .const (.int 32) (.int 1), .param (.named (Text.utf8 "j")) (.int 128)] }
  layout := {}
  graph := { func := { id := 0, name := [], result := .void, params := [] } }
  cut := {}

lemma records_proper (among : v ∈ [3, 4, 6]) : Proper records v := by
  obtain rfl | rfl | rfl : v = 3 ∨ v = 4 ∨ v = 6 := by simpa using among
  all_goals exact .intro ⟨rfl, rfl, by decide, by decide, trivial, fun _ => rfl, nofun⟩ nofun

lemma records_field : stepInto records recordTy false 5 = some (.field 4 (.array 4 (.int 32))) := by
  have closed : recordTy.closed records.module.types = recordTy := by
    simp [Ty.closed, Ty.inline, Ty.inlineAll, recordTy, records]
  have offsets : records.layout.fieldOffsets recordTy = [0, 4] := by
    simp only [Layout.fieldOffsets, Layout.extents, Layout.extent, recordTy]
    decide +kernel
  have offset : records.layout.fieldOffset (recordTy.closed records.module.types) (word 1) = .ok 4 := by
    unfold Layout.fieldOffset
    rw [closed, offsets]
    rfl
  show (match records.layout.fieldOffset (recordTy.closed records.module.types) (word 1) with
    | .ok offset => some (Stride.field offset (.array 4 (.int 32)))
    | .error _ => none) = _
  rw [offset]

lemma records_steps : StepsInto records [4, 5, 6] true recordTy := by
  have first : stepInto records recordTy true 4 = some (.elements recordTy) := rfl
  have last : stepInto records (.array 4 (.int 32)) false 6 = some (.elements (.int 32)) := rfl
  exact (stepsInto_cons first).2 ⟨⟨16, rfl, by decide⟩, (stepsInto_cons records_field).2
    ⟨⟨32, rfl, by decide⟩, (stepsInto_cons last).2 ⟨⟨128, rfl, by decide⟩, trivial⟩⟩⟩

/-- The address of the word `j` of the record `i`. -/
theorem address_exact_records : ∃ r c,
    outcome (address records (lookup records) 3 recordTy 3 [4, 5, 6]) records.start = (.ok r, c) ∧
      c.arena.widthOf r = 64 ∧ ∀ assign, ∃ parts,
        contributions? records ([4, 5, 6].map (indexValue records (c.reading assign))) true recordTy = some parts ∧
          (c.arena.eval assign r : Int) = (c.reading assign 3 + parts.sum) % 2 ^ 64 := by
  have pointer : HasBits records 3 64 := rfl
  have among : ∀ x ∈ 3 :: [4, 5, 6].filter (isComputed records.module), Proper records x :=
    fun x listed => records_proper listed
  have granted : ∀ e, ¬ Unaddressed records 3 recordTy 3 [4, 5, 6] e := by
    rintro e (no | no | long | ⟨demanded, cause⟩)
    · exact no records_steps
    · cases no
    · revert long
      decide
    · exact (among _ demanded).not_cause cause
  have width : records.layout.pointerBits = 64 := rfl
  -- Applied to the records themselves, the theorem would have the request run while it is elaborated.
  generalize records = s at *
  rw [← width] at pointer ⊢
  obtain ⟨r, c, run, -, exact⟩ := ((address_exact (proper_typing s) pointer among (follows_start s _).1).mono
    (fun _ _ h => h) fun e _ no => granted e no).exists_ok
  exact ⟨r, c, run, exact.1, exact.2.1⟩

end Faultline.Analysis
