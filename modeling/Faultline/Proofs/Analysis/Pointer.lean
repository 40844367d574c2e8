/-
# Proofs.Analysis.Pointer — pointers without bits

A specification of pointers gives their size and their alignment. Alignments of less than
a byte are taken for one byte, but a size is taken as it stands, and the last one counts
(`pointerBits_of_parse`). So a layout may be read under which pointers have no bits: the
formula of a pointer is then refused for its width. Under any other layout no formula of
a typed value is (`pointers_refused_iff`).
-/
import Faultline.Proofs.Analysis.Evaluate
import Faultline.Proofs.Layout

namespace Faultline.Layout

open Text (Bytes splitBytes utf8)

variable {l l' : Layout} {spec text : Bytes} {n : Nat}

/-! ## The size of pointers -/

/-- The size of pointers that a specification gives. -/
def pointerSize? (spec : Bytes) : Option Nat :=
  let fields := splitBytes colon spec
  let head := fields.headD []
  if head == utf8 "p" || head == utf8 "p0" then
    match fields with
    | _ :: size :: _ :: _ => (number size).toOption
    | _ => none
  else none

lemma number_bind {next : Nat → Except SpecError Layout} (read : (number text >>= next) = .ok l) :
    ∃ n, number text = .ok n ∧ next n = .ok l := by
  rcases same : number text with e | n
  · rw [same] at read
    cases read
  · rw [same] at read
    exact ⟨n, rfl, read⟩

lemma pointerBits_of_apply (applied : apply l spec = .ok l') : l'.pointerBits = (pointerSize? spec).getD l.pointerBits := by
  unfold apply at applied
  split at applied
  · next empty =>
    obtain rfl := List.isEmpty_iff.1 empty
    have none : pointerSize? [] = none := by decide +kernel
    cases applied
    rw [none, Option.getD_none]
  · unfold pointerSize?
    dsimp only at applied ⊢
    generalize splitBytes colon spec = fields at applied ⊢
    split at applied
    · next pointers =>
      rw [if_pos pointers]
      split at applied
      · obtain ⟨size, read, applied⟩ := number_bind applied
        obtain ⟨align, -, applied⟩ := number_bind applied
        cases applied
        dsimp only
        rw [read]
        rfl
      · cases applied
    · next others =>
      rw [if_neg others, Option.getD_none]
      split at applied
      · cases applied
      · split at applied
        · split at applied
          · obtain ⟨size, -, applied⟩ := number_bind applied
            obtain ⟨align, -, applied⟩ := number_bind applied
            split at applied <;> cases applied <;> rfl
          · cases applied
        · split at applied
          · split at applied
            · obtain ⟨align, -, applied⟩ := number_bind applied
              cases applied
              rfl
            · cases applied
          · cases applied
            rfl

/-- The last specification of pointers counts. -/
lemma pointerBits_of_foldlM {specs : List Bytes} (applied : specs.foldlM apply l = .ok l') :
    l'.pointerBits = (specs.filterMap pointerSize?).getLast?.getD l.pointerBits := by
  induction specs generalizing l with
  | nil =>
    cases applied
    rfl
  | cons spec specs ih =>
    rw [List.foldlM_cons] at applied
    rcases first : apply l spec with e | mid
    · rw [first] at applied
      cases applied
    · rw [first] at applied
      rw [ih applied, pointerBits_of_apply first, List.filterMap_cons]
      split
      · next none => rw [none, Option.getD_none]
      · next size given =>
        rw [given, List.getLast?_cons]
        rfl

lemma pointerBits_of_parse (parsed : parse text = .ok l) :
    l.pointerBits = ((splitBytes dash text).filterMap pointerSize?).getLast?.getD 64 :=
  pointerBits_of_foldlM (l := {}) (parse_eq text ▸ parsed)

end Faultline.Layout

namespace Faultline.Analysis

open IR (Module ValueId Def)
open Formula (Handle Arena widthRange need_bind)
open Layout (pointerSize?)

variable {s : Setting} {T : ValueId → Prop} {b : Bench} {v : ValueId}

/-! ## Refusals -/

/-- A variable or a constant without bits was asked for. -/
inductive ZeroWidth : Fault → Prop where
  | var (name : String) : ZeroWidth (.zeroWidthVar name)
  | const : ZeroWidth .zeroWidthConst

/-- Its formula is made of no other formula. -/
def isLeaf : Def ValueId → Bool
  | .inst _ _ (.phi ..) _ | .inst _ _ (.call _) _ | .inst _ _ (.other ..) _ => true
  | .inst .. | .const _ (.gep ..) => false
  | _ => true

/-- A pointer that is known by its name only, or the null pointer. -/
structure Leaf (s : Setting) (v : ValueId) : Prop where
  pointer : ∃ elem space, s.module.resolve (s.module.typeOf v) = .pointer elem space
  leaf : ∃ d, s.module.get? v = some d ∧ isLeaf d = true
  named : (s.module.identText v).isSome

namespace Leaf

lemma hasBits (leaf : Leaf s v) : HasBits s v s.layout.pointerBits := by
  obtain ⟨elem, space, pointer⟩ := leaf.pointer
  rw [HasBits, Setting.width?, pointer]

lemma express_eq (leaf : Leaf s v) (look : ValueId → Analyze Handle) :
    express s look v = build (Formula.const s.layout.pointerBits 0) ∨
      ∃ name, express s look v = build (Formula.var s.layout.pointerBits name) := by
  obtain ⟨name, named⟩ := Option.isSome_iff_exists.1 leaf.named
  have free : free s v = build (Formula.var s.layout.pointerBits name) := by
    unfold Analysis.free Setting.ident
    dsimp only
    rw [leaf.hasBits, named]
    rfl
  obtain ⟨elem, space, pointer⟩ := leaf.pointer
  obtain ⟨d, found, leaf'⟩ := leaf.leaf
  unfold express
  rw [leaf.hasBits, found]
  dsimp only
  split
  · next i _ there =>
    obtain rfl := Option.some.inj there
    cases i with
    | phi | call | other => exact .inr ⟨name, free⟩
    | _ => cases leaf'
  · next t n there =>
    obtain rfl := Option.some.inj there
    have same : s.module.typeOf v = t := by simp [Module.typeOf, found, Module.typeOf.plain]
    rw [← same, pointer]
    exact .inr ⟨name, free⟩
  · exact .inl rfl
  · next there =>
    obtain rfl := Option.some.inj there
    cases leaf'
  · exact .inr ⟨name, free⟩

end Leaf

/-- Refused for the width `w` or for another reason, as it has bits or not. -/
abbrev Weighed (w : Nat) {σ α : Type} (a : σ) (x : ExceptT Fault (StateM σ) α) : Prop :=
  Ends a x (fun _ _ => 0 < w) fun e _ => ZeroWidth e ↔ w = 0

lemma const_weighed (w : Nat) (n : Int) (a : Arena) : Weighed w a (Formula.const w n) := by
  unfold Formula.const Formula.add
  refine need_bind (fun positive => need_bind (fun _ => ?_) fun _ => ?_) fun thin => ?_
  · refine need_bind (fun _ => ?_) fun thin => absurd positive thin
    exact Ends.get_bind (Ends.modify_bind (Ends.pure positive))
  · exact iff_of_false nofun positive.ne'
  · exact iff_of_true .const (Nat.eq_zero_of_not_pos thin)

lemma var_weighed (w : Nat) (name : String) (a : Arena) : Weighed w a (Formula.var w name) := by
  unfold Formula.var Formula.add
  refine need_bind (fun positive => ?_) fun thin => iff_of_true (.var name) (Nat.eq_zero_of_not_pos thin)
  refine Ends.get_bind (need_bind (fun _ => ?_) fun _ => iff_of_false nofun positive.ne')
  refine Ends.modify_bind (need_bind (fun _ => ?_) fun thin => absurd positive thin)
  exact Ends.get_bind (Ends.modify_bind (Ends.pure positive))

lemma Weighed.build {w : Nat} {α : Type} {x : Formula.Build α} (weighed : Weighed w b.arena x) :
    Weighed w b (build x) :=
  (Ends.build weighed).mono (fun _ _ h => h.2) fun _ _ h => h.2

lemma Leaf.value_weighed (leaf : Leaf s v) (unknown : b.formula? v = none) :
    Weighed s.layout.pointerBits b (value s v) := by
  unfold value lookup lookupFrom
  refine .bind (Q := fun _ _ => 0 < s.layout.pointerBits) (Ends.get_bind ?_) fun f c positive => ?_
  · unfold Bench.formula? at unknown
    rw [unknown]
    refine .bind (Q := fun _ _ => 0 < s.layout.pointerBits) ?_ fun f c positive => Ends.get_bind ?_
    · rcases leaf.express_eq (lookupFrom s s.module.defs.size) with same | ⟨name, same⟩
      · rw [same]
        exact (const_weighed _ 0 _).build
      · rw [same]
        exact (var_weighed _ name _).build
    · split
      · exact Ends.modify_bind (Ends.pure positive)
      · exact Ends.throw (iff_of_false nofun positive.ne')
  · refine Weighed.build ?_
    unfold Formula.retain Formula.held
    refine .bind (Q := fun _ _ => True) (Ends.get_bind ?_) fun n a _ => Ends.modify_bind (Ends.pure positive)
    refine need_bind (fun _ => need_bind (fun _ => Ends.pure trivial) fun _ => ?_) fun _ => ?_
    · exact iff_of_false nofun positive.ne'
    · exact iff_of_false nofun positive.ne'

lemma Leaf.refused_iff (leaf : Leaf s v) (unknown : b.formula? v = none) :
    (∃ e c, outcome (value s v) b = (.error e, c) ∧ ZeroWidth e) ↔ s.layout.pointerBits = 0 := by
  obtain ⟨granted, refused⟩ := Ends.iff_forall.1 (leaf.value_weighed unknown)
  constructor
  · rintro ⟨e, c, run, zero⟩
    exact (refused e c run).1 zero
  · intro none
    rcases run : outcome (value s v) b with ⟨e | r, c⟩
    · exact ⟨e, c, rfl, (refused e c run).2 none⟩
    · exact absurd none (granted r c run).ne'

/-! ## Typed values -/

/-- Values that are typed together with all they demand, but for pointers, which may have no bits. -/
structure Shaped (s : Setting) (T : ValueId → Prop) : Prop where
  typed : ∀ {v}, T v → ∃ w d, s.module.get? v = some d ∧ HasBits s v w ∧ w < widthRange ∧ DefTyped s w d
  ints : ∀ {v n}, T v → s.module.resolve (s.module.typeOf v) = .int n → 0 < n
  operands : ∀ {v}, T v → ∀ x ∈ demands s v, T x
  acyclic : ∀ {v}, T v → ¬ Relation.TransGen (fun v x => x ∈ demands s v) v v

lemma Shaped.typing (shaped : Shaped s T) (positive : 0 < s.layout.pointerBits) : Typing s T := by
  refine ⟨fun {v} among => ?_, shaped.operands, shaped.acyclic⟩
  obtain ⟨w, d, found, bits, short, typed⟩ := shaped.typed among
  refine ⟨w, d, found, bits, ?_, short, typed⟩
  unfold HasBits Setting.width? at bits
  split at bits
  · next n type =>
    cases bits
    exact shaped.ints among type
  · cases bits
    exact positive
  · cases bits

lemma Cause.not_zeroWidth {e : Fault} (cause : Cause s v e) : ¬ ZeroWidth e := by
  obtain ⟨x, -, reason⟩ := cause
  intro zero
  cases zero <;> cases reason

/-- **Pointers without bits.** A layout that is read gives every alignment at least one byte, and pointers the bits of
the last specification of them. If these are none, the formula of the null pointer or of a pointer that is known by its
name only is refused for its width; if there are some, it never is, and neither is the formula of any typed value. -/
theorem pointers_refused_iff {text : Text.Bytes} (parsed : Layout.parse text = .ok s.layout) :
    (0 < s.layout.pointerAlign ∧ 0 < s.layout.aggregateAlign ∧ (∀ e ∈ s.layout.intAligns, 0 < e.2) ∧
      ∀ e ∈ s.layout.floatAligns, 0 < e.2) ∧
    s.layout.pointerBits = ((Text.splitBytes Layout.dash text).filterMap pointerSize?).getLast?.getD 64 ∧
    (∀ v b, Leaf s v → b.formula? v = none →
      ((∃ e c, outcome (value s v) b = (.error e, c) ∧ ZeroWidth e) ↔ s.layout.pointerBits = 0)) ∧
    ∀ T v b extra, Shaped s T → T v → Fit s T b extra → 0 < s.layout.pointerBits →
      ∀ e c, outcome (value s v) b = (.error e, c) → ¬ ZeroWidth e := by
  have usable := Layout.usable_of_parse parsed
  refine ⟨⟨usable.pointerAlign.1, usable.aggregateAlign.1, fun e listed => (usable.intAligns e listed).1,
    fun e listed => (usable.floatAligns e listed).1⟩, Layout.pointerBits_of_parse parsed,
    fun v b leaf unknown => leaf.refused_iff unknown, fun T v b extra shaped among fit positive e c run => ?_⟩
  exact (((Ends.iff_forall.1 (value_fit (shaped.typing positive) among fit)).2 e c run).2).not_zeroWidth

def pointing (l : Layout) : Setting where
  module :=
    { defs := #[.const .bool (.int 1), .const .bool (.int 0), .const .token (.other [.text "none"]),
        .param (.named (Text.utf8 "p")) (.pointer (.int 8) 0), .const (.pointer (.int 8) 0) .null] }
  layout := l
  graph := { func := { id := 0, name := [], result := .void, params := [] } }
  cut := {}

lemma pointing_shaped (l : Layout) (short : l.pointerBits < widthRange) : Shaped (pointing l) (· ∈ [3, 4]) := by
  have leaves : ∀ v ∈ [3, 4], demands (pointing l) v = [] := of_decide_eq_true rfl
  refine ⟨fun {v} listed => ?_, fun {v n} listed type => ?_, fun {v} listed x demanded => ?_, fun {v} listed cycle => ?_⟩
  · obtain rfl | rfl : v = 3 ∨ v = 4 := by simpa using listed
    · exact ⟨_, _, rfl, rfl, short, trivial⟩
    · exact ⟨_, _, rfl, rfl, short, rfl⟩
  · obtain rfl | rfl : v = 3 ∨ v = 4 := by simpa using listed
    · cases type
    · cases type
  · rw [leaves v listed] at demanded
    cases demanded
  · obtain ⟨x, demanded, -⟩ := Relation.TransGen.head'_iff.1 cycle
    rw [leaves v listed] at demanded
    cases demanded

lemma pointing_leaf (l : Layout) : Leaf (pointing l) 4 :=
  ⟨⟨_, _, rfl⟩, ⟨_, rfl, rfl⟩, rfl⟩

/-- Pointers of no bits are given first, and pointers of 32 bits after them. -/
theorem pointers_refused_iff_twice : ∃ l, Layout.parse (Text.utf8 "e-p:0:8-i64:64-p:32:32") = .ok l ∧ l.pointerBits = 32 ∧
    (¬ ∃ e c, outcome (value (pointing l) 4) (pointing l).start = (.error e, c) ∧ ZeroWidth e) ∧
    ∀ e c, outcome (value (pointing l) 3) (pointing l).start = (.error e, c) → ¬ ZeroWidth e := by
  have parsed : Layout.parse (Text.utf8 "e-p:0:8-i64:64-p:32:32") =
      .ok { pointerBits := 32, pointerAlign := 4, intAligns := [(1, 1), (8, 1), (16, 2), (32, 4), (64, 8)] } := by
    decide +kernel
  refine ⟨_, parsed, rfl, ?_⟩
  obtain ⟨-, -, leaves, typed⟩ := pointers_refused_iff (s := pointing _) parsed
  refine ⟨fun refused => ?_, typed _ 3 _ 0 (pointing_shaped _ (by decide)) (by simp) (follows_start _ _).1 (by decide)⟩
  exact absurd ((leaves 4 _ (pointing_leaf _) rfl).1 refused) (by decide)

/-- Under this layout the formula of a pointer is refused, and so is that of the null pointer. -/
theorem pointer_without_bits : ∃ l, Layout.parse (Text.utf8 "p:0:8") = .ok l ∧ l.pointerBits = 0 ∧
    (outcome (value (pointing l) 3) (pointing l).start).1 = .error (.zeroWidthVar "%p") ∧
    (outcome (value (pointing l) 4) (pointing l).start).1 = .error .zeroWidthConst := by
  refine ⟨{ pointerBits := 0, pointerAlign := 1 }, ?_, rfl, ?_, ?_⟩
  · decide +kernel
  · decide +kernel
  · rfl

end Faultline.Analysis
