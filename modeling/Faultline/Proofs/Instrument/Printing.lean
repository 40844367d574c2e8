/-
# Proofs.Instrument.Printing — an instrumented module can be written

A module can be written if each of its lines can (`numberedText_writes`). The only
guard that cannot be written is the comparison of a truth value with minus one: an
instrumented module can be written exactly if it divides no truth values with sign
(`text_ofModule`).

Sentinels have names that no function has, and each is called once. A variable can
have the name of a sentinel (`declared_fresh`).
-/
import Faultline.Proofs.Abreast
import Faultline.Proofs.Instrument.Growth
import Faultline.Proofs.Instrument.Written

namespace Faultline.IR

variable {α β : Type} {r : Except Unwritable α} {n : Int} {t : Ty} {d : Def ValueId}

/-! ## Texts -/

def Writes (r : Except Unwritable α) : Prop :=
  ∃ t, r = .ok t

lemma writes_ok (t : α) : Writes (.ok t : Except Unwritable α) :=
  ⟨t, rfl⟩

lemma not_writes_error (e : Unwritable) : ¬ Writes (.error e : Except Unwritable α) := by
  rintro ⟨t, same⟩
  cases same

lemma Still.writes {r' : Except Unwritable α} (still : Still r r') (writes : Writes r) : Writes r' := by
  obtain ⟨t, rfl⟩ := writes
  obtain absent | ⟨n, truth, -⟩ | ⟨t, t', -, rfl⟩ := still
  · cases absent
  · cases truth
  · exact ⟨t', rfl⟩

/-- Whether there is a text does not depend on the text of a part. -/
lemma writes_bind {k : α → Except Unwritable β} {P : Prop} (next : ∀ t, Writes (k t) ↔ P) :
    Writes (r >>= k) ↔ Writes r ∧ P := by
  rcases r with e | t
  · exact ⟨fun writes => absurd writes (not_writes_error e), fun both => absurd both.1 (not_writes_error e)⟩
  · exact (next t).trans ⟨fun holds => ⟨writes_ok t, holds⟩, And.right⟩

lemma writes_map {k : α → β} : Writes (do pure (k (← r))) ↔ Writes r := by
  have part : Writes (do pure (k (← r))) ↔ Writes r ∧ True := writes_bind fun t => iff_of_true ⟨k t, rfl⟩ trivial
  rw [part, and_true]

lemma writes_mapM {f : β → Except Unwritable α} {xs : List β} : Writes (xs.mapM f) ↔ ∀ x ∈ xs, Writes (f x) := by
  induction xs with
  | nil => exact ⟨fun _ x mem => absurd mem List.not_mem_nil, fun _ => ⟨[], rfl⟩⟩
  | cons x xs ih =>
    rw [List.mapM_cons, writes_bind fun t => writes_map, ih, List.forall_mem_cons]

lemma writes_orRemark {lead : String} {r : Except Unwritable String} (writes : Writes r) : Writes (orRemark lead r) := by
  obtain ⟨t, rfl⟩ := writes
  exact ⟨_, rfl⟩

lemma intBits_eq_one (one : intBits t = 1) : t = .int 1 := by
  cases t with
  | int bits => exact congrArg Ty.int one
  | _ => cases one

lemma writes_intText (bits : Nat) (plain : bits = 1 → n = 0 ∨ n = 1) : Writes (intText bits n) := by
  unfold intText
  split
  next one =>
    rcases plain one with rfl | rfl
    · exact ⟨"false", rfl⟩
    · exact ⟨"true", rfl⟩
  next =>
    cases n with
    | ofNat k => exact ⟨_, rfl⟩
    | negSucc k => exact ⟨_, rfl⟩

/-- It is no truth value that cannot be written. -/
def Truthless (r : Except Unwritable α) : Prop :=
  ∀ n, r ≠ .error (.truth n)

lemma truthless_ok (t : α) : Truthless (.ok t : Except Unwritable α) := by
  intro n same
  cases same

lemma Truthless.bind {k : α → Except Unwritable β} (first : Truthless r) (next : ∀ t, Truthless (k t)) :
    Truthless (r >>= k) := by
  rcases r with e | t
  · intro n same
    cases same
    exact first n rfl
  · exact next t

lemma Truthless.map {k : α → β} (first : Truthless r) : Truthless (do pure (k (← r))) :=
  first.bind fun _ => truthless_ok _

lemma Truthless.mapM {f : β → Except Unwritable α} (each : ∀ x, Truthless (f x)) (xs : List β) : Truthless (xs.mapM f) := by
  induction xs with
  | nil => exact truthless_ok _
  | cons x xs ih =>
    rw [List.mapM_cons]
    exact (each x).bind fun _ => ih.map

lemma truthless_orRemark (lead : String) (r : Except Unwritable String) : Truthless (orRemark lead r) := by
  intro n same
  rcases r with (k | _) | t <;> cases same

lemma Truthless.writes {lead : String} {r : Except Unwritable String} (truthless : Truthless r)
    (writes : Writes (orRemark lead r)) : Writes r := by
  rcases r with (k | _) | t
  · exact absurd rfl (truthless k)
  · exact absurd writes (not_writes_error _)
  · exact writes_ok t

lemma renderPieces_truthless {ν : Type} {typed bare : ν → Except Unwritable String} (ofTyped : ∀ v, Truthless (typed v))
    (ofBare : ∀ v, Truthless (bare v)) (ps : List (Piece ν)) : Truthless (renderPieces typed bare ps) := by
  refine (Truthless.mapM (fun p => ?_) ps).map
  cases p with
  | text | type => exact truthless_ok _
  | typed v => exact ofTyped v
  | bare v | label v => exact ofBare v

namespace Module

variable {m c : Module} {f : Func} {b : Block} {v x y : ValueId} {ps : List (Piece ValueId)}

lemma piecesText_nil : Writes (m.piecesText []) :=
  ⟨_, rfl⟩

lemma line_inst {name : Name} {i : Inst ValueId} {trail : List (Piece ValueId)}
    (found : m.get? v = some (.inst name t i trail)) :
    Writes (m.line v) ↔ Writes (m.instText i) ∧ Writes (m.piecesText trail) := by
  unfold line
  rw [found]
  exact writes_bind fun _ => writes_map

lemma blockText_writes : Writes (m.blockText b) ↔ ∀ v ∈ b.insts.toList ++ b.term.toList, Writes (m.line v) := by
  unfold blockText
  refine writes_map.trans (writes_mapM.trans ?_)
  exact forall₂_congr fun v _ => writes_map

lemma funcText_writes : Writes (m.funcText f) ↔ (∀ p ∈ f.params, Writes (m.ident p.id)) ∧ Writes (m.ident f.id) ∧
    Writes (m.piecesText f.trail) ∧ Writes (m.piecesText f.attached) ∧
    (f.blocks.isEmpty = false → (∀ b ∈ f.blocks.toList, Writes (m.blockText b)) ∧ ∀ ps ∈ f.orders, Writes (m.piecesText ps)) := by
  unfold funcText
  refine (writes_bind fun _ => writes_bind fun _ => writes_bind fun _ => writes_bind fun _ => ?_).trans
    (and_congr_left fun _ => writes_mapM.trans (forall₂_congr fun p _ => writes_map))
  split
  next none => exact iff_of_true ⟨_, rfl⟩ fun some => by rw [none] at some; cases some
  next some =>
    have some : f.blocks.isEmpty = false := by simpa using some
    refine (writes_bind fun _ => ?_).trans ((and_congr_left fun _ => writes_mapM).trans ⟨fun holds _ => holds, fun holds => holds some⟩)
    exact writes_map.trans (writes_mapM.trans (forall₂_congr fun ps _ => writes_map))

lemma numberedText_writes : Writes m.numberedText ↔
    (∀ g ∈ m.globals.toList ++ m.aliases.toList ++ m.indirect.toList, Writes (m.globalText g)) ∧
      (∀ f ∈ m.funcs, Writes (m.funcText f)) ∧ ∀ ps ∈ m.metadata ++ m.orders, Writes (m.piecesText ps) := by
  unfold numberedText
  dsimp only
  refine (writes_bind fun _ => writes_bind fun _ => writes_bind fun _ => writes_bind fun _ => writes_bind fun _ => writes_map).trans ?_
  simp only [writes_mapM, List.forall_mem_append, Array.mem_toList_iff]
  tauto

/-! ## Operands -/

lemma get?_of_writes {fuel : Nat} (writes : Writes (m.identFrom fuel v)) : ∃ d, m.get? v = some d := by
  rcases found : m.get? v with _ | d
  · cases fuel with
    | zero => exact absurd writes (not_writes_error _)
    | succ fuel =>
      unfold identFrom at writes
      rw [found] at writes
      exact absurd writes (not_writes_error _)
  · exact ⟨d, rfl⟩

lemma ident_writes_of_name (found : m.get? v = some d) (named : d.name?.isSome) : Writes (m.ident v) := by
  unfold ident identFrom
  rw [found]
  cases d with
  | param | inst | term | block | global | func => exact ⟨_, rfl⟩
  | const | attributed => cases named

lemma identText_of_name (found : m.get? v = some d) (named : d.name?.isSome) : (m.identText v).isSome := by
  obtain ⟨text, written⟩ := ident_writes_of_name found named
  unfold identText
  rw [written]
  rfl

lemma ident_int (found : m.get? v = some (.const t (.int n))) :
    m.ident v = intText (intBits (m.resolve t)) n := by
  unfold ident identFrom
  rw [found]
  rfl

lemma argText_writes (writes : Writes (m.ident v)) : Writes (m.argText v) := by
  unfold argText
  split
  next attrs x found =>
    unfold ident identFrom at writes
    rw [found] at writes
    exact writes_orRemark (((Alike.refl m).identFrom_still (Nat.le_succ _) x).writes writes)
  next => exact writes_orRemark writes

/-- With plain truth values only what is absent cannot be written. -/
lemma identFrom_truthless (plain : m.HasPlainTruths) (fuel : Nat) (v : ValueId) : Truthless (m.identFrom fuel v) := by
  induction fuel generalizing v with
  | zero =>
    intro n same
    cases same
  | succ fuel ih =>
    have typed : ∀ v, Truthless (orRemark (m.typeOf v).text (m.identFrom fuel v)) := fun v => truthless_orRemark _ _
    unfold identFrom
    rcases found : m.get? v with _ | d
    · intro n same
      cases same
    · cases d with
      | param | inst | term | block | global | func => exact truthless_ok _
      | attributed attrs x => exact ih x
      | const t k =>
        dsimp only
        cases k with
        | int n =>
          have small : intBits (m.resolve t) = 1 → n = 0 ∨ n = 1 := fun one => plain v t n found (intBits_eq_one one)
          obtain ⟨text, same⟩ := writes_intText (intBits (m.resolve t)) small
          show Truthless (intText (intBits (m.resolve t)) n)
          rw [same]
          exact truthless_ok _
        | null | undef => exact truthless_ok _
        | gep inbounds elem base indices =>
          exact (Truthless.mapM (fun index => (typed index.2).map) indices).bind fun _ => (typed base).map
        | other pieces => exact renderPieces_truthless typed ih pieces

lemma Alike.ident_writes (alike : m.Alike c) (plain : m.HasPlainTruths) (grown : m.defs.size < c.defs.size)
    (writes : Writes (m.argText v)) : Writes (c.ident v) := by
  unfold argText at writes
  split at writes
  next attrs x found =>
    have there : c.get? v = some (.attributed attrs x) := alike.global found rfl
    unfold ident identFrom
    rw [there]
    exact (alike.identFrom_still grown x).writes ((identFrom_truthless plain _ x).writes writes)
  next => exact (alike.ident_still v).writes ((identFrom_truthless plain _ v).writes writes)

end Module

end Faultline.IR

namespace Faultline.Instrument

open IR (Module ValueId Func Block Def Inst Ty Name Writes trueId falseId)
open Faultline.Flow (Graph)
open List Array IR Text

variable {m c : Module} {g : Graph} {f f' : Func} {v : ValueId} {h : Hazard} {group : List ValueId} {stem : String}
  {x y : ValueId} {t : Ty} {i : Inst ValueId}

/-! ## Guards -/

/-- No global has the name of a sentinel. -/
def HasNoSentinels (m : Module) : Prop :=
  ∀ v d n, m.get? v = some d → d.global? = some n → Sentinel.kindOf? n.plain = none

lemma hasNoSentinels_of_only (name : Name) (other : Sentinel.kindOf? name.plain = none)
    (only : ∀ d ∈ m.defs.toList, ∀ n, d.global? = some n → n = name) : HasNoSentinels m := by
  intro v d n found named
  rw [only d (mem_toList_iff.2 (mem_of_getElem? found)) n named]
  exact other

def Hazard.operands : Hazard → List ValueId
  | .overflow _ _ _ x y | .signedDivision _ _ x y => [x, y]
  | .shift _ _ y | .zeroDivisor _ y => [y]

lemma IsInst.line_writes (isInst : IsInst c v t i) : Writes (c.line v) ↔ Writes (c.instText i) := by
  obtain ⟨name, found⟩ := isInst
  exact (Module.line_inst found).trans (and_iff_left Module.piecesText_nil)

lemma IsInst.ident_writes (isInst : IsInst c v t i) : Writes (c.ident v) := by
  obtain ⟨name, found⟩ := isInst
  exact Module.ident_writes_of_name found rfl

lemma IsInt.ident_writes {n : Int} (isInt : IsInt c v t n) (plain : c.resolve t = .int 1 → n = 0 ∨ n = 1) :
    Writes (c.ident v) := by
  rw [Module.ident_int isInt]
  exact writes_intText _ fun one => plain (intBits_eq_one one)

lemma compare_writes {op : Formula.Compare} {k : ValueId} (isInst : IsInst c v .bool (.icmp (.known op) x k))
    (first : Writes (c.ident x)) (second : Writes (c.ident k)) : Writes (c.line v) := by
  rw [isInst.line_writes]
  exact (writes_bind fun _ => writes_map).2 ⟨Module.argText_writes first, second⟩

lemma arith_writes {op : Formula.Arith} (isInst : IsInst c v .bool (.arith op [] x y))
    (first : Writes (c.ident x)) (second : Writes (c.ident y)) : Writes (c.line v) := by
  rw [isInst.line_writes]
  exact (writes_bind fun _ => writes_map).2 ⟨Module.argText_writes first, second⟩

lemma IsSentinel.declared (none : HasNoSentinels m) (alike : m.Alike c) (grown : Grown m c) (sentinel : IsSentinel c stem v)
    (known : stem ∈ [Sentinel.overflowStem, Sentinel.faultStem]) :
    ∃ name params, c.get? v = some (.func (.named name) (.pointer (.func .void params false) 0)) := by
  have begins := sentinel.calleeName known
  obtain ⟨name, type, found, -⟩ := sentinel
  by_cases old : v < m.defs.size
  · obtain ⟨d, n, here, there⟩ := alike.renamed old
    have isFunc : d.setName n = .func (.named name) type := Option.some.inj (there.symm.trans found)
    cases d with
    | func n' t =>
      have same : c.get? v = some (.func n' t) := alike.global here rfl
      cases found.symm.trans same
      have free := none v _ _ here rfl
      have some := kindOf?_isSome known begins
      rw [Sentinel.calleeName, found] at some
      rw [free] at some
      cases some
    | param | inst | term | block | const | global | attributed => cases isFunc
  · have added := grown.values v _ (Nat.le_of_not_lt old) found
    cases added with
    | func name params => exact ⟨name, params, found⟩

lemma call_writes {callee : ValueId} {args : List ValueId} {name : Bytes} {params : List Ty}
    (found : c.get? callee = some (.func (.named name) (.pointer (.func .void params false) 0)))
    (each : ∀ x ∈ args, Writes (c.ident x)) (isInst : IsInst c v .void (.call ⟨"call", .void, callee, args, []⟩)) :
    Writes (c.line v) := by
  have type : c.typeOf callee = .pointer (.func .void params false) 0 := by
    unfold Module.typeOf
    rw [found]
    rfl
  have typed : Writes (c.callType ⟨"call", .void, callee, args, []⟩) := by
    unfold Module.callType
    dsimp only
    rw [type]
    exact ⟨_, rfl⟩
  have passed : Writes (c.callArgsText args) := by
    unfold Module.callArgsText
    refine writes_map.2 (writes_mapM.2 fun x mem => ?_)
    exact (writes_bind fun _ => Iff.rfl).2 ⟨each x mem, Module.argText_writes (each x mem)⟩
  rw [isInst.line_writes]
  show Writes (c.callText _)
  unfold Module.callText
  refine (writes_bind fun _ => writes_bind fun _ => writes_bind fun _ => writes_map).2 ?_
  exact ⟨typed, Module.ident_writes_of_name found rfl, passed, Module.piecesText_nil⟩

/-- Guards can be written unless they guard a division of truth values. -/
lemma Guards.line_writes (guards : Guards c h group) (none : HasNoSentinels m) (alike : m.Alike c) (grown : Grown m c)
    (occurs : h.Occurs m) (without : ¬ DividesTruths m) (operands : ∀ x ∈ h.operands, Writes (c.ident x))
    (truths : Writes (c.ident trueId) ∧ Writes (c.ident falseId)) : ∀ u ∈ group, Writes (c.line u) := by
  have zero : ∀ t : Ty, c.resolve t = .int 1 → (0 : Int) = 0 ∨ (0 : Int) = 1 := fun _ _ => .inl rfl
  intro u mem
  cases guards with
  | @overflow op withSign t x y callee code call sentinel number last =>
    obtain ⟨name, params, found⟩ := sentinel.declared none alike grown (by simp)
    cases List.mem_singleton.1 mem
    refine call_writes found (fun z mem => ?_) last
    have first : Writes (c.ident x) := operands x (by simp [Hazard.operands])
    have second : Writes (c.ident y) := operands y (by simp [Hazard.operands])
    have third := number.ident_writes fun one => by cases one
    simp only [mem_cons, not_mem_nil, or_false] at mem
    rcases mem with rfl | rfl | rfl | rfl
    · exact third
    · exact first
    · exact second
    · cases withSign
      · exact truths.2
      · exact truths.1
  | @shift t bits y n cond callee call number compare sentinel last =>
    obtain ⟨name, params, found⟩ := sentinel.declared none alike grown (by simp)
    have plain : c.resolve t = .int 1 → (bits : Int) = 0 ∨ (bits : Int) = 1 := by
      intro one
      rw [alike.resolve] at one
      cases (occurs : m.resolve t = .int bits).symm.trans one
      exact .inr rfl
    rcases mem_pair.1 mem with rfl | rfl
    · exact compare_writes compare (operands y (by simp [Hazard.operands])) (number.ident_writes plain)
    · exact call_writes found (by simpa using compare.ident_writes) last
  | @zeroDivisor t y n isZero callee call number compare sentinel last =>
    obtain ⟨name, params, found⟩ := sentinel.declared none alike grown (by simp)
    rcases mem_pair.1 mem with rfl | rfl
    · exact compare_writes compare (operands y (by simp [Hazard.operands])) (number.ident_writes (zero t))
    · exact call_writes found (by simpa using compare.ident_writes) last
  | @signedDivision t bits x y n isZero k minusOne l least both either callee call zeroInt compareZero one compareOne lowest
      compareLeast conjunction disjunction sentinel last =>
      obtain ⟨name, params, found⟩ := sentinel.declared none alike grown (by simp)
      have wide : ∀ z : Int, c.resolve t = .int 1 → z = 0 ∨ z = 1 := by
        intro z single
        rw [alike.resolve] at single
        cases occurs.1.symm.trans single
        exact absurd (occurs.2 rfl) without
      have first : Writes (c.ident x) := operands x (by simp [Hazard.operands])
      have second : Writes (c.ident y) := operands y (by simp [Hazard.operands])
      simp only [mem_cons, not_mem_nil, or_false] at mem
      rcases mem with rfl | rfl | rfl | rfl | rfl | rfl
      · exact compare_writes compareZero second (zeroInt.ident_writes (zero t))
      · exact compare_writes compareOne second (one.ident_writes (wide _))
      · exact compare_writes compareLeast first (lowest.ident_writes (wide _))
      · exact arith_writes conjunction compareOne.ident_writes compareLeast.ident_writes
      · exact arith_writes disjunction compareZero.ident_writes conjunction.ident_writes
      · exact call_writes found (by simpa using disjunction.ident_writes) last

/-- The comparison of a truth value with minus one cannot be written. -/
lemma Guards.not_line_writes (guards : Guards c (.signedDivision t 1 x y) group)
    (truth : c.resolve t = .int 1) : ∃ u ∈ group, ¬ Writes (c.line u) := by
  cases guards with
  | @signedDivision _ _ _ _ n isZero k minusOne l least both either callee call zero compareZero one compareOne lowest
      compareLeast conjunction disjunction sentinel last =>
      refine ⟨minusOne, by simp, fun writes => ?_⟩
      rw [compareOne.line_writes] at writes
      have written := ((writes_bind fun _ => writes_map).1 writes).2
      rw [Module.ident_int one, truth] at written
      exact not_writes_error _ written

/-! ## Modules -/

/-- What is read off a text: nothing is missing, no value is a local twice, and the truth values have their places. -/
structure Complete (m : Module) : Prop where
  closed : m.Closed
  distinct : (m.funcs.toList.flatMap Func.locals).Nodup
  onTrue : m.get? trueId = some (.const .bool (.int 1))
  onFalse : m.get? falseId = some (.const .bool (.int 0))

lemma Complete.truths (complete : Complete m) (alike : m.Alike c) :
    Writes (c.ident trueId) ∧ Writes (c.ident falseId) := by
  have yes : IsInt c trueId .bool 1 := alike.global complete.onTrue rfl
  have no : IsInt c falseId .bool 0 := alike.global complete.onFalse rfl
  exact ⟨yes.ident_writes fun _ => .inr rfl, no.ident_writes fun _ => .inl rfl⟩

lemma lt_size_of_isCall (isCall : Sentinel.isCall c v = true) : v < c.defs.size := by
  unfold Sentinel.isCall at isCall
  split at isCall
  next found => exact IR.Module.lt_size_of_get? found
  next => cases isCall

lemma operands_write (alike : m.Alike c) (plain : m.HasPlainTruths) (grown : m.defs.size < c.defs.size)
    (hazard : hazardOf m v = some h) (written : Writes (m.line v)) : ∀ x ∈ h.operands, Writes (c.ident x) := by
  obtain ⟨name, type, op, flags, x, y, trail, bits, found, int, kinds⟩ := hazardOf_cases hazard
  obtain ⟨first, second⟩ := (writes_bind fun _ => writes_map).1 ((Module.line_inst found).1 written).1
  have first : Writes (c.ident x) := alike.ident_writes plain grown first
  have second : Writes (c.ident y) := (alike.ident_still y).writes second
  intro z mem
  have either : z = x ∨ z = y := by
    rcases kinds with ⟨_, rfl⟩ | rfl | rfl | ⟨-, rfl⟩ <;> simp [Hazard.operands] at mem <;> tauto
  rcases either with rfl | rfl
  · exact first
  · exact second

section Module

variable (complete : Complete m) (plain : m.HasPlainTruths) (none : HasNoSentinels m)
  (layout : Layout m c fun _ f f' => Finished m c f f') (grown : Grown m c)

include complete plain none layout grown in
lemma blockText_of_weaves {b b' : Block} (listed : f ∈ m.funcs) (there : b ∈ f.blocks) (weaves : Weaves m c g b b')
    (without : ¬ DividesTruths m) (written : Writes (m.blockText b)) : Writes (c.blockText b') := by
  have alike := layout.alike
  rw [Module.blockText_writes] at written ⊢
  intro u mem
  rcases List.mem_append.1 mem with inst | term
  · rcases weaves.woven.mem_cases inst with old | ⟨v, old, group, before, new⟩
    · exact (alike.line_still complete.closed u).writes (written u (List.mem_append_left _ old))
    · have line := written v (List.mem_append_left _ old)
      cases before with
      | none free => cases new
      | @guards h front call due hazard guards last others fresh =>
        have more : m.defs.size < c.defs.size :=
          (fresh call (List.mem_append_right _ mem_cons_self)).trans_lt (lt_size_of_isCall last)
        have occurs := occurs_of_hazardOf listed there (mem_toList_iff.1 old) hazard
        exact guards.line_writes none alike grown occurs without (operands_write alike plain more hazard line)
          (complete.truths alike) u new
  · rw [weaves.same] at term
    exact (alike.line_still complete.closed u).writes (written u (List.mem_append_right _ term))

include complete plain none layout grown in
lemma funcText_of_finished (listed : f ∈ m.funcs) (finished : Finished m c f f') (without : ¬ DividesTruths m)
    (written : Writes (m.funcText f)) : Writes (c.funcText f') := by
  have alike := layout.alike
  obtain ⟨same, g, -, weaves⟩ := finished
  obtain ⟨params, name, trail, attached, body⟩ := Module.funcText_writes.1 written
  rw [Module.funcText_writes]
  rw [same]
  refine ⟨fun p mem => (alike.ident_still _).writes (params p mem), (alike.ident_still _).writes name,
    (alike.piecesText_still _).writes trail, (alike.piecesText_still _).writes attached, fun nonempty => ?_⟩
  have nonempty' : f.blocks.isEmpty = false := by
    have length := weaves.length_eq
    rw [length_toList, length_toList] at length
    rw [Array.isEmpty, length]
    exact nonempty
  obtain ⟨blocks, orders⟩ := body nonempty'
  refine ⟨fun b' mem => ?_, fun ps mem => (alike.piecesText_still ps).writes (orders ps mem)⟩
  obtain ⟨b, there, weaves⟩ := exists_of_forall₂ weaves.flip mem
  exact blockText_of_weaves complete plain none layout grown listed (mem_toList_iff.1 there) weaves without
    (blocks b there)

lemma Declared.funcText (declared : Declared c f) : Writes (c.funcText f) := by
  obtain ⟨params, same, ⟨t, found⟩, each⟩ := declared
  rw [Module.funcText_writes]
  rw [same]
  refine ⟨fun p mem => ?_, Module.ident_writes_of_name found rfl, Module.piecesText_nil, Module.piecesText_nil, fun none => ?_⟩
  · obtain ⟨v, member, rfl⟩ := List.mem_map.1 mem
    obtain ⟨name, t, there⟩ := each v member
    exact Module.ident_writes_of_name there rfl
  · cases none

include layout in
lemma not_numberedText (divides : DividesTruths m) : ¬ Writes c.numberedText := by
  obtain ⟨f, listed, b, there, v, mem, name, type, flags, x, y, trail, found, int⟩ := divides
  have hazard : hazardOf m v = some (.signedDivision (m.typeOf x) 1 x y) := by
    unfold hazardOf hazard?
    rw [found]
    dsimp only
    rw [int]
  obtain ⟨i, position⟩ := Array.getElem?_of_mem listed
  obtain ⟨f', there', same, g, -, weaves⟩ := layout.funcs i f position
  obtain ⟨b', mem', weaves⟩ := exists_of_forall₂ weaves (mem_toList_iff.2 there)
  obtain ⟨group, before, part⟩ := weaves.woven.group_of_mem (mem_toList_iff.2 mem)
  intro writes
  have lines : ∀ u ∈ group, Writes (c.line u) := by
    intro u member
    have body := (Module.funcText_writes.1 ((Module.numberedText_writes.1 writes).2.1 f' (Array.mem_of_getElem? there'))).2.2.2.2
    have nonempty : f'.blocks.isEmpty = false := by
      rcases empty : f'.blocks.isEmpty with _ | _
      · rfl
      · rw [Array.isEmpty_iff.1 empty] at mem'
        cases mem'
    exact Module.blockText_writes.1 ((body nonempty).1 b' mem') u (List.mem_append_left _ (part u member))
  cases before with
  | none free => exact free (guarded_of_hazard hazard fun overflow => by cases overflow)
  | @guards h front call due hazard' guards last others fresh =>
    cases hazard.symm.trans hazard'
    obtain ⟨u, member, fails⟩ := guards.not_line_writes (by rw [layout.alike.resolve, int])
    exact fails (lines u member)

include complete plain none layout grown in
/-- The lines of an instrumented module can be written unless it divides truth values with sign. -/
lemma numberedText_iff (written : Writes m.numberedText) : Writes c.numberedText ↔ ¬ DividesTruths m := by
  refine ⟨fun writes divides => not_numberedText layout divides writes, fun without => ?_⟩
  have alike := layout.alike
  obtain ⟨globals, funcs, rest⟩ := Module.numberedText_writes.1 written
  have others : c.globals = m.globals ∧ c.aliases = m.aliases ∧ c.indirect = m.indirect ∧ c.metadata = m.metadata ∧
      c.orders = m.orders := by
    rw [alike.rest]
    exact ⟨rfl, rfl, rfl, rfl, rfl⟩
  obtain ⟨sameGlobals, sameAliases, sameIndirect, sameMetadata, sameOrders⟩ := others
  rw [Module.numberedText_writes, sameGlobals, sameAliases, sameIndirect, sameMetadata, sameOrders]
  refine ⟨fun g mem => ?_, fun f' mem => ?_, fun ps mem => (alike.piecesText_still ps).writes (rest ps mem)⟩
  · exact ((alike.ident_still g.id).bind fun _ _ => (alike.piecesText_still g.pieces).map).writes (globals g mem)
  · obtain ⟨i, position⟩ := Array.getElem?_of_mem mem
    by_cases old : i < m.funcs.size
    · obtain ⟨f, found⟩ : ∃ f, m.funcs[i]? = some f := ⟨_, Array.getElem?_eq_getElem old⟩
      obtain ⟨f₁, there, finished⟩ := layout.funcs i f found
      cases position.symm.trans there
      have listed : f ∈ m.funcs := Array.mem_of_getElem? found
      exact funcText_of_finished complete plain none layout grown listed finished without (funcs f listed)
    · exact (grown.funcs i f' (Nat.le_of_not_lt old) position).funcText

/-! ## Numbers -/

lemma Alike.global?_eq (alike : m.Alike c) (inside : v < m.defs.size) :
    (c.get? v).bind Def.global? = (m.get? v).bind Def.global? := by
  obtain ⟨d, n, here, there⟩ := alike.renamed inside
  cases d with
  | global n' t | func n' t => rw [alike.global here rfl, here]
  | param | inst | term | block | const | attributed => rw [there, here]; rfl

include layout in
lemma funcIds_eq : funcIds c = funcIds m ++ (declared m c).map Func.id := by
  have first : (c.funcs.toList.take m.funcs.size).map Func.id = m.funcs.toList.map Func.id := by
    refine List.ext_getElem? fun i => ?_
    rw [List.getElem?_map, List.getElem?_map, getElem?_take, getElem?_toList, getElem?_toList]
    rcases found : m.funcs[i]? with _ | f
    · rw [if_neg (Nat.not_lt.2 (Array.getElem?_eq_none_iff.1 found))]
    · obtain ⟨f', there, finished⟩ := layout.funcs i f found
      rw [if_pos (Array.getElem?_eq_some_iff.1 found).1, there, Option.map_some, Option.map_some, finished.1]
  rw [funcIds, funcIds, ← first, ← List.map_append, declared, take_append_drop]

include layout in
lemma globalIds_eq : c.globalIds = m.globalIds ++ (declared m c).map Func.id := by
  have ids := funcIds_eq layout
  unfold funcIds at ids
  unfold Module.globalIds
  rw [ids, ← List.append_assoc, layout.alike.rest]

include grown in
lemma Grown.of_drop (mem : f ∈ declared m c) : ∃ t, c.get? f.id = some (.func (.named f.name) t) := by
  obtain ⟨i, there⟩ := List.getElem?_of_mem mem
  rw [declared, getElem?_drop, getElem?_toList] at there
  obtain ⟨params, -, found, -⟩ := grown.funcs _ f (Nat.le_add_right _ _) there
  exact found

include grown in
lemma name_of_declared (mem : f ∈ declared m c) :
    (c.get? f.id).bind Def.global? = some (.named f.name) := by
  obtain ⟨t, found⟩ := grown.of_drop mem
  rw [found]
  rfl

lemma globalIds_lt (written : Writes m.numberedText) : ∀ v ∈ m.globalIds, v < m.defs.size := by
  obtain ⟨globals, funcs, -⟩ := Module.numberedText_writes.1 written
  intro v mem
  have writes : Writes (m.ident v) := by
    rcases List.mem_append.1 mem with mem | mem
    · obtain ⟨g, listed, rfl⟩ := List.mem_map.1 mem
      have listed : g ∈ m.globals.toList ++ m.aliases.toList ++ m.indirect.toList := by simpa using listed
      exact ((writes_bind fun _ => writes_map).1 (globals g listed)).1
    · obtain ⟨f, listed, rfl⟩ := List.mem_map.1 mem
      exact (Module.funcText_writes.1 (funcs f (mem_toList_iff.1 listed))).2.1
  obtain ⟨d, found⟩ := Module.get?_of_writes writes
  exact IR.Module.lt_size_of_get? found

include layout grown in
lemma globals_inOrder (inside : ∀ v ∈ m.globalIds, v < m.defs.size)
    (inOrder : InOrder Def.global? m.defs m.globalIds 0) : InOrder Def.global? c.defs c.globalIds 0 := by
  rw [globalIds_eq layout]
  refine (inOrder.congr fun v mem => Alike.global?_eq layout.alike (inside v mem)).append fun v mem k number => ?_
  obtain ⟨f, added, rfl⟩ := List.mem_map.1 mem
  cases (name_of_declared grown added).symm.trans number

include layout grown in
/-- The names of globals stay different if those of sentinels are none of theirs. -/
lemma distinctNames_iff (inside : ∀ v ∈ m.globalIds, v < m.defs.size)
    (names : ((declared m c).map Func.name).Nodup) : c.HasDistinctNames ↔
      m.HasDistinctNames ∧ ∀ f ∈ declared m c, ∀ v ∈ m.globalIds,
        (m.get? v).bind Def.global? ≠ some (.named f.name) := by
  have old : m.globalIds.filterMap (fun v => (c.get? v).bind Def.global?) =
      m.globalIds.filterMap fun v => (m.get? v).bind Def.global? :=
    List.filterMap_congr fun v mem => Alike.global?_eq layout.alike (inside v mem)
  have new : ((declared m c).map Func.id).filterMap (fun v => (c.get? v).bind Def.global?) =
      ((declared m c).map Func.name).map .named := by
    rw [List.filterMap_map, List.map_map, filterMap_eq_map_iff_forall_eq_some]
    exact fun f mem => name_of_declared grown mem
  unfold Module.HasDistinctNames
  rw [globalIds_eq layout, List.filterMap_append, old, new, nodup_append]
  refine and_congr_right fun _ => ⟨fun apart f added v mem same => ?_, fun apart => ⟨?_, fun n mem n' mem' same => ?_⟩⟩
  · exact apart.2 _ (List.mem_filterMap.2 ⟨v, mem, same⟩) _ (List.mem_map_of_mem (List.mem_map_of_mem added)) rfl
  · exact names.map fun _ _ => Name.named.inj
  · obtain ⟨v, listed, named⟩ := List.mem_filterMap.1 mem
    obtain ⟨name, among, rfl⟩ := List.mem_map.1 mem'
    obtain ⟨f, added, rfl⟩ := List.mem_map.1 among
    exact apart f added v listed (same ▸ named)

include layout grown in
lemma distinctNames (none : HasNoSentinels m) (inside : ∀ v ∈ m.globalIds, v < m.defs.size) {s : Draft}
    (labels : Labelled m s) (here : s.module = c) (distinct : m.HasDistinctNames) : c.HasDistinctNames := by
  subst here
  obtain ⟨names, each⟩ := labels.names
  refine (distinctNames_iff layout grown inside names).2 ⟨distinct, fun f added v _ named => ?_⟩
  obtain ⟨d, found, named⟩ := Option.bind_eq_some_iff.1 named
  obtain ⟨t, declared⟩ := grown.of_drop added
  obtain ⟨-, stem, known, begins⟩ := each f added
  have sentinel : IsSentinel s.module stem f.id := ⟨f.name, t, declared, begins⟩
  have some := kindOf?_isSome known (sentinel.calleeName known)
  rw [Sentinel.calleeName, declared] at some
  rw [none v d _ found named] at some
  cases some

include grown in
lemma locals_inOrder (tidy : Tidy m m.funcs.size c) : ∀ f ∈ c.funcs, InOrder Def.local? c.defs f.locals 0 := by
  intro f' mem
  obtain ⟨i, there⟩ := Array.getElem?_of_mem mem
  by_cases old : i < m.funcs.size
  · exact tidy.order i _ f' (Array.getElem?_eq_getElem old) there (.inl old)
  · obtain ⟨params, same, -, each⟩ := grown.funcs i f' (Nat.le_of_not_lt old) there
    refine inOrder_of_named fun v mem k number => ?_
    have mem : v ∈ params := by
      rw [same] at mem
      simpa [Func.locals] using mem
    obtain ⟨name, t, found⟩ := each v mem
    rw [show c.defs[v]? = _ from found] at number
    cases number

include layout grown in
lemma plainTruths_of_grown (plain : m.HasPlainTruths) (without : ¬ DividesTruths m) : c.HasPlainTruths := by
  have alike := layout.alike
  intro v t n found truth
  rw [alike.resolve] at truth
  by_cases old : v < m.defs.size
  · obtain ⟨d, n', here, there⟩ := alike.renamed old
    have isInt : d.setName n' = .const t (.int n) := Option.some.inj (there.symm.trans found)
    cases d with
    | const t' k =>
      cases isInt
      exact plain v t n here truth
    | param | inst | term | block | global | func | attributed => cases isInt
  · have added := grown.values v _ (Nat.le_of_not_lt old) found
    cases added with
    | int plain => exact plain without truth

end Module

/-- **An instrumented module can be written** as it is, with the numbers it has, exactly if no truth values are divided
with sign. Its truth values are then zero and one, and its globals have different names. -/
theorem text_ofModule {src : String} {tally : InsertTally} (complete : Complete m) (plain : m.HasPlainTruths)
    (none : HasNoSentinels m) (distinct : m.HasDistinctNames) (written : m.text = some (src, m))
    (done : (ofModule m).result = .ok tally) : ((ofModule m).module.text.isSome ↔ ¬ DividesTruths m) ∧
      (¬ DividesTruths m → (ofModule m).module.HasPlainTruths ∧ (ofModule m).module.HasDistinctNames ∧
        ∃ t, (ofModule m).module.text = some (t, (ofModule m).module)) := by
  obtain ⟨globals, locals, told⟩ := Module.inOrder_of_text written
  have start : Tidy m 0 m := by
    refine ⟨fun i f _ there => complete.closed.locals f (Array.mem_of_getElem? there), fun i f f' _ there _ => ?_⟩
    exact locals f' (Array.mem_of_getElem? there)
  have kept : Kept m fun i p => Tidy m i p.draft.module ∧ Spread m p.draft := by
    refine ⟨⟨start, spread_start m⟩, fun _ holds found empty => ⟨holds.1.skip found empty, holds.2⟩, ?_⟩
    exact fun reached holds found run => ⟨holds.1.step complete.closed complete.distinct reached found run,
      holds.2.step complete.closed reached found run⟩
  obtain ⟨p, same, reached, tidy, spread⟩ := ofModule_invariant complete.closed kept done
  have layout := reached.finished
  have grown := spread.grown
  have writes : Writes m.numberedText := ⟨src, told⟩
  have inside := globalIds_lt writes
  have text := Module.text_of_inOrder (globals_inOrder layout grown inside globals) (locals_inOrder grown tidy)
  have iff := numberedText_iff complete plain none layout grown writes
  rw [same, text]
  refine ⟨?_, fun without => ⟨plainTruths_of_grown layout grown plain without,
    distinctNames layout grown none inside spread.labels rfl distinct, ?_⟩⟩
  · rw [← iff]
    rcases p.draft.module.numberedText with e | t
    · exact iff_of_false (by simp [Except.toOption]) (not_writes_error e)
    · exact iff_of_true rfl (writes_ok t)
  · obtain ⟨t, told⟩ := iff.2 without
    exact ⟨t, by rw [told]; rfl⟩

/-! ## Sentinels -/

def selfDividing : Func where
  id := 3
  name := utf8 "f"
  result := .int 32
  params := [⟨4, ""⟩]
  blocks := #[⟨5, #[6], some 7⟩]

def clashing : Module where
  defs := shared ++ #[.func (.named (utf8 "f")) .void, .param (.named (utf8 "x")) (.int 32), .block (.number 0),
    .inst (.number 0) (.int 32) (.arith .udiv [] 4 4) [], .term (.number 0) .void (.ret (some 6)) [],
    .global (.named (utf8 "__kint_shift_div.f.0")) (.pointer (.int 32) 0)]
  globals := #[⟨8, []⟩]
  funcs := #[selfDividing]

lemma clashing_closed : clashing.Closed := by
  have reads : ∀ d ∈ clashing.defs.toList, ∀ x ∈ d.operands, x < clashing.defs.size := by decide
  refine ⟨fun v d found => reads d (mem_toList_iff.2 (Array.mem_of_getElem? found)), fun f mem => ?_⟩
  cases List.mem_singleton.1 (mem_toList_iff.2 mem)
  decide

lemma clashing_done : ∃ tally, (ofModule clashing).result = .ok tally := by
  refine ofModule_granted clashing_closed fun f mem _ => ?_
  cases List.mem_singleton.1 (mem_toList_iff.2 mem)
  refine ⟨by decide, _, rfl, fun b mem v listed unfit => ?_⟩
  cases List.mem_singleton.1 mem
  cases List.mem_singleton.1 listed
  obtain ⟨h, hazard, ⟨t, x, y, rfl⟩ | ⟨overflow, -⟩⟩ := unfit <;> cases hazard
  cases overflow

lemma insts_clashing (g : Flow.Graph) (s : Draft) : ∃ r d f, insts clashing g [6] s = (.ok r, d) ∧
    d.module.funcs = s.module.funcs.push f ∧ f.name = freshName s (utf8 "__kint_shift_div." ++ g.func.name) :=
  ⟨_, _, _, rfl, rfl, rfl⟩

lemma freshName_clashing : freshName (.ofModule clashing) (utf8 "__kint_shift_div." ++ selfDividing.name) =
    utf8 "__kint_shift_div.f.0" := by
  have base : utf8 "__kint_shift_div." ++ selfDividing.name = utf8 "__kint_shift_div.f" := by decide +kernel
  have first : numbered (utf8 "__kint_shift_div.f") 0 = utf8 "__kint_shift_div.f.0" := by decide +kernel
  have other : (utf8 "f" == utf8 "__kint_shift_div.f.0") = false := by decide +kernel
  have free : (Draft.ofModule clashing).taken.contains (utf8 "__kint_shift_div.f.0") = false := by
    show ((∅ : Std.HashSet Bytes).insert (utf8 "f")).contains _ = false
    rw [Std.HashSet.contains_insert, other, Std.HashSet.contains_empty, Bool.or_self]
  have untried : (Draft.ofModule clashing).tried.getD (utf8 "__kint_shift_div.f") 0 = 0 := Std.HashMap.getD_empty
  rw [base, freshName, untried, freeFrom, first, free]
  exact first

end Faultline.Instrument
