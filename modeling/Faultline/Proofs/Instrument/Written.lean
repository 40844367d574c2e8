/-
# Proofs.Instrument.Written — what can be written stays so

Instrumentation may change the numbers in a text, but not whether there is a text:
`Still r r'` says that `r'` is a text if `r` is one, and fails like `r` where an
operand can be replaced by a remark. Only a value that is absent may turn up.
-/
import Faultline.Proofs.Instrument.Alike

namespace Faultline.IR

variable {α β : Type} {r r' : Except Unwritable α}

/-- Both are written, both fail in the same truth value, or the first one fails for something absent. -/
def Still (r r' : Except Unwritable α) : Prop :=
  r = .error .absent ∨ (∃ n, r = .error (.truth n) ∧ r' = .error (.truth n)) ∨ ∃ t t', r = .ok t ∧ r' = .ok t'

namespace Still

lemma refl (r : Except Unwritable α) : Still r r := by
  rcases r with (n | _) | t
  · exact .inr (.inl ⟨n, rfl, rfl⟩)
  · exact .inl rfl
  · exact .inr (.inr ⟨t, t, rfl, rfl⟩)

lemma ok (t t' : α) : Still (.ok t : Except Unwritable α) (.ok t') :=
  .inr (.inr ⟨t, t', rfl, rfl⟩)

lemma bind {k k' : α → Except Unwritable β} (first : Still r r') (next : ∀ t t', Still (k t) (k' t')) :
    Still (r >>= k) (r' >>= k') := by
  obtain rfl | ⟨n, rfl, rfl⟩ | ⟨t, t', rfl, rfl⟩ := first
  · exact .inl rfl
  · exact .inr (.inl ⟨n, rfl, rfl⟩)
  · exact next t t'

lemma map {k k' : α → β} (first : Still r r') : Still (do pure (k (← r))) (do pure (k' (← r'))) :=
  first.bind fun _ _ => ok _ _

lemma isOk (still : Still r r') (written : r.toOption.isSome) : r'.toOption.isSome := by
  obtain rfl | ⟨n, rfl, rfl⟩ | ⟨t, t', rfl, rfl⟩ := still
  · cases written
  · cases written
  · rfl

lemma mapM {f f' : β → Except Unwritable α} (each : ∀ x, Still (f x) (f' x)) (xs : List β) :
    Still (xs.mapM f) (xs.mapM f') := by
  induction xs with
  | nil => exact refl _
  | cons x xs ih =>
    rw [List.mapM_cons, List.mapM_cons]
    exact (each x).bind fun _ _ => ih.bind fun _ _ => ok _ _

/-- A remark takes the place of what cannot be written. -/
lemma orRemark {r r' : Except Unwritable String} (still : Still r r') (lead lead' : String) :
    Still (orRemark lead r) (orRemark lead' r') := by
  obtain rfl | ⟨n, rfl, rfl⟩ | ⟨t, t', rfl, rfl⟩ := still
  · exact .inl rfl
  · exact ok _ _
  · exact ok _ _

end Still

section Render

variable {ν : Type} {typed typed' bare bare' : ν → Except Unwritable String}

lemma renderPieces_still (ofTyped : ∀ v, Still (typed v) (typed' v)) (ofBare : ∀ v, Still (bare v) (bare' v))
    (ps : List (Piece ν)) : Still (renderPieces typed bare ps) (renderPieces typed' bare' ps) := by
  refine (Still.mapM (fun p => ?_) ps).map
  cases p with
  | text | type => exact .ok _ _
  | typed v => exact ofTyped v
  | bare v | label v => exact ofBare v

lemma render_still (ofTyped : ∀ v, Still (typed v) (typed' v)) (ofBare : ∀ v, Still (bare v) (bare' v)) (bits : Nat)
    (k : Const ν) : Still (k.render typed bare bits) (k.render typed' bare' bits) := by
  cases k with
  | int | null | undef => exact .refl _
  | gep inbounds elem base indices =>
    refine (Still.mapM (fun index => (ofTyped index.2).map) indices).bind fun _ _ => ?_
    exact (ofTyped base).map
  | other pieces => exact renderPieces_still ofTyped ofBare pieces

end Render

namespace Module

variable {m c : Module} {v : ValueId}

lemma Alike.identFrom_still (alike : m.Alike c) {fuel fuel' : Nat} (more : fuel ≤ fuel') (v : ValueId) :
    Still (m.identFrom fuel v) (c.identFrom fuel' v) := by
  induction fuel generalizing fuel' v with
  | zero => exact .inl rfl
  | succ fuel ih =>
    obtain ⟨fuel', rfl⟩ : ∃ k, fuel' = k + 1 := ⟨fuel' - 1, by omega⟩
    have later := fun v => ih (Nat.le_of_succ_le_succ more) v
    unfold identFrom
    rcases found : m.get? v with _ | d
    · exact .inl rfl
    · obtain ⟨d', n, here, there⟩ := alike.renamed (lt_size_of_get? found)
      cases found.symm.trans here
      rw [there]
      cases d with
      | param | inst | term | block | global | func => exact .ok _ _
      | attributed attrs x => exact later x
      | const t k =>
        dsimp only [Def.setName]
        rw [alike.resolve]
        exact render_still (fun v => (later v).orRemark _ _) later _ k

lemma Alike.ident_still (alike : m.Alike c) (v : ValueId) : Still (m.ident v) (c.ident v) :=
  alike.identFrom_still (Nat.succ_le_succ alike.size) v

lemma Alike.argText_still (alike : m.Alike c) (v : ValueId) : Still (m.argText v) (c.argText v) := by
  unfold argText
  rcases found : m.get? v with _ | d
  · refine .inl ?_
    show IR.orRemark _ (m.identFrom _ v) = _
    unfold identFrom
    rw [found]
    rfl
  · obtain ⟨d', n, here, there⟩ := alike.renamed (lt_size_of_get? found)
    cases found.symm.trans here
    rw [there]
    cases d with
    | attributed attrs x => exact (alike.ident_still x).orRemark _ _
    | param | inst | term | block | global | func | const => exact (alike.ident_still v).orRemark _ _

lemma Alike.argsText_still (alike : m.Alike c) (vs : List ValueId) : Still (m.argsText vs) (c.argsText vs) :=
  (Still.mapM alike.argText_still vs).map

lemma Alike.identText (alike : m.Alike c) (written : (m.identText v).isSome) : (c.identText v).isSome :=
  (alike.ident_still v).isOk written

lemma Alike.callText_still (alike : m.Alike c) (closed : m.Closed) {call : Call ValueId}
    (inside : call.callee < m.defs.size) : Still (m.callText call) (c.callText call) := by
  unfold callText
  have type : Still (m.callType call) (c.callType call) := by
    unfold callType
    rw [alike.typeOf_eq closed inside, alike.resolve]
    split
    · rw [alike.resolve]
      exact .refl _
    · exact .refl _
  refine type.bind fun _ _ => (alike.ident_still _).bind fun _ _ => Still.bind ?_ fun _ _ => ?_
  · exact (Still.mapM (fun v => (alike.ident_still v).bind fun _ _ => alike.argText_still v) _).map
  · exact (renderPieces_still alike.argText_still alike.ident_still _).map

lemma Alike.instText_still (alike : m.Alike c) (closed : m.Closed) {i : Inst ValueId}
    (inside : ∀ x ∈ i.operands, x < m.defs.size) : Still (m.instText i) (c.instText i) := by
  cases i with
  | arith op flags x y => exact (alike.argText_still x).bind fun _ _ => (alike.ident_still y).map
  | icmp pred x y => exact (alike.argText_still x).bind fun _ _ => (alike.ident_still y).map
  | gep inbounds elem base indices => exact (alike.argsText_still _).map
  | cast op x target => exact (alike.argText_still x).map
  | select flags cond x y => exact (alike.argsText_still _).map
  | phi flags type incoming =>
    exact (Still.mapM (fun pair => (alike.ident_still pair.1).bind fun _ _ => (alike.ident_still pair.2).map) incoming).map
  | call call => exact alike.callText_still closed (inside _ List.mem_cons_self)
  | extractValue x path => exact (alike.argText_still x).map
  | other isPure pieces => exact renderPieces_still alike.argText_still alike.ident_still pieces

lemma Alike.termText_still (alike : m.Alike c) (closed : m.Closed) {t : Term ValueId}
    (inside : ∀ x ∈ t.operands, x < m.defs.size) : Still (m.termText t) (c.termText t) := by
  cases t with
  | ret x =>
    cases x with
    | none => exact .ok _ _
    | some x => exact (alike.argText_still x).map
  | br b => exact (alike.argText_still b).map
  | condBr cond x y => exact (alike.argsText_still _).map
  | switch x d cases =>
    unfold termText
    refine (Still.mapM (fun pair => ?_) cases).bind fun _ _ => (alike.argsText_still [x, d]).map
    obtain ⟨k, b⟩ := pair
    exact (alike.argsText_still [k, b]).map
  | invoke call normal unwind =>
    refine (alike.callText_still closed (inside _ List.mem_cons_self)).bind fun _ _ => ?_
    exact (alike.argText_still normal).bind fun _ _ => (alike.argText_still unwind).map
  | callbr call normal others =>
    refine (alike.callText_still closed (inside _ List.mem_cons_self)).bind fun _ _ => ?_
    exact (alike.argText_still normal).bind fun _ _ => (alike.argsText_still others).map
  | other pieces => exact renderPieces_still alike.argText_still alike.ident_still pieces

lemma Alike.piecesText_still (alike : m.Alike c) (ps : List (Piece ValueId)) : Still (m.piecesText ps) (c.piecesText ps) :=
  renderPieces_still alike.argText_still alike.ident_still ps

lemma Alike.line_still (alike : m.Alike c) (closed : m.Closed) (v : ValueId) : Still (m.line v) (c.line v) := by
  unfold line
  rcases found : m.get? v with _ | d
  · exact .inl rfl
  · obtain ⟨d', n, here, there⟩ := alike.renamed (lt_size_of_get? found)
    cases found.symm.trans here
    rw [there]
    cases d with
    | inst name t i trail =>
      exact (alike.instText_still closed (closed.reads v _ found)).bind fun _ _ => (alike.piecesText_still trail).map
    | term name t i trail =>
      exact (alike.termText_still closed (closed.reads v _ found)).bind fun _ _ => (alike.piecesText_still trail).map
    | param | block | const | global | func | attributed => exact .inl rfl

lemma Alike.lineText (alike : m.Alike c) (closed : m.Closed) (written : (m.lineText v).isSome) : (c.lineText v).isSome :=
  (alike.line_still closed v).isOk written

end Module

end Faultline.IR
