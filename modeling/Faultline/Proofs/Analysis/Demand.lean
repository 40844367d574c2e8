/-
# Proofs.Analysis.Demand — each value is expressed once

`demands s v` are the values whose formulas the engine looks up while it expresses
`v`. A value that demands itself, through however many others, is refused: what the
engine knows a formula of is grounded (`Sound.grounded`). So a value is still
unknown when the formula made of its operands is entered, and no formula the bench
knows is ever replaced (`lookupFrom_does`).

The engine is followed once (`express_follows`), with any `Books` kept on the way.
-/
import Faultline.Analysis.Condition
import Faultline.Proofs.Analysis.Bench

namespace Faultline.Analysis

open IR (Module ValueId Ty Inst)
open Formula (Arena Build Handle Orderly)
open List Multiset Formula

variable {s : Setting} {b c : Bench} {v x y : ValueId} {xs : List ValueId} {f : Handle} {t : Ty} {e : Fault}

/-! ## Demands -/

def isComputed (m : Module) (v : ValueId) : Bool :=
  match constIndex m v with
  | .ok none => true
  | _ => false

def instDemands (s : Setting) : Inst ValueId → List ValueId
  | .arith _ _ x y | .icmp (.known _) x y => [x, y]
  | .gep _ _ base indices => base :: indices.filter (isComputed s.module)
  | .cast .bitcast x _ => if (s.width? (s.module.typeOf x)).isSome then [x] else []
  | .cast .trunc x _ | .cast .zext x _ | .cast .sext x _ => [x]
  | .cast .ptrtoint x _ | .cast .inttoptr x _ => [x]
  | .select _ c x y => [c, x, y]
  | _ => []

/-- The values that are looked up to express `v`. -/
def demands (s : Setting) (v : ValueId) : List ValueId :=
  if (s.width? (s.module.typeOf v)).isSome then
    match s.module.get? v with
    | some (.inst _ _ i _) => instDemands s i
    | some (.const _ (.gep _ _ base indices)) =>
      base :: (indices.map Prod.snd).filter (isComputed s.module)
    | _ => []
  else []

/-- `x` is expressed in the course of expressing `v`, or is `v`. -/
def Needs (s : Setting) : ValueId → ValueId → Prop :=
  Relation.ReflTransGen fun v x => x ∈ demands s v

/-- No value is demanded without end. -/
def Grounded (s : Setting) (v : ValueId) : Prop :=
  Acc (fun x v => x ∈ demands s v) v

lemma Grounded.not_needs (grounded : Grounded s v) : ∀ x ∈ demands s v, ¬ Needs s x v := by
  induction grounded with
  | intro v _ ih =>
    intro x demanded needs
    -- the way back to `v` goes on to `x`, so `x` is needed by what it demands itself
    rcases needs.cases_head with rfl | ⟨y, next, rest⟩
    · exact ih x demanded x demanded .refl
    · exact ih x demanded y next (rest.tail demanded)

lemma lt_size_of_demands (demanded : x ∈ demands s v) : v < s.module.defs.size := by
  by_contra beyond
  have absent : s.module.get? v = none := Array.getElem?_eq_none (Nat.le_of_not_lt beyond)
  unfold demands at demanded
  rw [absent] at demanded
  simp at demanded

/-- The depth is enough for `v`, with all the values that wait for it: they are different, and there are only so
many values. -/
def Deep (s : Setting) (depth : Nat) (v : ValueId) : Prop :=
  ∃ waiting : List ValueId, waiting.Nodup ∧ (∀ u ∈ waiting, u < s.module.defs.size) ∧
    (∀ u ∈ waiting, ∃ x ∈ demands s u, Needs s x v) ∧ s.module.defs.size < depth + waiting.length

namespace Deep

variable {depth : Nat}

lemma start (enough : s.module.defs.size < depth) : Deep s depth v :=
  ⟨[], .nil, by simp, by simp, enough⟩

lemma pos (deep : Deep s depth v) : 0 < depth := by
  obtain ⟨waiting, different, inside, -, enough⟩ := deep
  have few := (different.subperm fun i listed => List.mem_range.2 (inside i listed)).length_le
  rw [length_range] at few
  omega

lemma next (deep : Deep s (depth + 1) v) (once : ∀ y ∈ demands s v, ¬ Needs s y v) (demanded : x ∈ demands s v) :
    Deep s depth x := by
  obtain ⟨waiting, different, inside, asked, enough⟩ := deep
  refine ⟨v :: waiting, List.nodup_cons.2 ⟨fun listed => ?_, different⟩, ?_, ?_, by rw [length_cons]; omega⟩
  · obtain ⟨y, asks, needs⟩ := asked v listed
    exact once y asks needs
  · exact List.forall_mem_cons.2 ⟨lt_size_of_demands demanded, inside⟩
  · refine List.forall_mem_cons.2 ⟨⟨x, demanded, .refl⟩, fun u listed => ?_⟩
    obtain ⟨y, asks, needs⟩ := asked u listed
    exact ⟨y, asks, needs.tail demanded⟩

end Deep

/-- A value is grounded unless one that it needs is needed by what it demands itself. -/
lemma grounded_iff : Grounded s v ↔ ∀ x, Needs s v x → ∀ y ∈ demands s x, ¬ Needs s y x := by
  constructor
  · intro grounded x needs
    refine Grounded.not_needs ?_
    induction needs with
    | refl => exact grounded
    | tail _ demanded ih => exact ih.inv demanded
  · intro once
    have all : ∀ depth x, Needs s v x → Deep s depth x → Grounded s x := by
      intro depth
      induction depth with
      | zero => exact fun x _ deep => absurd deep.pos (lt_irrefl 0)
      | succ depth ih =>
        intro x needs deep
        exact .intro x fun y demanded => ih y (needs.tail demanded) (deep.next (once x needs) demanded)
    exact all _ v .refl (.start (Nat.lt_succ_self _))

/-! ## Benches in good order -/

/-- What the value engine keeps true. -/
structure Sound (s : Setting) (b : Bench) : Prop extends b.Kept where
  open_ : ∃ known, b.values = some known
  grounded : ∀ {v h}, b.formula? v = some h → Grounded s v

/-- From `b` to `c` the value engine worked in good order, and got to know only values in `S`. -/
structure Step (s : Setting) (S : ValueId → Prop) (b c : Bench) : Prop where
  sound : Sound s c
  grows : b.Grows c
  paths : b.paths = c.paths
  fresh : ∀ {v h}, c.formula? v = some h → (∃ h, b.formula? v = some h) ∨ S v

variable {S T : ValueId → Prop} {α : Type}

lemma Step.refl (sound : Sound s b) : Step s S b b :=
  ⟨sound, Bench.Grows.refl b, rfl, fun known => .inl ⟨_, known⟩⟩

lemma step_discipline : Discipline (Step s S) where
  again := fun step => Step.refl step.sound
  trans := fun first second =>
    ⟨second.sound, first.grows.trans second.grows, first.paths.trans second.paths, fun known => by
      rcases second.fresh known with ⟨h, before⟩ | new
      · exact first.fresh before
      · exact .inr new⟩

lemma Step.mono (step : Step s S b c) (weaker : ∀ v, S v → T v) : Step s T b c :=
  ⟨step.sound, step.grows, step.paths, fun known => (step.fresh known).imp id (weaker _)⟩

lemma Step.of_keeps (sound : Sound s b) (same : c = { b with arena := c.arena })
    (keeps : b.arena.Keeps c.arena) : Step s S b c := by
  have formula (v : ValueId) : c.formula? v = b.formula? v := by rw [same]; rfl
  refine ⟨⟨⟨keeps.wellFormed, fun {v h} known => ?_⟩, ?_, fun {v h} known => ?_⟩, ⟨keeps.grows, ?_⟩,
    by rw [same], fun {v h} known => ?_⟩
  · obtain ⟨n, found⟩ := sound.node (formula v ▸ known)
    exact ⟨n, keeps.grows.node found⟩
  · rw [same]
    exact sound.open_
  · exact sound.grounded (formula v ▸ known)
  · exact fun {v h} known => (formula v).trans known
  · exact .inl ⟨h, formula v ▸ known⟩

lemma overflow_orderly (op : Sentinel.Guarded) (withSign : Bool) (f g : Handle) :
    Orderly (overflow op withSign f g) := by
  apply Formula.Quietly.orderly
  cases op <;> cases withSign
  · exact .uaddOverflow f g
  · exact .saddOverflow f g
  · exact .usubOverflow f g
  · exact .ssubOverflow f g
  · exact .umulOverflow f g
  · exact .smulOverflow f g

lemma build_does {x : Build α} (orderly : Orderly x) (sound : Sound s b) :
    Does (Step s S) b (build x) (fun _ _ => True) :=
  (Ends.build (orderly b.arena sound.wellFormed)).mono
    (fun _ _ h => ⟨.of_keeps sound h.1 h.2, trivial⟩) fun _ _ h => .of_keeps sound h.1 h.2

def Made (f : Handle) (b : Bench) : Prop :=
  ∃ n, b.arena.node? f = some n

lemma Made.of_grows (made : Made f b) (grows : b.Grows c) : Made f c :=
  made.imp fun _ => grows.arena.node

lemma call_does (call : Builder) (sound : Sound s b) : Does (Step s S) b (build call.run) Made := by
  refine (Ends.build (Builder.run_ends sound.wellFormed call)).mono (fun f c h => ?_) fun _ c h => ?_
  · exact ⟨.of_keeps sound h.1 h.2.1.1, Arena.exists_node_of_realized h.2.1.1.wellFormed.isOpen h.2.1.2⟩
  · exact .of_keeps sound h.1 (h.2 ▸ Arena.Keeps.refl sound.wellFormed)

lemma retain_does (f : Handle) (sound : Sound s b) : Does (Step s S) b (build (retain f)) Made := by
  refine (Ends.build (retain_ends sound.wellFormed f)).mono (fun f c h => ?_) fun _ c h => ?_
  · obtain ⟨same, -, -, -, built⟩ := h
    exact ⟨.of_keeps sound same ⟨built.grows, built.wellFormed⟩,
      Arena.exists_node_of_realized built.wellFormed.isOpen built.realized⟩
  · exact .of_keeps sound h.1 (h.2.1 ▸ Arena.Keeps.refl sound.wellFormed)

lemma log_does (fields : LogFields) (message : String) (sound : Sound s b) :
    Does (Step s S) b (s.logEntry fields message) (fun _ _ => True) :=
  ⟨⟨⟨⟨sound.wellFormed, sound.node⟩, sound.open_, sound.grounded⟩, ⟨.refl _, id⟩, rfl,
    fun known => .inl ⟨_, known⟩⟩, trivial⟩

lemma lift_does {D : Bench → Bench → Prop} {e : Except Fault α} (refl : D b b) :
    Does D b (liftM e : Analyze α) (fun r c => e = .ok r ∧ b = c) := by
  rcases e with fault | r
  · exact Does.throw refl
  · exact Does.pure refl ⟨rfl, rfl⟩

lemma Sound.enter (sound : Sound s b) (made : Made f b) (grounded : Grounded s v) : Sound s (b.enter v f) := by
  obtain ⟨known, known_eq⟩ := sound.open_
  refine ⟨⟨sound.wellFormed, fun {x h} found => ?_⟩, ⟨_, by rw [Bench.enter, known_eq]; rfl⟩,
    fun {x h} found => ?_⟩
  all_goals
    rw [Bench.formula?_enter known_eq] at found
    split at found
  · cases found
    exact made
  · exact sound.node found
  · exact ‹x = v› ▸ grounded
  · exact sound.grounded found

/-! ## Books -/

/-- What every step of the value engine keeps true of a bench, while the references `extra` are the caller's. -/
structure Books (s : Setting) where
  keeps : Bench → Multiset Handle → Prop
  sound : ∀ {b extra}, keeps b extra → Sound s b
  /-- A builder that negates nothing hands its result over. -/
  call : ∀ {b extra} (call : Builder), call.Positive → keeps b extra →
    Ends b (build call.run) (fun r c => keeps c (r ::ₘ extra)) (fun _ c => ∃ left, keeps c left)
  retain : ∀ {b extra} (f : Handle), keeps b extra →
    Ends b (build (retain f)) (fun r c => keeps c (r ::ₘ extra)) (fun _ c => ∃ left, keeps c left)
  release : ∀ {b rest} (fs : List Handle), keeps b (↑fs + rest) →
    Ends b (build (release fs)) (fun _ c => keeps c rest) (fun _ c => ∃ left, keeps c left)
  log : ∀ {b extra} (fields : LogFields) (message : String), keeps b extra →
    keeps { b with log := b.log.push ⟨.debug, message, fields⟩ } extra
  /-- The reference to the formula of an unknown value passes to the engine. -/
  enter : ∀ {b extra v f}, keeps b (f ::ₘ extra) → Made f b → Grounded s v → b.formula? v = none →
    keeps (b.enter v f) extra

def soundBooks (s : Setting) : Books s where
  keeps := fun b _ => Sound s b
  sound := id
  call := fun call _ sound => Ends.mono (call_does (S := fun _ => False) call sound) (fun _ _ h => h.1.sound)
    fun _ _ h => ⟨0, h.sound⟩
  retain := fun f sound => Ends.mono (retain_does (S := fun _ => False) f sound) (fun _ _ h => h.1.sound)
    fun _ _ h => ⟨0, h.sound⟩
  release := fun fs sound => Ends.mono (build_does (S := fun _ => False) (.release fs) sound) (fun _ _ h => h.1.sound)
    fun _ _ h => ⟨0, h.sound⟩
  log := fun fields message sound => (log_does (S := fun _ => False) fields message sound).1.sound
  enter := fun sound made grounded _ => sound.enter made grounded

/-- `x` works in good order while the books are kept; if it returns, the references `after` its result are the
caller's. It refuses no cycle. -/
def Books.Follows (B : Books s) (S : ValueId → Prop) (b : Bench) (x : Analyze α) (after : α → Multiset Handle)
    (Q : α → Bench → Prop) : Prop :=
  Ends b x (fun r c => (Step s S b c ∧ B.keeps c (after r)) ∧ Q r c)
    (fun e c => Step s S b c ∧ (∃ left, B.keeps c left) ∧ e.Other)

variable {B : Books s} {extra : Multiset Handle}

namespace Books.Follows

variable {β : Type} {m : Analyze α} {next : α → Analyze β} {before after : α → Multiset Handle}
  {last : β → Multiset Handle} {Q Q' : α → Bench → Prop} {R : β → Bench → Prop}

lemma bind (first : B.Follows S b m before Q)
    (then_ : ∀ r c, Step s S b c → B.keeps c (before r) → Q r c → B.Follows S c (next r) last R) :
    B.Follows S b (m >>= next) last R := by
  refine Ends.bind first fun r c ⟨⟨step, keeps⟩, holds⟩ => ?_
  exact (then_ r c step keeps holds).mono (fun _ _ h => ⟨⟨step_discipline.trans step h.1.1, h.1.2⟩, h.2⟩)
    fun _ _ h => ⟨step_discipline.trans step h.1, h.2⟩

lemma imp (follows : B.Follows S b m after Q) (weaker : ∀ r c, Step s S b c → Q r c → Q' r c) :
    B.Follows S b m after Q' :=
  Ends.imp follows fun r c h => ⟨h.1, weaker r c h.1.1 h.2⟩

lemma mono (follows : B.Follows S b m after Q) (weaker : ∀ v, S v → T v) : B.Follows T b m after Q :=
  Ends.mono follows (fun _ _ h => ⟨⟨h.1.1.mono weaker, h.1.2⟩, h.2⟩) fun _ _ h => ⟨h.1.mono weaker, h.2⟩

lemma pure {r : α} (keeps : B.keeps b (after r)) (holds : Q r b) : B.Follows S b (Pure.pure r) after Q :=
  Ends.pure ⟨⟨.refl (B.sound keeps), keeps⟩, holds⟩

lemma throw (keeps : B.keeps b extra) (other : e.Other) :
    B.Follows S b (MonadExcept.throw e : Analyze α) after Q :=
  Ends.throw ⟨.refl (B.sound keeps), ⟨extra, keeps⟩, other⟩

lemma idle {P : α → Prop} (keeps : B.keeps b extra)
    (ends : Ends b m (fun r c => b = c ∧ P r) (fun e c => b = c ∧ e.Other)) :
    B.Follows S b m (fun _ => extra) (fun r _ => P r) := by
  refine ends.mono (fun r c h => ?_) fun e c h => ?_
  · obtain ⟨rfl, holds⟩ := h
    exact ⟨⟨.refl (B.sound keeps), keeps⟩, holds⟩
  · obtain ⟨rfl, other⟩ := h
    exact ⟨.refl (B.sound keeps), ⟨extra, keeps⟩, other⟩

end Books.Follows

section Parts

variable (keeps : B.keeps b extra)

include keeps

lemma call_follows (call : Builder) (positive : call.Positive) :
    B.Follows S b (build call.run) (· ::ₘ extra) Made :=
  (((call_does call (B.sound keeps)).and (B.call call positive keeps)).and
    (Ends.build (call.runs (B.sound keeps).wellFormed))).mono (fun _ _ h => ⟨⟨h.1.1.1, h.1.2⟩, h.1.1.2⟩)
    fun _ _ h => ⟨h.1.1, h.1.2, h.2.2.2.1⟩

lemma retain_follows (f : Handle) : B.Follows S b (build (retain f)) (· ::ₘ extra) Made :=
  (((retain_does f (B.sound keeps)).and (B.retain f keeps)).and
    (Ends.build (retain_ends (B.sound keeps).wellFormed f))).mono (fun _ _ h => ⟨⟨h.1.1.1, h.1.2⟩, h.1.1.2⟩)
    fun _ _ h => ⟨h.1.1, h.1.2, h.2.2.2.1⟩

lemma log_follows (fields : LogFields) (message : String) :
    B.Follows S b (s.logEntry fields message) (fun _ => extra) fun _ _ => True :=
  ⟨⟨(log_does fields message (B.sound keeps)).1, B.log fields message keeps⟩, trivial⟩

lemma width_follows (f : Handle) : B.Follows S b (build (width f)) (fun _ => extra) fun _ _ => True := by
  refine .idle keeps ((Ends.build (width_ends (B.sound keeps).wellFormed f)).mono (fun w c h => ?_) fun _ c h => ?_)
  · exact ⟨by rw [h.1, ← h.2.1], trivial⟩
  · exact ⟨by rw [h.1, ← h.2.1], h.2.2.1⟩

lemma ident_follows (v : ValueId) : B.Follows S b (s.ident v) (fun _ => extra) fun _ _ => True := by
  unfold Setting.ident
  split
  · exact .pure keeps trivial
  · exact .throw keeps nofun

lemma widthOrFault_follows (t : Ty) : B.Follows S b (widthOrFault s t) (fun _ => extra) fun _ _ => True := by
  unfold widthOrFault
  split
  · exact .pure keeps trivial
  · exact .throw keeps (by simp [Fault.Other])

omit keeps in
lemma release_follows {fs : List Handle} {held : Multiset Handle} (keeps : B.keeps b held) (rest : Multiset Handle)
    (split : held = ↑fs + rest) : B.Follows S b (build (release fs)) (fun _ => rest) fun _ _ => True := by
  subst split
  refine (((build_does (.release fs) (B.sound keeps)).and (B.release fs keeps)).and
    (Ends.build (release_other fs b.arena))).mono (fun _ _ h => ⟨⟨h.1.1.1, h.1.2⟩, trivial⟩) fun _ _ h => ?_
  exact ⟨h.1.1, h.1.2, h.2.2⟩

end Parts

/-! ## Expressing a value -/

def Known (x : ValueId) (b : Bench) : Prop :=
  ∃ h, b.formula? x = some h

lemma Known.of_grows (known : Known x b) (grows : b.Grows c) : Known x c :=
  known.imp fun _ => grows.formula

lemma isComputed_eq (m : Module) {v : ValueId} {i : Option Int} (read : constIndex m v = .ok i) :
    isComputed m v = i.isNone := by
  unfold isComputed
  rw [read]
  cases i <;> rfl

lemma constIndex_other (m : Module) (v : ValueId) (e : Fault) (out : constIndex m v = .error e) : e.Other := by
  unfold constIndex at out
  split at out
  · split at out
    · cases out
      exact nofun
    · cases out
    · cases out
  · cases out

lemma fieldOffset_other {l : Layout} {i : Int} (out : l.fieldOffset t i = .error e) : e.Other := by
  unfold Layout.fieldOffset at out
  dsimp only at out
  split at out
  · split at out
    · cases out
    · cases out
      simp [Fault.Other]
  · cases out
    simp [Fault.Other]

def stepInto (s : Setting) (t : Ty) (isFirst : Bool) (v : ValueId) : Option Stride :=
  if isFirst then some (.elements t)
  else match s.module.resolve t with
    | .struct packed fields =>
      match constIndex s.module v with
      | .ok (some i) =>
        match s.layout.fieldOffset ((Ty.struct packed fields).closed s.module.types) (word i) with
        | .ok offset => some (.field offset (fields.getD (word i).toNat .void))
        | .error _ => none
      | _ => none
    | .array _ e => some (.elements e)
    | .vector _ _ e => some (.elements e)
    | _ => none

lemma constIndex_of_field {t' : Ty} {isFirst : Bool} {o : Nat}
    (into : stepInto s t isFirst v = some (.field o t')) : ∃ i, constIndex s.module v = .ok (some i) := by
  unfold stepInto at into
  split at into
  · cases into
  · split at into
    · split at into
      · exact ⟨_, ‹_›⟩
      · cases into
    all_goals cases into

lemma stride_ends (owner : ValueId) (t : Ty) (isFirst : Bool) (v : ValueId) :
    Ends b (stride s owner t isFirst v) (fun r c => b = c ∧ stepInto s t isFirst v = some r)
      (fun e c => b = c ∧ e.Other ∧ stepInto s t isFirst v = none) := by
  have unnumbered : Ends b (do throw (.structIndex (← s.ident owner)) : Analyze Stride) (fun _ _ => False)
      (fun e c => b = c ∧ e.Other) := by
    unfold Setting.ident
    split
    · exact ⟨rfl, nofun⟩
    · exact ⟨rfl, nofun⟩
  unfold stride stepInto
  split
  · exact Ends.pure ⟨rfl, rfl⟩
  · generalize s.module.resolve t = t'
    cases t' with
    | struct packed fields =>
      rcases read : constIndex s.module v with e | _ | i
      · exact ⟨rfl, constIndex_other _ v e read, rfl⟩
      · exact Ends.mono unnumbered (fun _ _ h => h.elim) fun _ _ h => ⟨h.1, h.2, rfl⟩
      · refine Ends.bind (Ends.pure (Q := fun r c => b = c ∧ some i = r) ⟨rfl, rfl⟩) ?_
        rintro _ _ ⟨rfl, rfl⟩
        dsimp only
        rcases out : s.layout.fieldOffset ((Ty.struct packed fields).closed s.module.types) (word i) with e | offset
        · exact ⟨rfl, fieldOffset_other out, rfl⟩
        · exact ⟨rfl, rfl⟩
    | bodiless =>
      rcases read : constIndex s.module v with e | _ | i
      · exact ⟨rfl, constIndex_other _ v e read, rfl⟩
      · exact Ends.mono unnumbered (fun _ _ h => h.elim) fun _ _ h => ⟨h.1, h.2, rfl⟩
      · exact ⟨rfl, nofun, rfl⟩
    | array | vector => exact ⟨rfl, rfl⟩
    | _ => exact ⟨rfl, nofun, rfl⟩

/-- A look-up of `x` that leaves `x` known, and borrows from the engine. -/
def Looks (B : Books s) (S : ValueId → Prop) (look : ValueId → Analyze Handle) (x : ValueId) : Prop :=
  ∀ b extra, B.keeps b extra → B.Follows S b (look x) (fun _ => extra) fun h c => c.formula? x = some h

/-- The result is in the arena, and all the listed values are known. -/
def Expressed (xs : List ValueId) (f : Handle) (b : Bench) : Prop :=
  Made f b ∧ ∀ x ∈ xs, Known x b

lemma Expressed.cons (known : Known x b) (expressed : Expressed xs f b) : Expressed (x :: xs) f b :=
  ⟨expressed.1, List.forall_mem_cons.2 ⟨known, expressed.2⟩⟩

lemma Books.Follows.none {m : Analyze Handle} {after : Handle → Multiset Handle} (follows : B.Follows S b m after Made) :
    B.Follows S b m after (Expressed []) :=
  follows.imp fun _ _ _ made => ⟨made, nofun⟩

section Express

variable {look : ValueId → Analyze Handle}

lemma Looks.bind {k : Handle → Analyze Handle} (looks : Looks B S look x) (keeps : B.keeps b extra)
    (next : ∀ f c, B.keeps c extra → B.Follows S c (k f) (· ::ₘ extra) (Expressed xs)) :
    B.Follows S b (look x >>= k) (· ::ₘ extra) (Expressed (x :: xs)) := by
  refine (looks b extra keeps).bind fun f c _ keeps known => ?_
  exact (next f c keeps).imp fun g d step h => h.cons (Known.of_grows ⟨f, known⟩ step.grows)

variable (keeps : B.keeps b extra)

include keeps

lemma free_follows (v : ValueId) : B.Follows S b (free s v) (· ::ₘ extra) (Expressed []) := by
  unfold free
  exact (ident_follows keeps v).bind fun name c _ keeps _ => (call_follows keeps (.var _ name) trivial).none

lemma extend_follows (looks : Looks B S look x) (target : Ty) (withSign : Bool) :
    B.Follows S b (extend s look x target withSign) (· ::ₘ extra) (Expressed [x]) := by
  unfold extend
  refine looks.bind keeps fun f c keeps => ?_
  refine (widthOrFault_follows keeps target).bind fun dw c _ keeps _ => ?_
  refine (width_follows keeps f).bind fun w c _ keeps _ => ?_
  cases withSign
  · exact (call_follows keeps (.zext f _) trivial).none
  · exact (call_follows keeps (.sext f _) trivial).none

lemma reinterpret_follows (looks : Looks B S look x) (target : Ty) :
    B.Follows S b (reinterpret s look x target) (· ::ₘ extra) (Expressed [x]) := by
  unfold reinterpret
  refine looks.bind keeps fun f c keeps => ?_
  refine (width_follows keeps f).bind fun w c _ keeps _ => ?_
  refine (widthOrFault_follows keeps target).bind fun dw c _ keeps _ => ?_
  dsimp only
  split
  · exact (retain_follows keeps f).none
  · split
    · exact (call_follows keeps (.extract f _ 0) trivial).none
    · exact (call_follows keeps (.zext f _) trivial).none

lemma pointerIndex_follows (looks : Looks B S look x) (fields : LogFields) :
    B.Follows S b (pointerIndex s look fields x) (· ::ₘ extra) (Expressed [x]) := by
  unfold pointerIndex
  refine looks.bind keeps fun f c keeps => ?_
  refine (width_follows keeps f).bind fun w c _ keeps _ => ?_
  dsimp only
  split
  · exact (log_follows keeps _ _).bind fun _ c _ keeps _ => (call_follows keeps (.sext f _) trivial).none
  · split
    · exact (log_follows keeps _ _).bind fun _ c _ keeps _ => (call_follows keeps (.extract f _ 0) trivial).none
    · exact (retain_follows keeps f).none

omit keeps in
lemma steps_follows (owner : ValueId) (fields : LogFields) (indices : List ValueId)
    (looks : ∀ x ∈ indices.filter (isComputed s.module), Looks B S look x) (isFirst : Bool) (t : Ty)
    (addr : Handle) (offset : Int) (keeps : B.keeps b (addr ::ₘ extra)) (made : Made addr b) :
    B.Follows S b (steps s look owner fields indices isFirst t addr offset) (fun r => r.1 ::ₘ extra)
      fun r c => Expressed (indices.filter (isComputed s.module)) r.1 c := by
  induction indices generalizing b isFirst t addr offset with
  | nil => exact .pure keeps ⟨made, nofun⟩
  | cons v vs ih =>
    unfold steps
    refine (Books.Follows.idle keeps ((stride_ends owner t isFirst v).blame fun _ _ h =>
      ⟨h.1, h.2.1⟩)).bind fun stride c step keeps into => ?_
    have made := made.of_grows step.grows
    cases stride with
    | field o t =>
      obtain ⟨i, read⟩ := constIndex_of_field into
      rw [List.filter_cons_of_neg (by simp [isComputed_eq s.module read])] at looks ⊢
      exact ih looks false t addr _ keeps made
    | elements e =>
      have reads : Ends c (liftM (constIndex s.module v) : Analyze (Option Int))
          (fun i d => c = d ∧ constIndex s.module v = .ok i) (fun e d => c = d ∧ e.Other) := by
        rcases read : constIndex s.module v with e | i
        · exact Ends.throw ⟨rfl, constIndex_other _ v e read⟩
        · exact Ends.pure ⟨rfl, rfl⟩
      refine (Books.Follows.idle keeps reads).bind fun index c step keeps read => ?_
      have made := made.of_grows step.grows
      rcases index with _ | i
      · rw [List.filter_cons_of_pos (by simp [isComputed_eq s.module read])] at looks ⊢
        refine (pointerIndex_follows keeps (looks v (List.mem_cons_self ..)) fields).bind
          fun index c _ keeps expressed => ?_
        refine Books.Follows.imp (Q := fun r d => Expressed (vs.filter (isComputed s.module)) r.1 d) ?_
          fun r d step h => h.cons ((expressed.2 v (List.mem_singleton_self v)).of_grows step.grows)
        refine (call_follows keeps (.const _ _) trivial).bind fun scale c _ keeps _ => ?_
        refine (call_follows keeps (.binary (.arith .mul) index scale) trivial).bind fun term c _ keeps _ => ?_
        refine (call_follows keeps (.binary (.arith .add) addr term) trivial).bind fun next c _ keeps made => ?_
        refine (release_follows keeps (next ::ₘ extra) ?_).bind fun _ d step keeps _ =>
          ih (fun x mem => looks x (List.mem_cons_of_mem v mem)) false e next offset keeps (made.of_grows step.grows)
        simp only [← singleton_add, ← cons_coe, coe_nil]
        abel
      · rw [List.filter_cons_of_neg (by simp [isComputed_eq s.module read])] at looks ⊢
        exact ih looks false e addr _ keeps made

lemma address_follows {elem : Ty} {base : ValueId} {indices : List ValueId}
    (looks : ∀ x ∈ base :: indices.filter (isComputed s.module), Looks B S look x) :
    B.Follows S b (address s look v elem base indices) (· ::ₘ extra)
      (Expressed (base :: indices.filter (isComputed s.module))) := by
  unfold address
  refine (ident_follows keeps v).bind fun name c _ keeps _ => ?_
  refine (looks base (List.mem_cons_self ..)).bind keeps fun f c keeps => ?_
  refine (retain_follows keeps f).bind fun addr c _ keeps made => ?_
  refine (steps_follows v _ indices (fun x mem => looks x (List.mem_cons_of_mem base mem)) true elem addr 0 keeps
    made).bind fun r c _ keeps h => ?_
  obtain ⟨addr, offset⟩ := r
  dsimp only at h ⊢
  split
  · exact .pure keeps h
  · refine Books.Follows.imp (Q := Made) ?_ fun r d step made => ⟨made, fun x mem => (h.2 x mem).of_grows step.grows⟩
    refine (log_follows keeps _ _).bind fun _ c _ keeps _ => ?_
    refine (call_follows keeps (.const _ _) trivial).bind fun k c _ keeps _ => ?_
    refine (call_follows keeps (.binary (.arith .add) addr k) trivial).bind fun sum c _ keeps made => ?_
    refine (release_follows keeps (sum ::ₘ extra) ?_).bind fun _ d step keeps _ =>
      .pure keeps (made.of_grows step.grows)
    simp only [← singleton_add, ← cons_coe, coe_nil]
    abel

lemma binary_follows (op : Binary) (left : Looks B S look x) (right : Looks B S look y) :
    B.Follows S b (binary look op x y) (· ::ₘ extra) (Expressed [x, y]) :=
  left.bind keeps fun f _ keeps => right.bind keeps fun g _ keeps => (call_follows keeps (.binary op f g) trivial).none

lemma ofInst_follows {i : Inst ValueId} (looks : ∀ x ∈ instDemands s i, Looks B S look x) :
    B.Follows S b (ofInst s look v i) (· ::ₘ extra) (Expressed (instDemands s i)) := by
  cases i with
  | arith op _ x y =>
    exact binary_follows keeps (.arith op) (looks x (by simp [instDemands])) (looks y (by simp [instDemands]))
  | icmp pred x y =>
    cases pred with
    | known op =>
      exact binary_follows keeps (.compare op) (looks x (by simp [instDemands])) (looks y (by simp [instDemands]))
    | unknown => exact .throw keeps nofun
  | gep _ elem base indices => exact address_follows keeps looks
  | cast op x target =>
    cases op with
    | trunc =>
      refine (looks x (by simp [instDemands])).bind keeps fun f c keeps => ?_
      refine (widthOrFault_follows keeps target).bind fun dw c _ keeps _ => ?_
      exact (call_follows keeps (.extract f _ 0) trivial).none
    | zext => exact extend_follows keeps (looks x (by simp [instDemands])) target false
    | sext => exact extend_follows keeps (looks x (by simp [instDemands])) target true
    | ptrtoint => exact reinterpret_follows keeps (looks x (by simp [instDemands])) target
    | inttoptr => exact reinterpret_follows keeps (looks x (by simp [instDemands])) target
    | bitcast =>
      unfold ofInst
      unfold instDemands at looks ⊢
      dsimp only at looks ⊢
      revert looks
      rcases s.width? (s.module.typeOf x) with _ | w
      · exact fun _ => free_follows keeps v
      · exact fun looks => (looks x (by simp)).bind keeps fun f c keeps => (retain_follows keeps f).none
    | fptrunc | fpext | fptoui | fptosi | uitofp | sitofp | addrspacecast => exact free_follows keeps v
  | select flags c x y =>
    refine (looks c (by simp [instDemands])).bind keeps fun p _ keeps => ?_
    refine (looks x (by simp [instDemands])).bind keeps fun f _ keeps => ?_
    refine (looks y (by simp [instDemands])).bind keeps fun g _ keeps => ?_
    exact (call_follows keeps (.ite p f g) trivial).none
  | extractValue x path =>
    unfold ofInst
    dsimp only
    split
    · exact (log_follows keeps _ _).bind fun _ c _ keeps _ => free_follows keeps v
    · exact .throw keeps nofun
  | phi | call | other => exact free_follows keeps v

lemma express_follows (looks : ∀ x ∈ demands s v, Looks B S look x) :
    B.Follows S b (express s look v) (· ::ₘ extra) (Expressed (demands s v)) := by
  unfold express
  unfold demands at looks ⊢
  revert looks
  rcases s.width? (s.module.typeOf v) with _ | w
  · exact fun _ => free_follows keeps v
  · dsimp only [Option.isSome_some]
    rw [if_pos rfl]
    rcases s.module.get? v with _ | ⟨_ | _ | _ | _ | ⟨t, k⟩ | _ | _ | _⟩
    case some.inst => exact fun looks => ofInst_follows keeps looks
    case some.const =>
      cases k with
      | int n =>
        intro _
        dsimp only
        split
        · exact (call_follows keeps (.const _ n) trivial).none
        · exact free_follows keeps v
      | null => exact fun _ => (call_follows keeps (.const _ 0) trivial).none
      | gep _ elem base indices => exact fun looks => address_follows keeps looks
      | undef | other => exact fun _ => free_follows keeps v
    all_goals exact fun _ => free_follows keeps v

end Express

/-! ## Looking up -/

/-- To express a value that is unknown leaves it unknown, and gets to know nothing but what its operands
need. -/
lemma expressFrom_follows {depth : Nat} (v : ValueId) (keeps : B.keeps b extra) (unknown : b.formula? v = none)
    (looks : ∀ x, Looks B (Needs s x) (lookupFrom s depth) x) :
    B.Follows (Needs s v) b (express s (lookupFrom s depth) v) (· ::ₘ extra)
      fun f c => Expressed (demands s v) f c ∧ Grounded s v ∧ c.formula? v = none := by
  -- what is looked up on the way is needed by an operand
  let S x := ∃ y ∈ demands s v, Needs s y x
  have looks : ∀ x ∈ demands s v, Looks B S (lookupFrom s depth) x := fun x demanded b extra keeps =>
    (looks x b extra keeps).mono fun y needs => ⟨x, demanded, needs⟩
  have weaker : ∀ x, S x → Needs s v x := fun x ⟨y, demanded, needs⟩ => .head demanded needs
  refine ((express_follows keeps looks).imp fun f c step h => ?_).mono weaker
  have grounded : Grounded s v := .intro v fun x demanded =>
    (h.2 x demanded).elim fun _ => step.sound.grounded
  refine ⟨h, grounded, ?_⟩
  rw [Option.eq_none_iff_forall_ne_some]
  intro h found
  rcases step.fresh found with ⟨h, before⟩ | ⟨x, demanded, needs⟩
  · rw [unknown] at before
    cases before
  · exact grounded.not_needs x demanded needs

/-- A look-up leaves the value known, and gets to know nothing but what it needs. -/
lemma lookupFrom_follows (B : Books s) (depth : Nat) (v : ValueId) : Looks B (Needs s v) (lookupFrom s depth) v := by
  induction depth generalizing v with
  | zero => exact fun _ _ keeps => .throw keeps nofun
  | succ depth ih =>
    intro b extra keeps
    unfold lookupFrom
    refine Ends.get_bind ?_
    rw [show b.values.bind (List.lookup v) = b.formula? v from rfl]
    rcases known : b.formula? v with _ | f
    · refine Ends.bind (expressFrom_follows v keeps known ih) fun f c ⟨⟨step, keeps⟩, made, grounded, unknown⟩ => ?_
      refine Ends.get_bind ?_
      obtain ⟨entries, open_⟩ := step.sound.open_
      rw [open_]
      refine Ends.modify_bind (Ends.pure ?_)
      have entered := B.enter keeps made.1 grounded unknown
      refine ⟨⟨⟨B.sound entered, step.grows.trans (Bench.grows_enter open_ unknown), step.paths,
        fun {x h} found => ?_⟩, entered⟩, ?_⟩
      · change (c.enter v f).formula? x = some h at found
        rw [Bench.formula?_enter open_] at found
        split at found
        · exact .inr (‹x = v› ▸ .refl)
        · exact step.fresh found
      · show (c.enter v f).formula? v = some f
        rw [Bench.formula?_enter open_, if_pos rfl]
    · exact Books.Follows.pure keeps known

lemma lookupFrom_does (depth : Nat) (v : ValueId) (sound : Sound s b) :
    Does (Step s (Needs s v)) b (lookupFrom s depth v) (fun h c => c.formula? v = some h) :=
  Ends.mono (lookupFrom_follows (soundBooks s) depth v b 0 sound) (fun _ _ h => ⟨h.1.1, h.2⟩) fun _ _ h => h.1

lemma lookupFrom_refused (endless : ¬ Grounded s v) (sound : Sound s b) (depth : Nat) :
    ∃ e c, outcome (lookupFrom s depth v) b = (.error e, c) :=
  (Ends.imp (lookupFrom_does depth v sound) fun _ _ h => endless (h.1.sound.grounded h.2)).exists_error

end Faultline.Analysis
