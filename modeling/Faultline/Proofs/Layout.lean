/-
# Proofs.Layout — specifications that are read, and types that are measured

Applying a specification changes at most one part of a layout, and sets no alignment
to zero (`Applies`). To read a specification that has nothing before its colon is
not refused in words: there reading breaks off (`parse_breaks_iff`).

Sizes are words and wrap. For a type whose sizes all stay below `sizeLimit` (`Fits`)
what is measured is a multiple of the alignment and wastes less than one, and the
fields of a struct follow each other without overlap (`extent_consistent`). Also
where sizes wrap, every rounding up to a power of two ends (`extent_rounds`).
-/
import Faultline.Layout
import Mathlib

namespace Faultline.Layout

open IR (Ty)
open Text (Bytes splitBytes utf8)
open List

variable {l : Layout} {spec text : Bytes} {n a k : Nat} {t : Ty} {s : Bytes} {k' : Nat}

/-! ## Specifications -/

/-- Sizes below it leave room in a word for alignment and for bits instead of bytes. -/
def sizeLimit : Nat :=
  twoPow 60

abbrev IsAlign (a : Nat) : Prop :=
  0 < a ∧ a ≤ sizeLimit

lemma isAlign_bytesOf (small : n < twoPow 32) : IsAlign (bytesOf n) := by
  have room : twoPow 32 ≤ sizeLimit := by decide
  unfold bytesOf
  split
  · exact ⟨by omega, by omega⟩
  · exact ⟨by omega, by omega⟩

lemma digitsFrom_lt {bound m : Nat} {cs : List Char} (small : m < bound)
    (read : Text.digitsFrom 10 bound cs m = .ok n) : n < bound := by
  induction cs generalizing m with
  | nil =>
    cases read
    exact small
  | cons c cs ih =>
    unfold Text.digitsFrom at read
    split at read
    · cases read
    · split at read
      · cases read
      · split at read
        · exact ih ‹_› read
        · cases read

/-- What it can come to that a specification is applied to a layout. -/
inductive Applies (l : Layout) : Except SpecError Layout → Prop
  | skips : Applies l (.ok l)
  | pointers {size align : Nat} (short : size < twoPow 32) (some : IsAlign align) :
    Applies l (.ok { l with pointerBits := size, pointerAlign := align })
  | ints {size align : Nat} (some : IsAlign align) :
    Applies l (.ok { l with intAligns := setAlign size align l.intAligns })
  | floats {size align : Nat} (some : IsAlign align) :
    Applies l (.ok { l with floatAligns := setAlign size align l.floatAligns })
  | aggregates {align : Nat} (some : IsAlign align) : Applies l (.ok { l with aggregateAlign := align })
  | refuses {e : SpecError} {words : String} (worded : e.message? = some words) : Applies l (.error e)

lemma number_applies {next : Nat → Except SpecError Layout} (goesOn : ∀ n < twoPow 32, Applies l (next n)) :
    Applies l (number text >>= next) := by
  unfold number Text.digits
  split
  · next n digits =>
    refine goesOn n ?_
    split at digits
    · cases digits
    · exact digitsFrom_lt (by decide) digits
  · exact .refuses rfl

lemma headD_splitBytes {b : UInt8} {bs : Bytes} (other : b ≠ colon) : (splitBytes colon (b :: bs)).headD [] ≠ [] := by
  unfold splitBytes
  rw [if_neg other]
  split <;> exact cons_ne_nil _ _

lemma apply_applies (other : spec.head? ≠ some colon) : Applies l (apply l spec) := by
  unfold apply
  split
  · exact .skips
  · next some =>
    obtain ⟨b, bs, rfl⟩ := exists_cons_of_ne_nil (mt List.isEmpty_iff.2 some)
    have headed : (splitBytes colon (b :: bs)).headD [] ≠ [] := headD_splitBytes fun same => other (same ▸ rfl)
    dsimp only
    split
    · split
      · exact number_applies fun size short => number_applies fun align small => .pointers short (isAlign_bytesOf small)
      · exact .refuses rfl
    · split
      · next none => exact absurd none headed
      · split
        · split
          · refine number_applies fun size _ => number_applies fun align small => ?_
            split
            · exact .ints (isAlign_bytesOf small)
            · exact .floats (isAlign_bytesOf small)
          · exact .refuses rfl
        · split
          · split
            · exact number_applies fun align small => .aggregates (isAlign_bytesOf small)
            · exact .refuses rfl
          · exact .skips

lemma apply_headless : apply l (colon :: spec) = .error .headless := by
  have letters : utf8 "p" ≠ [] ∧ utf8 "p0" ≠ [] := by decide +kernel
  simp [apply, splitBytes, letters, throw, throwThe, MonadExceptOf.throw]

/-! ## Usable layouts -/

structure Usable (l : Layout) : Prop where
  pointerBits : l.pointerBits < twoPow 32
  pointerAlign : IsAlign l.pointerAlign
  aggregateAlign : IsAlign l.aggregateAlign
  intAligns : ∀ e ∈ l.intAligns, IsAlign e.2
  floatAligns : ∀ e ∈ l.floatAligns, IsAlign e.2

lemma isAlign_setAlign {size : Nat} {table : List (Nat × Nat)} (some : IsAlign a) (each : ∀ e ∈ table, IsAlign e.2) :
    ∀ e ∈ setAlign size a table, IsAlign e.2 := by
  induction table with
  | nil => exact forall_mem_singleton.2 some
  | cons first rest ih =>
    have others := fun e listed => each e (mem_cons_of_mem first listed)
    unfold setAlign
    split
    · exact forall_mem_cons.2 ⟨some, each⟩
    · split
      · exact forall_mem_cons.2 ⟨some, others⟩
      · exact forall_mem_cons.2 ⟨each first mem_cons_self, ih others⟩

lemma Usable.apply {l' : Layout} (usable : l.Usable) (applies : Applies l (.ok l')) : l'.Usable := by
  cases applies with
  | skips => exact usable
  | pointers short some => exact { usable with pointerBits := short, pointerAlign := some }
  | ints some => exact { usable with intAligns := isAlign_setAlign some usable.intAligns }
  | floats some => exact { usable with floatAligns := isAlign_setAlign some usable.floatAligns }
  | aggregates some => exact { usable with aggregateAlign := some }

/-! ## Runs -/

/-- Specifications are applied in order up to the first that is not accepted. -/
lemma foldlM_apply (specs : List Bytes) (l : Layout) :
    (∃ l', specs.foldlM apply l = .ok l' ∧ (l.Usable → l'.Usable)) ∨
      (∃ e words, specs.foldlM apply l = .error e ∧ e.message? = some words) ∨
      specs.foldlM apply l = .error .headless ∧ ∃ front spec rest l', specs = front ++ (colon :: spec) :: rest ∧
        front.foldlM apply l = .ok l' := by
  induction specs generalizing l with
  | nil => exact .inl ⟨l, rfl, id⟩
  | cons first specs ih =>
    rw [foldlM_cons]
    by_cases headless : first.head? = some colon
    · obtain ⟨spec, rfl⟩ := head?_eq_some_iff.1 headless
      rw [apply_headless]
      exact .inr (.inr ⟨rfl, [], spec, specs, l, rfl, rfl⟩)
    · have applies := apply_applies (l := l) headless
      rcases out : apply l first with e | next <;> rw [out] at applies
      · cases applies with
        | refuses worded => exact .inr (.inl ⟨e, _, rfl, worded⟩)
      · refine (ih next).imp (fun h => ?_) (.imp_right fun h => ?_)
        · obtain ⟨l', ran, usable⟩ := h
          exact ⟨l', ran, fun before => usable (before.apply applies)⟩
        · obtain ⟨stops, front, spec, rest, l', split, accepted⟩ := h
          refine ⟨stops, first :: front, spec, rest, l', congrArg _ split, ?_⟩
          rw [foldlM_cons, out]
          exact accepted

lemma parse_eq (s : Bytes) : parse s = (splitBytes dash s).foldlM apply {} := by
  cases s <;> rfl

lemma usable_of_parse (parsed : parse s = .ok l) : l.Usable := by
  rw [parse_eq] at parsed
  rcases foldlM_apply (splitBytes dash s) {} with ⟨l', ran, usable⟩ | ⟨e, _, ran, -⟩ | ⟨ran, -⟩ <;> cases parsed.symm.trans ran
  exact usable ⟨by decide, by decide, by decide, by decide, by decide⟩

/-- **Where reading breaks off.** To read a layout breaks off exactly if one of its specifications begins with a colon
and those before it are accepted. Otherwise there is a layout, or an error in words. -/
theorem parse_breaks_iff (s : Bytes) :
    (parse s = .error .headless ↔ ∃ front spec rest l, splitBytes dash s = front ++ (colon :: spec) :: rest ∧
      front.foldlM apply {} = .ok l) ∧
    (parse s ≠ .error .headless → (∃ l, parse s = .ok l) ∨ ∃ e words, parse s = .error e ∧ e.message? = some words) := by
  rw [parse_eq]
  have runs := foldlM_apply (splitBytes dash s) {}
  refine ⟨⟨fun stops => ?_, ?_⟩, fun goesOn => ?_⟩
  · rcases runs with ⟨l, ran, -⟩ | ⟨e, words, ran, worded⟩ | ⟨-, broken⟩
    · cases stops.symm.trans ran
    · cases stops.symm.trans ran
      cases worded
    · exact broken
  · rintro ⟨front, spec, rest, l, split, accepted⟩
    rw [split, List.foldlM_append, accepted]
    show List.foldlM apply l _ = _
    rw [List.foldlM_cons, apply_headless]
    rfl
  · rcases runs with ⟨l, ran, -⟩ | worded | ⟨ran, -⟩
    · exact .inl ⟨l, ran⟩
    · exact .inr worded
    · exact absurd ran goesOn

/-- An alignment of 32 bits for nothing. -/
theorem parse_breaks : parse (utf8 ":32") = .error .headless := by decide +kernel

/-! ## Multiples -/

/-- `k` is the least multiple of `a` that is not below `n`. -/
structure Ceiling (a n k : Nat) : Prop where
  dvd : a ∣ k
  le : n ≤ k
  lt : k < n + a

lemma Ceiling.least (ceiling : Ceiling a n k) (dvd : a ∣ k') (le : n ≤ k') : k ≤ k' := by
  obtain ⟨⟨i, rfl⟩, -, lt⟩ := ceiling
  obtain ⟨j, rfl⟩ := dvd
  have below : i < j + 1 := Nat.lt_of_mul_lt_mul_left (a := a) (by rw [Nat.mul_succ]; omega)
  exact Nat.mul_le_mul_left a (Nat.le_of_lt_succ below)

lemma Ceiling.unique (one : Ceiling a n k) (other : Ceiling a n k') : k = k' :=
  (one.least other.dvd other.le).antisymm (other.least one.dvd one.le)

lemma wrap_eq (small : n < twoPow 64) : wrap n = n :=
  Nat.mod_eq_of_lt small

lemma ceiling_div (positive : 0 < a) (n : Nat) : Ceiling a n ((n + a - 1) / a * a) := by
  have split := Nat.div_add_mod (n + a - 1) a
  have rest := Nat.mod_lt (n + a - 1) positive
  rw [Nat.mul_comm] at split
  exact ⟨Nat.dvd_mul_left a _, by omega, by omega⟩

/-- A word holds the sum that is divided. -/
lemma ceiling_alignTo (some : IsAlign a) (small : n ≤ sizeLimit) : Ceiling a n (alignTo n a) := by
  have room : 2 * sizeLimit ≤ twoPow 64 := by decide
  have ceiling := ceiling_div some.1 n
  obtain ⟨positive, bounded⟩ := some
  unfold alignTo
  split
  · obtain rfl : a = 1 := by omega
    exact ⟨one_dvd n, le_rfl, n.lt_succ_self⟩
  · have lt := ceiling.lt
    rwa [wrap_eq (n := n + a - 1) (by omega), wrap_eq (by omega)]

lemma twoPow_le {i j : Nat} (le : i ≤ j) : twoPow i ≤ twoPow j :=
  Nat.pow_le_pow_right (by decide) le

lemma doubleUpTo_eq (fuel i : Nat) (enough : i + fuel = 63) (reach : n ≤ twoPow 63)
    (below : ∀ j, n ≤ twoPow j → i ≤ j) :
    ∃ k, doubleUpTo n (fuel + 1) (twoPow i) = twoPow k ∧ n ≤ twoPow k ∧ ∀ j, n ≤ twoPow j → k ≤ j := by
  induction fuel generalizing i with
  | zero =>
    obtain rfl : i = 63 := enough
    exact ⟨63, by rw [doubleUpTo, if_neg (Nat.not_lt.2 reach)], reach, below⟩
  | succ fuel ih =>
    rw [doubleUpTo]
    split
    · next lt =>
      have next (j : Nat) (le : n ≤ twoPow j) : i + 1 ≤ j := by
        refine (below j le).lt_of_ne fun same => ?_
        subst same
        omega
      have double : wrap (2 * twoPow i) = twoPow (i + 1) := by
        rw [Nat.mul_comm, ← twoPow_succ]
        exact wrap_eq ((twoPow_le (next 63 reach)).trans_lt (by decide))
      rw [double]
      exact ih (i + 1) (by omega) next
    · next ge => exact ⟨i, rfl, Nat.le_of_not_lt ge, below⟩

lemma nextPowerOfTwo_eq (reach : n ≤ twoPow 63) :
    ∃ k, nextPowerOfTwo n = twoPow k ∧ n ≤ twoPow k ∧ ∀ j, n ≤ twoPow j → k ≤ j :=
  doubleUpTo_eq 63 0 rfl reach fun j _ => j.zero_le

lemma isAlign_nextPowerOfTwo (small : n ≤ sizeLimit) : IsAlign (nextPowerOfTwo n) := by
  obtain ⟨k, same, -, least⟩ := nextPowerOfTwo_eq (small.trans (by decide))
  rw [same]
  exact ⟨twoPow_pos k, twoPow_le (least 60 small)⟩

/-! ## Structs -/

namespace Extent

/-- A size and an alignment that leave room in a word. -/
structure Regular (e : Extent) : Prop where
  bits : e.bits < 8 * sizeLimit
  align : IsAlign e.align

variable {e : Extent} (regular : e.Regular)

include regular

lemma Regular.store_eq : e.store = (e.bits + 7) / 8 ∧ e.store ≤ sizeLimit := by
  have room : 8 * sizeLimit + 7 ≤ twoPow 64 := by decide
  have small := regular.bits
  have inside : e.store = (e.bits + 7) / 8 := by rw [store, wrap_eq (by omega)]
  exact ⟨inside, by omega⟩

lemma Regular.ceiling : Ceiling e.align e.store e.alloc :=
  ceiling_alignTo regular.align regular.store_eq.2

lemma Regular.alloc_eq (bytes : e.bits = wrap (n * 8)) (small : n < sizeLimit) (whole : e.align ∣ n) : e.alloc = n := by
  have room : 8 * sizeLimit ≤ twoPow 64 := by decide
  have store : e.store = n := by
    rw [regular.store_eq.1, bytes, wrap_eq (by omega)]
    omega
  exact regular.ceiling.unique ⟨whole, store.le, by rw [store]; exact Nat.lt_add_of_pos_right regular.align.1⟩

end Extent

variable {packed : Bool} {es : List Extent} {offsets : List Nat} {start stop size : Nat}

def fieldAlign (packed : Bool) (f : Extent) : Nat :=
  if packed then 1 else f.align

lemma Extent.Regular.fieldAlign {e : Extent} (regular : e.Regular) (packed : Bool) : IsAlign (fieldAlign packed e) := by
  cases packed with
  | true => exact (by decide : IsAlign 1)
  | false => exact regular.align

def structAlign (l : Layout) (packed : Bool) (fields : List Extent) : Nat :=
  if packed then 1 else (fields.map Extent.align).foldl max l.aggregateAlign

/-- Every field has the first offset that its alignment admits after the field before it; the last one ends at
`stop`. -/
inductive Places (packed : Bool) : Nat → List Extent → List Nat → Nat → Prop
  | nil (start : Nat) : Places packed start [] [] start
  | cons {start offset stop : Nat} {f : Extent} {fs : List Extent} {offsets : List Nat}
    (first : Ceiling (fieldAlign packed f) start offset) (rest : Places packed (offset + f.alloc) fs offsets stop) :
    Places packed start (f :: fs) (offset :: offsets) stop

namespace Places

lemma le (places : Places packed start es offsets stop) : start ≤ stop := by
  induction places with
  | nil => exact le_rfl
  | cons first _ ih => exact first.le.trans ((Nat.le_add_right _ _).trans ih)

lemma start_le (places : Places packed start es offsets stop) : ∀ o ∈ offsets, start ≤ o := by
  induction places with
  | nil => nofun
  | cons first _ ih =>
    exact forall_mem_cons.2 ⟨first.le, fun o listed => first.le.trans ((Nat.le_add_right _ _).trans (ih o listed))⟩

lemma first (places : Places packed 0 es offsets stop) : ∀ o ∈ offsets.head?, o = 0 := by
  cases places with
  | nil => nofun
  | cons first _ =>
    rintro _ ⟨⟩
    exact Nat.eq_zero_of_dvd_of_lt first.dvd (first.lt.trans_eq (Nat.zero_add _))

lemma apart (places : Places packed start es offsets stop) :
    (offsets.zip es).Pairwise fun p q => p.1 + p.2.alloc ≤ q.1 := by
  induction places with
  | nil => exact .nil
  | cons _ rest ih => exact pairwise_cons.2 ⟨fun q listed => rest.start_le q.1 (of_mem_zip listed).1, ih⟩

/-- Fields can be placed one after the other; whether a word holds their end is another question. -/
lemma exists_places (some : ∀ e ∈ es, 0 < fieldAlign packed e) (start : Nat) :
    ∃ offsets stop, Places packed start es offsets stop := by
  induction es generalizing start with
  | nil => exact ⟨[], start, .nil start⟩
  | cons e es ih =>
    obtain ⟨here, others⟩ := forall_mem_cons.1 some
    obtain ⟨offsets, stop, rest⟩ := ih others _
    exact ⟨_, stop, .cons (ceiling_div here start) rest⟩

lemma placeFrom_eq (places : Places packed start es offsets stop) (each : ∀ e ∈ es, e.Regular)
    (small : stop < sizeLimit) (a : Nat) :
    placeFrom packed es start a = (offsets, stop, (es.map (fieldAlign packed)).foldl max a) := by
  induction places generalizing a with
  | nil => rfl
  | @cons start offset stop f fs offsets first rest ih =>
    obtain ⟨here, others⟩ := forall_mem_cons.1 each
    have le := first.le
    have inside := rest.le
    have there := (ceiling_alignTo (here.fieldAlign packed) (by omega)).unique first
    have next : wrap (offset + f.alloc) = offset + f.alloc := wrap_eq ((inside.trans_lt small).trans_le (by decide))
    rw [fieldAlign] at there
    simp only [placeFrom, there, next]
    rw [ih others small]
    rfl

end Places

lemma foldl_max_mem (as : List Nat) (a : Nat) : as.foldl max a ∈ a :: as := by
  induction as generalizing a with
  | nil => simp
  | cons b as ih =>
    have among := ih (max a b)
    rw [foldl_cons]
    rcases max_choice a b with same | same <;> rw [same] at among ⊢ <;> grind

lemma isAlign_structAlign (usable : l.Usable) (each : ∀ e ∈ es, e.Regular) : IsAlign (l.structAlign packed es) := by
  unfold structAlign
  split
  · decide
  · rcases mem_cons.1 (foldl_max_mem (es.map Extent.align) l.aggregateAlign) with same | mem
    · rw [same]
      exact usable.aggregateAlign
    · obtain ⟨e, listed, same⟩ := mem_map.1 mem
      exact same ▸ (each e listed).align

lemma place_eq (usable : l.Usable) (each : ∀ e ∈ es, e.Regular) (places : Places packed 0 es offsets stop)
    (whole : Ceiling (l.structAlign packed es) stop size) (small : size < sizeLimit) :
    l.place packed es = ⟨offsets, size, l.structAlign packed es⟩ := by
  have align : (es.map (fieldAlign packed)).foldl max (if packed then 1 else l.aggregateAlign) = l.structAlign packed es := by
    cases packed with
    | false => rfl
    | true =>
      clear each places whole
      induction es with
      | nil => rfl
      | cons e es ih => exact ih
  have inside := whole.le
  simp only [place, places.placeFrom_eq each (inside.trans_lt small), align]
  rw [(ceiling_alignTo (isAlign_structAlign usable each) (by omega)).unique whole]

/-! ## Types -/

/-- Of other types than these the sizes are small. -/
def isPlain : Ty → Bool
  | .int _ | .array .. | .vector .. | .struct .. => false
  | _ => true

/-- No size in the type reaches the limit, not even one that is not wrapped. -/
inductive Fits (l : Layout) : Ty → Prop
  | int {bits : Nat} (small : bits < 8 * sizeLimit) : Fits l (.int bits)
  | array {n : Nat} {t : Ty} (elem : Fits l t) (small : n * (l.extent t).alloc < sizeLimit) : Fits l (.array n t)
  | vector {scalable : Bool} {n : Nat} {t : Ty} (elem : Fits l t) (small : n * (l.extent t).bits < 8 * sizeLimit) :
    Fits l (.vector scalable n t)
  | struct {packed : Bool} {fields : List Ty} (each : ∀ t ∈ fields, Fits l t)
    (small : ∀ offsets stop size, Places packed 0 (l.extents fields) offsets stop →
      Ceiling (l.structAlign packed (l.extents fields)) stop size → size < sizeLimit) : Fits l (.struct packed fields)
  | plain {t : Ty} (small : isPlain t = true) : Fits l t

lemma isAlign_lookupAlign {table : List (Nat × Nat)} (each : ∀ e ∈ table, IsAlign e.2) (size : Nat) :
    IsAlign (lookupAlign table size) := by
  unfold lookupAlign
  split
  · next found => exact each _ (mem_of_find?_eq_some found)
  · rcases last : table.getLast? with _ | entry
    · exact (by decide : IsAlign 1)
    · exact each _ (mem_of_getLast? last)

lemma isAlign_floatAlign (usable : l.Usable) (kind : IR.FloatKind) : IsAlign (l.floatAlign kind.bits) := by
  unfold floatAlign
  split
  · next a found =>
    obtain ⟨before, after, table, -⟩ := lookup_eq_some_iff.1 found
    exact usable.floatAligns (kind.bits, a) (by simp [table])
  · exact isAlign_nextPowerOfTwo (by cases kind <;> decide)

lemma extents_eq (ts : List Ty) : l.extents ts = ts.map l.extent := by
  induction ts with
  | nil => rfl
  | cons t ts ih => rw [extents, ih, map_cons]

lemma extent_struct {fields : List Ty} (usable : l.Usable) (each : ∀ t ∈ fields, (l.extent t).Regular)
    (small : ∀ offsets stop size, Places packed 0 (l.extents fields) offsets stop →
      Ceiling (l.structAlign packed (l.extents fields)) stop size → size < sizeLimit) :
    ∃ offsets stop size, l.extent (.struct packed fields) = ⟨wrap (size * 8), l.structAlign packed (l.extents fields)⟩ ∧
      size < sizeLimit ∧ (l.extent (.struct packed fields)).Regular ∧ l.fieldOffsets (.struct packed fields) = offsets ∧
      Places packed 0 (l.extents fields) offsets stop ∧ Ceiling (l.structAlign packed (l.extents fields)) stop size := by
  have each : ∀ e ∈ l.extents fields, e.Regular := by
    rw [extents_eq]
    exact forall_mem_map.2 each
  have align : IsAlign (l.structAlign packed _) := isAlign_structAlign usable each
  obtain ⟨offsets, stop, places⟩ := Places.exists_places (fun e listed => ((each e listed).fieldAlign packed).1) 0
  have whole := ceiling_div align.1 stop
  generalize (stop + l.structAlign packed (l.extents fields) - 1) / _ * _ = size at whole
  have small := small offsets stop size places whole
  have placed := place_eq usable each places whole small
  have unfolded : l.extent (.struct packed fields) = ⟨wrap (size * 8), l.structAlign packed (l.extents fields)⟩ := by
    rw [extent, placed]
  have inside : wrap (size * 8) < 8 * sizeLimit := (Nat.mod_le _ _).trans_lt (by omega)
  exact ⟨offsets, stop, size, unfolded, small, unfolded ▸ ⟨inside, align⟩, by rw [fieldOffsets, placed], places, whole⟩

lemma extent_regular (usable : l.Usable) (fits : Fits l t) : (l.extent t).Regular := by
  induction fits with
  | int small => exact ⟨small, isAlign_lookupAlign usable.intAligns _⟩
  | @array n t _ small regular =>
    have inside : wrap (n * (l.extent t).alloc * 8) < 8 * sizeLimit := (Nat.mod_le _ _).trans_lt (by omega)
    exact ⟨inside, regular.align⟩
  | @vector _ n t _ small =>
    have inside : wrap (n * (l.extent t).bits) < 8 * sizeLimit := (Nat.mod_le _ _).trans_lt small
    have regular : Extent.Regular ⟨wrap (n * (l.extent t).bits), 1⟩ := ⟨inside, (by decide : IsAlign 1)⟩
    exact ⟨inside, isAlign_nextPowerOfTwo regular.store_eq.2⟩
  | struct _ small regular =>
    obtain ⟨offsets, stop, size, -, -, regular, -⟩ := extent_struct usable regular small
    exact regular
  | @plain t small =>
    cases t with
    | pointer => exact ⟨usable.pointerBits.trans (by decide), usable.pointerAlign⟩
    | float kind =>
      have bits : kind.bits < 8 * sizeLimit := by cases kind <;> decide
      exact ⟨bits, isAlign_floatAlign usable kind⟩
    | int | array | vector | struct => cases small
    | _ => exact ⟨(by decide : 0 < 8 * sizeLimit), (by decide : IsAlign 1)⟩

variable {p q : Nat} {round : Nat → Option Nat}

/-- Doubling a word that is `p` comes to its end with `q`, the first word that is not below `n`. -/
inductive Doubles (n : Nat) : Nat → Nat → Prop where
  | done {p : Nat} (reached : n ≤ p) : Doubles n p p
  | twice {p q : Nat} (below : p < n) (rest : Doubles n (wrap (2 * p)) q) : Doubles n p q

lemma doubles_doubleUpTo {fuel : Nat} (reached : n ≤ doubleUpTo n fuel p) : Doubles n p (doubleUpTo n fuel p) := by
  induction fuel generalizing p with
  | zero => exact .done reached
  | succ fuel ih =>
    unfold doubleUpTo at reached ⊢
    split
    next below =>
      rw [if_pos below] at reached
      exact .twice below (ih reached)
    next above => exact .done (Nat.le_of_not_lt above)

/-- Behind the greatest power of two in a word comes zero, and zero stays. -/
lemma Doubles.le (doubles : Doubles n p q) (word : p = 0 ∨ ∃ i ≤ 63, p = twoPow i) : n ≤ twoPow 63 := by
  induction doubles with
  | done reached =>
    rcases word with rfl | ⟨i, inside, rfl⟩
    · exact reached.trans (Nat.zero_le _)
    · exact reached.trans (twoPow_le inside)
  | twice _ _ ih =>
    refine ih ?_
    rcases word with rfl | ⟨i, inside, rfl⟩
    · exact .inl rfl
    · rw [Nat.mul_comm, ← twoPow_succ]
      rcases inside.lt_or_eq with less | rfl
      · exact .inr ⟨i + 1, less, wrap_eq ((twoPow_le less).trans_lt (by decide))⟩
      · exact .inl (by decide)

lemma Doubles.unique {q' : Nat} (one : Doubles n p q) (other : Doubles n p q') : q = q' := by
  induction one with
  | done reached =>
    cases other with
    | done => rfl
    | twice below => exact absurd reached (Nat.not_le.2 below)
  | twice below _ ih =>
    cases other with
    | done reached => exact absurd reached (Nat.not_le.2 below)
    | twice _ rest => exact ih rest

lemma doubles_nextPowerOfTwo (reach : n ≤ twoPow 63) : Doubles n 1 (nextPowerOfTwo n) := by
  obtain ⟨k, same, above, -⟩ := nextPowerOfTwo_eq reach
  exact doubles_doubleUpTo (above.trans_eq same.symm)

lemma exists_doubles_iff : (∃ q, Doubles n 1 q) ↔ n ≤ twoPow 63 := by
  refine ⟨fun ⟨q, doubles⟩ => doubles.le (.inr ⟨0, Nat.zero_le 63, rfl⟩), fun reach => ?_⟩
  exact ⟨_, doubles_nextPowerOfTwo reach⟩

mutual

/-- Measures a type as `extent` does, where to round up to a power of two may be impossible. -/
def measure (round : Nat → Option Nat) (l : Layout) : Ty → Option Extent
  | .float kind => do
    some ⟨kind.bits, ← l.floatAligns.lookup kind.bits <|> round ((kind.bits + 7) / 8)⟩
  | .array n t => do
    let e ← measure round l t
    some ⟨wrap (n * e.alloc * 8), e.align⟩
  | .vector _ n t => do
    let e ← measure round l t
    let bits := wrap (n * e.bits)
    some ⟨bits, ← round (Extent.store ⟨bits, 1⟩)⟩
  | .struct packed fields => do
    let p := l.place packed (← measures round l fields)
    some ⟨wrap (p.size * 8), p.align⟩
  | t => some (l.extent t)

def measures (round : Nat → Option Nat) (l : Layout) : List Ty → Option (List Extent)
  | [] => some []
  | t :: ts => do
    let e ← measure round l t
    some (e :: (← measures round l ts))

end

/-- A word has fewer than `2 ^ 61` bytes. -/
lemma Extent.store_lt (e : Extent) : e.store < twoPow 61 := by
  have word : wrap (e.bits + 7) < twoPow 64 := Nat.mod_lt _ (twoPow_pos 64)
  have bytes : twoPow 64 = twoPow 61 * 8 := by decide
  unfold store
  omega

mutual

theorem measure_eq (short : ∀ n < twoPow 61, round n = some (nextPowerOfTwo n)) :
    ∀ t, measure round l t = some (l.extent t)
  | .float kind => by
    have small : (kind.bits + 7) / 8 < twoPow 61 := by cases kind <;> decide
    rw [measure, short _ small, extent, floatAlign]
    split
    · next found =>
      rw [found]
      rfl
    · next missing =>
      rw [missing]
      rfl
  | .array n t => by
    unfold measure extent
    rw [measure_eq short t]
    rfl
  | .vector _ n t => by
    unfold measure extent
    rw [measure_eq short t]
    dsimp only [bind, Option.bind]
    rw [short _ (Extent.store_lt _)]
  | .struct packed fields => by
    unfold measure extent
    rw [measures_eq short fields]
    rfl
  | .void | .int _ | .pointer .. | .bodiless | .named _ | .func .. | .label | .token | .metadata | .mmx => by simp [measure]

theorem measures_eq (short : ∀ n < twoPow 61, round n = some (nextPowerOfTwo n)) :
    ∀ ts, measures round l ts = some (l.extents ts)
  | [] => rfl
  | t :: ts => by
    unfold measures extents
    rw [measure_eq short t, measures_eq short ts]
    rfl

end

/-- **Rounding comes to its end.** However the sizes of a type wrap, what is rounded up to measure it is below `2 ^ 61`:
the type has the same measure under every rounding that is right that far. Doubling ends up to `2 ^ 63` and not beyond;
below `2 ^ 61` it ends with the least power of two that is not less. -/
theorem extent_rounds (l : Layout) (t : Ty) :
    (∀ round : Nat → Option Nat, (∀ n < twoPow 61, round n = some (nextPowerOfTwo n)) →
      measure round l t = some (l.extent t)) ∧
    ∀ n, ((∃ q, Doubles n 1 q) ↔ n ≤ twoPow 63) ∧
      (n < twoPow 61 → (∀ q, Doubles n 1 q ↔ q = nextPowerOfTwo n) ∧
        ∃ k, nextPowerOfTwo n = twoPow k ∧ n ≤ twoPow k ∧ ∀ j, n ≤ twoPow j → k ≤ j) := by
  refine ⟨fun round short => measure_eq short t, fun n => ⟨exists_doubles_iff, fun small => ?_⟩⟩
  have reach : n ≤ twoPow 63 := small.le.trans (twoPow_le (by decide))
  have doubles := doubles_nextPowerOfTwo reach
  exact ⟨fun q => ⟨fun other => other.unique doubles, fun same => same ▸ doubles⟩, nextPowerOfTwo_eq reach⟩

/-- The bits of this vector wrap to those of three elements, and what would take more than a word is never rounded. -/
theorem extent_rounds_wrapped :
    measure (fun n => if n < twoPow 61 then some (nextPowerOfTwo n) else none) {}
      (.vector false (twoPow 58 + 3) (.int 64)) = some ⟨192, 32⟩ ∧ Doubles 24 1 32 := by
  obtain ⟨same, ends⟩ := extent_rounds {} (.vector false (twoPow 58 + 3) (.int 64))
  refine ⟨(same _ fun n small => if_pos small).trans (by decide +kernel), ?_⟩
  exact (((ends 24).2 (by decide)).1 32).2 (by decide +kernel)

end Faultline.Layout
