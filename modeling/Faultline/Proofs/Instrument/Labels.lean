/-
# Proofs.Instrument.Labels — sentinels have names of their own

The name of a sentinel ends in a point and a number. Name and number can be read back
off it (`numbered_inj`). So one of as many numbers as there are functions, and one more,
makes a name that no function has (`freeFrom_free`), and no two sentinels have the same
name (`Labelled`).
-/
import Faultline.Instrument.Guard
import Mathlib

namespace Faultline.Text

open List

/-! ## Bytes of a text -/

lemma toList_loop (bs : ByteArray) (i : Nat) (r : List UInt8) :
    ByteArray.toList.loop bs i r = r.reverse ++ bs.data.toList.drop i := by
  fun_induction ByteArray.toList.loop bs i r with
  | case1 i r below ih =>
    have bound : i < bs.data.toList.length := below
    have head : bs.get! i = bs.data.toList[i] := by
      rw [Array.getElem_toList]
      exact getElem!_pos bs.data i below
    rw [ih, reverse_cons, append_assoc, head]
    exact congrArg _ (drop_eq_getElem_cons bound).symm
  | case2 i r done => rw [drop_of_length_le (by simpa using done), append_nil]

lemma utf8_eq (s : String) : utf8 s = s.toByteArray.data.toList :=
  toList_loop s.toByteArray 0 []

lemma utf8_append (s t : String) : utf8 (s ++ t) = utf8 s ++ utf8 t := by
  rw [utf8_eq, utf8_eq, utf8_eq, String.toByteArray_append, ByteArray.data_append, Array.toList_append]

lemma utf8_inj {s t : String} (same : utf8 s = utf8 t) : s = t := by
  rw [utf8_eq, utf8_eq] at same
  exact String.toByteArray_inj.1 (ByteArray.ext (Array.toList_inj.1 same))

lemma point_not_mem_number (n : Nat) : (46 : UInt8) ∉ utf8 (toString n) := by
  have digits : n.repr = String.ofList (Nat.toDigits 10 n) := by
    rw [← Nat.toList_repr, String.ofList_toList]
  rw [utf8_eq, Nat.toString_eq_repr, digits, String.toByteArray_ofList, utf8Encode, data_toByteArray]
  intro mem
  obtain ⟨c, digit, mem⟩ := mem_flatMap.1 mem
  have isDigit := Nat.isDigit_of_mem_toDigits (by omega) (by omega) digit
  have range : 48 ≤ c.val.toNat ∧ c.val.toNat ≤ 57 := by
    simpa [Char.isDigit, UInt32.le_iff_toNat_le] using isDigit
  unfold String.utf8EncodeChar at mem
  dsimp only at mem
  rw [if_pos (by omega)] at mem
  have same := congrArg UInt8.toNat (mem_singleton.1 mem)
  rw [UInt8.toNat_ofNat_of_lt' (show c.val.toNat < 256 by omega)] at same
  have point : (46 : UInt8).toNat = 46 := rfl
  omega

/-- What follows the last of a byte can be told from what comes before it. -/
lemma append_cons_inj {x : UInt8} {a a' b b' : Bytes} (same : a ++ x :: b = a' ++ x :: b') (last : x ∉ b) (last' : x ∉ b') :
    a = a' ∧ b = b' := by
  rcases append_eq_append_iff.1 same with ⟨c, rfl, tail⟩ | ⟨c, rfl, tail⟩
  · cases c with
    | nil => simpa using tail
    | cons y c =>
      injection tail with _ tail
      exact absurd (tail ▸ by simp) last
  · cases c with
    | nil => simpa using tail.symm
    | cons y c =>
      injection tail with _ tail
      exact absurd (tail ▸ by simp) last'

end Faultline.Text

namespace Faultline.Instrument

open IR (Module Func)
open Text (utf8 Bytes)
open List

variable {m : Module} {f : Func} {s s' : Draft} {n : Nat}

lemma numbered_inj {base base' : Bytes} {n' : Nat} (same : numbered base n = numbered base' n') : base = base' ∧ n = n' := by
  have shape : ∀ (base : Bytes) (n : Nat), numbered base n = base ++ 46 :: utf8 (toString n) := by
    intro base n
    have text : s!".{n}" = "." ++ toString n := rfl
    have point : utf8 "." = [46] := by decide +kernel
    unfold numbered
    rw [text, Text.utf8_append, point]
    rfl
  rw [shape, shape] at same
  obtain ⟨bases, digits⟩ := Text.append_cons_inj same (Text.point_not_mem_number n) (Text.point_not_mem_number n')
  exact ⟨bases, Nat.repr_inj.1 (Text.utf8_inj digits)⟩

/-- A number that is not free comes only after numbers that are not. -/
lemma taken_of_freeFrom {taken : Std.HashSet Bytes} {base : Bytes} {fuel : Nat}
    (used : numbered base (freeFrom taken base fuel n) ∈ taken) : ∀ k ≤ fuel, numbered base (n + k) ∈ taken := by
  induction fuel generalizing n with
  | zero =>
    intro k none
    cases Nat.le_zero.1 none
    exact used
  | succ fuel ih =>
    unfold freeFrom at used
    split at used
    next first =>
      intro k below
      cases k with
      | zero => exact Std.HashSet.contains_iff_mem.1 first
      | succ k =>
        rw [show n + (k + 1) = n + 1 + k by omega]
        exact ih used k (Nat.le_of_succ_le_succ below)
    next free => exact absurd (Std.HashSet.contains_iff_mem.2 used) free

/-- Among one name more than there are taken, one is free. -/
lemma freeFrom_free (taken : Std.HashSet Bytes) (base : Bytes) (n : Nat) :
    numbered base (freeFrom taken base (taken.size + 1) n) ∉ taken := by
  intro used
  have distinct : ((range (taken.size + 1)).map fun k => numbered base (n + k)).Nodup :=
    nodup_range.map fun k l same => Nat.add_left_cancel (numbered_inj same).2
  have within : _ ⊆ taken.toList := fun name mem => by
    obtain ⟨k, below, rfl⟩ := mem_map.1 mem
    exact Std.HashSet.mem_toList.2 (taken_of_freeFrom used k (mem_range.1 below).le)
  have bound := (distinct.subperm within).length_le
  rw [length_map, length_range, Std.HashSet.length_toList] at bound
  exact Nat.not_succ_le_self _ bound

def freshName (s : Draft) (base : Bytes) : Bytes :=
  numbered base (freeFrom s.taken base (s.taken.size + 1) (s.tried.getD base 0))

/-! ## Names in use -/

def funcNames (m : Module) : List Bytes :=
  m.funcs.toList.map Func.name

def declared (m c : Module) : List Func :=
  c.funcs.toList.drop m.funcs.size

/-- The functions that have been declared have names of sentinels, and no function has one of these already. -/
structure Labelled (m : Module) (s : Draft) : Prop where
  taken : ∀ name ∈ funcNames s.module, name ∈ s.taken
  fresh : ∃ new, funcNames s.module = funcNames m ++ new ∧ new.Nodup ∧ ∀ name ∈ new, name ∉ funcNames m ∧
    ∃ stem ∈ [Sentinel.overflowStem, Sentinel.faultStem], utf8 (stem ++ ".") <+: name

lemma Labelled.names (labelled : Labelled m s) : ((declared m s.module).map Func.name).Nodup ∧
    ∀ f ∈ declared m s.module, f.name ∉ funcNames m ∧
      ∃ stem ∈ [Sentinel.overflowStem, Sentinel.faultStem], utf8 (stem ++ ".") <+: f.name := by
  obtain ⟨new, names, distinct, each⟩ := labelled.fresh
  have same : (declared m s.module).map Func.name = new := by
    rw [declared, map_drop, ← funcNames, names, drop_left' (by simp [funcNames])]
  exact ⟨same ▸ distinct, fun f mem => each _ (same ▸ mem_map_of_mem mem)⟩

lemma mem_foldl_insert {name : Bytes} {fs : List Func} {names : Std.HashSet Bytes}
    (either : name ∈ fs.map Func.name ∨ name ∈ names) : name ∈ fs.foldl (fun names f => names.insert f.name) names := by
  induction fs generalizing names with
  | nil => simpa using either
  | cons f fs ih =>
    refine ih ?_
    rw [Std.HashSet.mem_insert, beq_iff_eq]
    rw [map_cons, mem_cons, or_assoc] at either
    tauto

lemma labelled_start (m : Module) : Labelled m (.ofModule m) := by
  refine ⟨fun name mem => ?_, [], by simp [Draft.ofModule]⟩
  unfold Draft.ofModule
  rw [← Array.foldl_toList]
  exact mem_foldl_insert (.inl mem)

lemma Labelled.of_same (labelled : Labelled m s) (taken : s'.taken = s.taken)
    (names : funcNames s'.module = funcNames s.module) : Labelled m s' := by
  refine ⟨?_, names ▸ labelled.fresh⟩
  rw [names, taken]
  exact labelled.taken

lemma Labelled.push (labelled : Labelled m s) {stem : String} (known : stem ∈ [Sentinel.overflowStem, Sentinel.faultStem])
    (begins : utf8 (stem ++ ".") <+: f.name) (free : f.name ∉ s.taken) (taken : s'.taken = s.taken.insert f.name)
    (funcs : s'.module.funcs = s.module.funcs.push f) : Labelled m s' := by
  obtain ⟨new, names, distinct, each⟩ := labelled.fresh
  have more : funcNames s'.module = funcNames s.module ++ [f.name] := by simp [funcNames, funcs]
  have unused : f.name ∉ funcNames m ++ new := fun mem => free (labelled.taken _ (names ▸ mem))
  rw [mem_append, not_or] at unused
  refine ⟨fun name mem => ?_, new ++ [f.name], by rw [more, names, append_assoc], ?_, fun name mem => ?_⟩
  · rw [taken, Std.HashSet.mem_insert, beq_iff_eq]
    rw [more, mem_append, mem_singleton] at mem
    exact mem.symm.imp Eq.symm (labelled.taken name)
  · exact nodup_append.2 ⟨distinct, nodup_singleton _, fun name mem name' mem' same =>
      unused.2 (mem_singleton.1 mem' ▸ same ▸ mem)⟩
  · obtain mem | mem := mem_append.1 mem
    · exact each name mem
    · cases mem_singleton.1 mem
      exact ⟨unused.1, stem, known, begins⟩

end Faultline.Instrument
