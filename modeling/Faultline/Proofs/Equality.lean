/-
# Proofs.Equality — modules can be compared

Whether two modules are the same can be computed. Types are compared part by part
(`Ty.beq`); for everything else equality is that of the fields.
-/
import Faultline.IR.Basic
import Mathlib

namespace Faultline.IR

/-! ## Types -/

mutual

def Ty.beq : Ty → Ty → Bool
  | .void, .void | .bodiless, .bodiless | .label, .label | .token, .token | .metadata, .metadata | .mmx, .mmx => true
  | .int m, .int n => m == n
  | .float j, .float k => j == k
  | .pointer t m, .pointer u n => t.beq u && m == n
  | .vector p m t, .vector q n u => p == q && m == n && t.beq u
  | .array m t, .array n u => m == n && t.beq u
  | .struct p ts, .struct q us => p == q && Ty.beqs ts us
  | .named x, .named y => x == y
  | .func t ts v, .func u us w => t.beq u && Ty.beqs ts us && v == w
  | _, _ => false

def Ty.beqs : List Ty → List Ty → Bool
  | [], [] => true
  | t :: ts, u :: us => t.beq u && Ty.beqs ts us
  | _, _ => false

end

mutual

theorem Ty.eq_of_beq (t u : Ty) (same : t.beq u = true) : t = u := by
  cases t with
  | void | int | float | bodiless | named | label | token | metadata | mmx => cases u <;> simp_all [Ty.beq]
  | pointer t m =>
    cases u <;> simp only [Ty.beq, Bool.and_eq_true, beq_iff_eq, Bool.false_eq_true] at same
    rw [Ty.eq_of_beq t _ same.1, same.2]
  | vector p m t =>
    cases u <;> simp only [Ty.beq, Bool.and_eq_true, beq_iff_eq, Bool.false_eq_true] at same
    rw [Ty.eq_of_beq t _ same.2, same.1.1, same.1.2]
  | array m t =>
    cases u <;> simp only [Ty.beq, Bool.and_eq_true, beq_iff_eq, Bool.false_eq_true] at same
    rw [Ty.eq_of_beq t _ same.2, same.1]
  | struct p ts =>
    cases u <;> simp only [Ty.beq, Bool.and_eq_true, beq_iff_eq, Bool.false_eq_true] at same
    rw [Ty.eq_of_beqs ts _ same.2, same.1]
  | func t ts v =>
    cases u <;> simp only [Ty.beq, Bool.and_eq_true, beq_iff_eq, Bool.false_eq_true] at same
    rw [Ty.eq_of_beq t _ same.1.1, Ty.eq_of_beqs ts _ same.1.2, same.2]

theorem Ty.eq_of_beqs (ts us : List Ty) (same : Ty.beqs ts us = true) : ts = us := by
  cases ts with
  | nil => cases us <;> simp_all [Ty.beqs]
  | cons t ts =>
    cases us <;> simp only [Ty.beqs, Bool.and_eq_true, Bool.false_eq_true] at same
    rw [Ty.eq_of_beq t _ same.1, Ty.eq_of_beqs ts _ same.2]

end

mutual

theorem Ty.beq_self (t : Ty) : t.beq t = true := by
  cases t with
  | pointer t | vector _ _ t | array _ t => simp [Ty.beq, Ty.beq_self t]
  | struct p ts => simp [Ty.beq, Ty.beqs_self ts]
  | func t ts v => simp [Ty.beq, Ty.beq_self t, Ty.beqs_self ts]
  | void | int | float | bodiless | named | label | token | metadata | mmx => simp [Ty.beq]

theorem Ty.beqs_self (ts : List Ty) : Ty.beqs ts ts = true := by
  cases ts with
  | nil => rfl
  | cons t ts => simp [Ty.beqs, Ty.beq_self t, Ty.beqs_self ts]

end

instance : DecidableEq Ty := fun t u =>
  decidable_of_iff (t.beq u = true) ⟨Ty.eq_of_beq t u, fun same => same ▸ Ty.beq_self t⟩

/-! ## Modules -/

deriving instance DecidableEq for Piece
deriving instance DecidableEq for Call
deriving instance DecidableEq for Inst
deriving instance DecidableEq for Term
deriving instance DecidableEq for Const
deriving instance DecidableEq for Def
deriving instance DecidableEq for Block
deriving instance DecidableEq for Param
deriving instance DecidableEq for Func
deriving instance DecidableEq for Global
deriving instance DecidableEq for Module

end Faultline.IR
