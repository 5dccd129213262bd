/-
Lede.Otto.Ageing — the ageing time of the L2 table (`l2.c`).

A register counts the time in units of the family, and 0 turns ageing off. The setters take the
time in milliseconds as an `unsigned long`, which has 32 bits on these switches, and each has a
unit of its own; the getter, which gives seconds, knows two. So the two directions agree on the
RTL838x and the RTL839x, for a time that is not too long for the product and not too short for a
unit, and on the others for a few short times only (`ageing_exact_iff`).
-/
import Mathlib.Tactic.IntervalCases
import Lede.Lib.BitField
import Lede.Otto.Family

namespace Lede.Otto

open Lede.Lib.BitField

/-- The bits of the age unit, `0x7FFFFF` or `0x1FFFFF` as a mask. -/
def Family.ageUnitBits : Family → Nat
  | .rtl838x => 23
  | .rtl839x => 21
  | .rtl930x => 21
  | .rtl931x => 21

/-- `high_res_l2_age` -/
def Family.highResL2Age : Family → Bool
  | .rtl838x => true
  | .rtl839x => false
  | .rtl930x => false
  | .rtl931x => false

/-- What is programmed for a time, before it is cut to the width of the register. -/
def ageUnits (f : Family) (msec : BitVec 32) : BitVec 32 :=
  match f with
  | .rtl838x => (msec * 625 + 127000) / 128000
  | .rtl839x => (msec * 5 + 2000) / 3000
  | .rtl930x => (msec / 100 + 6) / 7
  | .rtl931x => (msec / 100 + 7) / 8

/-- `otto_l2_838x_set_ageing_time`, `otto_l2_839x_set_ageing_time`, … -/
def setAgeingTime (f : Family) (reg msec : BitVec 32) : BitVec 32 :=
  let t := ageUnits f msec
  let t := if low f.ageUnitBits < t then low f.ageUnitBits else t
  let mask := low f.ageUnitBits ||| t
  reg &&& ~~~mask ||| t &&& mask

/-- `otto_l2_get_ageing_time` -/
def getAgeingTime (f : Family) (reg : BitVec 32) : Nat :=
  let t := (reg &&& low f.ageUnitBits).toNat
  if f.highResL2Age then t * 128 / 625 else t * 3 / 5

/-! ## The unit -/

/-- The unit that the setter counts in, in tenths of a millisecond. -/
def Family.ageUnit : Family → Nat
  | .rtl838x => 2048
  | .rtl839x => 6000
  | .rtl930x => 7000
  | .rtl931x => 8000

/-- The seconds of a time that is no more than a unit away from this one. -/
def Rounded (f : Family) (msec secs : Nat) : Prop :=
  (10 * msec - f.ageUnit) / 10000 ≤ secs ∧ secs ≤ (10 * msec + f.ageUnit) / 10000

/-- What the setter computes with the time, as an `unsigned long`. -/
def ulongResults (f : Family) (msec : Nat) : List Nat :=
  match f with
  | .rtl838x => [msec * 625, msec * 625 + 127000]
  | .rtl839x => [msec * 5, msec * 5 + 2000]
  | .rtl930x => [msec / 100 + 6]
  | .rtl931x => [msec / 100 + 7]

/-- What the setter computes with the units that were there, for its message, and the getter with
the ones that are, as an `int`. -/
def intResults (f : Family) (t : Nat) : List Nat :=
  match f with
  | .rtl838x => [t * 128]
  | .rtl839x => [t * 3]
  | .rtl930x => [t * 7, t * 3]
  | .rtl931x => [t * 8, t * 3]

/-- A time that is set is what is read back, nothing overflows on the way, and ageing goes on. -/
structure AgeingKept (f : Family) (reg msec : BitVec 32) : Prop where
  ulong : ∀ x ∈ ulongResults f msec.toNat, x < 2 ^ 32
  int : ∀ t < 2 ^ f.ageUnitBits, ∀ x ∈ intResults f t, x < 2 ^ 31
  back : Rounded f msec.toNat (getAgeingTime f (setAgeingTime f reg msec))
  on : msec ≠ 0 → setAgeingTime f reg msec &&& low f.ageUnitBits ≠ 0

/-- The times that are kept. -/
def AgeingExact (f : Family) (msec : Nat) : Prop :=
  match f with
  | .rtl838x => msec ≠ 1 ∧ msec ≤ 6871744
  | .rtl839x => msec = 0 ∨ 200 ≤ msec ∧ msec ≤ 858993059
  | .rtl930x => msec = 0 ∨ 100 ≤ msec ∧ msec ≤ 7699 ∨ 7800 ≤ msec ∧ msec ≤ 8699 ∨
      9200 ≤ msec ∧ msec ≤ 9699 ∨ 9900 ≤ msec ∧ msec ≤ 10699 ∨ 11300 ≤ msec ∧ msec ≤ 11699 ∨
      13400 ≤ msec ∧ msec ≤ 13699
  | .rtl931x => msec = 0 ∨ 100 ≤ msec ∧ msec ≤ 4799 ∨ 4900 ≤ msec ∧ msec ≤ 5799 ∨
      6500 ≤ msec ∧ msec ≤ 6799 ∨ 7300 ≤ msec ∧ msec ≤ 7799

/-! ## Both directions -/

/-- What is written to the register is read from it. -/
theorem setAgeingTime_units (f : Family) (reg msec : BitVec 32) :
    (setAgeingTime f reg msec &&& low f.ageUnitBits).toNat =
      min (ageUnits f msec).toNat (2 ^ f.ageUnitBits - 1) := by
  have hmax : (low f.ageUnitBits : BitVec 32).toNat = 2 ^ f.ageUnitBits - 1 := by
    cases f <;> decide
  rw [setAgeingTime]
  generalize ht : (if low f.ageUnitBits < ageUnits f msec then low f.ageUnitBits
    else ageUnits f msec) = t
  have hmin : t.toNat = min (ageUnits f msec).toNat (2 ^ f.ageUnitBits - 1) := by
    rw [← ht, ← hmax]
    split
    · rename_i hlt
      rw [BitVec.lt_def] at hlt
      omega
    · rename_i hge
      rw [BitVec.lt_def] at hge
      omega
  have hbits : ∀ j, f.ageUnitBits ≤ j → t.getLsbD j = false :=
    getLsbD_eq_false (by have := Nat.two_pow_pos f.ageUnitBits; omega)
  rw [← hmin]
  congr 1
  apply BitVec.eq_of_getLsbD_eq
  intro i hi
  by_cases hw : i < f.ageUnitBits
  · simp [hi, hw]
  · simp [hw, hbits i (by omega)]

theorem intResults_lt (f : Family) (t : Nat) (ht : t < 2 ^ f.ageUnitBits) :
    ∀ x ∈ intResults f t, x < 2 ^ 31 := by
  cases f <;> simp only [intResults, Family.ageUnitBits, List.mem_cons, List.not_mem_nil, or_false]
    at ht ⊢ <;> omega

/-- The claims of `AgeingKept` about numbers, with the units that are programmed. -/
theorem ageingKept_iff (f : Family) (reg msec : BitVec 32) {t : Nat}
    (ht : min (ageUnits f msec).toNat (2 ^ f.ageUnitBits - 1) = t) :
    AgeingKept f reg msec ↔ (∀ x ∈ ulongResults f msec.toNat, x < 2 ^ 32) ∧
      Rounded f msec.toNat (if f.highResL2Age then t * 128 / 625 else t * 3 / 5) ∧
        (msec.toNat ≠ 0 → t ≠ 0) := by
  have hunits := setAgeingTime_units f reg msec
  rw [ht] at hunits
  have hback : getAgeingTime f (setAgeingTime f reg msec) =
      if f.highResL2Age then t * 128 / 625 else t * 3 / 5 := by
    simp only [getAgeingTime, hunits]
  have hmsec : msec ≠ 0 ↔ msec.toNat ≠ 0 := by
    rw [ne_eq, ← BitVec.toNat_inj]
    rfl
  have hon : setAgeingTime f reg msec &&& low f.ageUnitBits ≠ 0 ↔ t ≠ 0 := by
    rw [ne_eq, ← BitVec.toNat_inj, hunits]
    rfl
  constructor
  · rintro ⟨hulong, -, hr, ho⟩
    exact ⟨hulong, hback ▸ hr, fun h => hon.1 (ho (hmsec.2 h))⟩
  · rintro ⟨hulong, hr, ho⟩
    exact ⟨hulong, intResults_lt f, hback.symm ▸ hr, fun h => hon.2 (ho (hmsec.1 h))⟩

/-- On the RTL838x the product with a long time overflows, and a millisecond is no unit. -/
theorem rounded838x_iff {m t : Nat} (ht : (m * 625 % 2 ^ 32 + 127000) % 2 ^ 32 / 128000 = t) :
    (∀ x ∈ ulongResults .rtl838x m, x < 2 ^ 32) ∧
      Rounded .rtl838x m (min t (2 ^ 23 - 1) * 128 / 625) ∧ (m ≠ 0 → min t (2 ^ 23 - 1) ≠ 0) ↔
        AgeingExact .rtl838x m := by
  have hulong : (∀ x ∈ ulongResults .rtl838x m, x < 2 ^ 32) ↔ m * 625 + 127000 < 2 ^ 32 := by
    simp only [ulongResults, List.forall_mem_cons, List.not_mem_nil, false_imp_iff, implies_true,
      and_true]
    omega
  rw [hulong]
  simp only [Rounded, Family.ageUnit, AgeingExact]
  by_cases hsum : m * 625 + 127000 < 2 ^ 32
  · have hunits : (m * 625 + 127000) / 128000 = t := by omega
    have hmin : min t (2 ^ 23 - 1) = t := by omega
    clear ht
    rw [hmin]
    omega
  · omega

/-- On the RTL839x so does it, and 199 milliseconds are none. -/
theorem rounded839x_iff {m t : Nat} (ht : (m * 5 % 2 ^ 32 + 2000) % 2 ^ 32 / 3000 = t) :
    (∀ x ∈ ulongResults .rtl839x m, x < 2 ^ 32) ∧
      Rounded .rtl839x m (min t (2 ^ 21 - 1) * 3 / 5) ∧ (m ≠ 0 → min t (2 ^ 21 - 1) ≠ 0) ↔
        AgeingExact .rtl839x m := by
  have hulong : (∀ x ∈ ulongResults .rtl839x m, x < 2 ^ 32) ↔ m * 5 + 2000 < 2 ^ 32 := by
    simp only [ulongResults, List.forall_mem_cons, List.not_mem_nil, false_imp_iff, implies_true,
      and_true]
    omega
  rw [hulong]
  simp only [Rounded, Family.ageUnit, AgeingExact]
  by_cases hsum : m * 5 + 2000 < 2 ^ 32
  · have hunits : (m * 5 + 2000) / 3000 = t := by omega
    have hmin : min t (2 ^ 21 - 1) = t := by omega
    clear ht
    rw [hmin]
    omega
  · omega

/-- The tenths of a second that the RTL930x keeps. -/
theorem tenths930x : ∀ q < 156, (((q - 7) / 10 ≤ (q + 6) / 7 * 3 / 5 ∧
      (q + 6) / 7 * 3 / 5 ≤ (q + 7) / 10) ∧ q ≠ 0) ↔
    1 ≤ q ∧ q ≤ 76 ∨ 78 ≤ q ∧ q ≤ 86 ∨ 92 ≤ q ∧ q ≤ 96 ∨
      99 ≤ q ∧ q ≤ 106 ∨ 113 ≤ q ∧ q ≤ 116 ∨ 134 ≤ q ∧ q ≤ 136 := by
  decide +kernel

/-- On the RTL930x 13.7 seconds are too long: the units are counted as shorter ones. -/
theorem rounded930x_iff {m t : Nat} (ht : (m / 100 + 6) / 7 = t) (hm : m < 2 ^ 32) :
    Rounded .rtl930x m (min t (2 ^ 21 - 1) * 3 / 5) ∧ (m ≠ 0 → min t (2 ^ 21 - 1) ≠ 0) ↔
      AgeingExact .rtl930x m := by
  simp only [Rounded, Family.ageUnit, AgeingExact]
  by_cases hlong : 15600 ≤ m
  · have hle : min t (2 ^ 21 - 1) ≤ t := min_le_left _ _
    generalize min t (2 ^ 21 - 1) = u at hle
    omega
  · have hmin : min t (2 ^ 21 - 1) = t := by omega
    rw [hmin]
    by_cases hzero : m = 0
    · subst hzero ht
      decide
    · -- only the tenths of a second count
      have hlow : (10 * m - 7000) / 10000 = (m / 100 - 7) / 10 := by omega
      have hhigh : (10 * m + 7000) / 10000 = (m / 100 + 7) / 10 := by omega
      have hon : (m ≠ 0 → t ≠ 0) ↔ m / 100 ≠ 0 := by omega
      rw [hon, hlow, hhigh, ← ht, tenths930x _ (by omega)]
      omega

/-- And those of the RTL931x. -/
theorem tenths931x : ∀ q < 156, (((q - 8) / 10 ≤ (q + 7) / 8 * 3 / 5 ∧
      (q + 7) / 8 * 3 / 5 ≤ (q + 8) / 10) ∧ q ≠ 0) ↔
    1 ≤ q ∧ q ≤ 47 ∨ 49 ≤ q ∧ q ≤ 57 ∨ 65 ≤ q ∧ q ≤ 67 ∨ 73 ≤ q ∧ q ≤ 77 := by
  decide +kernel

/-- And 7.8 seconds on the RTL931x. -/
theorem rounded931x_iff {m t : Nat} (ht : (m / 100 + 7) / 8 = t) (hm : m < 2 ^ 32) :
    Rounded .rtl931x m (min t (2 ^ 21 - 1) * 3 / 5) ∧ (m ≠ 0 → min t (2 ^ 21 - 1) ≠ 0) ↔
      AgeingExact .rtl931x m := by
  simp only [Rounded, Family.ageUnit, AgeingExact]
  by_cases hlong : 15600 ≤ m
  · have hle : min t (2 ^ 21 - 1) ≤ t := min_le_left _ _
    generalize min t (2 ^ 21 - 1) = u at hle
    omega
  · have hmin : min t (2 ^ 21 - 1) = t := by omega
    rw [hmin]
    by_cases hzero : m = 0
    · subst hzero ht
      decide
    · -- only the tenths of a second count
      have hlow : (10 * m - 8000) / 10000 = (m / 100 - 8) / 10 := by omega
      have hhigh : (10 * m + 8000) / 10000 = (m / 100 + 8) / 10 := by omega
      have hon : (m ≠ 0 → t ≠ 0) ↔ m / 100 ≠ 0 := by omega
      rw [hon, hlow, hhigh, ← ht, tenths931x _ (by omega)]
      omega

/-- For every time that a caller can ask for. -/
theorem ageing_exact_iff (f : Family) (reg msec : BitVec 32) :
    AgeingKept f reg msec ↔ AgeingExact f msec.toNat := by
  rw [ageingKept_iff f reg msec rfl]
  have hlt := msec.isLt
  cases f with
  | rtl838x =>
    have hmul : (625 : BitVec 32).toNat = 625 := by decide
    have hadd : (127000 : BitVec 32).toNat = 127000 := by decide
    have hdiv : (128000 : BitVec 32).toNat = 128000 := by decide
    have hunits : (ageUnits .rtl838x msec).toNat =
        (msec.toNat * 625 % 2 ^ 32 + 127000) % 2 ^ 32 / 128000 := by
      rw [ageUnits, BitVec.toNat_udiv, BitVec.toNat_add, BitVec.toNat_mul, hmul, hadd, hdiv]
    simp only [Family.highResL2Age, Family.ageUnitBits, if_true]
    exact rounded838x_iff hunits.symm
  | rtl839x =>
    have hunits : (ageUnits .rtl839x msec).toNat =
        (msec.toNat * 5 % 2 ^ 32 + 2000) % 2 ^ 32 / 3000 := by
      simp [ageUnits, BitVec.toNat_udiv, BitVec.toNat_add, BitVec.toNat_mul]
    simp only [Family.highResL2Age, Family.ageUnitBits, Bool.false_eq_true, if_false]
    exact rounded839x_iff hunits.symm
  | rtl930x =>
    have hunits : (ageUnits .rtl930x msec).toNat = (msec.toNat / 100 + 6) / 7 := by
      simp [ageUnits, BitVec.toNat_udiv, BitVec.toNat_add]
      omega
    have hulong : ∀ x ∈ ulongResults .rtl930x msec.toNat, x < 2 ^ 32 := by
      simp only [ulongResults, List.mem_singleton, forall_eq]
      omega
    rw [hunits, ← rounded930x_iff rfl hlt]
    simp only [Family.highResL2Age, Family.ageUnitBits, Bool.false_eq_true, if_false]
    exact and_iff_right hulong
  | rtl931x =>
    have hunits : (ageUnits .rtl931x msec).toNat = (msec.toNat / 100 + 7) / 8 := by
      simp [ageUnits, BitVec.toNat_udiv, BitVec.toNat_add]
      omega
    have hulong : ∀ x ∈ ulongResults .rtl931x msec.toNat, x < 2 ^ 32 := by
      simp only [ulongResults, List.mem_singleton, forall_eq]
      omega
    rw [hunits, ← rounded931x_iff rfl hlt]
    simp only [Family.highResL2Age, Family.ageUnitBits, Bool.false_eq_true, if_false]
    exact and_iff_right hulong

/-- Five minutes, the default of a bridge, are read back as 257 seconds on the RTL930x. -/
theorem fiveMinutes_not_kept : ¬AgeingKept .rtl930x 0 300000 := by
  intro h
  have hback : getAgeingTime .rtl930x (setAgeingTime .rtl930x 0 300000) = 257 := by decide +kernel
  have hle := h.back.1
  rw [hback] at hle
  revert hle
  decide +kernel

end Lede.Otto
