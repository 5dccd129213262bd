/-
Lede.Lib.Decimal — facts about the decimal text of a number.

`Nat.toDigits 10` writes a number and `Nat.ofDigitChars 10` reads one. What is
said here is what a scanner needs: the text of two and three digit numbers, and
that no text starts with a zero unless it is the text of zero.
-/
import Mathlib.Algebra.Group.Nat.Defs
import Mathlib.Tactic.Common

namespace Lede.Lib

theorem digitChar_toNat_sub {c : Char} (h : 48 ≤ c.toNat) (h' : c.toNat ≤ 57) :
    Nat.digitChar (c.toNat - 48) = c := by
  apply Char.toNat_inj.mp
  rw [Nat.toNat_digitChar_of_lt_ten (by omega)]
  omega

theorem isDigit_of_mem {c : Char} {v : Nat} (h : c ∈ Nat.toDigits 10 v) : c.isDigit = true :=
  Nat.isDigit_of_mem_toDigits (by decide) (by decide) h

theorem toDigits_two {a b : Nat} (ha : 0 < a) (ha' : a < 10) (hb : b < 10) :
    Nat.toDigits 10 (10 * a + b) = [Nat.digitChar a, Nat.digitChar b] := by
  rw [← Nat.toDigits_append_toDigits (by decide) ha hb, Nat.toDigits_of_lt_base ha',
    Nat.toDigits_of_lt_base hb]
  rfl

theorem toDigits_three {a b c : Nat} (ha : 0 < a) (ha' : a < 10) (hb : b < 10) (hc : c < 10) :
    Nat.toDigits 10 (100 * a + 10 * b + c) =
      [Nat.digitChar a, Nat.digitChar b, Nat.digitChar c] := by
  have h : 100 * a + 10 * b + c = 10 * (10 * a + b) + c := by omega
  rw [h, ← Nat.toDigits_append_toDigits (by decide) (by omega) hc, toDigits_two ha ha' hb,
    Nat.toDigits_of_lt_base hc]
  rfl

/-- Only the text of zero starts with a zero. -/
theorem toDigits_head {v : Nat} (hv : 0 < v) : (Nat.toDigits 10 v).head? ≠ some '0' := by
  induction v using Nat.strongRecOn with
  | ind v ih =>
    rw [Nat.toDigits_eq_if (by decide)]
    split
    · next hlt =>
      intro h
      have hall : ∀ d < 10, 0 < d → Nat.digitChar d ≠ '0' := by decide
      exact hall v hlt hv (by simpa using h)
    · rw [List.head?_append, List.head?_eq_some_head Nat.toDigits_ne_nil, Option.some_or,
        ← List.head?_eq_some_head]
      exact ih _ (by omega) (by omega)

/-- Digits that do not start with a zero are the text of their number. -/
theorem toDigits_ofDigitChars {cs : List Char} (hne : cs ≠ [])
    (hd : ∀ c ∈ cs, c.isDigit = true) (h0 : cs.head? ≠ some '0') :
    Nat.toDigits 10 (Nat.ofDigitChars 10 cs 0) = cs := by
  have digit : ∀ {c : Char}, c.isDigit = true → 48 ≤ c.toNat ∧ c.toNat ≤ 57 := by
    intro c h
    simp only [Char.isDigit, Bool.and_eq_true, decide_eq_true_eq] at h
    exact ⟨UInt32.le_iff_toNat_le.mp h.1, UInt32.le_iff_toNat_le.mp h.2⟩
  -- the digits read so far make a number that is not zero
  have append : ∀ (ds : List Char) (v : Nat), 0 < v → (∀ c ∈ ds, c.isDigit = true) →
      Nat.toDigits 10 (Nat.ofDigitChars 10 ds v) = Nat.toDigits 10 v ++ ds := by
    intro ds
    induction ds with
    | nil => simp
    | cons c ds ih =>
      intro v hv hds
      have hc := digit (hds c (List.mem_cons_self ..))
      have hz : '0'.toNat = 48 := rfl
      rw [Nat.ofDigitChars_cons, ih _ (by omega) fun d hd => hds d (List.mem_cons_of_mem c hd),
        ← Nat.toDigits_append_toDigits (by decide) hv (by omega),
        Nat.toDigits_of_lt_base (n := c.toNat - '0'.toNat) (by omega), hz,
        digitChar_toNat_sub hc.1 hc.2, List.append_assoc]
      rfl
  obtain ⟨c, ds, rfl⟩ := List.exists_cons_of_ne_nil hne
  have hc := digit (hd c (List.mem_cons_self ..))
  have hz : '0'.toNat = 48 := rfl
  have hpos : 0 < c.toNat - 48 := by
    by_contra hzero
    have : c = '0' := Char.toNat_inj.mp (by omega)
    exact h0 (by rw [this]; rfl)
  rw [Nat.ofDigitChars_cons, Nat.mul_zero, Nat.zero_add, hz,
    append ds _ hpos fun d hd' => hd d (List.mem_cons_of_mem c hd'),
    Nat.toDigits_of_lt_base (by omega), digitChar_toNat_sub hc.1 hc.2]
  rfl

end Lede.Lib
