/-
Lede.Lib.Ternary — fields that are compared under a mask.

A matching engine compares a value with the data of an entry in the bits of a mask. `agrees_iff`
says so bit by bit; a field of several words agrees when each of its words does
(`agrees_iff_chunks`).
-/
import Lede.Lib.BitField

namespace Lede.Lib.Ternary

open Lede.Lib.BitField

/-- What a value is compared with, and in which bits. -/
structure Field (w : Nat) where
  data : BitVec w := 0
  mask : BitVec w := 0
deriving DecidableEq, Repr

variable {w : Nat}

/-- The value has the data of the field under its mask. -/
def Field.Agrees (t : Field w) (v : BitVec w) : Prop := v &&& t.mask = t.data &&& t.mask

instance (t : Field w) (v : BitVec w) : Decidable (t.Agrees v) :=
  inferInstanceAs (Decidable (_ = _))

theorem agrees_iff {t : Field w} {v : BitVec w} :
    t.Agrees v ↔ ∀ i < w, t.mask.getLsbD i = true → v.getLsbD i = t.data.getLsbD i := by
  constructor
  · intro h i _ hm
    have := congrArg (fun x => BitVec.getLsbD x i) h
    simpa [hm] using this
  · intro h
    apply BitVec.eq_of_getLsbD_eq
    intro i hi
    cases hm : t.mask.getLsbD i with
    | false => simp [hm]
    | true => simp [hm, h i hi hm]

/-- A field without a mask is no criterion. -/
theorem agrees_of_mask {t : Field w} (h : t.mask = 0) (v : BitVec w) : t.Agrees v := by
  simp [Field.Agrees, h]

@[simp] theorem agrees_default (v : BitVec w) : (Field.Agrees {} v) := agrees_of_mask rfl v

/-- The data under the mask. -/
def Field.value (t : Field w) : BitVec w := t.data &&& t.mask

/-- It is a value that agrees. -/
theorem agrees_value (t : Field w) : t.Agrees t.value := by
  simp [Field.Agrees, Field.value, BitVec.and_assoc]

/-- A value that shows no bit where the other one shows none cannot agree with a bit there. -/
theorem value_shiftRight {t : Field w} {v : BitVec w} (h : t.Agrees v) {n : Nat}
    (hv : v >>> n = 0) : t.value >>> n = 0 := by
  rw [Field.value, ← h, BitVec.ushiftRight_and_distrib, hv]
  exact BitVec.zero_and

@[simp] theorem agrees_data (t : Field w) : t.Agrees t.data := rfl

/-- A field in the low bits of a wider value. -/
theorem agrees_setWidth_iff {n : Nat} (hn : w ≤ n) (t : Field w) (v : BitVec n) :
    Field.Agrees { data := t.data.setWidth n, mask := t.mask.setWidth n } v ↔
      t.Agrees (v.setWidth w) := by
  simp only [agrees_iff, BitVec.getLsbD_setWidth]
  constructor
  · intro h i hi hm
    have hi' : i < n := by omega
    have := h i hi'
    simp only [hi', hi, decide_true, Bool.true_and] at this ⊢
    exact this hm
  · intro h i hi hm
    simp only [hi, decide_true, Bool.true_and] at hm ⊢
    have hlt : i < w := BitVec.lt_of_getLsbD hm
    have := h i hlt hm
    simpa only [hlt, decide_true, Bool.true_and] using this

/-- The word `k` of a value, of 16 bits. -/
def chunk (k : Nat) (x : BitVec w) : BitVec 16 := (x >>> (16 * k)).setWidth 16

/-- The word `k` of a field. -/
def Field.chunk (k : Nat) (t : Field w) : Field 16 :=
  { data := Ternary.chunk k t.data, mask := Ternary.chunk k t.mask }

theorem getLsbD_chunk (k : Nat) (x : BitVec w) (i : Nat) :
    (chunk k x).getLsbD i = (decide (i < 16) && x.getLsbD (16 * k + i)) := by
  simp [chunk]

/-- A field agrees when each of its words does. -/
theorem agrees_iff_chunks {n : Nat} (hw : w = 16 * n) {t : Field w} {v : BitVec w} :
    t.Agrees v ↔ ∀ k < n, (t.chunk k).Agrees (chunk k v) := by
  simp only [agrees_iff, Field.chunk, getLsbD_chunk]
  constructor
  · intro h k hk i hi hm
    simp only [hi, decide_true, Bool.true_and] at hm ⊢
    exact h (16 * k + i) (by omega) hm
  · intro h i hi hm
    have hlt : i % 16 < 16 := Nat.mod_lt _ (by omega)
    have := h (i / 16) (by omega) (i % 16) hlt
    simpa [hlt, Nat.div_add_mod, hm] using this

/-- So a field with a criterion may be compared in the words that are at hand, if they are all
its words. -/
theorem agrees_iff_words {n : Nat} (hw : w = 16 * n) {t : Field w} {v : BitVec w}
    {has : Nat → Prop} (hall : t.mask ≠ 0 → ∀ k < n, has k) (hlt : ∀ k, has k → k < n) :
    (∀ k, has k → (t.chunk k).Agrees (chunk k v)) ↔ t.Agrees v := by
  by_cases hm : t.mask = 0
  · have hzero : ∀ k, (t.chunk k).mask = 0 := by
      intro k
      simp [Field.chunk, Ternary.chunk, hm]
    exact iff_of_true (fun k _ => agrees_of_mask (hzero k) _) (agrees_of_mask hm v)
  · rw [agrees_iff_chunks hw]
    exact ⟨fun h k hk => h k (hall hm k hk), fun h k hk => h k (hlt k hk)⟩

/-- The low half of a value has its first words. -/
theorem chunk_setWidth {v : Nat} {n k : Nat} (hk : k < n) (x : BitVec v) :
    chunk k (x.setWidth (16 * n)) = chunk k x := by
  apply BitVec.eq_of_getLsbD_eq
  intro i hi
  have hlt : 16 * k + i < 16 * n := by omega
  simp [getLsbD_chunk, hlt]

end Lede.Lib.Ternary
