/-
Lede.Lib.Packed — words put together from fields.

A driver ors the fields of a record into a word, each cut to its width and
shifted to its place. `pack` is that word for a list of parts; when the parts
lie apart every one of them is read back (`read_pack`, `getLsbD_pack_flag`).
Whether they lie apart is decided from their places alone.
-/
import Lede.Lib.BitField

namespace Lede.Lib.Packed

open Lede.Lib.BitField

/-- A field of a word. -/
structure Part (n : Nat) where
  pos : Nat
  width : Nat
  val : BitVec n

variable {n : Nat}

/-- The field in its place. -/
def Part.word (x : Part n) : BitVec n := (x.val &&& low x.width) <<< x.pos

theorem word_mk (pos width : Nat) (val : BitVec n) :
    (⟨pos, width, val⟩ : Part n).word = (val &&& low width) <<< pos := rfl

def pack (xs : List (Part n)) : BitVec n := xs.foldl (fun v x => v ||| x.word) 0

theorem pack_cons (x : Part n) (xs : List (Part n)) :
    pack (x :: xs) = xs.foldl (fun v x => v ||| x.word) x.word := by
  rw [pack, List.foldl_cons, show (0 : BitVec n) ||| x.word = x.word from BitVec.zero_or]

/-- One field ends before the other begins. -/
def Apart (x y : Part n) : Prop := x.pos + x.width ≤ y.pos ∨ y.pos + y.width ≤ x.pos

instance (x y : Part n) : Decidable (Apart x y) :=
  inferInstanceAs (Decidable (_ ∨ _))

/-- The fields lie apart and inside the word. -/
def Laid (xs : List (Part n)) : Prop := xs.Pairwise Apart ∧ ∀ x ∈ xs, x.pos + x.width ≤ n

instance (xs : List (Part n)) : Decidable (Laid xs) := inferInstanceAs (Decidable (_ ∧ _))

/-- Only the places and the widths matter for it. -/
theorem laid_of_spans {xs : List (Part n)} (s : List (Nat × Nat))
    (hs : xs.map (fun x => (x.pos, x.width)) = s)
    (h : s.Pairwise (fun a b => a.1 + a.2 ≤ b.1 ∨ b.1 + b.2 ≤ a.1) ∧ ∀ a ∈ s, a.1 + a.2 ≤ n) :
    Laid xs := by
  rw [← hs, List.pairwise_map] at h
  exact ⟨h.1, fun x hx => h.2 _ (List.mem_map_of_mem hx)⟩

/-- `b ? BIT(pos) : 0` as a field. -/
def flagPart (pos : Nat) (b : Bool) : Part 32 := ⟨pos, 1, if b then 1 else 0⟩

theorem flagPart_word (pos : Nat) (b : Bool) : (flagPart pos b).word = flag pos b := by
  cases b with
  | false => simp [flagPart, Part.word, flag]
  | true =>
    apply BitVec.eq_of_getLsbD_eq
    intro i hi
    simp only [flagPart, Part.word, flag, if_true, BitVec.getLsbD_shiftLeft, BitVec.getLsbD_and,
      getLsbD_low, BitVec.getLsbD_twoPow]
    grind

section Read

variable {xs : List (Part n)} {x y : Part n} {i : Nat}

theorem getLsbD_word :
    x.word.getLsbD i =
      (decide (i < n) && decide (x.pos ≤ i) && decide (i < x.pos + x.width) &&
        x.val.getLsbD (i - x.pos)) := by
  simp only [Part.word, BitVec.getLsbD_shiftLeft, BitVec.getLsbD_and, getLsbD_low]
  grind

theorem getLsbD_foldl (v : BitVec n) :
    (xs.foldl (fun v x => v ||| x.word) v).getLsbD i =
      (v.getLsbD i || xs.any (·.word.getLsbD i)) := by
  induction xs generalizing v with
  | nil => simp
  | cons x xs ih => simp [ih, Bool.or_assoc]

theorem getLsbD_pack : (pack xs).getLsbD i = xs.any (·.word.getLsbD i) := by
  simp [pack, getLsbD_foldl]

/-- A field has no bit inside another one. -/
theorem Apart.word_eq_false (h : Apart x y) (hi : i < x.width) :
    y.word.getLsbD (x.pos + i) = false := by
  rw [getLsbD_word]
  unfold Apart at h
  grind

theorem Apart.symm (h : Apart x y) : Apart y x := Or.symm h

theorem any_word (h : xs.Pairwise Apart) (hx : x ∈ xs) (hi : i < x.width) :
    xs.any (·.word.getLsbD (x.pos + i)) = x.word.getLsbD (x.pos + i) := by
  induction xs with
  | nil => cases hx
  | cons z xs ih =>
    rw [List.pairwise_cons] at h
    rw [List.any_cons]
    rcases List.mem_cons.1 hx with rfl | hmem
    · have hrest : xs.any (·.word.getLsbD (x.pos + i)) = false := by
        rw [List.any_eq_false]
        intro y hy
        rw [(h.1 y hy).word_eq_false hi]
        exact Bool.false_ne_true
      rw [hrest, Bool.or_false]
    · rw [ih h.2 hmem, (h.1 x hmem).symm.word_eq_false hi, Bool.false_or]

/-- A field is read back, cut to its width. -/
theorem read_pack (h : Laid xs) (hx : x ∈ xs) :
    (pack xs >>> x.pos) &&& low x.width = x.val &&& low x.width := by
  apply BitVec.eq_of_getLsbD_eq
  intro i hi
  have hn := h.2 x hx
  simp only [BitVec.getLsbD_and, BitVec.getLsbD_ushiftRight, getLsbD_low]
  by_cases hw : i < x.width
  · rw [getLsbD_pack, any_word h.1 hx hw, getLsbD_word]
    have hpos : x.pos + i < n := by omega
    have hw' : x.pos + i < x.pos + x.width := by omega
    simp [hi, hw, hpos, hw']
  · simp [hw]

/-- A flag is read back. -/
theorem getLsbD_pack_flag {xs : List (Part 32)} {pos : Nat} {b : Bool} (h : Laid xs)
    (hx : flagPart pos b ∈ xs) : (pack xs).getLsbD pos = b := by
  have hany := any_word (i := 0) h.1 hx Nat.one_pos
  have hn : pos + 1 ≤ 32 := h.2 _ hx
  rw [getLsbD_pack]
  simp only [Nat.add_zero, flagPart_word] at hany
  rw [show (flagPart pos b).pos = pos from rfl] at hany
  rw [hany, getLsbD_flag]
  simp [Nat.lt_of_succ_le hn]

/-- A value that fits a field is not cut. -/
theorem and_low_of_lt {v : BitVec n} {w : Nat} (h : v.toNat < 2 ^ w) : v &&& low w = v := by
  apply BitVec.eq_of_getLsbD_eq
  intro i hi
  rw [BitVec.getLsbD_and, getLsbD_low]
  by_cases hw : i < w
  · simp [hi, hw]
  · simp [getLsbD_eq_false h i (Nat.le_of_not_lt hw)]

/-- And only such a value is not. -/
theorem and_low_eq_iff {v : BitVec n} {w : Nat} : v &&& low w = v ↔ v.toNat < 2 ^ w := by
  refine ⟨fun h => ?_, and_low_of_lt⟩
  apply toNat_lt_of_getLsbD
  intro i hi
  rw [← h, BitVec.getLsbD_and, getLsbD_low]
  simp [Nat.not_lt.2 hi]

end Read

end Lede.Lib.Packed
