/-
Lede.Lib.Checksum — 16-bit words in a byte memory, in the byte order of the
machine, and their ones' complement sum.

The Internet checksum adds 16-bit words with the carry added back in at the low
end. A sum of words and its ones' complement sum agree modulo 65535; of the two
numbers below 65536 that are 0 there, the sum is 0 only if every word is
(`onesSum_eq`). A program that adds in a wider type and folds the carries back
computes the same number (`fold16_fold16`), so checksums can be argued about as
plain sums modulo 65535.

The words are loaded and stored in the order of the machine, `little` or `big`.
Nothing here depends on which.
-/
import Mathlib.Algebra.GroupWithZero.Nat
import Mathlib.Tactic.Common

namespace Lede.Lib

/-! ## Ones' complement sums -/

/-- `(x & 0xffff) + (x >> 16)`. -/
def fold16 (x : Nat) : Nat := x % 65536 + x / 65536

/-- The ones' complement sum of words. -/
def onesSum (ws : List Nat) : Nat := ws.foldl (fun s w => fold16 (s + w)) 0

/-- The number from 1 to 65535 with the residue of `x` modulo 65535, and 0 for 0. -/
def onesRep (x : Nat) : Nat := if x = 0 then 0 else (x - 1) % 65535 + 1

theorem onesRep_le (x : Nat) : onesRep x ≤ 65535 := by
  unfold onesRep
  split
  · omega
  · omega

theorem onesRep_of_lt {x : Nat} (h : x < 65536) : onesRep x = x := by
  unfold onesRep
  split
  · omega
  · omega

theorem onesRep_mod (x : Nat) : onesRep x % 65535 = x % 65535 := by
  unfold onesRep
  split
  · omega
  · omega

/-- Among the sums of a word at least, the residue decides. -/
theorem onesRep_eq_iff {x y : Nat} (hx : 0 < x) (hy : 0 < y) :
    onesRep x = onesRep y ↔ x % 65535 = y % 65535 := by
  unfold onesRep
  rw [if_neg (by omega), if_neg (by omega)]
  omega

theorem onesRep_pos {x : Nat} (hx : 0 < x) : 0 < onesRep x := by
  unfold onesRep
  rw [if_neg (by omega)]
  omega

theorem onesRep_eq_ones_iff {x : Nat} (hx : 0 < x) : onesRep x = 65535 ↔ x % 65535 = 0 := by
  unfold onesRep
  rw [if_neg (by omega)]
  omega

/-- One fold is enough for two words. -/
theorem fold16_eq {x : Nat} (h : x ≤ 131070) : fold16 x = onesRep x := by
  unfold fold16 onesRep
  split
  · omega
  · omega

/-- Two folds are enough for a number of 32 bits. -/
theorem fold16_fold16 {x : Nat} (h : x < 2 ^ 32) : fold16 (fold16 x) = onesRep x := by
  unfold fold16 onesRep
  split
  · omega
  · omega

theorem foldl_fold16 : ∀ (ws : List Nat) (s : Nat), s < 65536 → (∀ w ∈ ws, w < 65536) →
    ws.foldl (fun s w => fold16 (s + w)) s = onesRep (s + ws.sum)
  | [], s, hs, _ => by
      rw [List.foldl_nil, List.sum_nil, Nat.add_zero, onesRep_of_lt hs]
  | w :: ws, s, hs, hw => by
      have hw₀ := hw w (by simp)
      have hstep : fold16 (s + w) = onesRep (s + w) := fold16_eq (by omega)
      have hlt := onesRep_le (s + w)
      have ih := foldl_fold16 ws (onesRep (s + w)) (by omega) fun v hv => hw v (by simp [hv])
      rw [List.foldl_cons, hstep, ih, List.sum_cons]
      have hmod := onesRep_mod (s + w)
      rcases Nat.eq_zero_or_pos (s + w) with h0 | h0
      · have hzero : onesRep (s + w) = 0 := by rw [h0]; rfl
        rw [hzero]
        congr 1
        omega
      · have hpos := onesRep_pos h0
        rw [onesRep_eq_iff (by omega) (by omega)]
        omega

/-- The ones' complement sum, from the plain sum. -/
theorem onesSum_eq {ws : List Nat} (h : ∀ w ∈ ws, w < 65536) : onesSum ws = onesRep ws.sum := by
  unfold onesSum
  rw [foldl_fold16 ws 0 (by omega) h, Nat.zero_add]

/-! ## Words in memory -/

/-- The byte order of a machine. -/
inductive Endian where
  | little
  | big
  deriving DecidableEq, Repr

section Memory

variable (e : Endian) (m : Nat → UInt8)

/-- A load of 16 bits. -/
def ld16 (a : Nat) : BitVec 16 :=
  match e with
  | .little => BitVec.ofNat 16 ((m (a + 1)).toNat * 256 + (m a).toNat)
  | .big => BitVec.ofNat 16 ((m a).toNat * 256 + (m (a + 1)).toNat)

/-- A load of 32 bits. -/
def ld32 (a : Nat) : BitVec 32 :=
  match e with
  | .little => BitVec.ofNat 32 ((ld16 e m (a + 2)).toNat * 65536 + (ld16 e m a).toNat)
  | .big => BitVec.ofNat 32 ((ld16 e m a).toNat * 65536 + (ld16 e m (a + 2)).toNat)

/-- A store of 16 bits. -/
def st16 (a : Nat) (v : BitVec 16) : Nat → UInt8 := fun i =>
  if i = a then
    match e with
    | .little => UInt8.ofNat (v.toNat % 256)
    | .big => UInt8.ofNat (v.toNat / 256)
  else if i = a + 1 then
    match e with
    | .little => UInt8.ofNat (v.toNat / 256)
    | .big => UInt8.ofNat (v.toNat % 256)
  else m i

/-- A store of 32 bits. -/
def st32 (a : Nat) (v : BitVec 32) : Nat → UInt8 :=
  match e with
  | .little => st16 e (st16 e m a (BitVec.ofNat 16 (v.toNat % 65536))) (a + 2)
      (BitVec.ofNat 16 (v.toNat / 65536))
  | .big => st16 e (st16 e m a (BitVec.ofNat 16 (v.toNat / 65536))) (a + 2)
      (BitVec.ofNat 16 (v.toNat % 65536))

/-- A load of 16 bits in network order, as `ntohs` gives it. -/
def be16 (a : Nat) : Nat := (m a).toNat * 256 + (m (a + 1)).toNat

/-- A load of 32 bits in network order, as `ntohl` gives it. -/
def be32 (a : Nat) : BitVec 32 := BitVec.ofNat 32 (be16 m a * 65536 + be16 m (a + 2))

end Memory

section MemoryLemmas

variable {e : Endian} {m m' : Nat → UInt8}

theorem ld16_congr {a : Nat} (h₀ : m' a = m a) (h₁ : m' (a + 1) = m (a + 1)) :
    ld16 e m' a = ld16 e m a := by
  unfold ld16
  rw [h₀, h₁]

theorem ld32_congr {a : Nat} (h : ∀ i < 4, m' (a + i) = m (a + i)) : ld32 e m' a = ld32 e m a := by
  have hlo : ld16 e m' a = ld16 e m a := ld16_congr (h 0 (by omega)) (h 1 (by omega))
  have hhi : ld16 e m' (a + 2) = ld16 e m (a + 2) := ld16_congr (h 2 (by omega)) (h 3 (by omega))
  unfold ld32
  rw [hlo, hhi]

theorem st16_of_ne {a i : Nat} (v : BitVec 16) (h₀ : i ≠ a) (h₁ : i ≠ a + 1) :
    st16 e m a v i = m i := by
  unfold st16
  rw [if_neg h₀, if_neg h₁]

theorem ld16_st16_self (a : Nat) (v : BitVec 16) : ld16 e (st16 e m a v) a = v := by
  have hv := v.isLt
  have h₁ : ¬ a + 1 = a := by omega
  apply BitVec.eq_of_toNat_eq
  cases e with
  | little =>
    simp only [ld16, st16, if_true, h₁, if_false, BitVec.toNat_ofNat, UInt8.toNat_ofNat']
    omega
  | big =>
    simp only [ld16, st16, if_true, h₁, if_false, BitVec.toNat_ofNat, UInt8.toNat_ofNat']
    omega

theorem ld16_st16_of_ne {a b : Nat} (v : BitVec 16) (h : b + 2 ≤ a ∨ a + 2 ≤ b) :
    ld16 e (st16 e m a v) b = ld16 e m b :=
  ld16_congr (st16_of_ne v (by omega) (by omega)) (st16_of_ne v (by omega) (by omega))

theorem st32_of_lt {a i : Nat} (v : BitVec 32) (h : i < a ∨ a + 4 ≤ i) : st32 e m a v i = m i := by
  cases e with
  | little => rw [st32, st16_of_ne _ (by omega) (by omega), st16_of_ne _ (by omega) (by omega)]
  | big => rw [st32, st16_of_ne _ (by omega) (by omega), st16_of_ne _ (by omega) (by omega)]

theorem ld16_st32_of_ne {a b : Nat} (v : BitVec 32) (h : b + 2 ≤ a ∨ a + 4 ≤ b) :
    ld16 e (st32 e m a v) b = ld16 e m b :=
  ld16_congr (st32_of_lt v (by omega)) (st32_of_lt v (by omega))

theorem ld32_st16_of_ne {a b : Nat} (v : BitVec 16) (h : b + 4 ≤ a ∨ a + 2 ≤ b) :
    ld32 e (st16 e m a v) b = ld32 e m b :=
  ld32_congr fun i hi => st16_of_ne v (by omega) (by omega)

theorem ld32_st32_self (a : Nat) (v : BitVec 32) : ld32 e (st32 e m a v) a = v := by
  have hv := v.isLt
  apply BitVec.eq_of_toNat_eq
  cases e with
  | little =>
    simp only [ld32, st32, ld16_st16_self, ld16_st16_of_ne _ (Or.inl (Nat.le_refl (a + 2))),
      BitVec.toNat_ofNat]
    omega
  | big =>
    simp only [ld32, st32, ld16_st16_self, ld16_st16_of_ne _ (Or.inl (Nat.le_refl (a + 2))),
      BitVec.toNat_ofNat]
    omega

/-- The two halves of a load of 32 bits are its two words, in one order or the
other. -/
theorem ld32_halves (a : Nat) : (ld32 e m a).toNat / 65536 + (ld32 e m a).toNat % 65536
    = (ld16 e m a).toNat + (ld16 e m (a + 2)).toNat := by
  have h₀ := (ld16 e m a).isLt
  have h₁ := (ld16 e m (a + 2)).isLt
  cases e with
  | little =>
    simp only [ld32, BitVec.toNat_ofNat]
    omega
  | big =>
    simp only [ld32, BitVec.toNat_ofNat]
    omega

/-- A load of 32 bits in network order is what a big-endian machine does. -/
theorem be32_eq (m : Nat → UInt8) (a : Nat) : be32 m a = ld32 .big m a := by
  have hword : ∀ b, be16 m b = (ld16 .big m b).toNat := by
    intro b
    have hb₀ := (m b).toNat_lt
    have hb₁ := (m (b + 1)).toNat_lt
    rw [be16, ld16, BitVec.toNat_ofNat]
    omega
  rw [be32, ld32, hword, hword]

theorem be32_congr {a : Nat} (h : ∀ i < 4, m' (a + i) = m (a + i)) : be32 m' a = be32 m a := by
  rw [be32_eq, be32_eq, ld32_congr h]

/-- Stores of 32 bits in network order, one after the other. -/
def stores (ps : List (Nat × BitVec 32)) (m : Nat → UInt8) : Nat → UInt8 :=
  ps.foldl (fun m p => st32 .big m p.1 p.2) m

theorem stores_of_lt : ∀ (ps : List (Nat × BitVec 32)) (m : Nat → UInt8) {i : Nat},
    (∀ p ∈ ps, i < p.1 ∨ p.1 + 4 ≤ i) → stores ps m i = m i
  | [], _, _, _ => rfl
  | p :: ps, m, i, h => by
      have hp : st32 .big m p.1 p.2 i = m i := st32_of_lt _ (h p (by simp))
      exact (stores_of_lt ps _ fun q hq => h q (by simp [hq])).trans hp

/-- Stores that do not overlap can all be read back. -/
theorem be32_stores : ∀ (ps : List (Nat × BitVec 32)) (m : Nat → UInt8),
    ps.Pairwise (fun p q => p.1 + 4 ≤ q.1 ∨ q.1 + 4 ≤ p.1) → ∀ p ∈ ps, be32 (stores ps m) p.1 = p.2
  | q :: ps, m, h, p, hp => by
      rw [List.pairwise_cons] at h
      rcases List.mem_cons.mp hp with rfl | hp
      · have hrest : be32 (stores (p :: ps) m) p.1 = be32 (st32 .big m p.1 p.2) p.1 :=
          be32_congr fun i hi => stores_of_lt ps _ fun r hr => by
            have hdis := h.1 r hr
            omega
        rw [hrest, be32_eq, ld32_st32_self]
      · exact be32_stores ps _ h.2 p hp

end MemoryLemmas

/-! ## Sums of words -/

/-- A last odd byte is padded with zero. -/
def oddWord (e : Endian) (b : UInt8) : Nat :=
  match e with
  | .little => b.toNat
  | .big => b.toNat * 256

/-- The words of the `n` bytes at `a`. -/
def words (e : Endian) (m : Nat → UInt8) : Nat → Nat → List Nat
  | _, 0 => []
  | a, 1 => [oddWord e (m a)]
  | a, n + 2 => (ld16 e m a).toNat :: words e m (a + 2) n

section Words

variable {e : Endian} {m m' : Nat → UInt8}

theorem words_lt : ∀ (a n : Nat), ∀ w ∈ words e m a n, w < 65536
  | _, 0, w, hw => by simp [words] at hw
  | a, 1, w, hw => by
      have hb := (m a).toNat_lt
      simp only [words, List.mem_singleton] at hw
      subst hw
      cases e with
      | little => simp only [oddWord]; omega
      | big => simp only [oddWord]; omega
  | a, n + 2, w, hw => by
      rw [words, List.mem_cons] at hw
      rcases hw with rfl | hw
      · exact (ld16 e m a).isLt
      · exact words_lt (a + 2) n w hw

theorem words_congr : ∀ (a n : Nat), (∀ i, a ≤ i → i < a + n → m' i = m i) →
    words e m' a n = words e m a n
  | _, 0, _ => rfl
  | a, 1, h => by rw [words, words, h a (by omega) (by omega)]
  | a, n + 2, h => by
      rw [words, words, ld16_congr (h a (by omega) (by omega)) (h (a + 1) (by omega) (by omega)),
        words_congr (a + 2) n fun i h₁ h₂ => h i (by omega) (by omega)]

/-- A word of the range is replaced. -/
theorem words_st16_sum (v : BitVec 16) : ∀ (k a n : Nat), 2 * k + 2 ≤ n →
    (words e (st16 e m (a + 2 * k) v) a n).sum + (ld16 e m (a + 2 * k)).toNat
      = (words e m a n).sum + v.toNat
  | 0, a, n + 2, _ => by
      have hrest : words e (st16 e m (a + 2 * 0) v) (a + 2) n = words e m (a + 2) n :=
        words_congr _ _ fun i h₁ h₂ => st16_of_ne v (by omega) (by omega)
      rw [words, words, hrest, List.sum_cons, List.sum_cons, Nat.mul_zero, Nat.add_zero,
        ld16_st16_self]
      omega
  | k + 1, a, n + 2, hk => by
      have ih := words_st16_sum v k (a + 2) n (by omega)
      have haddr : a + 2 + 2 * k = a + 2 * (k + 1) := by omega
      rw [haddr] at ih
      rw [words, words, List.sum_cons, List.sum_cons, ld16_st16_of_ne v (by omega)]
      omega

/-- The two words of a number of 32 bits are replaced. -/
theorem words_st32_sum (v : BitVec 32) (k a n : Nat) (hk : 2 * k + 4 ≤ n) :
    (words e (st32 e m (a + 2 * k) v) a n).sum
        + ((ld32 e m (a + 2 * k)).toNat / 65536 + (ld32 e m (a + 2 * k)).toNat % 65536)
      = (words e m a n).sum + (v.toNat / 65536 + v.toNat % 65536) := by
  have hv := v.isLt
  have haddr : a + 2 * k + 2 = a + 2 * (k + 1) := by omega
  have htwo : ∀ x y : BitVec 16,
      (words e (st16 e (st16 e m (a + 2 * k) x) (a + 2 * k + 2) y) a n).sum
          + ((ld16 e m (a + 2 * k)).toNat + (ld16 e m (a + 2 * k + 2)).toNat)
        = (words e m a n).sum + (x.toNat + y.toNat) := by
    intro x y
    have hfirst := words_st16_sum (e := e) (m := m) x k a n (by omega)
    have hsecond := words_st16_sum (e := e) (m := st16 e m (a + 2 * k) x) y (k + 1) a n (by omega)
    rw [← haddr, ld16_st16_of_ne x (by omega)] at hsecond
    omega
  rw [ld32_halves]
  cases e with
  | little =>
    have h := htwo (BitVec.ofNat 16 (v.toNat % 65536)) (BitVec.ofNat 16 (v.toNat / 65536))
    simp only [BitVec.toNat_ofNat] at h
    rw [st32]
    omega
  | big =>
    have h := htwo (BitVec.ofNat 16 (v.toNat / 65536)) (BitVec.ofNat 16 (v.toNat % 65536))
    simp only [BitVec.toNat_ofNat] at h
    rw [st32]
    omega

end Words

end Lede.Lib
