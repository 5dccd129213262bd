/-
Lede.Mtd.TrxTheorems — when `mtd_fixtrx` leaves a header that fits its image.

The data are the bytes of the good blocks from `flag_version` on. Where the size that
is asked for does not wrap around in `size_t`, a call that returns 0 leaves a header
with their length and their checksum, changes nothing else, and has nothing to do when
it is made again. A size that wraps around is taken for one below 16; nothing else goes
wrong (`mtdFixtrx_iff`).
-/
import Lede.Mtd.Trx
import Mathlib.Data.Nat.Bitwise

namespace Lede.Mtd

open Lede.Lib

/-! ## Masks and bytes -/

/-- A mask of high bits rounds down. -/
theorem and_high_bits {w k x : Nat} (hx : x < 2 ^ w) (hk : k ≤ w) :
    x &&& (2 ^ w - 2 ^ k) = x / 2 ^ k * 2 ^ k := by
  have hmask : 2 ^ w - 2 ^ k = (2 ^ (w - k) - 1) <<< k := by
    rw [Nat.shiftLeft_eq, Nat.sub_mul, ← Nat.pow_add, Nat.sub_add_cancel hk, Nat.one_mul]
  rw [hmask, ← Nat.shiftRight_eq_div_pow, ← Nat.shiftLeft_eq]
  apply Nat.eq_of_testBit_eq
  intro i
  simp only [Nat.testBit_and, Nat.testBit_shiftLeft, Nat.testBit_two_pow_sub_one,
    Nat.testBit_shiftRight]
  by_cases hi : k ≤ i
  · have hki : k + (i - k) = i := by omega
    by_cases hw : i < w
    · have : i - k < w - k := by omega
      simp [hi, this, hki]
    · have hbit : x.testBit i = false :=
        Nat.testBit_lt_two_pow (lt_of_lt_of_le hx (Nat.pow_le_pow_right Nat.two_pos (by omega)))
      simp [hki, hbit]
  · simp [hi]

theorem and_shiftLeft_mask (x m k : Nat) : x &&& (m <<< k) = ((x >>> k) &&& m) <<< k := by
  apply Nat.eq_of_testBit_eq
  intro i
  simp only [Nat.testBit_and, Nat.testBit_shiftLeft, Nat.testBit_shiftRight]
  by_cases hi : k ≤ i
  · simp [hi, Nat.add_sub_cancel' hi]
  · simp [hi]

/-- Four bytes, each in its place of a word. -/
theorem or_bytes {a b c d : Nat} (hb : b < 256) (hc : c < 256) (hd : d < 256) :
    a <<< 24 ||| b <<< 16 ||| c <<< 8 ||| d = 2 ^ 24 * a + 2 ^ 16 * b + 2 ^ 8 * c + d := by
  have h₁ : a <<< 24 ||| b <<< 16 = a <<< 24 + b <<< 16 :=
    (Nat.shiftLeft_add_eq_or_of_lt (by simp [Nat.shiftLeft_eq]; omega) a).symm
  have h₂ : a <<< 24 + b <<< 16 = (2 ^ 8 * a + b) <<< 16 := by simp [Nat.shiftLeft_eq]; omega
  have h₃ : (2 ^ 8 * a + b) <<< 16 ||| c <<< 8 = (2 ^ 8 * a + b) <<< 16 + c <<< 8 :=
    (Nat.shiftLeft_add_eq_or_of_lt (by simp [Nat.shiftLeft_eq]; omega) _).symm
  have h₄ : (2 ^ 8 * a + b) <<< 16 + c <<< 8 = (2 ^ 16 * a + 2 ^ 8 * b + c) <<< 8 := by
    simp [Nat.shiftLeft_eq]; omega
  rw [h₁, h₂, h₃, h₄, ← Nat.shiftLeft_add_eq_or_of_lt (by omega), Nat.shiftLeft_eq]
  omega

theorem store32LE_big {h : Host} (he : h.endian = .big) {x : Nat} (hx : x < 2 ^ 32) :
    h.store32LE x = 2 ^ 24 * (x % 256) + 2 ^ 16 * (x / 256 % 256) + 2 ^ 8 * (x / 65536 % 256) +
      x / 16777216 := by
  have hbyte : ∀ y : Nat, y &&& 0xff = y % 256 := fun y => Nat.and_two_pow_sub_one_eq_mod y 8
  have h₁ : (x &&& 0x0000ff00) <<< 8 = (x / 256 % 256) <<< 16 := by
    rw [show (0x0000ff00 : Nat) = 0xff <<< 8 from rfl, and_shiftLeft_mask, hbyte,
      Nat.shiftRight_eq_div_pow, ← Nat.shiftLeft_add]
  have h₂ : (x &&& 0x00ff0000) >>> 8 = (x / 65536 % 256) <<< 8 := by
    rw [show (0x00ff0000 : Nat) = 0xff <<< 16 from rfl, and_shiftLeft_mask, hbyte,
      Nat.shiftRight_eq_div_pow, Nat.shiftRight_eq_div_pow, Nat.shiftLeft_eq, Nat.shiftLeft_eq]
    omega
  have h₃ : (x &&& 0xff000000) >>> 24 = x / 16777216 := by
    rw [show (0xff000000 : Nat) = 0xff <<< 24 from rfl, and_shiftLeft_mask, hbyte,
      Nat.shiftRight_eq_div_pow, Nat.shiftRight_eq_div_pow, Nat.shiftLeft_eq]
    omega
  unfold Host.store32LE
  simp only [he]
  rw [hbyte, h₁, h₂, h₃, or_bytes (by omega) (by omega) (by omega)]

section Words

variable {h : Host} {m : Nat → UInt8} {a x : Nat}

/-- Two numbers with the same bytes, from the highest on. -/
theorem bytes_inj {a b c d a' b' c' d' : Nat} (hb : b < 256) (hc : c < 256) (hd : d < 256)
    (hb' : b' < 256) (hc' : c' < 256) (hd' : d' < 256)
    (h : 2 ^ 24 * a + 2 ^ 16 * b + 2 ^ 8 * c + d = 2 ^ 24 * a' + 2 ^ 16 * b' + 2 ^ 8 * c' + d') :
    a = a' ∧ b = b' ∧ c = c' ∧ d = d' := by
  have ha : a = a' := by omega
  have hb : b = b' := by omega
  have hc : c = c' := by omega
  exact ⟨ha, hb, hc, by omega⟩

/-- In either byte order `STORE32_LE` is the number as the bytes have it. -/
theorem ld32_eq_store32LE (hx : x < 2 ^ 32) :
    (ld32 h.endian m a).toNat = h.store32LE x ↔ get32 m a = x := by
  have h₀ := (m a).toNat_lt
  have h₁ := (m (a + 1)).toNat_lt
  have h₂ := (m (a + 2)).toNat_lt
  have h₃ := (m (a + 2 + 1)).toNat_lt
  cases he : h.endian with
  | little =>
    simp only [Host.store32LE, he, ld32, ld16, get32, get16, BitVec.toNat_ofNat]
    omega
  | big =>
    have hdigits : x = x % 256 + 256 * (x / 256 % 256) + 65536 * (x / 65536 % 256) +
        16777216 * (x / 16777216) := by omega
    have hx₀ : x % 256 < 256 := Nat.mod_lt _ (by decide)
    have hx₁ : x / 256 % 256 < 256 := Nat.mod_lt _ (by decide)
    have hx₂ : x / 65536 % 256 < 256 := Nat.mod_lt _ (by decide)
    have hx₃ : x / 16777216 < 256 := by omega
    have hload : (ld32 .big m a).toNat = 2 ^ 24 * (m a).toNat + 2 ^ 16 * (m (a + 1)).toNat +
        2 ^ 8 * (m (a + 2)).toNat + (m (a + 2 + 1)).toNat := by
      simp only [ld32, ld16, BitVec.toNat_ofNat]
      omega
    rw [store32LE_big he hx, hload, get32, get16, get16]
    generalize x % 256 = x₀, x / 256 % 256 = x₁, x / 65536 % 256 = x₂, x / 16777216 = x₃ at *
    constructor
    · intro heq
      obtain ⟨h₀, h₁, h₂, h₃⟩ := bytes_inj (by omega) (by omega) (by omega) hx₁ hx₂ hx₃ heq
      omega
    · intro heq
      have hrev : 2 ^ 24 * x₃ + 2 ^ 16 * x₂ + 2 ^ 8 * x₁ + x₀ = 2 ^ 24 * (m (a + 2 + 1)).toNat +
          2 ^ 16 * (m (a + 2)).toNat + 2 ^ 8 * (m (a + 1)).toNat + (m a).toNat := by omega
      obtain ⟨h₃, h₂, h₁, h₀⟩ := bytes_inj hx₂ hx₁ hx₀ (by omega) (by omega) (by omega) hrev
      omega

theorem store32LE_lt (hx : x < 2 ^ 32) : h.store32LE x < 2 ^ 32 := by
  cases he : h.endian with
  | little =>
    simp only [Host.store32LE, he]
    exact hx
  | big =>
    rw [store32LE_big he hx]
    omega

theorem get32_st32_store32LE (hx : x < 2 ^ 32) :
    get32 (st32 h.endian m a (BitVec.ofNat 32 (h.store32LE x))) a = x := by
  rw [← ld32_eq_store32LE (h := h) hx, ld32_st32_self, BitVec.toNat_ofNat,
    Nat.mod_eq_of_lt (store32LE_lt hx)]

end Words

/-! ## What is to be described -/

/-- A device with erase blocks as the masks of `mtd_fixtrx` have them. -/
structure Part (c : Cfg) extends Chip c where
  block_two_pow : ∃ k, c.erasesize = 2 ^ k
  erasesize_lt : c.erasesize < 2 ^ 31

/-- The bytes in the good blocks of a range. -/
def goodBytes (d : Device) (m : Nat → UInt8) (start len : Nat) : List UInt8 :=
  ((List.range' start len).filter fun a => !d.isBad a).map m

/-- The size of the range that is asked for, from `flag_version` on. -/
def requested (c : Cfg) (dataSize : Nat) : Nat :=
  if dataSize = 0 then c.erasesize - 12 else dataSize + 16

/-- The length and the checksum in the header are those of `buf`. -/
structure HeaderRight (m : Nat → UInt8) (offset : Nat) (buf : List UInt8) : Prop where
  len : get32 m (offset + 4) = 12 + buf.length
  crc : get32 m (offset + 8) = (crc32buf buf).toNat

/-- What holds of the bytes `m` of the device after a call that returns 0, where `old` are those
from before and `n` is the size of the range. -/
structure Fixed (d : Device) (old m : Nat → UInt8) (offset n : Nat) : Prop where
  inside : offset + 12 + n ≤ d.size
  header : HeaderRight m offset (goodBytes d m (offset + 12) n)
  frame : ∀ a, ¬ (offset + 4 ≤ a ∧ a < offset + 12) → m a = old a

/-- Where a call for `n` bytes gets to its end. -/
structure Succeeds (c : Cfg) (d : Device) (trxmagic : BitVec 32) (m : Nat → UInt8)
    (offset n : Nat) : Prop where
  block : offset / c.erasesize * c.erasesize + c.erasesize ≤ d.size
  magic : be32 m offset = trxmagic
  rewrite : HeaderRight m offset (goodBytes d m (offset + 12) n) ∨
    d.eraseBlock c (offset / c.erasesize * c.erasesize) = true ∧
      d.writes (offset / c.erasesize * c.erasesize) c.erasesize = c.erasesize

/-! ## Reading -/

section Read

variable {h : Host} {c : Cfg} {p : Part c} {m : Nat → UInt8}

theorem Part.exists_block (p : Part c) (h : Host) :
    ∃ k, c.erasesize = 2 ^ k ∧ k ≤ h.sizeBits ∧ c.erasesize ∣ 2 ^ h.sizeBits := by
  obtain ⟨k, hk⟩ := p.block_two_pow
  have hlt : 2 ^ k < 2 ^ 31 := hk ▸ p.erasesize_lt
  have hk31 : k < 31 := (Nat.pow_lt_pow_iff_right (by decide)).1 hlt
  have hle := h.le_sizeBits
  exact ⟨k, hk, by omega, hk ▸ pow_dvd_pow 2 (by omega)⟩

theorem Part.blockOf_eq (p : Part c) (h : Host) {off : Nat} (hoff : off < 2 ^ h.sizeBits) :
    h.blockOf c off = off / c.erasesize * c.erasesize := by
  obtain ⟨k, hk, hle, -⟩ := p.exists_block h
  rw [Host.blockOf, hk, and_high_bits hoff hle]

theorem Part.chunk_eq (p : Part c) (off : Nat) :
    off &&& (c.erasesize - 1) = off % c.erasesize := by
  obtain ⟨k, hk⟩ := p.block_two_pow
  rw [hk, Nat.and_two_pow_sub_one_eq_mod]

/-- All bytes of a block are as bad as its first one. -/
theorem Part.isBad_eq (p : Part c) {a off : Nat} (hlo : off / c.erasesize * c.erasesize ≤ a)
    (hhi : a < off / c.erasesize * c.erasesize + c.erasesize) :
    p.isBad a = p.isBad (off / c.erasesize * c.erasesize) := by
  have hdiv : a / c.erasesize = off / c.erasesize :=
    Nat.div_eq_of_lt_le hlo (by rw [Nat.succ_mul]; exact hhi)
  rw [Device.isBad, Device.isBad, p.bad_block a, hdiv]

theorem goodBytes_add (d : Device) (m : Nat → UInt8) (start n k : Nat) :
    goodBytes d m start (n + k) = goodBytes d m start n ++ goodBytes d m (start + n) k := by
  rw [goodBytes, ← List.range'_append_1, List.filter_append, List.map_append]
  rfl

theorem goodBytes_of_bad {d : Device} {start n : Nat}
    (hbad : ∀ a, start ≤ a → a < start + n → d.isBad a = true) : goodBytes d m start n = [] := by
  rw [goodBytes, List.map_eq_nil_iff, List.filter_eq_nil_iff]
  intro a ha
  obtain ⟨hlo, hhi⟩ := List.mem_range'_1.1 ha
  simp [hbad a hlo hhi]

theorem goodBytes_of_good {d : Device} {start n : Nat}
    (hgood : ∀ a, start ≤ a → a < start + n → d.isBad a = false) :
    goodBytes d m start n = (List.range' start n).map m := by
  rw [goodBytes, List.filter_eq_self.2]
  intro a ha
  obtain ⟨hlo, hhi⟩ := List.mem_range'_1.1 ha
  simp [hgood a hlo hhi]

theorem goodBytes_length_le (d : Device) (m : Nat → UInt8) (start n : Nat) :
    (goodBytes d m start n).length ≤ n := by
  rw [goodBytes, List.length_map]
  exact (List.length_filter_le ..).trans (List.length_range' ..).le

theorem goodBytes_congr {d : Device} {m' : Nat → UInt8} {start n : Nat}
    (hm : ∀ a, start ≤ a → m' a = m a) : goodBytes d m' start n = goodBytes d m start n := by
  refine List.map_congr_left fun a ha => hm a ?_
  exact (List.mem_range'_1.1 (List.mem_filter.1 ha).1).1

theorem Part.blockIsBad_eq (p : Part c) {off : Nat} (hoff : off < p.size) :
    p.blockIsBad (off % 2 ^ 32) = some (p.isBad off) := by
  have := p.size_lt
  rw [Nat.mod_eq_of_lt (by omega), Device.blockIsBad, Device.isBad]
  cases hn : p.nand with
  | true => rw [if_pos rfl, if_neg (by omega), Bool.true_and]
  | false => rw [if_neg Bool.false_ne_true, Bool.false_and]

/-- The loop collects the bytes of the good blocks. -/
theorem readLoop_eq : ∀ (n off : Nat), off + n ≤ p.size →
    readLoop h c p.toDevice m off n = some (goodBytes p.toDevice m off n) := by
  intro n
  induction n using Nat.strong_induction_on with
  | _ n ih =>
    intro off hin
    rw [readLoop]
    split
    · next hn => simp [hn, goodBytes]
    · next hn =>
      have hsize := p.size_lt
      have hbits : 2 ^ 32 ≤ 2 ^ h.sizeBits := Nat.pow_le_pow_right (by decide) h.le_sizeBits
      have hdm := Nat.div_add_mod' off c.erasesize
      have hmod := Nat.mod_lt off c.erasesize_pos
      have hblock : off / c.erasesize * c.erasesize < p.size := by omega
      rw [p.blockOf_eq h (by omega), p.chunk_eq]
      dsimp only
      rw [p.blockIsBad_eq hblock]
      generalize hk : min (c.erasesize - off % c.erasesize) n = k
      have hkn : k ≤ n ∧ 0 < k ∧ off % c.erasesize + k ≤ c.erasesize := by omega
      have hbad : ∀ a, off ≤ a → a < off + k →
          p.isBad a = p.isBad (off / c.erasesize * c.erasesize) :=
        fun a hlo hhi => p.isBad_eq (by omega) (by omega)
      rw [Nat.mod_eq_of_lt (show off + k < 2 ^ h.sizeBits by omega),
        ih (n - k) (by omega) (off + k) (by omega)]
      have hsplit := goodBytes_add p.toDevice m off k (n - k)
      rw [Nat.add_sub_cancel' hkn.1] at hsplit
      cases hb : p.isBad (off / c.erasesize * c.erasesize) with
      | true =>
        rw [hsplit, goodBytes_of_bad fun a hlo hhi => (hbad a hlo hhi).trans hb]
        rfl
      | false =>
        have hfits : ¬ p.size < off + k := by omega
        rw [hsplit, goodBytes_of_good fun a hlo hhi => (hbad a hlo hhi).trans hb]
        simp only [hfits, if_false, Option.map_some]

theorem Part.block_end_le (p : Part c) (h : Host) {off : Nat} (hoff : off < 2 ^ h.sizeBits) :
    off / c.erasesize * c.erasesize + c.erasesize ≤ 2 ^ h.sizeBits := by
  obtain ⟨-, -, -, q, hq⟩ := p.exists_block h
  have hdiv : off / c.erasesize < q := Nat.div_lt_of_lt_mul (hq ▸ hoff)
  calc off / c.erasesize * c.erasesize + c.erasesize = (off / c.erasesize + 1) * c.erasesize :=
        (Nat.succ_mul ..).symm
    _ ≤ q * c.erasesize := Nat.mul_le_mul_right _ hdiv
    _ = 2 ^ h.sizeBits := by rw [hq, Nat.mul_comm]

/-- No block is skipped right below the end of `size_t`. -/
theorem Part.block_end_lt (p : Part c) (h : Host) {off : Nat} (hoff : off < 2 ^ h.sizeBits)
    (hbad : p.blockIsBad (off / c.erasesize * c.erasesize % 2 ^ 32) = some true) :
    off / c.erasesize * c.erasesize + c.erasesize < 2 ^ h.sizeBits := by
  refine lt_of_le_of_ne (p.block_end_le h hoff) fun heq => ?_
  -- as an `int` the offset would be negative
  have hpow : 2 ^ h.sizeBits = 2 ^ 32 * 2 ^ (h.sizeBits - 32) := by
    rw [← Nat.pow_add, Nat.add_sub_cancel' h.le_sizeBits]
  have hone : 0 < 2 ^ (h.sizeBits - 32) := Nat.two_pow_pos _
  have hsmall := p.erasesize_lt
  have hpos := c.erasesize_pos
  rw [Device.blockIsBad] at hbad
  by_cases hn : p.nand = true
  · rw [if_pos hn, if_pos (Or.inl (by omega))] at hbad
    exact Option.some_ne_none _ hbad.symm
  · rw [if_neg hn] at hbad
    exact Bool.false_ne_true (Option.some.inj hbad)

/-- A range that goes beyond the end of `size_t` is never read to its end. -/
theorem readLoop_wrap : ∀ (n off : Nat), off < 2 ^ h.sizeBits → 2 ^ h.sizeBits ≤ off + n →
    readLoop h c p.toDevice m off n = none := by
  intro n
  induction n using Nat.strong_induction_on with
  | _ n ih =>
    intro off hoff hwrap
    rw [readLoop]
    split
    · next hn => omega
    · next hn =>
      have hsize := p.size_lt
      have hbits : 2 ^ 32 ≤ 2 ^ h.sizeBits := Nat.pow_le_pow_right (by decide) h.le_sizeBits
      have hdm := Nat.div_add_mod' off c.erasesize
      have hmod := Nat.mod_lt off c.erasesize_pos
      have hend := p.block_end_lt h hoff
      rw [p.blockOf_eq h hoff, p.chunk_eq]
      dsimp only
      generalize hk : min (c.erasesize - off % c.erasesize) n = k
      have hkn : k ≤ n ∧ 0 < k ∧ off % c.erasesize + k ≤ c.erasesize := by omega
      have hrest : off + k < 2 ^ h.sizeBits →
          readLoop h c p.toDevice m ((off + k) % 2 ^ h.sizeBits) (n - k) = none := fun hlt => by
        rw [Nat.mod_eq_of_lt hlt]
        exact ih (n - k) (by omega) (off + k) hlt (by omega)
      split
      · rfl
      · next hb => exact hrest (by have := hend hb; omega)
      · split
        · rfl
        · rw [hrest (by omega)]
          rfl

end Read

/-! ## The header -/

section Header

variable {h : Host} {c : Cfg} {p : Part c} {m : Nat → UInt8} {block off : Nat} {buf : List UInt8}

theorem get32_shift (m : Nat → UInt8) (b a : Nat) :
    get32 (fun i => m (b + i)) a = get32 m (b + a) := rfl

/-- The comparison with the header. -/
theorem header_eq_iff (hbuf : buf.length + 12 < 2 ^ 32) :
    ((ld32 h.endian (fun i => m (block + i)) (off + 4)).toNat = h.store32LE (buf.length + 12) ∧
      (ld32 h.endian (fun i => m (block + i)) (off + 8)).toNat =
        h.store32LE (crc32buf buf).toNat) ↔ HeaderRight m (block + off) buf := by
  rw [ld32_eq_store32LE hbuf, ld32_eq_store32LE (crc32buf buf).isLt, get32_shift, get32_shift]
  constructor
  · rintro ⟨hlen, hcrc⟩
    exact ⟨by rw [Nat.add_assoc, hlen, Nat.add_comm], by rw [Nat.add_assoc, hcrc]⟩
  · rintro ⟨hlen, hcrc⟩
    exact ⟨by rw [← Nat.add_assoc, hlen, Nat.add_comm], by rw [← Nat.add_assoc, hcrc]⟩

theorem fixHeader_right (hbuf : buf.length + 12 < 2 ^ 32) (hr : HeaderRight m (block + off) buf) :
    fixHeader h c p.toDevice block off (fun i => m (block + i)) buf = ([], true) := by
  rw [fixHeader]
  exact if_pos ((header_eq_iff hbuf).2 hr)

/-- The buffer that is written, and what it leaves on the device. -/
theorem afterOps_write {first : Nat → UInt8} (a : Nat) :
    afterOps c m [.erase block, .pwrite block ((List.range c.erasesize).map first)] a =
      if block ≤ a ∧ a < block + c.erasesize then first (a - block) else m a := by
  simp only [afterOps, List.foldl_cons, List.foldl_nil, FlashOp.apply, List.length_map,
    List.length_range]
  split
  · next hin =>
    have hlt : a - block < c.erasesize := by omega
    simp [List.getD, hlt]
  · rfl

/-- Where the header does not fit, its block is written anew. -/
theorem fixHeader_wrong (hbuf : buf.length + 12 < 2 ^ 32)
    (hr : ¬ HeaderRight m (block + off) buf) (hoff : off + 28 ≤ c.erasesize)
    (hin : block + c.erasesize ≤ p.size) :
    ((fixHeader h c p.toDevice block off (fun i => m (block + i)) buf).2 = true ↔
      p.eraseBlock c block = true ∧ p.writes block c.erasesize = c.erasesize) ∧
    ∀ ops, fixHeader h c p.toDevice block off (fun i => m (block + i)) buf = (ops, true) →
      HeaderRight (afterOps c m ops) (block + off) buf ∧
        ∀ a, ¬ (block + off + 4 ≤ a ∧ a < block + off + 12) → afterOps c m ops a = m a := by
  have hsize := p.size_lt
  rw [fixHeader]
  dsimp only
  rw [if_neg fun heq => hr ((header_eq_iff hbuf).1 heq)]
  split
  · next he => simp [he]
  · next he =>
    rw [Bool.not_eq_true, Bool.not_eq_false] at he
    refine ⟨by simp [he], fun ops hops => ?_⟩
    obtain ⟨hops, hwrites⟩ := Prod.mk.inj hops
    rw [decide_eq_true_eq] at hwrites
    have hstart : eraseStart block = block := Nat.mod_eq_of_lt (by omega)
    rw [hwrites, hstart] at hops
    subst hops
    -- what a byte in the header's block is after the two stores
    generalize hfirst : st32 h.endian (st32 h.endian (fun i => m (block + i)) (off + 4)
      (BitVec.ofNat 32 (h.store32LE (buf.length + 12)))) (off + 8)
      (BitVec.ofNat 32 (h.store32LE (crc32buf buf).toNat)) = first
    have hafter : ∀ a, off ≤ a → a < off + 28 →
        afterOps c m [.erase block, .pwrite block ((List.range c.erasesize).map first)]
          (block + a) = first a := by
      intro a hlo hhi
      rw [afterOps_write, if_pos ⟨by omega, by omega⟩, Nat.add_sub_cancel_left]
    refine ⟨⟨?_, ?_⟩, fun a ha => ?_⟩
    · calc get32 _ (block + off + 4) = get32 first (off + 4) := by
            rw [Nat.add_assoc, ← get32_shift]
            exact get32_congr fun i hi => hafter _ (by omega) (by omega)
        _ = get32 (st32 h.endian (fun i => m (block + i)) (off + 4)
              (BitVec.ofNat 32 (h.store32LE (buf.length + 12)))) (off + 4) := by
            rw [← hfirst]
            exact get32_congr fun i hi => st32_of_lt _ (by omega)
        _ = 12 + buf.length := by rw [get32_st32_store32LE hbuf, Nat.add_comm]
    · calc get32 _ (block + off + 8) = get32 first (off + 8) := by
            rw [Nat.add_assoc, ← get32_shift]
            exact get32_congr fun i hi => hafter _ (by omega) (by omega)
        _ = (crc32buf buf).toNat := by
            rw [← hfirst, get32_st32_store32LE (crc32buf buf).isLt]
    · rw [afterOps_write]
      split
      · next hin =>
        rw [← hfirst, st32_of_lt _ (by omega), st32_of_lt _ (by omega), Nat.add_sub_cancel' hin.1]
      · rfl

end Header

/-! ## The call -/

section Call

variable {h : Host} {c : Cfg} {p : Part c} {trxmagic : BitVec 32} {m : Nat → UInt8}
  {offset dataSize n : Nat}

/-- The size that the code computes from its argument. -/
theorem size_eq (p : Part c) (h : Host) (hheader : 28 ≤ c.erasesize)
    (hsize : dataSize < 2 ^ h.sizeBits) :
    (if dataSize ≠ 0 then (dataSize + 16) % 2 ^ h.sizeBits
      else (c.erasesize + 2 ^ h.sizeBits - 12) % 2 ^ h.sizeBits) =
      if dataSize + 16 < 2 ^ h.sizeBits then requested c dataSize
      else dataSize + 16 - 2 ^ h.sizeBits := by
  have hbits : 2 ^ 32 ≤ 2 ^ h.sizeBits := Nat.pow_le_pow_right (by decide) h.le_sizeBits
  have hsmall := p.erasesize_lt
  by_cases h0 : dataSize = 0
  · have hsum : c.erasesize + 2 ^ h.sizeBits - 12 = c.erasesize - 12 + 2 ^ h.sizeBits := by omega
    rw [if_neg (not_not.2 h0), if_pos (by omega), requested, if_pos h0, hsum, Nat.add_mod_right,
      Nat.mod_eq_of_lt (by omega)]
  · rw [if_pos h0]
    split
    · next hlt => rw [requested, if_neg h0, Nat.mod_eq_of_lt hlt]
    · next hge => rw [Nat.mod_eq_sub_mod (by omega), Nat.mod_eq_of_lt (by omega)]

/-- A call for a range in the device and with the magic at the offset gets to the header. -/
theorem mtdFixtrx_eq (hoff : offset < 2 ^ h.sizeBits) (hsize : dataSize < 2 ^ h.sizeBits)
    (hheader : offset % c.erasesize + 28 ≤ c.erasesize)
    (hn : n = if dataSize + 16 < 2 ^ h.sizeBits then requested c dataSize
      else dataSize + 16 - 2 ^ h.sizeBits) :
    mtdFixtrx h c p.toDevice trxmagic m offset dataSize =
      if offset + 12 + n ≤ p.size ∧
          offset / c.erasesize * c.erasesize + c.erasesize ≤ p.size ∧ be32 m offset = trxmagic then
        fixHeader h c p.toDevice (offset / c.erasesize * c.erasesize) (offset % c.erasesize)
          (fun i => m (offset / c.erasesize * c.erasesize + i))
          (goodBytes p.toDevice m (offset + 12) n)
      else ([], false) := by
  have hdev := p.size_lt
  have hbits : 2 ^ 32 ≤ 2 ^ h.sizeBits := Nat.pow_le_pow_right (by decide) h.le_sizeBits
  have hdm := Nat.div_add_mod' offset c.erasesize
  have hend := p.block_end_le h hoff
  have hrel : offset - offset / c.erasesize * c.erasesize = offset % c.erasesize := by omega
  have hmagic : be32 (fun i => m (offset / c.erasesize * c.erasesize + i)) (offset % c.erasesize) =
      be32 m offset := by
    simp only [be32, be16, ← Nat.add_assoc, hdm]
  rw [mtdFixtrx, size_eq p h (by omega) hsize, ← hn, p.blockOf_eq h hoff,
    Nat.mod_eq_of_lt (show offset + 12 < 2 ^ h.sizeBits by omega)]
  dsimp only
  rw [hrel, hmagic]
  by_cases hin : offset + 12 + n ≤ p.size
  · rw [Nat.mod_eq_of_lt (by omega), if_neg (by omega), readLoop_eq n _ hin]
    by_cases hblock : offset / c.erasesize * c.erasesize + c.erasesize ≤ p.size
    · rw [if_neg (by omega)]
      by_cases hm : be32 m offset = trxmagic
      · rw [if_neg (not_not.2 hm), if_pos ⟨hin, hblock, hm⟩]
      · rw [if_pos hm, if_neg fun hall => hm hall.2.2]
    · rw [if_pos (by omega), if_neg fun hall => hblock hall.2.1]
  · have hout : ¬ (offset + 12 + n ≤ p.size ∧
        offset / c.erasesize * c.erasesize + c.erasesize ≤ p.size ∧ be32 m offset = trxmagic) :=
      fun hall => hin hall.1
    rw [if_neg hout]
    by_cases hfits : p.size < (offset + 12 + n) % 2 ^ h.sizeBits
    · rw [if_pos hfits]
    · rw [if_neg hfits]
      split
      · rfl
      · split
        · rfl
        · -- the sum of offset and size wraps around
          have hwrap : 2 ^ h.sizeBits ≤ offset + 12 + n := by
            by_contra hlt
            rw [Nat.mod_eq_of_lt (by omega)] at hfits
            omega
          rw [readLoop_wrap n _ (by omega) hwrap]

/-- The call for `n` bytes, to its end. -/
theorem mtdFixtrx_spec (hoff : offset < 2 ^ h.sizeBits) (hsize : dataSize < 2 ^ h.sizeBits)
    (hheader : offset % c.erasesize + 28 ≤ c.erasesize)
    (hn : n = if dataSize + 16 < 2 ^ h.sizeBits then requested c dataSize
      else dataSize + 16 - 2 ^ h.sizeBits) :
    ((mtdFixtrx h c p.toDevice trxmagic m offset dataSize).2 = true ↔
      offset + 12 + n ≤ p.size ∧ Succeeds c p.toDevice trxmagic m offset n) ∧
    ∀ ops, mtdFixtrx h c p.toDevice trxmagic m offset dataSize = (ops, true) →
      Fixed p.toDevice m (afterOps c m ops) offset n ∧
        mtdFixtrx h c p.toDevice trxmagic (afterOps c m ops) offset dataSize = ([], true) := by
  have hdev := p.size_lt
  have hdm := Nat.div_add_mod' offset c.erasesize
  have hrun := fun m => @mtdFixtrx_eq h c p trxmagic m offset dataSize n hoff hsize hheader hn
  rw [hrun m]
  by_cases hcond : offset + 12 + n ≤ p.size ∧
      offset / c.erasesize * c.erasesize + c.erasesize ≤ p.size ∧ be32 m offset = trxmagic
  · rw [if_pos hcond]
    obtain ⟨hin, hblock, hm⟩ := hcond
    have hlen : (goodBytes p.toDevice m (offset + 12) n).length + 12 < 2 ^ 32 := by
      have := goodBytes_length_le p.toDevice m (offset + 12) n
      omega
    by_cases hr : HeaderRight m offset (goodBytes p.toDevice m (offset + 12) n)
    · -- nothing to do
      have hfix : fixHeader h c p.toDevice (offset / c.erasesize * c.erasesize)
          (offset % c.erasesize) (fun i => m (offset / c.erasesize * c.erasesize + i))
          (goodBytes p.toDevice m (offset + 12) n) = ([], true) :=
        fixHeader_right hlen (by rwa [hdm])
      rw [hfix]
      refine ⟨iff_of_true rfl ⟨hin, hblock, hm, Or.inl hr⟩, fun ops hops => ?_⟩
      obtain rfl := (Prod.mk.inj hops).1
      refine ⟨⟨hin, hr, fun _ _ => rfl⟩, ?_⟩
      rw [afterOps, List.foldl_nil, hrun m, if_pos ⟨hin, hblock, hm⟩, hfix]
    · have hr' : ¬ HeaderRight m (offset / c.erasesize * c.erasesize + offset % c.erasesize)
          (goodBytes p.toDevice m (offset + 12) n) := by rwa [hdm]
      obtain ⟨htrue, hops⟩ := fixHeader_wrong (h := h) hlen hr' hheader hblock
      rw [hdm] at hops
      refine ⟨htrue.trans ⟨fun hw => ⟨hin, hblock, hm, Or.inr hw⟩,
        fun hs => hs.2.rewrite.resolve_left hr⟩, fun ops heq => ?_⟩
      obtain ⟨hright, hframe⟩ := hops ops heq
      -- the data and the magic are where nothing was written
      have hdata : goodBytes p.toDevice (afterOps c m ops) (offset + 12) n =
          goodBytes p.toDevice m (offset + 12) n :=
        goodBytes_congr fun a ha => hframe a (by omega)
      have hm' : be32 (afterOps c m ops) offset = trxmagic := by
        rw [← hm]
        exact be32_congr fun i hi => hframe _ (by omega)
      refine ⟨⟨hin, hdata ▸ hright, hframe⟩, ?_⟩
      rw [hrun, if_pos ⟨hin, hblock, hm'⟩, hdata]
      exact fixHeader_right hlen (by rwa [hdm])
  · rw [if_neg hcond]
    refine ⟨iff_of_false Bool.false_ne_true fun hs => hcond ⟨hs.1, hs.2.block, hs.2.magic⟩,
      fun ops hops => absurd (Prod.mk.inj hops).2 Bool.false_ne_true⟩

end Call

/-- What is promised of a call: if it returns 0, the header describes the range that was asked
for, nothing else has changed, and the same call has nothing to do. -/
def FixesTrx (h : Host) (c : Cfg) (d : Device) (trxmagic : BitVec 32) (m : Nat → UInt8)
    (offset dataSize : Nat) : Prop :=
  ∀ ops, mtdFixtrx h c d trxmagic m offset dataSize = (ops, true) →
    Fixed d m (afterOps c m ops) offset (requested c dataSize) ∧
      mtdFixtrx h c d trxmagic (afterOps c m ops) offset dataSize = ([], true)

/-- The promise is kept but for a size that wraps around, in a call that gets to its end for the
bytes that are left of it. -/
theorem mtdFixtrx_iff (h : Host) {c : Cfg} (p : Part c) (trxmagic : BitVec 32) (m : Nat → UInt8)
    {offset dataSize : Nat} (hoff : offset < 2 ^ h.sizeBits) (hsize : dataSize < 2 ^ h.sizeBits)
    (hheader : offset % c.erasesize + 28 ≤ c.erasesize) :
    FixesTrx h c p.toDevice trxmagic m offset dataSize ↔
      dataSize + 16 < 2 ^ h.sizeBits ∨
        ¬ Succeeds c p.toDevice trxmagic m offset (dataSize + 16 - 2 ^ h.sizeBits) := by
  obtain ⟨htrue, hops⟩ :=
    @mtdFixtrx_spec h c p trxmagic m offset dataSize _ hoff hsize hheader rfl
  by_cases hfits : dataSize + 16 < 2 ^ h.sizeBits
  · rw [if_pos hfits] at hops
    exact iff_of_true hops (Or.inl hfits)
  · rw [if_neg hfits] at htrue
    have hdev := p.size_lt
    have hbits : 2 ^ 32 ≤ 2 ^ h.sizeBits := Nat.pow_le_pow_right (by decide) h.le_sizeBits
    have hdm := Nat.div_add_mod' offset c.erasesize
    rw [or_iff_right hfits]
    constructor
    · intro hfix hs
      have hrun := htrue.2 ⟨by have := hs.block; omega, hs⟩
      have hin := (hfix _ (Prod.ext rfl hrun)).1.inside
      rw [requested, if_neg (by omega)] at hin
      omega
    · intro hs ops heq
      exact absurd (htrue.1 (congrArg Prod.snd heq)).2 hs

/-- Erase blocks of 64 KiB. -/
def trxCfg : Cfg where
  erasesize := 65536
  partOffset := 0

/-- A firmware partition of NOR flash. -/
def trxPart : Part trxCfg where
  nand := false
  size := 0x780000
  bad _ := false
  eraseFails _ := false
  accepts _ len := len
  bad_block _ := rfl
  size_lt := by decide
  block_two_pow := ⟨16, rfl⟩
  erasesize_lt := by decide

/-- The magic `HDR0`, and nothing else. -/
def trxFlash (a : Nat) : UInt8 :=
  if a = 0 then 0x48
  else if a = 1 then 0x44
  else if a = 2 then 0x52
  else if a = 3 then 0x30
  else 0xff

def trxHost : Host where
  sizeBits := 32
  endian := .big

/-- Without a size, the rest of the block is described. -/
theorem mtdFixtrx_trxPart : FixesTrx trxHost trxCfg trxPart.toDevice 0x48445230 trxFlash 0 0 :=
  (mtdFixtrx_iff trxHost trxPart 0x48445230 trxFlash (by decide) (by decide) (by decide)).2
    (Or.inl (by decide))

/-- A size of `0xfffffff0` wraps around to 0, and the header describes nothing. -/
theorem mtdFixtrx_wraps :
    ¬ ∀ (h : Host) (c : Cfg) (p : Part c) (trxmagic : BitVec 32) (m : Nat → UInt8)
      (offset dataSize : Nat), offset < 2 ^ h.sizeBits → dataSize < 2 ^ h.sizeBits →
      offset % c.erasesize + 28 ≤ c.erasesize →
      FixesTrx h c p.toDevice trxmagic m offset dataSize := by
  intro hall
  have hfix := hall trxHost trxCfg trxPart 0x48445230 trxFlash 0 0xfffffff0 (by decide) (by decide)
    (by decide)
  have hs : Succeeds trxCfg trxPart.toDevice 0x48445230 trxFlash 0 0 :=
    ⟨by decide, by decide, Or.inr ⟨by decide, by decide⟩⟩
  have hrun := (@mtdFixtrx_spec trxHost trxCfg trxPart 0x48445230 trxFlash 0 0xfffffff0 0
    (by decide) (by decide) (by decide) (by decide)).1.2 ⟨by decide, hs⟩
  have hin := (hfix _ (Prod.ext rfl hrun)).1.inside
  revert hin
  decide

end Lede.Mtd
