/-
Lede.Sfe.ChecksumTheorems — the checksums of a forwarded packet.

The transport checksum is not computed anew: what the translation of an address and
a port does to it was computed when the connection was created, and is added. Sums
are taken modulo 65535 here; a sum of words that are not all zero is known by its
residue (`Lede.Lib.onesRep`), and the pseudo header always has the protocol in it.
-/
import Lede.Sfe.KeyTheorems
import Lede.Sfe.StatTheorems

namespace Lede.Sfe

open Lede.Lib

/-! ## Adjustments -/

section Adjustments

/-- The two halves of an address. -/
def halves (x : BitVec 32) : Nat := x.toNat / 65536 + x.toNat % 65536

theorem halves_mod (x : BitVec 32) : halves x % 65535 = x.toNat % 65535 := by
  unfold halves
  omega

/-- Complements add up to a sum of all ones. -/
theorem halves_not (x : BitVec 32) : halves (~~~x) + halves x = 131070 := by
  have hx := x.isLt
  have hnot : (~~~x).toNat = 2 ^ 32 - 1 - x.toNat := BitVec.toNat_not
  unfold halves
  rw [hnot]
  omega

theorem toNat_not_add (x : BitVec 16) : (~~~x).toNat + x.toNat = 65535 := by
  have hx := x.isLt
  have hnot : (~~~x).toNat = 2 ^ 16 - 1 - x.toNat := BitVec.toNat_not
  omega

theorem halves_le (x : BitVec 32) : halves x ≤ 131070 := by
  have hx := x.isLt
  unfold halves
  omega

/-- A folded number keeps its residue. -/
theorem ofNat_fold_mod {x : Nat} (hx : x < 2 ^ 32) :
    (BitVec.ofNat 16 (fold16 (fold16 x))).toNat % 65535 = x % 65535 := by
  have hle := onesRep_le x
  rw [BitVec.toNat_ofNat, fold16_fold16 hx, Nat.mod_eq_of_lt (by omega : onesRep x < 2 ^ 16), onesRep_mod]

/-- The adjustment is what the old words have over the new ones. -/
theorem csumAdjustment_mod (ip xlateIp : BitVec 32) (port xlatePort : BitVec 16) :
    ((csumAdjustment ip xlateIp port xlatePort).toNat + (halves xlateIp + xlatePort.toNat)) % 65535
      = (halves ip + port.toNat) % 65535 := by
  have hport := port.isLt
  have hip := halves_le ip
  have hnip := halves_not xlateIp
  have hnport := toNat_not_add xlatePort
  have hfold : (csumAdjustment ip xlateIp port xlatePort).toNat % 65535
      = (halves ip + port.toNat + halves (~~~xlateIp) + (~~~xlatePort).toNat) % 65535 := by
    have hsum : halves ip + port.toNat + halves (~~~xlateIp) + (~~~xlatePort).toNat
        = ip.toNat / 65536 + ip.toNat % 65536 + port.toNat + (~~~xlateIp).toNat / 65536
          + (~~~xlateIp).toNat % 65536 + (~~~xlatePort).toNat := by
      unfold halves
      omega
    have hlt : halves ip + port.toNat + halves (~~~xlateIp) + (~~~xlatePort).toNat < 2 ^ 32 := by omega
    rw [hsum] at hlt ⊢
    exact ofNat_fold_mod hlt
  omega

/-- The adjustment of a seed is what the new address has over the old one. -/
theorem partialCsumAdjustment_mod (ip xlateIp : BitVec 32) :
    ((partialCsumAdjustment ip xlateIp).toNat + halves ip) % 65535 = halves xlateIp % 65535 := by
  have hip := ip.isLt
  have hxip := xlateIp.isLt
  have hnip : (~~~ip).toNat = 2 ^ 32 - 1 - ip.toNat := BitVec.toNat_not
  have hsum : (~~~ip + xlateIp).toNat = (2 ^ 32 - 1 - ip.toNat + xlateIp.toNat) % 2 ^ 32 := by
    rw [BitVec.toNat_add, hnip]
  -- the carry goes round
  by_cases hlt : ip.toNat < xlateIp.toNat
  · have hsmall : (~~~ip + xlateIp).toNat = xlateIp.toNat - ip.toNat - 1 := by
      rw [hsum]
      omega
    have hless : ~~~ip + xlateIp < xlateIp := by
      rw [BitVec.lt_def, hsmall]
      omega
    have hval : (~~~ip + xlateIp + 1).toNat = xlateIp.toNat - ip.toNat := by
      have hone : (1 : BitVec 32).toNat = 1 := rfl
      rw [BitVec.toNat_add, hsmall, hone, Nat.mod_eq_of_lt (by omega)]
      omega
    have hfold : (partialCsumAdjustment ip xlateIp).toNat % 65535 = _ := ofNat_fold_mod (BitVec.isLt _)
    rw [if_pos hless, hval] at hfold
    rw [Nat.add_mod, hfold, halves_mod ip, ← Nat.add_mod, Nat.sub_add_cancel (Nat.le_of_lt hlt),
      halves_mod]
  · have hlarge : (~~~ip + xlateIp).toNat = 2 ^ 32 - 1 - ip.toNat + xlateIp.toNat := by
      rw [hsum]
      omega
    have hless : ¬ ~~~ip + xlateIp < xlateIp := by
      rw [BitVec.lt_def, hlarge]
      omega
    have hones : 2 ^ 32 - 1 - ip.toNat + xlateIp.toNat + ip.toNat = xlateIp.toNat + 65535 * 65537 := by
      omega
    have hfold : (partialCsumAdjustment ip xlateIp).toNat % 65535 = _ := ofNat_fold_mod (BitVec.isLt _)
    rw [if_neg hless, hlarge] at hfold
    rw [Nat.add_mod, hfold, halves_mod ip, ← Nat.add_mod, hones, Nat.add_mul_mod_self_left, halves_mod]

end Adjustments

/-! ## The sums of a packet -/

/-- The pseudo header of a segment of `n` bytes: the addresses, the protocol and the
length. -/
def pseudoWords (e : Endian) (m : Nat → UInt8) (n : Nat) : List Nat :=
  words e m 12 8 ++ [(ntohs e ((ipProtocol m 0).setWidth 16)).toNat, (ntohs e (BitVec.ofNat 16 n)).toNat]

/-- The pseudo header and the segment of `n` bytes behind an IPv4 header without
options. -/
def segmentWords (e : Endian) (m : Nat → UInt8) (n : Nat) : List Nat := pseudoWords e m n ++ words e m 20 n

/-- The transport header. -/
def transportHdrLen (m : Nat → UInt8) : Nat := if ipProtocol m 0 = ipprotoUdp then 8 else 20

/-- The checksum of a segment of `n` bytes verifies, or there is none. -/
def TransportOk (e : Endian) (m : Nat → UInt8) (n : Nat) : Prop :=
  transportHdrLen m ≤ n ∧
    (ipProtocol m 0 = ipprotoUdp ∧ ld16 e m (checkOff m) = 0 ∨ onesSum (segmentWords e m n) = 65535)

/-- The checksum field is the seed for a device that computes the checksum. -/
def Seeded (e : Endian) (m : Nat → UInt8) (n : Nat) : Prop :=
  (ld16 e m (checkOff m)).toNat = onesSum (pseudoWords e m n)

section Sums

variable {e : Endian} {m m' : Nat → UInt8} {n : Nat}

/-- A byte in a 16-bit word, swapped. -/
theorem toNat_swapped (x : BitVec 8) :
    ((x.setWidth 16).extractLsb' 0 8 ++ (x.setWidth 16).extractLsb' 8 8).toNat = x.toNat * 256 := by
  have hx := x.isLt
  have hword : x.toNat % 2 ^ 16 = x.toNat := by omega
  have hlow : x.toNat / 2 ^ 0 % 2 ^ 8 = x.toNat := by omega
  have hhigh : x.toNat / 2 ^ 8 = 0 := by omega
  rw [BitVec.toNat_append, BitVec.extractLsb'_toNat, BitVec.extractLsb'_toNat, BitVec.toNat_setWidth,
    Nat.shiftRight_eq_div_pow, Nat.shiftRight_eq_div_pow, Nat.shiftLeft_eq, hword, hlow, hhigh,
    Nat.zero_mod, Nat.or_zero]

theorem ntohs_pos (x : BitVec 8) (hx : x ≠ 0) : 0 < (ntohs e (x.setWidth 16)).toNat := by
  have hlt := x.isLt
  have hpos : 0 < x.toNat := Nat.pos_of_ne_zero fun h => hx (BitVec.eq_of_toNat_eq h)
  cases e with
  | little =>
    have hswap : (ntohs .little (x.setWidth 16)).toNat = x.toNat * 256 := toNat_swapped x
    omega
  | big =>
    have hsame : (ntohs .big (x.setWidth 16)).toNat = x.toNat % 2 ^ 16 := BitVec.toNat_setWidth _ _
    omega

theorem pseudoWords_lt : ∀ w ∈ pseudoWords e m n, w < 65536 := by
  intro w hw
  unfold pseudoWords at hw
  rcases List.mem_append.mp hw with h | h
  · exact words_lt _ _ w h
  · have htwo : w = (ntohs e ((ipProtocol m 0).setWidth 16)).toNat ∨
        w = (ntohs e (BitVec.ofNat 16 n)).toNat := by simpa using h
    rcases htwo with rfl | rfl
    · exact BitVec.isLt _
    · exact BitVec.isLt _

theorem segmentWords_lt : ∀ w ∈ segmentWords e m n, w < 65536 := by
  intro w hw
  rcases List.mem_append.mp hw with h | h
  · exact pseudoWords_lt w h
  · exact words_lt _ _ w h

/-- The protocol is in the pseudo header. -/
theorem pseudoWords_pos (h : ipProtocol m 0 ≠ 0) : 0 < (pseudoWords e m n).sum := by
  have hp := ntohs_pos (e := e) _ h
  simp only [pseudoWords, List.sum_append, List.sum_cons]
  omega

theorem onesSum_segmentWords (h : ipProtocol m 0 ≠ 0) :
    onesSum (segmentWords e m n) = 65535 ↔ (segmentWords e m n).sum % 65535 = 0 := by
  have hp := pseudoWords_pos (e := e) (n := n) h
  rw [onesSum_eq segmentWords_lt]
  refine onesRep_eq_ones_iff ?_
  rw [segmentWords, List.sum_append]
  omega

/-- The sums read the protocol and what is behind the header checksum. -/
theorem pseudoWords_congr (h₉ : m' 9 = m 9) (h : ∀ i, 12 ≤ i → m' i = m i) :
    pseudoWords e m' n = pseudoWords e m n := by
  have hprotocol : ipProtocol m' 0 = ipProtocol m 0 := congrArg UInt8.toBitVec h₉
  have haddr : words e m' 12 8 = words e m 12 8 := words_congr _ _ fun i hi _ => h i hi
  rw [pseudoWords, pseudoWords, hprotocol, haddr]

theorem segmentWords_congr (h₉ : m' 9 = m 9) (h : ∀ i, 12 ≤ i → m' i = m i) :
    segmentWords e m' n = segmentWords e m n := by
  have hsegment : words e m' 20 n = words e m 20 n := words_congr _ _ fun i hi _ => h i (by omega)
  rw [segmentWords, segmentWords, pseudoWords_congr h₉ h, hsegment]

/-- The pseudo header with another source (`j = 0`) or destination (`j = 1`). -/
theorem pseudoWords_st32 (ip : BitVec 32) {j : Nat} (hj : j < 2) :
    (pseudoWords e (st32 e m (12 + 4 * j) ip) n).sum + halves (ld32 e m (12 + 4 * j))
      = (pseudoWords e m n).sum + halves ip := by
  have hprotocol : ipProtocol (st32 e m (12 + 4 * j) ip) 0 = ipProtocol m 0 :=
    congrArg UInt8.toBitVec (st32_of_lt ip (by omega))
  have hsum := words_st32_sum (e := e) (m := m) ip (2 * j) 12 8 (by omega)
  have haddr : 12 + 2 * (2 * j) = 12 + 4 * j := by omega
  rw [haddr] at hsum
  simp only [pseudoWords, List.sum_append, hprotocol, halves]
  omega

theorem pseudoWords_st16 {a : Nat} (ha : 20 ≤ a) (v : BitVec 16) :
    pseudoWords e (st16 e m a v) n = pseudoWords e m n := by
  have hprotocol : ipProtocol (st16 e m a v) 0 = ipProtocol m 0 :=
    congrArg UInt8.toBitVec (st16_of_ne v (by omega) (by omega))
  have haddr : words e (st16 e m a v) 12 8 = words e m 12 8 :=
    words_congr _ _ fun i _ _ => st16_of_ne v (by omega) (by omega)
  rw [pseudoWords, pseudoWords, hprotocol, haddr]

/-- The segment with another word. -/
theorem segmentWords_st16 (v : BitVec 16) {k : Nat} (hk : 2 * k + 2 ≤ n) :
    (segmentWords e (st16 e m (20 + 2 * k) v) n).sum + (ld16 e m (20 + 2 * k)).toNat
      = (segmentWords e m n).sum + v.toNat := by
  have hsum := words_st16_sum (e := e) (m := m) v k 20 n hk
  simp only [segmentWords, List.sum_append]
  rw [pseudoWords_st16 (by omega)]
  omega

theorem segmentWords_st32 (ip : BitVec 32) {j : Nat} (hj : j < 2) :
    (segmentWords e (st32 e m (12 + 4 * j) ip) n).sum + halves (ld32 e m (12 + 4 * j))
      = (segmentWords e m n).sum + halves ip := by
  have hsum := pseudoWords_st32 (e := e) (m := m) (n := n) ip hj
  have hsegment : words e (st32 e m (12 + 4 * j) ip) 20 n = words e m 20 n :=
    words_congr _ _ fun i _ _ => st32_of_lt ip (by omega)
  simp only [segmentWords, List.sum_append, hsegment]
  omega

end Sums

/-! ## The checksum field -/

section Check

variable {e : Endian} {m : Nat → UInt8} {n : Nat} {udp : Bool} {off : Nat}

/-- The field is left alone, or the adjustment is added with its carry. -/
theorem adjustCheck_cases (udp : Bool) (off : Nat) (adj : BitVec 16) :
    (udp = true ∧ ld16 e m off = 0 ∧ adjustCheck e udp off adj m = m) ∨
    ((udp = true → ld16 e m off ≠ 0) ∧
      adjustCheck e udp off adj m
        = st16 e m off (BitVec.ofNat 16 (onesRep ((ld16 e m off).toNat + adj.toNat)))) := by
  have hc := (ld16 e m off).isLt
  have ha := adj.isLt
  unfold adjustCheck
  dsimp only
  by_cases h : (udp && ld16 e m off == 0) = true
  · left
    rw [if_pos h]
    have hboth : udp = true ∧ ld16 e m off = 0 := by simpa using h
    exact ⟨hboth.1, hboth.2, rfl⟩
  · right
    rw [if_neg h, fold16_eq (by omega)]
    refine ⟨fun hu hz => h ?_, rfl⟩
    simp [hu, hz]

theorem toNat_onesRep (x : Nat) : (BitVec.ofNat 16 (onesRep x)).toNat = onesRep x := by
  have hle := onesRep_le x
  rw [BitVec.toNat_ofNat]
  omega

/-- Nothing but the field is touched. -/
theorem adjustCheck_of_ne (adj : BitVec 16) {i : Nat} (h₀ : i ≠ off) (h₁ : i ≠ off + 1) :
    adjustCheck e udp off adj m i = m i := by
  rcases adjustCheck_cases (e := e) (m := m) udp off adj with ⟨-, -, h⟩ | ⟨-, h⟩
  · rw [h]
  · rw [h, st16_of_ne _ h₀ h₁]

/-- A UDP checksum of zero stands for none, before and after. -/
theorem adjustCheck_eq_zero (adj : BitVec 16) :
    ld16 e (adjustCheck e true off adj m) off = 0 ↔ ld16 e m off = 0 := by
  rcases adjustCheck_cases (e := e) (m := m) true off adj with ⟨-, hz, h⟩ | ⟨hz, h⟩
  · rw [h]
  · have hne := hz rfl
    have hpos : 0 < (ld16 e m off).toNat := by
      have h := BitVec.toNat_ne.mp hne
      have hzero : (0 : BitVec 16).toNat = 0 := rfl
      omega
    have hrep := onesRep_pos (Nat.add_pos_left hpos adj.toNat)
    rw [h, ld16_st16_self]
    refine ⟨fun h₀ => ?_, fun h₀ => absurd h₀ hne⟩
    have h' := congrArg BitVec.toNat h₀
    rw [toNat_onesRep] at h'
    have hzero : (0 : BitVec 16).toNat = 0 := rfl
    omega

end Check

/-! ## One translation -/

/-- The source (`j = 0`) or the destination (`j = 1`) of a packet is replaced. -/
def translated (e : Endian) (udp : Bool) (off : Nat) (adj : BitVec 16) (j : Nat) (ip : BitVec 32)
    (port : BitVec 16) (m : Nat → UInt8) : Nat → UInt8 :=
  adjustCheck e udp off adj (st16 e (st32 e m (12 + 4 * j) ip) (20 + 2 * j) port)

section Translated

variable {e : Endian} {m : Nat → UInt8} {n : Nat} {udp : Bool} {k j : Nat} {adj : BitVec 16}
  {ip : BitVec 32} {port : BitVec 16}

/-- The stores of a translation other than that of the checksum. -/
theorem ld16_ports (hj : j < 2) (hk : 2 ≤ k) :
    ld16 e (st16 e (st32 e m (12 + 4 * j) ip) (20 + 2 * j) port) (20 + 2 * k) = ld16 e m (20 + 2 * k) := by
  rw [ld16_st16_of_ne _ (by omega), ld16_st32_of_ne _ (by omega)]

/-- The sum over the segment is the same, if the adjustment is right. -/
theorem segmentWords_translated (hj : j < 2) (hk : 2 ≤ k) (hn : 2 * k + 2 ≤ n)
    (hadj : (adj.toNat + (halves ip + port.toNat)) % 65535
      = (halves (ld32 e m (12 + 4 * j)) + (ld16 e m (20 + 2 * j)).toNat) % 65535)
    (hcheck : udp = true → ld16 e m (20 + 2 * k) ≠ 0) :
    (segmentWords e (translated e udp (20 + 2 * k) adj j ip port m) n).sum % 65535
      = (segmentWords e m n).sum % 65535 := by
  have haddr := segmentWords_st32 (e := e) (m := m) (n := n) ip hj
  have hport := segmentWords_st16 (e := e) (m := st32 e m (12 + 4 * j) ip) (n := n) port
    (by omega : 2 * j + 2 ≤ n)
  rw [ld16_st32_of_ne _ (by omega)] at hport
  unfold translated
  rcases adjustCheck_cases (e := e) (m := st16 e (st32 e m (12 + 4 * j) ip) (20 + 2 * j) port) udp
    (20 + 2 * k) adj with ⟨hu, hz, -⟩ | ⟨-, h⟩
  · rw [ld16_ports hj hk] at hz
    exact absurd hz (hcheck hu)
  · have hstore := segmentWords_st16 (e := e)
      (m := st16 e (st32 e m (12 + 4 * j) ip) (20 + 2 * j) port) (n := n)
      (BitVec.ofNat 16 (onesRep ((ld16 e m (20 + 2 * k)).toNat + adj.toNat))) hn
    rw [ld16_ports hj hk] at h hstore
    rw [toNat_onesRep] at hstore
    have hmod := onesRep_mod ((ld16 e m (20 + 2 * k)).toNat + adj.toNat)
    rw [h]
    omega

/-- The seed follows the pseudo header, if the adjustment is right. -/
theorem pseudoWords_translated (hj : j < 2) (hk : 2 ≤ k)
    (hadj : (adj.toNat + halves (ld32 e m (12 + 4 * j))) % 65535 = halves ip % 65535)
    (hcheck : 0 < (ld16 e m (20 + 2 * k)).toNat) :
    let m' := translated e udp (20 + 2 * k) adj j ip port m
    0 < (ld16 e m' (20 + 2 * k)).toNat ∧
      ((ld16 e m' (20 + 2 * k)).toNat + (pseudoWords e m n).sum) % 65535
        = ((ld16 e m (20 + 2 * k)).toNat + (pseudoWords e m' n).sum) % 65535 := by
  intro m'
  have haddr := pseudoWords_st32 (e := e) (m := m) (n := n) ip hj
  have hm' : m' = st16 e (st16 e (st32 e m (12 + 4 * j) ip) (20 + 2 * j) port) (20 + 2 * k)
      (BitVec.ofNat 16 (onesRep ((ld16 e m (20 + 2 * k)).toNat + adj.toNat))) := by
    rcases adjustCheck_cases (e := e) (m := st16 e (st32 e m (12 + 4 * j) ip) (20 + 2 * j) port) udp
      (20 + 2 * k) adj with ⟨-, hz, -⟩ | ⟨-, h⟩
    · rw [ld16_ports hj hk] at hz
      rw [hz] at hcheck
      exact absurd hcheck (Nat.lt_irrefl 0)
    · rw [ld16_ports hj hk] at h
      exact h
  have hnew : (ld16 e m' (20 + 2 * k)).toNat = onesRep ((ld16 e m (20 + 2 * k)).toNat + adj.toNat) := by
    rw [hm', ld16_st16_self, toNat_onesRep]
  have hpseudo : pseudoWords e m' n = pseudoWords e (st32 e m (12 + 4 * j) ip) n := by
    rw [hm', pseudoWords_st16 (by omega), pseudoWords_st16 (by omega)]
  have hmod := onesRep_mod ((ld16 e m (20 + 2 * k)).toNat + adj.toNat)
  have hpos := onesRep_pos (Nat.add_pos_left hcheck adj.toNat)
  rw [hnew, hpseudo]
  constructor
  · exact hpos
  · omega

end Translated

/-! ## The two translations -/

/-- What a match says about one side of a packet. -/
structure Side where
  on : Bool
  ip : BitVec 32
  port : BitVec 16
  xlateIp : BitVec 32
  xlatePort : BitVec 16
  csumAdjustment : BitVec 16
  partialCsumAdjustment : BitVec 16

/-- The adjustments are those of the translation. -/
def Side.Adjusted (d : Side) : Prop :=
  d.on = true →
    d.csumAdjustment = Sfe.csumAdjustment d.ip d.xlateIp d.port d.xlatePort ∧
      d.partialCsumAdjustment = Sfe.partialCsumAdjustment d.ip d.xlateIp

/-- A packet with one side translated. -/
def Side.apply (e : Endian) (d : Side) (csumPartial udp : Bool) (off j : Nat) (m : Nat → UInt8) :
    Nat → UInt8 :=
  if !d.on then m
  else
    translated e udp off (if csumPartial then d.partialCsumAdjustment else d.csumAdjustment) j d.xlateIp
      d.xlatePort m

def srcSide (cm : ConnectionMatch) : Side where
  on := cm.flags.xlateSrc
  ip := cm.matchSrcIp
  port := cm.matchSrcPort
  xlateIp := cm.xlateSrcIp
  xlatePort := cm.xlateSrcPort
  csumAdjustment := cm.xlateSrcCsumAdjustment
  partialCsumAdjustment := cm.xlateSrcPartialCsumAdjustment

def destSide (cm : ConnectionMatch) : Side where
  on := cm.flags.xlateDest
  ip := cm.matchDestIp
  port := cm.matchDestPort
  xlateIp := cm.xlateDestIp
  xlatePort := cm.xlateDestPort
  csumAdjustment := cm.xlateDestCsumAdjustment
  partialCsumAdjustment := cm.xlateDestPartialCsumAdjustment

theorem translateSrc_eq (e : Endian) (cm : ConnectionMatch) (csumPartial udp : Bool) (off : Nat)
    (m : Nat → UInt8) :
    translateSrc e cm csumPartial udp 20 off m = (srcSide cm).apply e csumPartial udp off 0 m := rfl

theorem translateDest_eq (e : Endian) (cm : ConnectionMatch) (csumPartial udp : Bool) (off : Nat)
    (m : Nat → UInt8) :
    translateDest e cm csumPartial udp 20 off m = (destSide cm).apply e csumPartial udp off 1 m := rfl

section Side

variable {e : Endian} {d : Side} {csumPartial udp : Bool} {k j n : Nat} {m : Nat → UInt8}

theorem Side.apply_of_ne (hj : j < 2) {i : Nat} (haddr : i < 12 + 4 * j ∨ 16 + 4 * j ≤ i)
    (hport : i < 20 + 2 * j ∨ 22 + 2 * j ≤ i) (hcheck : i < 20 + 2 * k ∨ 22 + 2 * k ≤ i) :
    d.apply e csumPartial udp (20 + 2 * k) j m i = m i := by
  unfold Side.apply translated
  split
  · rfl
  · rw [adjustCheck_of_ne _ (by omega) (by omega), st16_of_ne _ (by omega) (by omega),
      st32_of_lt _ (by omega)]

/-- The side is replaced. -/
theorem Side.apply_self (csumPartial udp : Bool) (hj : j < 2) (hk : 2 ≤ k) :
    ld32 e (d.apply e csumPartial udp (20 + 2 * k) j m) (12 + 4 * j)
        = (if d.on then d.xlateIp else ld32 e m (12 + 4 * j)) ∧
      ld16 e (d.apply e csumPartial udp (20 + 2 * k) j m) (20 + 2 * j)
        = (if d.on then d.xlatePort else ld16 e m (20 + 2 * j)) := by
  unfold Side.apply translated
  cases d.on with
  | false => exact ⟨rfl, rfl⟩
  | true =>
    constructor
    · refine (ld32_congr fun i hi => adjustCheck_of_ne _ (by omega) (by omega)).trans ?_
      rw [ld32_st16_of_ne _ (by omega), ld32_st32_self]
      rfl
    · refine (ld16_congr (adjustCheck_of_ne _ (by omega) (by omega))
        (adjustCheck_of_ne _ (by omega) (by omega))).trans ?_
      rw [ld16_st16_self]
      rfl

theorem Side.apply_eq_zero (hj : j < 2) (hk : 2 ≤ k) :
    ld16 e (d.apply e csumPartial true (20 + 2 * k) j m) (20 + 2 * k) = 0 ↔ ld16 e m (20 + 2 * k) = 0 := by
  unfold Side.apply translated
  split
  · exact Iff.rfl
  · rw [adjustCheck_eq_zero, ld16_ports hj hk]

theorem Side.apply_sum (udp : Bool) (hj : j < 2) (hk : 2 ≤ k) (hn : 2 * k + 2 ≤ n) (hd : d.Adjusted)
    (hip : ld32 e m (12 + 4 * j) = d.ip) (hport : ld16 e m (20 + 2 * j) = d.port)
    (hcheck : udp = true → ld16 e m (20 + 2 * k) ≠ 0) :
    (segmentWords e (d.apply e false udp (20 + 2 * k) j m) n).sum % 65535
      = (segmentWords e m n).sum % 65535 := by
  unfold Side.apply
  cases hon : d.on with
  | false => rfl
  | true =>
    refine segmentWords_translated hj hk hn ?_ hcheck
    rw [hip, hport]
    have hadj := csumAdjustment_mod d.ip d.xlateIp d.port d.xlatePort
    rw [← (hd hon).1] at hadj
    exact hadj

theorem Side.apply_seed (udp : Bool) (hj : j < 2) (hk : 2 ≤ k) (hd : d.Adjusted) (hip : ld32 e m (12 + 4 * j) = d.ip)
    (hcheck : 0 < (ld16 e m (20 + 2 * k)).toNat) :
    let m' := d.apply e true udp (20 + 2 * k) j m
    0 < (ld16 e m' (20 + 2 * k)).toNat ∧
      ((ld16 e m' (20 + 2 * k)).toNat + (pseudoWords e m n).sum) % 65535
        = ((ld16 e m (20 + 2 * k)).toNat + (pseudoWords e m' n).sum) % 65535 := by
  unfold Side.apply
  cases hon : d.on with
  | false => exact ⟨hcheck, rfl⟩
  | true =>
    refine pseudoWords_translated hj hk ?_ hcheck
    rw [hip]
    have hadj := partialCsumAdjustment_mod d.ip d.xlateIp
    rw [← (hd hon).2] at hadj
    exact hadj

end Side

/-! ## The header checksum -/

section Header

variable {e : Endian} {m : Nat → UInt8}

/-- A header with the checksum of `sfe_ipv4_gen_ip_csum` verifies. -/
theorem onesSum_genIpCsum (h : 0 < (ld16 e m 0).toNat) :
    onesSum (words e (st16 e m 10 (genIpCsum e m)) 0 20) = 65535 := by
  have hsum : ∀ q : Nat → UInt8, (words e q 0 20).sum = (ld16 e q (2 * 0)).toNat + (ld16 e q (2 * 1)).toNat
      + (ld16 e q (2 * 2)).toNat + (ld16 e q (2 * 3)).toNat + (ld16 e q (2 * 4)).toNat
      + (ld16 e q (2 * 5)).toNat + (ld16 e q (2 * 6)).toNat + (ld16 e q (2 * 7)).toNat
      + (ld16 e q (2 * 8)).toNat + (ld16 e q (2 * 9)).toNat := by
    intro q
    simp only [words, List.sum_cons, List.sum_nil, Nat.reduceAdd, Nat.reduceMul, Nat.zero_add, Nat.mul_zero]
    omega
  have hlt : (words e (st16 e m 10 0) 0 20).sum < 2 ^ 32 := by
    have hw := fun j => (ld16 e (st16 e m 10 0) (2 * j)).isLt
    have h₀ := hw 0; have h₁ := hw 1; have h₂ := hw 2; have h₃ := hw 3; have h₄ := hw 4
    have h₅ := hw 5; have h₆ := hw 6; have h₇ := hw 7; have h₈ := hw 8; have h₉ := hw 9
    rw [hsum]
    omega
  have hpos : 0 < (words e (st16 e m 10 0) 0 20).sum := by
    have hfirst : ld16 e (st16 e m 10 0) (2 * 0) = ld16 e m 0 := ld16_st16_of_ne _ (by omega)
    rw [hsum, hfirst]
    omega
  have hgen : (genIpCsum e m).toNat = 65535 - onesRep (words e (st16 e m 10 0) 0 20).sum := by
    have hle := onesRep_le (words e (st16 e m 10 0) 0 20).sum
    have hones : (0xffff#16 : BitVec 16) = BitVec.allOnes 16 := rfl
    unfold genIpCsum
    dsimp only
    rw [← hsum, fold16_fold16 hlt, hones, BitVec.xor_allOnes, BitVec.toNat_not, toNat_onesRep]
  have hle := onesRep_le (words e (st16 e m 10 0) 0 20).sum
  have hmod := onesRep_mod (words e (st16 e m 10 0) 0 20).sum
  have hzero := words_st16_sum (e := e) (m := m) 0 5 0 20 (by omega)
  have hnew := words_st16_sum (e := e) (m := m) (genIpCsum e m) 5 0 20 (by omega)
  have hten : 0 + 2 * 5 = 10 := rfl
  have hnull : (0 : BitVec 16).toNat = 0 := rfl
  rw [hten] at hzero hnew
  rw [hnull] at hzero
  rw [onesSum_eq (words_lt _ _), onesRep_eq_ones_iff (by omega)]
  omega

end Header

/-! ## A packet that is rewritten -/

/-- What is right about the checksums of a packet that leaves as `m'`. The segment is
taken to have any number of bytes. -/
structure ChecksumsOk (e : Endian) (cm : ConnectionMatch) (csumPartial : Bool) (m m' : Nat → UInt8) : Prop where
  srcIp : ld32 e m' 12 = if cm.flags.xlateSrc then cm.xlateSrcIp else ld32 e m 12
  srcPort : ld16 e m' 20 = if cm.flags.xlateSrc then cm.xlateSrcPort else ld16 e m 20
  destIp : ld32 e m' 16 = if cm.flags.xlateDest then cm.xlateDestIp else ld32 e m 16
  destPort : ld16 e m' 22 = if cm.flags.xlateDest then cm.xlateDestPort else ld16 e m 22
  protocol : ipProtocol m' 0 = ipProtocol m 0
  /-- A valid checksum is valid after the translation, an invalid one is not. -/
  transport : csumPartial = false → ∀ n, TransportOk e m' n ↔ TransportOk e m n
  /-- The seed of a partial checksum is that of the new pseudo header. -/
  seed : csumPartial = true → ∀ n, Seeded e m n → Seeded e m' n
  /-- A UDP checksum that is there stays there. -/
  udpZero : ipProtocol m 0 = ipprotoUdp → (ld16 e m' (checkOff m') = 0 ↔ ld16 e m (checkOff m) = 0)
  header : onesSum (words e m' 0 20) = 65535

section Rewrite

variable {e : Endian} {cm : ConnectionMatch} {m : Nat → UInt8}

theorem remark_of_ne {i : Nat} (h₁ : i ≠ 1) (h₈ : i ≠ 8) : remark cm m i = m i := by
  unfold remark st8
  rw [if_neg h₈]
  split
  · exact if_neg h₁
  · rfl

/-- The packet with both sides translated. -/
def bothSides (e : Endian) (cm : ConnectionMatch) (csumPartial udp : Bool) (off : Nat) (m : Nat → UInt8) :
    Nat → UInt8 :=
  (destSide cm).apply e csumPartial udp off 1 ((srcSide cm).apply e csumPartial udp off 0 (remark cm m))

theorem rewritePacket_eq (csumPartial udp : Bool) (off : Nat) :
    rewritePacket e cm csumPartial udp 20 off m
      = st16 e (bothSides e cm csumPartial udp off m) 10 (genIpCsum e (bothSides e cm csumPartial udp off m)) :=
  rfl

section Both

variable {csumPartial udp : Bool} {k n : Nat}

theorem bothSides_of_lt (k : Nat) {i : Nat} (h₁ : i ≠ 1) (h₈ : i ≠ 8) (h : i < 12) :
    bothSides e cm csumPartial udp (20 + 2 * k) m i = m i := by
  unfold bothSides
  rw [Side.apply_of_ne (by omega) (by omega) (by omega) (by omega),
    Side.apply_of_ne (by omega) (by omega) (by omega) (by omega), remark_of_ne h₁ h₈]

/-- The source is not touched by the second translation, nor the destination by the
first. -/
theorem bothSides_addresses (cm : ConnectionMatch) (csumPartial udp : Bool) (hk : 2 ≤ k) :
    let m' := bothSides e cm csumPartial udp (20 + 2 * k) m
    ld32 e m' 12 = (if cm.flags.xlateSrc then cm.xlateSrcIp else ld32 e m 12) ∧
      ld16 e m' 20 = (if cm.flags.xlateSrc then cm.xlateSrcPort else ld16 e m 20) ∧
      ld32 e m' 16 = (if cm.flags.xlateDest then cm.xlateDestIp else ld32 e m 16) ∧
      ld16 e m' 22 = (if cm.flags.xlateDest then cm.xlateDestPort else ld16 e m 22) := by
  intro m'
  have hsrc := Side.apply_self (e := e) (d := srcSide cm) (m := remark cm m) csumPartial udp (by omega : 0 < 2) hk
  have hdest := Side.apply_self (e := e) (d := destSide cm)
    (m := (srcSide cm).apply e csumPartial udp (20 + 2 * k) 0 (remark cm m)) csumPartial udp (by omega : 1 < 2) hk
  have hafter : ∀ i, 12 ≤ i → i < 16 ∨ i = 20 ∨ i = 21 →
      m' i = (srcSide cm).apply e csumPartial udp (20 + 2 * k) 0 (remark cm m) i := fun i h₁ h₂ =>
    Side.apply_of_ne (by omega) (by omega) (by omega) (by omega)
  have hbefore : ∀ i, 16 ≤ i → i < 20 ∨ i = 22 ∨ i = 23 →
      (srcSide cm).apply e csumPartial udp (20 + 2 * k) 0 (remark cm m) i = m i := fun i h₁ h₂ =>
    (Side.apply_of_ne (by omega) (by omega) (by omega) (by omega)).trans
      (remark_of_ne (by omega) (by omega))
  have hmark : ∀ i, 12 ≤ i → remark cm m i = m i := fun i hi => remark_of_ne (by omega) (by omega)
  have hmark32 : ld32 e (remark cm m) 12 = ld32 e m 12 := ld32_congr fun i hi => hmark _ (by omega)
  have hmark16 : ld16 e (remark cm m) 20 = ld16 e m 20 := ld16_congr (hmark _ (by omega)) (hmark _ (by omega))
  have hdest32 : ld32 e ((srcSide cm).apply e csumPartial udp (20 + 2 * k) 0 (remark cm m)) 16 = ld32 e m 16 :=
    ld32_congr fun i hi => hbefore _ (by omega) (by omega)
  have hdest16 : ld16 e ((srcSide cm).apply e csumPartial udp (20 + 2 * k) 0 (remark cm m)) 22 = ld16 e m 22 :=
    ld16_congr (hbefore _ (by omega) (by omega)) (hbefore _ (by omega) (by omega))
  refine ⟨?_, ?_, ?_, ?_⟩
  · refine (ld32_congr fun i hi => hafter _ (by omega) (by omega)).trans (hsrc.1.trans ?_)
    exact if_congr Iff.rfl rfl hmark32
  · refine (ld16_congr (hafter _ (by omega) (by omega)) (hafter _ (by omega) (by omega))).trans (hsrc.2.trans ?_)
    exact if_congr Iff.rfl rfl hmark16
  · exact hdest.1.trans (if_congr Iff.rfl rfl hdest32)
  · exact hdest.2.trans (if_congr Iff.rfl rfl hdest16)

/-- What the two translations read of the packet. -/
structure Keyed (e : Endian) (cm : ConnectionMatch) (m : Nat → UInt8) : Prop where
  srcIp : ld32 e m 12 = cm.matchSrcIp
  srcPort : ld16 e m 20 = cm.matchSrcPort
  destIp : ld32 e m 16 = cm.matchDestIp
  destPort : ld16 e m 22 = cm.matchDestPort

theorem Keyed.remark (h : Keyed e cm m) : Keyed e cm (remark cm m) := by
  have hmark : ∀ i, 12 ≤ i → Sfe.remark cm m i = m i := fun i hi => remark_of_ne (by omega) (by omega)
  refine ⟨?_, ?_, ?_, ?_⟩
  · rw [ld32_congr fun i hi => hmark _ (by omega), h.srcIp]
  · rw [ld16_congr (hmark _ (by omega)) (hmark _ (by omega)), h.srcPort]
  · rw [ld32_congr fun i hi => hmark _ (by omega), h.destIp]
  · rw [ld16_congr (hmark _ (by omega)) (hmark _ (by omega)), h.destPort]

/-- The first translation leaves the destination as it is. -/
theorem Keyed.afterSrc (h : Keyed e cm m) (hk : 2 ≤ k) :
    ld32 e ((srcSide cm).apply e csumPartial udp (20 + 2 * k) 0 m) (12 + 4 * 1) = cm.matchDestIp ∧
      ld16 e ((srcSide cm).apply e csumPartial udp (20 + 2 * k) 0 m) (20 + 2 * 1) = cm.matchDestPort := by
  have hsame : ∀ i, 16 ≤ i → i < 20 ∨ i = 22 ∨ i = 23 →
      (srcSide cm).apply e csumPartial udp (20 + 2 * k) 0 m i = m i := fun i h₁ h₂ =>
    Side.apply_of_ne (by omega) (by omega) (by omega) (by omega)
  constructor
  · rw [ld32_congr fun i hi => hsame _ (by omega) (by omega)]
    exact h.destIp
  · rw [ld16_congr (hsame _ (by omega) (by omega)) (hsame _ (by omega) (by omega))]
    exact h.destPort

theorem segmentWords_remark : segmentWords e (remark cm m) n = segmentWords e m n :=
  segmentWords_congr (remark_of_ne (by omega) (by omega)) fun i hi => remark_of_ne (by omega) (by omega)

theorem pseudoWords_remark : pseudoWords e (remark cm m) n = pseudoWords e m n :=
  pseudoWords_congr (remark_of_ne (by omega) (by omega)) fun i hi => remark_of_ne (by omega) (by omega)

theorem ld16_remark {a : Nat} (ha : 12 ≤ a) : ld16 e (remark cm m) a = ld16 e m a :=
  ld16_congr (remark_of_ne (by omega) (by omega)) (remark_of_ne (by omega) (by omega))

/-- A UDP checksum is zero after the translations if it was. -/
theorem bothSides_eq_zero (hk : 2 ≤ k) :
    ld16 e (bothSides e cm csumPartial true (20 + 2 * k) m) (20 + 2 * k) = 0 ↔ ld16 e m (20 + 2 * k) = 0 := by
  unfold bothSides
  rw [Side.apply_eq_zero (by omega) hk, Side.apply_eq_zero (by omega) hk, ld16_remark (by omega)]

theorem bothSides_sum (hk : 2 ≤ k) (hn : 2 * k + 2 ≤ n) (hsrc : (srcSide cm).Adjusted)
    (hdest : (destSide cm).Adjusted) (h : Keyed e cm m) (hcheck : udp = true → ld16 e m (20 + 2 * k) ≠ 0) :
    (segmentWords e (bothSides e cm false udp (20 + 2 * k) m) n).sum % 65535
      = (segmentWords e m n).sum % 65535 := by
  have hmid : udp = true →
      ld16 e ((srcSide cm).apply e false udp (20 + 2 * k) 0 (remark cm m)) (20 + 2 * k) ≠ 0 := by
    rintro rfl
    rw [Ne, Side.apply_eq_zero (by omega) hk, ld16_remark (by omega)]
    exact hcheck rfl
  have hfirst := Side.apply_sum (e := e) (n := n) (d := srcSide cm) (m := remark cm m) udp
    (by omega : 0 < 2) hk hn hsrc h.remark.srcIp h.remark.srcPort
    (fun hu => by rw [ld16_remark (by omega)]; exact hcheck hu)
  have hsecond := Side.apply_sum (e := e) (n := n) (d := destSide cm)
    (m := (srcSide cm).apply e false udp (20 + 2 * k) 0 (remark cm m)) udp
    (by omega : 1 < 2) hk hn hdest (h.remark.afterSrc hk).1 (h.remark.afterSrc hk).2 hmid
  unfold bothSides
  rw [hsecond, hfirst, segmentWords_remark]

theorem bothSides_seed (hk : 2 ≤ k) (hsrc : (srcSide cm).Adjusted) (hdest : (destSide cm).Adjusted)
    (h : Keyed e cm m) (hcheck : 0 < (ld16 e m (20 + 2 * k)).toNat) :
    let m' := bothSides e cm true udp (20 + 2 * k) m
    0 < (ld16 e m' (20 + 2 * k)).toNat ∧
      ((ld16 e m' (20 + 2 * k)).toNat + (pseudoWords e m n).sum) % 65535
        = ((ld16 e m (20 + 2 * k)).toNat + (pseudoWords e m' n).sum) % 65535 := by
  intro m'
  have hcheck' : 0 < (ld16 e (remark cm m) (20 + 2 * k)).toNat := by
    rw [ld16_remark (by omega)]
    exact hcheck
  obtain ⟨hpos, hfirst⟩ := Side.apply_seed (e := e) (n := n) (d := srcSide cm) udp
    (by omega : 0 < 2) hk hsrc h.remark.srcIp hcheck'
  obtain ⟨hpos', hsecond⟩ := Side.apply_seed (e := e) (n := n) (d := destSide cm) udp
    (by omega : 1 < 2) hk hdest (h.remark.afterSrc hk).1 hpos
  rw [pseudoWords_remark, ld16_remark (by omega)] at hfirst
  refine ⟨hpos', ?_⟩
  have hm' : (destSide cm).apply e true udp (20 + 2 * k) 1
      ((srcSide cm).apply e true udp (20 + 2 * k) 0 (remark cm m)) = m' := rfl
  rw [hm'] at hsecond
  omega

end Both

/-- The word of the checksum in the segment. -/
def checkWord (m : Nat → UInt8) : Nat := if ipProtocol m 0 = ipprotoUdp then 3 else 8

theorem checkOff_eq : checkOff m = 20 + 2 * checkWord m := by
  unfold checkOff checkWord
  split
  · rfl
  · rfl

theorem checkWord_bounds : 2 ≤ checkWord m ∧ 2 * checkWord m + 2 ≤ transportHdrLen m := by
  unfold checkWord transportHdrLen
  split
  · omega
  · omega

/-- Whoever has the protocol has the checksum at the same place. -/
theorem checkWord_congr {m' : Nat → UInt8} (h : ipProtocol m' 0 = ipProtocol m 0) :
    checkWord m' = checkWord m ∧ transportHdrLen m' = transportHdrLen m := by
  unfold checkWord transportHdrLen
  rw [h]
  exact ⟨rfl, rfl⟩

theorem checkOff_congr {m' : Nat → UInt8} (h : ipProtocol m' 0 = ipProtocol m 0) : checkOff m' = checkOff m := by
  rw [checkOff_eq, checkOff_eq, (checkWord_congr h).1]

/-- Sums that are congruent verify together. -/
theorem transportOk_congr {m' : Nat → UInt8} {n : Nat} (hp : ipProtocol m' 0 = ipProtocol m 0)
    (hprotocol : ipProtocol m 0 ≠ 0)
    (hzero : ipProtocol m 0 = ipprotoUdp → (ld16 e m' (checkOff m) = 0 ↔ ld16 e m (checkOff m) = 0))
    (hsum : transportHdrLen m ≤ n → (ipProtocol m 0 = ipprotoUdp → ld16 e m (checkOff m) ≠ 0) →
      (segmentWords e m' n).sum % 65535 = (segmentWords e m n).sum % 65535) :
    TransportOk e m' n ↔ TransportOk e m n := by
  unfold TransportOk
  rw [(checkWord_congr hp).2, checkOff_congr hp, hp]
  refine and_congr_right fun hn => ?_
  by_cases hnone : ipProtocol m 0 = ipprotoUdp ∧ ld16 e m (checkOff m) = 0
  · exact ⟨fun _ => Or.inl hnone, fun _ => Or.inl ⟨hnone.1, (hzero hnone.1).mpr hnone.2⟩⟩
  · have hnone' : ¬ (ipProtocol m 0 = ipprotoUdp ∧ ld16 e m' (checkOff m) = 0) := fun h =>
      hnone ⟨h.1, (hzero h.1).mp h.2⟩
    rw [or_iff_right hnone, or_iff_right hnone', onesSum_segmentWords (by rw [hp]; exact hprotocol),
      onesSum_segmentWords hprotocol, hsum hn fun hu hz => hnone ⟨hu, hz⟩]

/-- A field that follows the pseudo header stays its seed. -/
theorem seeded_congr {m' : Nat → UInt8} {n : Nat} (hp : ipProtocol m' 0 = ipProtocol m 0)
    (hprotocol : ipProtocol m 0 ≠ 0)
    (hsum : 0 < (ld16 e m (checkOff m)).toNat →
      0 < (ld16 e m' (checkOff m)).toNat ∧
        ((ld16 e m' (checkOff m)).toNat + (pseudoWords e m n).sum) % 65535
          = ((ld16 e m (checkOff m)).toNat + (pseudoWords e m' n).sum) % 65535)
    (h : Seeded e m n) : Seeded e m' n := by
  have hprotocol' : ipProtocol m' 0 ≠ 0 := by
    rw [hp]
    exact hprotocol
  have hw := pseudoWords_pos (e := e) (n := n) hprotocol
  have hw' := pseudoWords_pos (e := e) (n := n) hprotocol'
  have hlt := (ld16 e m' (checkOff m)).isLt
  unfold Seeded at h ⊢
  rw [onesSum_eq pseudoWords_lt] at h
  have hpos : 0 < (ld16 e m (checkOff m)).toNat := by
    rw [h]
    exact onesRep_pos hw
  obtain ⟨hpos', hcong⟩ := hsum hpos
  have hmod := onesRep_mod (pseudoWords e m n).sum
  rw [checkOff_congr hp, onesSum_eq pseudoWords_lt, ← onesRep_of_lt hlt, onesRep_eq_iff hpos' hw']
  omega

/-- A packet whose match has the right adjustments leaves with the right checksums. -/
theorem checksumsOk_rewrite (csumPartial : Bool) (hversion : ipVersion m 0 = 4) (hprotocol : ipProtocol m 0 ≠ 0)
    (hsrc : (srcSide cm).Adjusted) (hdest : (destSide cm).Adjusted) (h : Keyed e cm m) :
    ChecksumsOk e cm csumPartial m
      (rewritePacket e cm csumPartial (decide (ipProtocol m 0 = ipprotoUdp)) 20 (checkOff m) m) := by
  obtain ⟨hk, hhdr⟩ := checkWord_bounds (m := m)
  obtain ⟨udp, hudp⟩ : ∃ udp, udp = decide (ipProtocol m 0 = ipprotoUdp) := ⟨_, rfl⟩
  obtain ⟨b, hb⟩ : ∃ b, b = bothSides e cm csumPartial udp (20 + 2 * checkWord m) m := ⟨_, rfl⟩
  have hm' : rewritePacket e cm csumPartial (decide (ipProtocol m 0 = ipprotoUdp)) 20 (checkOff m) m
      = st16 e b 10 (genIpCsum e b) := by
    rw [rewritePacket_eq, checkOff_eq, ← hudp, hb]
  have hbyte : ∀ {i}, i = 0 ∨ i = 9 → b i = m i := by
    intro i hi
    rw [hb]
    exact bothSides_of_lt _ (by omega) (by omega) (by omega)
  have haddr := bothSides_addresses (e := e) (m := m) cm csumPartial udp hk
  rw [← hb] at haddr
  have hsame : ∀ i, i < 10 ∨ 12 ≤ i → st16 e b 10 (genIpCsum e b) i = b i := fun i hi =>
    st16_of_ne _ (by omega) (by omega)
  have hp : ipProtocol (st16 e b 10 (genIpCsum e b)) 0 = ipProtocol m 0 :=
    congrArg UInt8.toBitVec ((hsame 9 (by omega)).trans (hbyte (by omega)))
  have hcheck : ld16 e (st16 e b 10 (genIpCsum e b)) (checkOff m) = ld16 e b (20 + 2 * checkWord m) := by
    rw [checkOff_eq, ld16_st16_of_ne _ (by omega)]
  have hzero : ipProtocol m 0 = ipprotoUdp → (ld16 e (st16 e b 10 (genIpCsum e b)) (checkOff m) = 0 ↔
      ld16 e m (checkOff m) = 0) := by
    intro hu
    have htrue : udp = true := by
      rw [hudp]
      exact decide_eq_true hu
    rw [hcheck, hb, htrue, bothSides_eq_zero hk, checkOff_eq]
  have hsegment : ∀ n, segmentWords e (st16 e b 10 (genIpCsum e b)) n = segmentWords e b n := fun n =>
    segmentWords_congr (hsame 9 (by omega)) fun i hi => hsame i (by omega)
  have hpseudo : ∀ n, pseudoWords e (st16 e b 10 (genIpCsum e b)) n = pseudoWords e b n := fun n =>
    pseudoWords_congr (hsame 9 (by omega)) fun i hi => hsame i (by omega)
  rw [hm']
  constructor
  case srcIp => rw [ld32_st16_of_ne _ (by omega), haddr.1]
  case srcPort => rw [ld16_st16_of_ne _ (by omega), haddr.2.1]
  case destIp => rw [ld32_st16_of_ne _ (by omega), haddr.2.2.1]
  case destPort => rw [ld16_st16_of_ne _ (by omega), haddr.2.2.2]
  case protocol => exact hp
  case transport =>
    rintro rfl n
    refine transportOk_congr hp hprotocol hzero fun hn hc => ?_
    rw [hsegment, hb]
    refine bothSides_sum hk (by omega) hsrc hdest h fun hu => ?_
    rw [← checkOff_eq]
    exact hc (of_decide_eq_true (hudp ▸ hu))
  case seed =>
    rintro rfl n hs
    refine seeded_congr hp hprotocol (fun hc => ?_) hs
    rw [hcheck, hpseudo, hb]
    rw [checkOff_eq] at hc ⊢
    exact bothSides_seed hk hsrc hdest h hc
  case udpZero =>
    intro hu
    rw [checkOff_congr hp]
    exact hzero hu
  case header =>
    refine onesSum_genIpCsum ?_
    have hfirst : (b 0).toNat / 16 = 4 := by
      rw [hbyte (by omega)]
      exact hversion
    have hlt := (b 0).toNat_lt
    have hlt' := (b (0 + 1)).toNat_lt
    unfold ld16
    cases e with
    | little =>
      rw [BitVec.toNat_ofNat]
      omega
    | big =>
      rw [BitVec.toNat_ofNat]
      omega

end Rewrite

/-! ## Every packet -/

section Runs

variable {e : Endian} {s s' : System} {evs : List Event}

/-- The adjustments of a match are those of its translations. -/
def Adjusted (cm : ConnectionMatch) : Prop := (srcSide cm).Adjusted ∧ (destSide cm).Adjusted

theorem adjusted_computeTranslations (cm : ConnectionMatch) : Adjusted (computeTranslations cm) := by
  constructor
  · intro hon
    have hflag : cm.flags.xlateSrc = true := hon
    exact ⟨if_pos hflag, if_pos hflag⟩
  · intro hon
    have hflag : cm.flags.xlateDest = true := hon
    exact ⟨if_pos hflag, if_pos hflag⟩

/-- They are written when the match is created only. -/
theorem Adjusted.core {cm cm' : ConnectionMatch} (hcore : matchCore cm' = matchCore cm) (h : Adjusted cm) :
    Adjusted cm' := by
  have hm : Adjusted (matchCore cm) := ⟨h.1, h.2⟩
  rw [← hcore] at hm
  exact ⟨hm.1, hm.2⟩

/-- The matches in use have their adjustments. -/
def AllAdjusted (s : System) : Prop := ∀ a, LiveMatch s a → Adjusted (s.si.cm a)

theorem AllAdjusted.step (h : AllAdjusted s) (hw : WellFormed e s) (hstep : Step e s evs s') : AllAdjusted s' := by
  intro a ha
  rcases step_created_or_quiet hw hstep with ⟨sic, mem, now, hnew, -⟩ | hquiet
  · rcases (hnew.liveMatch hw a).mp ha with hold | rfl | rfl
    · exact (h a hold).core (hnew.cm (hold.mem_cms hw))
    · exact (adjusted_computeTranslations _).core hnew.original_eq
    · exact (adjusted_computeTranslations _).core hnew.reply_eq
  · exact (h a (hquiet.liveMatch ha)).core (hquiet.core.cm a)

theorem reachable_allAdjusted (h : Reachable e s) : AllAdjusted s := by
  obtain ⟨cm, conn, evs, hrun⟩ := h
  induction hrun with
  | refl =>
    rintro a ⟨c, hc, -⟩
    cases hc.1
  | step hrun hstep ih => exact ih.step ((wellFormed_init cm conn).run hrun) hstep

end Runs

/-- A packet that the fast path forwards leaves with the right checksums. -/
theorem forwarded_checksumsOk (e : Endian) (s : System) (dev : BitVec 64) (skb : Skb) (a : Nat) (out : Out)
    (si : SfeIpv4) (hreach : Reachable e s) (h : recv e s.si dev skb = (.forwarded a out, si)) :
    ChecksumsOk e (s.si.cm a) skb.csumPartial skb.data out.data := by
  have hfwd := recv_forwarded h
  obtain ⟨hlive, hkey⟩ := (reachable_wellFormed hreach).find_some hfwd.found
  obtain ⟨hsrc, hdest⟩ := reachable_allAdjusted hreach a hlive
  have hkeyed : Keyed e (s.si.cm a) skb.data :=
    ⟨(congrArg MatchKey.matchSrcIp hkey).symm, (congrArg MatchKey.matchSrcPort hkey).symm,
      (congrArg MatchKey.matchDestIp hkey).symm, (congrArg MatchKey.matchDestPort hkey).symm⟩
  have hprotocol : ipProtocol skb.data 0 ≠ 0 := by
    rcases hfwd.protocol with ⟨hp, -⟩ | ⟨hp, -⟩
    · rw [hp]
      decide
    · rw [hp]
      decide
  have hok := checksumsOk_rewrite skb.csumPartial hfwd.version hprotocol hsrc hdest hkeyed
  rw [hfwd.out_eq]
  exact hok

/-- The packet of `oneRule` with a checksum. -/
def udpSummed : Skb :=
  { udpPacket with data := fun i => if i = 26 then 0xd1 else if i = 27 then 0xca else udpPacket.data i }

/-- It verifies, and it does with the translated source. -/
theorem forwarded_checksumsOk_udpSummed : ∃ out si,
    recv .little oneRule.si 1 udpSummed = (.forwarded 1 out, si) ∧
      ChecksumsOk .little (oneRule.si.cm 1) false udpSummed.data out.data ∧
      TransportOk .little udpSummed.data 8 ∧ TransportOk .little out.data 8 := by
  have hreach : Reachable .little oneRule := by
    refine reachable_create created_oneRule.1 _ ?_
    simp [Alloc.Fresh, registeredSystem, zeroSystem, initSystem]
  have hfirst : (recv .little oneRule.si 1 udpSummed).1.forwarder = some 1 := by decide +kernel
  have hvalid : TransportOk .little udpSummed.data 8 := by
    unfold TransportOk
    decide +kernel
  cases hr : recv .little oneRule.si 1 udpSummed with
  | mk v si =>
    rw [hr] at hfirst
    obtain ⟨out, rfl⟩ := Verdict.exists_out hfirst
    have hok := forwarded_checksumsOk .little oneRule 1 udpSummed 1 out si hreach hr
    exact ⟨out, si, rfl, hok, hvalid, (hok.transport rfl 8).mpr hvalid⟩

end Lede.Sfe
