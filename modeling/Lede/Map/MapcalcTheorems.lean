/-
Lede.Map.MapcalcTheorems — the addresses of a MAP rule, bit by bit.

`bmemcpy` copies a bit string (`bit_bmemcpy`), and `bmemcpys64` the bit string from
some position on (`bit_bmemcpys64`), as long as it fits the 64-bit buffer. The
addresses follow from these two.
-/
import Lede.Map.Mapcalc

namespace Lede.Map

open Lede.Lib

/-! ## Copies -/

section Copies

variable (a b : Nat → UInt8)

theorem testBit_mask (k : Nat) {j : Nat} (hj : j < 8) :
    (UInt8.ofNat (2 ^ (8 - k) - 1)).toNat.testBit j = decide (j < 8 - k) := by
  rw [UInt8.toNat_ofNat', Nat.testBit_mod_two_pow, Nat.testBit_two_pow_sub_one]
  simp [hj]

theorem testBit_not (x : UInt8) {j : Nat} (hj : j < 8) :
    (~~~x).toNat.testBit j = !x.toNat.testBit j := by
  have hx := x.toNat_lt
  have hsub : UInt8.size - 1 - x.toNat = 2 ^ 8 - (x.toNat + 1) := by
    change 256 - 1 - x.toNat = 2 ^ 8 - (x.toNat + 1)
    omega
  rw [UInt8.toNat_not, hsub, Nat.testBit_two_pow_sub_succ hx]
  simp [hj]

theorem bit_bmemcpy (n i : Nat) : bit (bmemcpy a b n) i = if i < n then bit b i else bit a i := by
  have hj : 7 - i % 8 < 8 := by omega
  rcases Nat.lt_trichotomy (i / 8) (n / 8) with hlt | heq | hgt
  · have hin : i < n := by omega
    unfold bit bmemcpy
    rw [if_pos hlt, if_pos hin]
  · by_cases hpos : 0 < n % 8
    · -- the byte that is copied in part
      have hmask := testBit_mask (n % 8) hj
      unfold bit bmemcpy
      rw [if_neg (by omega), if_pos ⟨heq, hpos⟩]
      dsimp only
      rw [UInt8.toNat_or, UInt8.toNat_and, UInt8.toNat_and, Nat.testBit_or, Nat.testBit_and,
        Nat.testBit_and, hmask, testBit_not _ hj, hmask]
      by_cases hin : i < n
      · have hj' : ¬ 7 - i % 8 < 8 - n % 8 := by omega
        simp [hin, hj']
      · have hj' : 7 - i % 8 < 8 - n % 8 := by omega
        simp [hin, hj']
    · have hout : ¬ i < n := by omega
      unfold bit bmemcpy
      rw [if_neg (by omega), if_neg (fun h => hpos h.2), if_neg hout]
  · have hout : ¬ i < n := by omega
    unfold bit bmemcpy
    rw [if_neg (by omega), if_neg (by omega), if_neg hout]

/-- The bits from `frombits` on, as long as they fit behind the first of them in
the buffer. -/
theorem bit_bmemcpys64 {frombits nbits : Nat} (i : Nat) (hfit : frombits % 8 + nbits ≤ 64) :
    bit (bmemcpys64 a b frombits nbits) i = if i < nbits then bit b (frombits + i) else bit a i := by
  unfold bmemcpys64
  dsimp only
  rw [bit_bmemcpy]
  by_cases hi : i < nbits
  · rw [if_pos hi, if_pos hi, bit_beBytes _ (by omega), Nat.testBit_mod_two_pow,
      Nat.testBit_mul_two_pow, testBit_beNat _ _ (by omega)]
    -- the bit lies among the bytes that were read
    have hpos : 8 * 8 - 1 - (8 * 8 - 1 - i - frombits % 8) = frombits % 8 + i := by omega
    have hdiv : (frombits % 8 + i) / 8 < (frombits + nbits) / 8 - frombits / 8 + 1 := by omega
    have hbyte : frombits / 8 + (frombits % 8 + i) / 8 = (frombits + i) / 8 := by omega
    have hmod : (frombits % 8 + i) % 8 = (frombits + i) % 8 := by omega
    have hlow : 8 * 8 - 1 - i < 64 := by omega
    have hsh : frombits % 8 ≤ 8 * 8 - 1 - i := by omega
    rw [hpos]
    unfold bit
    dsimp only
    rw [if_pos hdiv, hbyte, hmod]
    simp [hlow, hsh]
  · rw [if_neg hi, if_neg hi]

end Copies

/-! ## The addresses -/

section Addresses

variable {pd ipv4Prefix ipv4addr psid16 : Nat → UInt8}

/-- The IPv4 prefix, then the EA bits, then zeros. -/
theorem bit_deriveIpv4 {prefix4len prefix6len eabits i : Nat} (hi : i < 32)
    (hea : eabits ≤ 32 - prefix4len) :
    bit (deriveIpv4 pd ipv4Prefix prefix4len prefix6len eabits) i =
      if i < prefix4len then bit ipv4Prefix i
      else if i < prefix4len + eabits then bit pd (prefix6len + (i - prefix4len))
      else false := by
  unfold deriveIpv4
  dsimp only
  rw [bit_bmemcpy]
  by_cases hp : i < prefix4len
  · rw [if_pos hp, if_pos hp]
  · rw [if_neg hp, if_neg hp, bit_beBytes _ (by omega), Nat.testBit_div_two_pow,
      testBit_beNat _ _ (by omega), bit_bmemcpys64 _ _ _ (by omega)]
    have hpos : 8 * 4 - 1 - (8 * 4 - 1 - i + prefix4len) = i - prefix4len := by omega
    rw [hpos, bit_zero]
    by_cases he : i < prefix4len + eabits
    · rw [if_pos he, if_pos (by omega)]
    · rw [if_neg he, if_neg (by omega)]

/-- The 16 bits the PSID is read from: its bits, then zeros. -/
theorem testBit_psid {start psidlen i : Nat} (hle : psidlen ≤ 16) (hi : i < 16) :
    (beNat (bmemcpys64 (fun _ => 0) pd start psidlen) 2).testBit (15 - i) =
      if i < psidlen then bit pd (start + i) else false := by
  rw [testBit_beNat _ _ (by omega), bit_bmemcpys64 _ _ _ (by omega), bit_zero]
  have hpos : 8 * 2 - 1 - (15 - i) = i := by omega
  rw [hpos]

/-- A PSID that is derived, to the left in 16 bits and to the right in 2 bytes. -/
theorem derivePsid_eq {pdlen prefix6len ealen psidlen psid : Int} (hpsid : psid < 0)
    (hpd : 0 ≤ pdlen) (hlen : 0 ≤ psidlen) :
    let start := (prefix6len + ealen - psidlen).toNat
    let x := beNat (bmemcpys64 (fun _ => 0) pd start psidlen.toNat) 2
    let k := (16 - psidlen).toNat
    derivePsid (pdlen, pd) prefix6len ealen psidlen psid =
      if 0 < psidlen then (((x / 2 ^ k * 2 ^ k : Nat) : Int), beBytes 2 (x / 2 ^ k % 2 ^ 16))
      else ((x : Int), bmemcpys64 (fun _ => 0) pd start psidlen.toNat) := by
  have hread : psid < 0 ∧ 0 ≤ psidlen ∧ 0 ≤ pdlen := ⟨hpsid, hlen, hpd⟩
  dsimp only
  unfold derivePsid
  dsimp only
  rw [if_pos hread]
  by_cases hpos : 0 < psidlen
  · rw [if_pos hpos, if_pos hpos]
    dsimp only
    refine Prod.ext ?_ ?_
    · push_cast
      rfl
    · dsimp only
      congr 1
  · rw [if_neg hpos, if_neg hpos]

theorem derivePsid_left {pdlen prefix6len ealen psidlen psid : Int} (hpsid : psid < 0)
    (hpd : 0 ≤ pdlen) (hlen : 0 ≤ psidlen) (hle : psidlen ≤ 16) {i : Nat} (hi : i < 16) :
    (derivePsid (pdlen, pd) prefix6len ealen psidlen psid).1.toNat.testBit (15 - i) =
      if i < psidlen.toNat then bit pd ((prefix6len + ealen - psidlen).toNat + i) else false := by
  rw [derivePsid_eq hpsid hpd hlen]
  have hbit := @testBit_psid pd (prefix6len + ealen - psidlen).toNat psidlen.toNat i (by omega) hi
  by_cases hpos : 0 < psidlen
  · rw [if_pos hpos]
    dsimp only
    rw [Int.toNat_natCast, Nat.testBit_mul_two_pow, Nat.testBit_div_two_pow]
    by_cases hk : i < psidlen.toNat
    · have hle : (16 - psidlen).toNat ≤ 15 - i := by omega
      have hsum : 15 - i - (16 - psidlen).toNat + (16 - psidlen).toNat = 15 - i := by omega
      rw [hsum, hbit]
      simp [hle]
    · have hgt : ¬ (16 - psidlen).toNat ≤ 15 - i := by omega
      rw [if_neg hk]
      simp [hgt]
  · rw [if_neg hpos]
    dsimp only
    rw [Int.toNat_natCast, hbit]

theorem derivePsid_right {pdlen prefix6len ealen psidlen psid : Int} (hpsid : psid < 0)
    (hpd : 0 ≤ pdlen) (hlen : 0 ≤ psidlen) (hle : psidlen ≤ 16) {i : Nat} (hi : i < 16) :
    bit (derivePsid (pdlen, pd) prefix6len ealen psidlen psid).2 i =
      if i < 16 - psidlen.toNat then false
      else bit pd ((prefix6len + ealen - psidlen).toNat + (i - (16 - psidlen.toNat))) := by
  rw [derivePsid_eq hpsid hpd hlen]
  by_cases hpos : 0 < psidlen
  · rw [if_pos hpos]
    dsimp only
    rw [bit_beBytes _ (by omega), Nat.testBit_mod_two_pow, Nat.testBit_div_two_pow]
    by_cases hk : i < 16 - psidlen.toNat
    · -- nothing is set above the 16 bits that were shifted
      have hzero : (beNat (bmemcpys64 (fun _ => 0) pd (prefix6len + ealen - psidlen).toNat
          psidlen.toNat) 2).testBit (8 * 2 - 1 - i + (16 - psidlen).toNat) = false := by
        refine Nat.testBit_lt_two_pow (lt_of_lt_of_le (beNat_lt _ _) ?_)
        exact Nat.pow_le_pow_right (by omega) (by omega)
      rw [if_pos hk, hzero]
      simp
    · have hidx : 8 * 2 - 1 - i + (16 - psidlen).toNat =
          15 - (i - (16 - psidlen.toNat)) := by omega
      have hlow : 8 * 2 - 1 - i < 16 := by omega
      rw [if_neg hk, hidx, testBit_psid (by omega) (by omega), if_pos (by omega)]
      simp [hlow]
  · rw [if_neg hpos, if_pos (by omega)]
    dsimp only
    rw [bit_bmemcpys64 _ _ _ (by omega), if_neg (by omega), bit_zero]

/-- The delegated prefix, and behind it the IPv4 address and the PSID. -/
theorem bit_deriveIpv6 (legacy : Bool) (pdlen i : Nat) :
    bit (deriveIpv6 legacy pd ipv4addr psid16 pdlen) i =
      let v4 := if legacy then 9 else 10
      if i < pdlen then bit pd i
      else if 8 * v4 ≤ i ∧ i < 8 * (v4 + 4) then bit ipv4addr (i - 8 * v4)
      else if 8 * (v4 + 4) ≤ i ∧ i < 8 * (v4 + 6) then bit psid16 (i - 8 * (v4 + 4))
      else false := by
  unfold deriveIpv6
  dsimp only
  generalize (if legacy = true then 9 else 10) = v4
  rw [bit_bmemcpy, bit_window, bit_window psid16 (fun _ => 0) (v4 + 4) 2, bit_zero]

end Addresses

/-! ## Rules -/

/-- What a rule that is not skipped reports, where the delegated prefix is known. -/
structure Reports (legacy : Bool) (r : Rule) (m : Mapped) : Prop where
  prefix4len : 0 ≤ m.prefix4len
  prefix6len : 0 ≤ m.prefix6len
  psidlen : 0 ≤ m.psidlen
  psidlen_le : m.psidlen ≤ 16
  ealen_le : m.psidlen ≤ m.ealen
  psids : ∃ psid, (r.psid < 0 → psid < 0) ∧
    (m.psid, m.psid16) = derivePsid (m.pdlen, m.pd) m.prefix6len m.ealen m.psidlen psid
  ipv4 : 0 ≤ m.pdlen → m.ipv4addr = deriveIpv4 m.pd r.ipv4Prefix m.prefix4len.toNat
    m.prefix6len.toNat (m.ealen - m.psidlen).toNat
  ipv6 : 0 ≤ m.pdlen →
    m.ipv6addr = deriveIpv6 legacy m.pd m.ipv4addr m.psid16 m.pdlen.toNat

theorem Rule.adjust_ipv4Prefix (r : Rule) : r.adjust.ipv4Prefix = r.ipv4Prefix := by
  unfold Rule.adjust
  split <;> rfl

theorem Rule.adjust_psid (r : Rule) : r.adjust.psid = r.psid := by
  unfold Rule.adjust
  split <;> rfl

theorem evalRule_some {legacy : Bool} {iface : String} {dump : List Iface} {r : Rule} {m : Mapped}
    (h : evalRule legacy iface dump r = some m) : Reports legacy r m := by
  unfold evalRule at h
  dsimp only at h
  have hipv4 := r.adjust_ipv4Prefix
  have hpsid := r.adjust_psid
  generalize r.adjust = q at h hipv4 hpsid
  generalize (if q.pdlen < 0 then findPd iface q dump (q.pdlen, q.pd) else (q.pdlen, q.pd)) = pd at h
  generalize hea : (if q.ealen < 0 ∧ 0 ≤ pd.1 then pd.1 - q.prefix6len else q.ealen) = ealen at h
  generalize hlen :
    (if q.psidlen ≤ 0 then max (ealen - (32 - q.prefix4len)) 0 else q.psidlen) = psidlen at h
  have hpos : 0 ≤ psidlen := by
    rw [← hlen]
    split <;> omega
  split at h
  · cases h
  · next hvalid =>
    split at h
    · cases h
    · cases h
      exact {
        prefix4len := by dsimp only; omega
        prefix6len := by dsimp only; omega
        psidlen := hpos
        psidlen_le := by dsimp only; omega
        ealen_le := by dsimp only; omega
        psids := by
          refine ⟨if q.psidlen ≤ 0 then -1 else q.psid, fun hneg => ?_, rfl⟩
          split
          · omega
          · omega
        ipv4 := by
          intro hpd
          dsimp only at hpd ⊢
          rw [if_pos (Or.inl hpd), hipv4]
        ipv6 := by
          intro hpd
          dsimp only at hpd ⊢
          rw [if_pos hpd] }

/-- For every rule that is accepted, with the delegated prefix it goes by: the IPv4
address, the PSID (to the left as a number, to the right in the address) and the
IPv6 address. -/
theorem evalRule_addresses (legacy : Bool) (iface : String) (dump : List Iface) (r : Rule)
    (m : Mapped) (h : evalRule legacy iface dump r = some m) (hpsid : r.psid < 0)
    (hfit : m.prefix6len + m.ealen ≤ m.pdlen)
    (hea : m.ealen - m.psidlen ≤ 32 - m.prefix4len) :
    let p4 := m.prefix4len.toNat
    let p6 := m.prefix6len.toNat
    let e := (m.ealen - m.psidlen).toNat
    let k := m.psidlen.toNat
    let v4 := if legacy then 9 else 10
    (∀ i < 32, bit m.ipv4addr i =
      if i < p4 then bit r.ipv4Prefix i
      else if i < p4 + e then bit m.pd (p6 + (i - p4))
      else false) ∧
    (∀ i < 16, m.psid.toNat.testBit (15 - i) = if i < k then bit m.pd (p6 + e + i) else false) ∧
    (∀ i < 16, bit m.psid16 i =
      if i < 16 - k then false else bit m.pd (p6 + e + (i - (16 - k)))) ∧
    (∀ i < 128, bit m.ipv6addr i =
      if i < m.pdlen.toNat then bit m.pd i
      else if 8 * v4 ≤ i ∧ i < 8 * (v4 + 4) then bit m.ipv4addr (i - 8 * v4)
      else if 8 * (v4 + 4) ≤ i ∧ i < 8 * (v4 + 6) then bit m.psid16 (i - 8 * (v4 + 4))
      else false) := by
  have hm := evalRule_some h
  have h4 := hm.prefix4len
  have h6 := hm.prefix6len
  have hk := hm.psidlen
  have hk16 := hm.psidlen_le
  have hle := hm.ealen_le
  have hpd : 0 ≤ m.pdlen := by omega
  obtain ⟨psid, hneg, hpsids⟩ := hm.psids
  have hneg := hneg hpsid
  have hleft : m.psid = _ := congrArg Prod.fst hpsids
  have hright : m.psid16 = _ := congrArg Prod.snd hpsids
  have hstart : (m.prefix6len + m.ealen - m.psidlen).toNat =
      m.prefix6len.toNat + (m.ealen - m.psidlen).toNat := by omega
  dsimp only
  refine ⟨fun i hi => ?_, fun i hi => ?_, fun i hi => ?_, fun i _ => ?_⟩
  · rw [hm.ipv4 hpd]
    exact bit_deriveIpv4 hi (by omega)
  · rw [hleft, derivePsid_left hneg hpd hk hk16 hi, hstart]
  · rw [hright, derivePsid_right hneg hpd hk hk16 hi, hstart]
  · rw [hm.ipv6 hpd]
    exact bit_deriveIpv6 legacy m.pdlen.toNat i

/-- 192.0.2.0/24 over a delegated /56: 8 bits of the address and a PSID of 8 bits. -/
def sharedRule : Rule :=
  parseRule [.ealen (some 16), .prefix4len (some 24), .prefix6len (some 40), .pdlen (some 56),
    .ipv4Prefix (some (fun i => [192, 0, 2, 0].getD i 0)),
    .pd (some (fun i => [0x20, 0x01, 0x0d, 0xb8, 0, 0x12, 0x34].getD i 0))]

theorem evalRule_addresses_sharedRule :
    ∃ m, evalRule false "*" [] sharedRule = some m ∧ m.pdlen = 56 ∧ m.psidlen = 8 ∧
      (∀ i < 32, bit m.ipv4addr i =
        if i < 24 then bit sharedRule.ipv4Prefix i
        else if i < 24 + 8 then bit m.pd (40 + (i - 24))
        else false) :=
  ⟨_, rfl, rfl, rfl,
    (evalRule_addresses false "*" [] sharedRule _ rfl (by decide) (by decide) (by decide)).1⟩

end Lede.Map
