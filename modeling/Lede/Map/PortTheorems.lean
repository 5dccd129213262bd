/-
Lede.Map.PortTheorems — the port sets `mapcalc` prints for a rule with a PSID.

A port is split into the first `offset` bits, the PSID and the rest. A range takes the ports
with one value of the first bits and with the PSID; the value 0 is left out where there are
such bits. The widths are checked one by one, not their sum: where it is more than 16, the
length of a range is a shift by a negative number (`portSets_iff`).
-/
import Lede.Map.MapcalcTheorems

namespace Lede.Map

open Lede.Lib

/-! ## What is printed -/

/-- The loop over the port ranges; `none` where it shifts by a negative number. -/
def portRanges (offset psidlen psid : Nat) : Option (List (Nat × Nat)) :=
  if 16 < offset + psidlen then none
  else
    let first := if offset = 0 then 0 else 1
    some ((List.range' first (2 ^ offset - first)).filterMap fun k =>
      let start := k * 2 ^ (16 - offset) ||| psid / 2 ^ offset
      let fin := start + 2 ^ (16 - offset - psidlen) - 1
      let start := if start = 0 then 1 else start
      if start ≤ fin then some (start, fin) else none)

/-- The port sets of a rule that has a PSID. -/
def Mapped.portSets (m : Mapped) : Option (List (Nat × Nat)) :=
  if 0 < m.psidlen ∧ 0 ≤ m.psid then portRanges m.offset.toNat m.psidlen.toNat m.psid.toNat
  else some []

/-- A port of one of the ranges. -/
def InRanges (rs : List (Nat × Nat)) (port : Nat) : Prop := ∃ r ∈ rs, r.1 ≤ port ∧ port ≤ r.2

/-- A port with the PSID behind the first `a` bits, which are not all zero. -/
structure InPortSet (a q psid port : Nat) : Prop where
  pos : 1 ≤ port
  le : port ≤ 65535
  psid : port / 2 ^ (16 - a - q) % 2 ^ q = psid
  first : 0 < a → 0 < port / 2 ^ (16 - a)

/-- The same rule with another PSID. -/
def Mapped.withPsid (m : Mapped) (p : Nat) : Mapped :=
  { m with psid := (p * 2 ^ (16 - m.psidlen.toNat) : Nat) }

/-- What the port sets of a rule with a PSID are for. -/
structure PortSets (m : Mapped) : Prop where
  fit : m.offset + m.psidlen ≤ 16
  exact : ∃ rs, m.portSets = some rs ∧ ∀ port, InRanges rs port ↔
    InPortSet m.offset.toNat m.psidlen.toNat (beNat m.psid16 2) port
  disjoint : ∀ p < 2 ^ m.psidlen.toNat, ∀ p' < 2 ^ m.psidlen.toNat, p ≠ p' → ∀ rs rs',
    (m.withPsid p).portSets = some rs → (m.withPsid p').portSets = some rs' →
    ∀ port, ¬ (InRanges rs port ∧ InRanges rs' port)
  cover : ∀ port, 1 ≤ port → port ≤ 65535 →
    (0 < m.offset.toNat → 0 < port / 2 ^ (16 - m.offset.toNat)) →
    ∃ p < 2 ^ m.psidlen.toNat, ∃ rs, (m.withPsid p).portSets = some rs ∧ InRanges rs port

/-! ## The ranges -/

section Ranges

variable {a q psid k port : Nat}

/-- The start of a range: the first bits and the PSID. -/
theorem range_start (haq : a + q ≤ 16) (hpsid : psid < 2 ^ q) :
    k * 2 ^ (16 - a) ||| psid * 2 ^ (16 - q) / 2 ^ a = (k * 2 ^ q + psid) * 2 ^ (16 - a - q) := by
  have hq : 2 ^ (16 - q) = 2 ^ (16 - a - q) * 2 ^ a := by
    rw [← Nat.pow_add]
    congr 1
    omega
  have ha : 2 ^ (16 - a) = 2 ^ q * 2 ^ (16 - a - q) := by
    rw [← Nat.pow_add]
    congr 1
    omega
  have hlt : psid * 2 ^ (16 - a - q) < 2 ^ (16 - a) := by
    rw [ha]
    exact Nat.mul_lt_mul_of_pos_right hpsid (Nat.two_pow_pos _)
  rw [hq, ← Nat.mul_assoc, Nat.mul_div_cancel _ (Nat.two_pow_pos a), Nat.mul_comm k,
    ← Nat.two_pow_add_eq_or_of_lt hlt, ha, Nat.add_mul, Nat.mul_comm (2 ^ q * _) k, Nat.mul_assoc]

/-- The values of the first bits the loop goes through. -/
theorem mem_firstBits : k ∈ List.range' (if a = 0 then 0 else 1) (2 ^ a - if a = 0 then 0 else 1) ↔
    k < 2 ^ a ∧ (0 < a → 0 < k) := by
  have hpos := Nat.two_pow_pos a
  rw [List.mem_range'_1]
  split <;> omega

/-- A port of 16 bits is its first bits, the PSID and the rest. -/
theorem port_split (haq : a + q ≤ 16) : port / 2 ^ (16 - a - q) / 2 ^ q = port / 2 ^ (16 - a) ∧
    (port < 65536 ↔ port / 2 ^ (16 - a) < 2 ^ a) := by
  have ha : 2 ^ (16 - a) = 2 ^ (16 - a - q) * 2 ^ q := by
    rw [← Nat.pow_add]
    congr 1
    omega
  have hall : 65536 = 2 ^ a * 2 ^ (16 - a) := by
    rw [← Nat.pow_add, Nat.add_sub_cancel' (by omega)]
  refine ⟨by rw [Nat.div_div_eq_div_mul, ha], ?_⟩
  rw [Nat.div_lt_iff_lt_mul (Nat.two_pow_pos _), ← hall]

/-- For widths that fit, the ranges are the ports with the PSID. -/
theorem portRanges_exact (haq : a + q ≤ 16) (hpsid : psid < 2 ^ q) :
    ∃ rs, portRanges a q (psid * 2 ^ (16 - q)) = some rs ∧
      ∀ port, InRanges rs port ↔ InPortSet a q psid port := by
  unfold portRanges
  rw [if_neg (by omega)]
  refine ⟨_, rfl, fun port => ?_⟩
  have hn := Nat.two_pow_pos (16 - a - q)
  have hq := Nat.two_pow_pos q
  obtain ⟨hfirst, hlt⟩ := @port_split a q port haq
  have hblock : ∀ b, port / 2 ^ (16 - a - q) = b ↔
      b * 2 ^ (16 - a - q) ≤ port ∧ port ≤ b * 2 ^ (16 - a - q) + 2 ^ (16 - a - q) - 1 :=
    fun b => Nat.div_eq_iff hn
  constructor
  · rintro ⟨r, hr, hle, hge⟩
    obtain ⟨k, hk, hrange⟩ := List.mem_filterMap.mp hr
    obtain ⟨hka, hkpos⟩ := mem_firstBits.mp hk
    dsimp only at hrange
    rw [range_start haq hpsid] at hrange
    generalize hs : (if (k * 2 ^ q + psid) * 2 ^ (16 - a - q) = 0 then 1
      else (k * 2 ^ q + psid) * 2 ^ (16 - a - q)) = s at hrange
    split at hrange
    · cases hrange
      dsimp only at hle hge
      have hone : 1 ≤ port ∧ (k * 2 ^ q + psid) * 2 ^ (16 - a - q) ≤ port := by
        split at hs <;> omega
      obtain ⟨hone, hstart⟩ := hone
      have hdiv := (hblock (k * 2 ^ q + psid)).mpr ⟨hstart, hge⟩
      have hk' : port / 2 ^ (16 - a) = k := by
        rw [← hfirst, hdiv, Nat.add_comm, Nat.add_mul_div_right _ _ hq, Nat.div_eq_of_lt hpsid,
          Nat.zero_add]
      refine ⟨hone, ?_, ?_, by rwa [hk']⟩
      · rw [← hk', ← hlt] at hka
        omega
      · rw [hdiv, Nat.add_comm, Nat.add_mul_mod_self_right, Nat.mod_eq_of_lt hpsid]
    · cases hrange
  · rintro ⟨hone, hle, hmod, hpos⟩
    have hdiv : port / 2 ^ (16 - a - q) = port / 2 ^ (16 - a) * 2 ^ q + psid := by
      rw [← hfirst, ← hmod]
      exact (Nat.div_add_mod' _ _).symm
    obtain ⟨hge, hle'⟩ := (hblock _).mp hdiv
    have hstart := @range_start a q psid (port / 2 ^ (16 - a)) haq hpsid
    generalize (port / 2 ^ (16 - a) * 2 ^ q + psid) * 2 ^ (16 - a - q) = b at hge hle' hstart
    refine ⟨(if b = 0 then 1 else b, b + 2 ^ (16 - a - q) - 1), List.mem_filterMap.mpr
      ⟨port / 2 ^ (16 - a), mem_firstBits.mpr ⟨hlt.mp (by omega), hpos⟩, ?_⟩, ?_⟩
    · dsimp only
      rw [hstart, if_pos]
      split <;> omega
    · dsimp only
      refine ⟨?_, hle'⟩
      split <;> omega

end Ranges

/-! ## The sets of all PSIDs -/

section Sets

variable {a q psid psid' port : Nat}

/-- The sets of two PSIDs have no port in common. -/
theorem InPortSet.disjoint (h : InPortSet a q psid port) (h' : InPortSet a q psid' port) :
    psid = psid' := h.psid.symm.trans h'.psid

/-- Every port outside the excluded block is in the set of some PSID. -/
theorem exists_inPortSet (hpos : 1 ≤ port) (hle : port ≤ 65535)
    (hfirst : 0 < a → 0 < port / 2 ^ (16 - a)) : ∃ psid < 2 ^ q, InPortSet a q psid port :=
  ⟨port / 2 ^ (16 - a - q) % 2 ^ q, Nat.mod_lt _ (Nat.two_pow_pos q), hpos, hle, rfl, hfirst⟩

end Sets

/-! ## The values of a rule -/

/-- `offset`, `ealen`, `psidlen` and `psid` after the options: with the defaults, what follows
from the delegated prefix, and what does not count without a PSID length. -/
def Rule.offsetFor (r : Rule) (legacy : Bool) : Int :=
  if r.offset < 0 then (if r.lw4o6 then 0 else if legacy then 4 else 6) else r.offset

def Rule.ealenFor (r : Rule) (pdlen : Int) : Int :=
  if r.ealen < 0 ∧ 0 ≤ pdlen then pdlen - r.prefix6len else r.ealen

def Rule.psidlenFor (r : Rule) (pdlen : Int) : Int :=
  if r.psidlen ≤ 0 then max (r.ealenFor pdlen - (32 - r.prefix4len)) 0 else r.psidlen

def Rule.psidFor (r : Rule) : Int := if r.psidlen ≤ 0 then -1 else r.psid

/-- The delegated prefix: the one of the rule, or one of the interfaces. -/
def Rule.delegated (r : Rule) (iface : String) (dump : List Iface) : Delegated :=
  if r.pdlen < 0 then findPd iface r dump (r.pdlen, r.pd) else (r.pdlen, r.pd)

/-- What is printed for a rule that is accepted with the delegated prefix `pd`, in terms of
these. -/
structure Accepted (legacy : Bool) (r : Rule) (pd : Delegated) (m : Mapped) : Prop where
  offset : m.offset = r.offsetFor legacy
  ealen : m.ealen = r.adjust.ealenFor pd.1
  psidlen : m.psidlen = r.adjust.psidlenFor pd.1
  prefix4len : m.prefix4len = r.adjust.prefix4len
  prefix6len : m.prefix6len = r.adjust.prefix6len
  pdlen : m.pdlen = pd.1
  psids : (m.psid, m.psid16) =
    derivePsid pd m.prefix6len m.ealen m.psidlen r.adjust.psidFor
  prefix4len_nonneg : 0 ≤ m.prefix4len
  prefix6len_nonneg : 0 ≤ m.prefix6len
  psidlen_nonneg : 0 ≤ m.psidlen
  psidlen_le : m.psidlen ≤ 16
  psidlen_le_ealen : m.psidlen ≤ m.ealen

theorem evalRule_accepted {legacy : Bool} {iface : String} {dump : List Iface} {r : Rule}
    {m : Mapped} (h : evalRule legacy iface dump r = some m) :
    Accepted legacy r (r.adjust.delegated iface dump) m := by
  unfold evalRule at h
  dsimp only at h
  generalize hq : r.adjust = q at h ⊢
  generalize hpd :
    (if q.pdlen < 0 then findPd iface q dump (q.pdlen, q.pd) else (q.pdlen, q.pd)) = pd at h
  generalize hea : (if q.ealen < 0 ∧ 0 ≤ pd.1 then pd.1 - q.prefix6len else q.ealen) = ealen at h
  generalize hlen :
    (if q.psidlen ≤ 0 then max (ealen - (32 - q.prefix4len)) 0 else q.psidlen) = psidlen at h
  have hpd' : q.delegated iface dump = pd := hpd
  have hea' : q.ealenFor pd.1 = ealen := hea
  have hlen' : q.psidlenFor pd.1 = psidlen := by
    unfold Rule.psidlenFor
    rw [hea']
    exact hlen
  have hpos : 0 ≤ psidlen := by
    rw [← hlen]
    split <;> omega
  rw [hpd']
  split at h
  · cases h
  · next hvalid =>
    split at h
    · cases h
    · cases h
      subst hq
      exact {
        offset := rfl
        ealen := hea'.symm
        psidlen := hlen'.symm
        prefix4len := rfl
        prefix6len := rfl
        pdlen := rfl
        psids := rfl
        prefix4len_nonneg := by dsimp only; omega
        prefix6len_nonneg := by dsimp only; omega
        psidlen_nonneg := hpos
        psidlen_le := by dsimp only; omega
        psidlen_le_ealen := by dsimp only; omega }

/-- The bounds the options are checked against. -/
structure Bounded (r : Rule) : Prop where
  ealen : r.ealen ≤ 48
  prefix4len : r.prefix4len ≤ 32
  prefix6len : r.prefix6len ≤ 128
  pdlen : r.pdlen ≤ 128
  offset : r.offset ≤ 16
  psidlen : r.psidlen ≤ 16
  psid : r.psid ≤ 65535

theorem accept_le {v : Option Int} {bound old : Int} (h : old ≤ bound) :
    accept v bound old ≤ bound := by
  unfold accept
  cases v with
  | none => exact h
  | some n =>
    dsimp only
    split
    · assumption
    · exact h

theorem Bounded.set {r : Rule} (h : Bounded r) (o : RuleOpt) : Bounded (r.set o) := by
  obtain ⟨h₁, h₂, h₃, h₄, h₅, h₆, h₇⟩ := h
  cases o with
  | ealen v => exact ⟨accept_le h₁, h₂, h₃, h₄, h₅, h₆, h₇⟩
  | prefix4len v => exact ⟨h₁, accept_le h₂, h₃, h₄, h₅, h₆, h₇⟩
  | prefix6len v => exact ⟨h₁, h₂, accept_le h₃, h₄, h₅, h₆, h₇⟩
  | pdlen v => exact ⟨h₁, h₂, h₃, accept_le h₄, h₅, h₆, h₇⟩
  | offset v => exact ⟨h₁, h₂, h₃, h₄, accept_le h₅, h₆, h₇⟩
  | psidlen v => exact ⟨h₁, h₂, h₃, h₄, h₅, accept_le h₆, h₇⟩
  | psid v => exact ⟨h₁, h₂, h₃, h₄, h₅, h₆, accept_le h₇⟩
  | _ => exact ⟨h₁, h₂, h₃, h₄, h₅, h₆, h₇⟩

theorem bounded_parseRule (opts : List RuleOpt) : Bounded (parseRule opts) := by
  unfold parseRule
  have hstart : Bounded {} :=
    ⟨by decide, by decide, by decide, by decide, by decide, by decide, by decide⟩
  generalize ({} : Rule) = r at hstart
  induction opts generalizing r with
  | nil => exact hstart
  | cons o opts ih => exact ih _ (hstart.set o)

/-! ## The PSID -/

theorem Bounded.adjust {r : Rule} (h : Bounded r) : Bounded r.adjust := by
  obtain ⟨h₁, h₂, h₃, h₄, h₅, h₆, h₇⟩ := h
  have hlen : (if r.psidlen < 0 then 0 else r.psidlen) ≤ 16 := by
    split <;> omega
  unfold Rule.adjust
  split
  · exact ⟨Int.le_trans hlen (by decide), h₂, h₃, h₄, h₅, hlen, h₇⟩
  · exact ⟨h₁, h₂, h₃, h₄, h₅, h₆, h₇⟩

theorem Bounded.psidFor {r : Rule} (h : Bounded r) : r.psidFor ≤ 65535 := by
  have hpsid := h.psid
  unfold Rule.psidFor
  split <;> omega

theorem Rule.offsetFor_nonneg (r : Rule) (legacy : Bool) : 0 ≤ r.offsetFor legacy := by
  unfold Rule.offsetFor
  split
  · split
    · omega
    · split <;> omega
  · omega

/-- A PSID that is printed: to the left in 16 bits, and to the right in the address. -/
theorem derivePsid_psid {pd : Delegated} {prefix6len ealen psidlen psid : Int}
    (hpsid : psid ≤ 65535) (hpos : 0 < psidlen) (hle : psidlen ≤ 16)
    (hnonneg : 0 ≤ (derivePsid pd prefix6len ealen psidlen psid).1) :
    ∃ p < 2 ^ psidlen.toNat,
      (derivePsid pd prefix6len ealen psidlen psid).1.toNat = p * 2 ^ (16 - psidlen.toNat) ∧
      beNat (derivePsid pd prefix6len ealen psidlen psid).2 2 = p := by
  have hk : (16 - psidlen).toNat = 16 - psidlen.toNat := by omega
  have hall : (65536 : Int) = 2 ^ psidlen.toNat * 2 ^ (16 - psidlen.toNat) := by
    rw [← pow_add, Nat.add_sub_cancel' (by omega)]
    rfl
  obtain ⟨x, hx, heq⟩ : ∃ x : Int, x ≤ 65535 ∧ derivePsid pd prefix6len ealen psidlen psid =
      (x / 2 ^ (16 - psidlen.toNat) * 2 ^ (16 - psidlen.toNat),
        beBytes 2 (x / 2 ^ (16 - psidlen.toNat) % 2 ^ 16).toNat) := by
    unfold derivePsid
    dsimp only
    rw [hk]
    by_cases hread : psid < 0 ∧ 0 ≤ psidlen ∧ 0 ≤ pd.1
    · rw [if_pos hread]
      refine ⟨_, ?_, if_pos hpos⟩
      have hlt := beNat_lt (bmemcpys64 (fun _ => 0) pd.2
        (prefix6len + ealen - psidlen).toNat psidlen.toNat) 2
      omega
    · rw [if_neg hread]
      exact ⟨psid, hpsid, if_pos hpos⟩
  rw [heq] at hnonneg ⊢
  dsimp only at hnonneg ⊢
  have hpow : (0 : Int) < 2 ^ (16 - psidlen.toNat) := Int.pow_pos (by omega)
  have hright : x / 2 ^ (16 - psidlen.toNat) < 2 ^ psidlen.toNat :=
    Int.ediv_lt_of_lt_mul hpow (by rw [← hall]; omega)
  have hzero := Int.nonneg_of_mul_nonneg_left hnonneg hpow
  obtain ⟨p, hp⟩ := Int.eq_ofNat_of_zero_le hzero
  rw [hp] at hright ⊢
  have hlt : p < 2 ^ psidlen.toNat := by exact_mod_cast hright
  have hle' : 2 ^ psidlen.toNat ≤ 2 ^ 16 := Nat.pow_le_pow_right (by omega) (by omega)
  refine ⟨p, hlt, ?_, ?_⟩
  · norm_cast
  · have hmod : ((p : Int) % 2 ^ 16).toNat = p := by omega
    rw [hmod]
    exact beNat_beBytes (by omega)

/-- The ranges for any PSID of a rule whose widths fit. -/
theorem withPsid_exact {m : Mapped} (hlen : 0 < m.psidlen) (hoff : 0 ≤ m.offset)
    (hfit : m.offset + m.psidlen ≤ 16) {p : Nat} (hp : p < 2 ^ m.psidlen.toNat) :
    ∃ rs, (m.withPsid p).portSets = some rs ∧
      ∀ port, InRanges rs port ↔ InPortSet m.offset.toNat m.psidlen.toNat p port := by
  obtain ⟨rs, hrs, hexact⟩ := @portRanges_exact m.offset.toNat m.psidlen.toNat p (by omega) hp
  refine ⟨rs, ?_, hexact⟩
  have hpsid : 0 ≤ ((p * 2 ^ (16 - m.psidlen.toNat) : Nat) : Int) := Int.natCast_nonneg _
  unfold Mapped.withPsid Mapped.portSets
  dsimp only
  rw [if_pos ⟨hlen, hpsid⟩, Int.toNat_natCast]
  exact hrs

/-- For every rule with a PSID that is accepted: the port sets are right exactly where the offset
and the PSID length, given or not, take 16 bits at most together. -/
theorem portSets_iff {legacy : Bool} {iface : String} {dump : List Iface} {opts : List RuleOpt}
    {m : Mapped} (h : evalRule legacy iface dump (parseRule opts) = some m) (hlen : 0 < m.psidlen)
    (hpsid : 0 ≤ m.psid) :
    PortSets m ↔ (parseRule opts).offsetFor legacy + (parseRule opts).adjust.psidlenFor
      ((parseRule opts).adjust.delegated iface dump).1 ≤ 16 := by
  have hm := evalRule_accepted h
  have hoff := (parseRule opts).offsetFor_nonneg legacy
  rw [← hm.offset, ← hm.psidlen]
  rw [← hm.offset] at hoff
  refine ⟨PortSets.fit, fun hfit => ?_⟩
  -- the PSID that is printed
  have hleft : m.psid = _ := congrArg Prod.fst hm.psids
  have hright : m.psid16 = _ := congrArg Prod.snd hm.psids
  obtain ⟨p, hp, hpleft, hpright⟩ := derivePsid_psid (bounded_parseRule opts).adjust.psidFor hlen
    hm.psidlen_le (hleft ▸ hpsid)
  rw [← hleft] at hpleft
  rw [← hright] at hpright
  have hexact := fun q hq => @withPsid_exact m hlen hoff hfit q hq
  refine ⟨hfit, ?_, ?_, ?_⟩
  · obtain ⟨rs, hrs, hin⟩ := hexact p hp
    refine ⟨rs, ?_, by rwa [hpright]⟩
    have hsame : (m.withPsid p).psid = m.psid := by
      unfold Mapped.withPsid
      dsimp only
      rw [← hpleft, Int.toNat_of_nonneg hpsid]
    unfold Mapped.portSets at hrs ⊢
    rwa [hsame] at hrs
  · intro q hq q' hq' hne rs rs' hrs hrs' port hboth
    obtain ⟨ts, hts, hin⟩ := hexact q hq
    obtain ⟨ts', hts', hin'⟩ := hexact q' hq'
    cases hrs.symm.trans hts
    cases hrs'.symm.trans hts'
    exact hne (((hin port).mp hboth.1).disjoint ((hin' port).mp hboth.2))
  · intro port hpos hle hfirst
    obtain ⟨q, hq, hset⟩ := exists_inPortSet hpos hle hfirst
    obtain ⟨rs, hrs, hin⟩ := hexact q hq
    exact ⟨q, hq, rs, hrs, (hin port).mpr hset⟩

/-- 8 bits of PSID behind the 6 bits an offset has by default. -/
def sharedOpts : List RuleOpt :=
  [.ealen (some 16), .prefix4len (some 24), .prefix6len (some 40), .pdlen (some 56)]

theorem portSets_sharedOpts :
    ∃ m, evalRule false "*" [] (parseRule sharedOpts) = some m ∧ PortSets m :=
  ⟨_, rfl, (@portSets_iff false "*" [] sharedOpts _ rfl (by decide) (by decide)).mpr (by decide)⟩

/-- 16 bits of PSID behind the 6 bits an offset has by default. -/
def wideOpts : List RuleOpt :=
  [.ealen (some 16), .prefix4len (some 32), .prefix6len (some 40), .pdlen (some 56)]

theorem portSets_wideOpts : ∃ m, evalRule false "*" [] (parseRule wideOpts) = some m ∧
    m.psidlen = 16 ∧ m.psid = 0 ∧ m.offset = 6 ∧ m.portSets = none ∧ ¬ PortSets m :=
  ⟨_, rfl, by decide, by decide, by decide, by decide, fun h => absurd h.fit (by decide)⟩

end Lede.Map
