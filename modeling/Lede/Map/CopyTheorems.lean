/-
Lede.Map.CopyTheorems — the bytes the bit copies of `mapcalc` use.

Each copy is accompanied by what it uses of the objects it is given: the delegated prefix and
the other IPv6 addresses (16 bytes), the buffer of `bmemcpys64` (8), an IPv4 address (4) and
`psid16` (2). The lengths are checked one by one. Where the copies go depends on sums of them,
and the masks of the interfaces are not checked at all (`copies_inBounds_iff`). No length is
negative in a copy of a rule that is accepted.
-/
import Lede.Map.PortTheorems

namespace Lede.Map

/-! ## Uses -/

/-- `len` bytes from byte `off` on of an object of `size` bytes. -/
structure Touch where
  size : Nat
  off : Nat
  len : Nat
  deriving DecidableEq, Repr

/-- Every use ends inside its object. -/
def InBounds (ts : List Touch) : Prop := ∀ t ∈ ts, t.off + t.len ≤ t.size

instance (ts : List Touch) : Decidable (InBounds ts) :=
  inferInstanceAs (Decidable (∀ t ∈ ts, t.off + t.len ≤ t.size))

@[simp] theorem inBounds_nil : InBounds [] := by simp [InBounds]

@[simp] theorem inBounds_cons (t : Touch) (ts : List Touch) :
    InBounds (t :: ts) ↔ t.off + t.len ≤ t.size ∧ InBounds ts := by simp [InBounds]

@[simp] theorem inBounds_append (ts us : List Touch) :
    InBounds (ts ++ us) ↔ InBounds ts ∧ InBounds us := by
  simp only [InBounds, List.mem_append, or_imp, forall_and]

/-- `bmemcpy` to an object of `dst` bytes from one of `src`. -/
def bmemcpyUse (dst src bits : Nat) : List Touch :=
  let bytes := bits / 8 + if 0 < bits % 8 then 1 else 0
  [⟨src, 0, bytes⟩, ⟨dst, 0, bytes⟩]

/-- `bmemcpys64`. -/
def bmemcpys64Use (dst src frombits nbits : Nat) : List Touch :=
  let frombyte := frombits / 8
  let tobyte := (frombits + nbits) / 8
  [⟨src, frombyte, tobyte - frombyte + 1⟩, ⟨8, 0, tobyte - frombyte + 1⟩] ++ bmemcpyUse dst 8 nbits

/-- One entry of `match_prefix`. -/
def matchEntryUse (r : Rule) (cur : Delegated) (entry : (Nat → UInt8) × Int) : List Touch :=
  let mask := if r.lw4o6 ∧ entry.2 = 128 then 64 else entry.2
  if cur.1 < mask ∧ r.prefix6len ≤ mask ∧ bmemcmpEq entry.1 r.ipv6Prefix r.prefix6len.toNat then
    bmemcpyUse 16 16 mask.toNat
  else if r.lw4o6 ∧ cur.1 < r.prefix6len ∧ mask < r.prefix6len ∧
      bmemcmpEq entry.1 r.ipv6Prefix mask.toNat then
    bmemcpyUse 16 16 r.prefix6len.toNat
  else []

/-- `match_prefix`. -/
def matchPrefixUse (r : Rule) : Delegated → List ((Nat → UInt8) × Int) → List Touch
  | _, [] => []
  | cur, e :: es => matchEntryUse r cur e ++ matchPrefixUse r (matchEntry r cur e) es

/-- "Find PD". -/
def findPdUse (iface : String) (r : Rule) : List Iface → Delegated → List Touch
  | [], _ => []
  | c :: rest, cur =>
    if iface ≠ "*" ∧ iface ≠ c.name then findPdUse iface r rest cur
    else
      let first := matchPrefix r cur c.prefixes
      let both := if r.lw4o6 then matchPrefix r first c.addresses else first
      matchPrefixUse r cur c.prefixes ++
        (if r.lw4o6 then matchPrefixUse r first c.addresses else []) ++
        (if 0 ≤ both.1 then [] else findPdUse iface r rest both)

/-- The copies after the checks, for the delegated prefix the rule goes by. -/
def deriveUse (r : Rule) (pdlen : Int) : List Touch :=
  let ealen := r.ealenFor pdlen
  let psidlen := r.psidlenFor pdlen
  (if r.psidFor < 0 ∧ 0 ≤ psidlen ∧ 0 ≤ pdlen then
    bmemcpys64Use 2 16 (r.prefix6len + ealen - psidlen).toNat psidlen.toNat
  else []) ++
  (if 0 ≤ pdlen ∨ ealen = psidlen then
    bmemcpys64Use 4 16 r.prefix6len.toNat (ealen - psidlen).toNat ++
      bmemcpyUse 4 4 r.prefix4len.toNat
  else []) ++
  (if 0 ≤ pdlen then bmemcpyUse 16 16 pdlen.toNat else [])

/-- The loop of `main` for a rule that passes the checks. -/
def evalUse (iface : String) (dump : List Iface) (r : Rule) : List Touch :=
  let r := r.adjust
  (if r.pdlen < 0 then findPdUse iface r dump (r.pdlen, r.pd) else []) ++
    deriveUse r (r.delegated iface dump).1

/-! ## One copy -/

theorem bmemcpyUse_inBounds {dst src bits : Nat} :
    InBounds (bmemcpyUse dst src bits) ↔ bits ≤ 8 * src ∧ bits ≤ 8 * dst := by
  unfold bmemcpyUse
  simp only [inBounds_cons, inBounds_nil, and_true]
  split <;> omega

/-- The byte the last bit is followed by is read as well. -/
theorem bmemcpys64Use_inBounds {dst src frombits nbits : Nat} :
    InBounds (bmemcpys64Use dst src frombits nbits) ↔
      frombits + nbits < 8 * src ∧ frombits % 8 + nbits < 64 ∧ nbits ≤ 8 * dst := by
  unfold bmemcpys64Use
  simp only [inBounds_append, inBounds_cons, inBounds_nil, and_true, bmemcpyUse_inBounds]
  omega

/-! ## Finding the delegated prefix -/

section FindPd

variable {iface : String} {r : Rule} {cur : Delegated}

theorem matchEntry_le (entry : (Nat → UInt8) × Int) : cur.1 ≤ (matchEntry r cur entry).1 := by
  unfold matchEntry
  dsimp only
  generalize (if r.lw4o6 = true ∧ entry.2 = 128 then (64 : Int) else entry.2) = mask
  split
  · next h => exact Int.le_of_lt h.1
  · split
    · next h => exact Int.le_of_lt h.2.1
    · exact Int.le_refl _

/-- The length of the delegated prefix only grows. -/
theorem matchPrefix_le (entries : List ((Nat → UInt8) × Int)) :
    cur.1 ≤ (matchPrefix r cur entries).1 := by
  induction entries generalizing cur with
  | nil => exact Int.le_refl _
  | cons e es ih => exact Int.le_trans (matchEntry_le e) ih

theorem matchEntryUse_inBounds {entry : (Nat → UInt8) × Int}
    (hle : (matchEntry r cur entry).1 ≤ 128) : InBounds (matchEntryUse r cur entry) := by
  unfold matchEntry at hle
  unfold matchEntryUse
  dsimp only at hle ⊢
  generalize (if r.lw4o6 = true ∧ entry.2 = 128 then (64 : Int) else entry.2) = mask at hle ⊢
  split
  · next h =>
    rw [if_pos h] at hle
    rw [bmemcpyUse_inBounds]
    omega
  · next hnot =>
    rw [if_neg hnot] at hle
    split
    · next h =>
      rw [if_pos h] at hle
      rw [bmemcpyUse_inBounds]
      omega
    · exact inBounds_nil

/-- The masks that were copied are no longer than the one that is left. -/
theorem matchPrefixUse_inBounds {entries : List ((Nat → UInt8) × Int)}
    (hle : (matchPrefix r cur entries).1 ≤ 128) : InBounds (matchPrefixUse r cur entries) := by
  induction entries generalizing cur with
  | nil => exact inBounds_nil
  | cons e es ih =>
    have hentry : (matchEntry r cur e).1 ≤ 128 :=
      Int.le_trans (matchPrefix_le (r := r) es) hle
    exact (inBounds_append _ _).mpr ⟨matchEntryUse_inBounds hentry, ih hle⟩

theorem findPdUse_inBounds {ifaces : List Iface} (hle : (findPd iface r ifaces cur).1 ≤ 128) :
    InBounds (findPdUse iface r ifaces cur) := by
  induction ifaces generalizing cur with
  | nil => exact inBounds_nil
  | cons c rest ih =>
    unfold findPd at hle
    unfold findPdUse
    split
    · next hskip =>
      rw [if_pos hskip] at hle
      exact ih hle
    · next hskip =>
      rw [if_neg hskip] at hle
      dsimp only at hle ⊢
      generalize hboth : (if r.lw4o6 = true then matchPrefix r (matchPrefix r cur c.prefixes)
        c.addresses else matchPrefix r cur c.prefixes) = both at hle ⊢
      have hlast : both.1 ≤ 128 := by
        split at hle <;> omega
      have hfirst : (matchPrefix r cur c.prefixes).1 ≤ both.1 := by
        rw [← hboth]
        split
        · exact matchPrefix_le _
        · exact Int.le_refl _
      refine (inBounds_append _ _).mpr ⟨(inBounds_append _ _).mpr
        ⟨matchPrefixUse_inBounds (Int.le_trans hfirst hlast), ?_⟩, ?_⟩
      · split
        · next hlw =>
          rw [if_pos hlw] at hboth
          exact matchPrefixUse_inBounds (by rwa [hboth])
        · exact inBounds_nil
      · split
        · exact inBounds_nil
        · next hneg =>
          rw [if_neg hneg] at hle
          exact ih hle

end FindPd

/-! ## The copies of a rule -/

/-- The lengths for which every copy fits. -/
structure Fits (r : Rule) (pdlen : Int) : Prop where
  pd : pdlen ≤ 128
  psid : r.psidFor < 0 → 0 ≤ pdlen → r.prefix6len + r.ealenFor pdlen < 128
  ipv4 : 0 ≤ pdlen ∨ r.ealenFor pdlen = r.psidlenFor pdlen →
    r.ealenFor pdlen - r.psidlenFor pdlen ≤ 32 ∧
      r.prefix6len + (r.ealenFor pdlen - r.psidlenFor pdlen) < 128

theorem deriveUse_inBounds_iff {r : Rule} {pdlen : Int} (h4 : r.prefix4len ≤ 32)
    (h6 : 0 ≤ r.prefix6len) (hlen : 0 ≤ r.psidlenFor pdlen) (hlen16 : r.psidlenFor pdlen ≤ 16)
    (hea : r.psidlenFor pdlen ≤ r.ealenFor pdlen) :
    InBounds (deriveUse r pdlen) ↔ Fits r pdlen := by
  unfold deriveUse
  dsimp only
  generalize hq : r.psidlenFor pdlen = psidlen at hlen hlen16 hea ⊢
  generalize he : r.ealenFor pdlen = ealen at hea ⊢
  have hfits : Fits r pdlen ↔ (r.psidFor < 0 → 0 ≤ pdlen → r.prefix6len + ealen < 128) ∧
      (0 ≤ pdlen ∨ ealen = psidlen →
        ealen - psidlen ≤ 32 ∧ r.prefix6len + (ealen - psidlen) < 128) ∧ pdlen ≤ 128 := by
    rw [← hq, ← he]
    exact ⟨fun h => ⟨h.psid, h.ipv4, h.pd⟩, fun h => ⟨h.2.2, h.1, h.2.1⟩⟩
  rw [hfits, inBounds_append, inBounds_append, and_assoc]
  refine and_congr ?_ (and_congr ?_ ?_)
  · by_cases hread : r.psidFor < 0 ∧ 0 ≤ psidlen ∧ 0 ≤ pdlen
    · rw [if_pos hread, bmemcpys64Use_inBounds]
      omega
    · rw [if_neg hread]
      simp only [inBounds_nil, true_iff]
      omega
  · by_cases hread : 0 ≤ pdlen ∨ ealen = psidlen
    · rw [if_pos hread, inBounds_append, bmemcpys64Use_inBounds, bmemcpyUse_inBounds]
      omega
    · rw [if_neg hread]
      simp only [inBounds_nil, true_iff]
      omega
  · by_cases hpd : 0 ≤ pdlen
    · rw [if_pos hpd, bmemcpyUse_inBounds]
      omega
    · rw [if_neg hpd]
      simp only [inBounds_nil, true_iff]
      omega

/-- For every rule that is accepted: the copies stay inside their objects exactly where the
delegated prefix is one of 128 bits at most, the bits that are read from it end before its last
one, and those for the IPv4 address are 32 at most. -/
theorem copies_inBounds_iff {legacy : Bool} {iface : String} {dump : List Iface}
    {opts : List RuleOpt} {m : Mapped} (h : evalRule legacy iface dump (parseRule opts) = some m) :
    InBounds (evalUse iface dump (parseRule opts)) ↔ Fits (parseRule opts).adjust
      ((parseRule opts).adjust.delegated iface dump).1 := by
  have hm := evalRule_accepted h
  have hbound := (bounded_parseRule opts).adjust
  have h6 := hm.prefix6len_nonneg
  have hlen := hm.psidlen_nonneg
  have hlen16 := hm.psidlen_le
  have hea := hm.psidlen_le_ealen
  rw [hm.prefix6len] at h6
  rw [hm.psidlen] at hlen hlen16 hea
  rw [hm.ealen] at hea
  unfold evalUse
  dsimp only
  generalize (parseRule opts).adjust = r at hbound h6 hlen hlen16 hea ⊢
  rw [inBounds_append, deriveUse_inBounds_iff hbound.prefix4len h6 hlen hlen16 hea]
  refine ⟨And.right, fun hfits => ⟨?_, hfits⟩⟩
  have hpd := hfits.pd
  unfold Rule.delegated at hpd
  split
  · next hneg =>
    rw [if_pos hneg] at hpd
    exact findPdUse_inBounds hpd
  · exact inBounds_nil

theorem copies_sharedOpts : InBounds (evalUse "*" [] (parseRule sharedOpts)) :=
  (@copies_inBounds_iff false "*" [] sharedOpts _ rfl).mpr ⟨by decide, by decide, by decide⟩

/-- 47 bits for the IPv4 address. -/
def longOpts : List RuleOpt :=
  [.ealen (some 48), .psidlen (some 1), .prefix6len (some 0), .pdlen (some 64)]

theorem copies_longOpts : (evalRule false "*" [] (parseRule longOpts)).isSome ∧
    ⟨4, 0, 6⟩ ∈ evalUse "*" [] (parseRule longOpts) ∧
    ¬ InBounds (evalUse "*" [] (parseRule longOpts)) :=
  ⟨rfl, by decide, by decide⟩

end Lede.Map
