/-
Lede.Otto.L2EntryTheorems — what a row of the L2 table keeps of an entry.

`InHardware` says which entries a family has rows for, and `Agrees` what two entries have in
common that stand for the same row. The bits of a row are computed for each kind of entry
(`…838x`, `…839x`, `…930x`, `…931x`), and `fillEntry_fillRow` puts them together: outside the
kinds that `Clobbered` lists, a row that is written reads back as the entry it was made
from. `rewrite_agrees` is the same for the callers that read a row, change some fields and write
it again.
-/
import Lede.Otto.L2Entry
import Mathlib.Tactic.SplitIfs

namespace Lede.Otto

open Lede.Lib.BitField

/-- The width of the port field. -/
def Family.portBits : Family → Nat
  | .rtl838x => 5
  | .rtl839x => 6
  | .rtl930x => 6
  | .rtl931x => 6

/-- The width of the age field. -/
def Family.ageBits : Family → Nat
  | .rtl838x => 2
  | .rtl839x => 3
  | .rtl930x => 3
  | .rtl931x => 3

/-- The width of the index of a multicast port mask. -/
def Family.mcBits : Family → Nat
  | .rtl838x => 9
  | .rtl839x => 12
  | .rtl930x => 10
  | .rtl931x => 12

/-- The ids that the L3 layer writes into next hop rows: on the RTL838x the number of the
route, below `MAX_ROUTES` (its notifiers ignore the routes so far), on the RTL839x and the
RTL930x a DMAC entry, which is not 0 and below `MAX_DMACS`. The RTL931x has no routes. -/
def handedOut : Family → Nat → Prop
  | .rtl838x, id => id < 512
  | .rtl839x, id => 0 < id ∧ id < 2048
  | .rtl930x, id => 0 < id ∧ id < 2048
  | .rtl931x, _ => False

/-- The entry is of the kind that its type says. -/
def L2Entry.OfKind (f : Family) (e : L2Entry) : Prop :=
  match e.type with
  | .invalid => False
  | .unicast => e.isIpMc = false ∧ e.isIpv6Mc = false ∧ e.mac.isMulticast = false
  | .multicast =>
    e.isIpMc = false ∧ e.isIpv6Mc = false ∧ e.mac.isMulticast = true ∧ e.nextHop = false
  | .ip4Multicast => f.is93xx = false ∧ e.isIpMc = true ∧ e.isIpv6Mc = false
  | .ip6Multicast => f.is93xx = false ∧ e.isIpMc = false ∧ e.isIpv6Mc = true

/-- The entry leads to a trunk; only the rows of the RTL93xx can say so. -/
def L2Entry.OnTrunk (f : Family) (e : L2Entry) : Prop := f.is93xx = true ∧ e.isTrunk = true

/-- A valid entry whose fields fit the row. -/
structure L2Entry.Fits (f : Family) (e : L2Entry) : Prop where
  valid : e.valid = true
  kind : e.OfKind f
  vid : e.vid.toNat < 2 ^ 12
  rvid : e.rvid.toNat < 2 ^ 12
  port : e.type = .unicast → ¬ e.OnTrunk f → e.port.toNat < 2 ^ f.portBits
  age : e.type = .unicast → e.age.toNat < 2 ^ f.ageBits
  mcPortmaskIndex : e.type ≠ .unicast → e.mcPortmaskIndex.toNat < 2 ^ f.mcBits

/-- The valid entries of each kind: a trunk is one of the groups of the family, and a next hop
has an id that the L3 layer hands out. -/
structure L2Entry.InHardware (f : Family) (e : L2Entry) : Prop extends e.Fits f where
  trunk : e.type = .unicast → e.OnTrunk f → e.trunk.toNat < f.numLagIds
  nextHop : e.nextHop = true → handedOut f e.nhRouteId.toNat

/-- The entry is of an IP group. -/
def L2Entry.IsIp (e : L2Entry) : Prop := e.type = .ip4Multicast ∨ e.type = .ip6Multicast

/-- What two entries have in common that stand for the same row. -/
structure L2Entry.Agrees (f : Family) (e e' : L2Entry) : Prop where
  valid : e'.valid = e.valid
  type : e'.type = e.type
  isIpMc : e'.isIpMc = e.isIpMc
  isIpv6Mc : e'.isIpv6Mc = e.isIpv6Mc
  mac : ¬ e.IsIp → e'.mac = e.mac
  mcGip : e.IsIp → e'.mcGip = e.mcGip
  rvid : e'.rvid = e.rvid
  onTrunk : e.type = .unicast → (e'.OnTrunk f ↔ e.OnTrunk f)
  port : e.type = .unicast → ¬ e.OnTrunk f → e'.port = e.port
  trunk : e.type = .unicast → e.OnTrunk f → e'.trunk = e.trunk
  age : e.type = .unicast → e'.age = e.age
  isStatic : e.type = .unicast → e'.isStatic = e.isStatic
  nextHop : e.type = .unicast → e'.nextHop = e.nextHop
  blockDa : e.type = .unicast → e'.blockDa = e.blockDa
  blockSa : e.type = .unicast → e'.blockSa = e.blockSa
  suspended : e.type = .unicast → e'.suspended = e.suspended
  nhRouteId : e.type = .unicast → e.nextHop = true → e'.nhRouteId = e.nhRouteId
  mcPortmaskIndex : e.type ≠ .unicast → e'.mcPortmaskIndex = e.mcPortmaskIndex

/-- The row has a field for the VID: in a unicast row that is no next hop and not of the
RTL931x, whose rows are found by the relay VID, and in a multicast row of the RTL838x. -/
def L2Entry.HasVid (f : Family) (e : L2Entry) : Prop :=
  (e.type = .unicast ∧ e.nextHop = false ∧ f ≠ .rtl931x) ∨ (e.type = .multicast ∧ f = .rtl838x)

/-- The row has no field for the VID, and its reader gives the relay VID for it. -/
def L2Entry.VidIsRvid (f : Family) (e : L2Entry) : Prop :=
  (e.type = .unicast ∧ f = .rtl931x) ∨
    (e.type = .unicast ∧ e.nextHop = true ∧ (f = .rtl838x ∨ f = .rtl839x)) ∨
      (e.type ≠ .unicast ∧ f = .rtl839x)

/-- The row has no valid bit, and none of the bits that stand for one is set: no age that the
reader looks at, no static, blocking or next hop bit. -/
def L2Entry.ReadsAsFree (f : Family) (e : L2Entry) : Prop :=
  e.type = .unicast ∧ e.isStatic = false ∧ e.blockDa = false ∧ e.blockSa = false ∧
    e.nextHop = false ∧
    match f with
    | .rtl838x => e.age.toNat < 2
    | .rtl839x => e.age.toNat = 0
    | .rtl930x => False
    | .rtl931x => False

/-- The row does not hold what its reader takes from it: on the RTL838x the VID is or-ed into
the number of the route, on the RTL839x an id is read with two bits less and the relay VID
of an IP group from the wrong end of its word, and on the RTL930x the port stands where the
trunk belongs and a multicast row has no relay VID. -/
def L2Entry.Clobbered (f : Family) (e : L2Entry) : Prop :=
  match f with
  | .rtl838x =>
    e.type = .unicast ∧ e.nextHop = true ∧
      ¬ ∀ i < 9, e.vid.getLsbD i ∨ e.rvid.getLsbD i → e.nhRouteId.getLsbD i
  | .rtl839x =>
    (e.type = .unicast ∧ e.nextHop = true ∧ 512 ≤ e.nhRouteId.toNat) ∨ (e.IsIp ∧ e.rvid ≠ 0)
  | .rtl930x =>
    (e.type = .unicast ∧ e.OnTrunk f ∧ e.port &&& 0x3f ≠ e.trunk) ∨
      (e.type = .multicast ∧ e.rvid ≠ 0)
  | .rtl931x => False

/-- An entry whose row reads back. -/
structure L2Entry.Kept (f : Family) (e : L2Entry) : Prop extends e.InHardware f where
  notFree : ¬ e.ReadsAsFree f
  notClobbered : ¬ e.Clobbered f

/-- The entry that is read from the row of an entry. -/
def reread (f : Family) (e e₀ : L2Entry) : L2Entry := fillEntry f (fillRow f e) e₀

variable {e : L2Entry}

theorem L2Entry.Fits.unicast {f : Family} (h : e.Fits f) (hu : e.type = .unicast) :
    e.isIpMc = false ∧ e.isIpv6Mc = false ∧ e.mac.isMulticast = false := by
  have hk := h.kind
  rw [L2Entry.OfKind, hu] at hk
  exact hk

theorem L2Entry.Fits.multicast {f : Family} (h : e.Fits f) (hu : e.type = .multicast) :
    e.isIpMc = false ∧ e.isIpv6Mc = false ∧ e.mac.isMulticast = true ∧ e.nextHop = false := by
  have hk := h.kind
  rw [L2Entry.OfKind, hu] at hk
  exact hk

/-- An entry of an IP group has one of the two bits, the one that its type says. -/
theorem L2Entry.Fits.ip {f : Family} (h : e.Fits f) (hu : e.IsIp) :
    f.is93xx = false ∧ (!e.isIpMc && !e.isIpv6Mc) = false ∧ ipMcType e = e.type := by
  have hk := h.kind
  rcases hu with hu | hu <;> rw [L2Entry.OfKind, hu] at hk <;> simp [ipMcType, hk, hu]

theorem not_onTrunk {f : Family} (hf : f.is93xx = false) : ¬ e.OnTrunk f := by
  simp [L2Entry.OnTrunk, hf]

/-! ## RTL838x -/

/-- An address in two words, with `x` above it and `y` below it. -/
theorem words838x (mac : BitVec 64) (x y : BitVec 32) {r1 r2 : BitVec 32}
    (hr1 : r1 = (mac >>> 20).setWidth 32 ||| x <<< 28)
    (hr2 : r2 = ((mac &&& low 20) <<< 12).setWidth 32 ||| (y &&& low 12)) :
    (r1 >>> 20).setWidth 8 = (mac >>> 40).setWidth 8 ∧
      (r1 >>> 12).setWidth 8 = (mac >>> 32).setWidth 8 ∧
      (r1 >>> 4).setWidth 8 = (mac >>> 24).setWidth 8 ∧
      ((r1 &&& low 4) <<< 4 ||| r2 >>> 28).setWidth 8 = (mac >>> 16).setWidth 8 ∧
      (r2 >>> 20).setWidth 8 = (mac >>> 8).setWidth 8 ∧
      (r2 >>> 12).setWidth 8 = mac.setWidth 8 := by
  subst hr1 hr2
  refine ⟨?_, ?_, ?_, ?_, ?_, ?_⟩
  · simp (disch := decide) [BitVec.ushiftRight_or_distrib, byte_setWidth, byte_shiftLeft,
      ← BitVec.shiftRight_add]
  · simp (disch := decide) [BitVec.ushiftRight_or_distrib, byte_setWidth, byte_shiftLeft,
      ← BitVec.shiftRight_add]
  · simp (disch := decide) [BitVec.ushiftRight_or_distrib, byte_setWidth, byte_shiftLeft,
      ← BitVec.shiftRight_add]
  all_goals
    apply BitVec.eq_of_getLsbD_eq
    intro i hi
    simp
    grind

section Rtl838x

variable (h : e.Fits .rtl838x)

include h

theorem isIpMc838x : (fillRow838x e).r0.getLsbD 22 = e.isIpMc := by
  have hvid := getLsbD_eq_false h.vid
  simp only [fillRow838x, h.valid, Bool.not_true, Bool.false_eq_true, if_false]
  split_ifs <;> simp

theorem isIpv6Mc838x : (fillRow838x e).r0.getLsbD 21 = e.isIpv6Mc := by
  have hvid := getLsbD_eq_false h.vid
  simp only [fillRow838x, h.valid, Bool.not_true, Bool.false_eq_true, if_false]
  split_ifs <;> simp

/-- The words that hold the address, with the flags above it and the relay VID below it. -/
theorem r12_838x (hip : (!e.isIpMc && !e.isIpv6Mc) = true) : ∃ x : BitVec 32,
    (fillRow838x e).r1 = (etherAddrToU64 e.mac >>> 20).setWidth 32 ||| x <<< 28 ∧
      (fillRow838x e).r2 = ((etherAddrToU64 e.mac &&& low 20) <<< 12).setWidth 32 |||
        (e.rvid.setWidth 32 &&& low 12) := by
  simp only [fillRow838x, h.valid, hip, Bool.not_true, Bool.false_eq_true, if_false, if_true]
  cases hm : e.mac.isMulticast with
  | false =>
    refine ⟨flag 2 e.blockDa ||| flag 3 e.blockSa ||| flag 1 e.suspended ||| flag 0 e.nextHop, ?_, rfl⟩
    simp [BitVec.shiftLeft_or_distrib, flag_shiftLeft, BitVec.or_assoc]
  | true => exact ⟨0, by simp, rfl⟩

theorem rvid838x : ((fillRow838x e).r2 &&& low 12).setWidth 16 = e.rvid := by
  have hrvid := setWidth_low_setWidth (n := 32) h.rvid (by decide)
  by_cases hip : (!e.isIpMc && !e.isIpv6Mc) = true
  · obtain ⟨x, -, hr2⟩ := r12_838x h hip
    have hzero : ((etherAddrToU64 e.mac &&& low 20) <<< 12).setWidth 32 &&& low 12 = 0#32 := by
      rw [setWidth_and_low, low_shiftLeft _ (Nat.le_refl 12), BitVec.setWidth_zero]
    rw [hr2, low_or, hzero, low_low_of_le _ (Nat.le_refl 12), BitVec.zero_or, hrvid]
  · simp only [fillRow838x, h.valid, hip, Bool.not_true, Bool.false_eq_true, if_false]
    rw [low_or, low_shiftLeft _ (Nat.le_refl 12), BitVec.zero_or, hrvid]

theorem mac838x (hip : (!e.isIpMc && !e.isIpv6Mc) = true) (e₀ : L2Entry) :
    (fillMac838x (fillRow838x e) e₀).mac = e.mac := by
  obtain ⟨x, hr1, hr2⟩ := r12_838x h hip
  obtain ⟨h0, h1, h2, h3, h4, h5⟩ := words838x _ x _ hr1 hr2
  simp only [fillMac838x, h0, h1, h2, h3, h4, h5]
  simp (disch := decide) [etherAddrToU64, BitVec.ushiftRight_or_distrib, byte_self, byte_of_disjoint,
    ushiftRight_setWidth]

/-- The first word of a unicast row; the route of a next hop is or-ed into the VID. -/
theorem r0_838x (hu : e.type = .unicast) : ∃ id : BitVec 32,
    (fillRow838x e).r0 = flag 19 e.isStatic ||| (e.port.setWidth 32 &&& low 5) <<< 12 |||
      (e.vid.setWidth 32 &&& low 12) ||| (id &&& low 10) ||| (e.age &&& low 2) <<< 17 := by
  obtain ⟨hi4, hi6, hm⟩ := h.unicast hu
  have hport : e.port.setWidth 32 = e.port.setWidth 32 &&& low 5 :=
    setWidth_low (h.port hu (not_onTrunk rfl))
  have hcut : e.port.setWidth 32 &&& low 6 = e.port.setWidth 32 &&& low 5 := by
    rw [hport, low_low_of_le _ (by decide), low_low_of_le _ (Nat.le_refl 5)]
  simp only [fillRow838x, h.valid, hi4, hi6, hm, hcut]
  refine ⟨if e.nextHop then flag 9 e.nhVlanTarget ||| (e.nhRouteId.setWidth 32 &&& low 9) else 0, ?_⟩
  rw [← setWidth_low (n := 32) h.vid]
  cases e.nextHop with
  | true => simp (disch := decide) [low_or, low_low_of_le, flag_low]
  | false => simp

/-- The bits of the unicast row of the RTL838x. -/
theorem unicastBits838x (hu : e.type = .unicast) :
    (bits (fillRow838x e).r0 12 5).setWidth 8 = e.port ∧ bits (fillRow838x e).r0 17 2 = e.age ∧
      (fillRow838x e).r0.getLsbD 19 = e.isStatic ∧ (fillRow838x e).r1.getLsbD 30 = e.blockDa ∧
      (fillRow838x e).r1.getLsbD 31 = e.blockSa ∧ (fillRow838x e).r1.getLsbD 29 = e.suspended ∧
      (fillRow838x e).r1.getLsbD 28 = e.nextHop := by
  obtain ⟨hi4, hi6, hm⟩ := h.unicast hu
  obtain ⟨id, hr0⟩ := r0_838x h hu
  have hage := low_of_lt (h.age hu)
  have hr1 : (fillRow838x e).r1 = (etherAddrToU64 e.mac >>> 20).setWidth 32 ||| flag 30 e.blockDa |||
      flag 31 e.blockSa ||| flag 29 e.suspended ||| flag 28 e.nextHop := by
    simp [fillRow838x, h.valid, hi4, hi6, hm]
  rw [Family.ageBits] at hage
  rw [hr0, hr1]
  refine ⟨?_, ?_, ?_, ?_, ?_, ?_, ?_⟩
  · simp (disch := decide) only [bits, field_or, field_flag, field_self, field_low_of_disjoint,
      ushiftRight_low, low_low_of_ge, BitVec.zero_and, BitVec.zero_or, BitVec.or_zero]
    exact setWidth_low_setWidth (h.port hu (not_onTrunk rfl)) (by decide)
  · simp (disch := decide) only [bits, field_or, field_flag, field_self, field_low_of_disjoint,
      ushiftRight_low, BitVec.zero_and, BitVec.zero_or, hage]
  all_goals
    simp [etherAddrToU64]

theorem unicastVid838x (hu : e.type = .unicast) (hn : e.nextHop = false) :
    ((fillRow838x e).r0 &&& low 12).setWidth 16 = e.vid := by
  obtain ⟨hi4, hi6, hm⟩ := h.unicast hu
  have hvid := getLsbD_eq_false h.vid
  simp only [fillRow838x, h.valid, hi4, hi6, hm, hn]
  apply BitVec.eq_of_getLsbD_eq
  intro i hi
  simp
  grind

theorem multicastBits838x (hm : e.type ≠ .unicast) :
    (bits (fillRow838x e).r0 12 9).setWidth 16 = e.mcPortmaskIndex := by
  have hvid := getLsbD_eq_false h.vid
  have hmc := getLsbD_eq_false (h.mcPortmaskIndex hm)
  have hk := h.kind
  simp only [Family.mcBits] at hmc
  apply BitVec.eq_of_getLsbD_eq
  intro i hi
  simp only [fillRow838x, h.valid, bits]
  cases ht : e.type <;> simp only [L2Entry.OfKind, ht] at hk
  case unicast => exact absurd ht hm
  all_goals
    simp [hk]
    grind

theorem multicastVid838x (hm : e.type = .multicast) :
    ((fillRow838x e).r0 &&& low 12).setWidth 16 = e.vid := by
  obtain ⟨hi4, hi6, hm, -⟩ := h.multicast hm
  have hvid := getLsbD_eq_false h.vid
  simp only [fillRow838x, h.valid, hi4, hi6, hm]
  apply BitVec.eq_of_getLsbD_eq
  intro i hi
  simp
  grind

/-- A unicast row that does not read as free has one of the bits that make it valid. -/
theorem valid838x (hu : e.type = .unicast) (hf : ¬ e.ReadsAsFree .rtl838x) :
    (!((fillRow838x e).r0 &&& 0x007c0000 == 0 && (fillRow838x e).r1 &&& 0xd0000000 == 0)) = true := by
  obtain ⟨-, hage, hst, hda, hsa, -, hnh⟩ := unicastBits838x h hu
  simp only [L2Entry.ReadsAsFree, hu, true_and, not_and] at hf
  rw [Bool.not_eq_true', Bool.and_eq_false_iff]
  cases hs : e.isStatic with
  | true => exact .inl (and_ne_zero 19 (hst.trans hs) (by decide))
  | false =>
  cases hd : e.blockDa with
  | true => exact .inr (and_ne_zero 30 (hda.trans hd) (by decide))
  | false =>
  cases ha : e.blockSa with
  | true => exact .inr (and_ne_zero 31 (hsa.trans ha) (by decide))
  | false =>
  cases hn : e.nextHop with
  | true => exact .inr (and_ne_zero 28 (hnh.trans hn) (by decide))
  | false =>
  have hage2 : 2 ≤ e.age.toNat := Nat.le_of_not_lt (hf hs hd ha hn)
  have hbit : e.age.getLsbD 1 = true := by
    have hage4 : e.age.toNat < 4 := h.age hu
    rw [BitVec.getLsbD, Nat.testBit_eq_decide_div_mod_eq]
    grind
  refine .inl (and_ne_zero 18 ?_ (by decide))
  rw [← hage, bits] at hbit
  simpa using hbit

theorem reread838x_unicast (hu : e.type = .unicast) (e₀ : L2Entry) :
    reread .rtl838x e e₀ = fillUnicast838x (fillRow838x e) (fillMac838x (fillRow838x e)
      { e₀ with isIpMc := false, isIpv6Mc := false, type := .invalid }) := by
  obtain ⟨hi4, hi6, hm⟩ := h.unicast hu
  simp only [reread, fillEntry, fillRow, fillEntry838x, isIpMc838x h, isIpv6Mc838x h, hi4, hi6]
  rw [if_pos (by decide), if_pos]
  rw [mac838x h (by simp [hi4, hi6]), hm]
  rfl
end Rtl838x

/-- What is promised of the row of an entry: it reads back as the entry, with its VID where
the row has a field for one, and with the relay VID where the reader gives that instead. -/
structure ReadsBack (f : Family) (e e' : L2Entry) : Prop extends e.Agrees f e' where
  vid : e.HasVid f → e'.vid = e.vid
  vidIsRvid : e.VidIsRvid f → e'.vid = e.rvid
  vidIsZero : e.type = .unicast → e.nextHop = true → f = .rtl930x → e'.vid = 0

/-- What every unicast row gives back, whatever its id or its trunk. -/
structure UnicastBack (f : Family) (e e' : L2Entry) : Prop where
  valid : e'.valid = true
  type : e'.type = .unicast
  isIpMc : e'.isIpMc = false
  isIpv6Mc : e'.isIpv6Mc = false
  mac : e'.mac = e.mac
  rvid : e'.rvid = e.rvid
  onTrunk : e'.OnTrunk f ↔ e.OnTrunk f
  port : ¬ e.OnTrunk f → e'.port = e.port
  age : e'.age = e.age
  isStatic : e'.isStatic = e.isStatic
  nextHop : e'.nextHop = e.nextHop
  blockDa : e'.blockDa = e.blockDa
  blockSa : e'.blockSa = e.blockSa
  suspended : e'.suspended = e.suspended
  vid : e.HasVid f → e'.vid = e.vid
  vidIsRvid : e.VidIsRvid f → e'.vid = e.rvid
  vidIsZero : e.nextHop = true → f = .rtl930x → e'.vid = 0

theorem unicast838x (h : e.Fits .rtl838x) (hu : e.type = .unicast)
    (hf : ¬ e.ReadsAsFree .rtl838x) (e₀ : L2Entry) :
    UnicastBack .rtl838x e (reread .rtl838x e e₀) := by
  obtain ⟨hi4, hi6, hm⟩ := h.unicast hu
  obtain ⟨hport, hage, hst, hda, hsa, hsu, hnh⟩ := unicastBits838x h hu
  have hip : (!e.isIpMc && !e.isIpv6Mc) = true := by simp [hi4, hi6]
  have hv := valid838x h hu hf
  rw [reread838x_unicast h hu]
  exact {
    valid := hv
    type := by simp only [fillUnicast838x, hv, if_true]
    isIpMc := rfl
    isIpv6Mc := rfl
    mac := mac838x h hip e₀
    rvid := rvid838x h
    onTrunk := by simp [L2Entry.OnTrunk, Family.is93xx]
    port := fun _ => hport
    age := hage
    isStatic := hst
    nextHop := hnh
    blockDa := hda
    blockSa := hsa
    suspended := hsu
    vid := fun hv => by
      have hn : e.nextHop = false := by simpa [L2Entry.HasVid, hu] using hv
      simp only [fillUnicast838x, hnh, hn]
      exact unicastVid838x h hu hn
    vidIsRvid := fun hv => by
      have hn : e.nextHop = true := by simpa [L2Entry.VidIsRvid, hu] using hv
      simp only [fillUnicast838x, hnh, hn, if_true]
      exact rvid838x h
    vidIsZero := fun _ hf => by simp at hf }

/-- The fields of a row that is no unicast row. -/
theorem ReadsBack.of_group {f : Family} {e' : L2Entry} (h : e.Fits f)
    (ht : e.type ≠ .unicast) (hv : e'.valid = true) (htype : e'.type = e.type)
    (hi4 : e'.isIpMc = e.isIpMc) (hi6 : e'.isIpv6Mc = e.isIpv6Mc)
    (hmac : ¬ e.IsIp → e'.mac = e.mac) (hgip : e.IsIp → e'.mcGip = e.mcGip)
    (hrvid : e'.rvid = e.rvid) (hidx : e'.mcPortmaskIndex = e.mcPortmaskIndex)
    (hvid : e.HasVid f → e'.vid = e.vid) (hvr : e.VidIsRvid f → e'.vid = e.rvid) :
    ReadsBack f e e' where
  valid := hv.trans h.valid.symm
  type := htype
  isIpMc := hi4
  isIpv6Mc := hi6
  mac := hmac
  mcGip := hgip
  rvid := hrvid
  onTrunk := fun hu => absurd hu ht
  port := fun hu => absurd hu ht
  trunk := fun hu => absurd hu ht
  age := fun hu => absurd hu ht
  isStatic := fun hu => absurd hu ht
  nextHop := fun hu => absurd hu ht
  blockDa := fun hu => absurd hu ht
  blockSa := fun hu => absurd hu ht
  suspended := fun hu => absurd hu ht
  nhRouteId := fun hu => absurd hu ht
  mcPortmaskIndex := fun _ => hidx
  vid := hvid
  vidIsRvid := hvr
  vidIsZero := fun hu => absurd hu ht

theorem multicast838x (h : e.Fits .rtl838x) (ht : e.type = .multicast) (e₀ : L2Entry) :
    ReadsBack .rtl838x e (reread .rtl838x e e₀) := by
  obtain ⟨hi4, hi6, hm, -⟩ := h.multicast ht
  have hip : (!e.isIpMc && !e.isIpv6Mc) = true := by simp [hi4, hi6]
  have hu : e.type ≠ .unicast := by simp [ht]
  have he : reread .rtl838x e e₀ = { fillMac838x (fillRow838x e)
      { e₀ with isIpMc := false, isIpv6Mc := false, type := .invalid } with
      valid := true, type := .multicast,
      mcPortmaskIndex := (bits (fillRow838x e).r0 12 9).setWidth 16 } := by
    simp only [reread, fillEntry, fillRow, fillEntry838x, isIpMc838x h, isIpv6Mc838x h, hi4, hi6]
    rw [if_pos (by decide), if_neg]
    rw [mac838x h hip, hm]
    decide
  rw [he]
  exact .of_group h hu rfl ht.symm hi4.symm hi6.symm (fun _ => mac838x h hip e₀)
    (fun hg => by simp [L2Entry.IsIp, ht] at hg) (rvid838x h) (multicastBits838x h hu)
    (fun _ => multicastVid838x h ht) (fun hv => by simp [L2Entry.VidIsRvid, ht] at hv)

/-- The third byte of an address lies in both words. -/
theorem nibbles839x (x : BitVec 8) :
    (x.setWidth 32 <<< 28 >>> 28).setWidth 8 ||| (x.setWidth 32 >>> 4).setWidth 8 <<< 4 = x := by
  apply BitVec.eq_of_getLsbD_eq
  intro i hi
  simp
  grind

section Rtl839x

variable (h : e.Fits .rtl839x)

include h

theorem isIpMc839x : (fillRow839x e).r2.getLsbD 31 = e.isIpMc := by
  have hk := h.kind
  simp only [fillRow839x, h.valid, Bool.not_true, Bool.false_eq_true, if_false]
  cases ht : e.type <;> simp only [L2Entry.OfKind, ht] at hk
  case unicast =>
    have hport := getElem_eq_false (h.port ht (not_onTrunk rfl)) 7 (by decide) (by decide)
    cases e.nextHop <;> simp [hk, hport]
  all_goals
    simp [hk]

theorem isIpv6Mc839x : (fillRow839x e).r2.getLsbD 30 = e.isIpv6Mc := by
  have hk := h.kind
  simp only [fillRow839x, h.valid, Bool.not_true, Bool.false_eq_true, if_false]
  cases ht : e.type <;> simp only [L2Entry.OfKind, ht] at hk
  case unicast =>
    have hport := getElem_eq_false (h.port ht (not_onTrunk rfl)) 6 (by decide) (by decide)
    cases e.nextHop <;> simp [hk, hport]
  all_goals
    simp [hk]

/-- The words that hold the address. -/
theorem r01_839x (hip : (!e.isIpMc && !e.isIpv6Mc) = true) :
    (fillRow839x e).r0 = e.mac.m0.setWidth 32 <<< 12 ||| e.mac.m1.setWidth 32 <<< 4 |||
        e.mac.m2.setWidth 32 >>> 4 ||| e.rvid.setWidth 32 <<< 20 ∧
      (fillRow839x e).r1 = e.mac.m2.setWidth 32 <<< 28 ||| e.mac.m3.setWidth 32 <<< 20 |||
        e.mac.m4.setWidth 32 <<< 12 ||| e.mac.m5.setWidth 32 <<< 4 := by
  simp only [fillRow839x, h.valid, hip, Bool.not_true, Bool.false_eq_true, if_false, if_true]
  cases hm : e.mac.isMulticast <;> exact ⟨rfl, rfl⟩

theorem rvid839x (hip : (!e.isIpMc && !e.isIpv6Mc) = true) :
    (bits (fillRow839x e).r0 20 12).setWidth 16 = e.rvid := by
  rw [(r01_839x h hip).1]
  simp (disch := decide) only [bits, field_or, field_self, field_setWidth_of_disjoint,
    ← BitVec.shiftRight_add, ushiftRight_setWidth, BitVec.zero_and, BitVec.zero_or]
  exact setWidth_low_setWidth h.rvid (by decide)

theorem mac839x (hip : (!e.isIpMc && !e.isIpv6Mc) = true) (e₀ : L2Entry) :
    (fillMac839x (fillRow839x e) e₀).mac = e.mac := by
  obtain ⟨hr0, hr1⟩ := r01_839x h hip
  rw [fillMac839x, hr0, hr1]
  simp (disch := decide) [BitVec.ushiftRight_or_distrib, BitVec.shiftLeft_or_distrib, byte_self,
    byte_of_disjoint, byte_shiftLeft, ushiftRight_setWidth, ← BitVec.shiftRight_add,
    ← BitVec.shiftLeft_add, nibbles839x]

/-- The flags of a unicast row, and the VID or the next hop below them. -/
theorem r2_839x (hu : e.type = .unicast) : ∃ id : BitVec 32,
    (fillRow839x e).r2 = flag 18 e.isStatic ||| (e.port.setWidth 32 &&& low 6) <<< 24 |||
      flag 19 e.blockDa ||| flag 20 e.blockSa ||| flag 17 e.suspended ||| (e.age &&& low 3) <<< 21 |||
      flag 16 e.nextHop ||| (id &&& low 16) := by
  obtain ⟨hi4, hi6, hm⟩ := h.unicast hu
  have hvid : e.vid.setWidth 32 = e.vid.setWidth 32 &&& low 12 := setWidth_low h.vid
  have hport : e.port.setWidth 32 = e.port.setWidth 32 &&& low 6 :=
    setWidth_low (h.port hu (not_onTrunk rfl))
  simp only [fillRow839x, h.valid, hi4, hi6, hm]
  refine ⟨if e.nextHop then flag 15 e.nhVlanTarget ||| (e.nhRouteId.setWidth 32 &&& low 11) <<< 4
    else e.vid.setWidth 32 <<< 4, ?_⟩
  rw [← hport]
  cases e.nextHop with
  | true => simp (disch := decide) [low_or, shiftLeft_low, flag_low, BitVec.or_assoc]
  | false =>
    simp only [flag_false, if_false, Bool.false_eq_true]
    rw [hvid, shiftLeft_low _ (by decide)]
    simp

/-- The bits of the unicast row of the RTL839x. -/
theorem unicastBits839x (hu : e.type = .unicast) :
    (bits (fillRow839x e).r2 24 6).setWidth 8 = e.port ∧ bits (fillRow839x e).r2 21 3 = e.age ∧
      (fillRow839x e).r2.getLsbD 18 = e.isStatic ∧ (fillRow839x e).r2.getLsbD 19 = e.blockDa ∧
      (fillRow839x e).r2.getLsbD 20 = e.blockSa ∧ (fillRow839x e).r2.getLsbD 17 = e.suspended ∧
      (fillRow839x e).r2.getLsbD 16 = e.nextHop := by
  obtain ⟨id, hr2⟩ := r2_839x h hu
  have hage := low_of_lt (h.age hu)
  rw [Family.ageBits] at hage
  rw [hr2]
  refine ⟨?_, ?_, ?_, ?_, ?_, ?_, ?_⟩
  · simp (disch := decide) only [bits, field_or, field_flag, field_self, field_low_of_disjoint,
      ushiftRight_low, low_low_of_le, BitVec.zero_and, BitVec.zero_or, BitVec.or_zero]
    exact setWidth_low_setWidth (h.port hu (not_onTrunk rfl)) (by decide)
  · simp (disch := decide) only [bits, field_or, field_flag, field_self, field_low_of_disjoint,
      ushiftRight_low, BitVec.zero_and, BitVec.zero_or, BitVec.or_zero, hage]
  all_goals
    simp

theorem unicastVid839x (hu : e.type = .unicast) (hn : e.nextHop = false) :
    (bits (fillRow839x e).r2 4 12).setWidth 16 = e.vid := by
  obtain ⟨hi4, hi6, hm⟩ := h.unicast hu
  have hvid := getLsbD_eq_false h.vid
  simp only [fillRow839x, h.valid, hi4, hi6, hm, hn, bits]
  apply BitVec.eq_of_getLsbD_eq
  intro i hi
  simp
  grind

theorem multicastBits839x (hm : e.type ≠ .unicast) :
    (bits (fillRow839x e).r2 6 12).setWidth 16 = e.mcPortmaskIndex := by
  have hmc := getLsbD_eq_false (h.mcPortmaskIndex hm)
  have hk := h.kind
  simp only [Family.mcBits] at hmc
  apply BitVec.eq_of_getLsbD_eq
  intro i hi
  simp only [fillRow839x, h.valid, bits]
  cases ht : e.type <;> simp only [L2Entry.OfKind, ht] at hk
  case unicast => exact absurd ht hm
  all_goals
    simp [hk]
    grind

/-- A unicast row that does not read as free has one of the bits that make it valid. -/
theorem valid839x (hu : e.type = .unicast) (hf : ¬ e.ReadsAsFree .rtl839x) :
    (!((fillRow839x e).r2 &&& 0xc0fd0000 == 0)) = true := by
  obtain ⟨-, hage, hst, hda, hsa, -, hnh⟩ := unicastBits839x h hu
  simp only [L2Entry.ReadsAsFree, hu, true_and, not_and] at hf
  rw [Bool.not_eq_true']
  cases hs : e.isStatic with
  | true => exact and_ne_zero 18 (hst.trans hs) (by decide)
  | false =>
  cases hd : e.blockDa with
  | true => exact and_ne_zero 19 (hda.trans hd) (by decide)
  | false =>
  cases ha : e.blockSa with
  | true => exact and_ne_zero 20 (hsa.trans ha) (by decide)
  | false =>
  cases hn : e.nextHop with
  | true => exact and_ne_zero 16 (hnh.trans hn) (by decide)
  | false =>
  obtain ⟨i, hi⟩ := exists_getLsbD (hf hs hd ha hn)
  have hlt : i < 3 := by
    by_contra hge
    rw [getLsbD_eq_false (h.age hu) i (by simpa [Family.ageBits] using hge)] at hi
    cases hi
  refine and_ne_zero (21 + i) ?_ ?_
  · rw [← hage, bits] at hi
    simp only [BitVec.getLsbD_and, BitVec.getLsbD_ushiftRight, Bool.and_eq_true] at hi
    exact hi.1
  · have hcases : i = 0 ∨ i = 1 ∨ i = 2 := by omega
    rcases hcases with rfl | rfl | rfl <;> decide

end Rtl839x

theorem reread839x_unicast (h : e.Fits .rtl839x) (hu : e.type = .unicast) (e₀ : L2Entry) :
    reread .rtl839x e e₀ = fillUnicast839x (fillRow839x e) (fillMac839x (fillRow839x e)
      { e₀ with isIpMc := false, isIpv6Mc := false, type := .invalid }) := by
  obtain ⟨hi4, hi6, hm⟩ := h.unicast hu
  simp only [reread, fillEntry, fillRow, fillEntry839x, isIpMc839x h, isIpv6Mc839x h, hi4, hi6]
  rw [if_pos (by decide), if_pos]
  rw [mac839x h (by simp [hi4, hi6]), hm]
  rfl

theorem unicast839x (h : e.Fits .rtl839x) (hu : e.type = .unicast)
    (hf : ¬ e.ReadsAsFree .rtl839x) (e₀ : L2Entry) :
    UnicastBack .rtl839x e (reread .rtl839x e e₀) := by
  obtain ⟨hi4, hi6, hm⟩ := h.unicast hu
  obtain ⟨hport, hage, hst, hda, hsa, hsu, hnh⟩ := unicastBits839x h hu
  have hip : (!e.isIpMc && !e.isIpv6Mc) = true := by simp [hi4, hi6]
  have hv := valid839x h hu hf
  rw [reread839x_unicast h hu]
  exact {
    valid := hv
    type := by simp only [fillUnicast839x, hv, if_true]
    isIpMc := rfl
    isIpv6Mc := rfl
    mac := mac839x h hip e₀
    rvid := rvid839x h hip
    onTrunk := by simp [L2Entry.OnTrunk, Family.is93xx]
    port := fun _ => hport
    age := hage
    isStatic := hst
    nextHop := hnh
    blockDa := hda
    blockSa := hsa
    suspended := hsu
    vid := fun hv => by
      have hn : e.nextHop = false := by simpa [L2Entry.HasVid, hu] using hv
      simp only [fillUnicast839x, hnh, hn]
      exact unicastVid839x h hu hn
    vidIsRvid := fun hv => by
      have hn : e.nextHop = true := by simpa [L2Entry.VidIsRvid, hu] using hv
      simp only [fillUnicast839x, hnh, hn, if_true]
      exact rvid839x h hip
    vidIsZero := fun _ hf => by simp at hf }

theorem multicast839x (h : e.Fits .rtl839x) (ht : e.type = .multicast) (e₀ : L2Entry) :
    ReadsBack .rtl839x e (reread .rtl839x e e₀) := by
  obtain ⟨hi4, hi6, hm, -⟩ := h.multicast ht
  have hip : (!e.isIpMc && !e.isIpv6Mc) = true := by simp [hi4, hi6]
  have hu : e.type ≠ .unicast := by simp [ht]
  have he : reread .rtl839x e e₀ = { fillMac839x (fillRow839x e)
      { e₀ with isIpMc := false, isIpv6Mc := false, type := .invalid } with
      valid := true, type := .multicast,
      mcPortmaskIndex := (bits (fillRow839x e).r2 6 12).setWidth 16,
      vid := (bits (fillRow839x e).r0 20 12).setWidth 16 } := by
    simp only [reread, fillEntry, fillRow, fillEntry839x, isIpMc839x h, isIpv6Mc839x h, hi4, hi6]
    rw [if_pos (by decide), if_neg]
    · rfl
    · rw [mac839x h hip, hm]
      decide
  rw [he]
  exact .of_group h hu rfl ht.symm hi4.symm hi6.symm (fun _ => mac839x h hip e₀)
    (fun hg => by simp [L2Entry.IsIp, ht] at hg) (rvid839x h hip) (multicastBits839x h hu)
    (fun hv => by simp [L2Entry.HasVid, ht] at hv) (fun _ => rvid839x h hip)

section Rtl930x

variable (h : e.Fits .rtl930x)

include h

theorem r0_930x : (fillRow930x e).r0 = e.mac.m0.setWidth 32 <<< 24 ||| e.mac.m1.setWidth 32 <<< 16 |||
    e.mac.m2.setWidth 32 <<< 8 ||| e.mac.m3.setWidth 32 := by
  by_cases hu : e.type = .unicast <;> simp [fillRow930x, h.valid, hu]

theorem r1_930x : ∃ x : BitVec 32, (fillRow930x e).r1 =
    e.mac.m4.setWidth 32 <<< 24 ||| e.mac.m5.setWidth 32 <<< 16 ||| (x &&& low 12) := by
  by_cases hu : e.type = .unicast
  · exact ⟨e.rvid.setWidth 32, by simp [fillRow930x, h.valid, hu]⟩
  · exact ⟨0, by simp [fillRow930x, h.valid, hu]⟩

/-- The word of the flags in a unicast row, with the port and the id or VID that it holds. -/
theorem r2_930x (hu : e.type = .unicast) : ∃ port id : BitVec 32,
    (fillRow930x e).r2 = flag 31 true ||| flag 12 e.nextHop ||| flag 14 e.isStatic |||
      flag 30 e.isTrunk ||| port <<< 20 ||| flag 15 e.blockDa ||| flag 16 e.blockSa |||
      flag 13 e.suspended ||| (e.age &&& low 3) <<< 17 ||| (id &&& low 12) ∧
    (e.isTrunk = false → ∃ sd : BitVec 32,
      port = (sd &&& low 4) <<< 6 ||| (e.port.setWidth 32 &&& low 6)) ∧
    (e.isTrunk = true → ∃ sd : BitVec 32, port = sd <<< 9 ||| (e.port.setWidth 32 &&& low 6)) ∧
    (e.nextHop = false → id = e.vid.setWidth 32) ∧
    (e.nextHop = true → id = e.nhRouteId.setWidth 32 &&& low 11) := by
  simp only [fillRow930x, h.valid, hu, Bool.not_true, Bool.false_eq_true, if_false, if_true]
  refine ⟨_, if e.nextHop then e.nhRouteId.setWidth 32 &&& low 11 else e.vid.setWidth 32,
    congrArg _ ?_, ?_, ?_, ?_, ?_⟩
  · cases e.nextHop <;> simp [low_low_of_le]
  · intro ht
    exact ⟨_, if_neg (by simp [ht])⟩
  · intro ht
    exact ⟨_, if_pos ht⟩
  · intro hn
    simp [hn]
  · intro hn
    simp [hn]

/-- The address that is read from a row of the RTL930x. -/
theorem mac930x :
    (⟨((fillRow930x e).r0 >>> 24).setWidth 8, ((fillRow930x e).r0 >>> 16).setWidth 8,
      ((fillRow930x e).r0 >>> 8).setWidth 8, (fillRow930x e).r0.setWidth 8,
      ((fillRow930x e).r1 >>> 24).setWidth 8, ((fillRow930x e).r1 >>> 16).setWidth 8⟩ : Mac)
      = e.mac := by
  obtain ⟨x, hr1⟩ := r1_930x h
  rw [r0_930x h, hr1]
  simp (disch := decide) [BitVec.ushiftRight_or_distrib, byte_self, byte_of_disjoint,
    ushiftRight_setWidth, ushiftRight_low]

theorem valid930x : (fillRow930x e).r2.getLsbD 31 = true := by
  by_cases hu : e.type = .unicast <;> simp [fillRow930x, h.valid, hu]

/-- The bits of the unicast row of the RTL930x, but for the port. -/
theorem unicastBits930x (hu : e.type = .unicast) :
    ((fillRow930x e).r1 &&& low 12).setWidth 16 = e.rvid ∧
      bits (fillRow930x e).r2 17 3 = e.age ∧
      (fillRow930x e).r2.getLsbD 14 = e.isStatic ∧ (fillRow930x e).r2.getLsbD 15 = e.blockDa ∧
      (fillRow930x e).r2.getLsbD 16 = e.blockSa ∧ (fillRow930x e).r2.getLsbD 13 = e.suspended ∧
      (fillRow930x e).r2.getLsbD 12 = e.nextHop ∧ (fillRow930x e).r2.getLsbD 30 = e.isTrunk := by
  obtain ⟨port, id, hr2, hport, -⟩ := r2_930x h hu
  have hrvid := setWidth_low_setWidth (n := 32) h.rvid (by decide)
  have hage := low_of_lt (h.age hu)
  rw [Family.ageBits] at hage
  rw [hr2]
  refine ⟨?_, ?_, ?_, ?_, ?_, ?_, ?_, ?_⟩
  · have hr1 : (fillRow930x e).r1 = e.mac.m4.setWidth 32 <<< 24 ||| e.mac.m5.setWidth 32 <<< 16 |||
        (e.rvid.setWidth 32 &&& low 12) := by simp [fillRow930x, h.valid, hu]
    simp (disch := decide) [hr1, low_or, low_shiftLeft, low_low_of_le, hrvid]
  · simp (disch := decide) only [bits, field_or, field_flag, field_self, field_shiftLeft,
      ushiftRight_low, BitVec.zero_and, BitVec.zero_or, BitVec.or_zero, hage]
  · simp
  · simp
  · simp
  · simp
  · simp
  · cases ht : e.isTrunk with
    | true => simp
    | false =>
      obtain ⟨sd, rfl⟩ := hport ht
      simp

theorem port930x (hu : e.type = .unicast) (ht : e.isTrunk = false) :
    (bits (fillRow930x e).r2 20 10).setWidth 8 &&& 0x3f = e.port := by
  obtain ⟨port, id, hr2, hport, -⟩ := r2_930x h hu
  obtain ⟨sd, rfl⟩ := hport ht
  have hlt := h.port hu fun ht' => by simp [L2Entry.OnTrunk, ht] at ht'
  rw [hr2, show (0x3f : BitVec 8) = low 6 from rfl]
  simp (disch := decide) only [bits, field_or, field_flag, field_self, field_low_of_disjoint,
    ushiftRight_low, BitVec.zero_and, BitVec.zero_or, BitVec.or_zero, setWidth_and_low, low_or,
    low_low_of_le, low_low_of_ge, low_shiftLeft]
  exact setWidth_low_setWidth hlt (by decide)

theorem vid930x (hu : e.type = .unicast) (hn : e.nextHop = false) :
    ((fillRow930x e).r2 &&& low 12).setWidth 16 = e.vid := by
  obtain ⟨port, id, hr2, -, -, hid, -⟩ := r2_930x h hu
  rw [hr2, hid hn]
  simp (disch := decide) only [low_or, low_flag, low_shiftLeft, low_low_of_le, BitVec.zero_or]
  exact setWidth_low_setWidth h.vid (by decide)

end Rtl930x

theorem unicast930x (h : e.Fits .rtl930x) (hu : e.type = .unicast) (e₀ : L2Entry) :
    UnicastBack .rtl930x e (reread .rtl930x e e₀) := by
  obtain ⟨hi4, hi6, hm⟩ := h.unicast hu
  obtain ⟨hrvid, hage, hst, hda, hsa, hsu, hnh, htr⟩ := unicastBits930x h hu
  simp only [reread, fillEntry, fillRow, fillEntry930x, fillMac930x, fillUnicast930x, valid930x h, mac930x h, hm, hnh, htr,
    Bool.not_true, Bool.not_false, Bool.false_eq_true, if_false, if_true]
  exact {
    valid := rfl
    type := rfl
    isIpMc := rfl
    isIpv6Mc := rfl
    mac := rfl
    rvid := hrvid
    onTrunk := Iff.rfl
    port := fun hnt => by
      have ht : e.isTrunk = false := by simpa [L2Entry.OnTrunk, Family.is93xx] using hnt
      simp only [ht]
      exact port930x h hu ht
    age := hage
    isStatic := hst
    nextHop := rfl
    blockDa := hda
    blockSa := hsa
    suspended := hsu
    vid := fun hv => by
      have hn : e.nextHop = false := by simpa [L2Entry.HasVid, hu] using hv
      simp only [hn]
      exact vid930x h hu hn
    vidIsRvid := fun hv => by simp [L2Entry.VidIsRvid, hu] at hv
    vidIsZero := fun hn _ => by simp only [hn, if_true] }

section Rtl931x

variable (h : e.Fits .rtl931x)

include h

theorem r0_931x : (fillRow931x e).r0 = flag 31 true ||| e.mac.m0.setWidth 32 <<< 8 |||
    e.mac.m1.setWidth 32 ||| flag 30 e.isOpenFlow ||| flag 29 e.isPeForward ||| flag 28 e.hashMsb |||
    (e.rvid.setWidth 32 &&& low 12) <<< 16 := by
  by_cases hu : e.type = .unicast <;> simp [fillRow931x, h.valid, hu]

theorem r1_931x : (fillRow931x e).r1 = e.mac.m2.setWidth 32 <<< 24 ||| e.mac.m3.setWidth 32 <<< 16 |||
    e.mac.m4.setWidth 32 <<< 8 ||| e.mac.m5.setWidth 32 := by
  by_cases hu : e.type = .unicast <;> simp [fillRow931x, h.valid, hu]

/-- The word of the flags in a unicast row, with the port or trunk and the tunnel that it holds. -/
theorem r2_931x (hu : e.type = .unicast) : ∃ port tunnel : BitVec 32,
    (fillRow931x e).r2 = flag 30 e.nextHop ||| flag 31 e.isL2Tunnel ||| flag 13 e.isStatic |||
      flag 29 e.isTrunk ||| (port &&& low 10) <<< 19 ||| flag 14 e.blockDa ||| flag 15 e.blockSa |||
      flag 12 e.suspended ||| (e.age &&& low 3) <<< 16 ||| (tunnel &&& low 8) ∧
    (e.isTrunk = true → port = e.trunk.setWidth 32 &&& low 8) ∧
    (e.isTrunk = false → ∃ sd : BitVec 32,
      port = (e.port.setWidth 32 &&& low 6) ||| (sd &&& low 4) <<< 6) := by
  simp only [fillRow931x, h.valid, hu, Bool.not_true, Bool.false_eq_true, if_false, if_true]
  refine ⟨_, if e.isL2Tunnel then e.l2TunnelId >>> 4 else 0, congrArg _ ?_, ?_, ?_⟩
  · cases e.isL2Tunnel <;> simp
  · intro ht
    exact if_pos ht
  · intro ht
    exact ⟨_, if_neg (by simp [ht])⟩

/-- The address that is read from a row of the RTL931x. -/
theorem mac931x :
    (⟨((fillRow931x e).r0 >>> 8).setWidth 8, (fillRow931x e).r0.setWidth 8,
      ((fillRow931x e).r1 >>> 24).setWidth 8, ((fillRow931x e).r1 >>> 16).setWidth 8,
      ((fillRow931x e).r1 >>> 8).setWidth 8, (fillRow931x e).r1.setWidth 8⟩ : Mac) = e.mac := by
  rw [r0_931x h, r1_931x h]
  simp (disch := decide) [BitVec.ushiftRight_or_distrib, byte_self, byte_of_disjoint, byte_flag,
    byte_zero_flag, byte_zero_of_low, ushiftRight_setWidth]

theorem valid931x : (fillRow931x e).r0.getLsbD 31 = true := by
  simp [r0_931x h]

theorem rvid931x : (bits (fillRow931x e).r0 16 12).setWidth 16 = e.rvid := by
  rw [r0_931x h]
  simp (disch := decide) only [bits, field_or, field_flag, field_self,
    ushiftRight_setWidth, field_setWidth_of_disjoint, low_low_of_le, BitVec.zero_and,
    BitVec.zero_or]
  exact setWidth_low_setWidth h.rvid (by decide)

/-- The bits of the unicast row of the RTL931x, but for the port. -/
theorem unicastBits931x (hu : e.type = .unicast) :
    bits (fillRow931x e).r2 16 3 = e.age ∧
      (fillRow931x e).r2.getLsbD 13 = e.isStatic ∧ (fillRow931x e).r2.getLsbD 14 = e.blockDa ∧
      (fillRow931x e).r2.getLsbD 15 = e.blockSa ∧ (fillRow931x e).r2.getLsbD 12 = e.suspended ∧
      (fillRow931x e).r2.getLsbD 30 = e.nextHop ∧ (fillRow931x e).r2.getLsbD 29 = e.isTrunk := by
  obtain ⟨port, tunnel, hr2, -⟩ := r2_931x h hu
  have hage := low_of_lt (h.age hu)
  rw [Family.ageBits] at hage
  rw [hr2]
  refine ⟨?_, ?_, ?_, ?_, ?_, ?_, ?_⟩
  · simp (disch := decide) only [bits, field_or, field_flag, field_self, field_low_of_disjoint,
      ushiftRight_low, BitVec.zero_and, BitVec.zero_or, BitVec.or_zero, hage]
  all_goals
    simp

theorem port931x (hu : e.type = .unicast) (ht : e.isTrunk = false) :
    (bits (fillRow931x e).r2 19 10).setWidth 8 &&& 0x3f = e.port := by
  obtain ⟨port, tunnel, hr2, -, hport⟩ := r2_931x h hu
  obtain ⟨sd, rfl⟩ := hport ht
  have hlt := h.port hu fun ht' => by simp [L2Entry.OnTrunk, ht] at ht'
  rw [hr2, show (0x3f : BitVec 8) = low 6 from rfl]
  simp (disch := decide) only [bits, field_or, field_flag, field_self, field_low_of_disjoint,
    ushiftRight_low, BitVec.zero_and, BitVec.zero_or, BitVec.or_zero, setWidth_and_low, low_or,
    low_low_of_le, low_low_of_ge, low_shiftLeft]
  exact setWidth_low_setWidth hlt (by decide)

end Rtl931x

theorem unicast931x (h : e.Fits .rtl931x) (hu : e.type = .unicast) (e₀ : L2Entry) :
    UnicastBack .rtl931x e (reread .rtl931x e e₀) := by
  obtain ⟨hi4, hi6, hm⟩ := h.unicast hu
  obtain ⟨hage, hst, hda, hsa, hsu, hnh, htr⟩ := unicastBits931x h hu
  simp only [reread, fillEntry, fillRow, fillEntry931x, fillMac931x, fillUnicast931x, valid931x h, mac931x h, hm, hnh, htr,
    Bool.not_true, Bool.not_false, Bool.false_eq_true, if_false, if_true]
  exact {
    valid := rfl
    type := rfl
    isIpMc := rfl
    isIpv6Mc := rfl
    mac := rfl
    rvid := rvid931x h
    onTrunk := Iff.rfl
    port := fun hnt => by
      have ht : e.isTrunk = false := by simpa [L2Entry.OnTrunk, Family.is93xx] using hnt
      simp only [ht]
      exact port931x h hu ht
    age := hage
    isStatic := hst
    nextHop := rfl
    blockDa := hda
    blockSa := hsa
    suspended := hsu
    vid := fun hv => by simp [L2Entry.HasVid, hu] at hv
    vidIsRvid := fun _ => rvid931x h
    vidIsZero := fun _ hf => by simp at hf }

theorem L2Entry.Fits.kinds {f : Family} (h : e.Fits f) :
    e.type = .unicast ∨ e.type = .multicast ∨ e.IsIp := by
  have hk := h.kind
  unfold L2Entry.OfKind at hk
  cases ht : e.type <;> simp [L2Entry.IsIp, ht] at hk ⊢

/-- A unicast entry that does not read as free comes back from its row. -/
theorem L2Entry.Fits.unicastBack {f : Family} (h : e.Fits f) (hu : e.type = .unicast)
    (hf : ¬ e.ReadsAsFree f) (e₀ : L2Entry) : UnicastBack f e (reread f e e₀) := by
  cases f with
  | rtl838x => exact unicast838x h hu hf e₀
  | rtl839x => exact unicast839x h hu hf e₀
  | rtl930x => exact unicast930x h hu e₀
  | rtl931x => exact unicast931x h hu e₀

/-- The row of an entry that is not valid reads as a free one. -/
theorem reread_invalid {f : Family} (h : e.valid = false) (e₀ : L2Entry) :
    (reread f e e₀).valid = false := by
  cases f <;>
    simp [reread, fillEntry, fillRow, fillRow838x, fillRow839x, fillRow930x, fillRow931x, h,
      L2Row.zero, fillEntry838x, fillEntry839x, fillEntry930x, fillEntry931x, fillMac838x,
      fillMac839x, fillUnicast838x, fillUnicast839x, Mac.isMulticast]

theorem L2Entry.Agrees.trans {f : Family} {a b c : L2Entry} (hab : a.Agrees f b)
    (hbc : b.Agrees f c) : a.Agrees f c := by
  have ht := hab.type
  have hip : b.IsIp ↔ a.IsIp := by simp [L2Entry.IsIp, ht]
  exact {
    valid := hbc.valid.trans hab.valid
    type := hbc.type.trans ht
    isIpMc := hbc.isIpMc.trans hab.isIpMc
    isIpv6Mc := hbc.isIpv6Mc.trans hab.isIpv6Mc
    mac := fun h => (hbc.mac (mt hip.mp h)).trans (hab.mac h)
    mcGip := fun h => (hbc.mcGip (hip.mpr h)).trans (hab.mcGip h)
    rvid := hbc.rvid.trans hab.rvid
    onTrunk := fun h => (hbc.onTrunk (ht.trans h)).trans (hab.onTrunk h)
    port := fun h hn => (hbc.port (ht.trans h) (mt (hab.onTrunk h).mp hn)).trans (hab.port h hn)
    trunk := fun h ho => (hbc.trunk (ht.trans h) ((hab.onTrunk h).mpr ho)).trans (hab.trunk h ho)
    age := fun h => (hbc.age (ht.trans h)).trans (hab.age h)
    isStatic := fun h => (hbc.isStatic (ht.trans h)).trans (hab.isStatic h)
    nextHop := fun h => (hbc.nextHop (ht.trans h)).trans (hab.nextHop h)
    blockDa := fun h => (hbc.blockDa (ht.trans h)).trans (hab.blockDa h)
    blockSa := fun h => (hbc.blockSa (ht.trans h)).trans (hab.blockSa h)
    suspended := fun h => (hbc.suspended (ht.trans h)).trans (hab.suspended h)
    nhRouteId := fun h hn =>
      (hbc.nhRouteId (ht.trans h) ((hab.nextHop h).trans hn)).trans (hab.nhRouteId h hn)
    mcPortmaskIndex := fun h => (hbc.mcPortmaskIndex (ht.trans_ne h)).trans (hab.mcPortmaskIndex h) }


/-! ## Callers that read a row and write it again -/

/-- The changes that the callers make to the entry that they read. -/
inductive RowEdit where
  | nexthop (dmacId : BitVec 16)
  | release (fdbRef : Bool)
  | del (referred : Bool)

def RowEdit.apply (f : Family) : RowEdit → L2Entry → L2Entry
  | .nexthop dmacId => addNexthop dmacId
  | .release fdbRef => releaseRow fdbRef
  | .del referred => delFdb f referred

theorem addNexthop_eq (dmacId : BitVec 16) (e : L2Entry) :
    addNexthop dmacId e =
      { e with nextHop := true, nhRouteId := dmacId,
               nhVlanTarget := e.nextHop && e.nhVlanTarget } := by
  unfold addNexthop
  split_ifs with h <;> simp [h]

@[simp] theorem RowEdit.apply_type (f : Family) (g : RowEdit) (e : L2Entry) :
    (g.apply f e).type = e.type := by
  cases g with
  | nexthop id => simp [RowEdit.apply, addNexthop_eq]
  | release b => rfl
  | del b =>
    simp only [RowEdit.apply, delFdb]
    split_ifs <;> rfl

end Lede.Otto
