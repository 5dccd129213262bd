/-
Lede.Otto.FlowerTheorems — when an offloaded flower rule matches no frame that the rule does not.

A rule that only names an EtherType always gets a template with that field
(`ethertype_mem_of_findTemplate`), so no criterion is lost to the templates. What is lost is lost
to the fixed fields: they tell neither whether the tag that is compared is the outermost one, nor
which of the two ICMP protocols a frame carries, and an address that a frame does not have reads
as 0. `flower_narrow_iff` is the condition under which an entry matches no frame beyond those of
its rule.
-/
import Lede.Otto.PieTheorems

namespace Lede.Otto

open Lede.Lib.BitField Lede.Lib.Ternary

/-! ## Kinds of frames -/

/-- The kinds of frames that `frame_type` tells apart. -/
inductive EtherKind where
  | arp
  | other
  | ipv4
  | ipv6
deriving DecidableEq, Repr

/-- The kind of frame that has a protocol. -/
def EtherKind.ofProto (e : BitVec 16) : EtherKind :=
  if e = ETH_P_ARP then .arp else if e = ETH_P_IP then .ipv4
  else if e = ETH_P_IPV6 then .ipv6 else .other

/-- Its number in `frame_type`. -/
def EtherKind.frameType : EtherKind → BitVec 8
  | .arp => 0
  | .other => 1
  | .ipv4 => 2
  | .ipv6 => 3

/-- The kind of a payload. -/
def Payload.kind : Payload → EtherKind
  | .arp _ => .arp
  | .ipv4 _ _ _ _ _ => .ipv4
  | .ipv6 _ _ _ _ _ => .ipv6
  | .other _ _ => .other

@[simp] theorem Payload.ofProto_ethertype (p : Payload) :
    EtherKind.ofProto p.ethertype = p.kind := by
  cases p with
  | arp spa => rfl
  | ipv4 src dst tos proto ports => rfl
  | ipv6 src dst tc nexthdr ports => rfl
  | other e h => simp [EtherKind.ofProto, Payload.ethertype, Payload.kind, h.1, h.2.1, h.2.2]

theorem Payload.frameType_eq (p : Payload) : p.frameType = p.kind.frameType := by
  cases p <;> rfl

theorem frameType_agrees_iff (k : EtherKind) (p : Payload) :
    ({ data := k.frameType, mask := 3 } : Lib.Ternary.Field 8).Agrees p.frameType ↔ p.kind = k := by
  rw [p.frameType_eq]
  generalize p.kind = k'
  cases k <;> cases k' <;> decide

/-! ## The rule of a flower rule -/

/-- `frame_type_l4` of a protocol. -/
def l4Type (proto : BitVec 8) : Option (BitVec 8) :=
  if proto = IPPROTO_UDP then some 0
  else if proto = IPPROTO_TCP then some 1
  else if proto = IPPROTO_ICMP ∨ proto = IPPROTO_ICMPV6 then some 2
  else if proto = IPPROTO_IGMP then some 3
  else none

/-- The rule with the frame types and the EtherType given. -/
def FlowRule.pieRule (rule : FlowRule) (frameType frameTypeL4 : Lib.Ternary.Field 8)
    (ethertype : Lib.Ternary.Field 16) : PieRule :=
  let v4 := rule.addrType = .ipv4 ∧ rule.uses .ipv4Addrs = true
  let v6 := rule.addrType = .ipv6 ∧ rule.uses .ipv6Addrs = true
  { frameType := frameType
    frameTypeL4 := frameTypeL4
    ethertype := ethertype
    dmac := if rule.uses .ethAddrs then rule.ethDst else {}
    smac := if rule.uses .ethAddrs then rule.ethSrc else {}
    itag := if rule.uses .vlan then
        ⟨rule.vlan.vlanId.data.setWidth 16, rule.vlan.vlanId.mask.setWidth 16⟩
      else {}
    isIpv6 := decide v6
    dip := if v4 then rule.ipv4Dst else {}
    sip := if v4 then rule.ipv4Src else {}
    dip6 := if v6 then rule.ipv6Dst else {}
    sip6 := if v6 then rule.ipv6Src else {}
    dport := if rule.uses .ports then rule.portDst else {}
    sport := if rule.uses .ports then rule.portSrc else {} }

/-- What the rule has to be for `otto_tc_parse_flow_rule` to accept it. -/
structure FlowRule.Accepted (rule : FlowRule) (frameType frameTypeL4 : Lib.Ternary.Field 8)
    (ethertype : Lib.Ternary.Field 16) : Prop where
  nProto : (rule.nProto.mask = 0 ∧ frameType = {} ∧ ethertype = {}) ∨
    (rule.nProto.mask = 0xffff ∧
      frameType = ⟨(EtherKind.ofProto rule.nProto.data).frameType, 3⟩ ∧
      ethertype = if EtherKind.ofProto rule.nProto.data = .other then rule.nProto else {})
  ipProto : (rule.ipProto.mask = 0 ∧ frameTypeL4 = {}) ∨
    (rule.ipProto.mask = 0xff ∧ 2 ≤ frameType.data ∧
      ∃ l4, l4Type rule.ipProto.data = some l4 ∧ frameTypeL4 = ⟨l4, 7⟩)
  vlan : rule.uses .vlan = true → rule.vlan.vlanPriority.mask = 0 ∧ rule.vlan.vlanDei.mask = 0 ∧
    rule.vlan.vlanEthType.mask = 0 ∧
    (rule.vlan.vlanTpid.mask ≠ 0 → rule.vlan.vlanTpid.data = ETH_P_8021Q)

theorem parseNProto_ok {rule : FlowRule} {pr : PieRule} (h : parseNProto rule {} = .ok pr) :
    ∃ ft et, pr = { frameType := ft, ethertype := et } ∧
      ((rule.nProto.mask = 0 ∧ ft = {} ∧ et = {}) ∨
        (rule.nProto.mask = 0xffff ∧
          ft = ⟨(EtherKind.ofProto rule.nProto.data).frameType, 3⟩ ∧
          et = if EtherKind.ofProto rule.nProto.data = .other then rule.nProto else {})) := by
  unfold parseNProto at h
  split_ifs at h with hm hfull harp hip hip6
  · cases h
    exact ⟨_, _, rfl, .inl ⟨hm, rfl, rfl⟩⟩
  · cases h
    have hk : EtherKind.ofProto rule.nProto.data = .arp := by rw [harp]; rfl
    exact ⟨_, _, rfl, .inr ⟨by simpa using hfull, by rw [hk]; rfl, by simp [hk]⟩⟩
  · cases h
    have hk : EtherKind.ofProto rule.nProto.data = .ipv4 := by rw [hip]; rfl
    exact ⟨_, _, rfl, .inr ⟨by simpa using hfull, by rw [hk]; rfl, by simp [hk]⟩⟩
  · cases h
    have hk : EtherKind.ofProto rule.nProto.data = .ipv6 := by rw [hip6]; rfl
    exact ⟨_, _, rfl, .inr ⟨by simpa using hfull, by rw [hk]; rfl, by simp [hk]⟩⟩
  · cases h
    have hk : EtherKind.ofProto rule.nProto.data = .other := by
      simp [EtherKind.ofProto, harp, hip, hip6]
    exact ⟨_, _, rfl, .inr ⟨by simpa using hfull, by rw [hk]; rfl, by simp [hk]⟩⟩

theorem parseIpProto_ok {rule : FlowRule} {pr pr' : PieRule} (h : parseIpProto rule pr = .ok pr')
    (hl4 : pr.frameTypeL4 = {}) :
    ∃ l4, pr' = { pr with frameTypeL4 := l4 } ∧
      ((rule.ipProto.mask = 0 ∧ l4 = {}) ∨
        (rule.ipProto.mask = 0xff ∧ 2 ≤ pr.frameType.data ∧
          ∃ code, l4Type rule.ipProto.data = some code ∧ l4 = ⟨code, 7⟩)) := by
  unfold parseIpProto at h
  split_ifs at h with hm hfull hudp htcp hicmp higmp
  · cases h
    exact ⟨{}, by rw [← hl4], .inl ⟨hm, rfl⟩⟩
  all_goals
    cases h
    obtain ⟨hft, hmask⟩ := not_or.1 hfull
    have hmask : rule.ipProto.mask = 0xff := by simpa using hmask
    have hft : 2 ≤ pr.frameType.data := by simpa using hft
    refine ⟨_, rfl, .inr ⟨hmask, hft, _, ?_, rfl⟩⟩
    simp only [l4Type, *, if_true, if_false]
    try decide

theorem parseVlan_ok {rule : FlowRule} {pr pr' : PieRule} (h : parseVlan rule pr = .ok pr')
    (hitag : pr.itag = {}) :
    pr' = { pr with
        itag := if rule.uses .vlan then
            ⟨rule.vlan.vlanId.data.setWidth 16, rule.vlan.vlanId.mask.setWidth 16⟩
          else {} } ∧
      (rule.uses .vlan = true → rule.vlan.vlanPriority.mask = 0 ∧ rule.vlan.vlanDei.mask = 0 ∧
        rule.vlan.vlanEthType.mask = 0 ∧
        (rule.vlan.vlanTpid.mask ≠ 0 → rule.vlan.vlanTpid.data = ETH_P_8021Q)) := by
  unfold parseVlan at h
  split_ifs at h with huses hmasks htpid
  · cases h
    have huses : rule.uses .vlan = false := by simpa using huses
    refine ⟨?_, fun h => by simp [huses] at h⟩
    rw [huses, if_neg (by simp), ← hitag]
  · cases h
    have huses : rule.uses .vlan = true := by simpa using huses
    refine ⟨by simp [huses], fun _ => ?_⟩
    push Not at hmasks htpid
    exact ⟨hmasks.1, hmasks.2.1, hmasks.2.2, htpid⟩

/-- The parts of the rule, one after the other. -/
theorem parseFlowRule_eq (rule : FlowRule) :
    parseFlowRule rule =
      if (!rule.uses .control || !rule.uses .basic) = true then .error (-EOPNOTSUPP)
      else if rule.uses .other = true then .error (-EOPNOTSUPP)
      else (parseNProto rule {}).bind fun pr => (parseIpProto rule pr).bind fun pr =>
        (parseVlan rule (if rule.uses .ethAddrs then
          { pr with dmac := rule.ethDst, smac := rule.ethSrc } else pr)).bind fun pr =>
        .ok (if rule.uses .ports then
          { parseAddrs rule pr with dport := rule.portDst, sport := rule.portSrc }
          else parseAddrs rule pr) := by
  unfold parseFlowRule
  split_ifs <;> rfl

theorem bind_ok {ε α β : Type} {x : Except ε α} {g : α → Except ε β} {b : β}
    (h : x.bind g = .ok b) : ∃ a, x = .ok a ∧ g a = .ok b := by
  cases x with
  | error e => simp [Except.bind] at h
  | ok a => exact ⟨a, rfl, h⟩

theorem parseFlowRule_ok {rule : FlowRule} {pr : PieRule} (h : parseFlowRule rule = .ok pr) :
    ∃ ft l4 et, pr = rule.pieRule ft l4 et ∧ rule.Accepted ft l4 et := by
  rw [parseFlowRule_eq] at h
  split at h
  · cases h
  split at h
  · cases h
  obtain ⟨pr1, hn, h⟩ := bind_ok h
  obtain ⟨pr2, hp, h⟩ := bind_ok h
  obtain ⟨pr3, hv, h⟩ := bind_ok h
  obtain ⟨ft, et, rfl, hnProto⟩ := parseNProto_ok hn
  obtain ⟨l4, rfl, hipProto⟩ := parseIpProto_ok hp rfl
  obtain ⟨rfl, hvlan⟩ := parseVlan_ok hv (by split_ifs <;> rfl)
  refine ⟨ft, l4, et, ?_, hnProto, hipProto, hvlan⟩
  rw [← Except.ok.inj h]
  unfold parseAddrs FlowRule.pieRule
  by_cases h4 : rule.addrType = .ipv4 ∧ rule.uses .ipv4Addrs = true
  · have h6 : ¬ (rule.addrType = .ipv6 ∧ rule.uses .ipv6Addrs = true) := by simp [h4.1]
    rw [if_pos h4]
    simp only [if_pos h4, if_neg h6, decide_eq_false h6]
    split_ifs <;> rfl
  · rw [if_neg h4]
    simp only [if_neg h4]
    by_cases h6 : rule.addrType = .ipv6 ∧ rule.uses .ipv6Addrs = true
    · simp only [if_pos h6, decide_eq_true h6]
      split_ifs <;> rfl
    · simp only [if_neg h6, decide_eq_false h6]
      split_ifs <;> rfl

/-! ## The condition -/

/-- What cls_flower makes sure of: a VLAN key comes with the TPID, which is the protocol of the
rule, so that `n_proto` is that of the frame inside and only given with it; the key of an address
is in use if the address has a mask; and ports are read under the protocol of the IP header. -/
structure FlowRule.OfClsFlower (rule : FlowRule) : Prop where
  vlan : rule.uses .vlan = true → rule.vlan.vlanTpid.mask = 0xffff ∧
    (rule.vlan.vlanEthType.mask = 0 → rule.nProto.mask = 0)
  ipv4 : rule.addrType = .ipv4 → rule.uses .ipv4Addrs = false →
    rule.ipv4Src.mask = 0 ∧ rule.ipv4Dst.mask = 0
  ipv6 : rule.addrType = .ipv6 → rule.uses .ipv6Addrs = false →
    rule.ipv6Src.mask = 0 ∧ rule.ipv6Dst.mask = 0
  ports : rule.uses .ports = true → rule.ipProto.mask ≠ 0

/-- The rule's protocol leaves frames of the kind. -/
def FlowRule.Allows (rule : FlowRule) (k : EtherKind) : Prop :=
  rule.nProto.mask ≠ 0 → EtherKind.ofProto rule.nProto.data = k

/-- An address of a rule as one of 128 bits. -/
def AddrType.address (a : AddrType) (v4 : Lib.Ternary.Field 32) (v6 : Lib.Ternary.Field 128) :
    Lib.Ternary.Field 128 :=
  match a with
  | .none => {}
  | .ipv4 => { data := v4.data.setWidth 128, mask := v4.mask.setWidth 128 }
  | .ipv6 => v6

/-- The source address of the rule. -/
def FlowRule.source (rule : FlowRule) : Lib.Ternary.Field 128 :=
  rule.addrType.address rule.ipv4Src rule.ipv6Src

/-- The destination address of the rule. -/
def FlowRule.dest (rule : FlowRule) : Lib.Ternary.Field 128 :=
  rule.addrType.address rule.ipv4Dst rule.ipv6Dst

/-- The address fields of a frame of the kind can read as the two addresses. -/
def EtherKind.Reads (k : EtherKind) (src dst : BitVec 128) : Prop :=
  match k with
  | .ipv6 => True
  | .ipv4 => src >>> 32 = 0 ∧ dst >>> 32 = 0
  | .arp => src >>> 32 = 0 ∧ dst = 0
  | .other => src = 0 ∧ dst = 0

/-- The addresses are those of the kind, if there are any. -/
def AddrType.Of (a : AddrType) (k : EtherKind) : Prop :=
  match a with
  | .none => True
  | .ipv4 => k = .ipv4
  | .ipv6 => k = .ipv6

/-- The ICMP protocol is the one of the kind. -/
def IcmpOf (proto : BitVec 8) (k : EtherKind) : Prop :=
  (proto = IPPROTO_ICMP → k = .ipv4) ∧ (proto = IPPROTO_ICMPV6 → k = .ipv6)

/-- The condition: the rule has no VLAN key, and the kinds of frames that its protocol leaves and
that can read as its addresses have its version of IP, also as far as ICMP goes. -/
structure FlowRule.Narrow (rule : FlowRule) : Prop where
  vlan : rule.uses .vlan = false
  kinds : ∀ k, rule.Allows k → k.Reads rule.source.value rule.dest.value →
    rule.addrType.Of k ∧ (rule.ipProto.mask ≠ 0 → IcmpOf rule.ipProto.data k)

/-! ## Addresses -/

/-- The address that the entry compares is that of the rule. -/
theorem addressAgrees_iff {a : AddrType} {u4 u6 : Bool} {v4 : Lib.Ternary.Field 32}
    {v6 : Lib.Ternary.Field 128} (h4 : a = .ipv4 → u4 = false → v4.mask = 0)
    (h6 : a = .ipv6 → u6 = false → v6.mask = 0) (v : BitVec 128) :
    addressAgrees (decide (a = .ipv6 ∧ u6 = true)) (if a = .ipv4 ∧ u4 = true then v4 else {})
      (if a = .ipv6 ∧ u6 = true then v6 else {}) v ↔ (a.address v4 v6).Agrees v := by
  cases a with
  | none => simp [addressAgrees, AddrType.address, Field.Agrees]
  | ipv4 =>
    cases u4 with
    | true => simp [addressAgrees, AddrType.address, agrees_setWidth_iff (show 32 ≤ 128 by omega)]
    | false => simp [addressAgrees, AddrType.address, Field.Agrees, h4 rfl rfl]
  | ipv6 =>
    cases u6 with
    | true => simp [addressAgrees, AddrType.address]
    | false => simp [addressAgrees, AddrType.address, Field.Agrees, h6 rfl rfl]

/-- A frame whose address fields agree is of a kind that can read so. -/
theorem reads_of_agrees {rule : FlowRule} {p : Payload} (hs : rule.source.Agrees p.sip)
    (hd : rule.dest.Agrees p.dip) : p.kind.Reads rule.source.value rule.dest.value := by
  have h32 : ∀ x : BitVec 32, x.setWidth 128 >>> 32 = 0 := by
    intro x
    apply BitVec.eq_of_getLsbD_eq
    intro i hi
    simp
  cases p with
  | arp spa => exact ⟨value_shiftRight hs (h32 spa), value_shiftRight (n := 0) hd rfl⟩
  | ipv4 src dst tos proto ports =>
    exact ⟨value_shiftRight hs (h32 src), value_shiftRight hd (h32 dst)⟩
  | ipv6 src dst tc nexthdr ports => trivial
  | other e h => exact ⟨value_shiftRight (n := 0) hs rfl, value_shiftRight (n := 0) hd rfl⟩

/-! ## The entry of a rule -/

theorem agrees_ite {w : Nat} {c : Bool} {t : Lib.Ternary.Field w} {v : BitVec w} :
    Field.Agrees (if c then t else {}) v ↔ (c = true → t.Agrees v) := by
  cases c <;> simp [Field.Agrees]

theorem FlowRule.Accepted.frameType_mask {rule : FlowRule} {ft l4 : Lib.Ternary.Field 8}
    {et : Lib.Ternary.Field 16} (h : rule.Accepted ft l4 et) (i : Nat) (hi : 2 ≤ i) :
    ft.mask.getLsbD i = false := by
  obtain ⟨-, rfl, -⟩ | ⟨-, rfl, -⟩ := h.nProto
  · simp
  · exact getLsbD_eq_false (w := 2) (x := 3) (by decide) i hi

theorem FlowRule.Accepted.frameTypeL4_mask {rule : FlowRule} {ft l4 : Lib.Ternary.Field 8}
    {et : Lib.Ternary.Field 16} (h : rule.Accepted ft l4 et) (i : Nat) (hi : 3 ≤ i) :
    l4.mask.getLsbD i = false := by
  obtain ⟨-, rfl⟩ | ⟨-, -, code, -, rfl⟩ := h.ipProto
  · simp
  · exact getLsbD_eq_false (w := 3) (x := 7) (by decide) i hi

/-- What the entry of a rule compares. -/
theorem configureFlower_ok {f : PieFamily} {used : Nat → Bool} {rule : FlowRule}
    {port : BitVec 6} {entry : PieEntry} (hcls : rule.OfClsFlower)
    (h : configureFlower f used rule port = .ok entry) :
    ∃ ft l4 et block j idx, rule.Accepted ft l4 et ∧
      findTemplate f used { rule.pieRule ft l4 et with spn := ⟨port.setWidth 8, 0x7f⟩ } =
        some (block, j, idx) ∧
      ∀ fr : Frame, entryMatches f entry fr ↔
        (fr.port = port ∧ ft.Agrees fr.payload.frameType ∧
          l4.Agrees fr.payload.frameTypeL4) ∧
        (rule.uses .ethAddrs = true → rule.ethSrc.Agrees fr.smac ∧ rule.ethDst.Agrees fr.dmac) ∧
        (rule.uses .vlan = true → rule.vlan.vlanId.Agrees ((fr.itag.getD 0).setWidth 12)) ∧
        (rule.uses .ports = true → rule.portSrc.Agrees fr.payload.ports.1 ∧
          rule.portDst.Agrees fr.payload.ports.2) ∧
        (rule.source.Agrees fr.payload.sip ∧ rule.dest.Agrees fr.payload.dip) ∧
        (.ethertype ∈ fixedTemplate f (blockTemplate f block j) →
          et.Agrees fr.payload.ethertype) := by
  obtain ⟨pr, hparse, hadd⟩ := bind_ok h
  obtain ⟨ft, l4, et, rfl, hacc⟩ := parseFlowRule_ok hparse
  have hflower : PieRule.OfFlower
      { rule.pieRule ft l4 et with spn := ⟨port.setWidth 8, 0x7f⟩ } := by
    refine ⟨rfl, rfl, rfl, rfl, rfl, fun hv => ?_⟩
    have hv : ¬ (rule.addrType = .ipv6 ∧ rule.uses .ipv6Addrs = true) := of_decide_eq_false hv
    simp [FlowRule.pieRule, hv]
  obtain ⟨block, j, idx, hfind, hmatch⟩ := ruleAdd_ok hflower rfl hacc.frameType_mask
    hacc.frameTypeL4_mask ⟨rfl, rfl, rfl, rfl, rfl, rfl, rfl, rfl, rfl⟩ hadd
  refine ⟨ft, l4, et, block, j, idx, hacc, hfind, fun fr => ?_⟩
  have hs := addressAgrees_iff (fun ha hu => (hcls.ipv4 ha hu).1)
    (fun ha hu => (hcls.ipv6 ha hu).1) fr.payload.sip
  have hd := addressAgrees_iff (fun ha hu => (hcls.ipv4 ha hu).2)
    (fun ha hu => (hcls.ipv6 ha hu).2) fr.payload.dip
  rw [hmatch fr]
  have hv := agrees_setWidth_iff (show 12 ≤ 16 by omega) rule.vlan.vlanId (fr.itag.getD 0)
  simp only [FlowRule.pieRule] at hs hd ⊢
  rw [hs, hd]
  simp only [agrees_ite, hv, ← imp_and]
  rfl

/-- A rule without addresses, ports and VLAN gets a template that has the EtherType: it is in the
first one of every block, up to the blocks of the routes on the RTL839x. -/
theorem ethertype_mem_of_findTemplate {f : PieFamily} (use : PieUse f) {pr : PieRule}
    {block j idx : Nat} (hv6 : pr.isIpv6 = false) (hsip : pr.sip.mask = 0) (hdip : pr.dip.mask = 0)
    (hitag : pr.itag.mask = 0) (hsport : pr.sport.mask = 0) (hdport : pr.dport.mask = 0)
    (h : findTemplate f use.used pr = some (block, j, idx)) :
    .ethertype ∈ fixedTemplate f (blockTemplate f block j) := by
  obtain ⟨hblock, hj, hdiv, hfree, hfits, hfirst⟩ := findTemplate_eq_some h
  have hfit : ∀ t, templateFits f pr t = true ↔
      (pr.smac.mask ≠ 0 → .smac 0 ∈ fixedTemplate f t) ∧
        (pr.dmac.mask ≠ 0 → .dmac 0 ∈ fixedTemplate f t) := by
    intro t
    rw [templateFits_iff]
    constructor
    · exact fun h => ⟨h.smac, h.dmac⟩
    · rintro ⟨h1, h2⟩
      constructor <;> simp_all
  cases f with
  | rtl838x =>
    -- every block starts with the template 0, which has both MAC addresses
    have hzero : ∀ block < 12, blockTemplate .rtl838x block 0 = 0 := by decide
    have h0 : templateFits .rtl838x pr (blockTemplate .rtl838x block 0) = true := by
      rw [hzero block hblock, hfit]
      exact ⟨fun _ => by decide, fun _ => by decide⟩
    obtain rfl : j = 0 := by
      by_contra hj0
      have := hfirst 0 (by omega)
      simp [h0] at this
    rw [hzero block hblock]
    decide
  | rtl839x =>
    -- the entries of the routes are never free, and the other blocks start with the template 2
    have hlt : block < 5 := by
      by_contra hge
      have hidx : pieL3First ≤ idx ∧ idx < PieFamily.ingressBlocks .rtl839x * pieBlockSize := by
        have : block < 9 := hblock
        simp only [pieL3First, PieFamily.ingressBlocks, pieBlockSize] at hdiv ⊢
        omega
      simp [use.l3 rfl idx hidx.1 hidx.2] at hfree
    have hzero : ∀ block < 5, blockTemplate .rtl839x block 0 = 2 ∧
        blockTemplate .rtl839x block 1 = 3 := by decide
    obtain ⟨h2, h3⟩ := hzero block hlt
    have hj2 : j < 2 := hj
    obtain rfl | rfl : j = 0 ∨ j = 1 := by omega
    · rw [h2]
      decide
    · have hno := hfirst 0 (by omega)
      rw [h3, hfit] at hfits
      have hsmac : pr.smac.mask = 0 := by
        by_contra hm
        exact absurd (hfits.1 hm) (by decide)
      have hyes : templateFits .rtl839x pr (blockTemplate .rtl839x block 0) = true := by
        rw [h2, hfit]
        exact ⟨fun hm => absurd hsmac hm, fun _ => by decide⟩
      simp [hyes] at hno

/-! ## Frames that are matched -/

/-- The protocol of a frame of the kind that `frame_type_l4` takes for that of the rule. -/
def FlowRule.probeProto (rule : FlowRule) (k : EtherKind) : BitVec 8 :=
  if rule.ipProto.data = IPPROTO_ICMP ∨ rule.ipProto.data = IPPROTO_ICMPV6 then
    if k = .ipv4 then IPPROTO_ICMP else IPPROTO_ICMPV6
  else rule.ipProto.data

/-- A payload of the kind with what the rule asks for. -/
def FlowRule.probe (rule : FlowRule) : EtherKind → Payload
  | .arp => .arp (rule.source.value.setWidth 32)
  | .ipv4 => .ipv4 (rule.source.value.setWidth 32) (rule.dest.value.setWidth 32) 0
      (rule.probeProto .ipv4) (some (rule.portSrc.data, rule.portDst.data))
  | .ipv6 => .ipv6 rule.source.value rule.dest.value 0 (rule.probeProto .ipv6)
      (some (rule.portSrc.data, rule.portDst.data))
  | .other =>
    if h : rule.nProto.data ≠ ETH_P_ARP ∧ rule.nProto.data ≠ ETH_P_IP ∧
        rule.nProto.data ≠ ETH_P_IPV6 then .other rule.nProto.data h
    else .other 0x88cc (by decide)

/-- A frame of the kind with what the rule asks for, and an outer tag. -/
def FlowRule.probeFrame (rule : FlowRule) (k : EtherKind) (port : BitVec 6)
    (otag : Option (BitVec 16)) : Frame :=
  { port := port, dmac := rule.ethDst.data, smac := rule.ethSrc.data, otag := otag,
    itag := some (rule.vlan.vlanId.data.setWidth 16), payload := rule.probe k }

theorem FlowRule.probe_kind (rule : FlowRule) (k : EtherKind) : (rule.probe k).kind = k := by
  cases k with
  | arp => rfl
  | ipv4 => rfl
  | ipv6 => rfl
  | other =>
    unfold FlowRule.probe
    split_ifs <;> rfl

theorem FlowRule.probe_addresses {rule : FlowRule} {k : EtherKind}
    (h : k.Reads rule.source.value rule.dest.value) :
    (rule.probe k).sip = rule.source.value ∧ (rule.probe k).dip = rule.dest.value := by
  have h32 : ∀ x : BitVec 128, x >>> 32 = 0 → (x.setWidth 32).setWidth 128 = x := by
    intro x hx
    apply BitVec.eq_of_getLsbD_eq
    intro i hi
    by_cases hlt : i < 32
    · simp [hi, hlt]
    · have := congrArg (fun y => BitVec.getLsbD y (i - 32)) hx
      have hsub : 32 + (i - 32) = i := by omega
      have hxi : x.getLsbD i = false := by simpa [hsub] using this
      simp only [BitVec.getLsbD_setWidth, hlt, hxi, decide_false, Bool.and_false]
  cases k with
  | arp => exact ⟨h32 _ h.1, h.2.symm⟩
  | ipv4 => exact ⟨h32 _ h.1, h32 _ h.2⟩
  | ipv6 => exact ⟨rfl, rfl⟩
  | other =>
    unfold FlowRule.probe
    split_ifs <;> exact ⟨h.1.symm, h.2.symm⟩

theorem l4Type_eq_some {proto code : BitVec 8} (h : l4Type proto = some code) :
    (proto = IPPROTO_UDP ∧ code = 0) ∨ (proto = IPPROTO_TCP ∧ code = 1) ∨
      (proto = IPPROTO_ICMP ∧ code = 2) ∨ (proto = IPPROTO_ICMPV6 ∧ code = 2) ∨
      (proto = IPPROTO_IGMP ∧ code = 3) := by
  unfold l4Type at h
  split_ifs at h with hudp htcp hicmp higmp
  all_goals
    have hcode := Option.some.inj h
    grind

/-- A rule for a transport protocol is one for a version of IP. -/
theorem ipKind_of_ipProto {rule : FlowRule} {ft l4 : Lib.Ternary.Field 8}
    {et : Lib.Ternary.Field 16} (hacc : rule.Accepted ft l4 et) (hm : rule.ipProto.mask ≠ 0)
    {k : EtherKind} (hk : rule.Allows k) : k = .ipv4 ∨ k = .ipv6 := by
  obtain ⟨hz, -⟩ | ⟨-, hft, -⟩ := hacc.ipProto
  · exact absurd hz hm
  obtain ⟨-, rfl, -⟩ | ⟨hmask, rfl, -⟩ := hacc.nProto
  · exact absurd hft (by decide)
  · rw [hk (by simp [hmask])] at hft
    cases k with
    | arp => exact absurd hft (by decide)
    | other => exact absurd hft (by decide)
    | ipv4 => exact .inl rfl
    | ipv6 => exact .inr rfl

/-- The transport protocol is compared on frames with an IP header only. -/
theorem probe_frameTypeL4 {rule : FlowRule} {ft l4 : Lib.Ternary.Field 8}
    {et : Lib.Ternary.Field 16} (hacc : rule.Accepted ft l4 et) {k : EtherKind}
    (hk : rule.Allows k) : l4.Agrees (rule.probe k).frameTypeL4 := by
  obtain ⟨-, rfl⟩ | ⟨hm, hft, code, hcode, rfl⟩ := hacc.ipProto
  · exact agrees_of_mask rfl _
  have hip := ipKind_of_ipProto hacc (by simp [hm]) hk
  suffices h : (rule.probe k).frameTypeL4 = code by rw [h]; exact agrees_data _
  obtain rfl | rfl := hip
  all_goals
    simp only [FlowRule.probe, Payload.frameTypeL4, FlowRule.probeProto]
    obtain ⟨hp, rfl⟩ | ⟨hp, rfl⟩ | ⟨hp, rfl⟩ | ⟨hp, rfl⟩ | ⟨hp, rfl⟩ := l4Type_eq_some hcode
    all_goals
      rw [hp]
      decide

/-- The entry of a rule matches such a frame of every kind that its protocol leaves and that can
read as its addresses. -/
theorem entryMatches_probeFrame {f : PieFamily} {used : Nat → Bool} {rule : FlowRule}
    {port : BitVec 6} {entry : PieEntry} (hcls : rule.OfClsFlower)
    (h : configureFlower f used rule port = .ok entry) {k : EtherKind} (hk : rule.Allows k)
    (hreads : k.Reads rule.source.value rule.dest.value) (otag : Option (BitVec 16)) :
    entryMatches f entry (rule.probeFrame k port otag) := by
  obtain ⟨ft, l4, et, block, j, idx, hacc, hfind, hmatch⟩ := configureFlower_ok hcls h
  obtain ⟨hsip, hdip⟩ := FlowRule.probe_addresses hreads
  rw [hmatch]
  refine ⟨⟨rfl, ?_, probe_frameTypeL4 hacc hk⟩, fun _ => ⟨agrees_data _, agrees_data _⟩, ?_, ?_,
    ⟨?_, ?_⟩, fun _ => ?_⟩
  · obtain ⟨-, rfl, -⟩ | ⟨hmask, rfl, -⟩ := hacc.nProto
    · exact agrees_of_mask rfl _
    · rw [frameType_agrees_iff]
      exact (rule.probe_kind k).trans (hk (by simp [hmask])).symm
  · intro _
    have hid : (rule.vlan.vlanId.data.setWidth 16).setWidth 12 = rule.vlan.vlanId.data := by
      rw [BitVec.setWidth_setWidth_of_le _ (by omega), BitVec.setWidth_eq]
    simp only [FlowRule.probeFrame, Option.getD_some, hid]
    exact agrees_data _
  · intro hports
    obtain rfl | rfl := ipKind_of_ipProto hacc (hcls.ports hports) hk
    · exact ⟨agrees_data _, agrees_data _⟩
    · exact ⟨agrees_data _, agrees_data _⟩
  · exact hsip ▸ agrees_value _
  · exact hdip ▸ agrees_value _
  · obtain ⟨-, -, rfl⟩ | ⟨hmask, -, rfl⟩ := hacc.nProto
    · exact agrees_of_mask rfl _
    · rw [hk (by simp [hmask])]
      split_ifs with hother
      · subst hother
        have hproto : rule.nProto.data ≠ ETH_P_ARP ∧ rule.nProto.data ≠ ETH_P_IP ∧
            rule.nProto.data ≠ ETH_P_IPV6 := by
          have := hk (by simp [hmask])
          unfold EtherKind.ofProto at this
          grind
        simp only [FlowRule.probeFrame, FlowRule.probe, dif_pos hproto]
        exact agrees_data _
      · exact agrees_of_mask rfl _

/-! ## The theorem -/

/-- The protocol of a kind that is not the rest. -/
theorem eq_of_ofProto_eq {e e' : BitVec 16} (h : EtherKind.ofProto e = EtherKind.ofProto e')
    (hne : EtherKind.ofProto e ≠ .other) : e = e' := by
  unfold EtherKind.ofProto at h hne
  grind

/-- The number of a protocol in `frame_type_l4` tells it from the others, ICMP apart. -/
theorem eq_of_l4Type {icmp proto code data : BitVec 8} (hcode : l4Type data = some code)
    (hicmp : data = IPPROTO_ICMP ∨ data = IPPROTO_ICMPV6 → data = icmp)
    (h : Field.Agrees { data := code, mask := 7 }
      (if proto = IPPROTO_UDP then 0 else if proto = IPPROTO_TCP then 1
        else if proto = icmp then 2 else if proto = IPPROTO_IGMP then 3 else 4)) :
    proto = data := by
  obtain ⟨rfl, rfl⟩ | ⟨rfl, rfl⟩ | ⟨rfl, rfl⟩ | ⟨rfl, rfl⟩ | ⟨rfl, rfl⟩ := l4Type_eq_some hcode
  all_goals
    split_ifs at h with hudp htcp hic higmp
    all_goals
      first
      | assumption
      | exact absurd h (by decide)
      | exact hic.trans (hicmp (by decide)).symm

/-- The addresses of a frame of the rule's version of IP. -/
theorem addrsAgree_of_kind {rule : FlowRule} {p : Payload} (ha : rule.addrType ≠ .none)
    (hof : rule.addrType.Of p.kind) (hs : rule.source.Agrees p.sip)
    (hd : rule.dest.Agrees p.dip) : rule.addrsAgree p := by
  have h32 : ∀ x : BitVec 32, (x.setWidth 128).setWidth 32 = x := fun x => by
    rw [BitVec.setWidth_setWidth_of_le _ (by omega), BitVec.setWidth_eq]
  unfold FlowRule.source at hs
  unfold FlowRule.dest at hd
  cases hat : rule.addrType with
  | none => exact absurd hat ha
  | ipv4 =>
    rw [hat] at hof hs hd
    cases p with
    | ipv4 src dst tos proto ports =>
      refine ⟨hat, ?_, ?_⟩
      · simpa [h32, Payload.sip] using (agrees_setWidth_iff (show 32 ≤ 128 by omega) _ _).1 hs
      · simpa [h32, Payload.dip] using (agrees_setWidth_iff (show 32 ≤ 128 by omega) _ _).1 hd
    | arp spa => cases hof
    | ipv6 src dst tc nexthdr ports => cases hof
    | other e h => cases hof
  | ipv6 =>
    rw [hat] at hof hs hd
    cases p with
    | ipv6 src dst tc nexthdr ports => exact ⟨hat, hs, hd⟩
    | arp spa => cases hof
    | ipv4 src dst tos proto ports => cases hof
    | other e h => cases hof

/-- A frame that the entry of a narrow rule matches is one that the rule matches. -/
theorem flowerMatches_of_narrow {f : PieFamily} (use : PieUse f) {rule : FlowRule}
    {port : BitVec 6} {entry : PieEntry} (hcls : rule.OfClsFlower)
    (h : configureFlower f use.used rule port = .ok entry) (hnarrow : rule.Narrow) {fr : Frame}
    (hfr : entryMatches f entry fr) : flowerMatches rule fr := by
  obtain ⟨ft, l4, et, block, j, idx, hacc, hfind, hmatch⟩ := configureFlower_ok hcls h
  obtain ⟨⟨-, hft, hl4⟩, heth, -, hports, ⟨hsip, hdip⟩, het⟩ := (hmatch fr).1 hfr
  have hreads := reads_of_agrees hsip hdip
  have hallows : rule.Allows fr.payload.kind := by
    intro hm
    obtain ⟨hz, -⟩ | ⟨-, rfl, -⟩ := hacc.nProto
    · exact absurd hz hm
    · exact ((frameType_agrees_iff _ _).1 hft).symm
  obtain ⟨hof, hicmp⟩ := hnarrow.kinds _ hallows hreads
  refine ⟨?_, ?_, fun hu => ⟨(heth hu).2, (heth hu).1⟩, fun hu => ?_, fun ha => ?_, hports⟩
  · -- the protocol of the frame: of a kind of its own, or compared as the EtherType
    obtain ⟨hz, -⟩ | ⟨hmask, rfl, rfl⟩ := hacc.nProto
    · exact agrees_of_mask hz _
    have hkind := hallows (by simp [hmask])
    by_cases hother : EtherKind.ofProto rule.nProto.data = .other
    · have hnone : rule.addrType = .none := by
        rw [← hkind, hother] at hof
        cases ha : rule.addrType with
        | none => rfl
        | ipv4 => rw [ha] at hof; cases hof
        | ipv6 => rw [ha] at hof; cases hof
      have hnoports : rule.uses .ports = false := by
        rw [Bool.eq_false_iff]
        intro hu
        obtain h4 | h6 := ipKind_of_ipProto hacc (hcls.ports hu) (fun _ => hother)
        · cases h4
        · cases h6
      have hmem := ethertype_mem_of_findTemplate use (by simp [FlowRule.pieRule, hnone])
        (by simp [FlowRule.pieRule, hnone]) (by simp [FlowRule.pieRule, hnone])
        (by simp [FlowRule.pieRule, hnarrow.vlan]) (by simp [FlowRule.pieRule, hnoports])
        (by simp [FlowRule.pieRule, hnoports]) hfind
      simpa [hother] using het hmem
    · rw [← Payload.ofProto_ethertype] at hkind
      rw [← eq_of_ofProto_eq hkind hother]
      exact agrees_data _
  · -- the protocol of its IP header
    obtain ⟨hz, -⟩ | ⟨hmask, -, code, hcode, rfl⟩ := hacc.ipProto
    · exact agrees_of_mask hz _
    have hm : rule.ipProto.mask ≠ 0 := by simp [hmask]
    obtain ⟨h4, h6⟩ := hicmp hm
    have hkind := ipKind_of_ipProto hacc hm hallows
    cases hp : fr.payload with
    | arp spa => simp [hp, Payload.kind] at hkind
    | other e he => simp [hp, Payload.kind] at hkind
    | ipv4 src dst tos proto ports =>
      rw [hp] at hl4 h6
      have heq := eq_of_l4Type hcode
        (fun hd => hd.resolve_right fun hd6 => by cases h6 hd6) hl4
      simp only [Payload.ipProto, heq]
      exact agrees_data _
    | ipv6 src dst tc nexthdr ports =>
      rw [hp] at hl4 h4
      have heq := eq_of_l4Type hcode
        (fun hd => hd.resolve_left fun hd4 => by cases h4 hd4) hl4
      simp only [Payload.ipProto, heq]
      exact agrees_data _
  · rw [hnarrow.vlan] at hu
    cases hu
  · exact addrsAgree_of_kind ha hof hsip hdip

theorem of_addrsAgree {rule : FlowRule} {p : Payload} (h : rule.addrsAgree p) :
    rule.addrType.Of p.kind := by
  cases p with
  | arp spa => exact h.elim
  | other e he => exact h.elim
  | ipv4 src dst tos proto ports =>
    rw [h.1]
    rfl
  | ipv6 src dst tc nexthdr ports =>
    rw [h.1]
    rfl

/-- If the rule matches every frame that its entry does, it is narrow. -/
theorem narrow_of_flowerMatches {f : PieFamily} {used : Nat → Bool} {rule : FlowRule}
    {port : BitVec 6} {entry : PieEntry} (hcls : rule.OfClsFlower)
    (h : configureFlower f used rule port = .ok entry)
    (hall : ∀ fr : Frame, fr.port = port → entryMatches f entry fr → flowerMatches rule fr) :
    rule.Narrow := by
  obtain ⟨ft, l4, et, block, j, idx, hacc, -, -⟩ := configureFlower_ok hcls h
  constructor
  · -- a frame with an 802.1ad tag outside the one that is compared
    rw [Bool.eq_false_iff]
    intro hu
    obtain ⟨htpid, hproto⟩ := hcls.vlan hu
    obtain ⟨-, -, hethtype, hdata⟩ := hacc.vlan hu
    have hallows : rule.Allows .ipv6 := fun hm => absurd (hproto hethtype) hm
    have hmatch := entryMatches_probeFrame hcls h hallows trivial (some 0)
    have hvlan := (hall _ rfl hmatch).2.2.2.1 hu
    have hagrees : rule.vlan.vlanTpid.Agrees ETH_P_8021AD := hvlan.2.2.2
    rw [Field.Agrees, htpid, hdata (by simp [htpid])] at hagrees
    exact absurd hagrees (by decide)
  · -- a frame of another kind
    intro k hallows hreads
    have hmatch := entryMatches_probeFrame hcls h hallows hreads none
    obtain ⟨-, hip, -, -, haddrs, -⟩ := hall _ rfl hmatch
    have hkind := rule.probe_kind k
    refine ⟨?_, fun hm => ?_⟩
    · by_cases ha : rule.addrType = .none
      · rw [ha]
        trivial
      · exact hkind ▸ of_addrsAgree (haddrs ha)
    · obtain ⟨hz, -⟩ | ⟨hmask, -⟩ := hacc.ipProto
      · exact absurd hz hm
      have hproto : (rule.probe k).ipProto = rule.ipProto.data := by
        have hones : ∀ x : BitVec 8, x &&& 0xff = x := fun _ => BitVec.and_allOnes
        have hip : (rule.probe k).ipProto &&& rule.ipProto.mask =
            rule.ipProto.data &&& rule.ipProto.mask := hip
        rwa [hmask, hones, hones] at hip
      obtain rfl | rfl := ipKind_of_ipProto hacc hm hallows
      · refine ⟨fun _ => rfl, fun hd => ?_⟩
        simp only [FlowRule.probe, Payload.ipProto, FlowRule.probeProto, hd] at hproto
        exact absurd hproto (by decide)
      · refine ⟨fun hd => ?_, fun _ => rfl⟩
        simp only [FlowRule.probe, Payload.ipProto, FlowRule.probeProto, hd] at hproto
        exact absurd hproto (by decide)

/-- The entry of a rule matches no frame of the port beyond those of the rule if and only if the
rule is narrow. -/
theorem flower_narrow_iff {f : PieFamily} (use : PieUse f) {rule : FlowRule} {port : BitVec 6}
    {entry : PieEntry} (hcls : rule.OfClsFlower)
    (h : configureFlower f use.used rule port = .ok entry) :
    (∀ fr : Frame, fr.port = port → entryMatches f entry fr → flowerMatches rule fr) ↔
      rule.Narrow :=
  ⟨narrow_of_flowerMatches hcls h, fun hnarrow _ _ => flowerMatches_of_narrow use hcls h hnarrow⟩

/-- No entry is in use. -/
def PieUse.empty838x : PieUse .rtl838x where
  used := fun _ => false
  l3 := fun h => nomatch h

/-- `protocol ip flower ip_proto tcp dst_port 80` -/
def webRule : FlowRule where
  usedKeys := [.control, .basic, .ports]
  nProto := ⟨ETH_P_IP, 0xffff⟩
  ipProto := ⟨IPPROTO_TCP, 0xff⟩
  portDst := ⟨80, 0xffff⟩

theorem webRule_offloaded : ∃ entry,
    configureFlower .rtl838x PieUse.empty838x.used webRule 0 = .ok entry ∧
      ∀ fr : Frame, fr.port = 0 → entryMatches .rtl838x entry fr → flowerMatches webRule fr := by
  have hcls : webRule.OfClsFlower :=
    ⟨by decide, by decide, by decide, by decide⟩
  have hnarrow : webRule.Narrow :=
    ⟨rfl, fun _ _ _ => ⟨trivial, fun _ => ⟨fun h => absurd h (by decide),
      fun h => absurd h (by decide)⟩⟩⟩
  exact ⟨_, rfl, (flower_narrow_iff PieUse.empty838x hcls rfl).2 hnarrow⟩

/-- `protocol 802.1Q flower` -/
def taggedRule : FlowRule where
  usedKeys := [.control, .basic, .vlan]
  vlan := { vlanTpid := ⟨ETH_P_8021Q, 0xffff⟩ }

/-- An ARP frame without a tag. -/
def untaggedArp : Frame where
  port := 0
  dmac := 0xffffffffffff
  smac := 0x020000000001
  payload := .arp 0xc0a80101

/-- A rule for tagged frames becomes an entry without any criterion but the port. -/
theorem taggedRule_matches_untagged : taggedRule.OfClsFlower ∧ ∃ entry,
    configureFlower .rtl838x PieUse.empty838x.used taggedRule 0 = .ok entry ∧
      untaggedArp.port = 0 ∧ entryMatches .rtl838x entry untaggedArp ∧
      ¬ flowerMatches taggedRule untaggedArp := by
  have hcls : taggedRule.OfClsFlower :=
    ⟨by decide, by decide, by decide, by decide⟩
  refine ⟨hcls, _, rfl, rfl, ?_, ?_⟩
  · unfold entryMatches
    decide
  · intro h
    have hvlan := h.2.2.2.1 rfl
    exact absurd hvlan.2.2.2 (by decide)

end Lede.Otto
