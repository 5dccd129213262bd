/-
Lede.Otto.Pie — flower rules and the packet inspection engine (`tc.c`, `pie.c`).

`parseFlowRule` turns the match of a flower rule into a `PieRule`, and `ruleAdd` looks for a block
with a free entry and a template that has the fields of the rule, and writes the entry. The words
of an entry are those of `write_fixed_fields` and `write_templated`; what is done with a frame
that matches is in other words and left out.

The engine reads the fields of a frame that the template of an entry names, and compares them and
the fixed fields with the data of the entry under its mask (`entryMatches`); a header that a frame
does not have reads as 0. The families are the RTL838x and the RTL839x, big-endian machines, on
which the bytes of an address are in the order of the number that they make.
-/
import Lede.Lib.Ternary
import Lede.Otto.Family
import Mathlib.Logic.Function.Basic

namespace Lede.Otto

open Lede.Lib.BitField Lede.Lib.Ternary

/-- The families whose engines are modelled. -/
inductive PieFamily where
  | rtl838x
  | rtl839x
deriving DecidableEq, Repr

/-! ## Rules of the engine -/

/-- `struct pie_rule`, the fields that are matched, each with its mask. -/
structure PieRule where
  isEgress : Bool := false
  isIpv6 : Bool := false
  spmmaskFix : Field 8 := {}
  spn : Field 8 := {}
  mgntVlan : Field 1 := {}
  dmacHitSw : Field 1 := {}
  notFirstFrag : Field 1 := {}
  frameTypeL4 : Field 8 := {}
  frameType : Field 8 := {}
  otagFmt : Field 1 := {}
  itagFmt : Field 1 := {}
  otagExist : Field 1 := {}
  itagExist : Field 1 := {}
  frameTypeL2 : Field 8 := {}
  tid : Field 8 := {}
  valid : Bool := false
  condNot : Bool := false
  condAnd1 : Bool := false
  condAnd2 : Bool := false
  spm : Field 64 := {}
  otag : Field 16 := {}
  smac : Field 48 := {}
  dmac : Field 48 := {}
  ethertype : Field 16 := {}
  itag : Field 16 := {}
  fieldRangeCheck : Field 16 := {}
  sip : Field 32 := {}
  sip6 : Field 128 := {}
  dip : Field 32 := {}
  dip6 : Field 128 := {}
  tosProto : Field 16 := {}
  sport : Field 16 := {}
  dport : Field 16 := {}
  icmpIgmp : Field 16 := {}
deriving DecidableEq, Repr

/-- `enum rtl838x_template_field_id`, `enum rtl839x_template_field_id`: the fields of the fixed
templates; the number of a field is the one of its 16-bit word. -/
inductive TemplateField where
  | spm (k : Nat)
  | otag
  | smac (k : Nat)
  | dmac (k : Nat)
  | ethertype
  | itag
  | rangeChk
  | sip (k : Nat)
  | dip (k : Nat)
  | ipTosProto
  | l4Sport
  | l4Dport
  | icmpIgmp
deriving DecidableEq, Repr

/-- `rtl838x_fixed_templates` -/
def fixedTemplates838x : List (List TemplateField) :=
  [[.spm 0, .spm 1, .otag, .smac 0, .smac 1, .smac 2, .dmac 0, .dmac 1, .dmac 2, .ethertype,
      .itag, .rangeChk],
    [.sip 0, .sip 1, .dip 0, .dip 1, .ipTosProto, .l4Sport, .l4Dport, .icmpIgmp, .itag, .rangeChk,
      .spm 0, .spm 1],
    [.dmac 0, .dmac 1, .dmac 2, .itag, .ethertype, .ipTosProto, .l4Dport, .l4Sport, .sip 0,
      .sip 1, .dip 0, .dip 1],
    [.dip 0, .dip 1, .dip 2, .dip 3, .dip 4, .dip 5, .dip 6, .dip 7, .l4Dport, .l4Sport,
      .icmpIgmp, .ipTosProto],
    [.sip 0, .sip 1, .sip 2, .sip 3, .sip 4, .sip 5, .sip 6, .sip 7, .itag, .rangeChk, .spm 0,
      .spm 1]]

/-- `rtl839x_fixed_templates` -/
def fixedTemplates839x : List (List TemplateField) :=
  [[.spm 0, .spm 1, .itag, .smac 0, .smac 1, .smac 2, .dmac 0, .dmac 1, .dmac 2, .ethertype,
      .spm 2, .spm 3],
    [.sip 0, .sip 1, .dip 0, .dip 1, .ipTosProto, .l4Sport, .l4Dport, .icmpIgmp, .spm 0, .spm 1,
      .spm 2, .spm 3],
    [.dmac 0, .dmac 1, .dmac 2, .itag, .ethertype, .ipTosProto, .l4Dport, .l4Sport, .sip 0,
      .sip 1, .dip 0, .dip 1],
    [.dip 0, .dip 1, .dip 2, .dip 3, .dip 4, .dip 5, .dip 6, .dip 7, .l4Dport, .l4Sport,
      .icmpIgmp, .ipTosProto],
    [.sip 0, .sip 1, .sip 2, .sip 3, .sip 4, .sip 5, .sip 6, .sip 7, .spm 0, .spm 1, .spm 2,
      .spm 3]]

/-- The twelve fields of a fixed template. -/
def fixedTemplate (f : PieFamily) (t : Nat) : List TemplateField :=
  match f with
  | .rtl838x => fixedTemplates838x.getD t []
  | .rtl839x => fixedTemplates839x.getD t []

/-- `data` and `data_m` of a field in `write_templated`. -/
def fieldData (pr : PieRule) : TemplateField → Field 16
  | .spm k => pr.spm.chunk k
  | .otag => pr.otag
  | .smac k => pr.smac.chunk k
  | .dmac k => pr.dmac.chunk k
  | .ethertype => pr.ethertype
  | .itag => pr.itag
  | .rangeChk => pr.fieldRangeCheck
  | .sip k => if pr.isIpv6 ∨ 2 ≤ k then pr.sip6.chunk k else pr.sip.chunk k
  | .dip k => if pr.isIpv6 ∨ 2 ≤ k then pr.dip6.chunk k else pr.dip.chunk k
  | .ipTosProto => pr.tosProto
  | .l4Sport => pr.sport
  | .l4Dport => pr.dport
  | .icmpIgmp => pr.icmpIgmp

/-! ## Words of an entry -/

/-- `u32 r[]` -/
abbrev Regs := Nat → BitVec 32

/-- The fixed fields in the order of the words, from the low bit on: `tid`, `frame_type_l2`,
`itag_exist`, `otag_exist`, `itag_fmt`, `otag_fmt`, `frame_type`, `frame_type_l4`,
`not_first_frag`, `dmac_hit_sw`, `mgnt_vlan`, `spn` and `spmmask_fix`. -/
def fixedWord (tid frameTypeL2 : BitVec 8) (itagExist otagExist itagFmt otagFmt : BitVec 1)
    (frameType frameTypeL4 : BitVec 8) (notFirstFrag dmacHitSw mgntVlan : BitVec 1)
    (spn spmmaskFix : BitVec 8) : BitVec 32 :=
  (spmmaskFix.setWidth 32 &&& 0x3) <<< 22 ||| (spn.setWidth 32 &&& 0x3f) <<< 16 |||
    flag 15 (mgntVlan != 0) ||| flag 14 (dmacHitSw != 0) ||| flag 13 (notFirstFrag != 0) |||
    (frameTypeL4.setWidth 32 &&& 0x7) <<< 10 ||| (frameType.setWidth 32 &&& 0x3) <<< 8 |||
    flag 7 (otagFmt != 0) ||| flag 6 (itagFmt != 0) ||| flag 5 (otagExist != 0) |||
    flag 4 (itagExist != 0) ||| (frameTypeL2.setWidth 32 &&& 0x3) <<< 2 ||| tid.setWidth 32 &&& 0x3

/-- `r[6]` of `otto_pie_838x_write_fixed_fields` -/
def fixedData (pr : PieRule) : BitVec 32 :=
  fixedWord pr.tid.data pr.frameTypeL2.data pr.itagExist.data pr.otagExist.data pr.itagFmt.data
    pr.otagFmt.data pr.frameType.data pr.frameTypeL4.data pr.notFirstFrag.data pr.dmacHitSw.data
    pr.mgntVlan.data pr.spn.data pr.spmmaskFix.data

/-- `r[13]` of `otto_pie_838x_write_fixed_fields` -/
def fixedMask (pr : PieRule) : BitVec 32 :=
  fixedWord pr.tid.mask pr.frameTypeL2.mask pr.itagExist.mask pr.otagExist.mask pr.itagFmt.mask
    pr.otagFmt.mask pr.frameType.mask pr.frameTypeL4.mask pr.notFirstFrag.mask pr.dmacHitSw.mask
    pr.mgntVlan.mask pr.spn.mask pr.spmmaskFix.mask

/-- `valid`, `cond_not`, `cond_and1` and `cond_and2`, with `valid` at bit `p` -/
def conditions (pr : PieRule) (p : Nat) : BitVec 32 :=
  flag p pr.valid ||| flag (p - 1) pr.condNot ||| flag (p - 2) pr.condAnd1 |||
    flag (p - 3) pr.condAnd2

/-- `otto_pie_838x_write_fixed_fields`, `otto_pie_839x_write_fixed_fields`; on the RTL839x the
fields stand eight bits further up, and their masks in two words. -/
def writeFixedFields (f : PieFamily) (r : Regs) (pr : PieRule) : Regs :=
  match f with
  | .rtl838x =>
    Function.update (Function.update (Function.update r 6 (fixedData pr)) 13 (fixedMask pr)) 14
      (conditions pr 31)
  | .rtl839x =>
    Function.update (Function.update (Function.update r 6 (fixedData pr <<< 8)) 12
      (r 12 ||| fixedMask pr >>> 16)) 13 (r 13 ||| fixedMask pr <<< 16 ||| conditions pr 15)

/-- One turn of the loop of `write_templated`; on the RTL839x the masks are not aligned. -/
def writeField (f : PieFamily) (pr : PieRule) (r : Regs) (i : Nat) (field : TemplateField) : Regs :=
  let d : BitVec 32 := (fieldData pr field).data.setWidth 32
  let m : BitVec 32 := (fieldData pr field).mask.setWidth 32
  match f with
  | .rtl838x =>
    if i % 2 = 0 then Function.update (Function.update r (5 - i / 2) d) (12 - i / 2) m
    else
      Function.update (Function.update r (5 - i / 2) (r (5 - i / 2) ||| d <<< 16)) (12 - i / 2)
        (r (12 - i / 2) ||| m <<< 16)
  | .rtl839x =>
    if i % 2 = 0 then
      Function.update (Function.update r (5 - i / 2) d) (12 - i / 2) (r (12 - i / 2) ||| m <<< 8)
    else
      Function.update (Function.update (Function.update r (5 - i / 2)
        (r (5 - i / 2) ||| d <<< 16)) (12 - i / 2) (r (12 - i / 2) ||| m <<< 24)) (11 - i / 2)
        (r (11 - i / 2) ||| m >>> 8)

/-- `otto_pie_838x_write_templated`, `otto_pie_839x_write_templated` -/
def writeTemplated (f : PieFamily) (r : Regs) (pr : PieRule) (fields : List TemplateField) : Regs :=
  fields.zipIdx.foldl (fun r x => writeField f pr r x.2 x.1) r

/-- The words that `rule_write` writes for a rule with a template. -/
def ruleWords (f : PieFamily) (pr : PieRule) (fields : List TemplateField) : Regs :=
  if pr.valid then writeTemplated f (writeFixedFields f (fun _ => 0) pr) pr fields else fun _ => 0

/-! ## Blocks and templates -/

/-- `PIE_BLOCK_SIZE` -/
def pieBlockSize : Nat := 128

/-- `RTL839X_PIE_L3_FIRST`: the entries from here on, up to the cutline, are those of the routes. -/
def pieL3First : Nat := 640

/-- The blocks that a rule for frames that come in may use: `n_pie_blocks` of the RTL838x, half
of them on the RTL839x. -/
def PieFamily.ingressBlocks : PieFamily → Nat
  | .rtl838x => 12
  | .rtl839x => 9

/-- `ACL_BLK_TMPLTE_CTRL` of a block as `pie_init` of the family leaves it; of the even blocks of
the RTL838x it only writes the first three, and the others keep their reset value. -/
def templateSelectors : PieFamily → Nat → BitVec 32
  | .rtl838x, block =>
    if block % 2 = 1 then 0 ||| 3 <<< 3 ||| 4 <<< 6
    else if block < 6 then 0 ||| 1 <<< 3 ||| 2 <<< 6
    else 0
  | .rtl839x, block => if block < pieL3First / pieBlockSize then 2 ||| 3 <<< 3 else 1 ||| 3 <<< 3

/-- The number of templates of a block that `rule_add` tries. -/
def PieFamily.templates : PieFamily → Nat
  | .rtl838x => 3
  | .rtl839x => 2

/-- `(t_select >> (j * 3)) & 0x7` -/
def blockTemplate (f : PieFamily) (block j : Nat) : Nat :=
  ((templateSelectors f block >>> (j * 3)) &&& 0x7).toNat

/-- `otto_pie_838x_templ_has`, `otto_pie_839x_templ_has` -/
def templHas (f : PieFamily) (t : Nat) (field : TemplateField) : Bool :=
  (fixedTemplate f t).contains field

/-- The checks of `verify_template`: what a rule matches on is in the template. -/
def templateFits (f : PieFamily) (pr : PieRule) (t : Nat) : Bool :=
  !(!pr.isIpv6 && pr.sip.mask != 0 && !templHas f t (.sip 0)) &&
    !(!pr.isIpv6 && pr.dip.mask != 0 && !templHas f t (.dip 0)) &&
    !(pr.isIpv6 && pr.sip6.mask != 0 && !templHas f t (.sip 2)) &&
    !(pr.isIpv6 && pr.dip6.mask != 0 && !templHas f t (.dip 2)) &&
    !(pr.smac.mask != 0 && !templHas f t (.smac 0)) &&
    !(pr.dmac.mask != 0 && !templHas f t (.dmac 0)) &&
    !(pr.itag.mask != 0 && !templHas f t .itag) &&
    !(pr.sport.mask != 0 && !templHas f t .l4Sport) &&
    !(pr.dport.mask != 0 && !templHas f t .l4Dport)

/-- `otto_pie_838x_verify_template`, `otto_pie_839x_verify_template`; `none` is its `-1`. -/
def verifyTemplate (f : PieFamily) (used : Nat → Bool) (pr : PieRule) (t block : Nat) :
    Option Nat :=
  if templateFits f pr t then
    ((List.range pieBlockSize).find? fun i => !used (pieBlockSize * block + i)).map
      (pieBlockSize * block + ·)
  else none

/-- The entries in use. Those of the routes are never handed out. -/
structure PieUse (f : PieFamily) where
  used : Nat → Bool
  l3 : f = .rtl839x → ∀ i, pieL3First ≤ i → i < f.ingressBlocks * pieBlockSize → used i = true

/-- The loops of `rule_add`: the first template of the first block that will do. -/
def findTemplate (f : PieFamily) (used : Nat → Bool) (pr : PieRule) : Option (Nat × Nat × Nat) :=
  (List.range f.ingressBlocks).findSome? fun block =>
    (List.range f.templates).findSome? fun j =>
      (verifyTemplate f used pr (blockTemplate f block j) block).map fun idx => (block, j, idx)

/-- An entry that was written: its number, the template that it names and its words. -/
structure PieEntry where
  idx : Nat
  tid : Nat
  fields : List TemplateField
  words : Regs

/-- `otto_pie_838x_rule_add`, `otto_pie_839x_rule_add` of a rule for frames that come in; the
template is the one that `rule_write` finds for the block of the entry. -/
def ruleAdd (f : PieFamily) (used : Nat → Bool) (pr : PieRule) : Except Int PieEntry :=
  match findTemplate f used pr with
  | none => .error (-EOPNOTSUPP)
  | some (_, j, idx) =>
    let pr := { pr with valid := true, tid := ⟨BitVec.ofNat 8 j, 0x3⟩ }
    let fields := fixedTemplate f (blockTemplate f (idx / pieBlockSize) j)
    .ok { idx := idx, tid := j, fields := fields, words := ruleWords f pr fields }

/-! ## Flower rules -/

/-- The keys of a flow dissector; `other` stands for all those that the driver does not know. -/
inductive DissectorKey where
  | control
  | basic
  | ethAddrs
  | vlan
  | ipv4Addrs
  | ipv6Addrs
  | ports
  | other
deriving DecidableEq, Repr

/-- `addr_type` of the control key. -/
inductive AddrType where
  | none
  | ipv4
  | ipv6
deriving DecidableEq, Repr

/-- `struct flow_dissector_key_vlan` -/
structure FlowVlan where
  vlanId : Field 12 := {}
  vlanPriority : Field 3 := {}
  vlanDei : Field 1 := {}
  vlanTpid : Field 16 := {}
  vlanEthType : Field 16 := {}
deriving DecidableEq, Repr

/-- `struct flow_rule`, its match: the keys in use, with their data and masks in host order. -/
structure FlowRule where
  usedKeys : List DissectorKey := []
  addrType : AddrType := .none
  nProto : Field 16 := {}
  ipProto : Field 8 := {}
  ethDst : Field 48 := {}
  ethSrc : Field 48 := {}
  vlan : FlowVlan := {}
  ipv4Src : Field 32 := {}
  ipv4Dst : Field 32 := {}
  ipv6Src : Field 128 := {}
  ipv6Dst : Field 128 := {}
  portSrc : Field 16 := {}
  portDst : Field 16 := {}
deriving DecidableEq, Repr

def ETH_P_IP : BitVec 16 := 0x0800
def ETH_P_ARP : BitVec 16 := 0x0806
def ETH_P_8021Q : BitVec 16 := 0x8100
def ETH_P_IPV6 : BitVec 16 := 0x86dd
def ETH_P_8021AD : BitVec 16 := 0x88a8

def IPPROTO_ICMP : BitVec 8 := 1
def IPPROTO_IGMP : BitVec 8 := 2
def IPPROTO_TCP : BitVec 8 := 6
def IPPROTO_UDP : BitVec 8 := 17
def IPPROTO_ICMPV6 : BitVec 8 := 58

/-- `flow_rule_match_key` -/
def FlowRule.uses (rule : FlowRule) (key : DissectorKey) : Bool := rule.usedKeys.contains key

/-- The part of the rule for `n_proto`. -/
def parseNProto (rule : FlowRule) (pr : PieRule) : Except Int PieRule :=
  if rule.nProto.mask = 0 then .ok pr
  else if rule.nProto.mask ≠ 0xffff then .error (-EOPNOTSUPP)
  else if rule.nProto.data = ETH_P_ARP then .ok { pr with frameType := ⟨0, 3⟩ }
  else if rule.nProto.data = ETH_P_IP then .ok { pr with frameType := ⟨2, 3⟩ }
  else if rule.nProto.data = ETH_P_IPV6 then .ok { pr with frameType := ⟨3, 3⟩ }
  else .ok { pr with frameType := ⟨1, 3⟩, ethertype := rule.nProto }

/-- The part of the rule for `ip_proto`. -/
def parseIpProto (rule : FlowRule) (pr : PieRule) : Except Int PieRule :=
  if rule.ipProto.mask = 0 then .ok pr
  else if pr.frameType.data < 2 ∨ rule.ipProto.mask ≠ 0xff then .error (-EOPNOTSUPP)
  else if rule.ipProto.data = IPPROTO_UDP then .ok { pr with frameTypeL4 := ⟨0, 7⟩ }
  else if rule.ipProto.data = IPPROTO_TCP then .ok { pr with frameTypeL4 := ⟨1, 7⟩ }
  else if rule.ipProto.data = IPPROTO_ICMP ∨ rule.ipProto.data = IPPROTO_ICMPV6 then
    .ok { pr with frameTypeL4 := ⟨2, 7⟩ }
  else if rule.ipProto.data = IPPROTO_IGMP then .ok { pr with frameTypeL4 := ⟨3, 7⟩ }
  else .error (-EOPNOTSUPP)

/-- The part of the rule for the VLAN tag. -/
def parseVlan (rule : FlowRule) (pr : PieRule) : Except Int PieRule :=
  if !rule.uses .vlan then .ok pr
  else if rule.vlan.vlanPriority.mask ≠ 0 ∨ rule.vlan.vlanDei.mask ≠ 0 ∨
      rule.vlan.vlanEthType.mask ≠ 0 then .error (-EOPNOTSUPP)
  else if rule.vlan.vlanTpid.mask ≠ 0 ∧ rule.vlan.vlanTpid.data ≠ ETH_P_8021Q then
    .error (-EOPNOTSUPP)
  else
    .ok { pr with itag := ⟨rule.vlan.vlanId.data.setWidth 16, rule.vlan.vlanId.mask.setWidth 16⟩ }

/-- The part of the rule for IP addresses. -/
def parseAddrs (rule : FlowRule) (pr : PieRule) : PieRule :=
  if rule.addrType = .ipv4 ∧ rule.uses .ipv4Addrs then
    { pr with isIpv6 := false, dip := rule.ipv4Dst, sip := rule.ipv4Src }
  else if rule.addrType = .ipv6 ∧ rule.uses .ipv6Addrs then
    { pr with isIpv6 := true, dip6 := rule.ipv6Dst, sip6 := rule.ipv6Src }
  else pr

/-- `otto_tc_parse_flow_rule` -/
def parseFlowRule (rule : FlowRule) : Except Int PieRule := do
  if !rule.uses .control || !rule.uses .basic then throw (-EOPNOTSUPP)
  if rule.uses .other then throw (-EOPNOTSUPP)
  let pr ← parseNProto rule {}
  let pr ← parseIpProto rule pr
  let pr := if rule.uses .ethAddrs then { pr with dmac := rule.ethDst, smac := rule.ethSrc } else pr
  let pr ← parseVlan rule pr
  let pr := parseAddrs rule pr
  return if rule.uses .ports then { pr with dport := rule.portDst, sport := rule.portSrc } else pr

/-- The rule of a port: `otto_tc_configure_flower` adds the port that the frames come in on. -/
def configureFlower (f : PieFamily) (used : Nat → Bool) (rule : FlowRule) (port : BitVec 6) :
    Except Int PieEntry := do
  let pr ← parseFlowRule rule
  ruleAdd f used { pr with spn := ⟨port.setWidth 8, 0x7f⟩ }

/-! ## Frames -/

/-- What follows the Ethernet header and its tags. -/
inductive Payload where
  | arp (spa : BitVec 32)
  | ipv4 (src dst : BitVec 32) (tos proto : BitVec 8) (ports : Option (BitVec 16 × BitVec 16))
  | ipv6 (src dst : BitVec 128) (tc nexthdr : BitVec 8) (ports : Option (BitVec 16 × BitVec 16))
  | other (ethertype : BitVec 16)
      (h : ethertype ≠ ETH_P_ARP ∧ ethertype ≠ ETH_P_IP ∧ ethertype ≠ ETH_P_IPV6)

/-- A frame on its way in: its addresses, the outer (802.1ad) and the inner (802.1Q) tag if it has
them, its payload, and what else the engine knows about it. -/
structure Frame where
  port : BitVec 6
  dmac : BitVec 48
  smac : BitVec 48
  otag : Option (BitVec 16) := none
  itag : Option (BitVec 16) := none
  payload : Payload
  icmpIgmp : BitVec 16 := 0
  rangeChk : BitVec 16 := 0
  spmmaskFix : BitVec 8 := 0
  mgntVlan : BitVec 1 := 0
  dmacHitSw : BitVec 1 := 0
  notFirstFrag : BitVec 1 := 0
  otagFmt : BitVec 1 := 0
  itagFmt : BitVec 1 := 0
  frameTypeL2 : BitVec 8 := 0

/-- The protocol of the payload. -/
def Payload.ethertype : Payload → BitVec 16
  | .arp _ => ETH_P_ARP
  | .ipv4 _ _ _ _ _ => ETH_P_IP
  | .ipv6 _ _ _ _ _ => ETH_P_IPV6
  | .other e _ => e

/-- `frame_type`: 0 is ARP, 1 has only an L2 header, 2 is IPv4 and 3 is IPv6. -/
def Payload.frameType : Payload → BitVec 8
  | .arp _ => 0
  | .other _ _ => 1
  | .ipv4 _ _ _ _ _ => 2
  | .ipv6 _ _ _ _ _ => 3

/-- The protocol field of an IP header. -/
def Payload.ipProto : Payload → BitVec 8
  | .ipv4 _ _ _ proto _ => proto
  | .ipv6 _ _ _ nexthdr _ => nexthdr
  | .arp _ => 0
  | .other _ _ => 0

/-- `frame_type_l4`: 0 is UDP, 1 is TCP, 2 is the ICMP of the IP version and 3 is IGMP; what is none
of them has another number, and a frame without an IP header reads as 0. -/
def Payload.frameTypeL4 (p : Payload) : BitVec 8 :=
  let l4 (icmp proto : BitVec 8) : BitVec 8 :=
    if proto = IPPROTO_UDP then 0
    else if proto = IPPROTO_TCP then 1
    else if proto = icmp then 2
    else if proto = IPPROTO_IGMP then 3
    else 4
  match p with
  | .ipv4 _ _ _ proto _ => l4 IPPROTO_ICMP proto
  | .ipv6 _ _ _ nexthdr _ => l4 IPPROTO_ICMPV6 nexthdr
  | .arp _ => 0
  | .other _ _ => 0

/-- The source address that the engine reads; that of an ARP frame is the sender's. -/
def Payload.sip : Payload → BitVec 128
  | .ipv4 src _ _ _ _ => src.setWidth 128
  | .ipv6 src _ _ _ _ => src
  | .arp spa => spa.setWidth 128
  | .other _ _ => 0

/-- The destination address that the engine reads. -/
def Payload.dip : Payload → BitVec 128
  | .ipv4 _ dst _ _ _ => dst.setWidth 128
  | .ipv6 _ dst _ _ _ => dst
  | .arp _ => 0
  | .other _ _ => 0

/-- The ports of the transport header, source and destination. -/
def Payload.ports : Payload → BitVec 16 × BitVec 16
  | .ipv4 _ _ _ _ ports => ports.getD (0, 0)
  | .ipv6 _ _ _ _ ports => ports.getD (0, 0)
  | .arp _ => (0, 0)
  | .other _ _ => (0, 0)

/-- The TOS or traffic class with the protocol. -/
def Payload.tosProto : Payload → BitVec 16
  | .ipv4 _ _ tos proto _ => tos.setWidth 16 <<< 8 ||| proto.setWidth 16
  | .ipv6 _ _ tc nexthdr _ => tc.setWidth 16 <<< 8 ||| nexthdr.setWidth 16
  | .arp _ => 0
  | .other _ _ => 0

/-- What the engine puts into a field of the template for a frame. -/
def Frame.field (fr : Frame) : TemplateField → BitVec 16
  | .spm k => chunk k ((1 : BitVec 64) <<< fr.port.toNat)
  | .otag => fr.otag.getD 0
  | .smac k => chunk k fr.smac
  | .dmac k => chunk k fr.dmac
  | .ethertype => fr.payload.ethertype
  | .itag => fr.itag.getD 0
  | .rangeChk => fr.rangeChk
  | .sip k => chunk k fr.payload.sip
  | .dip k => chunk k fr.payload.dip
  | .ipTosProto => fr.payload.tosProto
  | .l4Sport => fr.payload.ports.1
  | .l4Dport => fr.payload.ports.2
  | .icmpIgmp => fr.icmpIgmp

/-- The fixed fields of a frame that is matched with the template `tid`. -/
def Frame.fixed (fr : Frame) (tid : Nat) : BitVec 32 :=
  fixedWord (BitVec.ofNat 8 tid) fr.frameTypeL2 (BitVec.ofBool fr.itag.isSome)
    (BitVec.ofBool fr.otag.isSome) fr.itagFmt fr.otagFmt fr.payload.frameType
    fr.payload.frameTypeL4 fr.notFirstFrag fr.dmacHitSw fr.mgntVlan (fr.port.setWidth 8)
    fr.spmmaskFix

/-! ## Matching -/

/-- The word of an entry with the fields `2 * h` and `2 * h + 1`. -/
def matchWord (r : Regs) (h : Nat) : BitVec 32 := r (5 - h)

/-- The word with their masks. -/
def maskWord (f : PieFamily) (r : Regs) (h : Nat) : BitVec 32 :=
  match f with
  | .rtl838x => r (12 - h)
  | .rtl839x => r (11 - h) <<< 24 ||| r (12 - h) >>> 8

/-- The field `i` of an entry. -/
def entryField (f : PieFamily) (r : Regs) (i : Nat) : Field 16 :=
  { data := chunk (i % 2) (matchWord r (i / 2)), mask := chunk (i % 2) (maskWord f r (i / 2)) }

/-- The fixed fields of an entry. -/
def entryFixed (f : PieFamily) (r : Regs) : Field 32 :=
  match f with
  | .rtl838x => { data := r 6, mask := r 13 }
  | .rtl839x => { data := r 6 >>> 8, mask := (r 12 <<< 16 ||| r 13 >>> 16) &&& 0xffffff }

/-- The engine's lookup of one entry: it is valid, and the fixed fields and the twelve fields of
its template agree. -/
def entryMatches (f : PieFamily) (entry : PieEntry) (fr : Frame) : Prop :=
  (entry.words (match f with | .rtl838x => 14 | .rtl839x => 13)).getLsbD
      (match f with | .rtl838x => 31 | .rtl839x => 15) = true ∧
    (entryFixed f entry.words).Agrees (fr.fixed entry.tid) ∧
    ∀ x ∈ entry.fields.zipIdx, (entryField f entry.words x.2).Agrees (fr.field x.1)

/-- The first tag of a frame, as the dissector sees it: its TPID and its TCI. -/
def Frame.firstTag (fr : Frame) : Option (BitVec 16 × BitVec 16) :=
  match fr.otag, fr.itag with
  | some tci, _ => some (ETH_P_8021AD, tci)
  | none, some tci => some (ETH_P_8021Q, tci)
  | none, none => none

/-- The VLAN key of a rule for a frame; the key of a frame without a tag is 0. -/
def FlowVlan.Agrees (v : FlowVlan) (fr : Frame) : Prop :=
  let tpid := (fr.firstTag.map Prod.fst).getD 0
  let tci := (fr.firstTag.map Prod.snd).getD 0
  v.vlanId.Agrees (tci.setWidth 12) ∧ v.vlanPriority.Agrees ((tci >>> 13).setWidth 3) ∧
    v.vlanDei.Agrees ((tci >>> 12).setWidth 1) ∧ v.vlanTpid.Agrees tpid

/-- The addresses of a rule for a frame: it has to be of the rule's version of IP. -/
def FlowRule.addrsAgree (rule : FlowRule) : Payload → Prop
  | .ipv4 src dst _ _ _ =>
    rule.addrType = .ipv4 ∧ rule.ipv4Src.Agrees src ∧ rule.ipv4Dst.Agrees dst
  | .ipv6 src dst _ _ _ =>
    rule.addrType = .ipv6 ∧ rule.ipv6Src.Agrees src ∧ rule.ipv6Dst.Agrees dst
  | .arp _ => False
  | .other _ _ => False

/-- The frame is one that the flower rule matches. -/
def flowerMatches (rule : FlowRule) (fr : Frame) : Prop :=
  rule.nProto.Agrees fr.payload.ethertype ∧ rule.ipProto.Agrees fr.payload.ipProto ∧
    (rule.uses .ethAddrs = true → rule.ethDst.Agrees fr.dmac ∧ rule.ethSrc.Agrees fr.smac) ∧
    (rule.uses .vlan = true → rule.vlan.Agrees fr) ∧
    (rule.addrType ≠ .none → rule.addrsAgree fr.payload) ∧
    (rule.uses .ports = true →
      rule.portSrc.Agrees fr.payload.ports.1 ∧ rule.portDst.Agrees fr.payload.ports.2)

end Lede.Otto
