/-
Lede.Otto.RouteRule — the prefix routes of the RTL839x, PIE rules (`rtl83xx/l3.c`, `pie.c`).

A row of L3 is one of the rules that the engine keeps for it. The rule matches the destination
prefix and forwards to the L2 entry of the gateway, or redirects to the CPU what is addressed to
one of the switch's MACs.
-/
import Lede.Otto.L3Route
import Lede.Otto.PieCodec

namespace Lede.Otto

open Lede.Lib.BitField Lede.Lib.Ternary

/-! ## Routes -/

/-- `struct otto_l3_route` with `nh.l2_id` and `pr.packet_cntr`, which are in its rule. -/
structure PieRoute extends L3Route where
  l2Id : BitVec 16 := 0
  packetCntr : Int := -1
deriving DecidableEq, Repr

/-- The bits of the address, the first one the highest. -/
def In6Addr.bits (a : In6Addr) : BitVec 128 := a.w0 ++ a.w1 ++ a.w2 ++ a.w3

/-- `s6_addr[k]` -/
def In6Addr.byte (a : In6Addr) (k : Nat) : BitVec 8 := (a.bits >>> (8 * (15 - k))).setWidth 8

/-- `memset(&ones, 0xff, sizeof(ones))` -/
def In6Addr.ones : In6Addr := .ofBytes fun _ => 0xff

def ipv6AddrPrefix (addr : In6Addr) (plen : Nat) : In6Addr :=
  let o := plen >>> 3
  let b := plen &&& 7
  .ofBytes fun k =>
    if k < o then addr.byte k
    else if k = o ∧ b ≠ 0 then addr.byte k &&& (0xff00#32 >>> b).setWidth 8
    else 0

/-! ## Rules -/

/-- `RTL839X_PIE_L3_RULES` -/
def pieL3Rules : Nat := 9 * pieBlockSize - pieL3First

/-- `RTL839X_CPU_PORT` -/
def cpuPort839x : BitVec 16 := 52

/-- The rule of `otto_l3_839x_route_write`. -/
def routeRule (rt : PieRoute) : PieRule × PieActs :=
  if !rt.attr.valid then ({}, {})
  else
    let pr : PieRule :=
      if rt.attr.type = .ip6uc then
        { valid := true
          isIpv6 := true
          dip6 := ⟨rt.dstIp6.bits, (ipv6AddrPrefix .ones rt.prefixLen.toNat).bits⟩
          frameType := ⟨3, 0x3⟩ }
      else
        { valid := true
          dip := ⟨rt.dstIp, inetMakeMask rt.prefixLen.toNat⟩
          frameType := ⟨2, 0x3⟩ }
    let a : PieActs :=
      if 0 ≤ rt.packetCntr then
        { sel := fun x => x = .fwd ∨ x = .log
          data := fun x => if x = .log then BitVec.ofInt 16 rt.packetCntr else 0 }
      else { sel := fun x => x = .fwd }
    if rt.attr.action = ROUTE_ACT_FORWARD then
      (pr, { a with
        fwdAct := PIE_ACT_ROUTE_UC
        data := Function.update a.data .fwd rt.l2Id })
    else
      ({ pr with dmacHitSw := ⟨1, 1⟩ }, { a with
        fwdAct := PIE_ACT_REDIRECT_TO_PORT
        data := Function.update a.data .fwd cpuPort839x })

/-- The entries of the engine. -/
abbrev PieTable := Nat → Regs

/-- `ACL_BLK_TMPLTE_CTRL` of the block of an entry -/
def entrySelectors (idx : Nat) : BitVec 32 := templateSelectors .rtl839x (idx / pieBlockSize)

/-- `otto_pie_839x_l3_rule_write` -/
def l3RuleWrite (table : PieTable) (idx : Int) (pr : PieRule) (a : PieActs) : Int × PieTable :=
  let dip : TemplateField := if pr.isIpv6 then .dip 2 else .dip 0
  if idx < 0 ∨ (pieL3Rules : Int) ≤ idx then (-EINVAL, table)
  else
    let idx := pieL3First + idx.toNat
    match (List.range 2).find? fun j =>
        templHas .rtl839x (blockTemplate .rtl839x (idx / pieBlockSize) j) dip with
    | none => (-EOPNOTSUPP, table)
    | some j =>
      let pr := { pr with tid := ⟨BitVec.ofNat 8 j, 0x3⟩ }
      (0, Function.update table idx (ruleWrite .rtl839x (entrySelectors idx) pr a).2)

/-- `otto_pie_839x_l3_rule_read` -/
def l3RuleRead (table : PieTable) (idx : Int) : Except Int (PieRule × PieActs) :=
  if idx < 0 ∨ (pieL3Rules : Int) ≤ idx then .error (-EINVAL)
  else
    let idx := pieL3First + idx.toNat
    .ok (ruleRead .rtl839x (entrySelectors idx) (table idx))

/-- `otto_l3_839x_route_write` -/
def routeWrite839x (table : PieTable) (idx : Int) (rt : PieRoute) : Int × PieTable :=
  l3RuleWrite table idx (routeRule rt).1 (routeRule rt).2

/-- `otto_l3_839x_route_matches` -/
def routeMatches839x (table : PieTable) (row : Int) (rt : PieRoute) : Int :=
  let fwd := decide (rt.attr.action = ROUTE_ACT_FORWARD)
  match l3RuleRead table row with
  | .error err => err
  | .ok (pr, a) =>
    if !pr.valid || !a.sel .fwd ||
        a.fwdAct != (if fwd then PIE_ACT_ROUTE_UC else PIE_ACT_REDIRECT_TO_PORT) ||
        a.data .fwd != (if fwd then rt.l2Id else cpuPort839x) then 0
    else if rt.attr.type = .ip6uc then
      if pr.frameType.data = 3 ∧ pr.dip6.data = rt.dstIp6.bits ∧
          pr.dip6.mask = (ipv6AddrPrefix .ones rt.prefixLen.toNat).bits then 1 else 0
    else if pr.frameType.data = 2 ∧ pr.dip.data = rt.dstIp ∧
        pr.dip.mask = inetMakeMask rt.prefixLen.toNat then 1 else 0

/-! ## Matching -/

/-- A row as the engine looks it up: its own field names the template. -/
def l3Entry (table : PieTable) (row : Nat) : PieEntry :=
  let idx := pieL3First + row
  let tid := (readFixedFields .rtl839x (table idx)).tid.data
  { idx := idx
    tid := tid.toNat
    fields := selectedTemplate .rtl839x (entrySelectors idx) tid
    words := table idx }

/-- The route goes to a gateway, not to the CPU. -/
def PieRoute.Forwards (rt : PieRoute) : Prop := rt.attr.action = ROUTE_ACT_FORWARD

instance (rt : PieRoute) : Decidable rt.Forwards := inferInstanceAs (Decidable (_ = _))

/-- The address begins with the first `len` bits of the net. -/
def InNet {w : Nat} (net : BitVec w) (len : Nat) (addr : BitVec w) : Prop :=
  addr >>> (w - len) = net >>> (w - len)

/-- The frame is of the family of the route, and its destination in the prefix. -/
def PieRoute.Covers (rt : PieRoute) (fr : Frame) : Prop :=
  match fr.payload with
  | .ipv4 _ dst _ _ _ => rt.attr.type ≠ .ip6uc ∧ InNet rt.dstIp rt.prefixLen.toNat dst
  | .ipv6 _ dst _ _ _ => rt.attr.type = .ip6uc ∧ InNet rt.dstIp6.bits rt.prefixLen.toNat dst
  | .arp _ => False
  | .other _ _ => False

/-- Routes that a row takes for one: the same prefix and action, and the same L2 index when they
forward. -/
def SameRule (rt rt' : PieRoute) : Prop :=
  (rt.attr.type = .ip6uc ↔ rt'.attr.type = .ip6uc) ∧
    (if rt.attr.type = .ip6uc then rt.dstIp6 = rt'.dstIp6 else rt.dstIp = rt'.dstIp) ∧
    rt.prefixLen = rt'.prefixLen ∧ (rt.Forwards ↔ rt'.Forwards) ∧
    (rt.Forwards → rt.l2Id = rt'.l2Id)

instance (rt rt' : PieRoute) : Decidable (SameRule rt rt') :=
  inferInstanceAs (Decidable (_ ∧ _ ∧ _ ∧ _ ∧ _))

end Lede.Otto
