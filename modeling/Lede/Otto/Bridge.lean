/-
Lede.Otto.Bridge — which ports of an Otto switch may talk to each other (`dsa.c`).

Each port has a mask `pm` of the ports that it may send to, and a row of the isolation table
of the switch that follows `pm` while the port is enabled. A bridge join or leave and a change of
`BR_ISOLATED` make the mask of their own port anew and add it to or take it from the masks
of the other ports of the bridge.

`dp->bridge` belongs to the DSA core: it names the new bridge before the driver hears of a
join, and none before it hears of a leave. Learning, flooding, VLAN and spanning tree
settings that the same calls write are left out, as they are in other registers.
-/
import Lede.Otto.Family
import Mathlib.Logic.Function.Basic

namespace Lede.Otto

/-- The bridge port flags that `rtldsa_port_bridge_flags` looks at. -/
inductive BrFlag where
  | learning
  | flood
  | mcastFlood
  | bcastFlood
  | locked
  | isolated
deriving DecidableEq

/-- The VLAN protocol of a bridge. -/
inductive VlanProto where
  | ethP8021Q
  | ethP8021AD
  | other
deriving DecidableEq

/-- The ports of a switch: those with a user netdev, and those with a PHY or a PCS. -/
structure SwitchPorts (f : Family) where
  userPorts : List Nat
  hasPhy : Nat → Bool
  user_lt : ∀ p ∈ userPorts, p < f.cpuPort

/-- The part of `struct rtldsa_port` that the bridge calls read or write. -/
structure RtldsaPort where
  enable : Bool
  isolated : Bool
  qinq : Bool
  bridged : Bool
  cachedFlags : BrFlag → Bool
  pm : PortMask

/-- The ports of the driver, `dp->bridge` of the DSA core and the isolation table. -/
structure BridgeState where
  ports : Nat → RtldsaPort
  bridge : Nat → Option Nat
  portIso : Nat → PortMask

def BridgeState.setPort (s : BridgeState) (port : Nat) (p : RtldsaPort) : BridgeState :=
  { s with ports := Function.update s.ports port p }

/-- What `traffic_set` stores for a port. The RTL839x keeps a port in its own mask, so that a
routed frame may leave through the port it came in on. -/
def trafficMask (f : Family) (source : Nat) (dest : PortMask) : PortMask :=
  if f = .rtl839x then insert source dest else dest

/-- `priv->r->traffic_set` -/
def trafficSet (f : Family) (s : BridgeState) (source : Nat) (dest : PortMask) : BridgeState :=
  { s with portIso := Function.update s.portIso source (trafficMask f source dest) }

/-- `priv->r->traffic_enable` -/
def trafficEnable (s : BridgeState) (source dest : Nat) : BridgeState :=
  { s with portIso := Function.update s.portIso source (insert dest (s.portIso source)) }

/-- `priv->r->traffic_disable` -/
def trafficDisable (s : BridgeState) (source dest : Nat) : BridgeState :=
  { s with portIso := Function.update s.portIso source ((s.portIso source).erase dest) }

/-- One round of the loop of `rtldsa_update_port_member`, with the mask of the port so far. -/
def updateOther (f : Family) (port : Nat) (bridgeDev : Option Nat) (join : Bool)
    (acc : PortMask × BridgeState) (otherPort : Nat) : PortMask × BridgeState :=
  let s := acc.2
  let otherP := s.ports otherPort
  if port = otherPort then acc
  else if s.bridge otherPort ≠ bridgeDev then acc
  else
    let isolated := (s.ports port).isolated && otherP.isolated
    let portMask := if join && !isolated then insert otherPort acc.1 else acc.1
    let pm := if join && !isolated then insert port otherP.pm else otherP.pm.erase port
    let s := s.setPort otherPort { otherP with pm := pm }
    (portMask, if otherP.enable then trafficSet f s otherPort pm else s)

/-- `rtldsa_update_port_member` -/
def updatePortMember (f : Family) (ports : SwitchPorts f) (s : BridgeState) (port : Nat)
    (bridgeDev : Option Nat) (join : Bool) : BridgeState :=
  let r := ports.userPorts.foldl (updateOther f port bridgeDev join) ({f.cpuPort}, s)
  let s := r.2
  let p := s.ports port
  let s := s.setPort port { p with pm := r.1 }
  if p.enable then trafficSet f s port r.1 else s

/-- `priv->r->vlan_port_qinq_set` is there. -/
def Family.hasQinq : Family → Bool
  | .rtl838x => true
  | .rtl839x => true
  | .rtl930x => true
  | .rtl931x => false

/-- The test at the head of `rtldsa_port_bridge_join`. -/
def joinRefused (f : Family) (proto : VlanProto) : Bool :=
  proto != .ethP8021Q && (proto != .ethP8021AD || !f.hasQinq)

/-- `rtldsa_port_bridge_join`, called with `dp->bridge` set. -/
def portBridgeJoin (f : Family) (ports : SwitchPorts f) (s : BridgeState) (port bridge : Nat)
    (proto : VlanProto) : Int × BridgeState :=
  if joinRefused f proto then (-EINVAL, s)
  else
    let p := s.ports port
    let s := s.setPort port { p with
      isolated := false, cachedFlags := fun _ => false,
      qinq := proto = .ethP8021AD || p.qinq, bridged := true }
    (0, updatePortMember f ports s port (some bridge) true)

/-- `rtldsa_port_bridge_leave`, called with `dp->bridge` cleared. -/
def portBridgeLeave (f : Family) (ports : SwitchPorts f) (s : BridgeState) (port bridge : Nat) :
    BridgeState :=
  let s := updatePortMember f ports s port (some bridge) false
  let p := s.ports port
  s.setPort port { p with qinq := false, bridged := false }

/-- `rtldsa_port_bridge_flags` -/
def portBridgeFlags (f : Family) (ports : SwitchPorts f) (s : BridgeState) (port : Nat)
    (mask val : BrFlag → Bool) : BridgeState :=
  let p := s.ports port
  let cached := fun flag => if mask flag then val flag else p.cachedFlags flag
  let s := s.setPort port { p with cachedFlags := cached }
  if mask .isolated then
    let s := s.setPort port { p with cachedFlags := cached, isolated := cached .isolated }
    updatePortMember f ports s port (s.bridge port) true
  else s

/-- `rtldsa_port_enable` -/
def portEnable (f : Family) (s : BridgeState) (port : Nat) : BridgeState :=
  let s := s.setPort port { s.ports port with enable := true }
  if port = f.cpuPort then s
  else trafficSet f (trafficEnable s f.cpuPort port) port (s.ports port).pm

/-- `rtldsa_port_disable` -/
def portDisable (f : Family) (ports : SwitchPorts f) (s : BridgeState) (port : Nat) : BridgeState :=
  if port ∉ ports.userPorts then s
  else
    let s := trafficSet f (trafficDisable s f.cpuPort port) port ∅
    s.setPort port { s.ports port with enable := false }

/-- `rtldsa_83xx_setup`, `rtldsa_93xx_setup`: all ports are disabled, and have the CPU port in
their masks if they have a PHY or a PCS. -/
def bridgeSetup (f : Family) (ports : SwitchPorts f) (portIso : Nat → PortMask) : BridgeState where
  ports := fun i =>
    { enable := decide (i = f.cpuPort), isolated := false, qinq := false, bridged := false,
      cachedFlags := fun _ => false,
      pm := if i < f.cpuPort && ports.hasPhy i then {f.cpuPort} else ∅ }
  bridge := fun _ => none
  portIso := fun i =>
    if i = f.cpuPort || (i < f.cpuPort && ports.hasPhy i) then trafficMask f i {i} else portIso i

/-! ## Calls of the DSA core -/

inductive BridgeCall where
  | join (port bridge : Nat) (proto : VlanProto)
  | leave (port : Nat)
  | flags (port : Nat) (mask val : BrFlag → Bool)
  | enable (port : Nat)
  | disable (port : Nat)

/-- The DSA core sets `dp->bridge`, calls the driver and clears it again if the join fails. -/
def bridgeStep (f : Family) (ports : SwitchPorts f) (s : BridgeState) : BridgeCall → BridgeState
  | .join port bridge proto =>
    let r := portBridgeJoin f ports { s with bridge := Function.update s.bridge port (some bridge) }
      port bridge proto
    if r.1 ≠ 0 then { r.2 with bridge := Function.update r.2.bridge port none } else r.2
  | .leave port =>
    match s.bridge port with
    | none => s
    | some bridge =>
      portBridgeLeave f ports { s with bridge := Function.update s.bridge port none } port bridge
  | .flags port mask val => portBridgeFlags f ports s port mask val
  | .enable port => portEnable f s port
  | .disable port => portDisable f ports s port

def bridgeRun (f : Family) (ports : SwitchPorts f) (s : BridgeState) (calls : List BridgeCall) :
    BridgeState :=
  calls.foldl (bridgeStep f ports) s

/-! ## What the bridges ask for -/

/-- The bridge of each port, the `BR_ISOLATED` flag of each bridge port, and the ports that
the driver was ever called for. -/
structure Membership where
  bridge : Nat → Option Nat
  isolated : Nat → Bool
  updated : Finset Nat

/-- A port that joins a bridge becomes a new bridge port, which is not isolated. -/
def Membership.step (f : Family) (m : Membership) : BridgeCall → Membership
  | .join port bridge proto =>
    if joinRefused f proto then m
    else ⟨Function.update m.bridge port (some bridge), Function.update m.isolated port false,
      insert port m.updated⟩
  | .leave port => ⟨Function.update m.bridge port none, m.isolated, insert port m.updated⟩
  | .flags port mask val =>
    if mask .isolated then
      ⟨m.bridge, Function.update m.isolated port (val .isolated), insert port m.updated⟩
    else m
  | .enable _ => m
  | .disable _ => m

def Membership.run (f : Family) (m : Membership) (calls : List BridgeCall) : Membership :=
  calls.foldl (Membership.step f) m

def noBridges : Membership := ⟨fun _ => none, fun _ => false, ∅⟩

/-- The calls that the DSA core makes: a port has one bridge at most, only a bridged port leaves
or gets flags, and they are all for user ports. -/
def BridgeCall.Made {f : Family} (ports : SwitchPorts f) (m : Membership) : BridgeCall → Prop
  | .join port _ _ => port ∈ ports.userPorts ∧ m.bridge port = none
  | .leave port => port ∈ ports.userPorts ∧ m.bridge port ≠ none
  | .flags port _ _ => port ∈ ports.userPorts ∧ m.bridge port ≠ none
  | .enable _ => True
  | .disable _ => True

/-- Two ports may talk to each other. -/
def Membership.Linked (m : Membership) (p q : Nat) : Prop :=
  p ≠ q ∧ (∃ b, m.bridge p = some b ∧ m.bridge q = some b) ∧ ¬ (m.isolated p = true ∧ m.isolated q = true)

end Lede.Otto
