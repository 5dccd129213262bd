/-
Lede.Otto.EgressIntf — the egress interfaces of the RTL930x (`rtl83xx/l3.c`).

An interface has the source MAC and the VLAN of the frames that leave through it. Routes of one MAC
and VLAN share one, whatever their devices are, and `intf_refs` counts them. A source MAC of zero
says that the interface is free.

`Io` says which accesses of the hardware fail while an interface is taken or given up. What the
L2 table and the DMAC entries hold when a gateway answers is a parameter of that event, and so is
whether the rows of the prefix routes are known.
-/
import Lede.Otto.L2Table
import Lede.Otto.RouterMac

namespace Lede.Otto

open Lede.Lib.BitField

/-! ## Entries -/

/-- `MAX_SMACS` -/
def maxSmacs : Nat := 64

/-- `MAX_ROUTES` -/
def maxRoutes : Nat := 512

/-- `MAX_HOST_ROUTES` -/
def maxHostRoutes : Nat := 1536

/-- `struct otto_l3_intf` -/
structure L3Intf where
  vid : BitVec 16 := 0
  smacIdx : BitVec 8 := 0
  ip4MtuId : BitVec 8 := 0
  ip6MtuId : BitVec 8 := 0
  ttlScope : BitVec 8 := 0
  hlScope : BitVec 8 := 0
  ip4IcmpRedirect : BitVec 8 := 0
  ip6IcmpRedirect : BitVec 8 := 0
  ip4PbrIcmpRedirect : BitVec 8 := 0
  ip6PbrIcmpRedirect : BitVec 8 := 0
deriving DecidableEq, Repr

/-- `otto_l3_930x_get_egress_intf` -/
def getEgressIntf (data : Vector (BitVec 32) 2) : L3Intf where
  vid := (bits data[0] 9 12).setWidth 16
  smacIdx := (bits data[0] 3 6).setWidth 8
  ip4MtuId := (bits data[0] 0 3).setWidth 8
  ip6MtuId := (bits data[1] 28 3).setWidth 8
  ttlScope := (bits data[1] 20 8).setWidth 8
  hlScope := (bits data[1] 12 8).setWidth 8
  ip4IcmpRedirect := (bits data[1] 9 3).setWidth 8
  ip6IcmpRedirect := (bits data[1] 6 3).setWidth 8
  ip4PbrIcmpRedirect := (bits data[1] 3 3).setWidth 8
  ip6PbrIcmpRedirect := (bits data[1] 0 3).setWidth 8

/-- The words of `otto_l3_930x_set_egress_intf`. -/
def setEgressIntf (intf : L3Intf) : Vector (BitVec 32) 2 :=
  #v[(intf.vid.setWidth 32 &&& low 12) <<< 9 ||| (intf.smacIdx.setWidth 32 &&& low 6) <<< 3 |||
      (intf.ip4MtuId.setWidth 32 &&& low 3) <<< 0,
    (intf.ip6MtuId.setWidth 32 &&& low 3) <<< 28 |||
      (intf.ttlScope.setWidth 32 &&& low 8) <<< 20 |||
      (intf.hlScope.setWidth 32 &&& low 8) <<< 12 |||
      (intf.ip4IcmpRedirect.setWidth 32 &&& low 3) <<< 9 |||
      (intf.ip6IcmpRedirect.setWidth 32 &&& low 3) <<< 6 |||
      (intf.ip4PbrIcmpRedirect.setWidth 32 &&& low 3) <<< 3 |||
      (intf.ip6PbrIcmpRedirect.setWidth 32 &&& low 3) <<< 0]

/-- The word of `otto_l3_930x_set_nexthop`; no interface is -1. -/
def nexthopWord (dmacId : BitVec 16) (ifId : Option Nat) : BitVec 32 :=
  (dmacId.setWidth 32 &&& low 15) <<< 7 |||
    ((ifId.elim (-1) (BitVec.ofNat 16)).setWidth 32 &&& low 7)

/-- The interface of `otto_l3_930x_get_nexthop`. -/
def nexthopInterface (v : BitVec 32) : Nat := (v &&& low 7).toNat

/-! ## State -/

/-- `struct otto_l3_route`, as far as its egress interface depends on it. -/
structure EgressRoute where
  id : Nat
  isHostRoute : Bool := false
  gwIfindex : Nat := 0
  /-- The VLAN that the route was added with, which the driver does not keep. -/
  vlan : BitVec 16 := 0
  nh : Nexthop := {}
  /-- `nh.id` -/
  nhId : Nat := 0
  /-- `nh.gw` -/
  gw : BitVec 64 := 0
  /-- `nh.if_id` -/
  ifId : Option Nat := none
deriving DecidableEq, Repr

/-- The source MACs, the interfaces and the next hops of the hardware, and what the driver keeps:
`routeUse` are both bitmaps of route ids, `routes` is `routes_list`. -/
structure EgressState where
  smacs : Nat → BitVec 64
  egress : Nat → Vector (BitVec 32) 2
  nexthops : Nat → BitVec 32
  interfaces : Nat → L3Intf
  intfRefs : Nat → Nat
  routeUse : Nat → Bool
  routes : List EgressRoute

/-- Which accesses succeed. -/
structure Io where
  readOld : Bool := true
  read : Nat → Bool := fun _ => true
  writeIntf : Bool := true
  writeSmac : Bool := true
  writeFree : Bool := true

/-! ## Interfaces -/

/-- The loop of `otto_l3_alloc_egress_intf` over the indices that are left: the interface that is
used again, or the first free one. -/
def findEgressIntf (read : Nat → Bool) (s : EgressState) (mac : BitVec 64) (vlan : BitVec 16) :
    List Nat → Option Nat → Option Nat × Option Nat
  | [], free => (none, free)
  | i :: is, free =>
    if !read i then findEgressIntf read s mac vlan is free
    else if free.isNone && s.smacs i == 0 then findEgressIntf read s mac vlan is (some i)
    else if s.smacs i == mac && (s.interfaces i).vid == vlan then (some i, free)
    else findEgressIntf read s mac vlan is free

/-- The interface that `otto_l3_alloc_egress_intf` writes. -/
def newIntf (vlan : BitVec 16) (i : Nat) : L3Intf where
  vid := vlan
  smacIdx := BitVec.ofNat 8 i
  ip4MtuId := 1
  ip6MtuId := 1
  ttlScope := 1
  hlScope := 1
  ip4IcmpRedirect := 2
  ip6IcmpRedirect := 2
  ip4PbrIcmpRedirect := 2
  ip6PbrIcmpRedirect := 2

/-- `otto_l3_alloc_egress_intf`; the index is missing where it returns an error. -/
def allocEgressIntf (io : Io) (s : EgressState) (mac : BitVec 64) (vlan : BitVec 16) :
    Option Nat × EgressState :=
  match findEgressIntf io.read s mac vlan (List.range maxSmacs) none with
  | (some i, _) =>
    (some i, { s with intfRefs := Function.update s.intfRefs i (s.intfRefs i + 1) })
  | (none, none) => (none, s)
  | (none, some i) =>
    if !io.writeIntf then (none, s)
    else
      let s := { s with
        egress := Function.update s.egress i (setEgressIntf (newIntf vlan i))
        interfaces := Function.update s.interfaces i (newIntf vlan i) }
      if !io.writeSmac then (none, s)
      else
        (some i, { s with
          smacs := Function.update s.smacs i mac
          intfRefs := Function.update s.intfRefs i (s.intfRefs i + 1) })

/-- `otto_l3_intf_put` -/
def intfPut (io : Io) (s : EgressState) : Option Nat → EgressState
  | none => s
  | some k =>
    let s := { s with intfRefs := Function.update s.intfRefs k (s.intfRefs k - 1) }
    if s.intfRefs k = 0 ∧ io.writeFree = true then
      { s with smacs := Function.update s.smacs k 0 }
    else s

/-! ## Routes -/

/-- The id that `otto_l3_route_alloc` takes. -/
def routeAlloc (s : EgressState) (host : Bool) : Option Nat :=
  (if host then (List.range maxHostRoutes).map (· + maxRoutes) else List.range maxRoutes).find?
    fun i => !s.routeUse i

/-- A route that only traps, which `otto_l3_fib_trap_v4` and `otto_l3_fib_trap_v6` add. -/
def addTrap (s : EgressState) (host : Bool) : EgressState :=
  match routeAlloc s host with
  | none => s
  | some id =>
    { s with
      routeUse := Function.update s.routeUse id true
      routes := s.routes ++ [{ id := id, isHostRoute := host }] }

/-- A route out of `dev` through the interface `k`, before its gateway is known. -/
def newRoute (id : Nat) (host : Bool) (dev : NetDev) (vlan : BitVec 16) (k : Nat) :
    EgressRoute where
  id := id
  isHostRoute := host
  gwIfindex := dev.ifindex
  vlan := vlan
  nh := { rvid := vlan }
  ifId := some k

/-- The interface of a route out of `dev` as `otto_l3_fib_add_v4` and `otto_l3_fib_add_v6` take it,
and give it up again where a later step fails. -/
def addRoute (io : Io) (s : EgressState) (host : Bool) (dev : NetDev) (vlan : BitVec 16)
    (done : Bool) : EgressState :=
  match routeAlloc s host with
  | none => s
  | some id =>
    match allocEgressIntf io s dev.mac vlan with
    | (none, s) => s
    | (some k, s) =>
      if !done then intfPut io s (some k)
      else
        { s with
          routeUse := Function.update s.routeUse id true
          routes := s.routes ++ [newRoute id host dev vlan k] }

/-- The next hop of a route after `otto_l3_route_update_hw`. -/
def updateNexthop (ctrl : BitVec 32) (l2 : L2State) (mac : BitVec 64) (dmac : BitVec 16)
    (r : EgressRoute) : EgressRoute :=
  let res := nexthopAdd .rtl930x ctrl l2
    { r.nh with mac := mac, port := Family.portIgnore .rtl930x, dmacId := dmac }
  { r with
    nh := if res.1 = 0 then { res.2.2 with l2Installed := true } else res.2.2
    nhId := r.id
    gw := mac }

/-- `otto_l3_route_update_hw` for the route at `p`; it leaves the next hop as it is where the row
of the route is frozen and where there is no DMAC entry. -/
def updateRoute (s : EgressState) (p : Nat) (mac : BitVec 64) (frozen : Bool)
    (dmac : Option (BitVec 16)) (ctrl : BitVec 32) (l2 : L2State) : EgressState :=
  match s.routes[p]?, frozen, dmac with
  | some r, false, some dmac =>
    let r := updateNexthop ctrl l2 mac dmac r
    { s with
      routes := s.routes.set p r
      nexthops := Function.update s.nexthops r.nhId
        (nexthopWord (BitVec.ofNat 16 r.nh.l2Id) r.ifId) }
  | _, _, _ => s

/-- `otto_l3_route_teardown` of the route at `p`. Where the rows are stale a prefix route leaves its
interface and its id taken. -/
def delRoute (io : Io) (s : EgressState) (p : Nat) (stale : Bool) : EgressState :=
  match s.routes[p]? with
  | none => s
  | some r =>
    let keep := stale && !r.isHostRoute
    let s := if keep then s else intfPut io s r.ifId
    { s with
      routeUse := if keep then s.routeUse else Function.update s.routeUse r.id false
      routes := s.routes.erase r }

/-! ## A new MAC -/

/-- `otto_l3_intf_only_dev` -/
def intfOnlyDev (s : EgressState) (k ifindex : Nat) : Bool :=
  s.routes.countP (fun r => r.ifId == some k && r.gwIfindex == ifindex) == s.intfRefs k

/-- The body of the loop of `otto_l3_egress_sync` for the route at `p`, and whether the route keeps
its source MAC. -/
def syncRoute (io : Io) (ifindex : Nat) (mac : BitVec 64) (s : EgressState) (p : Nat) :
    Bool × EgressState :=
  match s.routes[p]? with
  | none => (false, s)
  | some r =>
    if r.gwIfindex ≠ ifindex then (false, s)
    else
      match r.ifId with
      | none => (false, s)
      | some old =>
        if io.readOld && s.smacs old == mac then (false, s)
        else if intfOnlyDev s old ifindex then
          if io.writeSmac then (false, { s with smacs := Function.update s.smacs old mac })
          else (true, s)
        else
          match allocEgressIntf io s mac r.nh.rvid with
          | (none, s) => (true, s)
          | (some k, s) =>
            let s := { s with
              routes := s.routes.set p { r with ifId := some k }
              nexthops :=
                if k ≠ old ∧ r.gw ≠ 0 then
                  Function.update s.nexthops r.nhId
                    (nexthopWord (BitVec.ofNat 16 r.nh.l2Id) (some k))
                else s.nexthops }
            (false, intfPut io s (some old))

/-- The loop, over the positions that are left; `kept` is set where a route keeps its MAC. -/
def syncRoutes (io : Nat → Io) (ifindex : Nat) (mac : BitVec 64) :
    List Nat → Bool × EgressState → Bool × EgressState
  | [], s => s
  | p :: ps, (kept, s) =>
    let (k, s) := syncRoute (io p) ifindex mac s p
    syncRoutes io ifindex mac ps (kept || k, s)

/-- `otto_l3_egress_sync`, and its `kept`. -/
def egressSync (io : Nat → Io) (netdevs : List NetDev) (ifindex : Nat) (s : EgressState) :
    Bool × EgressState :=
  match devGetByIndex netdevs ifindex with
  | none => (false, s)
  | some dev =>
    if !isValidEtherAddr dev.devAddr then (false, s)
    else syncRoutes io dev.ifindex dev.mac (List.range s.routes.length) (false, s)

/-! ## Runs -/

inductive EgressAct where
  | trap (host : Bool)
  | add (host : Bool) (dev : NetDev) (vlan : BitVec 16) (done : Bool) (io : Io)
  | update (p : Nat) (mac : BitVec 48) (frozen : Bool) (dmac : Option (BitVec 16))
      (ctrl : BitVec 32) (l2 : L2State)
  | del (p : Nat) (stale : Bool) (io : Io)
  | sync (netdevs : List NetDev) (ifindex : Nat) (io : Nat → Io)

def EgressAct.run (s : EgressState) : EgressAct → EgressState
  | .trap host => addTrap s host
  | .add host dev vlan done io => addRoute io s host dev vlan done
  | .update p mac frozen dmac ctrl l2 => updateRoute s p (mac.setWidth 64) frozen dmac ctrl l2
  | .del p stale io => delRoute io s p stale
  | .sync netdevs ifindex io => (egressSync io netdevs ifindex s).2

/-- A device over a switch port has a MAC, and a VLAN id has 12 bits. -/
def EgressAct.Enabled : EgressAct → Prop
  | .add _ dev vlan _ _ => dev.devAddr ≠ 0 ∧ vlan.toNat < 4096
  | .trap _ => True
  | .update _ _ _ _ _ _ => True
  | .del _ _ _ => True
  | .sync _ _ _ => True

/-- The states of the driver after `otto_l3_930x_setup` has cleared the source MACs. -/
inductive EgressReach : EgressState → Prop where
  | start (egress : Nat → Vector (BitVec 32) 2) (nexthops : Nat → BitVec 32) :
      EgressReach { smacs := fun _ => 0, egress, nexthops, interfaces := fun _ => {},
                    intfRefs := fun _ => 0, routeUse := fun i => i == 0, routes := [] }
  | step {s : EgressState} (a : EgressAct) (h : EgressReach s) (he : a.Enabled) :
      EgressReach (a.run s)

end Lede.Otto
