/-
Lede.Otto.RouterMac — the router MACs of the RTL93xx (`rtl83xx/l3.c`).

What arrives on a MAC of this table is routed. The driver writes an entry for each MAC of the
devices that it follows, and remembers which entries it wrote. A list of devices is the one of the
name space, in its order; what `kzalloc` does for a device that is new is a parameter.
-/
import Lede.Otto.L3Route

namespace Lede.Otto

open Lede.Lib.BitField

/-! ## Entries -/

/-- `MAX_ROUTER_MACS` -/
def maxRouterMacs : Nat := 64

/-- `struct otto_l3_router_mac` -/
structure RouterMac where
  valid : Bool := false
  pType : Bool := false
  pMask : Bool := false
  pId : BitVec 8 := 0
  pIdMask : BitVec 8 := 0
  action : BitVec 8 := 0
  vid : BitVec 16 := 0
  vidMask : BitVec 16 := 0
  mac : BitVec 64 := 0
  macMask : BitVec 64 := 0
deriving DecidableEq, Repr

/-- `otto_l3_930x_get_router_mac` into `m` -/
def getRouterMac (data : Vector (BitVec 32) 7) (m : RouterMac) : RouterMac :=
  let v := data[0]
  let w := data[3]
  let maskHigh : BitVec 64 := (data[4] &&& low 16).setWidth 64
  let macHigh : BitVec 64 := data[1].setWidth 64
  if !v.getLsbD 20 then { m with valid := false }
  else
    { m with
      valid := true
      pType := v.getLsbD 19
      pId := ((v >>> 13) &&& low 6).setWidth 8
      vid := (v &&& low 12).setWidth 16
      vidMask := (w &&& low 12).setWidth 16
      action := (data[6] &&& low 3).setWidth 8
      macMask := maskHigh <<< 32 ||| data[5].setWidth 64
      mac := macHigh <<< 32 &&& low 48 ||| data[2].setWidth 64 }

/-- The words of `otto_l3_930x_set_router_mac`. -/
def setRouterMac (m : RouterMac) : Vector (BitVec 32) 7 :=
  #v[flag 20 m.valid ||| ((m.pId.setWidth 32 &&& low 6) <<< 13) ||| (m.vid.setWidth 32 &&& low 12),
    (m.mac >>> 32).setWidth 32, m.mac.setWidth 32,
    m.vidMask.setWidth 32 ||| (m.pIdMask.setWidth 32 &&& low 6) <<< 13,
    (m.macMask >>> 32).setWidth 32, m.macMask.setWidth 32, m.action.setWidth 32 &&& low 3]

/-- The table, `router_mac_bm` and `rmac_devs`. -/
structure RouterMacs where
  table : Nat → Vector (BitVec 32) 7
  bm : Nat → Bool
  devs : List Nat

/-! ## Devices -/

/-- The masters of a device that matter. -/
inductive Master where
  | bridge
  | lag
  | other
deriving DecidableEq, Repr

/-- `struct net_device` -/
structure NetDev where
  ifindex : Nat
  addrLen : Nat := 6
  devAddr : BitVec 48
  master : Option Master := none
deriving DecidableEq, Repr

/-- `ether_addr_to_u64(dev->dev_addr)` -/
def NetDev.mac (dev : NetDev) : BitVec 64 := dev.devAddr.setWidth 64

def isValidEtherAddr (addr : BitVec 48) : Bool := !addr.getLsbD 40 && addr != 0

/-- `otto_l3_router_mac_receiver` -/
def routerMacReceiver (dev : NetDev) : Bool :=
  decide (dev.addrLen = 6) && !(dev.master == some .bridge || dev.master == some .lag)

/-- `__dev_get_by_index` -/
def devGetByIndex (netdevs : List NetDev) (ifindex : Nat) : Option NetDev :=
  netdevs.find? (·.ifindex = ifindex)

/-! ## The driver -/

/-- The loop of `otto_l3_alloc_router_mac` over the indices that are left. -/
def findRouterMac (table : Nat → Vector (BitVec 32) 7) (mac : BitVec 64) :
    List Nat → Option Nat → Option Nat
  | [], free => free
  | i :: is, free =>
    let m := getRouterMac (table i) {}
    if free.isNone && !m.valid then findRouterMac table mac is (some i)
    else if m.valid && m.mac == mac then some i
    else findRouterMac table mac is free

/-- The entry that it writes. -/
def routerMacEntry (mac : BitVec 64) : RouterMac where
  valid := true
  mac := mac
  pType := false
  pMask := false
  pId := 0x3f
  pIdMask := 0
  vid := 0
  vidMask := 0
  macMask := 0xffffffffffff
  action := ROUTE_ACT_FORWARD

/-- `otto_l3_alloc_router_mac`; the first part is false where it returns -1. -/
def allocRouterMac (s : RouterMacs) (mac : BitVec 64) : Bool × RouterMacs :=
  match findRouterMac s.table mac (List.range maxRouterMacs) none with
  | none => (false, s)
  | some i =>
    (true, { s with
      table := Function.update s.table i (setRouterMac (routerMacEntry mac))
      bm := Function.update s.bm i true })

/-- `otto_l3_router_mac_track` over the devices that are left; `mem` says for which device memory
can be had. -/
def routerMacTrack (mem : Nat → Bool) (mac : BitVec 64) :
    List NetDev → List Nat → Bool × List Nat
  | [], devs => (true, devs)
  | dev :: netdevs, devs =>
    if !routerMacReceiver dev || dev.mac != mac || devs.contains dev.ifindex then
      routerMacTrack mem mac netdevs devs
    else if !mem dev.ifindex then (false, devs)
    else routerMacTrack mem mac netdevs (devs ++ [dev.ifindex])

/-- The first loop of `otto_l3_router_mac_sync`, over the entries that are left. -/
def trackEntries (mem : Nat → Bool) (netdevs : List NetDev) (s : RouterMacs) :
    List Nat → List Nat → Bool × List Nat
  | [], devs => (true, devs)
  | i :: is, devs =>
    if !s.bm i then trackEntries mem netdevs s is devs
    else
      let m := getRouterMac (s.table i) {}
      if !m.valid then trackEntries mem netdevs s is devs
      else
        match routerMacTrack mem m.mac netdevs devs with
        | (true, devs) => trackEntries mem netdevs s is devs
        | (false, devs) => (false, devs)

/-- The loop over the devices: those that are left to look at, those that stay, and `macs`. With
more MACs than entries it stops there. -/
def collectMacs (netdevs : List NetDev) :
    List Nat → List Nat → List (BitVec 64) → List Nat × Option (List (BitVec 64))
  | [], kept, macs => (kept, some macs)
  | d :: ds, kept, macs =>
    match devGetByIndex netdevs d with
    | none => collectMacs netdevs ds kept macs
    | some dev =>
      if !isValidEtherAddr dev.devAddr || !routerMacReceiver dev then
        collectMacs netdevs ds (kept ++ [d]) macs
      else if macs.contains dev.mac then collectMacs netdevs ds (kept ++ [d]) macs
      else if macs.length = maxRouterMacs then (kept ++ d :: ds, none)
      else collectMacs netdevs ds (kept ++ [d]) (macs ++ [dev.mac])

/-- The loop over the entries that were written; `have[k]` is set for the MAC `k` that has one. -/
def matchEntries (macs : List (BitVec 64)) (mayFree : Bool) :
    List Nat → RouterMacs × (Nat → Bool) → RouterMacs × (Nat → Bool)
  | [], s => s
  | i :: is, (s, found) =>
    if !s.bm i then matchEntries macs mayFree is (s, found)
    else
      let m := getRouterMac (s.table i) {}
      if m.valid && macs.contains m.mac then
        matchEntries macs mayFree is (s, Function.update found (macs.idxOf m.mac) true)
      else if !mayFree then matchEntries macs mayFree is (s, found)
      else
        matchEntries macs mayFree is ({ s with
          table := Function.update s.table i (setRouterMac {})
          bm := Function.update s.bm i false }, found)

/-- The last loop: whether all entries were found room for. -/
def allocMissing (found : Nat → Bool) : List (BitVec 64 × Nat) → Bool × RouterMacs →
    Bool × RouterMacs
  | [], s => s
  | (mac, k) :: macs, (ok, s) =>
    if found k then allocMissing found macs (ok, s)
    else
      let (done, s) := allocRouterMac s mac
      allocMissing found macs (ok && done, s)

/-- `otto_l3_router_mac_sync`; the first part says whether it completed: memory was there, the
MACs were not too many, and the entries enough. -/
def routerMacSync (mem : Nat → Bool) (netdevs : List NetDev) (s : RouterMacs) (mayFree : Bool) :
    Bool × RouterMacs :=
  match trackEntries mem netdevs s (List.range maxRouterMacs) s.devs with
  | (false, devs) => (false, { s with devs := devs })
  | (true, devs) =>
    match collectMacs netdevs devs [] [] with
    | (kept, none) => (false, { s with devs := kept })
    | (kept, some macs) =>
      let (s, found) := matchEntries macs mayFree (List.range maxRouterMacs)
        ({ s with devs := kept }, fun _ => false)
      allocMissing found macs.zipIdx (true, s)

end Lede.Otto
