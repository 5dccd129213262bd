/-
Lede.Otto.L2Entry — the rows of the L2 table and of its CAM (`l2.c`, `rtl-otto.h`).

An entry is written to the table as three words, on the RTL931x as four. `fillRow` makes the
words of an entry and `fillEntry` reads words into an entry that the caller hands in: what
the reader of a family does not assign keeps the value it had there.

The words are bit vectors, and each field has the width of its C type, so that what a
narrow field cuts off is cut off here.
-/
import Lede.Lib.BitField
import Lede.Otto.Family

namespace Lede.Otto

open Lede.Lib.BitField

/-- `enum l2_entry_type` -/
inductive L2EntryType where
  | invalid
  | unicast
  | multicast
  | ip4Multicast
  | ip6Multicast
deriving DecidableEq, Repr

/-- `u8 mac[6]` -/
structure Mac where
  m0 : BitVec 8
  m1 : BitVec 8
  m2 : BitVec 8
  m3 : BitVec 8
  m4 : BitVec 8
  m5 : BitVec 8
deriving DecidableEq, Repr

/-- `mac[0] & 1` -/
def Mac.isMulticast (m : Mac) : Bool := m.m0.getLsbD 0

/-- `ether_addr_to_u64` -/
def etherAddrToU64 (m : Mac) : BitVec 64 :=
  m.m0.setWidth 64 <<< 40 ||| m.m1.setWidth 64 <<< 32 ||| m.m2.setWidth 64 <<< 24 |||
    m.m3.setWidth 64 <<< 16 ||| m.m4.setWidth 64 <<< 8 ||| m.m5.setWidth 64

/-- `struct rtl838x_l2_entry`, without `mc_sip`, which no row holds. -/
structure L2Entry where
  mac : Mac := ⟨0, 0, 0, 0, 0, 0⟩
  vid : BitVec 16 := 0
  rvid : BitVec 16 := 0
  port : BitVec 8 := 0
  type : L2EntryType := .invalid
  valid : Bool := false
  isStatic : Bool := false
  isIpMc : Bool := false
  isIpv6Mc : Bool := false
  blockDa : Bool := false
  blockSa : Bool := false
  suspended : Bool := false
  nextHop : Bool := false
  isTrunk : Bool := false
  nhVlanTarget : Bool := false
  age : BitVec 32 := 0
  trunk : BitVec 8 := 0
  stackDev : BitVec 8 := 0
  mcPortmaskIndex : BitVec 16 := 0
  mcGip : BitVec 32 := 0
  mcMacIndex : BitVec 16 := 0
  nhRouteId : BitVec 16 := 0
  isOpenFlow : Bool := false
  isPeForward : Bool := false
  isLocalForward : Bool := false
  isRemoteForward : Bool := false
  isL2Tunnel : Bool := false
  hashMsb : Bool := false
  l2TunnelId : BitVec 32 := 0
  l2TunnelListId : BitVec 32 := 0
deriving DecidableEq, Repr

/-- `memset(e, 0, sizeof(*e))` -/
def L2Entry.zero : L2Entry := {}

/-- The words `r[]` of a row; only the RTL931x has `r3`. -/
structure L2Row where
  r0 : BitVec 32
  r1 : BitVec 32
  r2 : BitVec 32
  r3 : BitVec 32
deriving DecidableEq, Repr

/-- The row of an entry that is not valid. -/
def L2Row.zero : L2Row := ⟨0, 0, 0, 0⟩

/-- The field of `w` bits at `p`, as `(r >> p) & mask`. -/
def bits (r : BitVec 32) (p w : Nat) : BitVec 32 := (r >>> p) &&& low w

/-! ## RTL838x -/

/-- The unicast branch of `otto_l2_838x_fill_entry`; no row has a valid bit, and one that has
none of these bits is taken for a free one. -/
def fillUnicast838x (r : L2Row) (e : L2Entry) : L2Entry :=
  let nextHop := r.r1.getLsbD 28
  let valid := !(r.r0 &&& 0x007c0000 == 0 && r.r1 &&& 0xd0000000 == 0)
  { e with
    isStatic := r.r0.getLsbD 19
    port := (bits r.r0 12 5).setWidth 8
    blockDa := r.r1.getLsbD 30
    blockSa := r.r1.getLsbD 31
    suspended := r.r1.getLsbD 29
    nextHop := nextHop
    nhVlanTarget := if nextHop then r.r0.getLsbD 9 else e.nhVlanTarget
    nhRouteId := if nextHop then (bits r.r0 0 9).setWidth 16 else e.nhRouteId
    vid := if nextHop then e.rvid else e.vid
    age := bits r.r0 17 2
    valid := valid
    type := if valid then .unicast else e.type }

/-- The fields that all entries of an Ethernet address have. -/
def fillMac838x (r : L2Row) (e : L2Entry) : L2Entry :=
  { e with
    mac := ⟨(r.r1 >>> 20).setWidth 8, (r.r1 >>> 12).setWidth 8, (r.r1 >>> 4).setWidth 8,
      ((r.r1 &&& low 4) <<< 4 ||| r.r2 >>> 28).setWidth 8, (r.r2 >>> 20).setWidth 8,
      (r.r2 >>> 12).setWidth 8⟩
    rvid := (r.r2 &&& low 12).setWidth 16
    vid := (r.r0 &&& low 12).setWidth 16 }

/-- The type of an entry of an IP group; IPv6 is looked at last. -/
def ipMcType (e : L2Entry) : L2EntryType :=
  if e.isIpv6Mc then .ip6Multicast else if e.isIpMc then .ip4Multicast else e.type

/-- `otto_l2_838x_fill_entry` -/
def fillEntry838x (r : L2Row) (e : L2Entry) : L2Entry :=
  let e := { e with isIpMc := r.r0.getLsbD 22, isIpv6Mc := r.r0.getLsbD 21, type := .invalid }
  if !e.isIpMc && !e.isIpv6Mc then
    let e := fillMac838x r e
    if !e.mac.isMulticast then fillUnicast838x r e
    else
      { e with valid := true, type := .multicast,
               mcPortmaskIndex := (bits r.r0 12 9).setWidth 16 }
  else
    { e with valid := true, mcPortmaskIndex := (bits r.r0 12 9).setWidth 16,
             mcGip := r.r1 <<< 20 ||| r.r2 >>> 12, rvid := (r.r2 &&& low 12).setWidth 16,
             type := ipMcType e }

/-- `otto_l2_838x_fill_row` -/
def fillRow838x (e : L2Entry) : L2Row :=
  let mac := etherAddrToU64 e.mac
  if !e.valid then .zero
  else
    let r0 := flag 22 e.isIpMc ||| flag 21 e.isIpv6Mc
    if !e.isIpMc && !e.isIpv6Mc then
      let r1 := (mac >>> 20).setWidth 32
      let r2 := ((mac &&& low 20) <<< 12).setWidth 32
      if !e.mac.isMulticast then
        ⟨r0 ||| flag 19 e.isStatic ||| (e.port.setWidth 32 &&& low 6) <<< 12 |||
            e.vid.setWidth 32 |||
            (if e.nextHop then flag 9 e.nhVlanTarget ||| (e.nhRouteId.setWidth 32 &&& low 9)
             else 0) |||
            (e.age &&& low 2) <<< 17,
          r1 ||| flag 30 e.blockDa ||| flag 31 e.blockSa ||| flag 29 e.suspended |||
            flag 28 e.nextHop,
          r2 ||| (e.rvid.setWidth 32 &&& low 12), 0⟩
      else
        ⟨r0 ||| (e.mcPortmaskIndex.setWidth 32 &&& low 9) <<< 12 |||
            (e.vid.setWidth 32 &&& low 12),
          r1, r2 ||| (e.rvid.setWidth 32 &&& low 12), 0⟩
    else
      ⟨r0 ||| (e.mcPortmaskIndex.setWidth 32 &&& low 9) <<< 12, e.mcGip >>> 20,
        e.mcGip <<< 12 ||| e.rvid.setWidth 32, 0⟩

/-! ## RTL839x -/

/-- The unicast branch of `otto_l2_839x_fill_entry`. -/
def fillUnicast839x (r : L2Row) (e : L2Entry) : L2Entry :=
  let nextHop := r.r2.getLsbD 16
  let valid := !(r.r2 &&& 0xc0fd0000 == 0)
  { e with
    isStatic := r.r2.getLsbD 18
    port := (bits r.r2 24 6).setWidth 8
    blockDa := r.r2.getLsbD 19
    blockSa := r.r2.getLsbD 20
    suspended := r.r2.getLsbD 17
    nextHop := nextHop
    nhVlanTarget := if nextHop then r.r2.getLsbD 15 else e.nhVlanTarget
    nhRouteId := if nextHop then (bits r.r2 4 9).setWidth 16 else e.nhRouteId
    vid := if nextHop then e.rvid else e.vid
    age := bits r.r2 21 3
    valid := valid
    type := if valid then .unicast else e.type }

/-- The fields that all entries of an Ethernet address have. -/
def fillMac839x (r : L2Row) (e : L2Entry) : L2Entry :=
  { e with
    mac := ⟨(r.r0 >>> 12).setWidth 8, (r.r0 >>> 4).setWidth 8,
      (r.r1 >>> 28 ||| r.r0 <<< 4).setWidth 8, (r.r1 >>> 20).setWidth 8,
      (r.r1 >>> 12).setWidth 8, (r.r1 >>> 4).setWidth 8⟩
    vid := (bits r.r2 4 12).setWidth 16
    rvid := (bits r.r0 20 12).setWidth 16 }

/-- `otto_l2_839x_fill_entry` -/
def fillEntry839x (r : L2Row) (e : L2Entry) : L2Entry :=
  let e := { e with isIpMc := r.r2.getLsbD 31, isIpv6Mc := r.r2.getLsbD 30, type := .invalid }
  if !e.isIpMc && !e.isIpv6Mc then
    let e := fillMac839x r e
    if !e.mac.isMulticast then fillUnicast839x r e
    else
      { e with valid := true, type := .multicast,
               mcPortmaskIndex := (bits r.r2 6 12).setWidth 16, vid := e.rvid }
  else
    -- the relay VID sits in the upper bits, and this shift takes it to the left
    let rvid := ((r.r0 <<< 20) &&& low 12).setWidth 16
    { e with vid := rvid, rvid := rvid, mcGip := r.r1,
             mcPortmaskIndex := (bits r.r2 6 12).setWidth 16, valid := true,
             type := ipMcType e }

/-- `otto_l2_839x_fill_row` -/
def fillRow839x (e : L2Entry) : L2Row :=
  if !e.valid then .zero
  else
    let r2 := flag 31 e.isIpMc ||| flag 30 e.isIpv6Mc
    if !e.isIpMc && !e.isIpv6Mc then
      let r0 := e.mac.m0.setWidth 32 <<< 12 ||| e.mac.m1.setWidth 32 <<< 4 |||
        e.mac.m2.setWidth 32 >>> 4
      let r1 := e.mac.m2.setWidth 32 <<< 28 ||| e.mac.m3.setWidth 32 <<< 20 |||
        e.mac.m4.setWidth 32 <<< 12 ||| e.mac.m5.setWidth 32 <<< 4
      if !e.mac.isMulticast then
        ⟨r0 ||| e.rvid.setWidth 32 <<< 20, r1,
          r2 ||| flag 18 e.isStatic ||| e.port.setWidth 32 <<< 24 ||| flag 19 e.blockDa |||
            flag 20 e.blockSa ||| flag 17 e.suspended ||| (e.age &&& low 3) <<< 21 |||
            (if e.nextHop then
              flag 16 true ||| flag 15 e.nhVlanTarget |||
                (e.nhRouteId.setWidth 32 &&& low 11) <<< 4
             else e.vid.setWidth 32 <<< 4), 0⟩
      else
        ⟨r0 ||| e.rvid.setWidth 32 <<< 20, r1, r2 ||| e.mcPortmaskIndex.setWidth 32 <<< 6, 0⟩
    else
      ⟨e.rvid.setWidth 32 <<< 20, e.mcGip, r2 ||| e.mcPortmaskIndex.setWidth 32 <<< 6, 0⟩

/-! ## RTL930x -/

/-- The fields that all entries of the RTL930x have. -/
def fillMac930x (r : L2Row) (e : L2Entry) : L2Entry :=
  { e with
    valid := true
    isIpMc := false
    isIpv6Mc := false
    mac := ⟨(r.r0 >>> 24).setWidth 8, (r.r0 >>> 16).setWidth 8, (r.r0 >>> 8).setWidth 8,
      r.r0.setWidth 8, (r.r1 >>> 24).setWidth 8, (r.r1 >>> 16).setWidth 8⟩
    nextHop := r.r2.getLsbD 12
    rvid := (r.r1 &&& low 12).setWidth 16 }

/-- The unicast branch of `otto_l2_930x_fill_entry`. The ten bits of the port field go through
the `u8` of `port`. -/
def fillUnicast930x (r : L2Row) (e : L2Entry) : L2Entry :=
  let port := (bits r.r2 20 10).setWidth 8
  let isTrunk := r.r2.getLsbD 30
  { e with
    type := .unicast
    isStatic := r.r2.getLsbD 14
    isTrunk := isTrunk
    port := if isTrunk then port else port &&& 0x3f
    stackDev := if isTrunk then (port >>> 9) &&& 1 else (port >>> 6) &&& 0xf
    trunk := if isTrunk then port &&& 0x3f else e.trunk
    blockDa := r.r2.getLsbD 15
    blockSa := r.r2.getLsbD 16
    suspended := r.r2.getLsbD 13
    age := bits r.r2 17 3
    nhRouteId := if e.nextHop then (r.r2 &&& low 11).setWidth 16 else 0
    vid := if e.nextHop then 0 else (r.r2 &&& low 12).setWidth 16 }

/-- `otto_l2_930x_fill_entry` -/
def fillEntry930x (r : L2Row) (e : L2Entry) : L2Entry :=
  if !r.r2.getLsbD 31 then { e with valid := false }
  else
    let e := fillMac930x r e
    if !e.mac.isMulticast then fillUnicast930x r e
    else { e with type := .multicast, mcPortmaskIndex := (bits r.r2 16 10).setWidth 16 }

/-- `otto_l2_930x_fill_row`. The relay VID goes into the rows of unicast entries, and the row
of a trunk entry holds its port. -/
def fillRow930x (e : L2Entry) : L2Row :=
  if !e.valid then .zero
  else
    let r0 := e.mac.m0.setWidth 32 <<< 24 ||| e.mac.m1.setWidth 32 <<< 16 |||
      e.mac.m2.setWidth 32 <<< 8 ||| e.mac.m3.setWidth 32
    let r1 := e.mac.m4.setWidth 32 <<< 24 ||| e.mac.m5.setWidth 32 <<< 16
    let r2 := flag 31 true ||| flag 12 e.nextHop
    if e.type = .unicast then
      let port :=
        if e.isTrunk then e.stackDev.setWidth 32 <<< 9 ||| (e.port.setWidth 32 &&& low 6)
        else (e.stackDev.setWidth 32 &&& low 4) <<< 6 ||| (e.port.setWidth 32 &&& low 6)
      ⟨r0, r1 ||| (e.rvid.setWidth 32 &&& low 12),
        r2 ||| flag 14 e.isStatic ||| flag 30 e.isTrunk ||| port <<< 20 ||| flag 15 e.blockDa |||
          flag 16 e.blockSa ||| flag 13 e.suspended ||| (e.age &&& low 3) <<< 17 |||
          (if e.nextHop then e.nhRouteId.setWidth 32 &&& low 11
           else e.vid.setWidth 32 &&& low 12), 0⟩
    else
      ⟨r0, r1,
        r2 ||| (e.mcPortmaskIndex.setWidth 32 &&& low 10) <<< 16 |||
          (e.mcMacIndex.setWidth 32 &&& low 11), 0⟩

/-! ## RTL931x -/

/-- The fields that all entries of the RTL931x have. -/
def fillMac931x (r : L2Row) (e : L2Entry) : L2Entry :=
  { e with
    valid := true
    isIpMc := false
    isIpv6Mc := false
    mac := ⟨(r.r0 >>> 8).setWidth 8, r.r0.setWidth 8, (r.r1 >>> 24).setWidth 8,
      (r.r1 >>> 16).setWidth 8, (r.r1 >>> 8).setWidth 8, r.r1.setWidth 8⟩
    isOpenFlow := r.r0.getLsbD 30
    isPeForward := r.r0.getLsbD 29
    nextHop := r.r2.getLsbD 30
    rvid := (bits r.r0 16 12).setWidth 16 }

/-- The unicast branch of `otto_l2_931x_fill_entry`; the relay VID is the key, and no other VID
is kept. -/
def fillUnicast931x (r : L2Row) (e : L2Entry) : L2Entry :=
  let port := (bits r.r2 19 10).setWidth 8
  let isTrunk := r.r2.getLsbD 29
  let isL2Tunnel := r.r2.getLsbD 31
  { e with
    type := .unicast
    isL2Tunnel := isL2Tunnel
    isStatic := r.r2.getLsbD 13
    isTrunk := isTrunk
    port := if isTrunk then port else port &&& 0x3f
    stackDev := if isTrunk then e.stackDev else (port >>> 6) &&& 0xf
    trunk := if isTrunk then port &&& 0xff else e.trunk
    blockDa := r.r2.getLsbD 14
    blockSa := r.r2.getLsbD 15
    suspended := r.r2.getLsbD 12
    age := bits r.r2 16 3
    vid := (bits r.r0 16 12).setWidth 16
    l2TunnelId := if isL2Tunnel then (r.r2 &&& low 8) <<< 4 ||| r.r3 >>> 28 else e.l2TunnelId }

/-- `otto_l2_931x_fill_entry` -/
def fillEntry931x (r : L2Row) (e : L2Entry) : L2Entry :=
  if !r.r0.getLsbD 31 then { e with valid := false }
  else
    let e := fillMac931x r e
    if !e.mac.isMulticast then fillUnicast931x r e
    else
      { e with type := .multicast, isLocalForward := r.r2.getLsbD 31,
               isRemoteForward := r.r2.getLsbD 17,
               mcPortmaskIndex := (bits r.r2 18 12).setWidth 16,
               l2TunnelListId := bits r.r2 4 13 }

/-- `otto_l2_931x_fill_row` -/
def fillRow931x (e : L2Entry) : L2Row :=
  if !e.valid then .zero
  else
    let r0 := flag 31 true ||| e.mac.m0.setWidth 32 <<< 8 ||| e.mac.m1.setWidth 32 |||
      flag 30 e.isOpenFlow ||| flag 29 e.isPeForward ||| flag 28 e.hashMsb |||
      (e.rvid.setWidth 32 &&& low 12) <<< 16
    let r1 := e.mac.m2.setWidth 32 <<< 24 ||| e.mac.m3.setWidth 32 <<< 16 |||
      e.mac.m4.setWidth 32 <<< 8 ||| e.mac.m5.setWidth 32
    let r2 := flag 30 e.nextHop
    if e.type = .unicast then
      let port :=
        if e.isTrunk then e.trunk.setWidth 32 &&& low 8
        else (e.port.setWidth 32 &&& low 6) ||| (e.stackDev.setWidth 32 &&& low 4) <<< 6
      ⟨r0, r1,
        r2 ||| flag 31 e.isL2Tunnel ||| flag 13 e.isStatic ||| flag 29 e.isTrunk |||
          (port &&& low 10) <<< 19 ||| flag 14 e.blockDa ||| flag 15 e.blockSa |||
          flag 12 e.suspended ||| (e.age &&& low 3) <<< 16 |||
          (if e.isL2Tunnel then (e.l2TunnelId >>> 4) &&& low 8 else 0),
        if e.isL2Tunnel then (e.l2TunnelId &&& low 4) <<< 28 else 0⟩
    else
      ⟨r0, r1, r2 ||| (e.mcPortmaskIndex.setWidth 32 &&& low 12) <<< 18, 0⟩

/-! ## The codec of a family -/

/-- `fill_entry` of the family -/
def fillEntry : Family → L2Row → L2Entry → L2Entry
  | .rtl838x => fillEntry838x
  | .rtl839x => fillEntry839x
  | .rtl930x => fillEntry930x
  | .rtl931x => fillEntry931x

/-- `fill_row` of the family -/
def fillRow : Family → L2Entry → L2Row
  | .rtl838x => fillRow838x
  | .rtl839x => fillRow839x
  | .rtl930x => fillRow930x
  | .rtl931x => fillRow931x

/-! ## Callers that read a row and write it again -/

/-- `struct rtldsa_config`, `port_ignore` -/
def Family.portIgnore : Family → BitVec 8
  | .rtl838x => 0x1f
  | .rtl839x => 0x3f
  | .rtl930x => 0x3f
  | .rtl931x => 0x3f

/-- What `otto_l2_nexthop_add` makes of the entry that it found. -/
def addNexthop (dmacId : BitVec 16) (e : L2Entry) : L2Entry :=
  if e.nextHop then { e with nhRouteId := dmacId }
  else { e with nextHop := true, nhRouteId := dmacId, nhVlanTarget := false }

/-- What `otto_l2_uc_release_row` makes of the entry when nothing forwards through it. -/
def releaseRow (fdbRef : Bool) (e : L2Entry) : L2Entry :=
  { e with valid := e.valid && !(e.isStatic && !fdbRef), nextHop := false, vid := e.rvid }

/-- What `rtldsa_port_fdb_del` makes of the entry; a next hop that routes refer to is kept. -/
def delFdb (f : Family) (referred : Bool) (e : L2Entry) : L2Entry :=
  if referred && e.nextHop then { e with port := f.portIgnore, age := 0 }
  else { e with valid := false }

end Lede.Otto
