/-
Lede.Otto.L2Table — the L2 hash table, its CAM and what keeps a row alive (`l2.c`, `dsa.c`).

An address and its relay VID make a seed, the seed makes a key, and the key names a bucket of
four rows, on the RTL93xx two of them. `findHashEntry` looks for the seed in the rows of the
bucket and, when it may, settles for a free one; `findCamEntry` does the same in the CAM.

`fdbAdd` and `fdbDel` are the calls of the bridge, `nexthopAdd` and `nexthopDel` those of the
routes. They count in `ucMap` which rows the bridge has written and how many next hops forward
through each. The register that selects the hash is read on each call; nothing here writes it.
-/
import Lede.Otto.L2Entry
import Mathlib.Logic.Function.Basic

namespace Lede.Otto

open Lede.Lib.BitField

def ESTALE : Int := 116

/-! ## Seeds and keys -/

/-- `otto_l2_838x_hash_seed`, `otto_l2_839x_hash_seed`, … -/
def hashSeed (f : Family) (mac : BitVec 64) (vid : BitVec 16) : BitVec 64 :=
  match f with
  | .rtl838x => mac <<< 12 ||| vid.setWidth 64
  | .rtl839x => vid.setWidth 64 <<< 48 ||| mac
  | .rtl930x => vid.setWidth 64 <<< 48 ||| mac
  | .rtl931x => vid.setWidth 64 <<< 48 ||| mac

/-- `(u32)((seed >> p) & mask)` with a mask of `w` bits -/
def seedBits (seed : BitVec 64) (p w : Nat) : BitVec 32 := ((seed >>> p) &&& low w).setWidth 32

/-- `((h & low) << l) | ((h >> r) & high)`, a rotation of part of a seed -/
def swapBits (h : BitVec 32) (lw l r hw : Nat) : BitVec 32 :=
  (h &&& low lw) <<< l ||| (h >>> r) &&& low hw

/-- `otto_l2_838x_hash_key` -/
def hashKey838x (ctrl : BitVec 32) (seed : BitVec 64) : BitVec 32 :=
  if ctrl.getLsbD 0 then
    swapBits (seedBits seed 11 11) 5 6 5 6 ^^^ swapBits (seedBits seed 33 11) 6 5 6 5 ^^^
      swapBits (seedBits seed 44 11) 7 4 7 4 ^^^ seedBits seed 55 9 ^^^ seedBits seed 22 11 ^^^
      seedBits seed 0 11
  else
    seedBits seed 55 9 ^^^ seedBits seed 44 11 ^^^ seedBits seed 33 11 ^^^ seedBits seed 22 11 ^^^
      seedBits seed 11 11 ^^^ seedBits seed 0 11

/-- `otto_l2_839x_hash_key` -/
def hashKey839x (ctrl : BitVec 32) (seed : BitVec 64) : BitVec 32 :=
  if ctrl.getLsbD 0 then
    let h1 := seedBits seed 60 6 ^^^ seedBits seed 54 6 ^^^ seedBits seed 36 6 ^^^
      seedBits seed 30 6 ^^^ seedBits seed 12 6 ^^^ seedBits seed 6 6
    let h2 := seedBits seed 48 6 ^^^ seedBits seed 42 6 ^^^ seedBits seed 24 6 ^^^
      seedBits seed 18 6 ^^^ seedBits seed 0 6
    h1 <<< 6 ||| h2
  else
    (seed >>> 60).setWidth 32 ^^^ (seedBits seed 48 6 <<< 6 ||| seedBits seed 54 6) ^^^
      seedBits seed 36 12 ^^^ seedBits seed 24 12 ^^^ seedBits seed 12 12 ^^^ seedBits seed 0 12

/-- `k0` and `k1` of `otto_l2_930x_hash_key` -/
def hashes930x (seed : BitVec 64) : BitVec 32 × BitVec 32 :=
  (seedBits seed 55 5 ^^^ seedBits seed 44 11 ^^^ seedBits seed 33 11 ^^^ seedBits seed 22 11 ^^^
      seedBits seed 11 11 ^^^ seedBits seed 0 11,
    seedBits seed 55 5 ^^^ seedBits seed 44 11 ^^^ swapBits (seedBits seed 33 11) 6 5 6 6 ^^^
      seedBits seed 22 11 ^^^ swapBits (seedBits seed 11 11) 5 6 5 6 ^^^ seedBits seed 0 11)

/-- `k0` and `k1` of `otto_l2_931x_hash_key` -/
def hashes931x (seed : BitVec 64) : BitVec 32 × BitVec 32 :=
  (seedBits seed 0 12 ^^^ seedBits seed 12 12 ^^^ seedBits seed 24 12 ^^^ seedBits seed 36 12 ^^^
      swapBits (seedBits seed 48 12) 3 9 3 9,
    swapBits (seedBits seed 0 12) 9 3 9 3 ^^^ swapBits (seedBits seed 12 12) 6 6 6 6 ^^^
      seedBits seed 24 12 ^^^ swapBits (seedBits seed 36 12) 6 6 6 6 ^^^ seedBits seed 48 12)

/-- The keys of both blocks, the second behind the first one's rows. -/
def bothKeys (ctrl : BitVec 32) (offset : BitVec 32) (k : BitVec 32 × BitVec 32) : BitVec 32 :=
  (if ctrl.getLsbD 0 then k.2 else k.1) |||
    ((if ctrl.getLsbD 1 then k.2 else k.1) + offset) <<< 16

/-- `l2_hash_key` of the family; `ctrl` is the register that selects the algorithm. -/
def hashKey (f : Family) (ctrl : BitVec 32) (seed : BitVec 64) : BitVec 32 :=
  match f with
  | .rtl838x => hashKey838x ctrl seed
  | .rtl839x => hashKey839x ctrl seed
  | .rtl930x => bothKeys ctrl 2048 (hashes930x seed)
  | .rtl931x => bothKeys ctrl 4096 (hashes931x seed)

/-- `struct rtldsa_config`, `l2_bucket_size` -/
def Family.bucketSize : Family → Nat
  | .rtl838x => 4
  | .rtl839x => 4
  | .rtl930x => 8
  | .rtl931x => 8

/-- `struct rtldsa_config`, `fib_entries`: the rows that `ucMap` has an entry for -/
def Family.fibEntries : Family → Nat
  | .rtl838x => 8192
  | .rtl839x => 16384
  | .rtl930x => 16384
  | .rtl931x => 16384

/-- `otto_table_rows(priv->r->l2_cam_tbl)` -/
def Family.camRows : Family → Nat
  | .rtl838x => 64
  | .rtl839x => 64
  | .rtl930x => 64
  | .rtl931x => 128

/-- `otto_l2_hash_index` -/
def hashIndex (key : BitVec 32) (slot : Nat) : Nat :=
  if 3 < slot then (((key >>> 14) &&& low 16) ||| BitVec.ofNat 32 (slot % 4)).toNat
  else ((key <<< 2 ||| BitVec.ofNat 32 slot) &&& low 16).toNat

/-- The row that `read_l2_entry_using_hash` of the family reads. -/
def readIndex (f : Family) (key : BitVec 32) (pos : Nat) : Nat :=
  if f.is93xx then
    if 4 ≤ pos then ((key >>> 16) <<< 2 ||| BitVec.ofNat 32 (pos - 4)).toNat
    else ((key &&& low 16) <<< 2 ||| BitVec.ofNat 32 pos).toNat
  else (key <<< 2 ||| BitVec.ofNat 32 pos).toNat

/-! ## The tables -/

/-- `struct rtldsa_l2_uc` -/
structure L2Uc where
  fdbRef : Bool := false
  l3Refcount : Nat := 0
deriving DecidableEq, Repr

/-- The hash table, the CAM, the references, and the port masks of the multicast groups with
the groups in use. -/
structure L2State where
  rows : Nat → L2Row
  cam : Nat → L2Row
  ucMap : Nat → L2Uc
  mcGroupBm : Nat → Bool
  mcPmask : Nat → PortMask

/-- `RTLDSA_L2_L3_REFCOUNT_MAX` -/
def refcountMax : Nat := 0x7fff

/-- The value of a row that is compared with a seed: what `read_l2_entry_using_hash` returns
for the words `r` that were read into `e`. -/
def hashValue (f : Family) (r : L2Row) (e : L2Entry) : BitVec 64 :=
  if !e.valid then 0
  else
    match f with
    | .rtl838x => r.r1.setWidth 64 <<< 32 ||| r.r2.setWidth 64
    | .rtl839x => hashSeed .rtl839x (etherAddrToU64 e.mac) e.rvid
    | .rtl930x => hashSeed .rtl930x (etherAddrToU64 e.mac) e.rvid
    | .rtl931x => hashSeed .rtl931x (etherAddrToU64 e.mac) e.rvid

/-- What `read_cam` returns; the RTL93xx readers put the address first. -/
def camValue (f : Family) (r : L2Row) (e : L2Entry) : BitVec 64 :=
  if !e.valid then 0
  else
    match f with
    | .rtl838x => r.r1.setWidth 64 <<< 32 ||| r.r2.setWidth 64
    | .rtl839x => hashSeed .rtl839x (etherAddrToU64 e.mac) e.rvid
    | .rtl930x =>
      r.r0.setWidth 64 <<< 28 ||| ((r.r1 &&& 0xffff0000) >>> 4).setWidth 64 ||| e.vid.setWidth 64
    | .rtl931x =>
      let mac : BitVec 64 := (r.r0 &&& 0xffff).setWidth 64 <<< 32 ||| r.r1.setWidth 64
      mac <<< 12 ||| e.vid.setWidth 64

/-- The part of a value that a seed is compared with. -/
def seedOf (v : BitVec 64) : BitVec 64 := v &&& low 60

/-- The loop of `otto_l2_find_hash_entry` over the positions that are left: the position of the
seed, or the first free one, and the entry that was read last. -/
def findHashLoop (f : Family) (rows : Nat → L2Row) (key : BitVec 32) (seed : BitVec 64) :
    List Nat → Option Nat → L2Entry → Option Nat × Option Nat × L2Entry
  | [], freeSlot, e => (none, freeSlot, e)
  | i :: is, freeSlot, e =>
    let r := rows (readIndex f key i)
    let e := fillEntry f r e
    if !e.valid then findHashLoop f rows key seed is (freeSlot.or (some i)) e
    else if seedOf (hashValue f r e) = seed then (some i, freeSlot, e)
    else findHashLoop f rows key seed is freeSlot e

/-- `otto_l2_find_hash_entry`; `none` is its `-1`. -/
def findHashEntry (f : Family) (ctrl : BitVec 32) (s : L2State) (seed : BitVec 64)
    (mustExist : Bool) (e : L2Entry) : Option Nat × L2Entry :=
  let key := hashKey f ctrl seed
  match findHashLoop f s.rows key seed (List.range f.bucketSize) none e with
  | (some i, _, e) => (some (hashIndex key i), e)
  | (none, none, e) => (none, e)
  | (none, some i, e) => if mustExist then (none, e) else (some (hashIndex key i), .zero)

/-- The loop of `otto_l2_find_cam_entry`, which ends at the first free row when that will do. -/
def findCamLoop (f : Family) (cam : Nat → L2Row) (seed : BitVec 64) (mustExist : Bool) :
    List Nat → L2Entry → Option Nat × L2Entry
  | [], e => (none, e)
  | i :: is, e =>
    let e := fillEntry f (cam i) e
    if !mustExist && !e.valid then (some i, e)
    else if seedOf (camValue f (cam i) e) = seed then (some i, e)
    else findCamLoop f cam seed mustExist is e

/-- `otto_l2_find_cam_entry` -/
def findCamEntry (f : Family) (s : L2State) (seed : BitVec 64) (mustExist : Bool) (e : L2Entry) :
    Option Nat × L2Entry :=
  findCamLoop f s.cam seed mustExist (List.range f.camRows) e

/-- The bit that the RTL931x keeps of the hash; the other families have none. -/
def setHashMsb (f : Family) (ctrl : BitVec 32) (idx : Nat) (e : L2Entry) : L2Entry :=
  match f with
  | .rtl931x =>
    let algo := if idx < 0x4000 then ctrl.getLsbD 0 else ctrl.getLsbD 1
    { e with hashMsb := if algo then e.rvid.getLsbD 11 else e.rvid.getLsbD 2 }
  | .rtl838x => e
  | .rtl839x => e
  | .rtl930x => e

/-- `write_l2_entry_using_hash(priv, idx >> 2, idx & 0x3, e)` -/
def writeRow (f : Family) (ctrl : BitVec 32) (s : L2State) (idx : Nat) (e : L2Entry) : L2State :=
  { s with rows := Function.update s.rows idx (fillRow f (setHashMsb f ctrl idx e)) }

/-- `write_cam` -/
def writeCam (f : Family) (s : L2State) (idx : Nat) (e : L2Entry) : L2State :=
  { s with cam := Function.update s.cam idx (fillRow f e) }

/-- A change of the references of a row; a row outside the map has none. -/
def setUc (f : Family) (s : L2State) (idx : Nat) (g : L2Uc → L2Uc) : L2State :=
  if idx < f.fibEntries then { s with ucMap := Function.update s.ucMap idx (g (s.ucMap idx)) }
  else s

/-- The references of a row as `otto_l2_uc_lookup` gives them. -/
def ucLookup (f : Family) (s : L2State) (idx : Nat) : Option L2Uc :=
  if idx < f.fibEntries then some (s.ucMap idx) else none

/-! ## Next hops -/

/-- `struct otto_l3_nexthop`, as far as the L2 table reads and writes it. -/
structure Nexthop where
  mac : BitVec 64 := 0
  rvid : BitVec 16 := 0
  port : BitVec 8 := 0
  devId : BitVec 8 := 0
  dmacId : BitVec 16 := 0
  l2Id : Nat := 0
  l2Seed : BitVec 64 := 0
  l2Installed : Bool := false
deriving DecidableEq, Repr

/-- `otto_l2_uc_get`; the count stays at its ceiling. -/
def ucGet (f : Family) (s : L2State) (idx : Nat) : L2State :=
  setUc f s idx fun m =>
    if m.l3Refcount = refcountMax then m else { m with l3Refcount := m.l3Refcount + 1 }

/-- `otto_l2_uc_put` -/
def ucPut (f : Family) (s : L2State) (idx : Nat) : L2State :=
  setUc f s idx fun m =>
    if m.l3Refcount = 0 ∨ m.l3Refcount = refcountMax then m
    else { m with l3Refcount := m.l3Refcount - 1 }

/-- `otto_l2_uc_release_row` of a row that was just read -/
def ucReleaseRow (f : Family) (ctrl : BitVec 32) (s : L2State) (idx : Nat) (e : L2Entry) :
    L2State :=
  match ucLookup f s idx with
  | some m => if m.l3Refcount ≠ 0 then s else writeRow f ctrl s idx (releaseRow m.fdbRef e)
  | none => writeRow f ctrl s idx (releaseRow false e)

/-- The end of `otto_l2_uc_put_row` and of `otto_l2_nexthop_del`: one reference goes, and with
the last one the row. -/
def dropRef (f : Family) (ctrl : BitVec 32) (s : L2State) (idx : Nat) (e : L2Entry) : L2State :=
  ucReleaseRow f ctrl (ucPut f s idx) idx e

/-- `otto_l2_uc_put_row` -/
def ucPutRow (f : Family) (ctrl : BitVec 32) (s : L2State) (nh : Nexthop) : L2State :=
  let r := findHashEntry f ctrl s nh.l2Seed true .zero
  if r.1 ≠ some nh.l2Id then s
  else if !r.2.nextHop then s
  else dropRef f ctrl s nh.l2Id r.2

/-- The row that `otto_l2_nexthop_add` leaves: it is written unless it names the DMAC entry
already. -/
def claimRow (f : Family) (ctrl : BitVec 32) (s : L2State) (idx : Nat) (e : L2Entry)
    (dmacId : BitVec 16) : L2State :=
  if e.nextHop && e.nhRouteId == dmacId then s
  else writeRow f ctrl s idx (addNexthop dmacId e)

/-- `otto_l2_nexthop_add` -/
def nexthopAdd (f : Family) (ctrl : BitVec 32) (s : L2State) (nh : Nexthop) :
    Int × L2State × Nexthop :=
  let seed := hashSeed f nh.mac nh.rvid
  match findHashEntry f ctrl s seed false .zero with
  | (none, _) => (-1, s, nh)
  | (some idx, e) =>
    if !e.valid then
      (-ENOENT, if nh.l2Installed then ucPutRow f ctrl s nh else s,
        { nh with l2Installed := false })
    else
      let moved := nh.l2Id ≠ idx
      let s := if nh.l2Installed ∧ moved then ucPutRow f ctrl s nh else s
      let s := if ¬ nh.l2Installed ∨ moved then ucGet f s idx else s
      let nh := { nh with l2Id := idx, l2Seed := seed, port := e.port, rvid := e.rvid,
                          devId := e.stackDev }
      (0, claimRow f ctrl s idx e nh.dmacId, nh)

/-- `otto_l2_nexthop_del` -/
def nexthopDel (f : Family) (ctrl : BitVec 32) (s : L2State) (nh : Nexthop) : Int × L2State :=
  let r := findHashEntry f ctrl s nh.l2Seed true .zero
  if r.1 ≠ some nh.l2Id then (-ESTALE, s)
  else if !r.2.nextHop then (-ESTALE, s)
  else (0, dropRef f ctrl s nh.l2Id r.2)

/-! ## Calls of the bridge -/

/-- `u64_to_ether_addr` -/
def u64ToEtherAddr (mac : BitVec 64) : Mac :=
  ⟨(mac >>> 40).setWidth 8, (mac >>> 32).setWidth 8, (mac >>> 24).setWidth 8,
    (mac >>> 16).setWidth 8, (mac >>> 8).setWidth 8, mac.setWidth 8⟩

/-- `rtldsa_setup_l2_uc_entry` -/
def setupUcEntry (e : L2Entry) (port : BitVec 8) (vid : BitVec 16) (mac : BitVec 64) : L2Entry :=
  let nextHop := e.valid && e.nextHop
  { type := .unicast, valid := true, nextHop := nextHop,
    nhRouteId := if nextHop then e.nhRouteId else 0, age := 3, isStatic := true, port := port,
    rvid := vid, vid := vid, mac := u64ToEtherAddr mac }

/-- `rtldsa_setup_l2_mc_entry` -/
def setupMcEntry (vid : BitVec 16) (mac : BitVec 64) (mcGroup : Nat) : L2Entry :=
  { type := .multicast, valid := true, mcPortmaskIndex := BitVec.ofNat 16 mcGroup, rvid := vid,
    vid := vid, mac := u64ToEtherAddr mac }

/-- The port as the groups of link aggregation see it. -/
structure LagPort where
  nonPrimary : Bool := false
  group : Option Nat := none
deriving DecidableEq, Repr

/-- `prepare_lag_fdb` of the RTL93xx: it marks the entry that is then read over. -/
def prepareLagFdb (group : Nat) (e : L2Entry) : L2Entry :=
  { e with isTrunk := true, trunk := BitVec.ofNat 8 group }

/-- `rtldsa_port_fdb_add`; `e` is what its entry holds before it is filled. -/
def fdbAdd (f : Family) (ctrl : BitVec 32) (s : L2State) (lag : LagPort) (port : BitVec 8)
    (addr : Mac) (vid : BitVec 16) (e : L2Entry) : Int × L2State :=
  let mac := etherAddrToU64 addr
  let seed := hashSeed f mac vid
  let prepared := f.is93xx && lag.group.isSome
  let e := if prepared then prepareLagFdb (lag.group.getD 0) e else e
  if !prepared && lag.nonPrimary then (0, s)
  else
    match findHashEntry f ctrl s seed false e with
    | (some idx, e) =>
      let s := setUc f s idx fun m =>
        if !e.valid then { fdbRef := true } else { m with fdbRef := true }
      (0, writeRow f ctrl s idx (setupUcEntry e port vid mac))
    | (none, e) =>
      match findCamEntry f s seed false e with
      | (some idx, e) => (0, writeCam f s idx (setupUcEntry e port vid mac))
      | (none, _) => (-ENOTSUPP, s)

/-- `rtldsa_port_fdb_del` -/
def fdbDel (f : Family) (ctrl : BitVec 32) (s : L2State) (lag : LagPort) (addr : Mac)
    (vid : BitVec 16) (e : L2Entry) : Int × L2State :=
  let seed := hashSeed f (etherAddrToU64 addr) vid
  let e := if f.is93xx && lag.group.isSome then prepareLagFdb (lag.group.getD 0) e else e
  match findHashEntry f ctrl s seed true e with
  | (some idx, e) =>
    let s := setUc f s idx fun m => { m with fdbRef := false }
    let referred := (ucLookup f s idx).any fun m => m.l3Refcount ≠ 0
    (0, writeRow f ctrl s idx (delFdb f referred e))
  | (none, e) =>
    match findCamEntry f s seed true e with
    | (some idx, e) => (0, writeCam f s idx { e with valid := false })
    | (none, _) => (-ENOENT, s)

/-! ## Multicast groups -/

/-- `write_mcast_pmask`; the masks of the RTL838x and the RTL839x have 29 and 53 bits. -/
def writeMcastPmask (f : Family) (s : L2State) (idx : Nat) (ports : PortMask) : L2State :=
  let bits := match f with
    | .rtl838x => 29
    | .rtl839x => 53
    | .rtl930x => 29
    | .rtl931x => 57
  { s with mcPmask := Function.update s.mcPmask idx (ports.filter (· < bits)) }

/-- `MAX_MC_GROUPS` -/
def maxMcGroups : Nat := 512

/-- `rtldsa_mc_group_alloc` -/
def mcGroupAlloc (f : Family) (s : L2State) (port : Nat) : Option (Nat × L2State) :=
  match (List.range (maxMcGroups - 1)).find? fun g => !s.mcGroupBm g with
  | none => none
  | some g =>
    some (g, writeMcastPmask f { s with mcGroupBm := Function.update s.mcGroupBm g true } g {port})

/-- `rtldsa_mc_group_add_port` -/
def mcGroupAddPort (f : Family) (s : L2State) (group port : Nat) : L2State :=
  writeMcastPmask f s group (insert port (s.mcPmask group))

/-- `rtldsa_mc_group_del_port`, and whether the group is empty then -/
def mcGroupDelPort (f : Family) (s : L2State) (group port : Nat) : Bool × L2State :=
  let ports := (s.mcPmask group).erase port
  let s := writeMcastPmask f s group ports
  if ports = ∅ then (true, { s with mcGroupBm := Function.update s.mcGroupBm group false })
  else (false, s)

/-- `rtldsa_mac_is_unsnoop`: the addresses of 224.0.0.x and of ff02::1 -/
def macIsUnsnoop (addr : Mac) : Bool :=
  (addr.m0 == 0x01 && addr.m1 == 0x00 && addr.m2 == 0x5e && addr.m3 == 0x00 && addr.m4 == 0x00) ||
    addr == ⟨0x33, 0x33, 0x00, 0x00, 0x00, 0x01⟩

def EADDRNOTAVAIL : Int := 99

/-- The branches of `rtldsa_83xx_port_mdb_add` for the entry that was found; `write` stores a new
one. -/
def mdbAddAt (f : Family) (s : L2State) (port : Nat) (vid : BitVec 16) (mac : BitVec 64)
    (e : L2Entry) (write : L2State → L2Entry → L2State) : Int × L2State :=
  if e.valid then (0, mcGroupAddPort f s e.mcPortmaskIndex.toNat port)
  else
    match mcGroupAlloc f s port with
    | none => (-ENOTSUPP, s)
    | some (group, s) => (0, write s (setupMcEntry vid mac group))

/-- `rtldsa_83xx_port_mdb_add`, `rtldsa_93xx_port_mdb_add` -/
def mdbAdd (f : Family) (ctrl : BitVec 32) (s : L2State) (lag : LagPort) (port : Nat) (addr : Mac)
    (vid : BitVec 16) (e : L2Entry) : Int × L2State :=
  let mac := etherAddrToU64 addr
  let seed := hashSeed f mac vid
  if f.is93xx then (-EOPNOTSUPP, s)
  else if lag.nonPrimary then (-EINVAL, s)
  else if macIsUnsnoop addr then (-EADDRNOTAVAIL, s)
  else
    match findHashEntry f ctrl s seed false e with
    | (some idx, e) => mdbAddAt f s port vid mac e fun s e => writeRow f ctrl s idx e
    | (none, e) =>
      match findCamEntry f s seed false e with
      | (some idx, e) => mdbAddAt f s port vid mac e fun s e => writeCam f s idx e
      | (none, _) => (-ENOTSUPP, s)

/-- The branches of `rtldsa_port_mdb_del` for the entry that was found; `write` stores it. -/
def mdbDelAt (f : Family) (s : L2State) (port : Nat) (e : L2Entry)
    (write : L2State → L2Entry → L2State) : L2State :=
  let r := mcGroupDelPort f s e.mcPortmaskIndex.toNat port
  if r.1 then write r.2 { e with valid := false } else r.2

/-- `rtldsa_port_mdb_del`; an entry that is not there is no error. -/
def mdbDel (f : Family) (ctrl : BitVec 32) (s : L2State) (lag : LagPort) (port : Nat) (addr : Mac)
    (vid : BitVec 16) (e : L2Entry) : Int × L2State :=
  let seed := hashSeed f (etherAddrToU64 addr) vid
  if lag.nonPrimary then (0, s)
  else if macIsUnsnoop addr then (0, s)
  else
    match findHashEntry f ctrl s seed true e with
    | (some idx, e) => (0, mdbDelAt f s port e fun s e => writeRow f ctrl s idx e)
    | (none, e) =>
      match findCamEntry f s seed true e with
      | (some idx, e) => (0, mdbDelAt f s port e fun s e => writeCam f s idx e)
      | (none, _) => (0, s)

end Lede.Otto
