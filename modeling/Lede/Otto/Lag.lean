/-
Lede.Otto.Lag — link aggregation groups of the Otto switches (`lag.c`).

The driver keeps the members of each group, their union, the port that stands for each
group and the set of all other members. `lag_set_port_members` stores the members of one
group in the first of these and in the registers of the family; the callers keep the rest.
An RTL93xx group has eight places in the LAG table, and a larger group is refused.

A table access is not refused. `lag_tx_enabled` of the ports belongs to the DSA core, which
says with each call which ports have it.
-/
import Lede.Otto.Family
import Mathlib.Logic.Function.Basic

namespace Lede.Otto

/-- `enum netdev_lag_hash`, as far as the driver tells the types apart. -/
inductive LagHash where
  | l2
  | l23
  | l34
  | other
deriving DecidableEq

/-- `struct netdev_lag_upper_info`; `txHash` is `tx_type == NETDEV_LAG_TX_TYPE_HASH`. -/
structure LagUpperInfo where
  txHash : Bool
  hashType : LagHash
deriving DecidableEq

/-- `struct rtldsa_93xx_lag_entry`, a row of the LAG table. -/
structure LagEntry where
  trkDev : List Nat
  trkPort : List Nat
  sepKwnMcEn : Bool
  sepFloodEn : Bool
  ip6HashMaskIdx : Nat
  ip4HashMaskIdx : Nat
  l2HashMaskIdx : Nat
  numTxCandi : Nat
deriving DecidableEq

/-- A trunk number in a register, and its valid bit. -/
structure TrunkId where
  valid : Bool
  id : Nat
deriving DecidableEq

/-- The registers and tables that hold the groups. -/
structure LagHw where
  trkMbrCtr : Nat → PortMask
  hashIdxCtrl : Nat → Nat
  hashCtrl : Nat → List Nat
  lagTable : Nat → LagEntry
  srcTrkMap : Nat → TrunkId
  trkIdCtrl : Nat → TrunkId
  localPortTrkMap : Nat → TrunkId

/-- The part of `struct otto_dsa_priv` that is about groups. -/
structure LagState where
  lagsPortMembers : Nat → PortMask
  lagPrimary : Nat → Int
  lagNonPrimary : PortMask
  lagmembers : PortMask
  hw : LagHw

/-! ## Registers -/

/-- The bits `TRUNK_DISTRIBUTION_ALGO_*` that are set for a hash type. -/
def algomask : LagHash → List Nat
  | .l2 => [2, 1]
  | .l23 => [2, 1, 3, 4]
  | .l34 => [5, 6, 3, 4]
  | .other => [0, 1, 2, 3, 4, 5, 6]

/-- The hash slot that a hash type is put in. -/
def algoidx : LagHash → Nat
  | .l2 => 0
  | .l23 => 1
  | .l34 => 2
  | .other => 0

/-- `otto_lag_83xx_setup_algomask`; the RTL838x has two slots. -/
def setupAlgomask (f : Family) (hw : LagHw) (group : Nat) (hash : LagHash) : LagHw :=
  let idx := if f = .rtl838x then algoidx hash % 2 else algoidx hash
  { hw with hashIdxCtrl := Function.update hw.hashIdxCtrl group idx,
            hashCtrl := Function.update hw.hashCtrl idx (algomask hash) }

/-- `group_ports` of `otto_lag_93xx_set_group2ports`: the members that transmit, in eight places. -/
def groupPorts (tx : Nat → Bool) (members : PortMask) : List Nat :=
  let l := (setBits members).filter tx
  l ++ List.replicate (8 - l.length) 0x3f

/-- The hash slot of an RTL93xx group; no other hash type has one. -/
def hashMaskIdx : LagHash → Option Nat
  | .l2 => some 0
  | .l23 => some 1
  | .l34 => none
  | .other => none

/-- The row that `otto_lag_93xx_set_group2ports` makes from the one it read. -/
def groupEntry (tx : Nat → Bool) (members : PortMask) (e : LagEntry) : LagEntry :=
  { e with trkDev := List.replicate 8 0, trkPort := groupPorts tx members,
           numTxCandi := ((setBits members).filter tx).length }

/-- `otto_lag_93xx_set_group2ports` -/
def setGroup2ports (tx : Nat → Bool) (members : PortMask) (hw : LagHw) (group : Nat)
    (info : Option LagUpperInfo) : Int × LagHw :=
  let e := groupEntry tx members (hw.lagTable group)
  if 8 < (setBits members).length then (-ENOSPC, hw)
  else
    match info with
    | none => (0, { hw with lagTable := Function.update hw.lagTable group e })
    | some info =>
      match hashMaskIdx info.hashType with
      | none => (-EOPNOTSUPP, hw)
      | some idx =>
        let e := { e with l2HashMaskIdx := idx, ip4HashMaskIdx := idx, ip6HashMaskIdx := idx }
        (0, { hw with lagTable := Function.update hw.lagTable group e })

/-- A trunk map, with the entries of some ports written for a group. -/
def writeTrunkIds (map : Nat → TrunkId) (group : Nat) (members : PortMask) (ports : List Nat) :
    Nat → TrunkId :=
  fun port => if port ∈ ports then ⟨decide (port ∈ members), group⟩ else map port

/-- `otto_lag_93xx_set_port_members` -/
def setPortMembers93xx (tx : Nat → Bool) (s : LagState) (group : Nat) (members : PortMask)
    (info : Option LagUpperInfo) : Int × LagState :=
  let affected := setBits (s.lagsPortMembers group ∪ members)
  let s := { s with lagsPortMembers := Function.update s.lagsPortMembers group members }
  let r := setGroup2ports tx members s.hw group info
  if r.1 ≠ 0 then (r.1, { s with hw := r.2 })
  else
    (0, { s with hw := { r.2 with
      srcTrkMap := writeTrunkIds r.2.srcTrkMap group members affected,
      trkIdCtrl := Function.update r.2.trkIdCtrl group ⟨decide (members ≠ ∅), group⟩,
      trkMbrCtr := Function.update r.2.trkMbrCtr group members,
      localPortTrkMap := writeTrunkIds r.2.localPortTrkMap group members affected } })

/-- `otto_lag_838x_set_port_members`, `otto_lag_839x_set_port_members` -/
def setPortMembers83xx (s : LagState) (group : Nat) (members : PortMask) : Int × LagState :=
  (0, { s with lagsPortMembers := Function.update s.lagsPortMembers group members,
               hw := { s.hw with trkMbrCtr := Function.update s.hw.trkMbrCtr group members } })

/-- `priv->r->lag_set_port_members` -/
def lagSetPortMembers (f : Family) (tx : Nat → Bool) (s : LagState) (group : Nat)
    (members : PortMask) (info : Option LagUpperInfo) : Int × LagState :=
  if f.is93xx then setPortMembers93xx tx s group members info
  else setPortMembers83xx s group members

/-! ## Calls of the DSA core -/

def maxLags : Nat := 16

/-- `otto_lag_find_group_from_port` -/
def lagFindGroupFromPort (s : LagState) (port : Nat) : Option Nat :=
  if port ∉ s.lagmembers then none
  else (List.range maxLags).find? (fun group => port ∈ s.lagsPortMembers group)

/-- `otto_lag_83xx_can_offload` -/
def lagCanOffload (f : Family) (id : Nat) (info : LagUpperInfo) : Bool :=
  decide (1 ≤ id ∧ id ≤ f.numLagIds) && info.txHash &&
    (info.hashType == .l2 || info.hashType == .l23)

/-- The port is in a group already. -/
def lagTaken (f : Family) (s : LagState) (port : Nat) : Bool :=
  (List.range f.numLagIds).any (fun i => port ∈ s.lagsPortMembers i)

/-- `otto_lag_add` -/
def lagAdd (f : Family) (tx : Nat → Bool) (s : LagState) (group port : Nat)
    (info : LagUpperInfo) : Int × LagState :=
  if lagTaken f s port then (-ENOSPC, s)
  else
    let s := if f.is93xx then s else { s with hw := setupAlgomask f s.hw group info.hashType }
    lagSetPortMembers f tx s group (insert port (s.lagsPortMembers group)) (some info)

/-- `otto_lag_del` -/
def lagDel (f : Family) (tx : Nat → Bool) (s : LagState) (group port : Nat) : Int × LagState :=
  if f.numLagIds ≤ group then (-EINVAL, s)
  else if port ∉ s.lagsPortMembers group then (-ENOSPC, s)
  else lagSetPortMembers f tx s group ((s.lagsPortMembers group).erase port) none

/-- `otto_lag_port_join` -/
def lagPortJoin (f : Family) (tx : Nat → Bool) (s : LagState) (port id : Nat)
    (info : LagUpperInfo) : Int × LagState :=
  if !lagCanOffload f id info then (-EOPNOTSUPP, s)
  else if f.cpuPort ≤ port then (-EINVAL, s)
  else
    let group := id - 1
    let r := lagAdd f tx s group port info
    if r.1 ≠ 0 then (-EINVAL, r.2)
    else
      let s := r.2
      let s := if s.lagPrimary group = -1
        then { s with lagPrimary := Function.update s.lagPrimary group port }
        else { s with lagNonPrimary := insert port s.lagNonPrimary }
      (0, { s with lagmembers := insert port s.lagmembers })

/-- The end of `otto_lag_port_leave`: a group whose primary left gets its first member. -/
def electPrimary (s : LagState) (group port : Nat) : LagState :=
  if s.lagPrimary group = port then
    match ffs64 (s.lagsPortMembers group) with
    | some p =>
      { s with lagPrimary := Function.update s.lagPrimary group p,
               lagNonPrimary := s.lagNonPrimary.erase p }
    | none => { s with lagPrimary := Function.update s.lagPrimary group (-1) }
  else s

/-- `otto_lag_port_leave`. For the number 0 the group is -1, which `otto_lag_del` compares as
unsigned. -/
def lagPortLeave (f : Family) (tx : Nat → Bool) (s : LagState) (port id : Nat) : Int × LagState :=
  if f.cpuPort ≤ port then (-EINVAL, s)
  else if id = 0 then (-EINVAL, s)
  else
    let group := id - 1
    let r := lagDel f tx s group port
    if r.1 ≠ 0 then r
    else
      let s := r.2
      let s := { s with lagmembers := s.lagmembers.erase port,
                        lagNonPrimary := s.lagNonPrimary.erase port }
      (0, electPrimary s group port)

/-- `otto_lag_port_change` -/
def lagPortChange (f : Family) (tx : Nat → Bool) (s : LagState) (port : Nat) : Int × LagState :=
  match lagFindGroupFromPort s port with
  | none => (-ENOENT, s)
  | some group => lagSetPortMembers f tx s group (s.lagsPortMembers group) none

/-- A call of the DSA core, with the ports that have `lag_tx_enabled` by then. -/
inductive LagCall where
  | join (tx : Nat → Bool) (port id : Nat) (info : LagUpperInfo)
  | leave (tx : Nat → Bool) (port id : Nat)
  | change (tx : Nat → Bool) (port : Nat)

def lagStep (f : Family) (s : LagState) : LagCall → Int × LagState
  | .join tx port id info => lagPortJoin f tx s port id info
  | .leave tx port id => lagPortLeave f tx s port id
  | .change tx port => lagPortChange f tx s port

def lagRun (f : Family) (s : LagState) (calls : List LagCall) : LagState :=
  calls.foldl (fun s c => (lagStep f s c).2) s

/-- The state at probe: no group has members. -/
def lagInit (hw : LagHw) : LagState := ⟨fun _ => ∅, fun _ => -1, ∅, ∅, hw⟩

end Lede.Otto
