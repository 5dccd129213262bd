/-
Lede.Otto.Mst — the slots of multiple spanning trees (`stp.c`, `vlan.c`).

The switch has a table of port states, with a row for each of `n_mst` slots. Slot 0 is that of
the CIST. The others are handed out to MSTIs: a VLAN of an MSTI has its slot as FID, and the slot
counts its VLANs. A VLAN that loses its last member gives its slot back, and where no slot is
free a VLAN that has one of its own takes it along to another MSTI.

`dp->bridge` and `dp->stp_state` belong to the DSA core. Here ports do not change their bridges,
and the core notes a state after it has called the driver. The registers of the PVIDs are left
out.
-/
import Lede.Otto.Bridge
import Lede.Otto.VlanTable

namespace Lede.Otto

open Lede.Lib.BitField

/-- `MAX_VLANS` -/
def maxVlans : Nat := 4096

/-- `struct rtldsa_config`, `n_mst` -/
def Family.nMst : Family → Nat
  | .rtl838x => 64
  | .rtl839x => 256
  | .rtl930x => 64
  | .rtl931x => 128

/-! ## Port states -/

/-- `BR_STATE_DISABLED` and the states after it. -/
inductive BrState where
  | disabled
  | listening
  | learning
  | forwarding
  | blocking
deriving DecidableEq, Repr

/-- The two bits of a state in `otto_stp_port_slot_state_set`. -/
def BrState.hwState : BrState → BitVec 32
  | .disabled => 0
  | .blocking => 1
  | .listening => 1
  | .learning => 2
  | .forwarding => 3

/-- The words of a row of the state table, and the field before that of port 0. -/
def Family.stpRow : Family → Nat × Nat
  | .rtl838x => (2, 0)
  | .rtl839x => (4, 12)
  | .rtl930x => (2, 3)
  | .rtl931x => (4, 8)

/-- `idx` of `stp_get` and `stp_set` -/
def stpIdx (f : Family) (port : Nat) : Nat := f.stpRow.1 - 1 - (port + f.stpRow.2) / 16

/-- `bit` of `stp_get` and `stp_set` -/
def stpBit (f : Family) (port : Nat) : Nat := 2 * ((port + f.stpRow.2) % 16)

/-- `otto_stp_838x_get`, `otto_stp_839x_get`, `otto_stp_930x_get`, `otto_stp_931x_get` -/
def stpGet (f : Family) (buf : Nat → BitVec 32) (port : Nat) : BitVec 32 :=
  buf (stpIdx f port) >>> stpBit f port &&& 0x3

/-- `otto_stp_838x_set`, `otto_stp_839x_set`, `otto_stp_930x_set`, `otto_stp_931x_set` -/
def stpSet (f : Family) (buf : Nat → BitVec 32) (port : Nat) (state : BitVec 32) :
    Nat → BitVec 32 :=
  Function.update buf (stpIdx f port)
    (buf (stpIdx f port) &&& ~~~((0x3 : BitVec 32) <<< stpBit f port) ||| state <<< stpBit f port)

/-! ## State -/

/-- `struct rtldsa_mst` -/
structure MstSlot where
  msti : BitVec 16 := 0
  refcount : Nat := 0
deriving DecidableEq, Repr

/-- What the calls read and write: the VLAN table, `vlan_proto`, the PVIDs, `msts`, the table of
port states and `dp->stp_state`. -/
structure MstState where
  vlan : Nat → VlanRow
  vlanProto : Nat → Option VlanProto
  pvid : Nat → Nat
  msts : Nat → MstSlot
  mstTable : Nat → Nat → BitVec 32
  stpState : Nat → BrState

/-- A switch and the ports that are in a bridge. -/
structure MstSwitch (f : Family) extends SwitchPorts f where
  bridged : Nat → Bool

/-! ## Slots -/

section

variable (f : Family)

/-- `otto_stp_port_slot_state_set` -/
def portSlotStateSet (st : MstState) (port : Nat) (state : BrState) (slot : Nat) : MstState :=
  if f.cpuPort ≤ port then st
  else { st with
    mstTable := Function.update st.mstTable slot
      (stpSet f (st.mstTable slot) port state.hwState) }

variable {f} in
/-- `otto_stp_slot_init` -/
def slotInit (sw : MstSwitch f) (st : MstState) (slot : Nat) : MstState :=
  sw.userPorts.foldl (fun st port =>
    portSlotStateSet f st port (if sw.bridged port then .disabled else st.stpState port) slot) st

/-- The first of `msts` with the MSTI. -/
def firstSlot (st : MstState) (msti : BitVec 16) : Option Nat :=
  (List.range (f.nMst - 1)).find? fun i => (st.msts i).msti == msti

/-- `otto_stp_slot_find` -/
def slotFind (st : MstState) (msti : BitVec 16) : Except Int Nat :=
  if msti = 0 then .ok 0
  else if 4095 < msti.toNat then .error (-EINVAL)
  else match firstSlot f st msti with
    | some i => .ok (i + 1)
    | none => .error (-ENOENT)

variable {f} in
/-- `otto_stp_slot_get` -/
def slotGet (sw : MstSwitch f) (st : MstState) (msti : BitVec 16) : Except Int Nat × MstState :=
  match slotFind f st msti with
  | .ok 0 => (.ok 0, st)
  | .ok (index + 1) =>
    let slot := st.msts index
    (.ok (index + 1), { st with
      msts := Function.update st.msts index { slot with refcount := slot.refcount + 1 } })
  | .error e =>
    if e ≠ -ENOENT then (.error e, st)
    else match firstSlot f st 0 with
      | some i =>
        (.ok (i + 1), slotInit sw
          { st with msts := Function.update st.msts i { msti := msti, refcount := 1 } } (i + 1))
      | none => (.error (-ENOSPC), st)

/-- `otto_stp_slot_recycle` -/
def slotRecycle (st : MstState) (msti : BitVec 16) (oldMstSlot : Nat) :
    Except Int Nat × MstState :=
  if msti = 0 then (.ok 0, st)
  else if oldMstSlot = 0 then (.error (-ENOSPC), st)
  else if 4095 < msti.toNat then (.error (-EINVAL), st)
  else if f.nMst ≤ oldMstSlot then (.error (-EINVAL), st)
  else
    let index := oldMstSlot - 1
    let slot := st.msts index
    if slot.msti = 0 then (.error (-EINVAL), st)
    else if slot.refcount ≠ 1 then (.error (-ENOSPC), st)
    else (.ok oldMstSlot,
      { st with msts := Function.update st.msts index { slot with msti := msti } })

/-- `kref_put` with `otto_stp_slot_release` -/
def MstSlot.put (slot : MstSlot) : MstSlot :=
  { msti := if slot.refcount = 1 then 0 else slot.msti, refcount := slot.refcount - 1 }

/-- `otto_stp_slot_put`; no caller looks at what it returns. -/
def slotPut (st : MstState) (mstSlot : Nat) : MstState :=
  if mstSlot = 0 ∨ f.nMst ≤ mstSlot then st
  else
    let index := mstSlot - 1
    if (st.msts index).msti = 0 then st
    else { st with msts := Function.update st.msts index (st.msts index).put }

variable {f} in
/-- `otto_stp_slot_replace` -/
def slotReplace (sw : MstSwitch f) (st : MstState) (msti : BitVec 16) (oldMstSlot : Nat) :
    Except Int Nat × MstState :=
  match slotGet sw st msti with
  | (.error e, st) => if e = -ENOSPC then slotRecycle f st msti oldMstSlot else (.error e, st)
  | (.ok slot, st) => (.ok slot, slotPut f st oldMstSlot)

/-! ## VLANs -/

/-- `info.fid` of a VLAN. -/
def MstState.fid (st : MstState) (vid : Nat) : Nat := (tablesRead f (st.vlan vid)).fid.toNat

/-- `otto_vlan_msti_set`; the bridge asks for a VID of twelve bits. -/
def vlanMstiSet {f : Family} (sw : MstSwitch f) (st : MstState) (vid : Fin maxVlans)
    (msti : BitVec 16) : Except Int Unit × MstState :=
  let info := tablesRead f (st.vlan vid)
  match slotReplace sw st msti info.fid.toNat with
  | (.error e, st) => (.error e, st)
  | (.ok slot, st) =>
    (.ok (), { st with
      vlan := Function.update st.vlan vid
        (setTagged f (st.vlan vid) { info with fid := BitVec.ofNat 8 slot }) })

/-- `BIT_ULL(port)` -/
def bitUll (port : Nat) : BitVec 64 := BitVec.twoPow 64 port

/-- The part of `otto_vlan_port_add` that keeps VLANs of two protocols apart. -/
def claimProto (st : MstState) (vid : Nat) (proto : VlanProto) : Except Int MstState :=
  let info := tablesRead f (st.vlan vid)
  let old := if info.memberPorts &&& ~~~bitUll f.cpuPort = 0 then none else st.vlanProto vid
  if old.isSome ∧ old ≠ some proto then .error (-EBUSY)
  else .ok { st with vlanProto := Function.update st.vlanProto vid (some proto) }

/-- `info` of `otto_vlan_port_add` with the new member -/
def addMember (info : VlanInfo) (port : Nat) (untagged : Bool) : VlanInfo :=
  -- a VLAN without members is new
  let info := if info.memberPorts = 0 then
      { info with fid := 0, hashMcFid := false, hashUcFid := false, profileId := 0 }
    else info
  let untaggedPorts := info.untaggedPorts &&& info.memberPorts
  { info with
    memberPorts := info.memberPorts ||| bitUll port
    untaggedPorts := if untagged then untaggedPorts ||| bitUll port
      else untaggedPorts &&& ~~~bitUll port }

/-- `otto_vlan_port_add` -/
def vlanPortAdd {f : Family} (sw : MstSwitch f) (st : MstState) (port : Fin (f.cpuPort + 1))
    (vid : Nat) (proto : VlanProto) (pvid untagged : Bool) : Except Int Unit × MstState :=
  if vid = 0 then (.ok (), st)
  else if maxVlans ≤ vid then (.error (-ENOTSUPP), st)
  else if joinRefused f proto then (.error (-EINVAL), st)
  else
    match (if port.val ∈ sw.userPorts then claimProto f st vid proto else .ok st) with
    | .error e => (.error e, st)
    | .ok st =>
      let st := if port.val = f.cpuPort then st
        else if pvid then { st with pvid := Function.update st.pvid port vid }
        else if st.pvid port = vid then { st with pvid := Function.update st.pvid port 0 }
        else st
      let info := addMember (tablesRead f (st.vlan vid)) port untagged
      let row := setUntagged f (st.vlan vid) info.untaggedPorts
      (.ok (), { st with vlan := Function.update st.vlan vid (setTagged f row info) })

/-- `otto_vlan_port_del` -/
def vlanPortDel {f : Family} (st : MstState) (port : Fin (f.cpuPort + 1)) (vid : Nat) :
    Except Int Unit × MstState :=
  if vid = 0 then (.ok (), st)
  else if maxVlans ≤ vid then (.error (-ENOTSUPP), st)
  else
    let st := if vid = st.pvid port then { st with pvid := Function.update st.pvid port 0 } else st
    let info := tablesRead f (st.vlan vid)
    let info := { info with
      untaggedPorts := info.untaggedPorts &&& ~~~bitUll port
      memberPorts := info.memberPorts &&& ~~~bitUll port }
    let st := if info.memberPorts &&& ~~~bitUll f.cpuPort = 0 then
        { st with vlanProto := Function.update st.vlanProto vid none }
      else st
    -- VLANs without members are set back (implicitly) to CIST by DSA
    let st' := if info.memberPorts = 0 then slotPut f st info.fid.toNat else st
    let info := if info.memberPorts = 0 then { info with fid := 0 } else info
    let row := setUntagged f (st.vlan vid) info.untaggedPorts
    (.ok (), { st' with vlan := Function.update st'.vlan vid (setTagged f row info) })

/-! ## Port states of the bridge -/

/-- `otto_stp_port_non_cist_states_set` -/
def portNonCistStatesSet (st : MstState) (port : Nat) (state : BrState) : MstState :=
  (List.range (f.nMst - 1)).foldl (fun st i => portSlotStateSet f st port state (i + 1)) st

variable {f} in
/-- `otto_stp_port_state_set`; the core notes the state of the port. -/
def portStateSet (sw : MstSwitch f) (st : MstState) (port : Nat) (state : BrState) : MstState :=
  let st := portSlotStateSet f st port state 0
  let st := if sw.bridged port then st else portNonCistStatesSet f st port state
  { st with stpState := Function.update st.stpState port state }

/-- `otto_stp_port_mst_state_set` -/
def portMstStateSet (st : MstState) (port : Nat) (msti : BitVec 16) (state : BrState) :
    Except Int Unit × MstState :=
  match slotFind f st msti with
  | .error e => (.error e, st)
  | .ok slot => (.ok (), portSlotStateSet f st port state slot)

end

/-! ## Runs -/

/-- The calls of the DSA core. -/
inductive MstCall (f : Family) where
  | portAdd (port : Fin (f.cpuPort + 1)) (vid : Nat) (proto : VlanProto) (pvid untagged : Bool)
  | portDel (port : Fin (f.cpuPort + 1)) (vid : Nat)
  | mstiSet (vid : Fin maxVlans) (msti : BitVec 16)
  | portState (port : Nat) (state : BrState)
  | mstState (port : Nat) (msti : BitVec 16) (state : BrState)

/-- One call. -/
def mstStep {f : Family} (sw : MstSwitch f) (st : MstState) :
    MstCall f → Except Int Unit × MstState
  | .portAdd port vid proto pvid untagged => vlanPortAdd sw st port vid proto pvid untagged
  | .portDel port vid => vlanPortDel st port vid
  | .mstiSet vid msti => vlanMstiSet sw st vid msti
  | .portState port state => (.ok (), portStateSet sw st port state)
  | .mstState port msti state => portMstStateSet f st port msti state

/-- A run of calls. -/
def mstRun {f : Family} (sw : MstSwitch f) (st : MstState) (calls : List (MstCall f)) : MstState :=
  calls.foldl (fun st call => (mstStep sw st call).2) st

/-- The state after `otto_vlan_setup`: no VLAN has a slot and no slot has an MSTI. -/
structure MstState.Fresh (f : Family) (st : MstState) : Prop where
  fid : ∀ vid < maxVlans, st.fid f vid = 0
  msts : ∀ i, st.msts i = {}

end Lede.Otto
