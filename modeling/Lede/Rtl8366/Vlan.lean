/-
Lede.Rtl8366.Vlan — the VLAN member configurations of the RTL8366 switches
(`rtl8366_smi.c`).

A VLAN is kept in the 4K table. A port names its own VLAN by the index of a member
configuration (MC), and the few MC entries are copies of 4K entries. The chip operations
`get_vlan_4k`, `set_vlan_4k`, `get_vlan_mc`, `set_vlan_mc`, `get_mc_index` and
`set_mc_index` read and store what is in the two tables and the index of each port, so
that none of them fails.
-/
import Mathlib.Data.List.FinRange

namespace Lede.Rtl8366

/-- What a driver says of its chip. The port sets are 16 bits wide. -/
structure Smi where
  numPorts : Nat
  numVlanMc : Nat
  cpuPort : Nat
  numPorts_le : numPorts ≤ 16

/-- `struct rtl8366_vlan_4k`; the VID is the place in the table. -/
structure Vlan4k where
  untag : UInt16
  member : UInt16
  fid : UInt8
deriving DecidableEq

/-- `struct rtl8366_vlan_mc` -/
structure VlanMc where
  vid : UInt16
  untag : UInt16
  member : UInt16
  fid : UInt8
  priority : UInt8
deriving DecidableEq

/-- The tables of the chip, and what the driver remembers of its VLAN mode. -/
structure Chip (smi : Smi) where
  vlan4k : Nat → Vlan4k
  vlanMc : Fin smi.numVlanMc → VlanMc
  mcIndex : Fin smi.numPorts → Fin smi.numVlanMc
  vlanEnabled : Bool
  vlan4kEnabled : Bool

/-- A VID that a caller can give. -/
abbrev Vid := { v : Nat // 1 ≤ v ∧ v ≤ 4095 }

def ENOSPC : Int := 28

section

variable {smi : Smi}

namespace Chip

def setVlan4k (s : Chip smi) (vid : Nat) (e : Vlan4k) : Chip smi :=
  { s with vlan4k := Function.update s.vlan4k vid e }

def setVlanMc (s : Chip smi) (i : Fin smi.numVlanMc) (e : VlanMc) : Chip smi :=
  { s with vlanMc := Function.update s.vlanMc i e }

def setMcIndex (s : Chip smi) (port : Fin smi.numPorts) (i : Fin smi.numVlanMc) : Chip smi :=
  { s with mcIndex := Function.update s.mcIndex port i }

end Chip

/-- A loop over the MC entries that ends at the first one that passes a test. -/
def firstMc (p : Fin smi.numVlanMc → Bool) : Option (Fin smi.numVlanMc) :=
  (List.finRange smi.numVlanMc).find? p

/-- `rtl8366_mc_is_used` -/
def mcIsUsed (s : Chip smi) (i : Fin smi.numVlanMc) : Bool :=
  (List.finRange smi.numPorts).any (fun port => i == s.mcIndex port)

/-- `rtl8366_set_vlan` -/
def setVlan (s : Chip smi) (vid : Nat) (member untag fid : UInt32) : Chip smi :=
  let s := s.setVlan4k vid ⟨untag.toUInt16, member.toUInt16, fid.toUInt8⟩
  match firstMc (fun i => vid == (s.vlanMc i).vid.toNat) with
  | some i =>
    s.setVlanMc i
      { s.vlanMc i with member := member.toUInt16, untag := untag.toUInt16, fid := fid.toUInt8 }
  | none => s

/-- `rtl8366_get_pvid` -/
def getPvid (s : Chip smi) (port : Fin smi.numPorts) : UInt16 :=
  (s.vlanMc (s.mcIndex port)).vid

/-- An MC entry is filled from the 4K table and becomes the one of a port. -/
def takeMc (s : Chip smi) (port : Fin smi.numPorts) (vid : Nat) (i : Fin smi.numVlanMc)
    (priority : UInt8) : Chip smi :=
  let e := s.vlan4k vid
  (s.setVlanMc i ⟨vid.toUInt16, e.untag, e.member, e.fid, priority⟩).setMcIndex port i

/-- The priority of the entry that the second loop of `rtl8366_set_pvid` read last. -/
def lastPriority (s : Chip smi) (i : Fin smi.numVlanMc) : UInt8 :=
  (s.vlanMc ⟨smi.numVlanMc - 1, by have := i.isLt; omega⟩).priority

/-- The entry is free for the second loop of `rtl8366_set_pvid`. -/
def mcIsEmpty (s : Chip smi) (i : Fin smi.numVlanMc) : Bool :=
  (s.vlanMc i).vid == 0 && (s.vlanMc i).member == 0

/-- `rtl8366_set_pvid` -/
def setPvid (s : Chip smi) (port : Fin smi.numPorts) (vid : Nat) : Int × Chip smi :=
  match firstMc (fun i => vid == (s.vlanMc i).vid.toNat) with
  | some i => (0, (s.setVlanMc i (s.vlanMc i)).setMcIndex port i)
  | none =>
    match firstMc (mcIsEmpty s) with
    | some i => (0, takeMc s port vid i (s.vlanMc i).priority)
    | none =>
      match firstMc (fun i => !mcIsUsed s i) with
      | some i => (0, takeMc s port vid i (lastPriority s i))
      | none => (-ENOSPC, s)

/-- `rtl8366_smi_enable_vlan` -/
def enableVlan (s : Chip smi) (enable : Bool) : Chip smi :=
  { s with vlanEnabled := enable, vlan4kEnabled := enable && s.vlan4kEnabled }

/-- `rtl8366_smi_enable_vlan4k` -/
def enableVlan4k (s : Chip smi) (enable : Bool) : Chip smi :=
  { s with vlanEnabled := enable || s.vlanEnabled, vlan4kEnabled := enable }

/-- `rtl8366_smi_reset_vlan`; the indexes of the ports stay. -/
def resetVlan (s : Chip smi) : Chip smi :=
  { enableVlan4k (enableVlan s false) false with vlanMc := fun _ => ⟨0, 0, 0, 0, 0⟩ }

/-- The members of the VLAN that `rtl8366_init_vlan` gives to a port. -/
def initMask (smi : Smi) (port : Nat) : UInt32 :=
  if port = smi.cpuPort then (1 <<< smi.numPorts.toUInt32) - 1
  else (1 <<< port.toUInt32) ||| (1 <<< smi.cpuPort.toUInt32)

/-- The loop of `rtl8366_init_vlan`, over the ports that are left. -/
def initPorts (s : Chip smi) : List (Fin smi.numPorts) → Int × Chip smi
  | [] => (0, s)
  | port :: ports =>
    let mask := initMask smi port
    let r := setPvid (setVlan s (port + 1) mask mask 0) port (port + 1)
    if r.1 ≠ 0 then r else initPorts r.2 ports

/-- `rtl8366_init_vlan` -/
def initVlan (s : Chip smi) : Int × Chip smi :=
  let r := initPorts (resetVlan s) (List.finRange smi.numPorts)
  if r.1 ≠ 0 then r else (0, enableVlan r.2 true)

/-! ## Runs -/

/-- A call into the driver. -/
inductive Call (smi : Smi) where
  | initVlan
  | resetVlan
  | setVlan (vid : Vid) (member untag fid : UInt32)
  | setPvid (port : Fin smi.numPorts) (vid : Vid)

def step (s : Chip smi) : Call smi → Int × Chip smi
  | .initVlan => initVlan s
  | .resetVlan => (0, resetVlan s)
  | .setVlan vid member untag fid => (0, setVlan s vid member untag fid)
  | .setPvid port vid => setPvid s port vid

def run (s : Chip smi) (calls : List (Call smi)) : Chip smi :=
  calls.foldl (fun s c => (step s c).2) s

end

end Lede.Rtl8366
