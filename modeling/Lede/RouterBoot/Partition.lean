/-
Lede.RouterBoot.Partition — the partitions of a RouterBOOT flash, as `routerbootpart.c`
finds them.

`routerboot_find_dynparts` reads the first word of every block and looks for the magics of the
well-known partitions; what a read returns is not the parser's to say, so a scan is a run along
a sequence of outcomes (`scanRun`). `routerboot_partitions_parse` then places the nodes of the
device tree one behind the other, with the offsets and sizes they give, the scan found, or the
next node leaves.

`size_t` has 32 to 64 bits, and the size of a device and the fields of a partition have 64.
Allocations succeed. Messages are left out.
-/
import Mathlib.Algebra.Group.Nat.Defs
import Mathlib.Data.List.Basic

namespace Lede.RouterBoot

/-- A device, on a machine whose `size_t` has `w` bits. -/
structure Master where
  w : Nat
  w_ge : 32 ≤ w
  w_le : w ≤ 64
  size : Nat
  lt : size < 2 ^ 64

/-- A `size_t` of 32 bits is wide enough. -/
theorem word32_ge : 32 ≤ 32 := Nat.le_refl 32

/-- `RB_BLOCK_SIZE`. -/
def rbBlockSize : Nat := 0x1000

/-! ## The scan -/

/-- What `mtd_read` returns: an error (corrected bitflips are one), how many bytes it read, and the
word that is looked at then. -/
structure MtdRead where
  err : Bool
  bytesRead : Nat
  word : Nat

/-- `struct routerboot_dynpart`. -/
structure Dynpart where
  name : String
  magic : Nat
  sizeFixup : Option (MtdRead → Option Nat)
  offset : Nat
  size : Nat
  found : Bool

/-- `sizeof(fdt_header)`. -/
def fdtHeaderSize : Nat := 40

/-- `routerboot_dtbsfixup`: the size a partition gets; the word of the read is `totalsize`. -/
def routerbootDtbsfixup (r : MtdRead) : Option Nat :=
  if r.err then none
  else if r.bytesRead ≠ fdtHeaderSize then none
  else if r.word = 0 then none
  else some r.word

/-- `rb_dynparts`. -/
def rbDynparts : List Dynpart :=
  [⟨"hard_config", 0x64726148, none, 0, rbBlockSize, false⟩,
    ⟨"soft_config", 0x74666f53, none, 0, rbBlockSize, false⟩,
    ⟨"dtb_config", 0xedfe0dd0, some routerbootDtbsfixup, 0, 0, false⟩]

/-- `ALIGN_DOWN(x, RB_BLOCK_SIZE)`. -/
def alignDown (x : Nat) : Nat := x / rbBlockSize * rbBlockSize

/-- What a size function says of a partition: `none` for an error. -/
def Dynpart.fixup (d : Dynpart) (r : MtdRead) : Option Nat :=
  match d.sizeFixup with
  | none => some d.size
  | some f => f r

/-- The loop over the partitions for the word at `offset`: the partitions, `allfound`, and how far
the offset is moved. `r` is the read a size function makes. -/
def scanParts (offset buf : Nat) (r : MtdRead) : List Dynpart → List Dynpart × Bool × Nat
  | [] => ([], true, 0)
  | d :: ds =>
    if d.found then
      let (ds, allfound, skip) := scanParts offset buf r ds
      (d :: ds, allfound, skip)
    else if d.magic = buf then
      match d.fixup r with
      | none =>
        let (ds, _, skip) := scanParts offset buf r ds
        ({ d with offset := offset } :: ds, false, skip)
      | some size =>
        ({ d with offset := offset, size := size, found := true } :: ds, false,
          if rbBlockSize < size then alignDown (size - rbBlockSize) else 0)
    else
      let (ds, _, skip) := scanParts offset buf r ds
      (d :: ds, false, skip)

/-- The state of the scan; `done` is set when it has left the loop by `allfound`. -/
structure Scan where
  offset : Nat
  parts : List Dynpart
  done : Bool

namespace Master

variable (m : Master)

/-- A sum in `size_t`. -/
def add (a b : Nat) : Nat := (a + b) % 2 ^ m.w

/-- The loop has ended. -/
def Stopped (s : Scan) : Prop := s.done = true ∨ m.size ≤ s.offset

instance (s : Scan) : Decidable (m.Stopped s) := inferInstanceAs (Decidable (_ ∨ _))

/-- An iteration of `routerboot_find_dynparts`, with what the read of the word and that of a size
function return. After an error the same offset is read again. -/
def scanStep (s : Scan) (o : MtdRead × MtdRead) : Scan :=
  if m.Stopped s then s
  else if o.1.err then s
  else
    let (parts, allfound, skip) := scanParts s.offset o.1.word o.2 s.parts
    ⟨m.add (m.add s.offset skip) rbBlockSize, parts, allfound⟩

/-- The first `n` iterations. -/
def scanRun (parts : List Dynpart) (env : Nat → MtdRead × MtdRead) : Nat → Scan
  | 0 => ⟨0, parts, false⟩
  | n + 1 => m.scanStep (scanRun parts env n) (env n)

end Master

/-! ## The device tree -/

/-- A subnode: its names, and the properties the parser looks at, as cells. -/
structure DtNode where
  label : Option String
  name : Option String
  nodeName : String
  reg : Option (List (BitVec 32))
  size : Option (List (BitVec 32))
  aCells : Nat
  sCells : Nat
  readOnly : Bool
  lock : Bool

/-- `struct mtd_partition`; the last two are bits of `mask_flags`. -/
structure Partition where
  name : String
  offset : Nat
  size : Nat
  mtdWriteable : Bool
  mtdPowerupLock : Bool
  deriving DecidableEq, Repr

/-- `of_read_number`. -/
def ofReadNumber (cells : List (BitVec 32)) (n : Nat) : Nat :=
  (cells.take n).foldl (fun r c => (r * 2 ^ 32 + c.toNat) % 2 ^ 64) 0

/-- The name of a partition. -/
def DtNode.partname (pp : DtNode) : String := (pp.label <|> pp.name).getD pp.nodeName

/-- The end of the previous partition is set if it has no size. -/
def Partition.fixEnd (prev : Partition) (offset : Nat) : Partition :=
  if prev.size = 0 then { prev with size := offset - prev.offset } else prev

namespace Master

variable (m : Master)

/-- `ALIGN(x, RB_BLOCK_SIZE)`. -/
def align (x : Nat) : Nat := m.add x (rbBlockSize - 1) / rbBlockSize * rbBlockSize

/-- Offset and size of a node, where the partition before it ends at `masterOfs`; `none` if a property
has the wrong length. -/
def place (dyn : List Dynpart) (masterOfs : Nat) (pp : DtNode) : Option (Nat × Nat) :=
  match pp.reg with
  | some reg =>
    if reg.length ≠ pp.aCells + pp.sCells then none
    else
      some (ofReadNumber reg pp.aCells % 2 ^ m.w,
        ofReadNumber (reg.drop pp.aCells) pp.sCells % 2 ^ m.w)
  | none =>
    let (offset, size) := match dyn.find? (fun d => pp.partname == d.name && d.found) with
      | some d => (d.offset % 2 ^ m.w, d.size % 2 ^ m.w)
      | none => (masterOfs, 0)
    match pp.size with
    | none => some (offset, size)
    | some sz =>
      if sz.length ≠ pp.sCells then none else some (offset, ofReadNumber sz pp.sCells % 2 ^ m.w)

/-- The loop over the nodes, with the partition before them. -/
def parseLoop (dyn : List Dynpart) : Option Partition → Nat → List DtNode → Option (List Partition)
  | prev, _, [] => some prev.toList
  | prev, masterOfs, pp :: pps =>
    match m.place dyn masterOfs pp with
    | none => none
    | some (offset, size) =>
      if prev.any (fun p => offset < (p.offset + p.size) % 2 ^ 64) then none
      else if m.size < m.add offset size then none
      else
        let part : Partition := ⟨pp.partname, offset, size, pp.readOnly, pp.lock⟩
        (parseLoop dyn (some part) (m.align (m.add offset size)) pps).map
          ((prev.map (·.fixEnd offset)).toList ++ ·)

/-- `routerboot_partitions_parse` behind the scan: the partitions, `none` for `-EINVAL`. -/
def routerbootPartitionsParse (dyn : List Dynpart) (nodes : List DtNode) : Option (List Partition) :=
  m.parseLoop dyn none 0 nodes

end Master

end Lede.RouterBoot
