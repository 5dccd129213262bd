/-
Lede.Mtd.Jffs2 — `mtd_replace_jffs2` of `jffs2.c`: a file, as the nodes of a JFFS2
file system, into the erase blocks of an MTD device.

The buffer is the list of the bytes in front of `ofs`. A block that is written is one
entry of the log, and so is a bad block that is passed over; the position of the file
descriptor moves with `mtdofs`. An exit when the ioctl fails leaves no `mtdofs`, and
nothing is written after it. The file can be read, and `malloc` succeeds.
-/
import Lede.Mtd.Trx
import Lede.Lib.Fields

namespace Lede.Mtd

open Lede.Lib

/-! ## Blocks -/

inductive Pass where
  | skip (off : Nat)
  | write (off : Nat) (block : List UInt8)

structure Jffs2 where
  buf : List UInt8
  mtdofs : Option Nat
  log : List Pass
  lastIno : Nat
  lastVersion : Nat

def Jffs2.ofs (s : Jffs2) : Nat := s.buf.length

def cleanmarker : Endian → List UInt8
  | .big => [0x19, 0x85, 0x20, 0x03, 0x00, 0x00, 0x00, 0x0c, 0xf0, 0x60, 0xdc, 0x98]
  | .little => [0x85, 0x19, 0x03, 0x20, 0x0c, 0x00, 0x00, 0x00, 0xb1, 0xb0, 0x1e, 0xe4]

/-- The bad blocks from an offset on, and the offset behind them; `none` for an exit. -/
def skipBad (c : Cfg) (d : Device) (mtdofs : Nat) : List Nat × Option Nat :=
  match d.blockIsBad mtdofs with
  | none => ([], none)
  | some false => ([], some mtdofs)
  | some true =>
    if mtdofs < d.size then
      let rest := skipBad c d (mtdofs + c.erasesize)
      (mtdofs :: rest.1, rest.2)
    else ([], some mtdofs)
termination_by d.size - mtdofs
decreasing_by
  have := c.erasesize_pos
  omega

/-- The end of `pad`: the block is erased and written. -/
def flush (c : Cfg) (d : Device) (s : Jffs2) : Jffs2 :=
  match s.mtdofs with
  | none => { s with buf := [] }
  | some mtdofs =>
    match skipBad c d mtdofs with
    | (skipped, none) => { s with buf := [], mtdofs := none, log := s.log ++ skipped.map .skip }
    | (skipped, some mtdofs) =>
      { s with
        buf := []
        mtdofs := some (mtdofs + c.erasesize)
        log := s.log ++ skipped.map .skip ++ [.write mtdofs (s.buf.take c.erasesize)] }

def pad (c : Cfg) (d : Device) (size : Nat) (s : Jffs2) : Jffs2 :=
  if s.ofs % size = 0 ∧ s.ofs < c.erasesize then s
  else
    let s :=
      if s.ofs < c.erasesize then
        { s with buf := s.buf ++ List.replicate (size - s.ofs % size) 0xff }
      else s
    let ofs := s.ofs % c.erasesize
    if ofs = 0 then flush c d s else { s with buf := s.buf.take ofs }

/-- `add_data` of the clean marker at offset 0 never needs a new block. -/
def prepEraseblock (h : Host) (s : Jffs2) : Jffs2 :=
  if 0 < s.ofs then s else { s with buf := s.buf ++ cleanmarker h.endian }

def addData (h : Host) (c : Cfg) (d : Device) (ptr : List UInt8) (s : Jffs2) : Jffs2 :=
  let s := if c.erasesize < s.ofs + ptr.length then prepEraseblock h (pad c d c.erasesize s) else s
  { s with buf := s.buf ++ ptr }

/-! ## Nodes -/

def nodetypeDirent : Nat := 0xe001
def nodetypeInode : Nat := 0xe002

/-- `struct jffs2_unknown_node`. -/
def unknownNode (e : Endian) (nodetype totlen : Nat) : List UInt8 :=
  let de := bytes16 e 0x1985 ++ (bytes16 e nodetype ++ bytes32 e totlen)
  de ++ bytes32 e (crc32 0#32 de).toNat

structure Dirent where
  pino : Nat
  version : Nat
  ino : Nat
  mctime : Nat
  type : Nat
  name : List UInt8

/-- `struct jffs2_raw_dirent` and the name. -/
def Dirent.bytes (e : Endian) (n : Dirent) : List UInt8 :=
  let de := unknownNode e nodetypeDirent (40 + n.name.length) ++ (bytes32 e n.pino ++
    (bytes32 e n.version ++ (bytes32 e n.ino ++ (bytes32 e n.mctime ++
      [UInt8.ofNat n.name.length, UInt8.ofNat n.type, 0, 0]))))
  de ++ (bytes32 e (crc32 0#32 de).toNat ++ (bytes32 e (crc32 0#32 n.name).toNat ++ n.name))

structure Inode where
  ino : Nat
  version : Nat
  mode : Nat
  uid : Nat
  gid : Nat
  isize : Nat
  atime : Nat
  mtime : Nat
  ctime : Nat
  offset : Nat
  data : List UInt8

/-- `struct jffs2_raw_inode`. -/
def Inode.ri (e : Endian) (n : Inode) : List UInt8 :=
  let ri := unknownNode e nodetypeInode (68 + n.data.length) ++ (bytes32 e n.ino ++
    (bytes32 e n.version ++ (bytes32 e n.mode ++ (bytes16 e n.uid ++ (bytes16 e n.gid ++
      (bytes32 e n.isize ++ (bytes32 e n.atime ++ (bytes32 e n.mtime ++ (bytes32 e n.ctime ++
        (bytes32 e n.offset ++ (bytes32 e n.data.length ++ (bytes32 e n.data.length ++
          [0, 0, 0, 0]))))))))))))
  ri ++ (bytes32 e (crc32 0#32 n.data).toNat ++ bytes32 e (crc32 0#32 ri).toNat)

/-! ## The file -/

/-- A file as `stat` and `read` show it. A `read` at an offset returns at least one of the bytes
that are left, and at most `1 + more` of them. -/
structure File where
  path : List UInt8
  data : List UInt8
  mode : Nat
  atime : Nat
  mtime : Nat
  ctime : Nat
  more : Nat → Nat

def File.read (f : File) (offset len : Nat) : List UInt8 :=
  (f.data.drop offset).take (min len (1 + f.more offset))

/-- The node that `add_file` fills in for the data `wbuf`. -/
def File.node (f : File) (inode version fOffset : Nat) (wbuf : List UInt8) : Inode :=
  { ino := inode
    version := version
    mode := f.mode
    uid := 0
    gid := 0
    isize := f.data.length
    atime := f.atime
    mtime := f.mtime
    ctime := f.ctime
    offset := fOffset
    data := wbuf }

end Lede.Mtd
