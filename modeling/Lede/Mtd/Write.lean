/-
Lede.Mtd.Write — `mtd_write` of `mtd.c`: an image, block by block, into a chain of
MTD devices.

The function keeps four positions apart: what has been erased (`e`), what has been
written (`w`), how much of the erased part was bad (`skip_bad_blocks`), and the
position of the file descriptor. They are fields of the state, and `step` is one
turn of the loop that fills the buffer or of the loop that erases.

The kernel's part is a `Device`: which blocks MEMGETBADBLOCK reports, where MEMERASE
fails although the block is not bad, and how much of a `write` is taken. Offsets of a
device are its own; a seek beyond its end is refused. All devices of a chain have
one erase size. A byte that is read from behind the end of the buffer is none of the
image's, and appears as `none` in what is programmed.

`-j` (jffs2 data), `-F` (the FIS directory, see Lede.Mtd.Fis) and the TP-Link
recovery flag are left out.
-/
import Mathlib.Algebra.Group.Nat.Defs
import Mathlib.Tactic.Common

namespace Lede.Mtd

/-! ## Devices -/

/-- An MTD device as the ioctls and `write` show it. -/
structure Device where
  nand : Bool
  size : Nat
  bad : Nat → Bool
  eraseFails : Nat → Bool
  accepts : Nat → Nat → Nat

/-- What a run does to the devices, in order. -/
inductive Op where
  | erase (dev start : Nat)
  | program (dev pos : Nat) (data : List (Option UInt8))

/-- The erase size and the options of a write. -/
structure Cfg where
  erasesize : Nat
  partOffset : Nat
  noErase : Bool := false
  erasesize_pos : 0 < erasesize := by decide

/-- `mtd_block_is_bad`; `none` for the exit when the ioctl fails. The offset is an
`int`, negative from 2 GiB on. -/
def Device.blockIsBad (d : Device) (off : Nat) : Option Bool :=
  if d.nand then
    if 2 ^ 31 ≤ off ∨ d.size ≤ off then none else some (d.bad off)
  else some false

/-- The block at `off` is one that must not be used. -/
def Device.isBad (d : Device) (off : Nat) : Bool := d.nand && d.bad off

/-- `mtdEraseInfo.start`: the offset went through an `int`. -/
def eraseStart (off : Nat) : Nat := off % 2 ^ 32

/-- `mtd_erase_block` succeeds. The kernel refuses to erase a bad block. -/
def Device.eraseBlock (c : Cfg) (d : Device) (off : Nat) : Bool :=
  let start := eraseStart off
  start % c.erasesize == 0 && decide (start + c.erasesize ≤ d.size) &&
    !d.isBad start && !d.eraseFails start

/-- The bytes `write` takes of `len` at `pos`. -/
def Device.writes (d : Device) (pos len : Nat) : Nat := min (d.accepts pos len) (min len (d.size - pos))

/-- `lseek(fd, off, SEEK_SET)` on a descriptor just opened. -/
def Device.seekSet (d : Device) (off : Nat) : Nat := if off ≤ d.size then off else 0

/-- `lseek(fd, len, SEEK_CUR)`. -/
def Device.seekCur (d : Device) (pos len : Nat) : Nat := if pos + len ≤ d.size then pos + len else pos

/-! ## Reading the image -/

/-- What a `read` of the image does: it is interrupted, or it returns `n + 1` bytes if
that many are asked for and left. -/
inductive Read where
  | intr
  | short (n : Nat)

/-- What is still to be read, and the buffer. -/
structure Input where
  reads : List Read
  img : List UInt8
  buf : List UInt8

/-- The loop that fills the buffer. When no behaviour is given any more, a `read`
returns all it is asked for. -/
def fillBuf (erasesize : Nat) : List Read → List UInt8 → List UInt8 → Input
  | [], img, buf =>
    let n := erasesize - buf.length
    { reads := [], img := img.drop n, buf := buf ++ img.take n }
  | r :: reads, img, buf =>
    if buf.length < erasesize then
      match r with
      | .intr => fillBuf erasesize reads img buf
      | .short n =>
        if img = [] then { reads := reads, img := img, buf := buf }
        else
          let n := min (n + 1) (erasesize - buf.length)
          fillBuf erasesize reads (img.drop n) (buf ++ img.take n)
    else { reads := r :: reads, img := img, buf := buf }

/-! ## The loop -/

/-- Where `mtd_write` is: before the buffer is filled, or before the next block is
erased or written. -/
inductive Phase where
  | fill
  | erase
  deriving DecidableEq

structure St where
  dev : Nat
  cur : Device
  next : List Device
  pos : Nat
  w : Nat
  e : Nat
  skipBadBlocks : Nat
  offset : Nat
  reads : List Read
  img : List UInt8
  buf : List UInt8
  phase : Phase
  log : List Op

/-- The state at `resume`, for the device that is opened there. -/
def St.resume (c : Cfg) (s : St) (d : Device) (ds : List Device) : St :=
  { s with
    dev := s.dev + 1, cur := d, next := ds, pos := d.seekSet c.partOffset, w := 0, e := 0,
    phase := .fill }

/-- `len` bytes at `buf + offset`. -/
def St.source (s : St) (len : Nat) : List (Option UInt8) :=
  (List.range len).map (fun i => s.buf[s.offset + i]?)

/-- `write(fd, buf + offset, len)`, as far as the device takes it. -/
def St.write (s : St) (len : Nat) : St :=
  let n := s.cur.writes s.pos len
  if n = 0 then s
  else { s with log := s.log ++ [.program s.dev s.pos (s.source n)], pos := s.pos + n }

/-- What one turn ends with. -/
inductive Outcome where
  | next (s : St)
  | ret (s : St)
  | exit

/-- An erase has failed and there is another device: what lies between `w` and `e` is
written first. -/
def St.moveOn (c : Cfg) (s : St) (d : Device) (ds : List Device) : St :=
  if s.w < s.e then
    let t := s.write (s.e - s.w)
    { t with offset := s.e - s.w }.resume c d ds
  else s.resume c d ds

/-- One turn of the loop that erases. -/
def eraseStep (c : Cfg) (s : St) : Outcome :=
  match s.cur.blockIsBad s.e with
  | none => .exit
  | some true =>
    .next { s with
      skipBadBlocks := s.skipBadBlocks + c.erasesize, e := s.e + c.erasesize,
      pos := s.cur.seekCur s.pos c.erasesize }
  | some false =>
    if s.cur.eraseBlock c (s.e + c.partOffset) then
      .next { s with
        e := s.e + c.erasesize, log := s.log ++ [.erase s.dev (eraseStart (s.e + c.partOffset))] }
    else
      match s.next with
      | [] => .exit
      | d :: ds => .next (s.moveOn c d ds)

/-- The block in the buffer is written. -/
def writeStep (s : St) : Outcome :=
  if s.cur.writes s.pos s.buf.length < s.buf.length then .exit
  else
    .next { s.write s.buf.length with
      w := s.w + s.buf.length, offset := 0, buf := [], phase := .fill }

/-- The buffer is filled and padded. -/
def fillStep (c : Cfg) (s : St) : Outcome :=
  let input := fillBuf c.erasesize s.reads s.img s.buf
  let s := { s with reads := input.reads, img := input.img }
  if input.buf = [] then .ret { s with buf := [] }
  else
    .next { s with
      buf := input.buf ++ List.replicate (c.erasesize - input.buf.length) 0xff, phase := .erase }

/-- One turn of `mtd_write`. -/
def step (c : Cfg) (s : St) : Outcome :=
  match s.phase with
  | .fill => fillStep c s
  | .erase =>
    if c.noErase = false ∧ s.e < s.w + s.buf.length + s.skipBadBlocks then eraseStep c s
    else writeStep s

/-- The state `mtd_write` ends in when it returns 0 within `fuel` turns. -/
def run (c : Cfg) : Nat → St → Option St
  | 0, _ => none
  | fuel + 1, s =>
    match step c s with
    | .next s' => run c fuel s'
    | .ret s' => some s'
    | .exit => none

/-- The state `mtd_write` starts in; `buf` is what the check of the image has read
already. -/
def start (c : Cfg) (d : Device) (ds : List Device) (reads : List Read) (buf img : List UInt8) : St :=
  { dev := 0, cur := d, next := ds, pos := d.seekSet c.partOffset, w := 0, e := 0,
    skipBadBlocks := 0, offset := 0, reads := reads, img := img, buf := buf, phase := .fill,
    log := [] }

/-- The blocks of a device that may be used, in ascending order. -/
def Device.goodBlocks (c : Cfg) (d : Device) : List Nat :=
  ((List.range (d.size / c.erasesize)).map (· * c.erasesize)).filter (fun b => !d.isBad b)

/-- The positions programmed on a device, in order. -/
def programmedOn (log : List Op) (dev : Nat) : List Nat :=
  log.filterMap (fun op => match op with
    | .program i pos _ => if i = dev then some pos else none
    | .erase _ _ => none)

/-- The bytes programmed on a device, in order. -/
def dataOn (log : List Op) (dev : Nat) : List (Option UInt8) :=
  log.flatMap (fun op => match op with
    | .program i _ data => if i = dev then data else []
    | .erase _ _ => [])

/-- The effect of an operation on the content of a device. Programming clears bits; 0
stands for a byte from behind the buffer. -/
def Op.apply (c : Cfg) (dev : Nat) (m : Nat → UInt8) : Op → Nat → UInt8
  | .erase i start, p => if i = dev ∧ start ≤ p ∧ p < start + c.erasesize then 0xff else m p
  | .program i pos data, p =>
    if i = dev ∧ pos ≤ p ∧ p < pos + data.length then
      m p &&& ((data.getD (p - pos) none).getD 0)
    else m p

/-- The content of a device after the operations of a log. -/
def content (c : Cfg) (dev : Nat) (m : Nat → UInt8) (log : List Op) : Nat → UInt8 :=
  log.foldl (fun m op => op.apply c dev m) m

/-- The image, padded with 0xff to whole blocks. -/
def padImage (erasesize : Nat) (img : List UInt8) : List UInt8 :=
  img ++ List.replicate ((erasesize - img.length % erasesize) % erasesize) 0xff

/-- The blocks an image of `len` bytes fills. -/
def blockCount (erasesize len : Nat) : Nat := (len + erasesize - 1) / erasesize

end Lede.Mtd
