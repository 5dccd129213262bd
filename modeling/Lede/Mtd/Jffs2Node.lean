/-
Lede.Mtd.Jffs2Node — how a file system reads an erase block.

A block is a sequence of nodes, each at a multiple of four, and the rest of it is
erased. `readNode` checks a node's magic, lengths and checksums, and that it ends in
the block; `parseNodes` reads a block to its end. What `Dirent.bytes` and `Inode.ri`
make is read back, whatever follows (`readNode_dirent`, `readNode_inode`).
-/
import Lede.Mtd.Jffs2

namespace Lede.Mtd

open Lede.Lib

/-! ## Reading -/

inductive Node where
  | cleanmarker
  | dirent (n : Dirent)
  | inode (n : Inode)

def readDirent (e : Endian) (bytes : List UInt8) (totlen : Nat) (r : List UInt8) :
    Option Node := do
  let (pino, r) ← read32 e r
  let (version, r) ← read32 e r
  let (ino, r) ← read32 e r
  let (mctime, r) ← read32 e r
  let (nsize, r) ← read8 r
  let (type, r) ← read8 r
  let (_, r) ← read8 r
  let (_, r) ← read8 r
  let (nodeCrc, r) ← read32 e r
  let (nameCrc, r) ← read32 e r
  let name := r.take nsize
  if totlen = 40 + nsize ∧ nodeCrc = (crc32 0#32 (bytes.take 32)).toNat ∧
      nameCrc = (crc32 0#32 name).toNat then
    some (.dirent { pino, version, ino, mctime, type, name })
  else none

def readInode (e : Endian) (bytes : List UInt8) (totlen : Nat) (r : List UInt8) :
    Option Node := do
  let (ino, r) ← read32 e r
  let (version, r) ← read32 e r
  let (mode, r) ← read32 e r
  let (uid, r) ← read16 e r
  let (gid, r) ← read16 e r
  let (isize, r) ← read32 e r
  let (atime, r) ← read32 e r
  let (mtime, r) ← read32 e r
  let (ctime, r) ← read32 e r
  let (offset, r) ← read32 e r
  let (csize, r) ← read32 e r
  let (dsize, r) ← read32 e r
  let (compr, r) ← read8 r
  let (_, r) ← read8 r
  let (_, r) ← read8 r
  let (_, r) ← read8 r
  let (dataCrc, r) ← read32 e r
  let (nodeCrc, r) ← read32 e r
  let data := r.take csize
  if totlen = 68 + csize ∧ dsize = csize ∧ compr = 0 ∧ dataCrc = (crc32 0#32 data).toNat ∧
      nodeCrc = (crc32 0#32 (bytes.take 60)).toNat then
    some (.inode { ino, version, mode, uid, gid, isize, atime, mtime, ctime, offset, data })
  else none

/-- The node at the front of what is left of a block, and its length. -/
def readNode (e : Endian) (bytes : List UInt8) : Option (Node × Nat) := do
  let (magic, r) ← read16 e bytes
  let (nodetype, r) ← read16 e r
  let (totlen, r) ← read32 e r
  let (hdrCrc, r) ← read32 e r
  if magic = 0x1985 ∧ hdrCrc = (crc32 0#32 (bytes.take 8)).toNat ∧ totlen ≤ bytes.length then
    if nodetype = 0x2003 ∧ totlen = 12 then some (.cleanmarker, totlen)
    else if nodetype = nodetypeDirent then (readDirent e bytes totlen r).map (·, totlen)
    else if nodetype = nodetypeInode then (readInode e bytes totlen r).map (·, totlen)
    else none
  else none

/-- `PAD` -/
def padded (n : Nat) : Nat := (n + 3) / 4 * 4

def erased (bytes : List UInt8) : Bool := bytes.all (· == 0xff)

/-- The nodes up to the erased rest, if everything is a node. The bytes between the end of a node
and the next multiple of four are erased, too. -/
def parseNodes (e : Endian) (bytes : List UInt8) : Option (List Node) :=
  if erased bytes then some []
  else
    match readNode e bytes with
    | none => none
    | some (node, totlen) =>
      if _h : 0 < totlen ∧ totlen ≤ bytes.length ∧ padded totlen ≤ bytes.length ∧
          erased ((bytes.take (padded totlen)).drop totlen) then
        (parseNodes e (bytes.drop (padded totlen))).map (node :: ·)
      else none
termination_by bytes.length
decreasing_by
  have hpad : 0 < padded totlen := by
    unfold padded
    omega
  rw [List.length_drop]
  omega

/-! ## What is read back -/

/-- These bytes are read as these nodes, whatever follows. -/
def Parses (e : Endian) (bytes : List UInt8) (nodes : List Node) : Prop :=
  4 ∣ bytes.length ∧
    ∀ rest, parseNodes e (bytes ++ rest) = (parseNodes e rest).map (nodes ++ ·)

section Parses

variable {e : Endian} {a b : List UInt8} {ns ms : List Node}

theorem parses_nil : Parses e [] [] := by simp [Parses]

theorem Parses.append (ha : Parses e a ns) (hb : Parses e b ms) : Parses e (a ++ b) (ns ++ ms) := by
  refine ⟨?_, fun rest => ?_⟩
  · rw [List.length_append]
    exact Nat.dvd_add ha.1 hb.1
  · rw [List.append_assoc, ha.2, hb.2, Option.map_map]
    congr 1
    funext l
    exact (List.append_assoc ..).symm

theorem erased_replicate (n : Nat) : erased (List.replicate n 0xff) = true := by
  simp [erased]

/-- The rest of a block is erased. -/
theorem Parses.parseNodes_eq (ha : Parses e a ns) (n : Nat) :
    parseNodes e (a ++ List.replicate n 0xff) = some ns := by
  rw [ha.2, parseNodes, if_pos (erased_replicate n)]
  simp

theorem not_erased_of_readNode {bytes : List UInt8} {p : Node × Nat}
    (h : readNode e bytes = some p) : erased bytes = false := by
  by_contra her
  rw [Bool.not_eq_false, erased, List.all_eq_true] at her
  match bytes, h, her with
  | [], h, _ => simp [readNode, read16] at h
  | [_], h, _ => simp [readNode, read16] at h
  | x :: y :: r, h, her =>
    have hx : x = 0xff := by simpa using her x (by simp)
    have hy : y = 0xff := by simpa using her y (by simp)
    subst hx hy
    have hmagic : read16 e (0xff :: 0xff :: r) = some (0xffff, r) := by cases e <;> rfl
    simp only [readNode, hmagic, Option.bind_eq_bind, Option.bind_some] at h
    simp at h

/-- A node with its padding. -/
theorem Parses.single {bytes : List UInt8} {node : Node} (hpos : 0 < bytes.length)
    (h : ∀ rest, readNode e (bytes ++ rest) = some (node, bytes.length)) :
    Parses e (bytes ++ List.replicate (padded bytes.length - bytes.length) 0xff) [node] := by
  have hle : bytes.length ≤ padded bytes.length := by
    unfold padded
    omega
  have hlen : (bytes ++ List.replicate (padded bytes.length - bytes.length) 0xff).length =
      padded bytes.length := by
    rw [List.length_append, List.length_replicate]
    omega
  refine ⟨⟨(bytes.length + 3) / 4, hlen.trans (Nat.mul_comm _ _)⟩, fun rest => ?_⟩
  have hread := h (List.replicate (padded bytes.length - bytes.length) 0xff ++ rest)
  rw [← List.append_assoc] at hread
  generalize hp : bytes ++ List.replicate (padded bytes.length - bytes.length) 0xff = p at *
  have hgap : (p.take (padded bytes.length)).drop bytes.length =
      List.replicate (padded bytes.length - bytes.length) 0xff := by
    rw [List.take_of_length_le hlen.le, ← hp, List.drop_left]
  rw [parseNodes, not_erased_of_readNode hread, hread]
  dsimp only
  rw [dif_pos]
  · rw [← hlen, List.drop_left]
    simp
  · rw [List.take_append_of_le_length hlen.ge, hgap]
    refine ⟨hpos, ?_, ?_, erased_replicate _⟩
    all_goals
      rw [List.length_append]
      omega

end Parses

/-! ## The nodes that are made -/

/-- The fields as they are kept in 32 and 8 bits. -/
def Dirent.stored (n : Dirent) : Dirent :=
  { n with
    pino := n.pino % 2 ^ 32, version := n.version % 2 ^ 32, ino := n.ino % 2 ^ 32,
    mctime := n.mctime % 2 ^ 32, type := n.type % 256 }

def Inode.stored (n : Inode) : Inode :=
  { n with
    ino := n.ino % 2 ^ 32, version := n.version % 2 ^ 32, mode := n.mode % 2 ^ 32,
    uid := n.uid % 65536, gid := n.gid % 65536, isize := n.isize % 2 ^ 32,
    atime := n.atime % 2 ^ 32, mtime := n.mtime % 2 ^ 32, ctime := n.ctime % 2 ^ 32,
    offset := n.offset % 2 ^ 32 }

section Made

variable (e : Endian)

@[simp] theorem length_unknownNode (t l : Nat) : (unknownNode e t l).length = 12 := by
  simp [unknownNode]

/-- The header of a node that is read back. -/
theorem readNode_unknownNode {t l : Nat} {r : List UInt8} (hl : l < 2 ^ 32)
    (hin : l ≤ (unknownNode e t l ++ r).length) :
    readNode e (unknownNode e t l ++ r) =
      if t % 65536 = 0x2003 ∧ l = 12 then some (.cleanmarker, l)
      else if t % 65536 = nodetypeDirent then
        (readDirent e (unknownNode e t l ++ r) l r).map (·, l)
      else if t % 65536 = nodetypeInode then
        (readInode e (unknownNode e t l ++ r) l r).map (·, l)
      else none := by
  have htake : (unknownNode e t l ++ r).take 8 =
      bytes16 e 0x1985 ++ (bytes16 e t ++ bytes32 e l) := by
    rw [unknownNode, List.append_assoc]
    exact List.take_left' (by simp)
  have hcrc : (crc32 0#32 (bytes16 e 0x1985 ++ (bytes16 e t ++ bytes32 e l))).toNat < 4294967296 :=
    (crc32 0#32 _).isLt
  have hl' : l % 4294967296 = l := Nat.mod_eq_of_lt hl
  rw [readNode, htake]
  generalize hb : unknownNode e t l ++ r = bytes at *
  have hread : read16 e bytes = some (0x1985, bytes16 e t ++ (bytes32 e l ++ (bytes32 e
      (crc32 0#32 (bytes16 e 0x1985 ++ (bytes16 e t ++ bytes32 e l))).toNat ++ r))) := by
    rw [← hb, unknownNode]
    simp
  rw [hread]
  simp [hl', hcrc, hin]

theorem toNat_mod (x : BitVec 32) : x.toNat % 2 ^ 32 = x.toNat := Nat.mod_eq_of_lt x.isLt

theorem readNode_cleanmarker (rest : List UInt8) :
    readNode e (cleanmarker e ++ rest) = some (.cleanmarker, (cleanmarker e).length) := by
  have hmade : cleanmarker e = unknownNode e 0x2003 12 := by cases e <;> decide +kernel
  have hlen : (cleanmarker e).length = 12 := by cases e <;> rfl
  rw [hlen, hmade, readNode_unknownNode e (by decide) (by simp), if_pos ⟨by decide, rfl⟩]

theorem readNode_inode {n : Inode} (hdata : n.data.length ≤ 4096) (rest : List UInt8) :
    readNode e (n.ri e ++ n.data ++ rest) =
      some (.inode n.stored, (n.ri e ++ n.data).length) := by
  have hlen : (n.ri e ++ n.data).length = 68 + n.data.length := by
    simp only [Inode.ri, List.length_append, length_unknownNode, length_bytes32, length_bytes16,
      List.length_cons, List.length_nil]
  rw [hlen, Inode.ri]
  generalize hfront : bytes32 e n.ino ++ (bytes32 e n.version ++ (bytes32 e n.mode ++
    (bytes16 e n.uid ++ (bytes16 e n.gid ++ (bytes32 e n.isize ++ (bytes32 e n.atime ++
      (bytes32 e n.mtime ++ (bytes32 e n.ctime ++ (bytes32 e n.offset ++
        (bytes32 e n.data.length ++ (bytes32 e n.data.length ++ [0, 0, 0, 0]))))))))))) = front
  have hf : front.length = 48 := by simp [← hfront]
  have htake : ∀ r, (unknownNode e nodetypeInode (68 + n.data.length) ++ (front ++ r)).take 60 =
      unknownNode e nodetypeInode (68 + n.data.length) ++ front := by
    intro r
    rw [← List.append_assoc]
    exact List.take_left' (by simp [hf])
  rw [List.append_assoc, List.append_assoc, List.append_assoc, readNode_unknownNode e (by omega)
    (by simp [hf]; omega), if_neg (by simp [nodetypeInode]),
    if_neg (by simp [nodetypeDirent, nodetypeInode]),
    if_pos (show nodetypeInode % 65536 = nodetypeInode from rfl), readInode, htake]
  have hcrc := toNat_mod (crc32 0#32 (unknownNode e nodetypeInode (68 + n.data.length) ++ front))
  generalize crc32 0#32 (unknownNode e nodetypeInode (68 + n.data.length) ++ front) = crc at *
  have hsize : n.data.length % 2 ^ 32 = n.data.length := Nat.mod_eq_of_lt (by omega)
  rw [← hfront]
  simp only [List.append_assoc, List.cons_append, List.nil_append]
  iterate 3 rw [read32_bind]; dsimp only
  iterate 2 rw [read16_bind]; dsimp only
  iterate 7 rw [read32_bind]; dsimp only
  iterate 4 rw [read8_bind]; dsimp only
  iterate 2 rw [read32_bind]; dsimp only
  simp only [hsize, hcrc, toNat_mod, List.take_left, UInt8.toNat_zero, and_self, if_true,
    Option.map_some, Inode.stored]

end Made

end Lede.Mtd
