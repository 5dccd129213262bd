/-
Lede.Mtd.Jffs2Scan — `mtd_parse_jffs2data` of `jffs2.c`: what is known of a JFFS2 file system before
a file is added to it.

The scan goes over the nodes of an erase block by their lengths, and takes the inode of a directory
and the highest numbers from the directory entries. `mem` is the memory behind the buffer, of which
the block is the first `erasesize` bytes. It ends and stays inside the block for those blocks whose
lengths lead out of it, and whose last nodes have room for what is read of them (`NodeFits`).
-/
import Lede.Lib.Access
import Lede.Lib.Orbit
import Lede.Mtd.Jffs2Node

namespace Lede.Mtd

open Lede.Lib Lede.Lib.Orbit

/-! ## The scan -/

/-- The variables of the scan; numbers of inodes are compared as unsigned. -/
structure ScanState where
  ofs : Nat
  targetIno : BitVec 32
  lastIno : BitVec 32
  lastVersion : BitVec 32
deriving DecidableEq, Repr

section Scan

variable (e : Endian) (mem : Nat → UInt8) (erasesize : Nat) (dir : List UInt8)

/-- `strncmp` of the bytes at `a` and a string: whether they are equal, and how many are read. -/
def strncmp : Nat → List UInt8 → Nat → Bool × Nat
  | _, _, 0 => (true, 0)
  | a, [], _ + 1 => (mem a == 0, 1)
  | a, c :: cs, n + 1 =>
    if mem a = c then
      let (eq, k) := strncmp (a + 1) cs n
      (eq, k + 1)
    else (false, 1)

/-- The name of the directory entry at `de`, compared with the directory. -/
def direntName (de : Nat) : Bool × Nat := strncmp mem (de + 40) dir (mem (de + 28)).toNat

/-- What is taken from the directory entry at `de`. -/
def scanDirent (s : ScanState) (de : Nat) : ScanState :=
  let ino := ld32 e mem (de + 20)
  let version := ld32 e mem (de + 16)
  let s := if dir ≠ [] ∧ ld32 e mem (de + 12) = 1 ∧ (direntName mem dir de).1 then
      { s with targetIno := ino } else s
  let s := if s.lastIno < ino then { s with lastIno := ino } else s
  if s.lastVersion < version then { s with lastVersion := version } else s

/-- An iteration of `mtd_parse_jffs2data`, if there is one; `PAD` is taken in 32 bits. -/
def scanStep (s : ScanState) : Option ScanState :=
  if s.ofs < erasesize then
    if ld16 e mem s.ofs ≠ 0x1985 then none
    else
      let node := s.ofs
      let s := { s with ofs := (s.ofs + padded (ld32 e mem (node + 4)).toNat) % 2 ^ 32 }
      if (ld16 e mem (node + 2)).toNat = nodetypeDirent then some (scanDirent e mem dir s node)
      else some s
  else none

/-- What the comparison of a directory entry reads. -/
def nameReads (de : Nat) : List Access :=
  if dir ≠ [] then
    ⟨de + 12, 4⟩ ::
      if ld32 e mem (de + 12) = 1 then
        ⟨de + 28, 1⟩ ::
          if (direntName mem dir de).2 = 0 then [] else [⟨de + 40, (direntName mem dir de).2⟩]
      else []
  else []

/-- What an iteration reads. -/
def scanReads (s : ScanState) : List Access :=
  if s.ofs < erasesize then
    ⟨s.ofs, 2⟩ ::
      if ld16 e mem s.ofs ≠ 0x1985 then []
      else
        ⟨s.ofs + 4, 4⟩ :: ⟨s.ofs + 2, 2⟩ ::
          if (ld16 e mem (s.ofs + 2)).toNat = nodetypeDirent then
            nameReads e mem dir s.ofs ++ [⟨s.ofs + 20, 4⟩, ⟨s.ofs + 16, 4⟩]
          else []
  else []

/-- The scan ends, and reads inside the block. -/
def ScansInside (s : ScanState) : Prop :=
  Ends (scanStep e mem erasesize dir) s ∧
    ∀ k s', walkAt (scanStep e mem erasesize dir) s k = some s' →
      Within erasesize (scanReads e mem erasesize dir s')

/-! ## The nodes -/

/-- The node behind the one at `o`. -/
def nextNode (o : Nat) : Option Nat :=
  if o < erasesize ∧ ld16 e mem o = 0x1985 then
    some ((o + padded (ld32 e mem (o + 4)).toNat) % 2 ^ 32)
  else none

/-- What is read of a node has room in the block: two bytes for the magic, eight for a header, 24
for a directory entry, and its name as far as it is compared. -/
def NodeFits (o : Nat) : Prop :=
  o + 2 ≤ erasesize ∧
    (ld16 e mem o = 0x1985 → o + 8 ≤ erasesize ∧
      ((ld16 e mem (o + 2)).toNat = nodetypeDirent → o + 24 ≤ erasesize ∧
        (dir ≠ [] → ld32 e mem (o + 12) = 1 → o + 29 ≤ erasesize ∧
          ((direntName mem dir o).2 ≠ 0 → o + 40 + (direntName mem dir o).2 ≤ erasesize))))

/-- The lengths lead out of the block within as many nodes as it has room for, and every node on the
way has room in it. -/
def NodesFit : Prop :=
  walkAt (nextNode e mem erasesize) 0 ((erasesize + 3) / 4 + 1) = none ∧
    ∀ k o, walkAt (nextNode e mem erasesize) 0 k = some o → o < erasesize →
      NodeFits e mem erasesize dir o

end Scan

variable {e : Endian} {mem : Nat → UInt8} {erasesize : Nat} {dir : List UInt8}

theorem scanDirent_ofs (s : ScanState) (de : Nat) : (scanDirent e mem dir s de).ofs = s.ofs := by
  simp only [scanDirent]
  split_ifs <;> rfl

/-- The scan goes from node to node. -/
theorem nextNode_ofs (s : ScanState) :
    nextNode e mem erasesize s.ofs = (scanStep e mem erasesize dir s).map (·.ofs) := by
  rw [nextNode, scanStep]
  by_cases hlt : s.ofs < erasesize
  · by_cases hmagic : ld16 e mem s.ofs = 0x1985
    · rw [if_pos ⟨hlt, hmagic⟩, if_pos hlt, if_neg (not_not.2 hmagic)]
      simp only
      split
      · rw [Option.map_some, scanDirent_ofs]
      · rfl
    · rw [if_neg (fun h => hmagic h.2), if_pos hlt, if_pos hmagic, Option.map_none]
  · rw [if_neg (fun h => hlt h.1), if_neg hlt, Option.map_none]

theorem four_dvd_walkAt (k o : Nat) (h : walkAt (nextNode e mem erasesize) 0 k = some o) :
    4 ∣ o := by
  induction k generalizing o with
  | zero =>
    cases h
    exact dvd_zero 4
  | succ k ih =>
    rw [walkAt_succ] at h
    obtain ⟨o', ho', hnext⟩ := Option.bind_eq_some_iff.1 h
    have hdvd := ih o' ho'
    rw [nextNode] at hnext
    split at hnext
    · rw [← Option.some.inj hnext, padded]
      omega
    · cases hnext

/-- There is a node at no more than every fourth byte. -/
theorem nodes_end_iff :
    Ends (nextNode e mem erasesize) 0 ↔
      walkAt (nextNode e mem erasesize) 0 ((erasesize + 3) / 4 + 1) = none := by
  have hcard : ((Finset.range ((erasesize + 3) / 4)).image (4 * ·)).card = (erasesize + 3) / 4 := by
    rw [Finset.card_image_of_injective _ fun a b h => by omega, Finset.card_range]
  rw [← hcard]
  refine ends_iff _ fun k o ho hnext => ?_
  obtain ⟨j, rfl⟩ := four_dvd_walkAt k o ho
  have hlt : 4 * j < erasesize := by
    by_contra hge
    exact hnext (if_neg fun h => hge h.1)
  exact Finset.mem_image.2 ⟨j, Finset.mem_range.2 (by omega), rfl⟩

theorem nameReads_within (de : Nat) :
    Within erasesize (nameReads e mem dir de) ↔ (dir ≠ [] → de + 16 ≤ erasesize ∧
      (ld32 e mem (de + 12) = 1 → de + 29 ≤ erasesize ∧
        ((direntName mem dir de).2 ≠ 0 → de + 40 + (direntName mem dir de).2 ≤ erasesize))) := by
  rw [nameReads]
  split_ifs with hdir hpino hlen
  · simp [hdir, hpino, hlen, Nat.add_assoc]
  · simp [hdir, hpino, hlen, Nat.add_assoc]
  · rw [within_cons, imp_iff_right hdir]
    exact and_congr_right fun _ => ⟨fun _ h => absurd h hpino, fun _ => within_nil⟩
  · simp [hdir]

/-- An iteration reads inside the block where its node fits. -/
theorem scanReads_within (s : ScanState) :
    Within erasesize (scanReads e mem erasesize dir s) ↔
      (s.ofs < erasesize → NodeFits e mem erasesize dir s.ofs) := by
  rw [scanReads, NodeFits]
  by_cases hlt : s.ofs < erasesize
  · rw [if_pos hlt, within_cons, imp_iff_right hlt]
    refine and_congr_right fun _ => ?_
    by_cases hmagic : ld16 e mem s.ofs = 0x1985
    · rw [if_neg (not_not.2 hmagic), within_cons, within_cons, imp_iff_right hmagic]
      by_cases hdirent : (ld16 e mem (s.ofs + 2)).toNat = nodetypeDirent
      · rw [if_pos hdirent, within_append, nameReads_within, imp_iff_right hdirent]
        simp only [within_cons, within_nil]
        constructor
        · rintro ⟨h₁, -, h₂, h₃, -⟩
          exact ⟨by omega, by omega, fun hdir hpino => (h₂ hdir).2 hpino⟩
        · rintro ⟨h₁, h₂, h₃⟩
          exact ⟨by omega, by omega, fun hdir => ⟨by omega, h₃ hdir⟩, by omega, by omega, trivial⟩
      · rw [if_neg hdirent]
        simp only [within_nil, hdirent, false_imp_iff, and_true]
        omega
    · rw [if_pos hmagic]
      exact ⟨fun _ h => absurd h hmagic, fun _ => within_nil⟩
  · rw [if_neg hlt]
    simp [hlt]

/-- The scan of a block ends inside it exactly where the lengths of its nodes lead out of it, and
the nodes fit. -/
theorem parseJffs2data_ends_iff (e : Endian) (mem : Nat → UInt8) (erasesize : Nat)
    (dir : List UInt8) (targetIno lastIno lastVersion : BitVec 32) :
    ScansInside e mem erasesize dir ⟨0, targetIno, lastIno, lastVersion⟩ ↔
      NodesFit e mem erasesize dir := by
  have hplace : ∀ s, nextNode e mem erasesize s.ofs =
      (scanStep e mem erasesize dir s).map (·.ofs) := nextNode_ofs
  have hends := ends_map hplace ⟨0, targetIno, lastIno, lastVersion⟩
  have hmap := walkAt_map hplace ⟨0, targetIno, lastIno, lastVersion⟩
  rw [ScansInside, NodesFit, hends, ← nodes_end_iff]
  refine and_congr_right fun _ => ⟨fun h k o ho => ?_, fun h k s hs => ?_⟩
  · rw [hmap k] at ho
    obtain ⟨s, hs, rfl⟩ := Option.map_eq_some_iff.1 ho
    exact (scanReads_within s).1 (h k s hs)
  · rw [scanReads_within]
    exact h k s.ofs (by rw [hmap k, hs]; rfl)

/-- A clean marker of no length at the front of a block. -/
def emptyNode : Nat → UInt8 := fun i =>
  [0x85, 0x19, 0x03, 0x20, 0x00, 0x00, 0x00, 0x00].getD i 0xff

/-- The scan of it never gets on. -/
theorem emptyNode_never_ends : ¬ScansInside .little emptyNode 65536 [0x78] ⟨0, 0, 0, 0⟩ := by
  rintro ⟨⟨k, hk⟩, -⟩
  have hself : scanStep .little emptyNode 65536 [0x78] ⟨0, 0, 0, 0⟩ = some ⟨0, 0, 0, 0⟩ := by
    decide +kernel
  refine walkAt_ne_none_of_return Nat.one_pos ?_ k hk
  rw [walkAt_succ, walkAt_zero, Option.bind_some, hself]

end Lede.Mtd
