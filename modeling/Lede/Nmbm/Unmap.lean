/-
Lede.Nmbm.Unmap — `unmap_block_nmbm`, which the debugfs entries "repair" and "mark_good" call.

The block a logical block had before its remaps is not stored. The routine walks down to the next
logical block that is not remapped and counts up from its physical block.
-/
import Lede.Nmbm.Attach

namespace Lede.Nmbm

open Lede.Nand Lede.Bmt Lede.Lib

/-! ## The routine -/

/-- `ni->block_mapping[block] >= ni->mapping_blocks_ba`, compared as `u32`. -/
def isRemapped (ni : NmbmInstance) (block : Nat) : Bool :=
  ni.mappingBlocksBa ≤ (ni.blockMapping block).toNat

/-- The first loop of `unmap_block_nmbm`: `start`, or `none` if it gets below 0. -/
def unmapStart (ni : NmbmInstance) : Nat → Option Nat
  | 0 => if isRemapped ni 0 then none else some 0
  | start + 1 => if isRemapped ni (start + 1) then unmapStart ni start else some (start + 1)

/-- The second loop of `unmap_block_nmbm`, with `n` logical blocks left: `new_block`, below every
block that is mapped in the spare area. -/
def unmapTopLoop (ni : NmbmInstance) : Nat → Nat → Int → Int
  | 0, _, newBlock => newBlock
  | n + 1, block, newBlock =>
    let cur := (ni.blockMapping block).toInt
    let newBlock := if isRemapped ni block ∧ cur ≤ newBlock then cur - 1 else newBlock
    unmapTopLoop ni n (block + 1) newBlock

/-- `ni->block_mapping[start] + offset`. -/
def unmapTarget (ni : NmbmInstance) (block start : Nat) : BitVec 32 :=
  ni.blockMapping start + BitVec.ofNat 32 (block - start)

/-- The block is good, and mapped. -/
def mapBack (ni : NmbmInstance) (block : Nat) (newBlock : BitVec 32) : NmbmInstance :=
  let ni := setBlockState ni newBlock.toNat blockStGood
  { ni with
    blockMapping := fun i => if i = block then newBlock else ni.blockMapping i
    blockMappingChanged := ni.blockMappingChanged + 1 }

/-- `ni->mapping_blocks_top_ba = new_block`. -/
def resetTop (ni : NmbmInstance) : NmbmInstance :=
  { ni with mappingBlocksTopBa :=
      (unmapTopLoop ni ni.dataBlockCount 0 ((ni.signatureBa : Int) - 1) % 2 ^ 32).toNat }

/-- `unmap_block_nmbm`. -/
def unmapBlockNmbm (d : NmbmDesc) (dev : LowerDev) (s : Attached) (block : Nat) : Attached :=
  if block ≥ s.tbl.dataBlockCount then s
  else
    match unmapStart s.tbl block with
    | none => s
    | some start =>
      if block - start = 0 then s
      else
        let ni := resetTop (mapBack s.tbl block (unmapTarget s.tbl block start))
        (nmbmUpdateInfoTable d dev { s with tbl := ni }).2

/-! ## Created instances -/

/-- `s` was created, with `scanned` the instance that `nmbm_build_mapping_table` worked on: on a
new chip, or on one with a signature and without a table. -/
inductive Created (d : NmbmDesc) (dev : LowerDev) : NmbmInstance → Attached → Prop where
  | new {s₀ s : Attached} (h : nmbmCreateNew d dev s₀ = (true, s)) :
      Created d dev
        (nmbmScanBadblocks d dev { s₀ with tbl := { s₀.tbl with mgmtStartBa := newMgmtStart d } }).tbl s
  | again {s₀ s : Attached} (hsig : s₀.tbl.signatureBa < d.blockCount)
      (h : nmbmCreateInfoTable d dev (rescan d dev s₀) = (true, s)) :
      Created d dev (nmbmScanBadblocks d dev s₀).tbl s

/-- The arguments of a `remap_block_nmbm`. -/
structure RemapCall where
  block : Nat
  mappedBlock : Nat
  copyLen : Nat

/-- Remaps one after the other. -/
def runRemaps (d : NmbmDesc) (dev : LowerDev) (s : Attached) (calls : List RemapCall) : Attached :=
  calls.foldl (fun s c => (remapBlockNmbm d dev s c.block c.mappedBlock c.copyLen).2) s

/-! ## What it is for -/

/-- A block that was not bad when the mapping was built. -/
def WasGood (scanned : NmbmInstance) (b : Nat) : Prop := getBlockState scanned b ≠ blockStBad

instance (scanned : NmbmInstance) : DecidablePred (WasGood scanned) :=
  fun b => inferInstanceAs (Decidable (getBlockState scanned b ≠ blockStBad))

/-- The mapping of `block` is as it was; or it is the one of the creation, to a block that was not
bad then, that no other logical block is mapped to, and that lies before the management area. -/
def Restores (d : NmbmDesc) (scanned : NmbmInstance) (s s' : Attached) (block : Nat) : Prop :=
  let new := s'.tbl.blockMapping block
  new = s.tbl.blockMapping block ∨
    block < (nmbmBuildMappingTable d scanned).dataBlockCount ∧
    new = (nmbmBuildMappingTable d scanned).blockMapping block ∧
    WasGood scanned new.toNat ∧
    (∀ i < s'.tbl.dataBlockCount, i ≠ block → s'.tbl.blockMapping i ≠ new) ∧
    new.toNat < s'.tbl.mgmtStartBa

/-- The blocks behind the one that `start` is mapped to, up to the target, are data blocks that
were all good at the creation; or the block is mapped to the target already. -/
def StraightFrom (scanned : NmbmInstance) (ni : NmbmInstance) (block start : Nat) : Prop :=
  ni.blockMapping block = unmapTarget ni block start ∨
    (ni.blockMapping start).toNat < ni.mgmtStartBa ∧
    ∀ b, (ni.blockMapping start).toNat < b → b ≤ (ni.blockMapping start).toNat + (block - start) →
      b < ni.mgmtStartBa ∧ WasGood scanned b

/-- Nothing is written, or the target is right. -/
def Unmappable (scanned : NmbmInstance) (ni : NmbmInstance) (block : Nat) : Prop :=
  ni.dataBlockCount ≤ block ∨
    match unmapStart ni block with
    | none => True
    | some start => start = block ∨ StraightFrom scanned ni block start

end Lede.Nmbm
