/-
Lede.Nand.Flash — the raw NAND chip below the bad-block layers of
`drivers/mtd/nand/mtk_bmt*.c`.

The three back ends reach the chip only through five function pointers of
`struct bmt_desc`: `_read_oob`, `_write_oob`, `_erase`, `_block_isbad` and
`_block_markbad`. What the chip answers is not the driver's to decide, so it
is a parameter here: a `LowerDev` gives, for every operation and every moment,
the return value and what the operation leaves behind. A theorem that
quantifies over `LowerDev` covers every pattern of failures, including ones
that depend on everything that happened before: the moment (`Flash.clock`)
advances with each operation, so one run reads each answer once.

Two things a `LowerDev` cannot do: change a page no operation addresses, and
hand out other bytes than the page holds on a read that succeeds. The second
is what the ECC of the chip is for.

`Flash.log` lists the erases and page programs issued so far. It is what a
power cut cuts (`replay`), and what the frame statements are about
(`Flash.Touches`).
-/
import Mathlib.Algebra.Group.Nat.Defs
import Mathlib.Data.Set.Basic
import Mathlib.Tactic.Common

namespace Lede.Nand

/-! ## Geometry -/

/-- The geometry fields of `struct bmt_desc`. `total_blks` is a `u16`; the
page and the erase block are powers of two, the first no larger than the
second. -/
structure Geometry where
  blkShift : Nat
  pgShift : Nat
  totalBlks : Nat
  pgShift_le : pgShift ≤ blkShift
  totalBlks_lt : totalBlks < 65536

namespace Geometry

/-- `bmtd.blk_size`. -/
def blkSize (g : Geometry) : Nat := 2 ^ g.blkShift

/-- `bmtd.pg_size`. -/
def pgSize (g : Geometry) : Nat := 2 ^ g.pgShift

/-- Pages per erase block, `bmtd.blk_size >> bmtd.pg_shift`. -/
def ppb (g : Geometry) : Nat := 2 ^ (g.blkShift - g.pgShift)

/-- `blk_pg`: the first page of a block. -/
def blkPg (g : Geometry) (block : Nat) : Nat := block * g.ppb

theorem ppb_pos (g : Geometry) : 0 < g.ppb := Nat.two_pow_pos _

theorem pgSize_pos (g : Geometry) : 0 < g.pgSize := Nat.two_pow_pos _

theorem blkSize_pos (g : Geometry) : 0 < g.blkSize := Nat.two_pow_pos _

theorem ppb_mul_pgSize (g : Geometry) : g.ppb * g.pgSize = g.blkSize := by
  rw [ppb, pgSize, blkSize, ← Nat.pow_add, Nat.sub_add_cancel g.pgShift_le]

/-- A page of a block, found again from its number. -/
theorem blkPg_add_div (g : Geometry) (block : Nat) {j : Nat} (h : j < g.ppb) :
    (g.blkPg block + j) / g.ppb = block := by
  rw [blkPg, Nat.add_comm, Nat.add_mul_div_right _ _ g.ppb_pos, Nat.div_eq_of_lt h,
    Nat.zero_add]

end Geometry

/-! ## Pages and the chip -/

/-- One page: its data and its out-of-band bytes. -/
structure Page where
  data : List UInt8
  oob : List UInt8
  deriving DecidableEq, Repr

/-- An erased page reads as all `0xff`. -/
def Geometry.erasedPage (g : Geometry) : Page where
  data := List.replicate g.pgSize 0xff
  oob := []

/-- The operations that change the chip. -/
inductive FlashOp where
  | erase (blk : Nat)
  | program (pg : Nat) (content : Page)
  deriving DecidableEq, Repr

/-- The erase block an operation works on. -/
def FlashOp.block (g : Geometry) : FlashOp → Nat
  | .erase blk => blk
  | .program pg _ => pg / g.ppb

/-- The chip: its pages by page number, the erases and programs issued so far
and the number of operations of any kind. -/
structure Flash where
  page : Nat → Page
  log : List FlashOp
  clock : Nat

/-- What `_read_oob` returns for a page: the number of corrected bitflips,
`-EUCLEAN`, `-EBADMSG` or another error. -/
inductive ReadRet where
  | ok (bitflips : Nat)
  | euclean
  | ebadmsg
  | eio
  deriving DecidableEq, Repr

/-- `ret < 0 && !mtd_is_bitflip(ret)`: the read delivered nothing usable. -/
def ReadRet.failed : ReadRet → Bool
  | .ok _ | .euclean => false
  | .ebadmsg | .eio => true

/-- The answers of the chip, by the moment of the operation. -/
structure LowerDev where
  /-- `_read_oob` of a page. -/
  readRet : (clock pg : Nat) → ReadRet
  /-- `_write_oob` of a page returns 0. -/
  writeOk : (clock pg : Nat) → Bool
  /-- What a page holds after a program: from what it held and what was asked. -/
  stored : (clock pg : Nat) → Page → Page → Page
  /-- `_erase` of a block returns 0. -/
  eraseOk : (clock blk : Nat) → Bool
  /-- What a page holds after an erase of its block. -/
  cleared : (clock pg : Nat) → Page → Page
  /-- `_block_isbad`. -/
  isBad : (clock blk : Nat) → Bool

/-! ## The five operations -/

section Ops

variable (g : Geometry) (dev : LowerDev)

/-- `_read_oob` of one page. The buffer is only looked at when the return
value says so. -/
def lowerRead (fl : Flash) (pg : Nat) : ReadRet × Page × Flash :=
  (dev.readRet fl.clock pg, fl.page pg, { fl with clock := fl.clock + 1 })

/-- `_write_oob` of one page. -/
def lowerWrite (fl : Flash) (pg : Nat) (content : Page) : Bool × Flash :=
  (dev.writeOk fl.clock pg,
   { page := fun q => if q = pg then dev.stored fl.clock pg (fl.page pg) content else fl.page q
     log := fl.log ++ [.program pg content]
     clock := fl.clock + 1 })

/-- `_erase` of one block. -/
def lowerErase (fl : Flash) (blk : Nat) : Bool × Flash :=
  (dev.eraseOk fl.clock blk,
   { page := fun q => if q / g.ppb = blk then dev.cleared fl.clock q (fl.page q) else fl.page q
     log := fl.log ++ [.erase blk]
     clock := fl.clock + 1 })

/-- `_block_isbad`. -/
def lowerIsbad (fl : Flash) (blk : Nat) : Bool × Flash :=
  (dev.isBad fl.clock blk, { fl with clock := fl.clock + 1 })

/-- `_block_markbad`. Its return value is ignored by every caller, and the mark
itself shows only in later answers of `_block_isbad`. -/
def lowerMarkbad (fl : Flash) (_blk : Nat) : Flash :=
  { fl with clock := fl.clock + 1 }

end Ops

/-! ## Well-behaved chips -/

/-- A program that returns 0 stored what it was given, an erase that returns 0
left every page of the block erased. -/
structure LowerDev.Honest (g : Geometry) (dev : LowerDev) : Prop where
  stored_of_ok : ∀ t pg old new, dev.writeOk t pg = true → dev.stored t pg old new = new
  cleared_of_ok : ∀ t pg old, dev.eraseOk t (pg / g.ppb) = true →
    dev.cleared t pg old = g.erasedPage

/-- Every read delivers its page. -/
def LowerDev.ReadsOk (dev : LowerDev) : Prop := ∀ t pg, ∃ n, dev.readRet t pg = .ok n

/-- The chip on which nothing ever fails. -/
def LowerDev.perfect (g : Geometry) : LowerDev where
  readRet := fun _ _ => .ok 0
  writeOk := fun _ _ => true
  stored := fun _ _ _ new => new
  eraseOk := fun _ _ => true
  cleared := fun _ _ _ => g.erasedPage
  isBad := fun _ _ => false

theorem LowerDev.perfect_honest (g : Geometry) : (LowerDev.perfect g).Honest g where
  stored_of_ok := fun _ _ _ _ _ => rfl
  cleared_of_ok := fun _ _ _ _ => rfl

theorem LowerDev.perfect_readsOk (g : Geometry) : (LowerDev.perfect g).ReadsOk :=
  fun _ _ => ⟨0, rfl⟩

/-- A chip on which every operation on a page leaves the same bytes behind. -/
def LowerDev.smear (c : Page) : LowerDev where
  readRet := fun _ _ => .ok 0
  writeOk := fun _ _ => true
  stored := fun _ _ _ _ => c
  eraseOk := fun _ _ => true
  cleared := fun _ _ _ => c
  isBad := fun _ _ => false

/-! ## Frames -/

/-- From `fl` to `fl'` only blocks of `A` were erased or programmed. -/
structure Flash.Touches (g : Geometry) (A : Set Nat) (fl fl' : Flash) : Prop where
  frame : ∀ p, p / g.ppb ∉ A → fl'.page p = fl.page p
  logged : ∃ ops, fl'.log = fl.log ++ ops ∧ ∀ op ∈ ops, op.block g ∈ A

namespace Flash.Touches

variable {g : Geometry} {A B : Set Nat} {fl fl' fl'' : Flash}

theorem refl (fl : Flash) : Flash.Touches g A fl fl :=
  ⟨fun _ _ => rfl, [], by simp, by simp⟩

theorem trans (h₁ : Flash.Touches g A fl fl') (h₂ : Flash.Touches g A fl' fl'') :
    Flash.Touches g A fl fl'' := by
  obtain ⟨ops₁, e₁, m₁⟩ := h₁.logged
  obtain ⟨ops₂, e₂, m₂⟩ := h₂.logged
  refine ⟨fun p hp => (h₂.frame p hp).trans (h₁.frame p hp), ops₁ ++ ops₂, ?_, ?_⟩
  · rw [e₂, e₁, List.append_assoc]
  · intro op hop
    rcases List.mem_append.mp hop with h | h
    · exact m₁ op h
    · exact m₂ op h

theorem mono (hAB : A ⊆ B) (h : Flash.Touches g A fl fl') : Flash.Touches g B fl fl' := by
  obtain ⟨ops, e, m⟩ := h.logged
  exact ⟨fun p hp => h.frame p (fun ha => hp (hAB ha)), ops, e, fun op hop => hAB (m op hop)⟩

/-- Two steps that touch different blocks touch the union. -/
theorem union (h₁ : Flash.Touches g A fl fl') (h₂ : Flash.Touches g B fl' fl'') :
    Flash.Touches g (A ∪ B) fl fl'' :=
  (h₁.mono Set.subset_union_left).trans (h₂.mono Set.subset_union_right)

end Flash.Touches

section OpFrames

variable {g : Geometry} (dev : LowerDev) (fl : Flash)

@[simp] theorem lowerRead_page (pg : Nat) : (lowerRead dev fl pg).2.2.page = fl.page := rfl

@[simp] theorem lowerRead_log (pg : Nat) : (lowerRead dev fl pg).2.2.log = fl.log := rfl

@[simp] theorem lowerRead_content (pg : Nat) : (lowerRead dev fl pg).2.1 = fl.page pg := rfl

@[simp] theorem lowerIsbad_page (blk : Nat) : (lowerIsbad dev fl blk).2.page = fl.page := rfl

@[simp] theorem lowerIsbad_log (blk : Nat) : (lowerIsbad dev fl blk).2.log = fl.log := rfl

@[simp] theorem lowerMarkbad_page (blk : Nat) : (lowerMarkbad fl blk).page = fl.page := rfl

@[simp] theorem lowerMarkbad_log (blk : Nat) : (lowerMarkbad fl blk).log = fl.log := rfl

/-- An operation that keeps pages and log touches nothing. -/
theorem Flash.touches_of_eq {A : Set Nat} {fl fl' : Flash} (hp : fl'.page = fl.page)
    (hl : fl'.log = fl.log) : Flash.Touches g A fl fl' :=
  ⟨fun _ _ => by rw [hp], [], by simp [hl], by simp⟩

theorem lowerRead_touches {A : Set Nat} (pg : Nat) :
    Flash.Touches g A fl (lowerRead dev fl pg).2.2 :=
  Flash.touches_of_eq rfl rfl

theorem lowerIsbad_touches {A : Set Nat} (blk : Nat) :
    Flash.Touches g A fl (lowerIsbad dev fl blk).2 :=
  Flash.touches_of_eq rfl rfl

theorem lowerWrite_touches {A : Set Nat} {pg : Nat} (content : Page) (hA : pg / g.ppb ∈ A) :
    Flash.Touches g A fl (lowerWrite dev fl pg content).2 := by
  refine ⟨fun p hp => ?_, [.program pg content], rfl, ?_⟩
  · have hne : p ≠ pg := fun h => hp (h ▸ hA)
    simp [lowerWrite, hne]
  · intro op hop
    obtain rfl := List.mem_singleton.mp hop
    exact hA

theorem lowerErase_touches {A : Set Nat} {blk : Nat} (hA : blk ∈ A) :
    Flash.Touches g A fl (lowerErase g dev fl blk).2 := by
  refine ⟨fun p hp => ?_, [.erase blk], rfl, ?_⟩
  · have hne : p / g.ppb ≠ blk := fun h => hp (h ▸ hA)
    simp [lowerErase, hne]
  · intro op hop
    obtain rfl := List.mem_singleton.mp hop
    exact hA

end OpFrames

end Lede.Nand
