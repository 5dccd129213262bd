/-
Lede.Nmbm.IoTheorems — what the access routines of `mtk_bmt_nmbm.c` do to the
chip and to the block state table.

`Wrote d lo hi s s'` is the frame of everything that writes in a range of
blocks: only good blocks in `[lo, hi)` were erased or programmed or went bad,
and the rest of the instance is as it was. It is reflexive, transitive and
monotone in the range, so a routine that writes several times is `Wrote` over
the union of its ranges. `StoredAt` says that an image lies in the blocks a
write reported.
-/
import Lede.Nmbm.Attach

namespace Lede.Nmbm

open Lede.Nand Lede.Bmt Lede.Lib

/-! ## Pages -/

section Pages

variable (d : NmbmDesc) (dev : LowerDev)

/-- A read changes neither pages nor log. -/
theorem readPhysPage_flash : ∀ (n : Nat) (fl : Flash) (pg : Nat),
    (readPhysPage dev n fl pg).2.page = fl.page ∧ (readPhysPage dev n fl pg).2.log = fl.log
  | n, fl, pg => by
      rw [readPhysPage]
      cases hr : (lowerRead dev fl pg).1 with
      | ok b => simp [hr]
      | euclean => simp [hr]
      | ebadmsg =>
        simp only [hr]
        cases n with
        | zero => exact ⟨rfl, rfl⟩
        | succ n =>
          obtain ⟨hp, hl⟩ := readPhysPage_flash n (lowerRead dev fl pg).2.2 pg
          exact ⟨hp, hl⟩
      | eio =>
        simp only [hr]
        cases n with
        | zero => exact ⟨rfl, rfl⟩
        | succ n =>
          obtain ⟨hp, hl⟩ := readPhysPage_flash n (lowerRead dev fl pg).2.2 pg
          exact ⟨hp, hl⟩

theorem nmbmReadPhysPage_flash (fl : Flash) (pg : Nat) :
    (nmbmReadPhysPage dev fl pg).2.page = fl.page ∧ (nmbmReadPhysPage dev fl pg).2.log = fl.log :=
  readPhysPage_flash dev _ fl pg

/-- The page loop of a read changes neither pages nor log. -/
theorem readLoop_flash : ∀ (n pg : Nat) (fl : Flash),
    (readLoop dev n pg fl).2.page = fl.page ∧ (readLoop dev n pg fl).2.log = fl.log
  | 0, _, _ => ⟨rfl, rfl⟩
  | n + 1, pg, fl => by
      obtain ⟨hp, hl⟩ := nmbmReadPhysPage_flash dev fl pg
      rw [readLoop]
      dsimp only
      split
      · exact ⟨hp, hl⟩
      · obtain ⟨hp', hl'⟩ := readLoop_flash n (pg + 1) (nmbmReadPhysPage dev fl pg).2
        exact ⟨hp'.trans hp, hl'.trans hl⟩

theorem nmbnReadData_flash (fl : Flash) (pg size : Nat) :
    (nmbnReadData d dev fl pg size).2.page = fl.page ∧
    (nmbnReadData d dev fl pg size).2.log = fl.log :=
  readLoop_flash dev _ pg fl

theorem checkEmptyPages_flash : ∀ (n pg : Nat) (fl : Flash),
    (checkEmptyPages dev n pg fl).2.page = fl.page ∧ (checkEmptyPages dev n pg fl).2.log = fl.log
  | 0, _, _ => ⟨rfl, rfl⟩
  | n + 1, pg, fl => by
      obtain ⟨hp, hl⟩ := nmbmReadPhysPage_flash dev fl pg
      rw [checkEmptyPages]
      dsimp only
      split
      · exact ⟨hp, hl⟩
      · obtain ⟨hp', hl'⟩ := checkEmptyPages_flash n (pg + 1) (nmbmReadPhysPage dev fl pg).2
        exact ⟨hp'.trans hp, hl'.trans hl⟩

variable {d} {A : Set Nat}

/-- The tries of one page write touch the block of the page. -/
theorem writePhysPage_touches (content : Page) : ∀ (n : Nat) (fl : Flash) {pg : Nat},
    pg / d.ppb ∈ A → Flash.Touches d.toGeometry A fl (writePhysPage dev content n fl pg).2
  | 0, fl, _, _ => Flash.Touches.refl fl
  | n + 1, fl, pg, hA => by
      have hstep : Flash.Touches d.toGeometry A fl (lowerWrite dev fl pg content).2 :=
        lowerWrite_touches dev fl content hA
      rw [writePhysPage]
      dsimp only
      split
      · exact hstep
      · exact hstep.trans (writePhysPage_touches content n _ hA)

/-- They leave every other page alone. -/
theorem writePhysPage_page_ne (content : Page) : ∀ (n : Nat) (fl : Flash) {pg q : Nat}, q ≠ pg →
    (writePhysPage dev content n fl pg).2.page q = fl.page q
  | 0, _, _, _, _ => rfl
  | n + 1, fl, pg, q, hq => by
      have hstep : (lowerWrite dev fl pg content).2.page q = fl.page q := by
        simp [lowerWrite, hq]
      rw [writePhysPage]
      dsimp only
      split
      · exact hstep
      · rw [writePhysPage_page_ne content n _ hq, hstep]

theorem erasePhysBlock_touches : ∀ (n : Nat) (fl : Flash) {ba : Nat}, ba ∈ A →
    Flash.Touches d.toGeometry A fl (erasePhysBlock d dev n fl ba).2
  | 0, fl, _, _ => Flash.Touches.refl fl
  | n + 1, fl, ba, hA => by
      have hstep : Flash.Touches d.toGeometry A fl (lowerErase d.toGeometry dev fl ba).2 :=
        lowerErase_touches dev fl hA
      rw [erasePhysBlock]
      dsimp only
      split
      · exact hstep
      · exact hstep.trans (erasePhysBlock_touches n _ hA)

/-- Erasing a block and checking it touches the block. -/
theorem nmbmEraseBlockAndCheck_touches (fl : Flash) {ba : Nat} (hA : ba ∈ A) :
    Flash.Touches d.toGeometry A fl (nmbmEraseBlockAndCheck d dev fl ba).2 := by
  have herase : Flash.Touches d.toGeometry A fl (nmbmErasePhysBlock d dev fl ba).2 :=
    erasePhysBlock_touches dev _ fl hA
  unfold nmbmEraseBlockAndCheck
  dsimp only
  split
  · exact herase
  · split
    · exact herase
    · obtain ⟨hp, hl⟩ := checkEmptyPages_flash dev d.ppb (d.blkPg ba)
        (nmbmErasePhysBlock d dev fl ba).2
      exact herase.trans (Flash.touches_of_eq hp hl)

variable (d)

theorem writeVerifyPage_touches (fl : Flash) {pg : Nat} (dat : Nat → UInt8) (size : Nat)
    (hA : pg / d.ppb ∈ A) :
    Flash.Touches d.toGeometry A fl (writeVerifyPage d dev fl pg dat size).2 := by
  have hwrite : Flash.Touches d.toGeometry A fl
      (nmbmWritePhysPage dev fl pg (pageImage d dat size)).2 :=
    writePhysPage_touches dev _ _ fl hA
  obtain ⟨hp, hl⟩ := nmbmReadPhysPage_flash dev
    (nmbmWritePhysPage dev fl pg (pageImage d dat size)).2 pg
  have hread := hwrite.trans (Flash.touches_of_eq hp hl)
  unfold writeVerifyPage
  dsimp only
  split
  · exact hwrite
  · split
    · exact hread
    · exact hread

theorem writeVerifyPage_page_ne (fl : Flash) {pg q : Nat} (dat : Nat → UInt8) (size : Nat)
    (hq : q ≠ pg) : (writeVerifyPage d dev fl pg dat size).2.page q = fl.page q := by
  have hwrite := writePhysPage_page_ne dev (pageImage d dat size) nmbmTryCount fl hq
  obtain ⟨hp, -⟩ := nmbmReadPhysPage_flash dev
    (nmbmWritePhysPage dev fl pg (pageImage d dat size)).2 pg
  have hread : (nmbmReadPhysPage dev
      (nmbmWritePhysPage dev fl pg (pageImage d dat size)).2 pg).2.page q = fl.page q := by
    rw [hp]
    exact hwrite
  unfold writeVerifyPage
  dsimp only
  split
  · exact hwrite
  · split
    · exact hread
    · exact hread

/-- A page that passed its check holds the data. -/
theorem writeVerifyPage_ok (fl : Flash) (pg : Nat) (dat : Nat → UInt8) (size : Nat)
    (hok : (writeVerifyPage d dev fl pg dat size).1 = true) :
    ∀ i < size, pageByte (writeVerifyPage d dev fl pg dat size).2 pg i = dat i := by
  unfold writeVerifyPage at hok ⊢
  dsimp only at hok ⊢
  split at hok
  · exact absurd hok Bool.false_ne_true
  · next hw =>
    rw [if_neg hw]
    split at hok
    · exact absurd hok Bool.false_ne_true
    · next hr =>
      rw [if_neg hr]
      intro i hi
      have := List.all_eq_true.mp hok i (List.mem_range.mpr hi)
      exact eq_of_beq this

end Pages

/-! ## Data over several pages -/

section Data

variable (d : NmbmDesc) (dev : LowerDev)

theorem writeVerifyLoop_page_lt : ∀ (n pg : Nat) (dat : Nat → UInt8) (size : Nat) (fl : Flash)
    {q : Nat}, q < pg → (writeVerifyLoop d dev n pg dat size fl).2.page q = fl.page q
  | 0, _, _, _, _, _, _ => rfl
  | n + 1, pg, dat, size, fl, q, hq => by
      have hstep := writeVerifyPage_page_ne d dev fl dat (min d.pgSize size) (Nat.ne_of_lt hq)
      rw [writeVerifyLoop]
      dsimp only
      split
      · exact hstep
      · rw [writeVerifyLoop_page_lt n (pg + 1) _ _ _ (by omega), hstep]

theorem writeVerifyLoop_touches {A : Set Nat} : ∀ (n pg : Nat) (dat : Nat → UInt8) (size : Nat)
    (fl : Flash), (∀ q, pg ≤ q → q < pg + n → q / d.ppb ∈ A) →
    Flash.Touches d.toGeometry A fl (writeVerifyLoop d dev n pg dat size fl).2
  | 0, _, _, _, fl, _ => Flash.Touches.refl fl
  | n + 1, pg, dat, size, fl, hA => by
      have hstep := writeVerifyPage_touches d dev fl dat (min d.pgSize size)
        (hA pg (Nat.le_refl pg) (by omega))
      rw [writeVerifyLoop]
      dsimp only
      split
      · exact hstep
      · exact hstep.trans (writeVerifyLoop_touches n (pg + 1) _ _ _
          fun q h₁ h₂ => hA q (by omega) (by omega))

/-- Data that passed its checks lies on the pages. -/
theorem writeVerifyLoop_ok : ∀ (n pg : Nat) (dat : Nat → UInt8) (size : Nat) (fl : Flash),
    size ≤ n * d.pgSize → (writeVerifyLoop d dev n pg dat size fl).1 = true →
    ∀ i < size, pageByte (writeVerifyLoop d dev n pg dat size fl).2 (pg + i / d.pgSize)
      (i % d.pgSize) = dat i
  | 0, _, _, _, _, hsize, _, i, hi => absurd hi (by omega)
  | n + 1, pg, dat, size, fl, hsize, hok, i, hi => by
      have hpos := d.pgSize_pos
      rw [writeVerifyLoop] at hok ⊢
      dsimp only at hok ⊢
      split at hok
      · exact absurd hok Bool.false_ne_true
      · next hw =>
        rw [if_neg hw]
        have hpage := writeVerifyPage_ok d dev fl pg dat (min d.pgSize size) (by simpa using hw)
        rw [Nat.add_mul, Nat.one_mul] at hsize
        rcases Nat.lt_or_ge i d.pgSize with hlt | hge
        · -- the first page: later pages do not touch it
          rw [Nat.div_eq_of_lt hlt, Nat.mod_eq_of_lt hlt]
          show pageByte _ pg i = dat i
          unfold pageByte at hpage ⊢
          rw [writeVerifyLoop_page_lt d dev n (pg + 1) _ _ _ (Nat.lt_succ_self pg)]
          exact hpage i (by omega)
        · have ih := writeVerifyLoop_ok n (pg + 1) (fun j => dat (d.pgSize + j))
            (size - min d.pgSize size) _ (by omega) hok (i - d.pgSize) (by omega)
          have hdiv : i / d.pgSize = (i - d.pgSize) / d.pgSize + 1 := by
            rw [← Nat.add_div_right _ hpos, Nat.sub_add_cancel hge]
          rw [hdiv, Nat.mod_eq_sub_mod hge, show pg + ((i - d.pgSize) / d.pgSize + 1)
            = pg + 1 + (i - d.pgSize) / d.pgSize by omega, ih, Nat.add_sub_cancel' hge]

/-- Enough pages for `size` bytes, and no more than a block has when the data
fits in one. -/
theorem pages_ge (size : Nat) : size ≤ (size + d.pgSize - 1) / d.pgSize * d.pgSize := by
  have hpos := d.pgSize_pos
  have hdiv := Nat.div_add_mod (size + d.pgSize - 1) d.pgSize
  have hmod := Nat.mod_lt (size + d.pgSize - 1) hpos
  rw [Nat.mul_comm] at hdiv
  omega

theorem pages_le {size : Nat} (h : size ≤ d.blkSize) :
    (size + d.pgSize - 1) / d.pgSize ≤ d.ppb := by
  have hpos := d.pgSize_pos
  have hmul := d.ppb_mul_pgSize
  apply Nat.le_of_lt_succ
  rw [Nat.div_lt_iff_lt_mul hpos, Nat.succ_mul]
  omega

theorem nmbnWriteVerifyData_touches {A : Set Nat} (fl : Flash) {ba : Nat} (dat : Nat → UInt8)
    {size : Nat} (hsize : size ≤ d.blkSize) (hA : ba ∈ A) :
    Flash.Touches d.toGeometry A fl (nmbnWriteVerifyData d dev fl ba dat size).2 := by
  refine writeVerifyLoop_touches d dev _ _ dat size fl fun q h₁ h₂ => ?_
  have hle := pages_le d hsize
  have hq : q = d.blkPg ba + (q - d.blkPg ba) := by omega
  rw [hq, d.blkPg_add_div ba (by omega)]
  exact hA

theorem nmbnWriteVerifyData_ok (fl : Flash) (ba : Nat) (dat : Nat → UInt8) (size : Nat)
    (hok : (nmbnWriteVerifyData d dev fl ba dat size).1 = true) :
    ∀ i < size, blockByte d (nmbnWriteVerifyData d dev fl ba dat size).2 ba i = dat i :=
  writeVerifyLoop_ok d dev _ _ dat size fl (pages_ge d size) hok

theorem writeRepeatedLoop_touches {A : Set Nat} (dat : Nat → UInt8) (size : Nat) :
    ∀ (n pg : Nat) (fl : Flash), (∀ q, pg ≤ q → q < pg + n → q / d.ppb ∈ A) →
    Flash.Touches d.toGeometry A fl (writeRepeatedLoop d dev dat size n pg fl).2
  | 0, _, fl, _ => Flash.Touches.refl fl
  | n + 1, pg, fl, hA => by
      have hstep := writeVerifyPage_touches d dev fl dat size (hA pg (Nat.le_refl pg) (by omega))
      rw [writeRepeatedLoop]
      dsimp only
      split
      · exact hstep
      · exact hstep.trans (writeRepeatedLoop_touches dat size n (pg + 1) _
          fun q h₁ h₂ => hA q (by omega) (by omega))

theorem nmbmWriteRepeatedData_touches {A : Set Nat} (fl : Flash) {ba : Nat} (dat : Nat → UInt8)
    (size : Nat) (hA : ba ∈ A) :
    Flash.Touches d.toGeometry A fl (nmbmWriteRepeatedData d dev fl ba dat size).2 := by
  unfold nmbmWriteRepeatedData
  split
  · exact Flash.Touches.refl fl
  · refine writeRepeatedLoop_touches d dev dat size _ _ fl fun q h₁ h₂ => ?_
    have hq : q = d.blkPg ba + (q - d.blkPg ba) := by omega
    rw [hq, d.blkPg_add_div ba (by omega)]
    exact hA

/-- Blocks outside the touched set keep their bytes. -/
theorem blockByte_of_touches {d : NmbmDesc} {A : Set Nat} {fl fl' : Flash}
    (h : Flash.Touches d.toGeometry A fl fl') {ba i : Nat} (hba : ba ∉ A) (hi : i < d.blkSize) :
    blockByte d fl' ba i = blockByte d fl ba i := by
  have hpg : i / d.pgSize < d.ppb := by
    rw [Nat.div_lt_iff_lt_mul d.pgSize_pos, d.ppb_mul_pgSize]
    exact hi
  unfold blockByte pageByte
  rw [h.frame]
  rw [d.blkPg_add_div ba hpg]
  exact hba

end Data

/-! ## Block states -/

section State

variable (ni : NmbmInstance)

theorem getBlockState_setBlockState (ba b : Nat) (state : BitVec 32) :
    getBlockState (setBlockState ni ba state) b =
      if b = ba then state &&& 3#32 else getBlockState ni b :=
  field_setField ni.blockState ba b state

theorem getBlockState_setBad (s : Attached) (ba b : Nat) :
    getBlockState (setBad s ba).tbl b = if b = ba then blockStBad else getBlockState s.tbl b :=
  getBlockState_setBlockState s.tbl ba b blockStBad

theorem isGood_setBad_self (s : Attached) (ba : Nat) : isGood (setBad s ba).tbl ba = false := by
  unfold isGood
  rw [getBlockState_setBad, if_pos rfl]
  rfl

theorem isGood_iff (ba : Nat) : isGood ni ba = true ↔ getBlockState ni ba = blockStGood := by
  unfold isGood
  exact beq_iff_eq

end State

/-! ## The frame of a write -/

/-- From `s` to `s'` only good blocks of `[lo, hi)` were erased, programmed or
marked bad. `same` and `diff` tie `block_state_changed` to the table. -/
structure Wrote (d : NmbmDesc) (lo hi : Nat) (s s' : Attached) : Prop where
  touches : Flash.Touches d.toGeometry {b | lo ≤ b ∧ b < hi} s.flash s'.flash
  state : ∀ b, getBlockState s'.tbl b = getBlockState s.tbl b ∨
    (lo ≤ b ∧ b < hi ∧ isGood s.tbl b = true ∧ getBlockState s'.tbl b = blockStBad)
  rest : s'.tbl = { s.tbl with
    blockState := s'.tbl.blockState, blockStateChanged := s'.tbl.blockStateChanged }
  le : s.tbl.blockStateChanged ≤ s'.tbl.blockStateChanged
  same : s'.tbl.blockStateChanged = s.tbl.blockStateChanged → s'.tbl.blockState = s.tbl.blockState
  diff : s'.tbl.blockStateChanged ≠ s.tbl.blockStateChanged →
    ∃ b, lo ≤ b ∧ b < hi ∧ isGood s.tbl b = true ∧ getBlockState s'.tbl b = blockStBad

namespace Wrote

variable {d : NmbmDesc} {lo hi lo' hi' : Nat} {s s' s'' : Attached}

theorem refl (s : Attached) : Wrote d lo hi s s where
  touches := Flash.Touches.refl _
  state := fun _ => Or.inl rfl
  rest := rfl
  le := Nat.le_refl _
  same := fun _ => rfl
  diff := fun h => absurd rfl h

/-- A good block stays good or goes bad; a bad block stays bad. -/
theorem good_of_good (h : Wrote d lo hi s s') {b : Nat} (hb : isGood s'.tbl b = true) :
    isGood s.tbl b = true := by
  rcases h.state b with he | ⟨-, -, hg, -⟩
  · rw [isGood_iff] at hb ⊢
    rw [← he, hb]
  · exact hg

theorem bad_of_bad (h : Wrote d lo hi s s') {b : Nat} (hb : getBlockState s.tbl b = blockStBad) :
    getBlockState s'.tbl b = blockStBad := by
  rcases h.state b with he | ⟨-, -, -, hbad⟩
  · rw [he, hb]
  · exact hbad

theorem trans (h₁ : Wrote d lo hi s s') (h₂ : Wrote d lo hi s' s'') : Wrote d lo hi s s'' where
  touches := h₁.touches.trans h₂.touches
  state := by
    intro b
    rcases h₂.state b with he | ⟨hl, hh, hg, hb⟩
    · rw [he]
      exact h₁.state b
    · exact Or.inr ⟨hl, hh, h₁.good_of_good hg, hb⟩
  rest := by rw [h₂.rest, h₁.rest]
  le := Nat.le_trans h₁.le h₂.le
  same := by
    intro h
    have hle₁ := h₁.le
    have hle₂ := h₂.le
    rw [h₂.same (by omega), h₁.same (by omega)]
  diff := by
    intro h
    by_cases hd : s'.tbl.blockStateChanged = s.tbl.blockStateChanged
    · obtain ⟨b, hl, hh, hg, hb⟩ := h₂.diff (by rw [hd]; exact h)
      exact ⟨b, hl, hh, h₁.good_of_good hg, hb⟩
    · obtain ⟨b, hl, hh, hg, hb⟩ := h₁.diff hd
      exact ⟨b, hl, hh, hg, h₂.bad_of_bad hb⟩

theorem mono (hl : lo' ≤ lo) (hh : hi ≤ hi') (h : Wrote d lo hi s s') : Wrote d lo' hi' s s' where
  touches := h.touches.mono fun b hb => ⟨Nat.le_trans hl hb.1, Nat.lt_of_lt_of_le hb.2 hh⟩
  state := fun b => (h.state b).imp_right fun ⟨h₁, h₂, h₃⟩ => ⟨by omega, by omega, h₃⟩
  rest := h.rest
  le := h.le
  same := h.same
  diff := by
    intro hne
    obtain ⟨b, h₁, h₂, h₃⟩ := h.diff hne
    exact ⟨b, by omega, by omega, h₃⟩

theorem layout (h : Wrote d lo hi s s') : s'.tbl.toLayout = s.tbl.toLayout := by rw [h.rest]

theorem mainTableBa (h : Wrote d lo hi s s') : s'.tbl.mainTableBa = s.tbl.mainTableBa := by
  rw [h.rest]

theorem backupTableBa (h : Wrote d lo hi s s') : s'.tbl.backupTableBa = s.tbl.backupTableBa := by
  rw [h.rest]

theorem mappingBlocksBa (h : Wrote d lo hi s s') :
    s'.tbl.mappingBlocksBa = s.tbl.mappingBlocksBa := by rw [h.rest]

theorem mappingBlocksTopBa (h : Wrote d lo hi s s') :
    s'.tbl.mappingBlocksTopBa = s.tbl.mappingBlocksTopBa := by rw [h.rest]

theorem mgmtStartBa (h : Wrote d lo hi s s') : s'.tbl.mgmtStartBa = s.tbl.mgmtStartBa := by
  rw [h.rest]

theorem blockMapping (h : Wrote d lo hi s s') : s'.tbl.blockMapping = s.tbl.blockMapping := by
  rw [h.rest]

theorem infoTableCache (h : Wrote d lo hi s s') :
    s'.tbl.infoTableCache = s.tbl.infoTableCache := by rw [h.rest]

theorem infoTable (h : Wrote d lo hi s s') : s'.tbl.infoTable = s.tbl.infoTable := by rw [h.rest]

theorem signature (h : Wrote d lo hi s s') : s'.tbl.signature = s.tbl.signature := by rw [h.rest]

/-- Only the chip changed. -/
theorem of_flash {fl : Flash} (h : Flash.Touches d.toGeometry {b | lo ≤ b ∧ b < hi} s.flash fl) :
    Wrote d lo hi s (withFlash s fl) where
  touches := h
  state := fun _ => Or.inl rfl
  rest := rfl
  le := Nat.le_refl _
  same := fun _ => rfl
  diff := fun h => absurd rfl h

/-- A good block of the range is marked bad. -/
theorem setBad {ba : Nat} (hl : lo ≤ ba) (hh : ba < hi) (hg : isGood s.tbl ba = true) :
    Wrote d lo hi s (setBad s ba) where
  touches := Flash.Touches.refl _
  state := by
    intro b
    rw [getBlockState_setBad]
    split
    · next h => exact Or.inr ⟨by omega, by omega, h ▸ hg, rfl⟩
    · exact Or.inl rfl
  rest := rfl
  le := by
    show s.tbl.blockStateChanged ≤ (setBlockState s.tbl ba blockStBad).blockStateChanged
    unfold setBlockState
    dsimp only
    split
    · omega
    · omega
  same := by
    intro h
    rw [isGood_iff] at hg
    exfalso
    simp [Nmbm.setBad, setBlockState, hg, blockStBad, blockStGood] at h
  diff := fun _ => ⟨ba, hl, hh, hg, by rw [getBlockState_setBad, if_pos rfl]⟩

theorem markBad {ba : Nat} (hl : lo ≤ ba) (hh : ba < hi) (hg : isGood s.tbl ba = true) :
    Wrote d lo hi s (markBad s ba) := by
  have h₁ : Wrote d lo hi s (withFlash s (lowerMarkbad s.flash ba)) :=
    of_flash (Flash.touches_of_eq rfl rfl)
  exact h₁.trans (Wrote.setBad hl hh hg)

end Wrote

/-! ## Images in blocks -/

section Image

variable (d : NmbmDesc)

/-- The bytes of `dat` from `off` up to `size` lie in the blocks of a list, one
erase block after the other. -/
def StoredFrom (fl : Flash) (dat : Nat → UInt8) (size : Nat) : Nat → List Nat → Prop
  | off, [] => size ≤ off
  | off, b :: bs => off < size ∧
    (∀ i < min (size - off) d.blkSize, blockByte d fl b i = dat (off + i)) ∧
    StoredFrom fl dat size (off + min (size - off) d.blkSize) bs

/-- An info table image lies in ascending blocks, the first one `start`, the
last one before `stop`. -/
structure StoredAt (fl : Flash) (dat : Nat → UInt8) (start stop : Nat) (bs : List Nat) : Prop where
  bytes : StoredFrom d fl dat d.infoTableSize 0 bs
  sorted : bs.Pairwise (· < ·)
  head : bs.head? = some start
  last : bs.getLast? = some (stop - 1)
  lt : start < stop
  mem : ∀ b ∈ bs, start ≤ b ∧ b < stop

variable {d}

end Image

/-! ## The range routines -/

section Ranges

variable {d : NmbmDesc} (dev : LowerDev)

/-- Asking whether a block is bad writes nothing. -/
theorem lowerIsbad_wrote {lo hi : Nat} (s : Attached) (ba : Nat) :
    Wrote d lo hi s (withFlash s (lowerIsbad dev s.flash ba).2) :=
  Wrote.of_flash (lowerIsbad_touches dev s.flash ba)

theorem nmbmEraseBlockAndCheck_wrote {lo hi : Nat} (s : Attached) {ba : Nat} (hl : lo ≤ ba)
    (hh : ba < hi) : Wrote d lo hi s (withFlash s (nmbmEraseBlockAndCheck d dev s.flash ba).2) :=
  Wrote.of_flash (nmbmEraseBlockAndCheck_touches dev s.flash ⟨hl, hh⟩)

/-- `nmbm_erase_range`, by induction over the blocks left. -/
theorem eraseRangeLoop_wrote {lo hi : Nat} : ∀ (n ba : Nat) (s : Attached), lo ≤ ba → ba + n ≤ hi →
    Wrote d lo hi s (eraseRangeLoop d dev n ba s)
  | 0, _, s, _, _ => Wrote.refl s
  | n + 1, ba, s, hl, hh => by
      rw [eraseRangeLoop]
      split
      · exact eraseRangeLoop_wrote n (ba + 1) s (by omega) (by omega)
      · next hgood =>
        have hg : isGood s.tbl ba = true := by simpa using hgood
        have hask : Wrote d lo hi s (withFlash s (lowerIsbad dev s.flash ba).2) :=
          lowerIsbad_wrote dev s ba
        dsimp only
        split
        · exact (hask.trans (Wrote.setBad hl (by omega) hg)).trans
            (eraseRangeLoop_wrote n (ba + 1) _ (by omega) (by omega))
        · have herase := hask.trans (nmbmEraseBlockAndCheck_wrote dev _ hl (by omega))
          refine Wrote.trans ?_ (eraseRangeLoop_wrote n (ba + 1) _ (by omega) (by omega))
          split
          · exact herase
          · exact herase.trans (Wrote.markBad hl (by omega) hg)

theorem nmbmEraseRange_wrote (s : Attached) (ba limit : Nat) :
    Wrote d ba limit s (nmbmEraseRange d dev s ba limit) := by
  unfold nmbmEraseRange
  rcases Nat.le_total ba limit with h | h
  · exact eraseRangeLoop_wrote dev _ ba s (Nat.le_refl ba) (by omega)
  · rw [Nat.sub_eq_zero_of_le h]
    exact Wrote.refl s

/-- One step of `nmbm_write_signature`: the block at `ba` is passed over, or it takes
the signature. -/
theorem writeSignatureLoop_succ (sig : Nat → UInt8) (n ba : Nat) (s : Attached) :
    ∃ s₁, Wrote d ba (ba + 1) s s₁ ∧
      (writeSignatureLoop d dev sig (n + 1) ba s = writeSignatureLoop d dev sig n (ba - 1) s₁ ∨
        writeSignatureLoop d dev sig (n + 1) ba s = (some ba, s₁)) := by
  rw [writeSignatureLoop]
  split
  · exact ⟨s, Wrote.refl s, Or.inl rfl⟩
  · next hgood =>
    have hg : isGood s.tbl ba = true := by simpa using hgood
    have hask : Wrote d ba (ba + 1) s (withFlash s (lowerIsbad dev s.flash ba).2) :=
      lowerIsbad_wrote dev s ba
    dsimp only
    split
    · exact ⟨_, hask.trans (Wrote.setBad (Nat.le_refl ba) (by omega) hg), Or.inl rfl⟩
    · have herase := hask.trans (nmbmEraseBlockAndCheck_wrote dev _ (Nat.le_refl ba) (by omega))
      split
      · exact ⟨_, herase.trans (Wrote.markBad (Nat.le_refl ba) (by omega) hg), Or.inl rfl⟩
      · have hwrite := herase.trans (Wrote.of_flash (nmbmWriteRepeatedData_touches d dev _ sig 48
          ⟨Nat.le_refl ba, Nat.lt_succ_self ba⟩))
        split
        · exact ⟨_, hwrite, Or.inr rfl⟩
        · exact ⟨_, hwrite.trans (Wrote.markBad (Nat.le_refl ba) (by omega) hg), Or.inl rfl⟩

/-- `nmbm_write_signature`, over the `n` blocks from `ba` down. -/
theorem writeSignatureLoop_wrote (sig : Nat → UInt8) (lo hi : Nat) : ∀ (n ba : Nat) (s : Attached),
    lo + n ≤ ba + 1 → ba < hi →
    Wrote d lo hi s (writeSignatureLoop d dev sig n ba s).2 ∧
      ∀ r, (writeSignatureLoop d dev sig n ba s).1 = some r → lo ≤ r ∧ r < hi
  | 0, _, s, _, _ => ⟨Wrote.refl s, fun _ h => absurd h (by simp [writeSignatureLoop])⟩
  | n + 1, ba, s, hl, hh => by
      obtain ⟨s₁, hw, heq | heq⟩ := writeSignatureLoop_succ (d := d) dev sig n ba s
      · obtain ⟨ihw, ihr⟩ := writeSignatureLoop_wrote sig lo hi n (ba - 1) s₁ (by omega) (by omega)
        rw [heq]
        exact ⟨(hw.mono (by omega) (by omega)).trans ihw, ihr⟩
      · rw [heq]
        refine ⟨hw.mono (by omega) (by omega), fun r hr => ?_⟩
        obtain rfl := Option.some.inj hr
        omega

/-- The signature is written above the start of the management area. -/
theorem nmbmWriteSignature_wrote (s : Attached) (limit : Nat) (sig : Nat → UInt8) :
    Wrote d (limit + 1) d.blockCount s (nmbmWriteSignature d dev s limit sig).2 ∧
      ∀ r, (nmbmWriteSignature d dev s limit sig).1 = some r → limit < r ∧ r < d.blockCount := by
  unfold nmbmWriteSignature
  by_cases h : limit < d.blockCount - 1
  · exact writeSignatureLoop_wrote dev sig _ _ _ _ s (by omega) (by omega)
  · rw [Nat.sub_eq_zero_of_le (by omega)]
    exact ⟨Wrote.refl s, fun _ hr => absurd hr (by simp [writeSignatureLoop])⟩

/-- `nmbm_scan_badblocks` reads the marks and records them. -/
theorem scanLoop_rest : ∀ (n ba : Nat) (s : Attached),
    (scanLoop dev n ba s).tbl = { s.tbl with
      blockState := (scanLoop dev n ba s).tbl.blockState
      blockStateChanged := (scanLoop dev n ba s).tbl.blockStateChanged } ∧
    Flash.Touches d.toGeometry ∅ s.flash (scanLoop dev n ba s).flash
  | 0, _, s => ⟨rfl, Flash.Touches.refl _⟩
  | n + 1, ba, s => by
      have hask := lowerIsbad_touches (g := d.toGeometry) (A := ∅) dev s.flash ba
      rw [scanLoop]
      dsimp only
      split
      · obtain ⟨hr, ht⟩ := scanLoop_rest n (ba + 1)
          (setBad (withFlash s (lowerIsbad dev s.flash ba).2) ba)
        exact ⟨hr, hask.trans ht⟩
      · obtain ⟨hr, ht⟩ := scanLoop_rest n (ba + 1) (withFlash s (lowerIsbad dev s.flash ba).2)
        exact ⟨hr, hask.trans ht⟩

/-- One step of `nmbm_write_mgmt_range`: the block at `ba` is passed over and not
good from then on, or it takes the next piece of the data. -/
theorem writeMgmtLoop_succ (dat : Nat → UInt8) (size n ba start : Nat) {rest : Nat} (s : Attached)
    (hrest : rest ≠ 0) :
    ∃ s₁, Wrote d ba (ba + 1) s s₁ ∧
      ((isGood s₁.tbl ba = false ∧ writeMgmtLoop d dev dat size (n + 1) ba rest start s
          = writeMgmtLoop d dev dat size n (ba + 1) rest start s₁) ∨
        (isGood s.tbl ba = true ∧ s₁.tbl = s.tbl ∧
          (∀ i < min rest d.blkSize, blockByte d s₁.flash ba i = dat (size - rest + i)) ∧
          writeMgmtLoop d dev dat size (n + 1) ba rest start s
            = writeMgmtLoop d dev dat size n (ba + 1) (rest - min rest d.blkSize)
                (if rest = size then ba else start) s₁)) := by
  rw [writeMgmtLoop, if_neg hrest]
  split
  · next hbad =>
    exact ⟨s, Wrote.refl s, Or.inl ⟨by simpa using hbad, rfl⟩⟩
  · next hgood =>
    have hg : isGood s.tbl ba = true := by simpa using hgood
    have hask : Wrote d ba (ba + 1) s (withFlash s (lowerIsbad dev s.flash ba).2) :=
      lowerIsbad_wrote dev s ba
    dsimp only
    split
    · exact ⟨_, hask.trans (Wrote.setBad (Nat.le_refl ba) (by omega) hg),
        Or.inl ⟨isGood_setBad_self _ ba, rfl⟩⟩
    · have herase := hask.trans (nmbmEraseBlockAndCheck_wrote dev _ (Nat.le_refl ba) (by omega))
      split
      · exact ⟨_, herase.trans (Wrote.markBad (Nat.le_refl ba) (by omega) hg),
          Or.inl ⟨isGood_setBad_self _ ba, rfl⟩⟩
      · have hwrite := herase.trans (Wrote.of_flash (nmbnWriteVerifyData_touches d dev _
          (fun i => dat (size - rest + i)) (Nat.min_le_right rest d.blkSize)
          ⟨Nat.le_refl ba, Nat.lt_succ_self ba⟩))
        split
        · exact ⟨_, hwrite.trans (Wrote.markBad (Nat.le_refl ba) (by omega) hg),
            Or.inl ⟨isGood_setBad_self _ ba, rfl⟩⟩
        · next hok =>
          refine ⟨_, hwrite, Or.inr ⟨hg, rfl, ?_, rfl⟩⟩
          exact nmbnWriteVerifyData_ok d dev _ ba _ _ (by simpa using hok)

/-- `nmbm_write_mgmt_range` writes in its range only. -/
theorem writeMgmtLoop_wrote (dat : Nat → UInt8) (size : Nat) {lo hi : Nat} :
    ∀ (n ba rest start : Nat) (s : Attached), lo ≤ ba → ba + n ≤ hi →
      Wrote d lo hi s (writeMgmtLoop d dev dat size n ba rest start s).2
  | 0, ba, rest, start, s, _, _ => by
      rw [writeMgmtLoop]
      split
      · exact Wrote.refl s
      · exact Wrote.refl s
  | n + 1, ba, rest, start, s, hl, hh => by
      by_cases hrest : rest = 0
      · rw [writeMgmtLoop, if_pos hrest]
        exact Wrote.refl s
      · obtain ⟨s₁, hs₁, ⟨-, heq⟩ | ⟨-, -, -, heq⟩⟩ :=
          writeMgmtLoop_succ (d := d) dev dat size n ba start s hrest
        · rw [heq]
          exact (hs₁.mono hl (by omega)).trans
            (writeMgmtLoop_wrote dat size n (ba + 1) rest start s₁ (by omega) (by omega))
        · rw [heq]
          exact (hs₁.mono hl (by omega)).trans
            (writeMgmtLoop_wrote dat size n (ba + 1) _ _ s₁ (by omega) (by omega))

/-- What a successful `nmbm_write_mgmt_range` from `ba` on with `rest` bytes to go
leaves: the blocks `bs` that took them. They were good before and still are, and
no other block between the first and the last is. -/
structure Took (d : NmbmDesc) (dat : Nat → UInt8) (size : Nat) (s s' : Attached)
    (ba rest start : Nat) (t : Nat × Nat) (bs : List Nat) : Prop where
  bytes : StoredFrom d s'.flash dat size (size - rest) bs
  sorted : bs.Pairwise (· < ·)
  le : ba ≤ t.2
  mem : ∀ b ∈ bs, ba ≤ b ∧ b < t.2 ∧ isGood s.tbl b = true ∧ isGood s'.tbl b = true
  dense : ∀ b, ba ≤ b → t.1 ≤ b ∨ rest ≠ size → b < t.2 → isGood s'.tbl b = true → b ∈ bs
  last : rest ≠ 0 → bs.getLast? = some (t.2 - 1)
  head : rest = size → rest ≠ 0 → bs.head? = some t.1
  start : rest ≠ size → t.1 = start

namespace Took

variable {dat : Nat → UInt8} {size : Nat} {s s₁ s' : Attached} {ba rest start hi : Nat}
  {t : Nat × Nat} {bs : List Nat}

/-- Nothing left to write. -/
theorem done (hrest : rest = 0) : Took d dat size s s ba rest start (start, ba) [] where
  bytes := by
    show size ≤ size - rest
    omega
  sorted := List.Pairwise.nil
  le := Nat.le_refl ba
  mem := fun _ hb => absurd hb List.not_mem_nil
  dense := fun b h₁ _ h₂ => absurd h₂ (by simp only; omega)
  last := fun h => absurd hrest h
  head := fun _ h => absurd hrest h
  start := fun _ => rfl

/-- The block at `ba` was passed over. -/
theorem skip (hs₁ : Wrote d ba (ba + 1) s s₁) (hbad : isGood s₁.tbl ba = false)
    (hw : Wrote d (ba + 1) hi s₁ s') (h : Took d dat size s₁ s' (ba + 1) rest start t bs) :
    Took d dat size s s' ba rest start t bs where
  bytes := h.bytes
  sorted := h.sorted
  le := Nat.le_of_succ_le h.le
  mem := by
    intro b hb
    obtain ⟨h₁, h₂, h₃, h₄⟩ := h.mem b hb
    exact ⟨by omega, h₂, hs₁.good_of_good h₃, h₄⟩
  dense := by
    intro b h₁ h₂ h₃ hg
    rcases Nat.eq_or_lt_of_le h₁ with rfl | hlt
    · rw [hw.good_of_good hg] at hbad
      exact absurd hbad (by simp)
    · exact h.dense b hlt h₂ h₃ hg
  last := h.last
  head := h.head
  start := h.start

/-- The block at `ba` took a piece. -/
theorem take {s₁ : Attached} (hle : rest ≤ size) (hrest : rest ≠ 0) (hg : isGood s.tbl ba = true)
    (htbl : s₁.tbl = s.tbl)
    (hbytes : ∀ i < min rest d.blkSize, blockByte d s₁.flash ba i = dat (size - rest + i))
    (hw : Wrote d (ba + 1) hi s₁ s')
    (hstop : rest - min rest d.blkSize = 0 → t.2 = ba + 1)
    (h : Took d dat size s₁ s' (ba + 1) (rest - min rest d.blkSize)
      (if rest = size then ba else start) t bs) :
    Took d dat size s s' ba rest start t (ba :: bs) := by
  have hpos := d.blkSize_pos
  have hle' := h.le
  have hgood' : isGood s'.tbl ba = true := by
    rw [← htbl] at hg
    rw [isGood_iff] at hg ⊢
    rcases hw.state ba with he | ⟨hlo, -⟩
    · rw [he, hg]
    · omega
  constructor
  · refine ⟨by omega, fun i hi => ?_, ?_⟩
    · -- the rest of the loop stays above this block
      rw [blockByte_of_touches hw.touches (fun hb => by have := hb.1; omega) (by omega)]
      exact hbytes i (by omega)
    · rw [show size - rest + min (size - (size - rest)) d.blkSize
        = size - (rest - min rest d.blkSize) by omega]
      exact h.bytes
  · exact List.pairwise_cons.mpr ⟨fun b hb => by have := (h.mem b hb).1; omega, h.sorted⟩
  · omega
  · intro b hb
    rcases List.mem_cons.mp hb with rfl | hb
    · exact ⟨Nat.le_refl _, by omega, hg, hgood'⟩
    · obtain ⟨h₁, h₂, h₃, h₄⟩ := h.mem b hb
      exact ⟨by omega, h₂, htbl ▸ h₃, h₄⟩
  · intro b h₁ _ h₂ h₃
    rcases Nat.eq_or_lt_of_le h₁ with rfl | hlt
    · exact List.mem_cons_self
    · exact List.mem_cons_of_mem _ (h.dense b hlt (Or.inr (by omega)) h₂ h₃)
  · intro _
    by_cases hmore : rest - min rest d.blkSize = 0
    · -- this was the last piece
      have hnil : bs = [] := by
        cases bs with
        | nil => rfl
        | cons b bs =>
          have := h.bytes.1
          omega
      rw [hnil, hstop hmore]
      rfl
    · rw [List.getLast?_cons, h.last hmore]
      rfl
  · intro hsz _
    rw [List.head?_cons, h.start (by omega), if_pos hsz]
  · intro hsz
    rw [h.start (by omega), if_neg hsz]

end Took

/-- The loop of `nmbm_write_mgmt_range` ends at once when nothing is left. -/
theorem writeMgmtLoop_rest_zero (dat : Nat → UInt8) (size n ba start : Nat) (s : Attached) :
    writeMgmtLoop d dev dat size n ba 0 start s = (some (start, ba), s) := by
  cases n with
  | zero => rw [writeMgmtLoop, if_pos rfl]
  | succ n => rw [writeMgmtLoop, if_pos rfl]

theorem writeMgmtLoop_took (dat : Nat → UInt8) (size : Nat) :
    ∀ (n ba rest start : Nat) (s : Attached) {t : Nat × Nat}, rest ≤ size →
      (writeMgmtLoop d dev dat size n ba rest start s).1 = some t →
      t.2 ≤ ba + n ∧ ∃ bs, Took d dat size s (writeMgmtLoop d dev dat size n ba rest start s).2
        ba rest start t bs
  | 0, ba, rest, start, s, t, _, h => by
      rw [writeMgmtLoop] at h ⊢
      split at h
      · next h0 =>
        rw [if_pos h0]
        obtain rfl := Option.some.inj h
        exact ⟨Nat.le_refl _, [], Took.done h0⟩
      · exact absurd h (by simp)
  | n + 1, ba, rest, start, s, t, hle, h => by
      by_cases hrest : rest = 0
      · rw [hrest, writeMgmtLoop_rest_zero] at h ⊢
        obtain rfl := Option.some.inj h
        exact ⟨Nat.le_add_right _ _, [], Took.done rfl⟩
      · obtain ⟨s₁, hs₁, ⟨hbad, heq⟩ | ⟨hg, htbl, hbytes, heq⟩⟩ :=
          writeMgmtLoop_succ (d := d) dev dat size n ba start s hrest
        · rw [heq] at h ⊢
          obtain ⟨hlt, bs, ih⟩ := writeMgmtLoop_took dat size n (ba + 1) rest start s₁ hle h
          exact ⟨by omega, bs, Took.skip hs₁ hbad
            (writeMgmtLoop_wrote dev dat size n (ba + 1) _ _ s₁ (Nat.le_refl _) (Nat.le_refl _)) ih⟩
        · rw [heq] at h ⊢
          obtain ⟨hlt, bs, ih⟩ :=
            writeMgmtLoop_took dat size n (ba + 1) (rest - min rest d.blkSize) _ s₁ (by omega) h
          refine ⟨by omega, ba :: bs, Took.take hle hrest hg htbl hbytes
            (writeMgmtLoop_wrote dev dat size n (ba + 1) _ _ s₁ (Nat.le_refl _) (Nat.le_refl _))
            (fun hmore => ?_) ih⟩
          rw [hmore, writeMgmtLoop_rest_zero] at h
          rw [← Option.some.inj h]

theorem infoTableSize_pos : 0 < d.infoTableSize := by
  have hdiv := Nat.div_add_mod (32 + d.pgSize - 1) d.pgSize
  have hmod := Nat.mod_lt (32 + d.pgSize - 1) d.pgSize_pos
  have hge : 32 ≤ d.stateTableOff := by
    unfold NmbmDesc.stateTableOff alignUp
    rw [Nat.mul_comm]
    omega
  unfold NmbmDesc.infoTableSize NmbmDesc.mappingTableOff
  omega

theorem nmbmWriteInfoTable_wrote (s : Attached) (ba limit : Nat) :
    Wrote d ba limit s (nmbmWriteInfoTable d dev s ba limit).2 := by
  unfold nmbmWriteInfoTable
  rcases Nat.le_total ba limit with h | h
  · exact writeMgmtLoop_wrote dev _ _ _ ba _ _ s (Nat.le_refl ba) (by omega)
  · rw [Nat.sub_eq_zero_of_le h, writeMgmtLoop, if_neg (Nat.ne_of_gt infoTableSize_pos)]
    exact Wrote.refl s

/-- A table with image `img` in the good blocks of `start .. stop - 1`. -/
structure Fresh (d : NmbmDesc) (img : Nat → UInt8) (fl : Flash) (state : Nat → BitVec 32)
    (start stop : Nat) (bs : List Nat) : Prop where
  stored : StoredAt d fl img start stop bs
  good : ∀ b, start ≤ b → b < stop → (b ∈ bs ↔ field state b = blockStGood)

/-- A table that was written lies between the block asked for and the limit. -/
theorem nmbmWriteInfoTable_stored (s : Attached) {ba limit : Nat} {t : Nat × Nat}
    (h : (nmbmWriteInfoTable d dev s ba limit).1 = some t) :
    ba ≤ t.1 ∧ t.2 ≤ limit ∧
      ∃ bs, Fresh d s.tbl.infoTableCache (nmbmWriteInfoTable d dev s ba limit).2.flash
        (nmbmWriteInfoTable d dev s ba limit).2.tbl.blockState t.1 t.2 bs := by
  have hpos := infoTableSize_pos (d := d)
  unfold nmbmWriteInfoTable at h ⊢
  have hlim : ba ≤ limit := by
    by_contra hgt
    rw [Nat.sub_eq_zero_of_le (by omega), writeMgmtLoop, if_neg (by omega)] at h
    exact absurd h (by simp)
  obtain ⟨hle, bs, htook⟩ :=
    writeMgmtLoop_took dev s.tbl.infoTableCache d.infoTableSize (limit - ba) ba d.infoTableSize 0 s
      (Nat.le_refl _) h
  have hst := htook.bytes
  rw [Nat.sub_self] at hst
  have hhead := htook.head rfl (by omega)
  obtain ⟨h₁, h₂, -, -⟩ := htook.mem t.1 (List.mem_of_mem_head? hhead)
  have hmem : ∀ b ∈ bs, t.1 ≤ b ∧ b < t.2 := by
    intro b hb
    refine ⟨?_, (htook.mem b hb).2.1⟩
    -- ascending, so the head is the least
    have hsorted := htook.sorted
    cases bs with
    | nil => exact absurd hb List.not_mem_nil
    | cons a bs =>
      obtain rfl := Option.some.inj hhead
      rcases List.mem_cons.mp hb with rfl | hb
      · exact Nat.le_refl _
      · exact Nat.le_of_lt ((List.pairwise_cons.mp hsorted).1 b hb)
  refine ⟨h₁, by omega, bs, ⟨hst, htook.sorted, hhead, htook.last (by omega), h₂, hmem⟩, ?_⟩
  intro b hb hb'
  exact ⟨fun hm => (isGood_iff _ b).mp (htook.mem b hm).2.2.2,
    fun hg => htook.dense b (Nat.le_trans h₁ hb) (Or.inl hb) hb' ((isGood_iff _ b).mpr hg)⟩

end Ranges

end Lede.Nmbm
