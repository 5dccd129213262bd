/-
Lede.Bmt.V2AttachTheorems — what `mtk_bmt_init_v2` finds after `upload_bmt`.

The writer and the reader of the table do not agree on where it is. The writer
starts at `bmt_blk_idx` and moves to the slot below when an erase or a program
fails; the `BMT_MAPPED` mark stays on the slot it was set on by the scan. The
reader walks the chip from its last block down, takes the first block with a
signature, and recomputes the index as the first slot marked `BMT_MAPPED`. So
a table stored below its first slot is discarded, and a table left behind by a
failed erase in a higher block is preferred.

`initSearch_table_iff` reads the search as a statement about the pages of the
chip; `uploadBmt_pages` says what the writer leaves there; `uploadBmt_restored_iff`
puts the two together.
-/
import Lede.Bmt.V2RunTheorems

namespace Lede.Bmt

open Lede.Nand Lede.Lib

/-! ## The index of a stored table -/

section Index

variable (d : V2Desc) (mem : Nat → UInt8)

/-- Slot `n` is the first one marked `BMT_MAPPED`, and none up to it is empty. -/
structure FirstMarked (n : Nat) : Prop where
  block : ∀ k ≤ n, bmtBlock d mem k ≠ 0
  before : ∀ k < n, bmtMark d mem k ≠ bmtMapped
  mark : bmtMark d mem n = bmtMapped

/-- The search of `get_bmt_index` from slot `i` on, when it does not end with 0. -/
theorem getBmtIndexLoop_spec : ∀ (fuel i : Nat), getBmtIndexLoop d mem fuel i ≠ 0 →
    i ≤ getBmtIndexLoop d mem fuel i ∧ getBmtIndexLoop d mem fuel i < i + fuel ∧
    (∀ k, i ≤ k → k ≤ getBmtIndexLoop d mem fuel i → bmtBlock d mem k ≠ 0) ∧
    (∀ k, i ≤ k → k < getBmtIndexLoop d mem fuel i → bmtMark d mem k ≠ bmtMapped) ∧
    bmtMark d mem (getBmtIndexLoop d mem fuel i) = bmtMapped
  | 0, _, h => absurd rfl h
  | fuel + 1, i, h => by
      rw [getBmtIndexLoop] at h ⊢
      split at h
      · exact absurd rfl h
      · next hblock =>
        rw [if_neg hblock]
        split at h
        · next hmark =>
          rw [if_pos hmark]
          refine ⟨Nat.le_refl i, by omega, fun k h₁ h₂ => ?_, fun k h₁ h₂ => by omega, hmark⟩
          obtain rfl : k = i := by omega
          exact hblock
        · next hmark =>
          rw [if_neg hmark]
          obtain ⟨hge, hlt, hb, hm, hend⟩ := getBmtIndexLoop_spec fuel (i + 1) h
          refine ⟨by omega, by omega, fun k h₁ h₂ => ?_, fun k h₁ h₂ => ?_, hend⟩
          · by_cases hk : k = i
            · exact hk ▸ hblock
            · exact hb k (by omega) h₂
          · by_cases hk : k = i
            · exact hk ▸ hmark
            · exact hm k (by omega) h₂

/-- The search reaches the first marked slot. -/
theorem getBmtIndexLoop_of_firstMarked {n : Nat} (h : FirstMarked d mem n) : ∀ (fuel i : Nat),
    i ≤ n → n < i + fuel → getBmtIndexLoop d mem fuel i = n
  | 0, _, h₁, h₂ => absurd h₂ (by omega)
  | fuel + 1, i, h₁, h₂ => by
      rw [getBmtIndexLoop, if_neg (h.block i h₁)]
      by_cases hi : i = n
      · rw [hi, if_pos h.mark]
      · rw [if_neg (h.before i (by omega))]
        exact getBmtIndexLoop_of_firstMarked h fuel (i + 1) (by omega) (by omega)

/-- `get_bmt_index` returns a usable index exactly for the first marked slot. -/
theorem getBmtIndex_eq_iff {n : Nat} (hn : n ≠ 0) :
    getBmtIndex d mem = n ↔ n < 65536 ∧ FirstMarked d mem n := by
  constructor
  · intro h
    have hne : getBmtIndexLoop d mem 65536 0 ≠ 0 := fun h0 => hn (h.symm.trans h0)
    obtain ⟨-, hlt, hb, hm, hend⟩ := getBmtIndexLoop_spec d mem 65536 0 hne
    rw [show getBmtIndexLoop d mem 65536 0 = n from h] at hlt hb hm hend
    exact ⟨by omega, fun k hk => hb k (Nat.zero_le k) hk, fun k hk => hm k (Nat.zero_le k) hk, hend⟩
  · rintro ⟨hlt, h⟩
    exact getBmtIndexLoop_of_firstMarked d mem h 65536 0 (Nat.zero_le n) (by omega)

end Index

/-! ## The search at attach -/

section Search

variable (d : V2Desc) {dev : LowerDev}

/-- The pages in which a table at `block` is looked for. -/
def tablePages (fl : Flash) (block : Nat) : List Page := pagesFrom fl (d.blkPg block) d.bmtPgs

/-- A block that reads as a table. What lies behind the buffer does not matter. -/
def holdsTable (fl : Flash) (block : Nat) : Bool :=
  isValidBmt (bufOfPages d (fun _ => 0xff) (tablePages d fl block))
    (fdmOfPages d (tablePages d fl block))

/-- The buffer has room for the header and four bytes for each logical block. -/
theorem bufsz_ge : bbbtHdr + 4 * d.tableSize ≤ d.bufsz := by
  have hpos : 0 < 2 ^ d.pgShift := Nat.two_pow_pos _
  have hdiv := Nat.div_add_mod (bbbtHdr + d.tableSize * 4 + 2 ^ d.pgShift - 1) (2 ^ d.pgShift)
  have hmod := Nat.mod_lt (bbbtHdr + d.tableSize * 4 + 2 ^ d.pgShift - 1) hpos
  unfold V2Config.bufsz Geometry.pgSize
  rw [d.bmtPgs_eq]
  generalize (bbbtHdr + d.tableSize * 4 + 2 ^ d.pgShift - 1) / 2 ^ d.pgShift = q at hdiv ⊢
  rw [Nat.mul_comm q]
  omega

theorem isValidBmt_bufOfPages (mem : Nat → UInt8) (pages : List Page) (fdm : Nat → UInt8) :
    isValidBmt (bufOfPages d mem pages) fdm = isValidBmt (bufOfPages d (fun _ => 0xff) pages) fdm := by
  have hsz : 4 ≤ d.bufsz := by
    have := bufsz_ge d
    unfold bbbtHdr at this
    omega
  have hbyte : ∀ a < 4, bufOfPages d mem pages a = bufOfPages d (fun _ => 0xff) pages a := by
    intro a ha
    unfold bufOfPages
    rw [if_pos (by omega), if_pos (by omega)]
  unfold isValidBmt
  rw [hbyte 0 (by decide), hbyte 1 (by decide), hbyte 2 (by decide), hbyte 3 (by decide)]

theorem tablePages_congr {fl fl' : Flash} (h : fl'.page = fl.page) (block : Nat) :
    tablePages d fl' block = tablePages d fl block := by
  unfold tablePages pagesFrom
  rw [h]

theorem holdsTable_congr {fl fl' : Flash} (h : fl'.page = fl.page) (block : Nat) :
    holdsTable d fl' block = holdsTable d fl block := by
  unfold holdsTable
  rw [tablePages_congr d h]

/-- One step of the search, when every read succeeds. -/
theorem initSearch_succ (hread : dev.ReadsOk) (mem : Nat → UInt8) (n : Nat) (fl : Flash) :
    ∃ fl', fl'.page = fl.page ∧ initSearch d dev mem (n + 1) fl =
      if holdsTable d fl (d.poolLba + n) = true then
        if getBmtIndex d (bufOfPages d mem (tablePages d fl (d.poolLba + n))) = 0 then
          (.badIndex (d.poolLba + n), fl')
        else
          (.table (d.poolLba + n) (bufOfPages d mem (tablePages d fl (d.poolLba + n)))
            (getBmtIndex d (bufOfPages d mem (tablePages d fl (d.poolLba + n)))), fl')
      else initSearch d dev mem n fl' := by
  have hpages := bbtNandRead_of_readsOk hread d.bmtPgs fl (d.blkPg (d.poolLba + n))
  refine ⟨_, (bbtNandRead_flash dev d.bmtPgs fl (d.blkPg (d.poolLba + n))).1, ?_⟩
  rw [initSearch]
  dsimp only
  rw [hpages]
  dsimp only
  rw [isValidBmt_bufOfPages]
  rfl

/-- When every read succeeds, the search depends on the pages of the chip only:
it ends at the highest block that reads as a table. -/
theorem initSearch_table_iff (hread : dev.ReadsOk) (mem : Nat → UInt8) (b : Nat)
    (buf : Nat → UInt8) (idx : Nat) : ∀ (n : Nat) (fl : Flash),
    (initSearch d dev mem n fl).1 = .table b buf idx ↔
      d.poolLba ≤ b ∧ b < d.poolLba + n ∧ holdsTable d fl b = true ∧
      (∀ b', b < b' → b' < d.poolLba + n → holdsTable d fl b' = false) ∧
      buf = bufOfPages d mem (tablePages d fl b) ∧ idx = getBmtIndex d buf ∧ idx ≠ 0
  | 0, fl => by
      constructor
      · intro h
        exact absurd h (by simp [initSearch])
      · rintro ⟨h₁, h₂, -⟩
        omega
  | n + 1, fl => by
      obtain ⟨fl', hpage, hstep⟩ := initSearch_succ d hread mem n fl
      rw [hstep]
      cases hvalid : holdsTable d fl (d.poolLba + n) with
      | true =>
        -- the block the search looks at first ends it
        rw [if_pos rfl]
        constructor
        · intro h
          split at h
          · exact absurd h (by simp)
          · next hidx =>
            obtain ⟨rfl, rfl, rfl⟩ := Found.table.inj h
            exact ⟨by omega, by omega, hvalid, fun b' h₁ h₂ => by omega, rfl, rfl, hidx⟩
        · rintro ⟨h₁, h₂, -, h₄, rfl, rfl, h₇⟩
          have hb : b = d.poolLba + n := by
            by_contra hne
            have hnone := h₄ (d.poolLba + n) (by omega) (by omega)
            rw [hvalid] at hnone
            exact Bool.false_ne_true hnone.symm
          subst hb
          rw [if_neg h₇]
      | false =>
        rw [if_neg Bool.false_ne_true, initSearch_table_iff hread mem b buf idx n fl',
          tablePages_congr d hpage]
        simp only [holdsTable_congr d hpage]
        constructor
        · rintro ⟨h₁, h₂, h₃, h₄, h₅⟩
          refine ⟨h₁, by omega, h₃, fun b' hb hb' => ?_, h₅⟩
          by_cases he : b' = d.poolLba + n
          · rw [he, hvalid]
          · exact h₄ b' hb (by omega)
        · rintro ⟨h₁, h₂, h₃, h₄, h₅⟩
          refine ⟨h₁, ?_, h₃, fun b' hb hb' => h₄ b' hb (by omega), h₅⟩
          by_contra hge
          obtain rfl : b = d.poolLba + n := by omega
          rw [hvalid] at h₃
          exact Bool.false_ne_true h₃

end Search

/-! ## What the writer leaves -/

section Write

variable {d : V2Desc} {dev : LowerDev}

/-- The bytes of the buffer, read back from the pages `write_bmt` programs. -/
theorem bufOfPages_bmtPages (mem dat : Nat → UInt8) {a : Nat} (ha : a < d.bufsz) :
    bufOfPages d mem (bmtPages d.toBmtDesc bmtSig dat) a = dat a := by
  have hpos := d.pgSize_pos
  have hpage : a / d.pgSize < d.bmtPgs := by
    rw [Nat.div_lt_iff_lt_mul hpos]
    exact ha
  have hoff : a % d.pgSize < d.pgSize := Nat.mod_lt a hpos
  unfold bufOfPages bmtPages
  rw [if_pos ha]
  simp only [List.getD_eq_getElem?_getD, List.getElem?_map, List.getElem?_range hpage,
    List.getElem?_range hoff, Option.map_some, Option.getD_some]
  rw [Nat.mul_comm, Nat.div_add_mod]

/-- A signed table is recognised. -/
theorem isValidBmt_signTable (mem : Nat → UInt8) :
    isValidBmt (bufOfPages d (fun _ => 0xff) (bmtPages d.toBmtDesc bmtSig (signTable mem)))
      (fdmOfPages d (bmtPages d.toBmtDesc bmtSig (signTable mem))) = true := by
  have hsz : 4 ≤ d.bufsz := by
    have := bufsz_ge d
    unfold bbbtHdr at this
    omega
  have hpgs : 0 < d.bmtPgs := by
    unfold V2Config.bufsz at hsz
    exact Nat.pos_of_ne_zero fun h0 => by simp [h0] at hsz
  have hfdm : ∀ i, fdmOfPages d (bmtPages d.toBmtDesc bmtSig (signTable mem)) i =
      (List.replicate (1 + d.oobOffset) 0xff ++ bmtSig).getD (d.oobOffset + i) 0xff := by
    intro i
    unfold fdmOfPages bmtPages
    simp only [List.getD_eq_getElem?_getD, List.getElem?_map, List.getElem?_range hpgs,
      Option.map_some, Option.getD_some, if_true]
  have hsig : ∀ i, fdmOfPages d (bmtPages d.toBmtDesc bmtSig (signTable mem)) (1 + i) =
      bmtSig.getD i 0xff := by
    intro i
    rw [hfdm, List.getD_eq_getElem?_getD, List.getElem?_append_right
      (by rw [List.length_replicate]; omega), List.length_replicate, List.getD_eq_getElem?_getD,
      show d.oobOffset + (1 + i) - (1 + d.oobOffset) = i by omega]
  unfold isValidBmt
  rw [bufOfPages_bmtPages _ _ (by omega), bufOfPages_bmtPages _ _ (by omega),
    bufOfPages_bmtPages _ _ (by omega), bufOfPages_bmtPages _ _ (by omega), hsig 0, hsig 1, hsig 2]
  rfl

theorem signTable_idem (mem : Nat → UInt8) : signTable (signTable mem) = signTable mem := by
  funext a
  unfold signTable
  split <;> simp_all

/-- `upload_bmt` on an honest chip: the slot it returns holds the signed table
as it is in memory afterwards. -/
theorem uploadBmt_pages (hdev : dev.Honest d.toGeometry) : ∀ (m : Nat) (s : Bmtd V2Tbl),
    (uploadBmt d dev m s).1 ≠ noSlot →
    tablePages d (uploadBmt d dev m s).2.flash
      (bmtBlock d (uploadBmt d dev m s).2.tbl.mem (uploadBmt d dev m s).1)
        = bmtPages d.toBmtDesc bmtSig (uploadBmt d dev m s).2.tbl.mem ∧
    signTable (uploadBmt d dev m s).2.tbl.mem = (uploadBmt d dev m s).2.tbl.mem
  | 0, s, h => absurd rfl h
  | n + 1, s, h => by
      rw [uploadBmt] at h ⊢
      split at h
      · exact absurd rfl h
      · next hmark =>
        rw [if_neg hmark]
        dsimp only at h ⊢
        split at h
        · next herase =>
          rw [if_pos herase]
          exact uploadBmt_pages hdev n _ h
        · next herase =>
          rw [if_neg herase]
          split at h
          · next hwrite =>
            rw [if_pos hwrite]
            exact uploadBmt_pages hdev n _ h
          · next hwrite =>
            rw [if_neg hwrite]
            refine ⟨?_, signTable_idem _⟩
            have hw : (writeBmt d.toBmtDesc dev bmtSig
                (bbtNandErase d.toBmtDesc dev s.flash (bmtBlock d s.tbl.mem n)).2
                (bmtBlock d s.tbl.mem n) (signTable s.tbl.mem)).1 = true := by
              simpa using hwrite
            have hok := lowerWritePages_stored hdev _ _ _ hw
            rw [bmtPages_length] at hok
            rw [bmtBlock_signTable]
            exact hok

end Write

/-! ## Writer and reader together -/

/-- Attaching finds the table that slot `n` of `s` stores, whatever the memory
behind the buffer holds: the same `bb_tbl`, the same entries up to the slot, and
`n` as the index. -/
def Restored (d : V2Desc) (dev : LowerDev) (s : Bmtd V2Tbl) (n : Nat) : Prop :=
  ∀ mem : Nat → UInt8, ∃ buf fl,
    (initSearch d dev mem (d.totalBlks - d.poolLba) s.flash).1
      = .table (bmtBlock d s.tbl.mem n) buf n ∧
    mtkBmtInitV2 d dev s.flash mem
      = some { flash := fl, tbl := { mem := buf, bmtBlkIdx := n, poolPba := 0 } } ∧
    (∀ i < d.tableSize, bbTbl buf i = bbTbl s.tbl.mem i) ∧
    ∀ k ≤ n, bmtBlock d buf k = bmtBlock d s.tbl.mem k ∧ bmtMark d buf k = bmtMark d s.tbl.mem k

section Restored

variable {d : V2Desc} {dev : LowerDev}

/-- A table that the search returns is the one `mtk_bmt_init_v2` uses. -/
theorem mtkBmtInitV2_of_table {fl : Flash} {mem buf : Nat → UInt8} {b idx : Nat}
    (h : (initSearch d dev mem (d.totalBlks - d.poolLba) fl).1 = .table b buf idx) :
    ∃ fl', mtkBmtInitV2 d dev fl mem
      = some { flash := fl', tbl := { mem := buf, bmtBlkIdx := idx, poolPba := 0 } } := by
  unfold mtkBmtInitV2
  generalize initSearch d dev mem (d.totalBlks - d.poolLba) fl = res at h ⊢
  obtain ⟨found, fl'⟩ := res
  dsimp only at h
  subst h
  exact ⟨fl', rfl⟩

/-- Up to the slot it returns, `upload_bmt` does not change the entries. -/
theorem firstMarked_upload {m n : Nat} {mem mem' : Nat → UInt8} (hu : Uploaded d m mem n mem')
    (hn : n ≠ noSlot) : FirstMarked d mem' n ↔ FirstMarked d mem n := by
  obtain ⟨-, -, hblock⟩ := hu.slot.resolve_left hn
  constructor
  · rintro ⟨hb, hm, he⟩
    refine ⟨fun k hk => ?_, fun k hk => ?_, ?_⟩
    · rw [← hblock k hk]
      exact hb k hk
    · rw [← hu.mark]
      exact hm k hk
    · rw [← hu.mark, he]
  · rintro ⟨hb, hm, he⟩
    refine ⟨fun k hk => ?_, fun k hk => ?_, ?_⟩
    · rw [hblock k hk]
      exact hb k hk
    · rw [hu.mark]
      exact hm k hk
    · rw [hu.mark, he]

/-- The entries of a buffer read back, as far as the buffer reaches. -/
theorem bmtEntry_readBack (mem dat : Nat → UInt8) {n : Nat} (hroom : d.bmtOff (n + 1) ≤ d.bufsz) :
    ∀ k ≤ n, bmtBlock d (bufOfPages d mem (bmtPages d.toBmtDesc bmtSig dat)) k = bmtBlock d dat k ∧
      bmtMark d (bufOfPages d mem (bmtPages d.toBmtDesc bmtSig dat)) k = bmtMark d dat k := by
  intro k hk
  unfold V2Config.bmtOff at hroom
  unfold bmtBlock bmtMark V2Config.bmtOff
  constructor
  · exact get16_congr fun i hi => bufOfPages_bmtPages mem dat (by omega)
  · exact get16_congr fun i hi => bufOfPages_bmtPages mem dat (by omega)

theorem bbTbl_readBack (mem dat : Nat → UInt8) {i : Nat} (hi : i < d.tableSize) :
    bbTbl (bufOfPages d mem (bmtPages d.toBmtDesc bmtSig dat)) i = bbTbl dat i := by
  have hsz := bufsz_ge d
  exact get16_congr fun j hj => bufOfPages_bmtPages mem dat (by omega)

/-- Over memory full of `0xff` a slot outside the buffer is not marked. -/
theorem bmtMark_outside (dat : Nat → UInt8) {n : Nat} (hroom : ¬ d.bmtOff (n + 1) ≤ d.bufsz) :
    bmtMark d (bufOfPages d (fun _ => 0xff) (bmtPages d.toBmtDesc bmtSig dat)) n ≠ bmtMapped := by
  have hbyte : bufOfPages d (fun _ => 0xff) (bmtPages d.toBmtDesc bmtSig dat) (d.bmtOff n + 2 + 1)
      = 0xff := by
    unfold V2Config.bmtOff at hroom
    unfold bufOfPages V2Config.bmtOff
    rw [if_neg (by omega)]
  unfold bmtMark get16
  rw [hbyte, show (0xff : UInt8).toNat = 255 from rfl]
  unfold bmtMapped
  omega

/-- A restored table was stored in the first marked slot. -/
theorem firstMarked_of_restored (hread : dev.ReadsOk) {s : Bmtd V2Tbl} {n : Nat}
    (hpages : tablePages d s.flash (bmtBlock d s.tbl.mem n) = bmtPages d.toBmtDesc bmtSig s.tbl.mem)
    (h : Restored d dev s n) :
    n ≠ 0 ∧ n < 65536 ∧ FirstMarked d s.tbl.mem n ∧ d.bmtOff (n + 1) ≤ d.bufsz := by
  obtain ⟨buf, -, hfound, -, -, hentry⟩ := h fun _ => 0xff
  obtain ⟨-, -, -, -, hbuf, hidx, hn⟩ :=
    (initSearch_table_iff d hread _ _ buf n _ s.flash).mp hfound
  obtain ⟨hlt, hfirst⟩ := (getBmtIndex_eq_iff d buf hn).mp hidx.symm
  refine ⟨hn, hlt, ⟨fun k hk => ?_, fun k hk => ?_, ?_⟩, ?_⟩
  · rw [← (hentry k hk).1]
    exact hfirst.block k hk
  · rw [← (hentry k (Nat.le_of_lt hk)).2]
    exact hfirst.before k hk
  · rw [← (hentry n (Nat.le_refl n)).2]
    exact hfirst.mark
  · by_contra hroom
    rw [hpages] at hbuf
    rw [hbuf] at hfirst
    exact bmtMark_outside s.tbl.mem hroom hfirst.mark

/-- Persistence of the table: after `upload_bmt` has stored it in slot `n`,
attaching restores it exactly when `n` is the slot `get_bmt_index` finds in the
table that was handed to `upload_bmt`, not slot 0 and inside the buffer, its
block is one of those searched, and no higher block is left with a table. -/
theorem uploadBmt_restored_iff (hdev : dev.Honest d.toGeometry) (hread : dev.ReadsOk) (m : Nat)
    (s : Bmtd V2Tbl) {n : Nat} (hup : (uploadBmt d dev m s).1 = n) (hn : n ≠ noSlot) :
    Restored d dev (uploadBmt d dev m s).2 n ↔
      n ≠ 0 ∧ getBmtIndex d s.tbl.mem = n ∧ d.bmtOff (n + 1) ≤ d.bufsz ∧
      d.poolLba ≤ bmtBlock d s.tbl.mem n ∧ bmtBlock d s.tbl.mem n < d.totalBlks ∧
      ∀ b, bmtBlock d s.tbl.mem n < b → b < d.totalBlks →
        holdsTable d (uploadBmt d dev m s).2.flash b = false := by
  have hu := uploadBmt_uploaded (d := d) dev m s
  obtain ⟨hpages, hsign⟩ := uploadBmt_pages hdev m s (by rwa [hup])
  rw [hup] at hu hpages
  generalize (uploadBmt d dev m s).2 = s' at hu hpages hsign ⊢
  have hblock : bmtBlock d s'.tbl.mem n = bmtBlock d s.tbl.mem n :=
    (hu.slot.resolve_left hn).2.2 n (Nat.le_refl n)
  have hlba : d.poolLba ≤ d.totalBlks := by
    have hps := d.poolSize_lt
    rw [d.poolLba_eq, d.pmtBlock_eq]
    omega
  constructor
  · intro h
    obtain ⟨hn0, hlt, hfirst, hroom⟩ := firstMarked_of_restored hread hpages h
    obtain ⟨buf, -, hfound, -⟩ := h fun _ => 0xff
    obtain ⟨hge, htop, -, habove, -⟩ :=
      (initSearch_table_iff d hread _ _ buf n _ s'.flash).mp hfound
    rw [hblock] at hge htop habove
    rw [getBmtIndex_eq_iff d _ hn0, ← firstMarked_upload hu hn]
    exact ⟨hn0, ⟨hlt, hfirst⟩, hroom, hge, by omega, fun b hb hb' => habove b hb (by omega)⟩
  · rintro ⟨hn0, hidx, hroom, hge, htop, habove⟩ mem
    rw [getBmtIndex_eq_iff d _ hn0, ← firstMarked_upload hu hn] at hidx
    obtain ⟨hlt, hfirst⟩ := hidx
    have hentry := bmtEntry_readBack mem s'.tbl.mem hroom
    have hfirst' : FirstMarked d (bufOfPages d mem (bmtPages d.toBmtDesc bmtSig s'.tbl.mem)) n := by
      refine ⟨fun k hk => ?_, fun k hk => ?_, ?_⟩
      · rw [(hentry k hk).1]
        exact hfirst.block k hk
      · rw [(hentry k (Nat.le_of_lt hk)).2]
        exact hfirst.before k hk
      · rw [(hentry n (Nat.le_refl n)).2]
        exact hfirst.mark
    have hvalid : holdsTable d s'.flash (bmtBlock d s.tbl.mem n) = true := by
      unfold holdsTable
      rw [← hblock, hpages, ← hsign]
      exact isValidBmt_signTable _
    have hfound : (initSearch d dev mem (d.totalBlks - d.poolLba) s'.flash).1 =
        .table (bmtBlock d s'.tbl.mem n)
          (bufOfPages d mem (bmtPages d.toBmtDesc bmtSig s'.tbl.mem)) n := by
      rw [initSearch_table_iff d hread, hblock]
      refine ⟨hge, by omega, hvalid, fun b hb hb' => habove b hb (by omega), ?_, ?_, hn0⟩
      · rw [← hpages, hblock]
      · exact ((getBmtIndex_eq_iff d _ hn0).mpr ⟨hlt, hfirst'⟩).symm
    obtain ⟨fl, hinit⟩ := mtkBmtInitV2_of_table hfound
    exact ⟨_, fl, hfound, hinit, fun i hi => bbTbl_readBack mem s'.tbl.mem hi, hentry⟩

end Restored

/-! ### A table stored one slot down -/

/-- The tables of the factory scan, on a blank chip. -/
def v2Scanned : Bmtd V2Tbl where
  flash := blankFlash 5
  tbl := { mem := v2Mem, bmtBlkIdx := 2, poolPba := 3 }

/-- Block 5 no longer erases. -/
def worn5 : LowerDev :=
  { LowerDev.perfect v2Desc.toGeometry with eraseOk := fun _ blk => decide (blk ≠ 5) }

theorem worn5_honest : worn5.Honest v2Desc.toGeometry where
  stored_of_ok := fun _ _ _ _ _ => rfl
  cleared_of_ok := fun _ _ _ _ => rfl

theorem v2Mem_blocks : bmtBlock v2Desc v2Mem 1 = 4 ∧ bmtBlock v2Desc v2Mem 2 = 5 := by
  simp [v2Mem, bmtBlock_setBmtMark, bmtBlock_setBmtBlock]

/-- The mark of the table is on slot 2. -/
theorem firstMarked_v2Mem : FirstMarked v2Desc v2Mem 2 := by
  obtain ⟨hb₀, hm₀, hm₁, hm₂⟩ := v2Mem_pool
  obtain ⟨hb₁, hb₂⟩ := v2Mem_blocks
  refine ⟨fun k hk => ?_, fun k hk => ?_, hm₂⟩
  · obtain rfl | rfl | rfl : k = 0 ∨ k = 1 ∨ k = 2 := by omega
    · rw [hb₀]; decide
    · rw [hb₁]; decide
    · rw [hb₂]; decide
  · obtain rfl | rfl : k = 0 ∨ k = 1 := by omega
    · rw [hm₀]; decide
    · rw [hm₁]; decide

/-- With block 5 worn the table goes to slot 1. -/
theorem uploadBmt_worn5 : (uploadBmt v2Desc worn5 3 v2Scanned).1 = 1 := by
  obtain ⟨-, -, hm₁, hm₂⟩ := v2Mem_pool
  obtain ⟨hb₁, hb₂⟩ := v2Mem_blocks
  have hwrite : ∀ fl block dat,
      (writeBmt v2Desc.toBmtDesc worn5 bmtSig fl block dat).1 = true := fun _ _ _ => rfl
  have herase : ∀ fl block, (bbtNandErase v2Desc.toBmtDesc worn5 fl block).1 = decide (block ≠ 5) :=
    fun _ _ => rfl
  simp [uploadBmt, v2Scanned, hm₂, hb₂, bmtMark_setBmtBlock, hm₁, bmtBlock_setBmtBlock, hb₁,
    herase, hwrite, bmtMapped, noMapped, normalMapped]

/-- With no erase failing it goes to slot 2. -/
theorem uploadBmt_perfect :
    (uploadBmt v2Desc (.perfect v2Desc.toGeometry) 3 v2Scanned).1 = 2 := by
  obtain ⟨-, -, -, hm₂⟩ := v2Mem_pool
  have hwrite : ∀ fl block dat, (writeBmt v2Desc.toBmtDesc (.perfect v2Desc.toGeometry) bmtSig
      fl block dat).1 = true := fun _ _ _ => rfl
  have herase : ∀ fl block,
      (bbtNandErase v2Desc.toBmtDesc (.perfect v2Desc.toGeometry) fl block).1 = true :=
    fun _ _ => rfl
  simp [uploadBmt, v2Scanned, hm₂, herase, hwrite, bmtMapped, normalMapped]

/-- The first store of a chip without failures is restored. -/
theorem uploadBmt_restored_perfect :
    Restored v2Desc (.perfect v2Desc.toGeometry)
      (uploadBmt v2Desc (.perfect v2Desc.toGeometry) 3 v2Scanned).2 2 := by
  have hb₂ : bmtBlock v2Desc v2Scanned.tbl.mem 2 = 5 := v2Mem_blocks.2
  refine (uploadBmt_restored_iff (LowerDev.perfect_honest _) (LowerDev.perfect_readsOk _) 3 v2Scanned
    uploadBmt_perfect (by decide)).mpr ⟨by decide, ?_, by decide, ?_, ?_, fun b h₁ h₂ => ?_⟩
  · exact (getBmtIndex_eq_iff v2Desc _ (by decide)).mpr ⟨by decide, firstMarked_v2Mem⟩
  · rw [hb₂]
    decide
  · rw [hb₂]
    decide
  · rw [hb₂] at h₁
    have h₃ : b < 6 := h₂
    omega

/-- The table in slot 1 is not restored: its mark is still on slot 2, which is
empty now. -/
theorem uploadBmt_not_restored :
    ¬ ∀ (d : V2Desc) (dev : LowerDev), dev.Honest d.toGeometry → dev.ReadsOk →
      ∀ (m : Nat) (s : Bmtd V2Tbl), (uploadBmt d dev m s).1 ≠ noSlot →
      Restored d dev (uploadBmt d dev m s).2 (uploadBmt d dev m s).1 := by
  intro hall
  have hslot : (uploadBmt v2Desc worn5 3 v2Scanned).1 ≠ noSlot := by
    rw [uploadBmt_worn5]
    decide
  have hread : worn5.ReadsOk := fun _ _ => ⟨0, rfl⟩
  have hrest := hall v2Desc worn5 worn5_honest hread 3 v2Scanned hslot
  obtain ⟨-, -, hfirst, -⟩ := firstMarked_of_restored hread
    (uploadBmt_pages worn5_honest 3 v2Scanned hslot).1 hrest
  rw [firstMarked_upload (uploadBmt_uploaded worn5 3 v2Scanned) hslot, uploadBmt_worn5] at hfirst
  exact firstMarked_v2Mem.before 1 (by decide) hfirst.mark

end Lede.Bmt
