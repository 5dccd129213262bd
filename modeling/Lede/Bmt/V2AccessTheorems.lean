/-
Lede.Bmt.V2AccessTheorems — when `mtk_bmt_v2.c` stays in its table buffer.

For every function the list of its accesses stays in the buffer if and only if
the condition named for it in `Lede.Bmt.V2Access` holds: `inBuf_scanBadBlocksUse`,
`inBuf_createUse`, `inBuf_remapBlockV2Use`, and for a whole life of the layer
`inBuf_life_iff`. The factory scan is read through `nthValid`, the blocks that
`find_valid_block` delivers one after the other: the first of them fill
`bb_tbl`, the ones behind fill `bmt_tbl`.

The buffer is allocated for a header and `table_size` entries of four bytes,
but `bb_tbl` takes two more bytes for each. A chip without a stored table is
enough to clear memory behind the buffer (`mtkBmtInitV2Use_not_inBuf`).
-/
import Lede.Bmt.V2Access
import Lede.Bmt.V2AttachTheorems

namespace Lede.Bmt

open Lede.Nand Lede.Lib

variable {d : V2Config} {dev : LowerDev}

/-! ## Single accesses -/

@[simp] theorem whole_inBuf : (whole d).off + (whole d).len ≤ d.bufsz := by simp [whole]

theorem bmtOff_succ (k : Nat) : d.bmtOff (k + 1) = d.bmtOff k + 4 := by
  unfold V2Config.bmtOff
  omega

theorem bmtOff_mono {j k : Nat} (h : j ≤ k) : d.bmtOff j ≤ d.bmtOff k := by
  unfold V2Config.bmtOff
  omega

theorem bbbtHdr_le_bmtOff (k : Nat) : bbbtHdr ≤ d.bmtOff k := by
  unfold V2Config.bmtOff
  omega

@[simp] theorem blockEntry_end (k : Nat) :
    (blockEntry d k).off + (blockEntry d k).len = d.bmtOff k + 2 := rfl

@[simp] theorem markEntry_end (k : Nat) :
    (markEntry d k).off + (markEntry d k).len = d.bmtOff (k + 1) := by
  simp [markEntry, bmtOff_succ]

@[simp] theorem bbEntry_end (i : Nat) : (bbEntry i).off + (bbEntry i).len = bbbtHdr + 2 * i + 2 := rfl

@[simp] theorem header_end : header.off + header.len = bbbtHdr := by simp [header]

theorem blockEntry_le {j k : Nat} {m : Nat} (h : j < k) (hk : d.bmtOff k ≤ m) :
    d.bmtOff j + 2 ≤ m := by
  have hstep := bmtOff_mono (d := d) (Nat.succ_le_of_lt h)
  rw [bmtOff_succ] at hstep
  omega

/-! ## Storing the table -/

/-- Below a slot that lies in the buffer nothing leaves it. -/
theorem inBuf_uploadBmtUse_of_le : ∀ (n : Nat) (s : Bmtd V2Tbl), d.bmtOff n ≤ d.bufsz →
    Within d.bufsz (uploadBmtUse d dev n s)
  | 0, _, _ => within_nil
  | n + 1, s, h => by
      have hn : d.bmtOff n ≤ d.bufsz := Nat.le_trans (bmtOff_mono (Nat.le_succ n)) h
      have hrest : ∀ s, Within d.bufsz (uploadBmtUse d dev n s) := fun s => inBuf_uploadBmtUse_of_le n s hn
      have hblock : d.bmtOff n + 2 ≤ d.bufsz := blockEntry_le (Nat.lt_succ_self n) h
      have hhdr : bbbtHdr ≤ d.bufsz := Nat.le_trans (bbbtHdr_le_bmtOff n) hn
      rw [uploadBmtUse]
      simp only [within_cons, markEntry_end]
      refine ⟨h, ?_⟩
      split
      · exact within_nil
      · simp only [within_cons, blockEntry_end]
        refine ⟨hblock, ?_⟩
        split
        · simpa using ⟨hblock, hrest _⟩
        · simp only [within_cons, header_end, whole_inBuf, true_and]
          refine ⟨hhdr, ?_⟩
          split
          · simpa using ⟨hblock, hrest _⟩
          · exact within_nil

/-- The first slot that is tried is the one that matters. -/
theorem inBuf_uploadBmtUse (n : Nat) (s : Bmtd V2Tbl) :
    Within d.bufsz (uploadBmtUse d dev (n + 1) s) ↔ d.bmtOff (n + 1) ≤ d.bufsz := by
  constructor
  · intro h
    rw [uploadBmtUse] at h
    simp only [within_cons, markEntry_end] at h
    exact h.1
  · exact inBuf_uploadBmtUse_of_le (n + 1) s

/-- `upload_bmt` returns a slot it tried, or no slot took the table. -/
theorem uploadBmt_lt_or : ∀ (n : Nat) (s : Bmtd V2Tbl),
    (NoSlotTakes d dev n s ∧ (uploadBmt d dev n s).1 = noSlot) ∨
      (¬ NoSlotTakes d dev n s ∧ (uploadBmt d dev n s).1 < n)
  | 0, s => Or.inl ⟨.bottom s, rfl⟩
  | n + 1, s => by
      rw [uploadBmt]
      split
      · next hused => exact Or.inl ⟨.inUse hused, rfl⟩
      · next hfree =>
        dsimp only
        cases herase : bbtNandErase d.toBmtDesc dev s.flash (bmtBlock d s.tbl.mem n) with
        | mk ok fl =>
          cases ok with
          | false =>
            dsimp only [Bool.not_false, if_true]
            refine (uploadBmt_lt_or n _).imp (fun h => ⟨.eraseFails herase h.1, h.2⟩)
              fun h => ⟨fun hno => ?_, Nat.lt_succ_of_lt h.2⟩
            cases hno with
            | inUse hused => exact hfree hused
            | eraseFails h' rest =>
              rw [herase] at h'
              cases h'
              exact h.1 rest
            | writeFails h' _ _ => simp [herase] at h'
          | true =>
            dsimp only [Bool.not_true, Bool.false_eq_true, if_false]
            cases hwrite : writeBmt d.toBmtDesc dev bmtSig fl (bmtBlock d s.tbl.mem n)
              (signTable s.tbl.mem) with
            | mk ok fl' =>
              cases ok with
              | false =>
                dsimp only [Bool.not_false, if_true]
                refine (uploadBmt_lt_or n _).imp (fun h => ⟨.writeFails herase hwrite h.1, h.2⟩)
                  fun h => ⟨fun hno => ?_, Nat.lt_succ_of_lt h.2⟩
                cases hno with
                | inUse hused => exact hfree hused
                | eraseFails h' _ => simp [herase] at h'
                | writeFails h' hw rest =>
                  rw [herase] at h'
                  cases h'
                  rw [hwrite] at hw
                  cases hw
                  exact h.1 rest
              | true =>
                refine Or.inr ⟨fun hno => ?_, Nat.lt_succ_self n⟩
                cases hno with
                | inUse hused => exact hfree hused
                | eraseFails h' _ => simp [herase] at h'
                | writeFails h' hw _ =>
                  rw [herase] at h'
                  cases h'
                  simp [hwrite] at hw

/-! ## Remapping -/

theorem findInPool_eq_none_iff (mem : Nat → UInt8) : ∀ (n i : Nat),
    findInPool d mem n i = none ↔
      ∀ k, i ≤ k → k < i + n → ¬ (bmtBlock d mem k ≠ 0 ∧ bmtMark d mem k = noMapped)
  | 0, i => by
      simp only [findInPool, true_iff]
      intro k hk hk'
      omega
  | n + 1, i => by
      rw [findInPool]
      by_cases hfree : bmtBlock d mem i ≠ 0 ∧ bmtMark d mem i = noMapped
      · rw [if_pos hfree]
        simp only [reduceCtorEq, false_iff]
        exact fun h => h i (Nat.le_refl i) (by omega) hfree
      · rw [if_neg hfree, findInPool_eq_none_iff mem n (i + 1)]
        refine ⟨fun h k hk hk' => ?_, fun h k hk hk' => h k (by omega) (by omega)⟩
        rcases Nat.eq_or_lt_of_le hk with rfl | hlt
        · exact hfree
        · exact h k hlt (by omega)

/-- With a free slot ahead the loop ends there; without one it looks at every slot. -/
theorem inBuf_findInPoolUse (mem : Nat → UInt8) : ∀ (n i : Nat),
    Within d.bufsz (findInPoolUse d mem n i) ↔
      match findInPool d mem n i with
      | some k => d.bmtOff (k + 1) ≤ d.bufsz
      | none => ∀ k, i ≤ k → k < i + n →
          d.bmtOff k + (if bmtBlock d mem k = 0 then 2 else 4) ≤ d.bufsz
  | 0, i => by
      simp only [findInPoolUse, findInPool, within_nil, true_iff]
      intro k hk hk'
      omega
  | n + 1, i => by
      have ih := inBuf_findInPoolUse mem n (i + 1)
      have hsplit : (∀ k, i ≤ k → k < i + (n + 1) →
          d.bmtOff k + (if bmtBlock d mem k = 0 then 2 else 4) ≤ d.bufsz) ↔
            d.bmtOff i + (if bmtBlock d mem i = 0 then 2 else 4) ≤ d.bufsz ∧
              ∀ k, i + 1 ≤ k → k < i + 1 + n →
                d.bmtOff k + (if bmtBlock d mem k = 0 then 2 else 4) ≤ d.bufsz := by
        refine ⟨fun h => ⟨h i (Nat.le_refl i) (by omega), fun k hk hk' => h k (by omega) (by omega)⟩,
          fun h k hk hk' => ?_⟩
        rcases Nat.eq_or_lt_of_le hk with rfl | hlt
        · exact h.1
        · exact h.2 k hlt (by omega)
      rw [findInPoolUse, findInPool]
      by_cases hblock : bmtBlock d mem i = 0
      · rw [if_pos hblock, if_neg (fun h => h.1 hblock), within_cons, ih]
        cases hfind : findInPool d mem n (i + 1) with
        | none =>
          simp only [blockEntry_end]
          rw [hsplit, if_pos hblock]
        | some k =>
          obtain ⟨hik, -, -⟩ := findInPool_spec mem n (i + 1) hfind
          exact ⟨And.right, fun h => ⟨blockEntry_le (by omega) h, h⟩⟩
      · rw [if_neg hblock, within_cons, within_cons, blockEntry_end, markEntry_end, bmtOff_succ]
        by_cases hmark : bmtMark d mem i = noMapped
        · rw [if_pos hmark, if_pos ⟨hblock, hmark⟩]
          simp only [within_cons, within_nil, markEntry_end, blockEntry_end, bmtOff_succ, and_true]
          omega
        · rw [if_neg hmark, if_neg (fun h => hmark h.2), ih]
          cases hfind : findInPool d mem n (i + 1) with
          | none =>
            refine Iff.trans ?_ hsplit.symm
            rw [if_neg hblock]
            exact ⟨And.right, fun h => ⟨Nat.le_trans (Nat.add_le_add_left (by decide) _) h.1, h⟩⟩
          | some k =>
            obtain ⟨hik, -, -⟩ := findInPool_spec mem n (i + 1) hfind
            have hle : d.bmtOff (i + 1) ≤ d.bmtOff (k + 1) := bmtOff_mono (by omega)
            rw [bmtOff_succ] at hle
            dsimp only
            omega

theorem freeSlot_iff (tbl : V2Tbl) :
    FreeSlot d tbl ↔ ∃ k, findInPool d tbl.mem tbl.bmtBlkIdx 0 = some k := by
  rw [← Option.ne_none_iff_exists', ne_eq, findInPool_eq_none_iff]
  constructor
  · rintro ⟨k, hk, hfree⟩ hnone
    exact hnone k (Nat.zero_le k) (by omega) hfree
  · intro hsome
    by_contra hno
    exact hsome fun k _ hk hfree => hno ⟨k, by omega, hfree⟩

/-- A remap stays in the buffer exactly when it fits. -/
theorem inBuf_remapBlockV2Use (s : Bmtd V2Tbl) (block mappedBlock copyLen : Nat) :
    Within d.bufsz (remapBlockV2Use d dev s block mappedBlock copyLen) ↔ RemapFits d s.tbl block := by
  have hpool : Within d.bufsz (findValidBlockInPoolUse d s.tbl) ↔
      Within d.bufsz (findInPoolUse d s.tbl.mem s.tbl.bmtBlkIdx 0) := by
    unfold findValidBlockInPoolUse
    split
    · next hzero => rw [hzero, findInPoolUse]
    · rfl
  rw [remapBlockV2Use, within_append, hpool, inBuf_findInPoolUse, RemapFits, freeSlot_iff]
  cases hfind : findInPool d s.tbl.mem s.tbl.bmtBlkIdx 0 with
  | none =>
    have hnone : (findValidBlockInPool d s.tbl).1 = 0 := by
      unfold findValidBlockInPool
      split
      · rfl
      · rw [hfind]
    dsimp only
    rw [if_pos hnone]
    simp
  | some k =>
    obtain ⟨-, hk, hblock, -⟩ := findInPool_spec s.tbl.mem s.tbl.bmtBlkIdx 0 hfind
    have hpick : findValidBlockInPool d s.tbl
        = (bmtBlock d s.tbl.mem k, { s.tbl with mem := setBmtMark d s.tbl.mem k normalMapped }) := by
      unfold findValidBlockInPool
      rw [if_neg (by omega), hfind]
    have hbelow : d.bmtOff (k + 1) ≤ d.bmtOff (s.tbl.bmtBlkIdx + 1) := bmtOff_mono (by omega)
    rw [hpick]
    dsimp only
    rw [if_neg hblock, within_cons, bbEntry_end, inBuf_uploadBmtUse]
    simp only [exists_eq', forall_const, not_true_eq_false, IsEmpty.forall_iff, and_true,
      Option.some.injEq]
    exact ⟨And.right, fun h => ⟨Nat.le_trans hbelow h.2, h⟩⟩

/-- Every remap of a run stays in the buffer exactly when each fits the tables it meets. -/
theorem inBuf_remapsUse : ∀ (cs : List RemapCall) (s : Bmtd V2Tbl),
    Within d.bufsz (remapsUse d dev s cs) ↔ RemapsFit d dev s cs
  | [], _ => by simp [remapsUse, RemapsFit]
  | c :: cs, s => by
      rw [remapsUse, RemapsFit, within_append, inBuf_remapBlockV2Use, inBuf_remapsUse cs]

/-! ## The factory scan -/

section Scan

variable {fl : Flash}

theorem nthValid_succ_range {i : Nat} (h : (nthValid d dev fl (i + 1)).1 ≠ 0) :
    (nthValid d dev fl i).1 < (nthValid d dev fl (i + 1)).1 ∧
      (nthValid d dev fl (i + 1)).1 < d.totalBlks :=
  findValidBlock_range d dev d.bbMax _ _ h

theorem nthValid_lt (i : Nat) : (nthValid d dev fl i).1 < d.totalBlks := by
  cases i with
  | zero => exact d.totalBlks_pos
  | succ i =>
    by_cases h : (nthValid d dev fl (i + 1)).1 = 0
    · rw [h]
      exact d.totalBlks_pos
    · exact (nthValid_succ_range h).2

/-- The blocks in use move up by one at least. -/
theorem le_nthValid {m : Nat} (hm : m ≤ (nthValid d dev fl m).1) : ∀ k,
    (∀ j, m < j → j ≤ m + k → (nthValid d dev fl j).1 ≠ 0) → m + k ≤ (nthValid d dev fl (m + k)).1
  | 0, _ => hm
  | k + 1, h => by
      have ih := le_nthValid hm k fun j hj hj' => h j hj (by omega)
      have hstep := (nthValid_succ_range (h (m + k + 1) (by omega) (by omega))).1
      rw [← Nat.add_assoc]
      omega

/-- The tables and the chip when the first `m` logical blocks are mapped. -/
structure MappedTo (d : V2Config) (dev : LowerDev) (fl : Flash) (m : Nat) (s : Bmtd V2Tbl) : Prop where
  flash : s.flash = (nthValid d dev fl m).2
  entry : bbTbl s.tbl.mem m = (nthValid d dev fl m).1

/-- One round of the first loop. -/
theorem MappedTo.step {m : Nat} {s : Bmtd V2Tbl} (h : MappedTo d dev fl m s) :
    findValidBlock d dev d.bbMax s.flash (bbTbl s.tbl.mem (m + 1 - 1) + 1)
        = nthValid d dev fl (m + 1) ∧
      MappedTo d dev fl (m + 1)
        { flash := (nthValid d dev fl (m + 1)).2
          tbl := { s.tbl with mem := setBbTbl s.tbl.mem (m + 1) (nthValid d dev fl (m + 1)).1 } } := by
  have htot := d.totalBlks_lt
  have hlt : (nthValid d dev fl (m + 1)).1 < d.totalBlks := nthValid_lt (m + 1)
  refine ⟨?_, rfl, ?_⟩
  · rw [Nat.add_sub_cancel, h.flash, h.entry, nthValid]
  · rw [bbTbl_setBbTbl, if_pos rfl, Nat.mod_eq_of_lt (by omega)]

/-- The first loop ends well if every block it asks for is delivered. -/
theorem scanData_mapped : ∀ (n m : Nat) (s : Bmtd V2Tbl), MappedTo d dev fl m s →
    ((scanData d dev n (m + 1) s).1 = true ↔
        ∀ j, m < j → j ≤ m + n → (nthValid d dev fl j).1 ≠ 0) ∧
      ((scanData d dev n (m + 1) s).1 = true →
        MappedTo d dev fl (m + n) (scanData d dev n (m + 1) s).2)
  | 0, m, s, h => by
      refine ⟨⟨fun _ j hj hj' => absurd hj (by omega), fun _ => rfl⟩, fun _ => h⟩
  | n + 1, m, s, h => by
      obtain ⟨hfind, hnext⟩ := h.step
      obtain ⟨ihok, ihend⟩ := scanData_mapped n (m + 1) _ hnext
      rw [scanData, hfind]
      dsimp only
      by_cases hzero : (nthValid d dev fl (m + 1)).1 = 0
      · rw [if_pos hzero]
        simp only [Bool.false_eq_true, false_iff, false_implies, and_true]
        exact fun hall => hall (m + 1) (Nat.lt_succ_self m) (by omega) hzero
      · rw [if_neg hzero, ihok]
        refine ⟨⟨fun hall j hj hj' => ?_, fun hall j hj hj' => hall j (by omega) (by omega)⟩, ?_⟩
        · rcases Nat.eq_or_lt_of_le (Nat.succ_le_of_lt hj) with rfl | hlt
          · exact hzero
          · exact hall j hlt (by omega)
        · intro hall
          rw [← Nat.add_assoc, Nat.add_right_comm]
          exact ihend (ihok.mpr hall)

/-- A chip that the tables can describe stays within `bb_tbl` and what lies behind it. -/
theorem inBuf_scanDataUse (hroom : bbbtHdr + 2 * d.totalBlks + 2 ≤ d.bufsz) :
    ∀ (n m : Nat) (s : Bmtd V2Tbl), MappedTo d dev fl m s → m ≤ (nthValid d dev fl m).1 →
      Within d.bufsz (scanDataUse d dev n (m + 1) s)
  | 0, _, _, _, _ => within_nil
  | n + 1, m, s, h, hm => by
      obtain ⟨hfind, hnext⟩ := h.step
      have hlt : (nthValid d dev fl m).1 < d.totalBlks := nthValid_lt m
      rw [scanDataUse, hfind]
      simp only [within_cons, bbEntry_end]
      refine ⟨by omega, by omega, ?_⟩
      split
      · exact within_nil
      · next hne =>
        have hstep := (nthValid_succ_range hne).1
        exact inBuf_scanDataUse hroom n (m + 1) _ hnext (by omega)

theorem le_scanPool : ∀ (n i block : Nat) (s : Bmtd V2Tbl), i ≤ (scanPool d dev n i block s).1
  | 0, i, _, _ => Nat.le_refl i
  | n + 1, i, block, s => by
      rw [scanPool]
      dsimp only
      split
      · exact Nat.le_refl i
      · exact Nat.le_trans (Nat.le_succ i) (le_scanPool n (i + 1) _ _)

/-- The second loop touches the slots it fills. -/
theorem inBuf_scanPoolUse : ∀ (n i block : Nat) (s : Bmtd V2Tbl),
    Within d.bufsz (scanPoolUse d dev n i block s.flash) ↔
      ∀ k, i ≤ k → k < (scanPool d dev n i block s).1 → d.bmtOff (k + 1) ≤ d.bufsz
  | 0, i, _, _ => by
      simp only [scanPoolUse, scanPool, within_nil, true_iff]
      intro k hk hk'
      omega
  | n + 1, i, block, s => by
      rw [scanPoolUse, scanPool]
      dsimp only
      split
      · simp only [within_nil, true_iff]
        intro k hk hk'
        omega
      · have hround : ∀ (b : Nat) (fl' : Flash) (tbl : V2Tbl),
            Within d.bufsz (blockEntry d i :: markEntry d i :: scanPoolUse d dev n (i + 1) b fl') ↔
              ∀ k, i ≤ k → k < (scanPool d dev n (i + 1) b { flash := fl', tbl := tbl }).1 →
                d.bmtOff (k + 1) ≤ d.bufsz := by
          intro b fl' tbl
          have ih := inBuf_scanPoolUse n (i + 1) b { flash := fl', tbl := tbl }
          rw [within_cons, within_cons, blockEntry_end, markEntry_end, ih]
          constructor
          · rintro ⟨-, hfirst, hrest⟩ k hk hk'
            rcases Nat.eq_or_lt_of_le hk with rfl | hlt
            · exact hfirst
            · exact hrest k hlt hk'
          · intro hall
            have hfirst := hall i (Nat.le_refl i) (le_scanPool n (i + 1) b _)
            exact ⟨blockEntry_le (Nat.lt_succ_self i) hfirst, hfirst,
              fun k hk hk' => hall k (by omega) hk'⟩
        exact hround _ _ _

/-- The second loop fills slot `k` exactly when the blocks last until there. -/
theorem lt_scanPool_iff {m : Nat} : ∀ (n i : Nat) (s : Bmtd V2Tbl),
    s.flash = (nthValid d dev fl (m + i)).2 → d.totalBlks ≤ n + ((nthValid d dev fl (m + i)).1 + 1) →
    ∀ k, i ≤ k → (k < (scanPool d dev n i ((nthValid d dev fl (m + i)).1 + 1) s).1 ↔
      ∀ j, i ≤ j → j ≤ k → (nthValid d dev fl (m + 1 + j)).1 ≠ 0)
  | 0, i, s, hs, hn, k, hk => by
      have hzero : (nthValid d dev fl (m + 1 + i)).1 = 0 := by
        rw [Nat.add_right_comm, nthValid, findValidBlock, if_pos (by omega)]
      exact ⟨fun hlt => absurd hlt (by rw [scanPool]; omega),
        fun hall => absurd hzero (hall i (Nat.le_refl i) hk)⟩
  | n + 1, i, s, hs, hn, k, hk => by
      have hfind : findValidBlock d dev d.bbMax s.flash ((nthValid d dev fl (m + i)).1 + 1)
          = nthValid d dev fl (m + (i + 1)) := by
        rw [hs, ← Nat.add_assoc, nthValid]
      have hcomm : m + 1 + i = m + (i + 1) := by omega
      rw [scanPool, hfind]
      dsimp only
      by_cases hzero : (nthValid d dev fl (m + (i + 1))).1 = 0
      · rw [if_pos hzero]
        exact ⟨fun hlt => absurd hlt (by omega),
          fun hall => absurd (hcomm ▸ hzero) (hall i (Nat.le_refl i) hk)⟩
      · have hstep : (nthValid d dev fl (m + i)).1 < (nthValid d dev fl (m + (i + 1))).1 :=
          (nthValid_succ_range hzero).1
        rw [if_neg hzero]
        rcases Nat.eq_or_lt_of_le hk with rfl | hlt
        · refine ⟨fun _ j hj hj' => ?_, fun _ => le_scanPool _ _ _ _⟩
          rw [Nat.le_antisymm hj' hj, hcomm]
          exact hzero
        · rw [lt_scanPool_iff n (i + 1) _ rfl (by omega) k hlt]
          refine ⟨fun hall j hj hj' => ?_, fun hall j hj hj' => hall j (by omega) hj'⟩
          rcases Nat.eq_or_lt_of_le hj with rfl | hlt'
          · rw [hcomm]
            exact hzero
          · exact hall j hlt' hj'

end Scan

/-! ## Creating the tables -/

section Create

variable {fl : Flash} {s : Bmtd V2Tbl}

/-- Logical block 0 mapped to itself. -/
def firstMapped (s : Bmtd V2Tbl) : Bmtd V2Tbl :=
  { s with tbl := { s.tbl with mem := setBbTbl s.tbl.mem 0 0 } }

theorem mappedTo_zero (s : Bmtd V2Tbl) : MappedTo d dev s.flash 0 (firstMapped s) where
  flash := rfl
  entry := by
    rw [firstMapped, bbTbl_setBbTbl, if_pos rfl]
    rfl

theorem scanData_poolLba (s : Bmtd V2Tbl) :
    (scanData d dev (d.poolLba - 1) 1 (firstMapped s)).1 = true ↔
      ∀ i, 1 ≤ i → i < d.poolLba → (nthValid d dev s.flash i).1 ≠ 0 := by
  rw [(scanData_mapped (d.poolLba - 1) 0 _ (mappedTo_zero s)).1]
  exact ⟨fun h i hi hi' => h i hi (by omega), fun h i hi hi' => h i hi (by omega)⟩

theorem poolLba_le_nthValid
    (h : ∀ i, 1 ≤ i → i < d.poolLba → (nthValid d dev fl i).1 ≠ 0) :
    d.poolLba - 1 ≤ (nthValid d dev fl (d.poolLba - 1)).1 := by
  have hle := le_nthValid (Nat.zero_le (nthValid d dev fl 0).1) (d.poolLba - 1)
    fun j hj hj' => h j hj (by omega)
  rwa [Nat.zero_add] at hle

/-- How many slots the second loop of `scan_bad_blocks` fills. -/
theorem lt_scanPool_poolHas (h : MappedTo d dev fl (d.poolLba - 1) s) (k : Nat) :
    k < (scanPool d dev d.totalBlks 0 (bbTbl s.tbl.mem (d.poolLba - 1) + 1) s).1 ↔
      PoolHas d dev fl k := by
  rw [h.entry]
  refine (lt_scanPool_iff d.totalBlks 0 s h.flash (by omega) k (Nat.zero_le k)).trans ?_
  exact ⟨fun hall j hj => hall j (Nat.zero_le j) hj, fun hall j _ hj => hall j hj⟩

/-- The pool fits on the chip, so that a slot number is a `u16`. -/
theorem PoolHas.lt (hm : d.poolLba - 1 ≤ (nthValid d dev fl (d.poolLba - 1)).1) {k : Nat}
    (h : PoolHas d dev fl k) : k + 1 < d.totalBlks := by
  have hle := le_nthValid hm (k + 1) fun j hj hj' => by
    have := h (j - (d.poolLba - 1 + 1)) (by omega)
    rwa [Nat.add_sub_cancel' (by omega)] at this
  have hlt : (nthValid d dev fl (d.poolLba - 1 + (k + 1))).1 < d.totalBlks := nthValid_lt _
  omega

/-- The index of the table's own slot: the last slot filled, or the wrap of an empty pool. -/
theorem scanPool_idx (h : MappedTo d dev fl (d.poolLba - 1) s)
    (hm : d.poolLba - 1 ≤ (nthValid d dev fl (d.poolLba - 1)).1) :
    let n := (scanPool d dev d.totalBlks 0 (bbTbl s.tbl.mem (d.poolLba - 1) + 1) s).1
    (n = 0 ∧ ¬ PoolHas d dev fl 0 ∧ (n + 65535) % 65536 = 65535) ∨
      (n ≠ 0 ∧ PoolHas d dev fl 0 ∧ PoolHas d dev fl (n - 1) ∧ (n + 65535) % 65536 = n - 1) := by
  intro n
  have hlt : ∀ k, k < n ↔ PoolHas d dev fl k := lt_scanPool_poolHas h
  have htot := d.totalBlks_lt
  by_cases hn : n = 0
  · refine Or.inl ⟨hn, fun hhas => ?_, by omega⟩
    have := (hlt 0).mpr hhas
    omega
  · have hlast := (hlt (n - 1)).mp (by omega)
    have := hlast.lt hm
    exact Or.inr ⟨hn, (hlt 0).mp (by omega), hlast, by omega⟩

theorem inBuf_scanRestUse (h : MappedTo d dev fl (d.poolLba - 1) s)
    (hm : d.poolLba - 1 ≤ (nthValid d dev fl (d.poolLba - 1)).1)
    (hroom : bbbtHdr + 2 * d.totalBlks + 2 ≤ d.bufsz) :
    Within d.bufsz (scanRestUse d dev s) ↔ ((nthValid d dev fl (d.poolLba - 1)).1 + 3 < d.totalBlks →
      (PoolHas d dev fl 0 ∨ d.bmtOff 65536 ≤ d.bufsz) ∧
        ∀ k, PoolHas d dev fl k → d.bmtOff (k + 1) ≤ d.bufsz) := by
  have hlt : (nthValid d dev fl (d.poolLba - 1)).1 < d.totalBlks := nthValid_lt _
  have hcount := lt_scanPool_poolHas h
  have hidx := scanPool_idx h hm
  rw [scanRestUse]
  simp only [within_cons, bbEntry_end]
  rw [and_iff_right (by omega)]
  split
  · next hfull =>
    rw [h.entry] at hfull
    simp only [within_nil, true_iff]
    intro hroom'
    omega
  · next hroom' =>
    rw [h.entry] at hroom'
    rw [within_append, inBuf_scanPoolUse, within_cons, markEntry_end,
      forall_prop_of_true (by omega : (nthValid d dev fl (d.poolLba - 1)).1 + 3 < d.totalBlks)]
    simp only [within_nil, and_true, Nat.zero_le, forall_const, hcount]
    rcases hidx with ⟨-, hempty, hwrap⟩ | ⟨-, hhas, hlast, hwrap⟩
    · rw [hwrap, and_comm, or_iff_right hempty]
    · rw [hwrap, and_comm, or_iff_left_of_imp fun _ => hhas]
      exact ⟨fun hall => ⟨hhas, hall.2⟩, fun hall => ⟨hall.2 _ hlast, hall.2⟩⟩

theorem scanBadBlocksUse_eq (s : Bmtd V2Tbl) : scanBadBlocksUse d dev s
    = bbEntry 0 :: scanDataUse d dev (d.poolLba - 1) 1 (firstMapped s) ++
      if (scanData d dev (d.poolLba - 1) 1 (firstMapped s)).1
      then scanRestUse d dev (scanData d dev (d.poolLba - 1) 1 (firstMapped s)).2 else [] := rfl

/-- The first loop, when it ends well. -/
theorem scanData_reached (h : ∀ i, 1 ≤ i → i < d.poolLba → (nthValid d dev s.flash i).1 ≠ 0) :
    MappedTo d dev s.flash (d.poolLba - 1)
      (scanData d dev (d.poolLba - 1) 1 (firstMapped s)).2 := by
  have hend := (scanData_mapped (d.poolLba - 1) 0 _ (mappedTo_zero s)).2 ((scanData_poolLba s).mpr h)
  rwa [Nat.zero_add] at hend

/-- The scan stays in the buffer exactly when the pool fits. -/
theorem inBuf_scanBadBlocksUse (hroom : bbbtHdr + 2 * d.totalBlks + 2 ≤ d.bufsz) (s : Bmtd V2Tbl) :
    Within d.bufsz (scanBadBlocksUse d dev s) ↔ ScanFits d dev s.flash := by
  have hfirst : Within d.bufsz (scanDataUse d dev (d.poolLba - 1) 1 (firstMapped s)) :=
    inBuf_scanDataUse hroom _ 0 _ (mappedTo_zero s) (Nat.zero_le _)
  rw [scanBadBlocksUse_eq, within_append, within_cons, bbEntry_end, and_iff_left hfirst,
    and_iff_right (by omega : bbbtHdr + 2 * 0 + 2 ≤ d.bufsz)]
  split
  · next hok =>
    have hreach := (scanData_poolLba s).mp hok
    rw [inBuf_scanRestUse (scanData_reached hreach) (poolLba_le_nthValid hreach) hroom]
    exact ⟨fun h hpool => h hpool.room, fun h hroom' => h ⟨hreach, hroom'⟩⟩
  · next hfail =>
    simp only [within_nil, true_iff]
    exact fun hpool => absurd ((scanData_poolLba s).mpr hpool.data) hfail

/-- `scan_bad_blocks` ends well when the chip has a pool with a block in it; the table's own slot is
then one that was filled. -/
theorem scanBadBlocks_ok_iff (s : Bmtd V2Tbl) :
    ((scanBadBlocks d dev s).1 = true ↔ PoolReached d dev s.flash ∧ PoolHas d dev s.flash 0) ∧
      ((scanBadBlocks d dev s).1 = true →
        PoolHas d dev s.flash (scanBadBlocks d dev s).2.tbl.bmtBlkIdx ∧
          (scanBadBlocks d dev s).2.tbl.bmtBlkIdx + 1 < d.totalBlks) := by
  have heq : scanBadBlocks d dev s
      = let r := scanData d dev (d.poolLba - 1) 1 (firstMapped s)
        if !r.1 then (false, r.2)
        else
          let pba := bbTbl r.2.tbl.mem (d.poolLba - 1) + 1
          let s' : Bmtd V2Tbl := { r.2 with tbl := { r.2.tbl with poolPba := pba } }
          if pba + 2 ≥ d.totalBlks then (false, s')
          else
            let p := scanPool d dev d.totalBlks 0 pba s'
            let idx := (p.1 + 65535) % 65536
            (1 ≤ p.1, { p.2 with tbl := { p.2.tbl with
              mem := setBmtMark d p.2.tbl.mem idx bmtMapped, bmtBlkIdx := idx } }) := rfl
  rw [heq]
  dsimp only
  by_cases hok : (scanData d dev (d.poolLba - 1) 1 (firstMapped s)).1 = true
  · have hreach := (scanData_poolLba s).mp hok
    have hmapped := scanData_reached hreach
    have hle := poolLba_le_nthValid hreach
    rw [hok]
    generalize (scanData d dev (d.poolLba - 1) 1 (firstMapped s)).2 = s₁ at hmapped ⊢
    simp only [Bool.not_true, Bool.false_eq_true, if_false]
    have hpool : ∀ pba, MappedTo d dev s.flash (d.poolLba - 1)
        { s₁ with tbl := { s₁.tbl with poolPba := pba } } :=
      fun _ => ⟨hmapped.flash, hmapped.entry⟩
    by_cases hroom : bbTbl s₁.tbl.mem (d.poolLba - 1) + 1 + 2 ≥ d.totalBlks
    · rw [if_pos hroom]
      rw [hmapped.entry] at hroom
      simp only [Bool.false_eq_true, false_iff, false_implies, and_true]
      intro h
      have := h.1.room
      omega
    · rw [if_neg hroom]
      rw [hmapped.entry] at hroom
      have hroom' : (nthValid d dev s.flash (d.poolLba - 1)).1 + 3 < d.totalBlks := by omega
      rcases scanPool_idx (hpool (bbTbl s₁.tbl.mem (d.poolLba - 1) + 1)) hle with
        ⟨hn, hempty, -⟩ | ⟨hn, hhas, hlast, hidx⟩
      · dsimp only at hn
        rw [hn]
        simp only [decide_eq_true_eq]
        exact ⟨⟨fun h => absurd h (by decide), fun h => absurd h.2 hempty⟩, fun h => absurd h (by decide)⟩
      · dsimp only at hn hlast hidx
        rw [hidx]
        simp only [decide_eq_true_eq]
        exact ⟨⟨fun _ => ⟨⟨hreach, hroom'⟩, hhas⟩, fun _ => Nat.one_le_iff_ne_zero.mpr hn⟩,
          fun _ => ⟨hlast, hlast.lt hle⟩⟩
  · rw [Bool.not_eq_true] at hok
    rw [hok]
    simp only [Bool.not_false, if_true, Bool.false_eq_true, false_iff, false_implies, and_true]
    exact fun h => Bool.false_ne_true (hok.symm.trans ((scanData_poolLba s).mpr h.1.data))

/-- A chip that `bmt_tbl` leaves room for is one that `bb_tbl` leaves room for. -/
theorem bbTbl_room (hmax : d.totalBlks ≤ d.blksMax) (hroom : d.bmtOff d.tableSize ≤ d.bufsz) :
    bbbtHdr + 2 * d.totalBlks + 2 ≤ d.bufsz := by
  have hpos := d.totalBlks_pos
  have hle : d.blksMax ≤ d.tableSize + d.tableSize * 2 / 100 := by
    unfold V2Config.blksMax
    exact Nat.le_trans (Nat.mod_le _ _)
      (Nat.add_le_add_left (Nat.div_le_div_right (Nat.mod_le _ _)) _)
  unfold V2Config.bmtOff at hroom
  omega

theorem uploadAtIdx_idx (s : Bmtd V2Tbl) :
    (uploadAtIdx d dev s).tbl.bmtBlkIdx = (uploadBmt d dev (s.tbl.bmtBlkIdx + 1) s).1 := rfl

/-- Storing the first table, from a slot in the buffer: only a table that no slot takes is looked
for outside. -/
theorem inBuf_firstUpload (hslot : d.bmtOff (s.tbl.bmtBlkIdx + 1) ≤ d.bufsz) :
    Within d.bufsz (uploadBmtUse d dev (s.tbl.bmtBlkIdx + 1) s ++
        [blockEntry d (uploadAtIdx d dev s).tbl.bmtBlkIdx]) ↔
      (NoSlotTakes d dev (s.tbl.bmtBlkIdx + 1) s → d.bmtOff noSlot + 2 ≤ d.bufsz) := by
  rw [within_append, inBuf_uploadBmtUse, and_iff_right hslot, uploadAtIdx_idx]
  simp only [within_cons, blockEntry_end, within_nil, and_true]
  rcases uploadBmt_lt_or (d := d) (s.tbl.bmtBlkIdx + 1) s with ⟨hno, hres⟩ | ⟨hsome, hres⟩
  · rw [hres, forall_prop_of_true hno]
  · exact ⟨fun _ hno => absurd hno hsome, fun _ => blockEntry_le hres hslot⟩

/-- Creating the tables stays in the buffer exactly when they fit. -/
theorem inBuf_createUse (mem : Nat → UInt8) (fl : Flash) :
    Within d.bufsz (createUse d dev mem fl) ↔ CreateFits d dev mem fl := by
  obtain ⟨hok, hidx⟩ := scanBadBlocks_ok_iff (d := d) (scanStart d mem fl)
  have htable : (bmtTable d).off + (bmtTable d).len = d.bmtOff d.tableSize := by
    simp only [bmtTable, V2Config.bmtOff]
    omega
  rw [createUse, CreateFits]
  by_cases hmany : d.totalBlks > d.blksMax
  · rw [if_pos hmany]
    simp only [within_nil, true_iff]
    omega
  · have hmax : d.totalBlks ≤ d.blksMax := Nat.le_of_not_lt hmany
    rw [if_neg hmany, forall_prop_of_true hmax]
    dsimp only
    rw [within_append, within_cons, htable, and_assoc]
    refine and_congr_right fun hroom => ?_
    rw [inBuf_scanBadBlocksUse (bbTbl_room hmax hroom)]
    refine and_congr_right fun hfits => ?_
    split
    · next hscan =>
      obtain ⟨hreach, hhas⟩ := hok.mp hscan
      rw [inBuf_firstUpload ((hfits hreach).2 _ (hidx hscan).1)]
      exact ⟨fun h _ _ => h, fun h => h hreach hhas⟩
    · next hscan =>
      simp only [within_nil, true_iff]
      exact fun hreach hhas => absurd (hok.mpr ⟨hreach, hhas⟩) hscan

end Create

/-! ## The search for a stored table -/

theorem le_bmtOff (k : Nat) : k ≤ d.bmtOff k := by
  unfold V2Config.bmtOff
  omega

/-- `IndexFits`, for a search from entry `i` on. -/
def IndexFitsFrom (d : V2Config) (buf : Nat → UInt8) (i : Nat) : Prop :=
  ∃ k, i ≤ k ∧ (∀ j, i ≤ j → j < k → bmtBlock d buf j ≠ 0 ∧ bmtMark d buf j ≠ bmtMapped) ∧
    ((bmtBlock d buf k = 0 ∧ d.bmtOff k + 2 ≤ d.bufsz) ∨
      (bmtMark d buf k = bmtMapped ∧ d.bmtOff (k + 1) ≤ d.bufsz))

theorem indexFitsFrom_zero (buf : Nat → UInt8) : IndexFitsFrom d buf 0 ↔ IndexFits d buf := by
  simp [IndexFitsFrom, IndexFits]

theorem IndexFitsFrom.block_le {buf : Nat → UInt8} {i : Nat} (h : IndexFitsFrom d buf i) :
    d.bmtOff i + 2 ≤ d.bufsz := by
  obtain ⟨k, hik, -, ⟨-, hk⟩ | ⟨-, hk⟩⟩ := h
  · exact Nat.le_trans (Nat.add_le_add_right (bmtOff_mono hik) 2) hk
  · exact blockEntry_le (Nat.lt_succ_of_le hik) hk

/-- An entry that ends the search decides; behind any other the search goes on. -/
theorem indexFitsFrom_end {buf : Nat → UInt8} {i : Nat}
    (h : bmtBlock d buf i = 0 ∨ bmtMark d buf i = bmtMapped) :
    IndexFitsFrom d buf i ↔
      (bmtBlock d buf i = 0 ∧ d.bmtOff i + 2 ≤ d.bufsz) ∨
        (bmtMark d buf i = bmtMapped ∧ d.bmtOff (i + 1) ≤ d.bufsz) := by
  constructor
  · rintro ⟨k, hik, hbefore, hend⟩
    rcases Nat.eq_or_lt_of_le hik with rfl | hlt
    · exact hend
    · obtain ⟨hblock, hmark⟩ := hbefore i (Nat.le_refl i) hlt
      exact absurd h (not_or.mpr ⟨hblock, hmark⟩)
  · exact fun hend => ⟨i, Nat.le_refl i, fun j hj hj' => absurd hj (by omega), hend⟩

theorem indexFitsFrom_next {buf : Nat → UInt8} {i : Nat} (hblock : bmtBlock d buf i ≠ 0)
    (hmark : bmtMark d buf i ≠ bmtMapped) :
    IndexFitsFrom d buf i ↔ IndexFitsFrom d buf (i + 1) := by
  constructor
  · rintro ⟨k, hik, hbefore, hend⟩
    rcases Nat.eq_or_lt_of_le hik with rfl | hlt
    · exact absurd hend (not_or.mpr ⟨fun h => hblock h.1, fun h => hmark h.1⟩)
    · exact ⟨k, hlt, fun j hj hj' => hbefore j (by omega) hj', hend⟩
  · rintro ⟨k, hik, hbefore, hend⟩
    refine ⟨k, by omega, fun j hj hj' => ?_, hend⟩
    rcases Nat.eq_or_lt_of_le hj with rfl | hlt
    · exact ⟨hblock, hmark⟩
    · exact hbefore j hlt hj'

/-- The index is looked for in the buffer if it ends there. -/
theorem inBuf_getBmtIndexUse (buf : Nat → UInt8) : ∀ (n i : Nat), d.bufsz ≤ i + n →
    (Within d.bufsz (getBmtIndexUse d buf (n + 1) i) ↔ IndexFitsFrom d buf i)
  | n, i, hn => by
      have hoff := le_bmtOff (d := d) (i + 1)
      rw [getBmtIndexUse, within_cons, blockEntry_end]
      by_cases hblock : bmtBlock d buf i = 0
      · rw [if_pos hblock, indexFitsFrom_end (Or.inl hblock)]
        simp only [within_nil, and_true]
        refine ⟨fun h => Or.inl ⟨hblock, h⟩, fun h => h.elim And.right fun h => ?_⟩
        exact blockEntry_le (Nat.lt_succ_self i) h.2
      · rw [if_neg hblock, within_cons, markEntry_end]
        by_cases hmark : bmtMark d buf i = bmtMapped
        · rw [if_pos hmark, indexFitsFrom_end (Or.inr hmark)]
          simp only [within_nil, and_true]
          refine ⟨fun h => Or.inr ⟨hmark, h.2⟩, fun h => h.elim (fun h => absurd h.1 hblock) fun h => ?_⟩
          exact ⟨blockEntry_le (Nat.lt_succ_self i) h.2, h.2⟩
        · rw [if_neg hmark, indexFitsFrom_next hblock hmark]
          cases n with
          | zero =>
            exact ⟨fun h => absurd h.2.1 (by omega), fun h => absurd h.block_le (by omega)⟩
          | succ n =>
            rw [inBuf_getBmtIndexUse buf n (i + 1) (by omega)]
            refine ⟨fun h => h.2.2, fun h => ?_⟩
            have hle : d.bmtOff (i + 1) ≤ d.bufsz := Nat.le_trans (Nat.le_add_right _ 2) h.block_le
            exact ⟨blockEntry_le (Nat.lt_succ_self i) hle, hle, h⟩

theorem inBuf_initSearchUse (mem : Nat → UInt8) : ∀ (n : Nat) (fl : Flash),
    Within d.bufsz (initSearchUse d dev mem n fl) ↔ SearchFits d dev mem n fl
  | 0, _ => by simp [initSearchUse, SearchFits]
  | n + 1, fl => by
      rw [initSearchUse, SearchFits]
      dsimp only
      rw [within_cons, and_iff_right whole_inBuf]
      cases (bbtNandRead dev fl (d.blkPg (d.poolLba + n)) d.bmtPgs).1 with
      | none => exact inBuf_initSearchUse mem n _
      | some pages =>
        dsimp only
        rw [within_cons, header_end]
        refine and_congr_right fun _ => ?_
        split
        · rw [inBuf_getBmtIndexUse _ d.bufsz 0 (by omega), indexFitsFrom_zero]
        · exact inBuf_initSearchUse mem n _

theorem inBuf_searchOnUse (mem : Nat → UInt8) : ∀ (rounds : Nat) (found : Found × Flash),
    Within d.bufsz (searchOnUse d dev mem rounds found) ↔ SearchOnFits d dev mem rounds found
  | 0, _ => by simp [searchOnUse, SearchOnFits]
  | rounds + 1, (.nothing, fl) => by
      rw [searchOnUse, SearchOnFits, within_append, inBuf_initSearchUse, inBuf_searchOnUse mem rounds]
  | _ + 1, (.badIndex _, _) => by simp [searchOnUse, SearchOnFits]
  | _ + 1, (.table _ _ _, _) => by simp [searchOnUse, SearchOnFits]

/-- The attach stays in the buffer exactly when it fits. -/
theorem inBuf_mtkBmtInitV2Use (rounds : Nat) (fl : Flash) (mem : Nat → UInt8) :
    Within d.bufsz (mtkBmtInitV2Use d dev rounds fl mem) ↔ InitFits d dev rounds fl mem := by
  rw [mtkBmtInitV2Use, InitFits, within_append, within_append, within_cons, and_iff_right whole_inBuf,
    inBuf_initSearchUse, and_assoc]
  refine and_congr_right fun _ => and_congr ?_ ?_
  · split
    · next hzero => rw [inBuf_searchOnUse, forall_prop_of_true hzero]
    · next hpos => simp [hpos]
  · rcases searchEnd d dev rounds fl mem with ⟨_ | _ | _, fl'⟩
    · dsimp only
      split
      · next hzero => simp [hzero]
      · next hpos => rw [inBuf_createUse, or_iff_right hpos]
    · exact inBuf_createUse mem fl'
    · simp

/-! ## A whole life of the layer -/

/-- For every table size, pool size and table reserve, every chip and everything the chip answers:
the attach stays in the buffer exactly when it fits, and so does every sequence of remaps, from
whatever state. -/
theorem inBuf_life_iff (d : V2Config) (dev : LowerDev) (rounds : Nat) (fl : Flash)
    (mem : Nat → UInt8) (s : Bmtd V2Tbl) (cs : List RemapCall) :
    (Within d.bufsz (mtkBmtInitV2Use d dev rounds fl mem) ↔ InitFits d dev rounds fl mem) ∧
      (Within d.bufsz (remapsUse d dev s cs) ↔ RemapsFit d dev s cs) :=
  ⟨inBuf_mtkBmtInitV2Use rounds fl mem, inBuf_remapsUse cs s⟩

/-! ### A new chip with the sizes the driver takes by default -/

/-- 1024 blocks of 128 KiB with pages of 2 KiB; table and pool as without device-tree properties. -/
def stockDesc : V2Desc where
  blkShift := 17
  pgShift := 11
  totalBlks := 1024
  pgShift_le := pages2K_le
  totalBlks_lt := blks1024_lt
  remapRange := []
  disjoint := List.Pairwise.nil
  bmtPgs := 17
  oobOffset := 0
  size_le := chip128M_le
  tableSize := 0x2000
  poolSize := 80
  totalBlks_pos := by decide
  poolSize_lt := by decide
  bmtPgs_eq := by decide

/-- No block of an erased chip reads as a table. -/
theorem holdsTable_erased (d : V2Desc) {fl : Flash} (h : ∀ pg, fl.page pg = d.erasedPage)
    (block : Nat) : holdsTable d fl block = false := by
  have hfirst : bufOfPages d (fun _ => 0xff) (tablePages d fl block) 0 = 0xff := by
    unfold bufOfPages
    split
    · rw [Nat.zero_div, Nat.zero_mod]
      unfold tablePages pagesFrom
      cases d.bmtPgs with
      | zero => rfl
      | succ n =>
        rw [List.range_succ_eq_map, List.map_cons, List.getD_cons_zero, h, Geometry.erasedPage]
        cases d.pgSize with
        | zero => rfl
        | succ m => rfl
    · rfl
  unfold holdsTable isValidBmt
  rw [hfirst]
  rfl

theorem initSearch_erased (d : V2Desc) {dev : LowerDev} (hread : dev.ReadsOk) (mem : Nat → UInt8) :
    ∀ (n : Nat) (fl : Flash), (∀ pg, fl.page pg = d.erasedPage) →
      (initSearch d dev mem n fl).1 = .nothing
  | 0, _, _ => rfl
  | n + 1, fl, h => by
      obtain ⟨fl', hpage, hstep⟩ := initSearch_succ d hread mem n fl
      rw [hstep, holdsTable_erased d h, if_neg Bool.false_ne_true]
      exact initSearch_erased d hread mem n fl' fun pg => by rw [hpage, h]

/-- Where no table is found, `bmt_tbl` has to end in the buffer. -/
theorem not_initFits_of_nothing {rounds : Nat} {fl : Flash} {mem : Nat → UInt8}
    (hpos : d.poolLba ≠ 0) (hmax : d.totalBlks ≤ d.blksMax) (hroom : d.bufsz < d.bmtOff d.tableSize)
    (hnothing : (initSearch d dev mem (d.totalBlks - d.poolLba) fl).1 = .nothing) :
    ¬ InitFits d dev rounds fl mem := by
  rintro ⟨-, -, hcreate⟩
  rw [searchEnd, if_neg hpos] at hcreate
  revert hcreate
  generalize initSearch d dev mem (d.totalBlks - d.poolLba) fl = found at hnothing ⊢
  obtain ⟨_, fl'⟩ := found
  subst hnothing
  intro hcreate
  have := ((hcreate.resolve_left hpos) hmax).1
  omega

/-- Attaching to a new chip clears memory behind the buffer, although every operation succeeds. -/
theorem mtkBmtInitV2Use_not_inBuf :
    ¬ Within stockDesc.bufsz (mtkBmtInitV2Use stockDesc.toV2Config
        (.perfect stockDesc.toGeometry) 0 ⟨fun _ => stockDesc.erasedPage, [], 0⟩ (fun _ => 0xff)) := by
  rw [inBuf_mtkBmtInitV2Use]
  exact not_initFits_of_nothing (by decide) (by decide) (by decide)
    (initSearch_erased stockDesc (LowerDev.perfect_readsOk stockDesc.toGeometry) _ _ _ fun _ => rfl)

end Lede.Bmt
