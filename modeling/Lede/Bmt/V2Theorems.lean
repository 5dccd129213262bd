/-
Lede.Bmt.V2Theorems — the tables of the `mediatek,bmt-v2` back end: what the
factory scan builds, what remaps keep, and what the debug entries do to it.

The accessor lemmas at the top are the whole interface to the byte memory: two
tables that do not overlap as long as a logical block has a word in `bb_tbl`
(`i < table_size`). `V2Inv` is the invariant of the pair of tables and the
table slot; `scanBadBlocks_inv` establishes it, `uploadBmt_inv` and
`remapBlockV2_inv` keep it.
-/
import Lede.Bmt.V2

namespace Lede.Bmt

open Lede.Nand Lede.Lib

/-! ## Reading back what was stored -/

section Access

variable (d : V2Config) (mem : Nat → UInt8)

theorem bbTbl_setBbTbl (i v j : Nat) :
    bbTbl (setBbTbl mem i v) j = if j = i then v % 65536 else bbTbl mem j := by
  unfold bbTbl setBbTbl
  by_cases h : j = i
  · rw [if_pos h, h, get16_set16_self]
  · rw [if_neg h, get16_set16_of_disjoint]
    omega

theorem bmtBlock_setBbTbl {i : Nat} (h : i < d.tableSize) (v k : Nat) :
    bmtBlock d (setBbTbl mem i v) k = bmtBlock d mem k := by
  unfold bmtBlock setBbTbl V2Config.bmtOff
  rw [get16_set16_of_disjoint]
  omega

theorem bmtMark_setBbTbl {i : Nat} (h : i < d.tableSize) (v k : Nat) :
    bmtMark d (setBbTbl mem i v) k = bmtMark d mem k := by
  unfold bmtMark setBbTbl V2Config.bmtOff
  rw [get16_set16_of_disjoint]
  omega

theorem bbTbl_setBmtBlock {i : Nat} (h : i < d.tableSize) (k v : Nat) :
    bbTbl (setBmtBlock d mem k v) i = bbTbl mem i := by
  unfold bbTbl setBmtBlock V2Config.bmtOff
  rw [get16_set16_of_disjoint]
  omega

theorem bmtBlock_setBmtBlock (k v k' : Nat) :
    bmtBlock d (setBmtBlock d mem k v) k' = if k' = k then v % 65536 else bmtBlock d mem k' := by
  unfold bmtBlock setBmtBlock V2Config.bmtOff
  by_cases h : k' = k
  · rw [if_pos h, h, get16_set16_self]
  · rw [if_neg h, get16_set16_of_disjoint]
    omega

theorem bmtMark_setBmtBlock (k v k' : Nat) :
    bmtMark d (setBmtBlock d mem k v) k' = bmtMark d mem k' := by
  unfold bmtMark setBmtBlock V2Config.bmtOff
  rw [get16_set16_of_disjoint]
  omega

theorem bbTbl_setBmtMark {i : Nat} (h : i < d.tableSize) (k v : Nat) :
    bbTbl (setBmtMark d mem k v) i = bbTbl mem i := by
  unfold bbTbl setBmtMark V2Config.bmtOff
  rw [get16_set16_of_disjoint]
  omega

theorem bmtBlock_setBmtMark (k v k' : Nat) :
    bmtBlock d (setBmtMark d mem k v) k' = bmtBlock d mem k' := by
  unfold bmtBlock setBmtMark V2Config.bmtOff
  rw [get16_set16_of_disjoint]
  omega

theorem bmtMark_setBmtMark (k v k' : Nat) :
    bmtMark d (setBmtMark d mem k v) k' = if k' = k then v % 65536 else bmtMark d mem k' := by
  unfold bmtMark setBmtMark V2Config.bmtOff
  by_cases h : k' = k
  · rw [if_pos h, h, get16_set16_self]
  · rw [if_neg h, get16_set16_of_disjoint]
    omega

/-- The signature lies before both tables. -/
theorem get16_signTable {o : Nat} (h : bbbtHdr ≤ o) : get16 (signTable mem) o = get16 mem o := by
  apply get16_congr
  intro i _
  unfold bbbtHdr at h
  unfold signTable
  rw [if_neg (by omega), if_neg (by omega), if_neg (by omega), if_neg (by omega)]

theorem bbTbl_signTable (i : Nat) : bbTbl (signTable mem) i = bbTbl mem i :=
  get16_signTable mem (by omega)

theorem bmtBlock_signTable (k : Nat) : bmtBlock d (signTable mem) k = bmtBlock d mem k :=
  get16_signTable mem (by unfold V2Config.bmtOff; omega)

theorem bmtMark_signTable (k : Nat) : bmtMark d (signTable mem) k = bmtMark d mem k :=
  get16_signTable mem (by unfold V2Config.bmtOff; omega)

end Access

/-! ## The factory scan -/

section Scan

variable (d : V2Config) (dev : LowerDev)

/-- A block that is found lies at or above the start and on the chip. -/
theorem findValidBlock_range : ∀ (k : Nat) (fl : Flash) (block : Nat),
    (findValidBlock d dev k fl block).1 ≠ 0 →
    block ≤ (findValidBlock d dev k fl block).1 ∧ (findValidBlock d dev k fl block).1 < d.totalBlks
  | k, fl, block, h => by
      rw [findValidBlock] at h ⊢
      split at h
      · exact absurd rfl h
      · next hlt =>
        rw [if_neg hlt]
        dsimp only at h ⊢
        split at h
        · next hgood =>
          rw [if_pos hgood]
          dsimp only
          omega
        · next hbad =>
          rw [if_neg hbad]
          cases k with
          | zero => exact absurd rfl h
          | succ k =>
            obtain ⟨hle, hlt⟩ := findValidBlock_range k _ (block + 1) h
            exact ⟨Nat.le_of_succ_le hle, hlt⟩

/-- `bb_tbl` is filled up to entry `i`: ascending blocks of the chip. -/
structure DataScanned (i : Nat) (mem : Nat → UInt8) : Prop where
  lt : ∀ j < i, bbTbl mem j < d.totalBlks
  mono : ∀ j j', j < j' → j' < i → bbTbl mem j < bbTbl mem j'

/-- `bmt_tbl` is filled up to entry `i`: ascending free blocks between `lo` and
the block `next` that is looked at next. -/
structure PoolScanned (lo next i : Nat) (mem : Nat → UInt8) : Prop where
  ge : ∀ k < i, lo ≤ bmtBlock d mem k
  lt : ∀ k < i, bmtBlock d mem k < next
  mono : ∀ k k', k < k' → k' < i → bmtBlock d mem k < bmtBlock d mem k'
  free : ∀ k < i, bmtMark d mem k = noMapped
  count : lo + i ≤ next
  next_le : next ≤ d.totalBlks

variable {d}

/-- One round of the first loop. -/
theorem DataScanned.step {i b : Nat} {mem : Nat → UInt8} (h : DataScanned d i mem) (hi : 1 ≤ i)
    (hlo : bbTbl mem (i - 1) + 1 ≤ b) (hb : b < d.totalBlks) :
    DataScanned d (i + 1) (setBbTbl mem i b) := by
  have htot := d.totalBlks_lt
  have hread : ∀ j, bbTbl (setBbTbl mem i b) j = if j = i then b else bbTbl mem j := by
    intro j
    rw [bbTbl_setBbTbl, Nat.mod_eq_of_lt (by omega : b < 65536)]
  have hbelow : ∀ j < i, bbTbl mem j < b := by
    intro j hj
    by_cases hj' : j = i - 1
    · subst hj'
      omega
    · have := h.mono j (i - 1) (by omega) (by omega)
      omega
  constructor
  · intro j hj
    rw [hread]
    split
    · exact hb
    · exact h.lt j (by omega)
  · intro j j' hjj' hj'
    rw [hread, hread, if_neg (by omega)]
    split
    · exact hbelow j (by omega)
    · exact h.mono j j' hjj' (by omega)

/-- The first loop fills every entry it is asked to. -/
theorem scanData_scanned : ∀ (n i : Nat) (s : Bmtd V2Tbl), 1 ≤ i → DataScanned d i s.tbl.mem →
    (scanData d dev n i s).1 = true → DataScanned d (i + n) (scanData d dev n i s).2.tbl.mem
  | 0, _, _, _, h, _ => h
  | n + 1, i, s, hi, h, hok => by
      rw [scanData] at hok ⊢
      dsimp only at hok ⊢
      split at hok
      · exact absurd hok Bool.false_ne_true
      · next hne =>
        rw [if_neg hne]
        obtain ⟨hge, hlt⟩ := findValidBlock_range d dev d.bbMax s.flash _ hne
        have ih := scanData_scanned n (i + 1) _ (by omega) (h.step hi hge hlt) hok
        rwa [Nat.add_right_comm] at ih

/-- One round of the second loop. -/
theorem PoolScanned.step {lo next i b : Nat} {mem : Nat → UInt8} (h : PoolScanned d lo next i mem)
    (hlo : next ≤ b) (hb : b < d.totalBlks) :
    PoolScanned d lo (b + 1) (i + 1) (setBmtMark d (setBmtBlock d mem i b) i noMapped) := by
  have htot := d.totalBlks_lt
  have hcount := h.count
  have hblock : ∀ k, bmtBlock d (setBmtMark d (setBmtBlock d mem i b) i noMapped) k
      = if k = i then b else bmtBlock d mem k := by
    intro k
    rw [bmtBlock_setBmtMark, bmtBlock_setBmtBlock, Nat.mod_eq_of_lt (by omega : b < 65536)]
  constructor
  · intro k hk
    rw [hblock]
    split
    · omega
    · exact h.ge k (by omega)
  · intro k hk
    rw [hblock]
    split
    · omega
    · have := h.lt k (by omega)
      omega
  · intro k k' hkk' hk'
    rw [hblock, hblock, if_neg (by omega)]
    split
    · have := h.lt k (by omega)
      omega
    · exact h.mono k k' hkk' (by omega)
  · intro k hk
    rw [bmtMark_setBmtMark, bmtMark_setBmtBlock]
    split
    · rfl
    · exact h.free k (by omega)
  · omega
  · omega

/-- The second loop fills the pool. -/
theorem scanPool_scanned {lo : Nat} : ∀ (n i block : Nat) (s : Bmtd V2Tbl),
    PoolScanned d lo block i s.tbl.mem →
    ∃ next, PoolScanned d lo next (scanPool d dev n i block s).1 (scanPool d dev n i block s).2.tbl.mem
  | 0, _, block, _, h => ⟨block, h⟩
  | n + 1, i, block, s, h => by
      rw [scanPool]
      dsimp only
      split
      · exact ⟨block, h⟩
      · next hne =>
        obtain ⟨hge, hlt⟩ := findValidBlock_range d dev d.bbMax s.flash block hne
        exact scanPool_scanned n (i + 1) _ _ (h.step hge hlt)

/-- The second loop leaves `bb_tbl` alone. -/
theorem scanPool_bbTbl : ∀ (n i block : Nat) (s : Bmtd V2Tbl) {j : Nat}, j < d.tableSize →
    bbTbl (scanPool d dev n i block s).2.tbl.mem j = bbTbl s.tbl.mem j
  | 0, _, _, _, _, _ => rfl
  | n + 1, i, block, s, j, hj => by
      rw [scanPool]
      dsimp only
      split
      · rfl
      · rw [scanPool_bbTbl n _ _ _ hj, bbTbl_setBmtMark d _ hj, bbTbl_setBmtBlock d _ hj]

end Scan

/-! ## Storing the table -/

section Upload

variable (d : V2Desc) (dev : LowerDev)

/-- What `upload_bmt` started at slot `m - 1` does to the tables, `r` being what
it returns: it empties the slots it gives up, which are never in use, and
changes nothing else. -/
structure Uploaded (m : Nat) (mem : Nat → UInt8) (r : Nat) (mem' : Nat → UInt8) : Prop where
  bb : ∀ i < d.tableSize, bbTbl mem' i = bbTbl mem i
  mark : ∀ k, bmtMark d mem' k = bmtMark d mem k
  block : ∀ k, bmtBlock d mem' k = bmtBlock d mem k ∨
    (bmtBlock d mem' k = 0 ∧ bmtMark d mem k ≠ normalMapped)
  slot : r = noSlot ∨ (r < m ∧ (∀ k, r ≤ k → k < m → bmtMark d mem k ≠ normalMapped) ∧
    ∀ k ≤ r, bmtBlock d mem' k = bmtBlock d mem k)

variable {d}

/-- The table is signed and stored in the slot asked for. -/
theorem Uploaded.done {n : Nat} {mem : Nat → UInt8} (h : bmtMark d mem n ≠ normalMapped) :
    Uploaded d (n + 1) mem n (signTable mem) where
  bb := fun i _ => bbTbl_signTable mem i
  mark := bmtMark_signTable d mem
  block := fun k => Or.inl (bmtBlock_signTable d mem k)
  slot := by
    refine Or.inr ⟨by omega, fun k h₁ h₂ => ?_, fun k _ => bmtBlock_signTable d mem k⟩
    obtain rfl : k = n := by omega
    exact h

/-- A slot is given up; `mem₁` is the memory before its block number is cleared,
with or without the signature. -/
theorem Uploaded.skip {n r : Nat} {mem mem₁ mem' : Nat → UInt8} (h : bmtMark d mem n ≠ normalMapped)
    (hmem : mem₁ = mem ∨ mem₁ = signTable mem)
    (hu : Uploaded d n (setBmtBlock d mem₁ n 0) r mem') : Uploaded d (n + 1) mem r mem' := by
  have hbb : ∀ i, bbTbl mem₁ i = bbTbl mem i := by
    rcases hmem with rfl | rfl
    · exact fun _ => rfl
    · exact bbTbl_signTable mem
  have hblock : ∀ k, bmtBlock d mem₁ k = bmtBlock d mem k := by
    rcases hmem with rfl | rfl
    · exact fun _ => rfl
    · exact bmtBlock_signTable d mem
  have hmark : ∀ k, bmtMark d (setBmtBlock d mem₁ n 0) k = bmtMark d mem k := by
    intro k
    rw [bmtMark_setBmtBlock]
    rcases hmem with rfl | rfl
    · rfl
    · exact bmtMark_signTable d mem k
  constructor
  · intro i hi
    rw [hu.bb i hi, bbTbl_setBmtBlock d _ hi, hbb]
  · intro k
    rw [hu.mark, hmark]
  · intro k
    have hk := hu.block k
    rw [hmark, bmtBlock_setBmtBlock] at hk
    by_cases hkn : k = n
    · subst hkn
      rw [if_pos rfl] at hk
      rcases hk with hk | hk
      · exact Or.inr ⟨hk, h⟩
      · exact Or.inr hk
    · rwa [if_neg hkn, hblock] at hk
  · rcases hu.slot with hr | ⟨hr, hnone, hsame⟩
    · exact Or.inl hr
    · refine Or.inr ⟨by omega, fun k h₁ h₂ => ?_, fun k hk => ?_⟩
      · by_cases hkn : k = n
        · subst hkn
          exact h
        · have := hnone k h₁ (by omega)
          rwa [hmark] at this
      · rw [hsame k hk, bmtBlock_setBmtBlock, if_neg (by omega), hblock]

/-- `upload_bmt`, by induction over the slots it tries. -/
theorem uploadBmt_uploaded : ∀ (m : Nat) (s : Bmtd V2Tbl),
    Uploaded d m s.tbl.mem (uploadBmt d dev m s).1 (uploadBmt d dev m s).2.tbl.mem
  | 0, s => ⟨fun _ _ => rfl, fun _ => rfl, fun _ => Or.inl rfl, Or.inl rfl⟩
  | n + 1, s => by
      rw [uploadBmt]
      split
      · exact ⟨fun _ _ => rfl, fun _ => rfl, fun _ => Or.inl rfl, Or.inl rfl⟩
      · next hmark =>
        dsimp only
        split
        · refine Uploaded.skip hmark (Or.inl rfl) ?_
          exact uploadBmt_uploaded n ⟨_, { s.tbl with mem := setBmtBlock d s.tbl.mem n 0 }⟩
        · split
          · refine Uploaded.skip hmark (Or.inr rfl) ?_
            exact uploadBmt_uploaded n ⟨_, { s.tbl with mem := setBmtBlock d (signTable s.tbl.mem) n 0 }⟩
          · exact Uploaded.done hmark

theorem uploadAtIdx_uploaded (s : Bmtd V2Tbl) :
    Uploaded d (s.tbl.bmtBlkIdx + 1) s.tbl.mem (uploadAtIdx d dev s).tbl.bmtBlkIdx
      (uploadAtIdx d dev s).tbl.mem :=
  uploadBmt_uploaded dev (s.tbl.bmtBlkIdx + 1) s

end Upload

/-! ## The invariant -/

/-- `bb_tbl` is injective on `[0, pool_lba)`. -/
def BbInj (d : V2Desc) (mem : Nat → UInt8) : Prop :=
  ∀ i < d.poolLba, ∀ j < d.poolLba, bbTbl mem i = bbTbl mem j → i = j

/-- The invariant of the two tables over a pool of `N` entries, after the blocks
`handed` were handed out: an entry that is not in use holds a block no logical
block is mapped to. -/
structure V2Inv (d : V2Desc) (N : Nat) (handed : List Nat) (tbl : V2Tbl) : Prop where
  N_lt : N < noSlot
  bb_lt : ∀ i < d.poolLba, bbTbl tbl.mem i < d.totalBlks
  bb_inj : BbInj d tbl.mem
  pool_lt : ∀ k < N, bmtBlock d tbl.mem k < d.totalBlks
  pool_ge : ∀ k < N, bmtBlock d tbl.mem k ≠ 0 → d.poolLba ≤ bmtBlock d tbl.mem k
  pool_inj : ∀ k < N, ∀ k' < N, bmtBlock d tbl.mem k ≠ 0 →
    bmtBlock d tbl.mem k = bmtBlock d tbl.mem k' → k = k'
  free_unused : ∀ k < N, bmtBlock d tbl.mem k ≠ 0 → bmtMark d tbl.mem k ≠ normalMapped →
    ∀ i < d.poolLba, bbTbl tbl.mem i ≠ bmtBlock d tbl.mem k
  slot : tbl.bmtBlkIdx ≠ noSlot → tbl.bmtBlkIdx < N ∧
    ∀ k ≤ tbl.bmtBlkIdx, bmtBlock d tbl.mem k ≠ 0
  normal_lt : ∀ k < N, bmtMark d tbl.mem k = normalMapped → k < tbl.bmtBlkIdx
  handed_normal : ∀ b ∈ handed, ∃ k < N, bmtMark d tbl.mem k = normalMapped ∧
    bmtBlock d tbl.mem k = b
  handed_nodup : handed.Nodup

section Invariant

variable {d : V2Desc} {dev : LowerDev} {N : Nat} {handed : List Nat}

/-- Storing the table keeps the invariant. -/
theorem V2Inv.uploaded {tbl tbl' : V2Tbl} (hts : d.poolLba ≤ d.tableSize) (h : V2Inv d N handed tbl)
    (hidx : tbl.bmtBlkIdx ≠ noSlot)
    (hu : Uploaded d (tbl.bmtBlkIdx + 1) tbl.mem tbl'.bmtBlkIdx tbl'.mem) :
    V2Inv d N handed tbl' := by
  obtain ⟨hN, hnz⟩ := h.slot hidx
  have hbb : ∀ i < d.poolLba, bbTbl tbl'.mem i = bbTbl tbl.mem i :=
    fun i hi => hu.bb i (by omega)
  have hsame : ∀ k, bmtBlock d tbl'.mem k ≠ 0 → bmtBlock d tbl'.mem k = bmtBlock d tbl.mem k :=
    fun k hk => (hu.block k).resolve_right fun hz => hk hz.1
  constructor
  · exact h.N_lt
  · intro i hi
    rw [hbb i hi]
    exact h.bb_lt i hi
  · intro i hi j hj hij
    rw [hbb i hi, hbb j hj] at hij
    exact h.bb_inj i hi j hj hij
  · intro k hk
    have htot := h.pool_lt k hk
    rcases hu.block k with hb | ⟨hb, -⟩
    · omega
    · omega
  · intro k hk hk0
    have hkb := hsame k hk0
    rw [hkb] at hk0 ⊢
    exact h.pool_ge k hk hk0
  · intro k hk k' hk' hk0 hkk'
    have hkb := hsame k hk0
    have hkb' := hsame k' (hkk' ▸ hk0)
    exact h.pool_inj k hk k' hk' (hkb ▸ hk0) (by rw [← hkb, ← hkb', hkk'])
  · intro k hk hk0 hmark i hi
    rw [hu.mark] at hmark
    rw [hbb i hi, hsame k hk0]
    exact h.free_unused k hk (hsame k hk0 ▸ hk0) hmark i hi
  · intro hr
    obtain ⟨hrm, -, hrb⟩ := hu.slot.resolve_left hr
    refine ⟨by omega, fun k hk => ?_⟩
    rw [hrb k hk]
    exact hnz k (by omega)
  · intro k hk hmark
    rw [hu.mark] at hmark
    have hlt := h.normal_lt k hk hmark
    have hNlt := h.N_lt
    rcases hu.slot with hr | ⟨-, hnone, -⟩
    · omega
    · by_contra hge
      exact hnone k (by omega) (by omega) hmark
  · intro b hb
    obtain ⟨k, hk, hmark, hblock⟩ := h.handed_normal b hb
    refine ⟨k, hk, by rw [hu.mark, hmark], ?_⟩
    rcases hu.block k with hkb | ⟨-, hfree⟩
    · rw [hkb, hblock]
    · exact absurd hmark hfree
  · exact h.handed_nodup

theorem V2Inv.upload {s : Bmtd V2Tbl} (hts : d.poolLba ≤ d.tableSize) (h : V2Inv d N handed s.tbl)
    (hidx : s.tbl.bmtBlkIdx ≠ noSlot) : V2Inv d N handed (uploadAtIdx d dev s).tbl :=
  h.uploaded hts hidx (uploadAtIdx_uploaded dev s)

/-- The slot that `find_valid_block_in_pool` takes. -/
theorem findInPool_spec {d : V2Config} (mem : Nat → UInt8) : ∀ (n i : Nat) {k : Nat},
    findInPool d mem n i = some k →
    i ≤ k ∧ k < i + n ∧ bmtBlock d mem k ≠ 0 ∧ bmtMark d mem k = noMapped
  | 0, _, _, h => by simp [findInPool] at h
  | n + 1, i, k, h => by
      rw [findInPool] at h
      split at h
      · next hfree =>
        obtain rfl := Option.some.inj h
        exact ⟨Nat.le_refl _, by omega, hfree⟩
      · obtain ⟨h₁, h₂, h₃⟩ := findInPool_spec mem n (i + 1) h
        exact ⟨by omega, by omega, h₃⟩

/-- Marking a free entry as used and mapping a logical block to it. -/
theorem V2Inv.map {tbl : V2Tbl} {k block : Nat} (hts : d.poolLba ≤ d.tableSize)
    (h : V2Inv d N handed tbl) (hk : k < tbl.bmtBlkIdx) (hidx : tbl.bmtBlkIdx ≠ noSlot)
    (hk0 : bmtBlock d tbl.mem k ≠ 0) (hfree : bmtMark d tbl.mem k = noMapped)
    (hblock : block < d.poolLba) :
    V2Inv d N (bmtBlock d tbl.mem k :: handed)
      { tbl with mem := setBbTbl (setBmtMark d tbl.mem k normalMapped) block (bmtBlock d tbl.mem k) } := by
  obtain ⟨hN, hnz⟩ := h.slot hidx
  have hfree' : bmtMark d tbl.mem k ≠ normalMapped := by rw [hfree]; decide
  have hlt := h.pool_lt k (by omega)
  have htot := d.totalBlks_lt
  have hbb : ∀ i < d.poolLba,
      bbTbl (setBbTbl (setBmtMark d tbl.mem k normalMapped) block (bmtBlock d tbl.mem k)) i
        = if i = block then bmtBlock d tbl.mem k else bbTbl tbl.mem i := by
    intro i hi
    rw [bbTbl_setBbTbl, Nat.mod_eq_of_lt (by omega : bmtBlock d tbl.mem k < 65536),
      bbTbl_setBmtMark d _ (by omega)]
  have hbk : ∀ k',
      bmtBlock d (setBbTbl (setBmtMark d tbl.mem k normalMapped) block (bmtBlock d tbl.mem k)) k'
        = bmtBlock d tbl.mem k' := by
    intro k'
    rw [bmtBlock_setBbTbl d _ (by omega), bmtBlock_setBmtMark]
  have hmk : ∀ k',
      bmtMark d (setBbTbl (setBmtMark d tbl.mem k normalMapped) block (bmtBlock d tbl.mem k)) k'
        = if k' = k then normalMapped else bmtMark d tbl.mem k' := by
    intro k'
    rw [bmtMark_setBbTbl d _ (by omega), bmtMark_setBmtMark]
    rfl
  have hnew := h.free_unused k (by omega) hk0 hfree'
  constructor
  · exact h.N_lt
  · intro i hi
    dsimp only
    rw [hbb i hi]
    split
    · exact hlt
    · exact h.bb_lt i hi
  · intro i hi j hj hij
    dsimp only at hij
    rw [hbb i hi, hbb j hj] at hij
    split at hij
    · next hib =>
      split at hij
      · next hjb => rw [hib, hjb]
      · exact absurd hij.symm (hnew j hj)
    · split at hij
      · exact absurd hij (hnew i hi)
      · exact h.bb_inj i hi j hj hij
  · intro k' hk'
    dsimp only
    rw [hbk]
    exact h.pool_lt k' hk'
  · intro k' hk'
    dsimp only
    rw [hbk]
    exact h.pool_ge k' hk'
  · intro k₁ h₁ k₂ h₂
    dsimp only
    rw [hbk, hbk]
    exact h.pool_inj k₁ h₁ k₂ h₂
  · intro k' hk' hk0' hmark i hi
    dsimp only at hk0' hmark ⊢
    rw [hmk] at hmark
    rw [hbk] at hk0'
    rw [hbk, hbb i hi]
    split at hmark
    · exact absurd rfl hmark
    · next hne =>
      split
      · exact fun he => hne (h.pool_inj k (by omega) k' hk' hk0 he).symm
      · exact h.free_unused k' hk' hk0' hmark i hi
  · intro _
    refine ⟨hN, fun k' hk' => ?_⟩
    dsimp only
    rw [hbk]
    exact hnz k' hk'
  · intro k' hk' hmark
    dsimp only at hmark ⊢
    rw [hmk] at hmark
    split at hmark
    · next he => rw [he]; exact hk
    · exact h.normal_lt k' hk' hmark
  · intro b hb
    dsimp only
    rcases List.mem_cons.mp hb with rfl | hb
    · exact ⟨k, by omega, by rw [hmk, if_pos rfl], hbk k⟩
    · obtain ⟨k', hk', hmark, hb'⟩ := h.handed_normal b hb
      refine ⟨k', hk', ?_, by rw [hbk, hb']⟩
      rw [hmk]
      split
      · rfl
      · exact hmark
  · refine List.nodup_cons.mpr ⟨fun hmem => ?_, h.handed_nodup⟩
    -- an entry in use that held the same block would be this one
    obtain ⟨k', hk', hmark, hb'⟩ := h.handed_normal _ hmem
    have hkk' := h.pool_inj k (by omega) k' hk' hk0 hb'.symm
    rw [← hkk'] at hmark
    exact hfree' hmark

/-- The pool block that a remap from `tbl` hands out, if any. -/
def handedOut (d : V2Desc) (tbl : V2Tbl) : List Nat :=
  if (findValidBlockInPool d tbl).1 = 0 then [] else [(findValidBlockInPool d tbl).1]

/-- `remap_block_v2` keeps the invariant. -/
theorem V2Inv.remap {s : Bmtd V2Tbl} (hts : d.poolLba ≤ d.tableSize) (h : V2Inv d N handed s.tbl)
    (hidx : s.tbl.bmtBlkIdx ≠ noSlot) {block : Nat} (hblock : block < d.poolLba)
    (mappedBlock copyLen : Nat) :
    V2Inv d N (handedOut d s.tbl ++ handed) (remapBlockV2 d dev s block mappedBlock copyLen).2.tbl := by
  unfold handedOut remapBlockV2 findValidBlockInPool
  by_cases h0 : s.tbl.bmtBlkIdx = 0
  · rw [if_pos h0]
    exact h
  · rw [if_neg h0]
    cases hf : findInPool d s.tbl.mem s.tbl.bmtBlkIdx 0 with
    | none => exact h
    | some k =>
      obtain ⟨-, hk, hk0, hfree⟩ := findInPool_spec s.tbl.mem _ _ hf
      have hmap := h.map hts (by omega) hidx hk0 hfree hblock
      dsimp only
      rw [if_neg hk0, if_neg hk0]
      exact V2Inv.upload (s := ⟨_, _⟩) hts hmap hidx

/-- Taking a pool entry leaves `bb_tbl` alone. -/
theorem findValidBlockInPool_bbTbl (tbl : V2Tbl) {i : Nat} (hi : i < d.tableSize) :
    bbTbl (findValidBlockInPool d tbl).2.mem i = bbTbl tbl.mem i := by
  unfold findValidBlockInPool
  split
  · rfl
  · split
    · rfl
    · exact bbTbl_setBmtMark d tbl.mem hi _ _

/-- A remap that finds a block maps the logical block there, and no other. -/
theorem remapBlockV2_bbTbl (s : Bmtd V2Tbl) (block mappedBlock copyLen : Nat)
    (hne : (findValidBlockInPool d s.tbl).1 ≠ 0) {i : Nat} (hi : i < d.tableSize) :
    bbTbl (remapBlockV2 d dev s block mappedBlock copyLen).2.tbl.mem i =
      if i = block then (findValidBlockInPool d s.tbl).1 % 65536 else bbTbl s.tbl.mem i := by
  unfold remapBlockV2
  dsimp only
  rw [if_neg hne, (uploadAtIdx_uploaded dev ⟨_, _⟩).bb i hi, bbTbl_setBbTbl,
    findValidBlockInPool_bbTbl s.tbl hi]

/-- Before the first loop only block 0 is mapped, to itself. -/
theorem dataScanned_one (mem : Nat → UInt8) : DataScanned d 1 (setBbTbl mem 0 0) := by
  have hps := d.poolSize_lt
  constructor
  · intro j hj
    rw [bbTbl_setBbTbl, if_pos (by omega)]
    omega
  · intro j j' h₁ h₂
    omega

theorem poolScanned_zero {lo : Nat} (mem : Nat → UInt8) (h : lo ≤ d.totalBlks) :
    PoolScanned d lo lo 0 mem :=
  ⟨by simp, by simp, by simp, by simp, Nat.le_refl _, h⟩

/-- Both loops have ended: the tables a successful `scan_bad_blocks` leaves. -/
theorem scanBadBlocks_tables (hts : d.poolLba ≤ d.tableSize) (s : Bmtd V2Tbl)
    (hok : (scanBadBlocks d dev s).1 = true) :
    ∃ mem next i, DataScanned d d.poolLba mem ∧
      PoolScanned d (bbTbl mem (d.poolLba - 1) + 1) next i mem ∧ 1 ≤ i ∧
      (scanBadBlocks d dev s).2.tbl.mem = setBmtMark d mem (i - 1) bmtMapped ∧
      (scanBadBlocks d dev s).2.tbl.bmtBlkIdx = i - 1 := by
  have hlba : 2 ≤ d.poolLba := by
    rw [d.poolLba_eq]
    omega
  have hdata := scanData_scanned (d := d) dev (d.poolLba - 1) 1
    { s with tbl := { s.tbl with mem := setBbTbl s.tbl.mem 0 0 } } (Nat.le_refl 1)
    (dataScanned_one s.tbl.mem)
  unfold scanBadBlocks at hok ⊢
  dsimp only at hok ⊢
  generalize scanData d dev (d.poolLba - 1) 1
    { s with tbl := { s.tbl with mem := setBbTbl s.tbl.mem 0 0 } } = res at hok hdata ⊢
  obtain ⟨ok, s₁⟩ := res
  cases ok with
  | false => exact absurd hok Bool.false_ne_true
  | true =>
    dsimp only at hok hdata ⊢
    rw [Bool.not_true, if_neg Bool.false_ne_true] at hok ⊢
    have hdata := hdata rfl
    rw [Nat.add_sub_cancel' (by omega)] at hdata
    split at hok
    · exact absurd hok Bool.false_ne_true
    · next hpba =>
      rw [if_neg hpba]
      generalize hs₂ : ({ s₁ with tbl := { s₁.tbl with
        poolPba := bbTbl s₁.tbl.mem (d.poolLba - 1) + 1 } } : Bmtd V2Tbl) = s₂ at hok ⊢
      have hmem : s₂.tbl.mem = s₁.tbl.mem := by rw [← hs₂]
      rw [← hmem] at hpba hdata hok ⊢
      obtain ⟨next, hpool⟩ := scanPool_scanned (d := d) dev d.totalBlks 0
        (bbTbl s₂.tbl.mem (d.poolLba - 1) + 1) s₂ (poolScanned_zero _ (by omega))
      have hbb : ∀ j < d.poolLba, bbTbl _ j = bbTbl s₂.tbl.mem j := fun j hj =>
        scanPool_bbTbl (d := d) dev d.totalBlks 0 (bbTbl s₂.tbl.mem (d.poolLba - 1) + 1) s₂
          (by omega : j < d.tableSize)
      generalize scanPool d dev d.totalBlks 0 (bbTbl s₂.tbl.mem (d.poolLba - 1) + 1) s₂ = res
        at hok hpool hbb ⊢
      obtain ⟨i, s₃⟩ := res
      dsimp only at hok hpool hbb ⊢
      have hi : 1 ≤ i := of_decide_eq_true hok
      have hcount := hpool.count
      have hnext := hpool.next_le
      have htot := d.totalBlks_lt
      refine ⟨s₃.tbl.mem, next, i, ?_, ?_, hi, ?_, ?_⟩
      · refine ⟨fun j hj => ?_, fun j j' h₁ h₂ => ?_⟩
        · rw [hbb j hj]
          exact hdata.lt j hj
        · rw [hbb j (by omega), hbb j' h₂]
          exact hdata.mono j j' h₁ h₂
      · rw [hbb _ (by omega)]
        exact hpool
      · rw [show (i + 65535) % 65536 = i - 1 by omega]
      · omega

/-- A strictly ascending table of blocks never falls below its index. -/
theorem DataScanned.le_bbTbl {n : Nat} {mem : Nat → UInt8} (h : DataScanned d n mem) :
    ∀ i < n, i ≤ bbTbl mem i
  | 0, _ => Nat.zero_le _
  | i + 1, hi => by
      have ih := h.le_bbTbl i (by omega)
      have hstep := h.mono i (i + 1) (by omega) hi
      omega

/-- The tables of a successful scan satisfy the invariant. -/
theorem v2Inv_of_scanned {mem : Nat → UInt8} {next i : Nat} (pba : Nat)
    (hts : d.poolLba ≤ d.tableSize) (hdata : DataScanned d d.poolLba mem)
    (hpool : PoolScanned d (bbTbl mem (d.poolLba - 1) + 1) next i mem) (hi : 1 ≤ i) :
    V2Inv d i [] { mem := setBmtMark d mem (i - 1) bmtMapped, bmtBlkIdx := i - 1, poolPba := pba } := by
  have htot := d.totalBlks_lt
  have hcount := hpool.count
  have hnext := hpool.next_le
  have hlba : 2 ≤ d.poolLba := by
    rw [d.poolLba_eq]
    omega
  have hlast := hdata.le_bbTbl (d.poolLba - 1) (by omega)
  have hbb : ∀ j < d.poolLba, bbTbl (setBmtMark d mem (i - 1) bmtMapped) j = bbTbl mem j :=
    fun j hj => bbTbl_setBmtMark d mem (by omega) (i - 1) bmtMapped
  have hbk := bmtBlock_setBmtMark d mem (i - 1) bmtMapped
  have hmk : ∀ k < i, bmtMark d (setBmtMark d mem (i - 1) bmtMapped) k ≠ normalMapped := by
    intro k hk
    rw [bmtMark_setBmtMark]
    split
    · decide
    · rw [hpool.free k hk]
      decide
  have hdatale : ∀ j < d.poolLba, bbTbl mem j ≤ bbTbl mem (d.poolLba - 1) := by
    intro j hj
    rcases Nat.lt_or_ge j (d.poolLba - 1) with hlt | hge
    · exact Nat.le_of_lt (hdata.mono j _ hlt (by omega))
    · rw [show j = d.poolLba - 1 by omega]
  have hge : ∀ k < i, d.poolLba ≤ bmtBlock d mem k := by
    intro k hk
    have := hpool.ge k hk
    omega
  constructor
  · unfold noSlot
    omega
  · intro j hj
    dsimp only
    rw [hbb j hj]
    exact hdata.lt j hj
  · intro j hj j' hj' hjj'
    dsimp only at hjj'
    rw [hbb j hj, hbb j' hj'] at hjj'
    rcases Nat.lt_trichotomy j j' with hlt | heq | hgt
    · have := hdata.mono j j' hlt hj'
      omega
    · exact heq
    · have := hdata.mono j' j hgt hj
      omega
  · intro k hk
    dsimp only
    rw [hbk]
    exact Nat.lt_of_lt_of_le (hpool.lt k hk) hnext
  · intro k hk _
    dsimp only
    rw [hbk]
    exact hge k hk
  · intro k hk k' hk' _ hkk'
    dsimp only at hkk'
    rw [hbk, hbk] at hkk'
    rcases Nat.lt_trichotomy k k' with hlt | heq | hgt
    · have := hpool.mono k k' hlt hk'
      omega
    · exact heq
    · have := hpool.mono k' k hgt hk
      omega
  · intro k hk _ _ j hj
    dsimp only
    rw [hbk, hbb j hj]
    have h₁ := hpool.ge k hk
    have h₂ := hdatale j hj
    omega
  · intro _
    refine ⟨Nat.sub_lt hi Nat.one_pos, fun k hk => ?_⟩
    dsimp only at hk ⊢
    rw [hbk]
    have := hge k (by omega)
    omega
  · intro k hk hmark
    exact absurd hmark (hmk k hk)
  · intro b hb
    exact absurd hb (List.not_mem_nil)
  · exact List.nodup_nil

/-- `scan_bad_blocks` establishes the invariant. -/
theorem scanBadBlocks_inv (hts : d.poolLba ≤ d.tableSize) (s : Bmtd V2Tbl)
    (hok : (scanBadBlocks d dev s).1 = true) :
    V2Inv d ((scanBadBlocks d dev s).2.tbl.bmtBlkIdx + 1) [] (scanBadBlocks d dev s).2.tbl := by
  obtain ⟨mem, next, i, hdata, hpool, hi, hmem, hidx⟩ := scanBadBlocks_tables hts s hok
  have h := v2Inv_of_scanned (scanBadBlocks d dev s).2.tbl.poolPba hts hdata hpool hi
  rw [← hmem, ← hidx] at h
  rwa [hidx, Nat.sub_add_cancel hi]

end Invariant

end Lede.Bmt
