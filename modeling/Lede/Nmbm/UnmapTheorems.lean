/-
Lede.Nmbm.UnmapTheorems — when `unmap_block_nmbm` restores the mapping of the creation.

The creation numbers the good data blocks: the block of logical block `i` is the good one with `i`
good blocks before it (`nmbmBuildMappingTable_count`). So counting up from a logical block that is
still where it was arrives at the block of the creation exactly if there is no block on the way
that was bad then. `Placed` is what every run of remaps keeps: a logical block is where the
creation put it, or it was given a block of the management area.
-/
import Mathlib.Data.Nat.Count
import Lede.Nmbm.CreateTheorems
import Lede.Nmbm.LoopTheorems
import Lede.Nmbm.ReloadTheorems
import Lede.Nmbm.Unmap

namespace Lede.Nmbm

open Lede.Nand Lede.Bmt Lede.Lib

/-! ## The mapping of the creation -/

section Mapping

variable (ni : NmbmInstance)

/-- Every entry is a good block, with as many good blocks before it as its index. -/
theorem buildMappingLoop_count : ∀ (n pb lb : Nat) (map : Nat → BitVec 32), pb + n < 2 ^ 31 →
    lb = Nat.count (WasGood ni) pb →
    (∀ i < lb, (map i).toNat < pb ∧ WasGood ni (map i).toNat ∧
      Nat.count (WasGood ni) (map i).toNat = i) →
    (buildMappingLoop ni n pb lb map).1 = Nat.count (WasGood ni) (pb + n) ∧
      ∀ i < (buildMappingLoop ni n pb lb map).1,
        ((buildMappingLoop ni n pb lb map).2 i).toNat < pb + n ∧
        WasGood ni ((buildMappingLoop ni n pb lb map).2 i).toNat ∧
        Nat.count (WasGood ni) ((buildMappingLoop ni n pb lb map).2 i).toNat = i
  | 0, _, _, _, _, hlb, hmap => ⟨hlb, hmap⟩
  | n + 1, pb, lb, map, hn, hlb, hmap => by
      have hadd : pb + (n + 1) = pb + 1 + n := by omega
      rw [buildMappingLoop, hadd]
      by_cases hbad : getBlockState ni pb = blockStBad
      · have hpb : ¬ WasGood ni pb := fun h => h hbad
        rw [if_pos hbad]
        refine buildMappingLoop_count n (pb + 1) lb map (by omega) ?_ fun i hi => ?_
        · rw [Nat.count_succ_eq_count hpb]
          exact hlb
        · obtain ⟨h₁, h₂⟩ := hmap i hi
          exact ⟨by omega, h₂⟩
      · have hpb : WasGood ni pb := hbad
        have hnat : (BitVec.ofNat 32 pb).toNat = pb := by
          rw [BitVec.toNat_ofNat]
          omega
        rw [if_neg hbad]
        refine buildMappingLoop_count n (pb + 1) (lb + 1) _ (by omega) ?_ fun i hi => ?_
        · rw [Nat.count_succ_eq_succ_count hpb, hlb]
        · by_cases hi' : i = lb
          · rw [if_pos hi', hnat]
            exact ⟨Nat.lt_succ_self pb, hpb, hi' ▸ hlb.symm⟩
          · rw [if_neg hi']
            obtain ⟨h₁, h₂⟩ := hmap i (by omega)
            exact ⟨by omega, h₂⟩

theorem nmbmBuildMappingTable_count (d : NmbmDesc) (hmgmt : ni.mgmtStartBa < 2 ^ 31) :
    (nmbmBuildMappingTable d ni).dataBlockCount = Nat.count (WasGood ni) ni.mgmtStartBa ∧
    ∀ i < (nmbmBuildMappingTable d ni).dataBlockCount,
      ((nmbmBuildMappingTable d ni).blockMapping i).toNat < ni.mgmtStartBa ∧
      WasGood ni ((nmbmBuildMappingTable d ni).blockMapping i).toNat ∧
      Nat.count (WasGood ni) ((nmbmBuildMappingTable d ni).blockMapping i).toNat = i := by
  obtain ⟨hcount, hmap⟩ := buildMappingLoop_count ni ni.mgmtStartBa 0 0 ni.blockMapping (by omega)
    (Nat.count_zero _).symm fun i hi => absurd hi (Nat.not_lt_zero i)
  rw [Nat.zero_add] at hcount hmap
  refine ⟨hcount, fun i hi => ?_⟩
  have hentry : (nmbmBuildMappingTable d ni).blockMapping i =
      (buildMappingLoop ni ni.mgmtStartBa 0 0 ni.blockMapping).2 i :=
    if_neg fun h => absurd hi (Nat.not_lt.2 h.1)
  rw [hentry]
  exact hmap i hi

end Mapping

/-- From a block of the kind `p` there are only such blocks up to `m + k`. -/
theorem count_straight_iff {p : Nat → Prop} [DecidablePred p] {m k stop : Nat} (hm : p m)
    (hk : 0 < k) : (∀ b, m < b → b ≤ m + k → b < stop ∧ p b) ↔
      m + k < stop ∧ p (m + k) ∧ Nat.count p (m + k) = Nat.count p m + k := by
  rw [Nat.count_add, Nat.add_left_cancel_iff, Nat.count_iff_forall]
  constructor
  · intro h
    obtain ⟨hlt, hp⟩ := h (m + k) (by omega) (Nat.le_refl _)
    refine ⟨hlt, hp, fun j hj => ?_⟩
    by_cases hj0 : j = 0
    · rw [hj0]
      exact hm
    · exact (h (m + j) (by omega) (by omega)).2
  · rintro ⟨hlt, hp, h⟩ b hmb hbk
    by_cases hb : b = m + k
    · rw [hb]
      exact ⟨hlt, hp⟩
    · have hpb := h (b - m) (by omega)
      rw [show m + (b - m) = b by omega] at hpb
      exact ⟨by omega, hpb⟩

/-! ## Updates -/

section Update

variable {d : NmbmDesc} {dev : LowerDev} {lo : Nat} {s s' : Attached}

/-- The tables and the boundaries do not lie below `lo`. -/
structure Above (lo : Nat) (s : Attached) : Prop where
  mgmt : lo ≤ s.tbl.mgmtStartBa
  top : lo ≤ s.tbl.mappingBlocksTopBa
  main : s.tbl.mainTableBa ≠ 0 → lo ≤ s.tbl.mainTableBa
  backup : s.tbl.backupTableBa ≠ 0 → lo ≤ s.tbl.backupTableBa

theorem above_zero (s : Attached) : Above 0 s :=
  ⟨Nat.zero_le _, Nat.zero_le _, fun _ => Nat.zero_le _, fun _ => Nat.zero_le _⟩

theorem Tables.above (h : Tables lo AnyTable s) (hmgmt : lo ≤ s.tbl.mgmtStartBa) : Above lo s :=
  ⟨hmgmt, Nat.le_trans h.lo_le h.map_le, fun h0 => (h.main h0).1, fun h0 => (h.backup h0).1⟩

/-- One round. -/
theorem Above.round (h : Above lo s) (hchanged : tablesChanged s.tbl = true) :
    Flushed d lo s (nmbmUpdateInfoTableOnce d dev s false).2 ∧
      Tables lo AnyTable (nmbmUpdateInfoTableOnce d dev s false).2 := by
  have hr : Rewritten d lo AnyTable (generateCache d s) (nmbmUpdateInfoTableOnce d dev s false).1
      (nmbmUpdateInfoTableOnce d dev s false).2 :=
    once_rewritten hchanged h.mgmt h.top h.main h.backup
  exact ⟨(generateCache_flushed lo s).trans hr.updated.toFlushed, hr.tables⟩

/-- The loop, by induction over the rounds. -/
theorem updateLoop_above : ∀ (n : Nat) {s : Attached}, Above lo s →
    Flushed d lo s (updateLoop d dev n s).2 ∧
      (Tables lo AnyTable s → Tables lo AnyTable (updateLoop d dev n s).2)
  | 0, s, _ => ⟨Flushed.refl s, fun ht => ht⟩
  | n + 1, s, h => by
      rw [updateLoop]
      by_cases hchanged : tablesChanged s.tbl = true
      · rw [if_neg (by simp [hchanged])]
        obtain ⟨hf, ht⟩ := h.round (d := d) hchanged
        rcases hr : nmbmUpdateInfoTableOnce d dev s false with ⟨_ | _, s₁⟩
        · rw [hr] at hf ht
          exact ⟨hf, fun _ => ht⟩
        · rw [hr] at hf ht
          obtain ⟨hf', ht'⟩ := updateLoop_above n (ht.above (hf.mgmt ▸ h.mgmt))
          exact ⟨hf.trans hf', fun _ => ht' ht⟩
      · rw [if_pos (by simp [hchanged])]
        exact ⟨Flushed.refl s, fun ht => ht⟩

theorem nmbmUpdateInfoTable_above (h : Above lo s) :
    Flushed d lo s (nmbmUpdateInfoTable d dev s).2 ∧
      (Tables lo AnyTable s → Tables lo AnyTable (nmbmUpdateInfoTable d dev s).2) := by
  unfold nmbmUpdateInfoTable
  split
  · exact ⟨Flushed.refl s, fun ht => ht⟩
  · exact updateLoop_above _ h

end Update

/-! ## What remaps keep -/

/-- The first `c` logical blocks are where the creation put them, or in the management area. -/
structure Placed (d : NmbmDesc) (built : NmbmInstance) (c : Nat) (s : Attached) : Prop where
  mgmt : s.tbl.mgmtStartBa = built.mgmtStartBa
  tables : Tables built.mgmtStartBa AnyTable s
  top_lt : s.tbl.mappingBlocksTopBa < d.blockCount
  count : c ≤ built.mgmtStartBa
  placed : ∀ i < c, i < built.dataBlockCount ∧ s.tbl.blockMapping i = built.blockMapping i ∨
    built.mgmtStartBa ≤ (s.tbl.blockMapping i).toNat ∧ (s.tbl.blockMapping i).toNat < 65536

section Placed

variable {d : NmbmDesc} {dev : LowerDev} {built : NmbmInstance} {c : Nat} {s s' : Attached}

theorem Placed.mgmt_lt (h : Placed d built c s) : built.mgmtStartBa < 65536 := by
  have hbc : d.blockCount < 65536 := d.totalBlks_lt
  have hlo := h.tables.lo_le
  have hmap := h.tables.map_le
  have htop := h.top_lt
  omega

theorem Placed.of_flushed (h : Placed d built c s) (hf : Flushed d built.mgmtStartBa s s')
    (ht : Tables built.mgmtStartBa AnyTable s') : Placed d built c s' where
  mgmt := hf.mgmt.trans h.mgmt
  tables := ht
  top_lt := hf.top ▸ h.top_lt
  count := h.count
  placed := hf.map ▸ h.placed

theorem Placed.update (h : Placed d built c s) : Placed d built c (nmbmUpdateInfoTable d dev s).2 ∧
    Flushed d built.mgmtStartBa s (nmbmUpdateInfoTable d dev s).2 := by
  obtain ⟨hf, ht⟩ := nmbmUpdateInfoTable_above (d := d)
    (h.tables.above (Nat.le_of_eq h.mgmt.symm))
  exact ⟨h.of_flushed hf (ht h.tables), hf⟩

theorem Placed.withFlash (h : Placed d built c s) (fl : Flash) : Placed d built c (withFlash s fl) :=
  ⟨h.mgmt, ⟨h.tables.lo_le, h.tables.map_le, h.tables.main, h.tables.backup⟩, h.top_lt, h.count,
    h.placed⟩

theorem Placed.setBad (h : Placed d built c s) (ba : Nat) : Placed d built c (setBad s ba) :=
  ⟨h.mgmt, ⟨h.tables.lo_le, h.tables.map_le, h.tables.main, h.tables.backup⟩, h.top_lt, h.count,
    h.placed⟩

/-- The block handed out lies above the tables. -/
theorem nmbmMapBlock_range {lb : Nat} (htop : s.tbl.mappingBlocksTopBa < d.blockCount)
    (hmap : s.tbl.mappingBlocksBa ≤ s.tbl.mappingBlocksTopBa)
    (hok : nmbmMapBlock d dev s lb = (true, s')) :
    ∃ pb, s.tbl.mappingBlocksBa < pb ∧ pb ≤ s.tbl.mappingBlocksTopBa ∧ s' = handOut s lb pb := by
  unfold nmbmMapBlock at hok
  split at hok
  · exact absurd hok (by simp)
  · next hne =>
    rcases hw : nmbmBlockWalkDesc d s.tbl s.tbl.mappingBlocksTopBa 0 s.tbl.mappingBlocksBa with _ | pb
    · rw [hw] at hok
      exact absurd hok (by simp)
    · rw [hw] at hok
      unfold nmbmBlockWalkDesc at hw
      dsimp only at hw
      rw [if_neg (by omega)] at hw
      obtain ⟨h₁, h₂⟩ := walkDescLoop_range s.tbl _ _ _ (Nat.sub_le _ _) hw
      exact ⟨pb, by omega, h₂, (Prod.mk.inj hok).2.symm⟩

/-- A logical block that is mapped: one that exists, or the next one. -/
theorem Placed.mapBlock (h : Placed d built c s) {lb c' : Nat} (hc : c' ≤ built.mgmtStartBa)
    (hlb : ∀ i < c', i < c ∨ i = lb) (hok : nmbmMapBlock d dev s lb = (true, s')) :
    Placed d built c' s' := by
  obtain ⟨pb, h₁, h₂, rfl⟩ := nmbmMapBlock_range h.top_lt h.tables.map_le hok
  have hbc : d.blockCount < 65536 := d.totalBlks_lt
  have htop := h.top_lt
  have hlo := h.tables.lo_le
  have hmap : s.tbl.mappingBlocksBa ≤ s.tbl.mappingBlocksTopBa - 1 := by omega
  refine ⟨h.mgmt, ⟨hlo, hmap, h.tables.main, h.tables.backup⟩,
    Nat.lt_of_le_of_lt (Nat.sub_le _ _) htop, hc, fun i hi => ?_⟩
  show i < built.dataBlockCount ∧
      (if i = lb then BitVec.ofNat 32 pb else s.tbl.blockMapping i) = built.blockMapping i ∨
    built.mgmtStartBa ≤ (if i = lb then BitVec.ofNat 32 pb else s.tbl.blockMapping i).toNat ∧
      (if i = lb then BitVec.ofNat 32 pb else s.tbl.blockMapping i).toNat < 65536
  by_cases hi' : i = lb
  · have hnat : (BitVec.ofNat 32 pb).toNat = pb := by
      rw [BitVec.toNat_ofNat]
      omega
    rw [if_pos hi', hnat]
    exact Or.inr ⟨by omega, by omega⟩
  · rw [if_neg hi']
    exact h.placed i ((hlb i hi).resolve_right hi')

theorem Placed.mapBlock_failed (h : Placed d built c s) {lb : Nat}
    (hfail : nmbmMapBlock d dev s lb = (false, s')) :
    Placed d built c s' ∧ s'.tbl.dataBlockCount = s.tbl.dataBlockCount := by
  unfold nmbmMapBlock at hfail
  split at hfail
  · obtain ⟨-, rfl⟩ := Prod.mk.inj hfail
    exact ⟨h, rfl⟩
  · split at hfail
    · obtain ⟨-, rfl⟩ := Prod.mk.inj hfail
      obtain ⟨hp, hf⟩ := h.update
      have hlt := Nat.lt_of_le_of_lt hp.tables.map_le hp.top_lt
      exact ⟨⟨hp.mgmt, ⟨hp.tables.lo_le, Nat.le_refl _, hp.tables.main, hp.tables.backup⟩, hlt,
        hp.count, hp.placed⟩, hf.dbc⟩
    · exact absurd hfail (by simp)

theorem Placed.remap (h : Placed d built s.tbl.dataBlockCount s) (block mappedBlock copyLen : Nat) :
    Placed d built (remapBlockNmbm d dev s block mappedBlock copyLen).2.tbl.dataBlockCount
        (remapBlockNmbm d dev s block mappedBlock copyLen).2 := by
  unfold remapBlockNmbm
  split
  · exact h
  · next hblock =>
    have hbad : Placed d built (Nmbm.setBad s mappedBlock).tbl.dataBlockCount
      (Nmbm.setBad s mappedBlock) := h.setBad mappedBlock
    rcases hm : nmbmMapBlock d dev (Nmbm.setBad s mappedBlock) block with ⟨_ | _, s₁⟩
    · obtain ⟨hp, hdbc⟩ := hbad.mapBlock_failed hm
      dsimp only
      rw [hdbc]
      exact hp
    · have hp : Placed d built s.tbl.dataBlockCount s₁ :=
        hbad.mapBlock h.count (fun i hi => Or.inl hi) hm
      have hdbc : s₁.tbl.dataBlockCount = s.tbl.dataBlockCount := by
        obtain ⟨pb, -, -, rfl⟩ := nmbmMapBlock_range hbad.top_lt hbad.tables.map_le hm
        rfl
      dsimp only
      obtain ⟨hp', hf⟩ := (hp.withFlash (moveData d dev s₁.flash (s₁.tbl.blockMapping block).toNat
        mappedBlock copyLen)).update
      rw [hf.dbc]
      show Placed d built s₁.tbl.dataBlockCount _
      rw [hdbc]
      exact hp'

theorem Placed.run : ∀ (calls : List RemapCall) {s : Attached}, Placed d built s.tbl.dataBlockCount s →
    Placed d built (runRemaps d dev s calls).tbl.dataBlockCount (runRemaps d dev s calls)
  | [], _, h => h
  | call :: calls, _, h => Placed.run calls (h.remap call.block call.mappedBlock call.copyLen)

/-! ## Creation -/

theorem Placed.mapTail : ∀ (n : Nat) {s : Attached}, Placed d built s.tbl.dataBlockCount s →
    s.tbl.dataBlockCount + n ≤ built.mgmtStartBa →
    Placed d built (mapTailLoop d dev n s.tbl.dataBlockCount s).tbl.dataBlockCount
      (mapTailLoop d dev n s.tbl.dataBlockCount s)
  | 0, _, h, _ => h
  | n + 1, s, h, hn => by
      rw [mapTailLoop]
      rcases hm : nmbmMapBlock d dev s s.tbl.dataBlockCount with ⟨_ | _, s₁⟩
      · obtain ⟨hp, hdbc⟩ := h.mapBlock_failed hm
        dsimp only
        rw [hdbc]
        exact hp
      · have hp : Placed d built (s.tbl.dataBlockCount + 1) s₁ :=
          h.mapBlock (by omega) (fun i hi => by omega) hm
        have hdbc : s₁.tbl.dataBlockCount = s.tbl.dataBlockCount := by
          obtain ⟨pb, -, -, rfl⟩ := nmbmMapBlock_range h.top_lt h.tables.map_le hm
          rfl
        have hadd : (addDataBlock s₁).tbl.dataBlockCount = s.tbl.dataBlockCount + 1 :=
          congrArg (· + 1) hdbc
        have hp' : Placed d built (addDataBlock s₁).tbl.dataBlockCount (addDataBlock s₁) := by
          rw [hadd]
          exact ⟨hp.mgmt, ⟨hp.tables.lo_le, hp.tables.map_le, hp.tables.main, hp.tables.backup⟩,
            hp.top_lt, hp.count, hp.placed⟩
        have ih := Placed.mapTail n hp' (by omega)
        rw [hadd] at ih
        exact ih

/-- The instance after `nmbm_create_info_table`, from the mapping that was built. -/
theorem createInfoTable_placed (hsig : s.tbl.signatureBa < d.blockCount)
    (hmgmt : s.tbl.mgmtStartBa = built.mgmtStartBa)
    (hdbc : s.tbl.dataBlockCount = built.dataBlockCount)
    (hmap : s.tbl.blockMapping = built.blockMapping)
    (hle : built.dataBlockCount ≤ built.mgmtStartBa)
    (hok : nmbmCreateInfoTable d dev s = (true, s')) : Placed d built s'.tbl.dataBlockCount s' := by
  unfold nmbmCreateInfoTable at hok
  rcases hwalk : nmbmBlockWalkDesc d s.tbl s.tbl.signatureBa 1 s.tbl.mgmtStartBa with _ | top
  · rw [hwalk] at hok
    exact absurd hok (by simp)
  · rw [hwalk] at hok
    obtain ⟨h₁, h₂⟩ := nmbmBlockWalkDesc_one hsig hwalk
    have hframed : Framed d AnyTable := fun _ _ h => h
    have hr : Rewritten d _ AnyTable (createStart d s top)
        (nmbmRebuildInfoTable d dev (createStart d s top)).1
        (nmbmRebuildInfoTable d dev (createStart d s top)).2 :=
      nmbmRebuildInfoTable_rewritten hframed (fun _ => trivial) (Nat.le_of_eq hmgmt.symm)
        (hmgmt ▸ Nat.le_of_lt h₁)
    have hu := hr.updated.toFlushed
    have ht := hr.tables
    rcases hreb : nmbmRebuildInfoTable d dev (createStart d s top) with ⟨_ | _, s₁⟩
    · simp only [hreb] at hok
      exact absurd hok (by simp)
    · simp only [hreb] at hok
      rw [hreb] at hu ht
      have hdbc₁ : s₁.tbl.dataBlockCount = built.dataBlockCount := hu.dbc.trans hdbc
      have hmap₁ : s₁.tbl.blockMapping = built.blockMapping := hu.map.trans hmap
      have htop₁ : s₁.tbl.mappingBlocksTopBa = top := hu.top
      have hp : Placed d built s₁.tbl.dataBlockCount s₁ :=
        ⟨hu.mgmt.trans hmgmt, ht, by omega, by omega,
          fun i hi => Or.inl ⟨hdbc₁ ▸ hi, congrFun hmap₁ i⟩⟩
      have hn : s₁.tbl.dataBlockCount + (s₁.tbl.mgmtStartBa - s₁.tbl.dataBlockCount) ≤
          built.mgmtStartBa := by
        rw [hp.mgmt]
        omega
      obtain ⟨hp', hf⟩ := (hp.mapTail _ hn).update
      change createTail d dev s₁ = _ at hok
      have heq : (createTail d dev s₁).2 = s' := by rw [hok]
      rw [← heq]
      unfold createTail
      rw [hf.dbc]
      exact hp'

theorem createInfoTable_mgmt (hsig : s.tbl.signatureBa < d.blockCount)
    (hok : nmbmCreateInfoTable d dev s = (true, s')) : s.tbl.mgmtStartBa < s.tbl.signatureBa := by
  unfold nmbmCreateInfoTable at hok
  rcases hwalk : nmbmBlockWalkDesc d s.tbl s.tbl.signatureBa 1 s.tbl.mgmtStartBa with _ | top
  · rw [hwalk] at hok
    exact absurd hok (by simp)
  · obtain ⟨h₁, h₂⟩ := nmbmBlockWalkDesc_one hsig hwalk
    exact Nat.lt_trans h₁ h₂

theorem buildMappingTable_le (ni : NmbmInstance) (hmgmt : ni.mgmtStartBa < 2 ^ 31) :
    (nmbmBuildMappingTable d ni).dataBlockCount ≤ ni.mgmtStartBa := by
  rw [(nmbmBuildMappingTable_count ni d hmgmt).1]
  exact Nat.count_le _

/-- Every created instance, with the mapping it was created with. -/
theorem Created.placed {scanned : NmbmInstance} (h : Created d dev scanned s) :
    scanned.mgmtStartBa < 65536 ∧
      Placed d (nmbmBuildMappingTable d scanned) s.tbl.dataBlockCount s := by
  have hbc : d.blockCount < 65536 := d.totalBlks_lt
  cases h with
  | @new s₀ _ h =>
    unfold nmbmCreateNew at h
    rcases hsign : signNew d dev s₀ with ⟨_ | _, s₁⟩
    · rw [hsign] at h
      exact absurd h (by simp)
    · rw [hsign] at h
      have hs := signNew_signed hsign
      have hmgmt : (scannedNew d dev s₀).tbl.mgmtStartBa < 65536 := by
        have h₁ := hs.sig_gt
        have h₂ := hs.sig_lt
        rw [hs.scannedMgmt]
        omega
      exact ⟨hmgmt, createInfoTable_placed hs.sig_lt (hs.mgmt.trans hs.scannedMgmt.symm) hs.dbc
        hs.map (buildMappingTable_le _ (Nat.lt_trans hmgmt (by decide))) h⟩
  | @again s₀ _ hsig h =>
    have hscan := (scanLoop_rest (d := d) dev d.blockCount 0 s₀).1
    change (nmbmScanBadblocks d dev s₀).tbl = _ at hscan
    have hsig' : (rescan d dev s₀).tbl.signatureBa < d.blockCount := by
      show (nmbmScanBadblocks d dev s₀).tbl.signatureBa < d.blockCount
      rw [hscan]
      exact hsig
    have hmgmt : (nmbmScanBadblocks d dev s₀).tbl.mgmtStartBa < 65536 :=
      Nat.lt_trans (Nat.lt_trans (createInfoTable_mgmt (s := rescan d dev s₀) hsig' h) hsig') hbc
    exact ⟨hmgmt, createInfoTable_placed hsig' rfl rfl rfl
      (buildMappingTable_le _ (Nat.lt_trans hmgmt (by decide))) h⟩

end Placed

/-! ## The claim of the routine -/

section Unmap

variable {d : NmbmDesc} {dev : LowerDev} {scanned : NmbmInstance} {s : Attached} {block start : Nat}

theorem unmapStart_le {ni : NmbmInstance} : ∀ {block start : Nat},
    unmapStart ni block = some start → start ≤ block
  | 0, start, h => by
      rw [unmapStart] at h
      split at h
      · cases h
      · exact Nat.le_of_eq (Option.some.inj h).symm
  | block + 1, start, h => by
      rw [unmapStart] at h
      split at h
      · exact Nat.le_succ_of_le (unmapStart_le h)
      · exact Nat.le_of_eq (Option.some.inj h).symm

/-- Counting up from `start` arrives at the block of the creation, or it does not. -/
theorem Placed.straight_iff
    (h : Placed d (nmbmBuildMappingTable d scanned) s.tbl.dataBlockCount s)
    (hblock : block < s.tbl.dataBlockCount) (hlt : start < block) :
    (block < (nmbmBuildMappingTable d scanned).dataBlockCount ∧
      unmapTarget s.tbl block start = (nmbmBuildMappingTable d scanned).blockMapping block ∧
      WasGood scanned (unmapTarget s.tbl block start).toNat ∧
      (∀ i < s.tbl.dataBlockCount, i ≠ block →
        s.tbl.blockMapping i ≠ unmapTarget s.tbl block start) ∧
      (unmapTarget s.tbl block start).toNat < s.tbl.mgmtStartBa) ↔
    (s.tbl.blockMapping start).toNat < s.tbl.mgmtStartBa ∧
    ∀ b, (s.tbl.blockMapping start).toNat < b →
      b ≤ (s.tbl.blockMapping start).toNat + (block - start) →
      b < s.tbl.mgmtStartBa ∧ WasGood scanned b := by
  have hmgmt : s.tbl.mgmtStartBa = scanned.mgmtStartBa := h.mgmt
  have hmgmt64 : scanned.mgmtStartBa < 65536 := h.mgmt_lt
  have hcount : s.tbl.dataBlockCount ≤ scanned.mgmtStartBa := h.count
  obtain ⟨hdbc, hbuilt⟩ := nmbmBuildMappingTable_count scanned d (by omega)
  rw [hmgmt]
  -- a logical block that is mapped below the management area is where the creation put it
  have hstay : ∀ i < s.tbl.dataBlockCount, (s.tbl.blockMapping i).toNat < scanned.mgmtStartBa →
      i < (nmbmBuildMappingTable d scanned).dataBlockCount ∧ (s.tbl.blockMapping i).toNat =
        ((nmbmBuildMappingTable d scanned).blockMapping i).toNat := by
    intro i hi hlow
    rcases h.placed i hi with ⟨hib, heq⟩ | ⟨hge, -⟩
    · exact ⟨hib, congrArg BitVec.toNat heq⟩
    · exact absurd hge (Nat.not_le.2 hlow)
  have htarget : (unmapTarget s.tbl block start).toNat =
      (s.tbl.blockMapping start).toNat + (block - start) := by
    have hm : (s.tbl.blockMapping start).toNat < 65536 := by
      by_cases hlow : (s.tbl.blockMapping start).toNat < scanned.mgmtStartBa
      · omega
      · rcases h.placed start (by omega) with ⟨hib, heq⟩ | ⟨-, hge⟩
        · have hlt' := (hbuilt start hib).1
          rw [heq]
          omega
        · exact hge
    unfold unmapTarget
    rw [BitVec.toNat_add, BitVec.toNat_ofNat]
    omega
  rw [htarget]
  generalize hm : (s.tbl.blockMapping start).toNat = m at htarget
  by_cases hlow : m < scanned.mgmtStartBa
  · obtain ⟨hsb, hstart⟩ := hstay start (by omega) (hm ▸ hlow)
    obtain ⟨-, hgood, hnum⟩ := hbuilt start hsb
    rw [← hstart, hm] at hgood hnum
    rw [count_straight_iff hgood (by omega), hnum, show start + (block - start) = block by omega]
    constructor
    · rintro ⟨hb, heq, hg, -, hend⟩
      obtain ⟨-, -, hnum'⟩ := hbuilt block hb
      rw [← heq, htarget] at hnum'
      exact ⟨hlow, hend, hg, hnum'⟩
    · rintro ⟨-, hend, hg, hnum'⟩
      have hb : block < (nmbmBuildMappingTable d scanned).dataBlockCount := by
        rw [hdbc, ← hnum']
        exact Nat.count_strict_mono hg hend
      obtain ⟨-, hg', hnum''⟩ := hbuilt block hb
      have heq := Nat.count_injective hg hg' (hnum'.trans hnum''.symm)
      refine ⟨hb, BitVec.eq_of_toNat_eq (htarget.trans heq), hg, fun i hi hne he => hne ?_, hend⟩
      have hi' : (s.tbl.blockMapping i).toNat = m + (block - start) := by rw [he, htarget]
      obtain ⟨hib, hieq⟩ := hstay i hi (by omega)
      obtain ⟨-, -, hnumi⟩ := hbuilt i hib
      rw [← hieq, hi', hnum'] at hnumi
      exact hnumi.symm
  · constructor
    · rintro ⟨-, -, -, -, hend⟩
      omega
    · rintro ⟨h', -⟩
      exact absurd h' hlow

/-- What the routine leaves of the mapping, if it writes one. -/
theorem unmapBlockNmbm_map (hblock : block < s.tbl.dataBlockCount)
    (hstart : unmapStart s.tbl block = some start) (hlt : start < block) :
    (unmapBlockNmbm d dev s block).tbl.dataBlockCount = s.tbl.dataBlockCount ∧
    (unmapBlockNmbm d dev s block).tbl.mgmtStartBa = s.tbl.mgmtStartBa ∧
    (unmapBlockNmbm d dev s block).tbl.blockMapping =
      fun i => if i = block then unmapTarget s.tbl block start else s.tbl.blockMapping i := by
  unfold unmapBlockNmbm
  rw [if_neg (Nat.not_le.2 hblock), hstart]
  dsimp only
  rw [if_neg (by omega)]
  obtain ⟨hf, -⟩ := nmbmUpdateInfoTable_above (d := d)
    (above_zero { s with tbl := resetTop (mapBack s.tbl block (unmapTarget s.tbl block start)) })
  exact ⟨hf.dbc, hf.mgmt, hf.map⟩

/-- **After any remaps of a created instance `unmap_block_nmbm` leaves the mapping alone or restores
the one of the creation exactly if the blocks it counts up over were good data blocks then.** -/
theorem unmap_restores_iff {s₀ : Attached} (h : Created d dev scanned s₀) (calls : List RemapCall)
    (block : Nat) :
    Restores d scanned (runRemaps d dev s₀ calls)
        (unmapBlockNmbm d dev (runRemaps d dev s₀ calls) block) block ↔
      Unmappable scanned (runRemaps d dev s₀ calls).tbl block := by
  have hp : Placed d _ (runRemaps d dev s₀ calls).tbl.dataBlockCount (runRemaps d dev s₀ calls) :=
    h.placed.2.run calls
  generalize runRemaps d dev s₀ calls = s at hp
  by_cases hblock : s.tbl.dataBlockCount ≤ block
  · have hsame : unmapBlockNmbm d dev s block = s := if_pos hblock
    rw [hsame]
    exact iff_of_true (Or.inl rfl) (Or.inl hblock)
  · unfold Unmappable
    rw [or_iff_right hblock]
    cases hstart : unmapStart s.tbl block with
    | none =>
      have hsame : unmapBlockNmbm d dev s block = s := by
        unfold unmapBlockNmbm
        rw [if_neg hblock, hstart]
      rw [hsame]
      exact iff_of_true (Or.inl rfl) trivial
    | some start =>
      have hle := unmapStart_le hstart
      by_cases heq : start = block
      · have hsame : unmapBlockNmbm d dev s block = s := by
          unfold unmapBlockNmbm
          rw [if_neg hblock, hstart]
          exact if_pos (by omega)
        rw [hsame]
        exact iff_of_true (Or.inl rfl) (Or.inl heq)
      · have hlt : start < block := by omega
        obtain ⟨hdbc, hmgmt, hmap⟩ := unmapBlockNmbm_map (d := d)
          (Nat.not_le.1 hblock) hstart hlt
        have hothers : (∀ i < s.tbl.dataBlockCount, i ≠ block →
            (if i = block then unmapTarget s.tbl block start else s.tbl.blockMapping i) ≠
              unmapTarget s.tbl block start) ↔
            ∀ i < s.tbl.dataBlockCount, i ≠ block →
              s.tbl.blockMapping i ≠ unmapTarget s.tbl block start :=
          forall₂_congr fun i _ => forall_congr' fun hne => by rw [if_neg hne]
        unfold Restores
        dsimp only
        rw [hdbc, hmgmt, hmap]
        dsimp only
        rw [if_pos rfl, hothers, hp.straight_iff (Nat.not_le.1 hblock) hlt, or_iff_right heq,
          StraightFrom, eq_comm]

end Unmap

/-! ## A chip of 16 blocks -/

section Works

variable {d : NmbmDesc} {dev : LowerDev} {s : Attached}

/-- A table of one block. -/
theorem Works.writeOne (h : Works dev) (hsize : d.infoTableSize ≤ d.blkSize) {ba limit : Nat}
    (hlt : ba < limit) (hg : isGood s.tbl ba = true) (hbad : ∀ t, dev.isBad t ba = false) :
    ∃ fl, nmbmWriteInfoTable d dev s ba limit = (some (ba, ba + 1), withFlash s fl) := by
  obtain ⟨n, hn⟩ : ∃ n, limit - ba = n + 1 := ⟨limit - ba - 1, by omega⟩
  obtain ⟨fl, ht⟩ := h.takes (d := d) (s := s) s.tbl.infoTableCache d.infoTableSize n 0 (Nat.ne_of_gt infoTableSize_pos) hg hbad
  refine ⟨fl, ?_⟩
  unfold nmbmWriteInfoTable
  rw [hn, ht, Nat.min_eq_left hsize, Nat.sub_self, if_pos rfl]
  exact writeMgmtLoop_rest_zero _ _ _ _ _ _ _

theorem Works.eraseLoop (h : Works dev) : ∀ (n ba : Nat) (s : Attached),
    (∀ b, ba ≤ b → b < ba + n → isGood s.tbl b = true ∧ ∀ t, dev.isBad t b = false) →
    ∃ fl, eraseRangeLoop d dev n ba s = withFlash s fl
  | 0, _, s, _ => ⟨s.flash, rfl⟩
  | n + 1, ba, s, hrange => by
      obtain ⟨hg, hbad⟩ := hrange ba (Nat.le_refl _) (by omega)
      rw [eraseRangeLoop, if_neg (by simp [hg])]
      dsimp only
      rw [if_neg (by simp [lowerIsbad, hbad]), if_pos (h.eraseAndCheck _ _)]
      exact h.eraseLoop n (ba + 1) _ fun b h₁ h₂ => hrange b (by omega) (by omega)

theorem Works.signature (h : Works dev) (sig : Nat → UInt8) {limit : Nat}
    (hlt : limit < d.blockCount - 1) (hg : isGood s.tbl (d.blockCount - 1) = true)
    (hbad : ∀ t, dev.isBad t (d.blockCount - 1) = false) :
    ∃ fl, nmbmWriteSignature d dev s limit sig = (some (d.blockCount - 1), withFlash s fl) := by
  have hpg : 48 ≤ d.pgSize :=
    Nat.le_trans (by decide : 48 ≤ 2 ^ 9) (Nat.pow_le_pow_right (by decide) d.pgShift_ge)
  have hloop : ∀ (n pg : Nat) (fl : Flash), (writeRepeatedLoop d dev sig 48 n pg fl).1 = true := by
    intro n
    induction n with
    | zero => exact fun _ _ => rfl
    | succ n ih =>
      intro pg fl
      rw [writeRepeatedLoop]
      dsimp only
      rw [if_neg (by simp [h.verifyPage fl pg sig hpg])]
      exact ih _ _
  have hrep : ∀ fl ba, (nmbmWriteRepeatedData d dev fl ba sig 48).1 = true := by
    intro fl ba
    unfold nmbmWriteRepeatedData
    rw [if_neg (Nat.not_lt.2 hpg)]
    exact hloop _ _ _
  obtain ⟨n, hn⟩ : ∃ n, d.blockCount - 1 - limit = n + 1 := ⟨d.blockCount - 1 - limit - 1, by omega⟩
  unfold nmbmWriteSignature
  rw [hn, writeSignatureLoop, if_neg (by simp [hg])]
  dsimp only
  rw [if_neg (by simp [lowerIsbad, hbad]), if_neg (by simp [h.eraseAndCheck]), if_pos (hrep _ _)]
  exact ⟨_, rfl⟩

theorem writeMainTable_written {s₁ : Attached} {limit start stop : Nat}
    (hmain : s.tbl.mainTableBa ≠ 0)
    (hw : nmbmWriteInfoTable d dev s s.tbl.mainTableBa limit = (some (start, stop), s₁))
    (hbackup : s₁.tbl.backupTableBa ≠ 0) : writeMainTable d dev s limit =
      (true, markClean (moveTables s₁ start s₁.tbl.backupTableBa s₁.tbl.mappingBlocksBa)) := by
  unfold writeMainTable
  rw [if_neg hmain, hw]
  dsimp only
  rw [if_neg hbackup]

/-- An update of two tables of one block each writes them where they are. -/
theorem Works.update (h : Works dev) (hsize : d.infoTableSize ≤ d.blkSize)
    (hwritable : s.tbl.readOnly = false) (hchanged : tablesChanged s.tbl = true)
    (hmain : s.tbl.mainTableBa ≠ 0) (hlt : s.tbl.mainTableBa < s.tbl.backupTableBa)
    (hlt' : s.tbl.backupTableBa < s.tbl.mappingBlocksTopBa)
    (hg : isGood s.tbl s.tbl.mainTableBa = true) (hg' : isGood s.tbl s.tbl.backupTableBa = true)
    (hbad : ∀ t, dev.isBad t s.tbl.mainTableBa = false)
    (hbad' : ∀ t, dev.isBad t s.tbl.backupTableBa = false) :
    ∃ fl, (nmbmUpdateInfoTable d dev s) = (true, markClean (moveTables
      (withFlash (generateCache d s) fl) s.tbl.mainTableBa s.tbl.backupTableBa
        (s.tbl.backupTableBa + 1))) := by
  have hgen : (nmbmGenerateInfoTableCache d s.tbl).1 = true := hchanged
  obtain ⟨fl₁, h₁⟩ := h.writeOne (d := d) (s := generateCache d s) hsize hlt' hg' hbad'
  obtain ⟨fl₂, h₂⟩ := h.writeOne (d := d) (s := markClean (moveTables
    (withFlash (generateCache d s) fl₁) s.tbl.mainTableBa s.tbl.backupTableBa
      (s.tbl.backupTableBa + 1))) hsize hlt hg hbad
  have honce : nmbmUpdateInfoTableOnce d dev s false = (true, markClean (moveTables
      (withFlash (generateCache d s) fl₂) s.tbl.mainTableBa s.tbl.backupTableBa
        (s.tbl.backupTableBa + 1))) := by
    rw [nmbmUpdateInfoTableOnce, hgen]
    show writeBothTables d dev (generateCache d s) = _
    have hmain₁ : (generateCache d s).tbl.mainTableBa = s.tbl.mainTableBa := rfl
    have hbackup₁ : (generateCache d s).tbl.backupTableBa = s.tbl.backupTableBa := rfl
    have htop₁ : (generateCache d s).tbl.mappingBlocksTopBa = s.tbl.mappingBlocksTopBa := rfl
    unfold writeBothTables
    rw [hbackup₁, htop₁, if_neg (by omega), h₁]
    exact writeMainTable_written (s := markClean (moveTables (withFlash (generateCache d s) fl₁)
      s.tbl.mainTableBa s.tbl.backupTableBa (s.tbl.backupTableBa + 1))) hmain h₂
      (show s.tbl.backupTableBa ≠ 0 by omega)
  have hclean : ∀ (n : Nat) (s : Attached), updateLoop d dev (n + 1) (markClean s) = (true, markClean s) :=
    fun n s => by rw [updateLoop]; rfl
  refine ⟨fl₂, ?_⟩
  unfold nmbmUpdateInfoTable
  rw [if_neg (by simp [hwritable]), updateLoop, if_neg (by simp [hchanged]), honce]
  exact hclean _ _

/-- The two tables of a new chip. -/
theorem Works.rebuild (h : Works dev) (hsize : d.infoTableSize ≤ d.blkSize) {start next : Nat}
    (hstart : s.tbl.mgmtStartBa = start) (hlt : start < s.tbl.mappingBlocksTopBa)
    (hreserve : nmbmTryReserveBlocks d (markClean (moveTables s start 0 (start + 1))).tbl (start + 1)
      d.infoTableSpareBlocks (lastTableStart d s) = some next)
    (hlt' : next < s.tbl.mappingBlocksTopBa)
    (hgood : ∀ b, start ≤ b → b ≤ next → isGood s.tbl b = true ∧ ∀ t, dev.isBad t b = false) :
    ∃ fl, nmbmRebuildInfoTable d dev s =
      (true, withFlash (markClean (moveTables s start next (next + 1))) fl) := by
  have hge := nmbmTryReserveBlocks_ge _ d _ _ _ hreserve
  obtain ⟨hg, hbad⟩ := hgood start (Nat.le_refl _) (by omega)
  obtain ⟨hg', hbad'⟩ := hgood next (by omega) (Nat.le_refl _)
  obtain ⟨fl₁, h₁⟩ := h.writeOne (d := d) (s := moveTables s 0 0 s.tbl.mappingBlocksTopBa) hsize hlt
    hg hbad
  obtain ⟨fl₂, h₂⟩ := h.writeOne (d := d)
    (s := markClean (moveTables (withFlash s fl₁) start 0 (start + 1))) hsize hlt' hg' hbad'
  obtain ⟨fl₃, h₃⟩ := h.eraseLoop (d := d) (next - (start + 1)) (start + 1)
    (withFlash (markClean (moveTables s start next (next + 1))) fl₂)
    fun b hb₁ hb₂ => hgood b (by omega) (by omega)
  refine ⟨fl₃, ?_⟩
  have hbehind : writeBackupBehind d dev
      (markClean (moveTables (withFlash s fl₁) start 0 (start + 1))) (start + 1) =
      withFlash (markClean (moveTables s start next (next + 1))) fl₃ := by
    have hreserve₁ : nmbmTryReserveBlocks d
        (markClean (moveTables (withFlash s fl₁) start 0 (start + 1))).tbl (start + 1)
        d.infoTableSpareBlocks
        (lastTableStart d (markClean (moveTables (withFlash s fl₁) start 0 (start + 1)))) =
      some next := hreserve
    unfold writeBackupBehind
    rw [hreserve₁]
    dsimp only
    have htop : (markClean (moveTables (withFlash s fl₁) start 0 (start + 1))).tbl.mappingBlocksTopBa =
      s.tbl.mappingBlocksTopBa := rfl
    rw [htop, h₂]
    exact h₃
  have hmain : nmbmWriteInfoTable d dev (moveTables s 0 0 s.tbl.mappingBlocksTopBa)
      (moveTables s 0 0 s.tbl.mappingBlocksTopBa).tbl.mgmtStartBa
      (moveTables s 0 0 s.tbl.mappingBlocksTopBa).tbl.mappingBlocksTopBa =
    (some (start, start + 1), withFlash (moveTables s 0 0 s.tbl.mappingBlocksTopBa) fl₁) := by
    rw [← h₁, ← hstart]
    rfl
  unfold nmbmRebuildInfoTable
  dsimp only
  rw [hmain]
  exact congrArg (Prod.mk true) hbehind

theorem nmbmMapBlock_of_walk {lb pb : Nat} (hne : s.tbl.mappingBlocksBa ≠ s.tbl.mappingBlocksTopBa)
    (hwalk : nmbmBlockWalkDesc d s.tbl s.tbl.mappingBlocksTopBa 0 s.tbl.mappingBlocksBa = some pb) :
    nmbmMapBlock d dev s lb = (true, handOut s lb pb) := by
  unfold nmbmMapBlock
  rw [if_neg hne, hwalk]

theorem nmbmCreateNew_of {s₀ s₁ : Attached} {top : Nat} (hsign : signNew d dev s₀ = (true, s))
    (hwalk : nmbmBlockWalkDesc d s.tbl s.tbl.signatureBa 1 s.tbl.mgmtStartBa = some top)
    (hreb : nmbmRebuildInfoTable d dev (createStart d s top) = (true, s₁)) :
    nmbmCreateNew d dev s₀ = createTail d dev s₁ := by
  unfold nmbmCreateNew nmbmCreateInfoTable
  rw [hsign]
  dsimp only
  rw [hwalk]
  dsimp only
  rw [hreb]

/-- One block is left at the end of the data area. -/
theorem createTail_of {s₁ : Attached} {lb : Nat} (hdbc : s.tbl.dataBlockCount = lb)
    (hmgmt : s.tbl.mgmtStartBa = lb + 1) (hmap : nmbmMapBlock d dev s lb = (true, s₁)) :
    createTail d dev s = nmbmUpdateInfoTable d dev (addDataBlock s₁) := by
  unfold createTail
  rw [hdbc, hmgmt, Nat.add_sub_cancel_left, mapTailLoop, hmap]
  rfl

theorem remapBlockNmbm_of {s₁ s₂ : Attached} {block mappedBlock copyLen : Nat} {ok : Bool}
    (hblock : block < s.tbl.dataBlockCount)
    (hmap : nmbmMapBlock d dev (setBad s mappedBlock) block = (true, s₁))
    (hupd : nmbmUpdateInfoTable d dev (withFlash s₁ (moveData d dev s₁.flash
      (s₁.tbl.blockMapping block).toNat mappedBlock copyLen)) = (ok, s₂)) :
    (remapBlockNmbm d dev s block mappedBlock copyLen).2 = s₂ := by
  unfold remapBlockNmbm
  rw [if_neg (Nat.not_le.2 hblock), hmap]
  dsimp only
  rw [hupd]

end Works

/-- 16 blocks of 2 KiB, 6 of them for data; a table takes one block. -/
def oneBlockChip : NmbmDesc where
  blkShift := 11
  pgShift := 9
  totalBlks := 16
  pgShift_le := by decide
  totalBlks_lt := by decide
  remapRange := []
  disjoint := List.Pairwise.nil
  bmtPgs := 0
  oobOffset := 0
  size_le := by decide
  pgShift_ge := NmbmDesc.page512_ge
  oobSize := 16
  maxRatio := 10
  maxRatio_lt := by decide
  maxReservedBlocks := 0
  emptyPageEccOk := true
  forceCreate := true

/-- It works, with block 3 bad from the factory. -/
def factoryBad : LowerDev :=
  { LowerDev.perfect oneBlockChip.toGeometry with isBad := fun _ b => b == 3 }

theorem factoryBad_works : Works factoryBad :=
  ⟨fun _ _ => rfl, fun _ _ => rfl, fun _ _ _ _ => rfl, fun _ _ => rfl⟩

theorem oneBlockChip_infoTableSize : oneBlockChip.infoTableSize ≤ oneBlockChip.blkSize := by decide

def newChip : Attached where
  flash := { page := fun _ => oneBlockChip.erasedPage, log := [], clock := 0 }
  tbl := nmbmInitStructure oneBlockChip

/-- The chip after the scan. -/
def scannedChip : Attached := scannedNew oneBlockChip factoryBad newChip

/-- The scan finds every block good but block 3. -/
theorem scannedChip_scan : (∀ b < 16, b ≠ 3 → isGood scannedChip.tbl b = true) ∧
    scannedChip.tbl.mgmtStartBa = 6 ∧ WasGood scannedChip.tbl 1 ∧ ¬ WasGood scannedChip.tbl 3 := by
  decide +kernel

theorem scannedChip_good : ∀ b < 16, b ≠ 3 → isGood scannedChip.tbl b = true :=
  scannedChip_scan.1

/-- The instance once the mapping is built and the signature written. -/
def signedTbl : NmbmInstance :=
  { nmbmBuildMappingTable oneBlockChip scannedChip.tbl with
    signature := signatureImage oneBlockChip 6, signatureBa := 15 }

theorem signNew_of {s₀ s₁ : Attached} {ba : Nat}
    (hscan : nmbmScanBadblocks d dev { s₀ with tbl := { s₀.tbl with mgmtStartBa := newMgmtStart d } } =
      s)
    (hwrite : nmbmWriteSignature d dev { s with tbl := { nmbmBuildMappingTable d s.tbl with
        signature := signatureImage d s.tbl.mgmtStartBa } } (nmbmBuildMappingTable d s.tbl).mgmtStartBa
      (signatureImage d s.tbl.mgmtStartBa) = (some ba, s₁)) :
    signNew d dev s₀ = (true, { s₁ with tbl := { s₁.tbl with signatureBa := ba } }) := by
  subst hscan
  unfold signNew
  dsimp only at hwrite ⊢
  rw [hwrite]

theorem newChip_signed : ∃ fl, signNew oneBlockChip factoryBad newChip =
    (true, { flash := fl, tbl := signedTbl }) := by
  have hmgmt : scannedChip.tbl.mgmtStartBa = 6 := scannedChip_scan.2.1
  obtain ⟨fl, h⟩ := factoryBad_works.signature (d := oneBlockChip)
    (s := { scannedChip with tbl := { nmbmBuildMappingTable oneBlockChip scannedChip.tbl with
      signature := signatureImage oneBlockChip 6 } })
    (signatureImage oneBlockChip 6) (by decide : 6 < 15) (scannedChip_good 15 (by decide) (by decide))
    fun _ => rfl
  rw [← hmgmt] at h
  have hsign : signNew oneBlockChip factoryBad newChip = _ := signNew_of rfl h
  rw [hmgmt] at hsign
  exact ⟨fl, hsign⟩

/-- Where `nmbm_create_info_table` starts the tables. -/
def startTbl : NmbmInstance :=
  (nmbmGenerateInfoTableCache oneBlockChip { signedTbl with mappingBlocksTopBa := 14 }).2

/-- Tables at `main` and `backup`, and nothing marked. -/
def withTables (ni : NmbmInstance) (main backup : Nat) : NmbmInstance :=
  nmbmMarkTablesClean
    { ni with mainTableBa := main, backupTableBa := backup, mappingBlocksBa := backup + 1 }

/-- The logical block that lost its block to the factory-bad one is mapped to block 14. -/
def createdTbl : NmbmInstance :=
  let s := addDataBlock (handOut { flash := newChip.flash, tbl := withTables startTbl 6 9 } 5 14)
  withTables (nmbmGenerateInfoTableCache oneBlockChip s.tbl).2 6 9

/-- Where the walks of the creation end, and how the instance stands between them. -/
theorem startTbl_walks :
    (nmbmBlockWalkDesc oneBlockChip signedTbl signedTbl.signatureBa 1 signedTbl.mgmtStartBa =
        some 14 ∧
      nmbmTryReserveBlocks oneBlockChip (nmbmMarkTablesClean
        { startTbl with mainTableBa := 6, backupTableBa := 0, mappingBlocksBa := 7 }) 7
        oneBlockChip.infoTableSpareBlocks (subU32 startTbl.mappingBlocksTopBa oneBlockChip.infoBlks) =
          some 9 ∧
      nmbmBlockWalkDesc oneBlockChip (withTables startTbl 6 9) startTbl.mappingBlocksTopBa 0 10 =
        some 14) ∧
    startTbl.mgmtStartBa = 6 ∧ 10 < startTbl.mappingBlocksTopBa ∧ startTbl.readOnly = false ∧
      (withTables startTbl 6 9).dataBlockCount = 5 := by
  decide +kernel

theorem newChip_created : ∃ fl, nmbmCreateNew oneBlockChip factoryBad newChip =
    (true, { flash := fl, tbl := createdTbl }) := by
  obtain ⟨fl₁, hsign⟩ := newChip_signed
  have hgood : ∀ b, 6 ≤ b → b ≤ 9 → isGood startTbl b = true ∧ ∀ t, factoryBad.isBad t b = false := by
    intro b h₁ h₂
    refine ⟨scannedChip_good b (by omega) (by omega), fun _ => ?_⟩
    show (b == 3) = false
    simp
    omega
  obtain ⟨⟨hwalk, hreserve, htop⟩, hmgmt, hten, hro, hdbc⟩ := startTbl_walks
  obtain ⟨fl₂, hreb⟩ := factoryBad_works.rebuild (d := oneBlockChip)
    (s := { flash := fl₁, tbl := startTbl }) oneBlockChip_infoTableSize
    hmgmt (show 6 < startTbl.mappingBlocksTopBa by omega) hreserve
    (show 9 < startTbl.mappingBlocksTopBa by omega) hgood
  have hmap : nmbmMapBlock oneBlockChip factoryBad { flash := fl₂, tbl := withTables startTbl 6 9 } 5 =
      (true, handOut { flash := fl₂, tbl := withTables startTbl 6 9 } 5 14) :=
    nmbmMapBlock_of_walk (show 10 ≠ startTbl.mappingBlocksTopBa by omega) htop
  obtain ⟨fl₃, hupd⟩ := factoryBad_works.update (d := oneBlockChip)
    (s := addDataBlock (handOut { flash := fl₂, tbl := withTables startTbl 6 9 } 5 14))
    oneBlockChip_infoTableSize hro rfl
    (show (6 : Nat) ≠ 0 by decide) (show 6 < 9 by decide)
    (show 9 < startTbl.mappingBlocksTopBa - 1 by omega)
    (hgood 6 (by decide) (by decide)).1 (hgood 9 (by decide) (by decide)).1
    (hgood 6 (by decide) (by decide)).2 (hgood 9 (by decide) (by decide)).2
  have htail := (createTail_of (s := { flash := fl₂, tbl := withTables startTbl 6 9 }) hdbc
    (show startTbl.mgmtStartBa = 5 + 1 from hmgmt) hmap).trans hupd
  exact ⟨fl₃, (nmbmCreateNew_of hsign hwalk hreb).trans htail⟩

/-- A logical block that the creation put in the data area is remapped. -/
def remappedTbl (block mappedBlock : Nat) : NmbmInstance :=
  let s := handOut { flash := newChip.flash, tbl := setBlockState createdTbl mappedBlock blockStBad }
    block 13
  withTables (nmbmGenerateInfoTableCache oneBlockChip s.tbl).2 6 9

/-- How the instance stands once it is created, and after the two remaps below. -/
theorem createdTbl_remaps :
    (createdTbl.dataBlockCount = 6 ∧ createdTbl.mappingBlocksTopBa = 13 ∧
      createdTbl.readOnly = false) ∧
    ((∀ b, 6 ≤ b → b ≤ 13 → isGood (setBlockState createdTbl 1 blockStBad) b = true) ∧
      unmapStart (remappedTbl 1 1) 1 = some 0 ∧ ((remappedTbl 1 1).blockMapping 0).toNat = 0 ∧
      (remappedTbl 1 1).mgmtStartBa = 6) ∧
    (∀ b, 6 ≤ b → b ≤ 13 → isGood (setBlockState createdTbl 4 blockStBad) b = true) ∧
      3 < (remappedTbl 3 4).dataBlockCount ∧ unmapStart (remappedTbl 3 4) 3 = some 2 ∧
      unmapTarget (remappedTbl 3 4) 3 2 = 3#32 ∧ (remappedTbl 3 4).blockMapping 3 = 13#32 := by
  decide +kernel

theorem createdTbl_remapped {block mappedBlock : Nat} (hblock : block < 6)
    (hgood : ∀ b, 6 ≤ b → b ≤ 13 → isGood (setBlockState createdTbl mappedBlock blockStBad) b = true)
    (fl : Flash) : ∃ fl', runRemaps oneBlockChip factoryBad { flash := fl, tbl := createdTbl }
      [⟨block, mappedBlock, 0⟩] = { flash := fl', tbl := remappedTbl block mappedBlock } := by
  obtain ⟨hdbc, htop, hro⟩ := createdTbl_remaps.1
  have hbad : ∀ b, 6 ≤ b → b ≤ 13 → ∀ t, factoryBad.isBad t b = false := by
    intro b h₁ h₂ t
    show (b == 3) = false
    simp
    omega
  let s := setBad { flash := fl, tbl := createdTbl } mappedBlock
  have hmap : nmbmMapBlock oneBlockChip factoryBad s block = (true, handOut s block 13) :=
    nmbmMapBlock_of_walk (show 10 ≠ createdTbl.mappingBlocksTopBa by rw [htop]; decide) (by
      show nmbmBlockWalkDesc oneBlockChip s.tbl createdTbl.mappingBlocksTopBa 0 10 = some 13
      rw [htop]
      exact nmbmBlockWalkDesc_self (hgood 13 (by decide) (by decide)) (by decide) (by decide))
  obtain ⟨fl', hupd⟩ := factoryBad_works.update (d := oneBlockChip)
    (s := withFlash (handOut s block 13) (moveData oneBlockChip factoryBad s.flash
      ((handOut s block 13).tbl.blockMapping block).toNat mappedBlock 0))
    oneBlockChip_infoTableSize hro (by
      simp [tablesChanged, handOut, withFlash])
    (show (6 : Nat) ≠ 0 by decide) (show 6 < 9 by decide)
    (show 9 < createdTbl.mappingBlocksTopBa - 1 by rw [htop]; decide)
    (hgood 6 (by decide) (by decide)) (hgood 9 (by decide) (by decide))
    (hbad 6 (by decide) (by decide)) (hbad 9 (by decide) (by decide))
  refine ⟨fl', (remapBlockNmbm_of (s := { flash := fl, tbl := createdTbl })
    (show block < createdTbl.dataBlockCount by omega) hmap hupd).trans ?_⟩
  rfl

/-- Block 1 of the new chip is remapped, and unmapped to where it was. -/
theorem unmap_restores_plain : ∃ s₀, Created oneBlockChip factoryBad scannedChip.tbl s₀ ∧
    Restores oneBlockChip scannedChip.tbl (runRemaps oneBlockChip factoryBad s₀ [⟨1, 1, 0⟩])
      (unmapBlockNmbm oneBlockChip factoryBad
        (runRemaps oneBlockChip factoryBad s₀ [⟨1, 1, 0⟩]) 1) 1 := by
  obtain ⟨fl, hnew⟩ := newChip_created
  obtain ⟨hgood, hstart, hmap, hmgmt⟩ := createdTbl_remaps.2.1
  obtain ⟨fl', hrun⟩ := @createdTbl_remapped 1 1 (by decide) hgood fl
  refine ⟨_, Created.new hnew, (unmap_restores_iff (Created.new hnew) [⟨1, 1, 0⟩] 1).2 ?_⟩
  rw [hrun]
  unfold Unmappable
  rw [hstart]
  refine Or.inr (Or.inr (Or.inr ?_))
  rw [hmap, hmgmt]
  refine ⟨by decide, fun b h₁ h₂ => ?_⟩
  obtain rfl : b = 1 := by omega
  exact ⟨by decide, scannedChip_scan.2.2.1⟩

/-- Logical block 3 was created behind the factory-bad block 3. After a remap it is unmapped to that
block. -/
theorem unmap_to_factoryBad : ∃ s₀, Created oneBlockChip factoryBad scannedChip.tbl s₀ ∧
    ¬ Restores oneBlockChip scannedChip.tbl (runRemaps oneBlockChip factoryBad s₀ [⟨3, 4, 0⟩])
      (unmapBlockNmbm oneBlockChip factoryBad
        (runRemaps oneBlockChip factoryBad s₀ [⟨3, 4, 0⟩]) 3) 3 := by
  obtain ⟨fl, hnew⟩ := newChip_created
  obtain ⟨hgood, hcount, hstart, hto, hold⟩ := createdTbl_remaps.2.2
  obtain ⟨fl', hrun⟩ := @createdTbl_remapped 3 4 (by decide) hgood fl
  refine ⟨_, Created.new hnew, ?_⟩
  rw [hrun]
  obtain ⟨-, -, hmap⟩ := unmapBlockNmbm_map (d := oneBlockChip)
    (s := { flash := fl', tbl := remappedTbl 3 4 })
    hcount hstart (by decide)
  have htarget : (unmapBlockNmbm oneBlockChip factoryBad
      { flash := fl', tbl := remappedTbl 3 4 } 3).tbl.blockMapping 3 = 3#32 :=
    (congrFun hmap 3).trans hto
  have hbad : ¬ WasGood scannedChip.tbl 3 := scannedChip_scan.2.2.2
  rintro (h | ⟨-, -, h, -⟩)
  · rw [htarget] at h
    exact absurd (h.trans hold) (by decide)
  · rw [htarget] at h
    exact hbad h

end Lede.Nmbm
