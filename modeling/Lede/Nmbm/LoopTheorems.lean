/-
Lede.Nmbm.LoopTheorems — `nmbm_update_info_table` ends.

Each loop of the source leaves with what the function of the model computes. For the loops over
blocks the measure is the number of blocks that are left. The retry loop repeats only after a
block went bad (`Settled`), so there it is the number of good blocks below
`mapping_blocks_top_ba`. The loops that count a block address down end because a table ends
before `mapping_blocks_ba`, which is therefore not 0.
-/
import Lede.Nmbm.Loops
import Lede.Nmbm.RegionTheorems

namespace Lede.Nmbm

open Lede.Nand Lede.Bmt Lede.Lib Lede.Lib.Loops

/-! ## Loops over blocks -/

section Blocks

variable {d : NmbmDesc} {dev : LowerDev}

theorem blockWalkAsc_iff (ni : NmbmInstance) (ba : Nat) (count : Int) (limit : Nat)
    (r : Option Nat) :
    BlockWalkAsc d ni ba count limit r ↔ r = nmbmBlockWalkAsc d ni ba count limit := by
  unfold BlockWalkAsc nmbmBlockWalkAsc
  generalize (if limit ≥ d.blockCount then d.blockCount - 1 else limit) = lim
  refine leaves_iff (walkAscStep ni lim) (fun _ => True) (fun p => lim - p.1)
    (fun p => walkAscLoop ni (lim - p.1) p.1 p.2)
    (fun _ _ _ => Iff.rfl) ?_ ?_ trivial r
  · rintro ⟨b, n⟩ r' - h
    simp only [walkAscStep] at h ⊢
    by_cases hb : b < lim
    · rw [if_pos hb] at h
      rw [show lim - b = lim - b - 1 + 1 by omega, walkAscLoop]
      split_ifs at h ⊢ <;> simp_all
    · rw [if_neg hb] at h
      cases h
      rw [show lim - b = 0 by omega, walkAscLoop]
  · rintro ⟨b, n⟩ s' - h
    simp only [walkAscStep] at h ⊢
    by_cases hb : b < lim
    · rw [if_pos hb] at h
      rw [show lim - b = lim - (b + 1) + 1 by omega, walkAscLoop]
      generalize (if isGood ni b then n - 1 else n) = nblock at h ⊢
      by_cases hn : nblock < 0
      · simp [hn] at h
      · rw [if_neg hn] at h ⊢
        cases h
        exact ⟨trivial, by dsimp only; omega, rfl⟩
    · rw [if_neg hb] at h
      cases h

theorem reserveBody_iff {ni : NmbmInstance} {ba limit : Nat} {nblocks : Int} (hn : 0 ≤ nblocks)
    (x : Int ⊕ Option Nat) :
    ReserveBody d ni ba limit nblocks x ↔ x = match nmbmBlockWalkAsc d ni ba nblocks limit with
      | some nba => .inr (some nba)
      | none => .inl (nblocks - 1) := by
  rw [ReserveBody, if_pos hn]
  cases hw : nmbmBlockWalkAsc d ni ba nblocks limit <;> simp [blockWalkAsc_iff, hw]

theorem tryReserveBlocks_iff (ni : NmbmInstance) (ba count limit : Nat) (r : Option Nat) :
    TryReserveBlocks d ni ba count limit r ↔ r = nmbmTryReserveBlocks d ni ba count limit := by
  unfold TryReserveBlocks
  induction count with
  | zero =>
    rw [nmbmTryReserveBlocks]
    cases hw : nmbmBlockWalkAsc d ni ba 0 limit with
    | some nba => exact leaves_of_inr (fun x => by rw [reserveBody_iff (by simp)]; simp [hw]) r
    | none =>
      -- the count is now negative
      rw [leaves_of_inl (t := -1) fun x => by rw [reserveBody_iff (by simp)]; simp [hw]]
      exact leaves_of_inr (fun x => by simp [ReserveBody]) r
  | succ count ih =>
    have hpos : (0 : Int) ≤ (count + 1 : Nat) := by omega
    rw [nmbmTryReserveBlocks]
    cases hw : nmbmBlockWalkAsc d ni ba (count + 1 : Nat) limit with
    | some nba => exact leaves_of_inr (fun x => by rw [reserveBody_iff hpos, hw]) r
    | none =>
      have hpred : ((count + 1 : Nat) : Int) - 1 = count := by omega
      rw [leaves_of_inl fun x => by rw [reserveBody_iff hpos, hw, hpred]]
      exact ih

theorem eraseRange_iff (s : Attached) (ba limit : Nat) (s' : Attached) :
    EraseRange d dev s ba limit s' ↔ s' = nmbmEraseRange d dev s ba limit := by
  unfold EraseRange nmbmEraseRange
  refine leaves_iff (eraseRangeStep d dev limit) (fun _ => True) (fun p => limit - p.1)
    (fun p => eraseRangeLoop d dev (limit - p.1) p.1 p.2)
    (fun _ _ _ => Iff.rfl) ?_ ?_ trivial s'
  · rintro ⟨b, s₁⟩ r' - h
    simp only [eraseRangeStep] at h ⊢
    by_cases hb : b < limit
    · split_ifs at h
    · rw [if_neg hb] at h
      cases h
      rw [show limit - b = 0 by omega, eraseRangeLoop]
  · rintro ⟨b, s₁⟩ p - h
    simp only [eraseRangeStep] at h ⊢
    by_cases hb : b < limit
    · rw [if_pos hb] at h
      rw [show limit - b = limit - (b + 1) + 1 by omega, eraseRangeLoop]
      simp only
      split_ifs at h ⊢ <;> cases h <;> exact ⟨trivial, by simp only; omega, rfl⟩
    · rw [if_neg hb] at h
      cases h

/-- What is left of the table goes down, or the blocks before the limit do. -/
theorem writeInfoTable_iff (s : Attached) (ba limit : Nat) (r : Option (Nat × Nat) × Attached) :
    WriteInfoTable d dev s ba limit r ↔ r = nmbmWriteInfoTable d dev s ba limit := by
  unfold WriteInfoTable nmbmWriteInfoTable
  generalize s.tbl.infoTableCache = dat
  generalize d.infoTableSize = size
  refine leaves_iff (writeMgmtStep d dev dat size limit) (fun _ => True) (fun v => limit - v.ba)
    (fun v => writeMgmtLoop d dev dat size (limit - v.ba) v.ba v.rest v.start v.s)
    (fun _ _ _ => Iff.rfl) ?_ ?_ trivial r
  · rintro ⟨b, rest, start, s₁⟩ r' - h
    simp only [writeMgmtStep] at h ⊢
    by_cases hgo : rest ≠ 0 ∧ b < limit
    · rw [if_pos hgo] at h
      split_ifs at h
    · rw [if_neg hgo] at h
      cases h
      by_cases hrest : rest = 0
      · rw [hrest, writeMgmtLoop_rest_zero, if_pos rfl]
      · rw [show limit - b = 0 by omega, writeMgmtLoop, if_neg hrest, if_neg hrest]
  · rintro ⟨b, rest, start, s₁⟩ v' - h
    simp only [writeMgmtStep] at h ⊢
    by_cases hgo : rest ≠ 0 ∧ b < limit
    · rw [if_pos hgo] at h
      rw [show limit - b = limit - (b + 1) + 1 by omega, writeMgmtLoop, if_neg hgo.1]
      simp only
      split_ifs at h ⊢ <;> cases h <;> exact ⟨trivial, by simp only; omega, rfl⟩
    · rw [if_neg hgo] at h
      cases h

end Blocks

/-! ## The routines -/

section Routines

variable {d : NmbmDesc} {dev : LowerDev}

/-- A round of the loop from a block down to a bound. -/
def downwardRound (d : NmbmDesc) (dev : LowerDev) (lo : NmbmInstance → Nat) (p : Nat × Attached) :
    (Nat × Attached) ⊕ (Option (Nat × Nat) × Attached) :=
  if lo p.2.tbl ≤ p.1 then
    match nmbmWriteInfoTable d dev p.2 p.1 p.2.tbl.mappingBlocksTopBa with
    | (some t, s) => .inr (some t, s)
    | (none, s) => .inl (subU32 p.1 1, s)
  else .inr (none, p.2)

/-- The loop from `writeBa` down to a bound that the writes keep, above 0. -/
theorem downward_iff (lo : NmbmInstance → Nat)
    (hlo : ∀ s ba limit, lo (nmbmWriteInfoTable d dev s ba limit).2.tbl = lo s.tbl)
    {s : Attached} {writeBa : Nat} (hpos : 0 < lo s.tbl) (hba : writeBa < 2 ^ 32)
    (r : Option (Nat × Nat) × Attached) :
    Leaves (DownwardBody d dev lo) (writeBa, s) r ↔
      r = writeDownward d dev (writeBa + 1 - lo s.tbl) writeBa s := by
  refine leaves_iff (downwardRound d dev lo)
    (fun p => 0 < lo p.2.tbl ∧ p.1 < 2 ^ 32) (fun p => p.1 + 1 - lo p.2.tbl)
    (fun p => writeDownward d dev (p.1 + 1 - lo p.2.tbl) p.1 p.2) ?_ ?_ ?_ ⟨hpos, hba⟩ r
  · rintro ⟨b, s₁⟩ - x
    unfold DownwardBody downwardRound
    by_cases hb : lo s₁.tbl ≤ b
    · rcases hw : nmbmWriteInfoTable d dev s₁ b s₁.tbl.mappingBlocksTopBa with ⟨_ | t, s₂⟩ <;>
        simp [-IsEmpty.exists_iff, hb, writeInfoTable_iff, hw]
    · simp only [if_neg hb]
  · rintro ⟨b, s₁⟩ r' - h
    unfold downwardRound at h
    by_cases hb : lo s₁.tbl ≤ b
    · simp only [if_pos hb] at h
      simp only [show b + 1 - lo s₁.tbl = b - lo s₁.tbl + 1 by omega, writeDownward]
      rcases hw : nmbmWriteInfoTable d dev s₁ b s₁.tbl.mappingBlocksTopBa with ⟨_ | t, s₂⟩
      · simp [hw] at h
      · simpa [hw] using h
    · simp only [if_neg hb] at h
      simp only [show b + 1 - lo s₁.tbl = 0 by omega, writeDownward]
      exact Sum.inr.inj h
  · rintro ⟨b, s₁⟩ p ⟨hpos₁, hb32⟩ h
    unfold downwardRound at h
    by_cases hb : lo s₁.tbl ≤ b
    · simp only [if_pos hb] at h
      have hkeep := hlo s₁ b s₁.tbl.mappingBlocksTopBa
      rcases hw : nmbmWriteInfoTable d dev s₁ b s₁.tbl.mappingBlocksTopBa with ⟨_ | t, s₂⟩
      · rw [hw] at h hkeep
        simp only at h hkeep hpos₁ hb32
        have hsub : subU32 b 1 = b - 1 := by
          unfold subU32
          omega
        obtain rfl := Sum.inl.inj h
        rw [hsub]
        refine ⟨⟨by simp only; omega, by simp only; omega⟩, by simp only; omega, ?_⟩
        simp only [show b + 1 - lo s₁.tbl = b - 1 + 1 - lo s₂.tbl + 1 by omega, writeDownward, hw]
      · simp [hw] at h
    · simp only [if_neg hb] at h
      cases h

theorem nmbmBlockWalkAsc_lt {ni : NmbmInstance} {ba limit nba : Nat} {count : Int}
    (h : nmbmBlockWalkAsc d ni ba count limit = some nba) : nba < 2 ^ 32 := by
  have hbc : d.blockCount < 65536 := d.totalBlks_lt
  unfold nmbmBlockWalkAsc at h
  obtain ⟨hge, hlt⟩ := walkAscLoop_ge ni _ ba count h
  split at hlt <;> omega

theorem nmbmTryReserveBlocks_lt {ni : NmbmInstance} {ba : Nat} : ∀ {count limit nba : Nat},
    nmbmTryReserveBlocks d ni ba count limit = some nba → nba < 2 ^ 32
  | 0, limit, nba, h => nmbmBlockWalkAsc_lt h
  | count + 1, limit, nba, h => by
      rw [nmbmTryReserveBlocks] at h
      split at h
      · next hw =>
        obtain rfl := Option.some.inj h
        exact nmbmBlockWalkAsc_lt hw
      · exact nmbmTryReserveBlocks_lt h

theorem backupBehind_iff (s : Attached) (stop : Nat) (s' : Attached) :
    BackupBehind d dev s stop s' ↔ s' = writeBackupBehind d dev s stop := by
  unfold BackupBehind writeBackupBehind
  simp only [tryReserveBlocks_iff, exists_eq_left]
  cases nmbmTryReserveBlocks d s.tbl stop d.infoTableSpareBlocks (lastTableStart d s) with
  | none => rfl
  | some next =>
    simp only [writeInfoTable_iff, exists_eq_left]
    rcases nmbmWriteInfoTable d dev s next s.tbl.mappingBlocksTopBa with ⟨_ | ⟨start', stop'⟩, s₁⟩
    · rfl
    · exact eraseRange_iff _ _ _ _

theorem rebuildInfoTable_iff (s : Attached) (r : Bool × Attached) :
    RebuildInfoTable d dev s r ↔ r = nmbmRebuildInfoTable d dev s := by
  unfold RebuildInfoTable nmbmRebuildInfoTable
  simp only [writeInfoTable_iff, exists_eq_left]
  have hmgmt : (moveTables s 0 0 s.tbl.mappingBlocksTopBa).tbl.mgmtStartBa = s.tbl.mgmtStartBa := rfl
  have htop : (moveTables s 0 0 s.tbl.mappingBlocksTopBa).tbl.mappingBlocksTopBa =
    s.tbl.mappingBlocksTopBa := rfl
  rw [hmgmt, htop]
  rcases nmbmWriteInfoTable d dev (moveTables s 0 0 s.tbl.mappingBlocksTopBa) s.tbl.mgmtStartBa
    s.tbl.mappingBlocksTopBa with ⟨_ | ⟨start, stop⟩, s₁⟩
  · rfl
  · simp only [backupBehind_iff, exists_eq_left]

/-- The main table ends at or before the temporary one, so that one is never overwritten. -/
theorem rescueMainInfoTable_iff {s : Attached} (hpos : 0 < s.tbl.mappingBlocksBa)
    (r : Bool × Attached) :
    RescueMainInfoTable d dev s r ↔ r = nmbmRescueMainInfoTable d dev s := by
  unfold RescueMainInfoTable nmbmRescueMainInfoTable
  simp only [tryReserveBlocks_iff, exists_eq_left]
  cases hba : nmbmTryReserveBlocks d s.tbl s.tbl.mappingBlocksBa d.infoTableSpareBlocks
    (lastTableStart d s) with
  | none => rfl
  | some writeBa =>
    have hkeep : ∀ s ba limit,
        (nmbmWriteInfoTable d dev s ba limit).2.tbl.mappingBlocksBa = s.tbl.mappingBlocksBa :=
      fun s ba limit => (nmbmWriteInfoTable_wrote dev s ba limit).mappingBlocksBa
    have hba32 := nmbmTryReserveBlocks_lt hba
    simp only [downward_iff (fun ni => ni.mappingBlocksBa) hkeep hpos hba32, exists_eq_left]
    rcases writeDownward d dev (writeBa + 1 - s.tbl.mappingBlocksBa) writeBa s with
      ⟨_ | ⟨tmpStart, tmpStop⟩, s₁⟩
    · rfl
    · simp only [writeInfoTable_iff, exists_eq_left]
      rcases hw : nmbmWriteInfoTable d dev s₁ s₁.tbl.mgmtStartBa tmpStart with
        ⟨_ | ⟨start, stop⟩, s₂⟩
      · rfl
      · have hle := (nmbmWriteInfoTable_stored (d := d) dev s₁ (by rw [hw])).2.1
        simp only [if_pos hle]

theorem writeMainTable_iff {s : Attached} (limit : Nat)
    (hpos : s.tbl.backupTableBa ≠ 0 → 0 < s.tbl.mappingBlocksBa) (r : Bool × Attached) :
    WriteMainTable d dev s limit r ↔ r = writeMainTable d dev s limit := by
  unfold WriteMainTable writeMainTable
  by_cases hmain : s.tbl.mainTableBa = 0
  · rw [if_pos hmain, if_pos hmain]
    exact rebuildInfoTable_iff s r
  · rw [if_neg hmain, if_neg hmain]
    simp only [writeInfoTable_iff, exists_eq_left]
    rcases hw : nmbmWriteInfoTable d dev s s.tbl.mainTableBa limit with ⟨_ | ⟨start, stop⟩, s₁⟩
    · by_cases hb : s₁.tbl.backupTableBa = 0
      · simp only [if_pos hb, rebuildInfoTable_iff]
      · have hwrote := wrote_of_write hw
        have hpos₁ : 0 < s₁.tbl.mappingBlocksBa := by
          rw [hwrote.mappingBlocksBa]
          exact hpos (hwrote.backupTableBa ▸ hb)
        simp only [if_neg hb, rescueMainInfoTable_iff hpos₁]
    · rfl

/-- A backup table that was written ends before `mapping_blocks_ba`, which is thus not 0. -/
theorem writeBothTables_iff (s : Attached) (r : Bool × Attached) :
    WriteBothTables d dev s r ↔ r = writeBothTables d dev s := by
  unfold WriteBothTables writeBothTables
  by_cases hb : s.tbl.backupTableBa = 0
  · rw [if_pos hb, if_pos hb]
    exact writeMainTable_iff _ (fun h => absurd hb h) r
  · rw [if_neg hb, if_neg hb]
    simp only [writeInfoTable_iff, exists_eq_left]
    rcases hw : nmbmWriteInfoTable d dev s s.tbl.backupTableBa s.tbl.mappingBlocksTopBa with
      ⟨_ | ⟨start, stop⟩, s₁⟩
    · exact writeMainTable_iff _ (fun h => absurd rfl h) r
    · obtain ⟨-, -, bs, hfresh⟩ := nmbmWriteInfoTable_stored (d := d) dev s (by rw [hw])
      have hlt : start < stop := hfresh.stored.lt
      exact writeMainTable_iff _ (fun _ => Nat.zero_lt_of_lt hlt) r

theorem updateInfoTableOnce_iff (s : Attached) (force : Bool) (r : Bool × Attached) :
    UpdateInfoTableOnce d dev s force r ↔ r = nmbmUpdateInfoTableOnce d dev s force := by
  unfold UpdateInfoTableOnce nmbmUpdateInfoTableOnce
  split
  · rfl
  · exact writeBothTables_iff _ r

end Routines

/-! ## The update loop -/

section Update

variable {d : NmbmDesc} {dev : LowerDev} {s s' : Attached}

/-- Good blocks below `mapping_blocks_top_ba`. -/
def goodBelowTop (s : Attached) : Nat :=
  (List.range s.tbl.mappingBlocksTopBa).countP (isGood s.tbl)

/-- Rounds of the update loop that may be left. -/
def roundsLeft (s : Attached) : Nat := if tablesChanged s.tbl then goodBelowTop s + 1 else 0

/-- One block fewer. -/
theorem countP_lt_countP {p q : Nat → Bool} {l : List Nat} {b : Nat} (hb : b ∈ l)
    (himp : ∀ x, q x = true → p x = true) (hp : p b = true) (hq : q b = false) :
    l.countP q < l.countP p := by
  obtain ⟨l₁, l₂, rfl⟩ := List.append_of_mem hb
  have h₁ : l₁.countP q ≤ l₁.countP p := List.countP_mono_left fun x _ => himp x
  have h₂ : l₂.countP q ≤ l₂.countP p := List.countP_mono_left fun x _ => himp x
  simp only [List.countP_append, List.countP_cons, hp, hq]
  simp
  omega

/-- Nothing is said about the tables but where they lie. -/
def AnyTable : TablePred := fun _ _ _ _ => True

/-- What a round moves and marks, from every state. -/
theorem once_rewritten {lo : Nat} (hchanged : tablesChanged s.tbl = true)
    (hmgmt : lo ≤ s.tbl.mgmtStartBa) (htop : lo ≤ s.tbl.mappingBlocksTopBa)
    (hmain : s.tbl.mainTableBa ≠ 0 → lo ≤ s.tbl.mainTableBa)
    (hbackup : s.tbl.backupTableBa ≠ 0 → lo ≤ s.tbl.backupTableBa) :
    Rewritten d lo AnyTable (generateCache d s) (nmbmUpdateInfoTableOnce d dev s false).1
      (nmbmUpdateInfoTableOnce d dev s false).2 := by
  have hgen : (nmbmGenerateInfoTableCache d s.tbl).1 = true := hchanged
  have hframed : Framed d AnyTable := fun _ _ h => h
  rw [nmbmUpdateInfoTableOnce, hgen]
  exact writeBothTables_rewritten (d := d) (s := generateCache d s) hframed
    (fun _ => trivial) hmgmt htop hmain hbackup

/-- A round that succeeds leaves a mark only for a block that went bad in it. -/
theorem once_settled (h : nmbmUpdateInfoTableOnce d dev s false = (true, s'))
    (hchanged : tablesChanged s.tbl = true) : Updated d 0 (generateCache d s) s' ∧
      Settled 0 s s' := by
  have hr : Rewritten d 0 AnyTable (generateCache d s) (nmbmUpdateInfoTableOnce d dev s false).1
      (nmbmUpdateInfoTableOnce d dev s false).2 := once_rewritten hchanged (Nat.zero_le _)
    (Nat.zero_le _) (fun _ => Nat.zero_le _) (fun _ => Nat.zero_le _)
  rw [h] at hr
  exact ⟨hr.updated, hr.settled rfl⟩

theorem roundsLeft_lt (h : nmbmUpdateInfoTableOnce d dev s false = (true, s'))
    (hchanged : tablesChanged s.tbl = true) : roundsLeft s' < roundsLeft s := by
  obtain ⟨hupd, hmap, hstate⟩ := once_settled h hchanged
  unfold roundsLeft
  rw [if_pos hchanged]
  by_cases hagain : tablesChanged s'.tbl = true
  · have hne : s'.tbl.blockStateChanged ≠ 0 := by simpa [tablesChanged, hmap] using hagain
    obtain ⟨b, -, hb, hgood, hbad⟩ := hstate hne
    have htop : s'.tbl.mappingBlocksTopBa = s.tbl.mappingBlocksTopBa := hupd.top
    have hlt : goodBelowTop s' < goodBelowTop s := by
      unfold goodBelowTop
      rw [htop]
      have hgone : isGood s'.tbl b = false := by simp [isGood, hbad, blockStBad, blockStGood]
      exact countP_lt_countP (List.mem_range.2 hb) (fun x => hupd.good_of_good) hgood hgone
    rw [if_pos hagain]
    omega
  · rw [if_neg hagain]
    omega

/-- A round of the loop of `nmbm_update_info_table`. -/
def updateRound (d : NmbmDesc) (dev : LowerDev) (s : Attached) : Attached ⊕ (Bool × Attached) :=
  if tablesChanged s.tbl then
    match nmbmUpdateInfoTableOnce d dev s false with
    | (false, s) => .inr (false, s)
    | (true, s) => .inl s
  else .inr (true, s)

theorem updateBody_ends (s : Attached) : ∃! r, Leaves (UpdateBody d dev) s r := by
  refine existsUnique_leaves (updateRound d dev) (fun _ => True) roundsLeft ?_ ?_ trivial
  · rintro s₁ - x
    unfold UpdateBody updateRound
    split
    · rcases hu : nmbmUpdateInfoTableOnce d dev s₁ false with ⟨_ | _, s₂⟩ <;>
        simp [-IsEmpty.exists_iff, updateInfoTableOnce_iff, hu]
    · rfl
  · rintro s₁ s₂ - h
    unfold updateRound at h
    by_cases hchanged : tablesChanged s₁.tbl = true
    · simp only [if_pos hchanged] at h
      rcases honce : nmbmUpdateInfoTableOnce d dev s₁ false with ⟨_ | _, s₃⟩
      · simp [honce] at h
      · rw [honce] at h
        obtain rfl := Sum.inl.inj h
        exact ⟨trivial, roundsLeft_lt honce hchanged⟩
    · simp [hchanged] at h

/-- Whatever the chip answers, `nmbm_update_info_table` comes to an end, and to one result. -/
theorem updateInfoTable_ends (d : NmbmDesc) (dev : LowerDev) (s : Attached) :
    ∃! r, UpdateInfoTable d dev s r := by
  unfold UpdateInfoTable
  split
  · exact ⟨(true, s), rfl, fun _ h => h⟩
  · exact updateBody_ends s

/-- The fuel of the model is enough for the loop of the source. -/
theorem updateLoop_leaves : ∀ (n : Nat) (s : Attached), roundsLeft s < n →
    Leaves (UpdateBody d dev) s (updateLoop d dev n s)
  | 0, _, h => absurd h (Nat.not_lt_zero _)
  | n + 1, s, h => by
      rw [updateLoop]
      by_cases hchanged : tablesChanged s.tbl = true
      · rw [if_neg (by simp [hchanged])]
        rcases honce : nmbmUpdateInfoTableOnce d dev s false with ⟨_ | _, s'⟩
        · exact .leave (by simp [-IsEmpty.exists_iff, UpdateBody, hchanged, updateInfoTableOnce_iff, honce])
        · have hlt := roundsLeft_lt honce hchanged
          refine .again ?_ (updateLoop_leaves n s' (by omega))
          simp [-IsEmpty.exists_iff, UpdateBody, hchanged, updateInfoTableOnce_iff, honce]
      · rw [if_pos (by simp [hchanged])]
        exact .leave (by simp [UpdateBody, hchanged])

/-- So `nmbmUpdateInfoTable` is what `nmbm_update_info_table` computes. -/
theorem updateInfoTable_iff (htop : s.tbl.mappingBlocksTopBa ≤ d.blockCount) (r : Bool × Attached) :
    UpdateInfoTable d dev s r ↔ r = nmbmUpdateInfoTable d dev s := by
  unfold UpdateInfoTable nmbmUpdateInfoTable
  split
  · rfl
  · have hgood : goodBelowTop s ≤ goodCount d s.tbl :=
      List.Sublist.countP_le (List.range_sublist.2 htop)
    have hfuel : roundsLeft s < goodCount d s.tbl + 2 := by
      unfold roundsLeft
      split <;> omega
    have hrun : Leaves (UpdateBody d dev) s (updateLoop d dev _ s) := updateLoop_leaves _ s hfuel
    exact ⟨fun h => (updateBody_ends s).unique h hrun, fun h => h ▸ hrun⟩

end Update

end Lede.Nmbm
