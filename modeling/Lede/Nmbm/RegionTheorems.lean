/-
Lede.Nmbm.RegionTheorems — the regions of the management area, and the routines
that move them.

A statement `P` about a table may look at the chip and at the block states; it is
`Framed` when writes outside the blocks of the table keep it. `Tables lo P` says
that the boundaries of a layout are in order and that the tables it names lie
inside them, each with `P`. A routine is described by two things: it is
`Updated` (everything it erased, programmed or marked bad lies in
`[lo, mapping_blocks_top_ba)`, and nothing but the tables, `mapping_blocks_ba`,
the block states and the marks has changed), and it leaves `Tables`.

`P` stays open on purpose: it is what a caller wants to know of the tables. That the loops end
needs only that there are some (`AnyTable`).
-/
import Lede.Nmbm.ImageTheorems

namespace Lede.Nmbm

open Lede.Nand Lede.Bmt Lede.Lib

/-! ## Statements about tables -/

/-- A statement about a table in the blocks `start .. stop - 1`. -/
abbrev TablePred := Flash → (Nat → BitVec 32) → (start stop : Nat) → Prop

/-- Writes outside the blocks of a table keep what is said about it. -/
def Framed (d : NmbmDesc) (P : TablePred) : Prop :=
  ∀ {a b : Nat} {s s' : Attached} {start stop : Nat}, Wrote d a b s s' → stop ≤ a ∨ b ≤ start →
    P s.flash s.tbl.blockState start stop → P s'.flash s'.tbl.blockState start stop

/-- `P` holds of a table right after `img` was written. -/
def Accepts (d : NmbmDesc) (P : TablePred) (img : Nat → UInt8) : Prop :=
  ∀ {fl : Flash} {state : Nat → BitVec 32} {start stop : Nat} {bs : List Nat},
    Fresh d img fl state start stop bs → P fl state start stop

/-- A table from `start` on that ends at or before `bound`. -/
def Live (P : TablePred) (s : Attached) (start bound : Nat) : Prop :=
  ∃ stop, start < stop ∧ stop ≤ bound ∧ P s.flash s.tbl.blockState start stop

section Live

variable {d : NmbmDesc} {P : TablePred} {s s' : Attached} {start bound : Nat}

theorem Live.lt (h : Live P s start bound) : start < bound := by
  obtain ⟨stop, hlt, hle, -⟩ := h
  omega

theorem Live.frame (hP : Framed d P) {a b : Nat} (hw : Wrote d a b s s')
    (hab : bound ≤ a ∨ b ≤ start) (h : Live P s start bound) : Live P s' start bound := by
  obtain ⟨stop, hlt, hle, hp⟩ := h
  exact ⟨stop, hlt, hle, hP hw (by omega) hp⟩

end Live

/-- The boundaries are in order, and the tables are on the chip. A table at block
0 does not exist. -/
structure Tables (lo : Nat) (P : TablePred) (s : Attached) : Prop where
  lo_le : lo ≤ s.tbl.mappingBlocksBa
  map_le : s.tbl.mappingBlocksBa ≤ s.tbl.mappingBlocksTopBa
  main : s.tbl.mainTableBa ≠ 0 → lo ≤ s.tbl.mainTableBa ∧ Live P s s.tbl.mainTableBa
    (if s.tbl.backupTableBa = 0 then s.tbl.mappingBlocksBa else s.tbl.backupTableBa)
  backup : s.tbl.backupTableBa ≠ 0 →
    lo ≤ s.tbl.backupTableBa ∧ Live P s s.tbl.backupTableBa s.tbl.mappingBlocksBa

/-- One table, with the spare blocks from its end on. -/
theorem tables_single {lo : Nat} {P : TablePred} {s : Attached} {start stop : Nat}
    (hmain : s.tbl.mainTableBa = start) (hbackup : s.tbl.backupTableBa = 0) (hlo : lo ≤ start)
    (hlt : start < stop) (hstop : stop ≤ s.tbl.mappingBlocksBa)
    (hmap : s.tbl.mappingBlocksBa ≤ s.tbl.mappingBlocksTopBa)
    (hp : P s.flash s.tbl.blockState start stop) : Tables lo P s where
  lo_le := by omega
  map_le := hmap
  main := by
    intro _
    rw [hmain, hbackup, if_pos rfl]
    exact ⟨hlo, stop, hlt, hstop, hp⟩
  backup := fun h => absurd hbackup h

/-- Two tables, one above the other. -/
theorem tables_pair {lo : Nat} {P : TablePred} {s : Attached} {start stop start' stop' : Nat}
    (hmain : s.tbl.mainTableBa = start) (hbackup : s.tbl.backupTableBa = start') (hlo : lo ≤ start)
    (hlt : start < stop) (hgap : stop ≤ start') (hlt' : start' < stop')
    (hstop : stop' ≤ s.tbl.mappingBlocksBa)
    (hmap : s.tbl.mappingBlocksBa ≤ s.tbl.mappingBlocksTopBa)
    (hp : P s.flash s.tbl.blockState start stop) (hp' : P s.flash s.tbl.blockState start' stop') :
    Tables lo P s where
  lo_le := by omega
  map_le := hmap
  main := by
    intro _
    rw [hmain, if_neg (by omega), hbackup]
    exact ⟨hlo, stop, hlt, hgap, hp⟩
  backup := by
    intro _
    rw [hbackup]
    exact ⟨by omega, stop', hlt', hstop, hp'⟩

/-! ## What a routine may change -/

/-- Only blocks of `[lo, mapping_blocks_top_ba)` were erased, programmed or marked
bad, and neither the mapping nor the boundaries that matter for it changed. -/
structure Flushed (d : NmbmDesc) (lo : Nat) (s s' : Attached) : Prop where
  touches : Flash.Touches d.toGeometry {b | lo ≤ b ∧ b < s.tbl.mappingBlocksTopBa} s.flash s'.flash
  state : ∀ b, getBlockState s'.tbl b = getBlockState s.tbl b ∨
    (lo ≤ b ∧ b < s.tbl.mappingBlocksTopBa ∧ isGood s.tbl b = true ∧
      getBlockState s'.tbl b = blockStBad)
  dbc : s'.tbl.dataBlockCount = s.tbl.dataBlockCount
  mgmt : s'.tbl.mgmtStartBa = s.tbl.mgmtStartBa
  top : s'.tbl.mappingBlocksTopBa = s.tbl.mappingBlocksTopBa
  sig : s'.tbl.signatureBa = s.tbl.signatureBa
  signature : s'.tbl.signature = s.tbl.signature
  map : s'.tbl.blockMapping = s.tbl.blockMapping

namespace Flushed

variable {d : NmbmDesc} {lo : Nat} {s s' s'' : Attached}

theorem refl (s : Attached) : Flushed d lo s s :=
  ⟨Flash.Touches.refl _, fun _ => Or.inl rfl, rfl, rfl, rfl, rfl, rfl, rfl⟩

theorem good_of_good (h : Flushed d lo s s') {b : Nat} (hb : isGood s'.tbl b = true) :
    isGood s.tbl b = true := by
  rcases h.state b with he | ⟨-, -, hg, -⟩
  · rw [isGood_iff] at hb ⊢
    rw [← he, hb]
  · exact hg

theorem bad_of_bad (h : Flushed d lo s s') {b : Nat} (hb : getBlockState s.tbl b = blockStBad) :
    getBlockState s'.tbl b = blockStBad := by
  rcases h.state b with he | ⟨-, -, -, hbad⟩
  · rw [he, hb]
  · exact hbad

theorem trans (h₁ : Flushed d lo s s') (h₂ : Flushed d lo s' s'') : Flushed d lo s s'' where
  touches := by
    have ht := h₂.touches
    rw [h₁.top] at ht
    exact h₁.touches.trans ht
  state := by
    intro b
    rcases h₂.state b with he | ⟨hl, hh, hg, hb⟩
    · rw [he]
      exact h₁.state b
    · exact Or.inr ⟨hl, h₁.top ▸ hh, h₁.good_of_good hg, hb⟩
  dbc := h₂.dbc.trans h₁.dbc
  mgmt := h₂.mgmt.trans h₁.mgmt
  top := h₂.top.trans h₁.top
  sig := h₂.sig.trans h₁.sig
  signature := h₂.signature.trans h₁.signature
  map := h₂.map.trans h₁.map

end Flushed

theorem generateCache_flushed {d : NmbmDesc} (lo : Nat) (s : Attached) : Flushed d lo s (generateCache d s) :=
  ⟨Flash.Touches.refl _, fun _ => Or.inl rfl, rfl, rfl, rfl, rfl, rfl, rfl⟩

/-- The same with the image that is being written in place. A block state that
changed is one that went bad. -/
structure Updated (d : NmbmDesc) (lo : Nat) (s s' : Attached) : Prop extends Flushed d lo s s' where
  same : s'.tbl.blockState = s.tbl.blockState ∨
    ∃ b, lo ≤ b ∧ b < s.tbl.mappingBlocksTopBa ∧ isGood s.tbl b = true ∧
      getBlockState s'.tbl b = blockStBad
  hdr : s'.tbl.infoTable = s.tbl.infoTable
  img : s'.tbl.infoTableCache = s.tbl.infoTableCache

namespace Updated

variable {d : NmbmDesc} {lo : Nat} {s s' s'' : Attached}

theorem trans (h₁ : Updated d lo s s') (h₂ : Updated d lo s' s'') : Updated d lo s s'' where
  toFlushed := h₁.toFlushed.trans h₂.toFlushed
  same := by
    rcases h₂.same with he | ⟨b, hl, hh, hg, hb⟩
    · rcases h₁.same with he' | ⟨b, hl, hh, hg, hb⟩
      · exact Or.inl (he.trans he')
      · exact Or.inr ⟨b, hl, hh, hg, h₂.bad_of_bad hb⟩
    · exact Or.inr ⟨b, hl, h₁.top ▸ hh, h₁.good_of_good hg, hb⟩
  hdr := h₂.hdr.trans h₁.hdr
  img := h₂.img.trans h₁.img

/-- A write in the area. -/
theorem of_wrote {a b : Nat} (h : Wrote d a b s s') (ha : lo ≤ a)
    (hb : b ≤ s.tbl.mappingBlocksTopBa) : Updated d lo s s' where
  touches := (h.mono ha hb).touches
  state := (h.mono ha hb).state
  dbc := congrArg Layout.dataBlockCount h.layout
  mgmt := h.mgmtStartBa
  top := h.mappingBlocksTopBa
  sig := congrArg Layout.signatureBa h.layout
  signature := h.signature
  map := h.blockMapping
  same := by
    by_cases hc : s'.tbl.blockStateChanged = s.tbl.blockStateChanged
    · exact Or.inl (h.same hc)
    · exact Or.inr ((h.mono ha hb).diff hc)
  hdr := h.infoTable
  img := h.infoTableCache

theorem refl (s : Attached) : Updated d lo s s :=
  ⟨Flushed.refl s, Or.inl rfl, rfl, rfl⟩

theorem moveTables (s : Attached) (main backup ba : Nat) :
    Updated d lo s (moveTables s main backup ba) :=
  ⟨⟨Flash.Touches.refl _, fun _ => Or.inl rfl, rfl, rfl, rfl, rfl, rfl, rfl⟩, Or.inl rfl, rfl, rfl⟩

theorem markClean (s : Attached) : Updated d lo s (markClean s) :=
  ⟨⟨Flash.Touches.refl _, fun _ => Or.inl rfl, rfl, rfl, rfl, rfl, rfl, rfl⟩, Or.inl rfl, rfl, rfl⟩

theorem protect (s : Attached) : Updated d lo s (protect s) :=
  ⟨⟨Flash.Touches.refl _, fun _ => Or.inl rfl, rfl, rfl, rfl, rfl, rfl, rfl⟩, Or.inl rfl, rfl, rfl⟩

end Updated

/-- Nothing is marked as changed, but for a block that went bad since. -/
def Settled (lo : Nat) (s s' : Attached) : Prop :=
  s'.tbl.blockMappingChanged = 0 ∧ (s'.tbl.blockStateChanged ≠ 0 →
    ∃ b, lo ≤ b ∧ b < s.tbl.mappingBlocksTopBa ∧ isGood s.tbl b = true ∧
      getBlockState s'.tbl b = blockStBad)

theorem settled_markClean (lo : Nat) (s s' : Attached) : Settled lo s (markClean s') :=
  ⟨rfl, fun h => absurd rfl h⟩

theorem Settled.wrote {d : NmbmDesc} {lo a b : Nat} {s s₁ s₂ : Attached} (h : Settled lo s s₁)
    (hu : Updated d lo s s₁) (hw : Wrote d a b s₁ s₂) (ha : lo ≤ a)
    (hb : b ≤ s.tbl.mappingBlocksTopBa) : Settled lo s s₂ := by
  refine ⟨?_, fun hne => ?_⟩
  · rw [hw.rest]
    exact h.1
  · by_cases h₁ : s₁.tbl.blockStateChanged = 0
    · obtain ⟨x, h₂, h₃, hg, hbad⟩ := hw.diff (by omega)
      exact ⟨x, by omega, by omega, hu.good_of_good hg, hbad⟩
    · obtain ⟨x, h₂, h₃, hg, hbad⟩ := h.2 h₁
      exact ⟨x, h₂, h₃, hg, hw.bad_of_bad hbad⟩

/-- What a routine that returns `r` leaves: the tables in order; and if it
succeeded, a main table, and no mark but for blocks that went bad. -/
structure Rewritten (d : NmbmDesc) (lo : Nat) (P : TablePred) (s : Attached) (r : Bool)
    (s' : Attached) : Prop where
  updated : Updated d lo s s'
  tables : Tables lo P s'
  main : r = true → ∃ stop, P s'.flash s'.tbl.blockState s'.tbl.mainTableBa stop
  settled : r = true → Settled lo s s'

/-- A routine that runs after another one. -/
theorem Rewritten.of_updated {d : NmbmDesc} {lo : Nat} {P : TablePred} {s₀ s s' : Attached} {r : Bool}
    (hu : Updated d lo s₀ s) (h : Rewritten d lo P s r s') : Rewritten d lo P s₀ r s' where
  updated := hu.trans h.updated
  tables := h.tables
  main := h.main
  settled := by
    intro hr
    refine ⟨(h.settled hr).1, fun hne => ?_⟩
    obtain ⟨b, h₁, h₂, hg, hbad⟩ := (h.settled hr).2 hne
    exact ⟨b, h₁, hu.top ▸ h₂, hu.good_of_good hg, hbad⟩

/-! ## Single writes -/

section Writes

variable {d : NmbmDesc} {dev : LowerDev} {P : TablePred} {s s' : Attached} {ba limit : Nat}

theorem wrote_of_write {r : Option (Nat × Nat)} (h : nmbmWriteInfoTable d dev s ba limit = (r, s')) :
    Wrote d ba limit s s' := by
  have hw := nmbmWriteInfoTable_wrote (d := d) dev s ba limit
  rwa [h] at hw

/-- A table that was written lies inside the range, and `P` holds of it. -/
theorem live_of_write {start stop : Nat} (hacc : Accepts d P s.tbl.infoTableCache)
    (h : nmbmWriteInfoTable d dev s ba limit = (some (start, stop), s')) :
    ba ≤ start ∧ start < stop ∧ stop ≤ limit ∧ P s'.flash s'.tbl.blockState start stop := by
  obtain ⟨h₁, h₂, bs, hfresh⟩ := nmbmWriteInfoTable_stored (d := d) dev s (by rw [h])
  rw [h] at hfresh
  exact ⟨h₁, hfresh.stored.lt, h₂, hacc hfresh⟩

/-- The loop of the rescue routines writes in `[lo, mapping_blocks_top_ba)`. -/
theorem writeDownward_spec (lo : Nat) : ∀ (n ba : Nat) (s : Attached) {r : Option (Nat × Nat)}
    {s' : Attached}, Accepts d P s.tbl.infoTableCache → lo + n ≤ ba + 1 →
    writeDownward d dev n ba s = (r, s') →
    Wrote d lo s.tbl.mappingBlocksTopBa s s' ∧
      ∀ start stop, r = some (start, stop) → lo ≤ start ∧ start < stop ∧
        stop ≤ s.tbl.mappingBlocksTopBa ∧ P s'.flash s'.tbl.blockState start stop
  | 0, _, s, r, s', _, _, h => by
      obtain ⟨rfl, rfl⟩ := Prod.mk.inj h
      exact ⟨Wrote.refl s, fun _ _ h => absurd h (by simp)⟩
  | n + 1, ba, s, r, s', hacc, hlo, h => by
      rw [writeDownward] at h
      rcases hw : nmbmWriteInfoTable d dev s ba s.tbl.mappingBlocksTopBa with ⟨_ | ⟨start, stop⟩, s₁⟩
      · rw [hw] at h
        have hwrote := wrote_of_write hw
        have htop : s₁.tbl.mappingBlocksTopBa = s.tbl.mappingBlocksTopBa :=
          congrArg Layout.mappingBlocksTopBa hwrote.layout
        obtain ⟨hrest, hsome⟩ :=
          writeDownward_spec lo n (ba - 1) s₁ (hwrote.infoTableCache ▸ hacc) (by omega) h
        rw [htop] at hrest hsome
        exact ⟨(hwrote.mono (by omega) (Nat.le_refl _)).trans hrest, hsome⟩
      · rw [hw] at h
        obtain ⟨rfl, rfl⟩ := Prod.mk.inj h
        refine ⟨(wrote_of_write hw).mono (by omega) (Nat.le_refl _), fun start' stop' he => ?_⟩
        obtain ⟨rfl, rfl⟩ := Prod.mk.inj (Option.some.inj he)
        obtain ⟨h₁, h₂, h₃, h₄⟩ := live_of_write hacc hw
        exact ⟨by omega, h₂, h₃, h₄⟩

end Writes

/-! ## Walks -/

section Walks

variable (ni : NmbmInstance)

theorem walkAscLoop_ge : ∀ (n ba : Nat) (count : Int) {nba : Nat},
    walkAscLoop ni n ba count = some nba → ba ≤ nba ∧ nba < ba + n
  | 0, _, _, _, h => absurd h (by simp [walkAscLoop])
  | n + 1, ba, count, nba, h => by
      rw [walkAscLoop] at h
      generalize (if isGood ni ba then count - 1 else count) = nblock at h
      split at h
      · obtain rfl := Option.some.inj h
        omega
      · have ih := walkAscLoop_ge n (ba + 1) _ h
        omega

theorem nmbmTryReserveBlocks_ge (d : NmbmDesc) (ba : Nat) : ∀ (count limit : Nat) {nba : Nat},
    nmbmTryReserveBlocks d ni ba count limit = some nba → ba ≤ nba
  | 0, limit, nba, h => (walkAscLoop_ge ni _ ba _ h).1
  | count + 1, limit, nba, h => by
      rw [nmbmTryReserveBlocks] at h
      split at h
      · next hw =>
        obtain rfl := Option.some.inj h
        exact (walkAscLoop_ge ni _ ba _ hw).1
      · exact nmbmTryReserveBlocks_ge d ba count limit h

end Walks

/-! ## The routines -/

section Routines

variable {d : NmbmDesc} {dev : LowerDev} {lo : Nat} {P : TablePred} {s s₀ : Attached}

/-- The backup table behind a main table that was just written. -/
theorem writeBackupBehind_rewritten {start stop : Nat} (hP : Framed d P)
    (hacc : Accepts d P s.tbl.infoTableCache) (hu : Updated d lo s₀ s) (hset : Settled lo s₀ s)
    (hmain : s.tbl.mainTableBa = start) (hbackup : s.tbl.backupTableBa = 0)
    (hmap : s.tbl.mappingBlocksBa = stop) (hlo : lo ≤ start) (hlt : start < stop)
    (hstop : stop ≤ s.tbl.mappingBlocksTopBa) (hp : P s.flash s.tbl.blockState start stop) :
    Rewritten d lo P s₀ true (writeBackupBehind d dev s stop) := by
  have htop := hu.top
  unfold writeBackupBehind
  rcases hres : nmbmTryReserveBlocks d s.tbl stop d.infoTableSpareBlocks (lastTableStart d s) with
    _ | next
  · dsimp only
    exact ⟨hu, tables_single hmain hbackup hlo hlt (by omega) (by omega) hp,
      fun _ => ⟨stop, hmain.symm ▸ hp⟩, fun _ => hset⟩
  · have hnext := nmbmTryReserveBlocks_ge s.tbl d stop _ _ hres
    dsimp only
    rcases hw : nmbmWriteInfoTable d dev s next s.tbl.mappingBlocksTopBa with ⟨_ | ⟨start', stop'⟩, s₁⟩
    · -- no room for a second table
      dsimp only
      have hwrote := wrote_of_write hw
      have hmain₁ := hwrote.mainTableBa.trans hmain
      have hmap₁ := hwrote.mappingBlocksBa.trans hmap
      have htop₁ := hwrote.mappingBlocksTopBa
      have hp₁ := hP hwrote (Or.inl hnext) hp
      exact ⟨hu.trans (Updated.of_wrote hwrote (by omega) (Nat.le_refl _)),
        tables_single hmain₁ (hwrote.backupTableBa.trans hbackup) hlo hlt (by omega) (by omega) hp₁,
        fun _ => ⟨stop, hmain₁.symm ▸ hp₁⟩, fun _ => hset.wrote hu hwrote (by omega) (by omega)⟩
    · dsimp only
      have hwrote := wrote_of_write hw
      obtain ⟨h₁, h₂, h₃, hp'⟩ := live_of_write hacc hw
      have htop₁ := hwrote.mappingBlocksTopBa
      have hu₁ := (hu.trans (Updated.of_wrote hwrote (by omega) (Nat.le_refl _))).trans
        (Updated.moveTables s₁ s₁.tbl.mainTableBa start' stop')
      have hset' := hset.wrote hu hwrote (by omega) (by omega)
      have hset₁ : Settled lo s₀ (moveTables s₁ s₁.tbl.mainTableBa start' stop') := hset'
      -- the gap that is erased lies between the two tables
      have herase := nmbmEraseRange_wrote (d := d) dev
        (moveTables s₁ s₁.tbl.mainTableBa start' stop') stop start'
      have hp₁ := hP hwrote (Or.inl hnext) hp
      have hp₂ := hP herase (Or.inl (Nat.le_refl _)) hp₁
      have hp₂' := hP herase (Or.inr (Nat.le_refl _)) hp'
      have hmain₂ := herase.mainTableBa.trans (hwrote.mainTableBa.trans hmain)
      have hbackup₂ : _ = start' := herase.backupTableBa
      have hmap₂ : _ = stop' := herase.mappingBlocksBa
      have htop₂ : _ = s₁.tbl.mappingBlocksTopBa := herase.mappingBlocksTopBa
      refine ⟨hu₁.trans (Updated.of_wrote herase (by omega) ?_),
        tables_pair hmain₂ hbackup₂ hlo hlt (by omega) h₂ (by omega) (by omega) hp₂ hp₂',
        fun _ => ⟨stop, hmain₂.symm ▸ hp₂⟩, fun _ => hset₁.wrote hu₁ herase (by omega) (by omega)⟩
      show start' ≤ s₁.tbl.mappingBlocksTopBa
      omega

/-- `nmbm_rebuild_info_table`. -/
theorem nmbmRebuildInfoTable_rewritten (hP : Framed d P) (hacc : Accepts d P s.tbl.infoTableCache)
    (hmgmt : lo ≤ s.tbl.mgmtStartBa) (htop : lo ≤ s.tbl.mappingBlocksTopBa) :
    Rewritten d lo P s (nmbmRebuildInfoTable d dev s).1 (nmbmRebuildInfoTable d dev s).2 := by
  unfold nmbmRebuildInfoTable
  have hu₀ : Updated d lo s (moveTables s 0 0 s.tbl.mappingBlocksTopBa) := Updated.moveTables s _ _ _
  dsimp only
  rcases hw : nmbmWriteInfoTable d dev (moveTables s 0 0 s.tbl.mappingBlocksTopBa)
    (moveTables s 0 0 s.tbl.mappingBlocksTopBa).tbl.mgmtStartBa
    (moveTables s 0 0 s.tbl.mappingBlocksTopBa).tbl.mappingBlocksTopBa with ⟨_ | ⟨start, stop⟩, s₁⟩
  · -- no table at all
    have hwrote := wrote_of_write hw
    have hu₁ := hu₀.trans (Updated.of_wrote hwrote hmgmt (Nat.le_refl _))
    have hmap : s₁.tbl.mappingBlocksBa = s.tbl.mappingBlocksTopBa := hwrote.mappingBlocksBa
    have htop₁ := hu₁.top
    refine ⟨hu₁.trans (Updated.protect s₁), ⟨?_, ?_, fun h => absurd hwrote.mainTableBa h,
      fun h => absurd hwrote.backupTableBa h⟩, fun h => absurd h (by simp), fun h => absurd h (by simp)⟩
    · show lo ≤ s₁.tbl.mappingBlocksBa
      omega
    · show s₁.tbl.mappingBlocksBa ≤ s₁.tbl.mappingBlocksTopBa
      omega
  · have hwrote := wrote_of_write hw
    obtain ⟨h₁, h₂, h₃, hp⟩ :=
      live_of_write (P := P) (s := moveTables s 0 0 s.tbl.mappingBlocksTopBa) hacc hw
    have hu₁ := (hu₀.trans (Updated.of_wrote hwrote hmgmt (Nat.le_refl _))).trans
      (Updated.moveTables s₁ start 0 stop)
    refine writeBackupBehind_rewritten hP ?_ (hu₁.trans (Updated.markClean _))
      (settled_markClean lo s _) rfl rfl rfl (Nat.le_trans hmgmt h₁) h₂ ?_ hp
    · show Accepts d P s₁.tbl.infoTableCache
      rw [hwrote.infoTableCache]
      exact hacc
    · show stop ≤ s₁.tbl.mappingBlocksTopBa
      rw [hwrote.mappingBlocksTopBa]
      exact h₃

/-- The backup table takes the place of the main table. -/
theorem backupToMain_rewritten (hu : Updated d lo s₀ s) (hset : Settled lo s₀ s)
    (hlo : lo ≤ s.tbl.backupTableBa) (hlive : Live P s s.tbl.backupTableBa s.tbl.mappingBlocksBa)
    (hmap : s.tbl.mappingBlocksBa ≤ s.tbl.mappingBlocksTopBa) :
    Rewritten d lo P s₀ true (backupToMain s) := by
  obtain ⟨stop, hlt, hle, hp⟩ := hlive
  exact ⟨hu.trans (Updated.moveTables s _ _ _), tables_single rfl rfl hlo hlt hle hmap hp,
    fun _ => ⟨stop, hp⟩, fun _ => hset⟩

/-- `nmbm_rescue_main_info_table`. -/
theorem nmbmRescueMainInfoTable_rewritten (hP : Framed d P)
    (hacc : Accepts d P s.tbl.infoTableCache) (hu : Updated d lo s₀ s) (hset : Settled lo s₀ s)
    (hmgmt : lo ≤ s.tbl.mgmtStartBa) (hlo : lo ≤ s.tbl.backupTableBa)
    (hlive : Live P s s.tbl.backupTableBa s.tbl.mappingBlocksBa)
    (hmap : s.tbl.mappingBlocksBa ≤ s.tbl.mappingBlocksTopBa) :
    Rewritten d lo P s₀ (nmbmRescueMainInfoTable d dev s).1 (nmbmRescueMainInfoTable d dev s).2 := by
  have hlo' : lo ≤ s.tbl.mappingBlocksBa := Nat.le_of_lt (Nat.lt_of_le_of_lt hlo hlive.lt)
  have htop := hu.top
  unfold nmbmRescueMainInfoTable
  rcases hres : nmbmTryReserveBlocks d s.tbl s.tbl.mappingBlocksBa d.infoTableSpareBlocks
    (lastTableStart d s) with _ | writeBa
  · exact backupToMain_rewritten hu hset hlo hlive hmap
  · have hge := nmbmTryReserveBlocks_ge s.tbl d _ _ _ hres
    dsimp only
    rcases hdown : writeDownward d dev (writeBa + 1 - s.tbl.mappingBlocksBa) writeBa s with
      ⟨_ | ⟨tmpStart, tmpStop⟩, s₁⟩
    · -- no temporary table; the spare blocks that were tried lie above the backup table
      obtain ⟨hwrote, -⟩ := writeDownward_spec s.tbl.mappingBlocksBa _ _ s hacc (by omega) hdown
      have hlive₁ := hlive.frame hP hwrote (Or.inl (Nat.le_refl _))
      rw [← hwrote.backupTableBa, ← hwrote.mappingBlocksBa] at hlive₁
      rw [← hwrote.backupTableBa] at hlo
      rw [← hwrote.mappingBlocksBa, ← hwrote.mappingBlocksTopBa] at hmap
      exact backupToMain_rewritten (hu.trans (Updated.of_wrote hwrote hlo' (Nat.le_refl _)))
        (hset.wrote hu hwrote hlo' (by omega)) hlo hlive₁ hmap
    · obtain ⟨hwrote, hsome⟩ :=
        writeDownward_spec s.tbl.mappingBlocksBa _ _ s hacc (by omega) hdown
      obtain ⟨h₁, h₂, h₃, hp⟩ := hsome tmpStart tmpStop rfl
      have htop₁ := hwrote.mappingBlocksTopBa
      have hmgmt₁ := hwrote.mgmtStartBa
      have hu₁ := hu.trans (Updated.of_wrote hwrote hlo' (Nat.le_refl _))
      dsimp only
      rcases hw : nmbmWriteInfoTable d dev s₁ s₁.tbl.mgmtStartBa tmpStart with ⟨_ | ⟨start, stop⟩, s₂⟩
      · have hwrote' := wrote_of_write hw
        have htop₂ := hwrote'.mappingBlocksTopBa
        have hp₂ := hP hwrote' (Or.inr (Nat.le_refl _)) hp
        have hu₂ := hu₁.trans (Updated.of_wrote hwrote' (by omega) (by omega))
        have hlo₂ : lo ≤ tmpStart := Nat.le_trans hlo' h₁
        refine ⟨(hu₂.trans (Updated.moveTables s₂ _ _ _)).trans (Updated.markClean _),
          tables_single rfl rfl hlo₂ h₂ (Nat.le_refl _) ?_ hp₂, fun _ => ⟨tmpStop, hp₂⟩,
          fun _ => settled_markClean lo s₀ _⟩
        show tmpStop ≤ s₂.tbl.mappingBlocksTopBa
        omega
      · have hacc₁ : Accepts d P s₁.tbl.infoTableCache := by
          rw [hwrote.infoTableCache]
          exact hacc
        have hwrote' := wrote_of_write hw
        have htop₂ := hwrote'.mappingBlocksTopBa
        obtain ⟨h₄, h₅, h₆, hp'⟩ := live_of_write hacc₁ hw
        have hp₂ := hP hwrote' (Or.inr (Nat.le_refl _)) hp
        have hu₂ := hu₁.trans (Updated.of_wrote hwrote' (by omega) (by omega))
        have hlo₂ : lo ≤ start := by omega
        refine ⟨(hu₂.trans (Updated.moveTables s₂ _ _ _)).trans (Updated.markClean _),
          tables_pair rfl rfl hlo₂ h₅ h₆ h₂ (Nat.le_refl _) ?_ hp' hp₂, fun _ => ⟨stop, hp'⟩,
          fun _ => settled_markClean lo s₀ _⟩
        show tmpStop ≤ s₂.tbl.mappingBlocksTopBa
        omega

/-- `write_main_table`, below a backup table that was just written or with no
backup table. `limit` is where that table begins, or the spare blocks in use. -/
theorem writeMainTable_rewritten {limit : Nat} (hP : Framed d P)
    (hacc : Accepts d P s.tbl.infoTableCache) (hu : Updated d lo s₀ s)
    (hmgmt : lo ≤ s.tbl.mgmtStartBa) (htop : lo ≤ s.tbl.mappingBlocksTopBa)
    (hmain : s.tbl.mainTableBa ≠ 0 → lo ≤ s.tbl.mainTableBa)
    (hbackup : s.tbl.backupTableBa = 0 ∧ limit = s.tbl.mappingBlocksTopBa ∨
      s.tbl.backupTableBa ≠ 0 ∧ limit = s.tbl.backupTableBa ∧ lo ≤ limit ∧ Settled lo s₀ s ∧
        Live P s limit s.tbl.mappingBlocksBa ∧ s.tbl.mappingBlocksBa ≤ s.tbl.mappingBlocksTopBa) :
    Rewritten d lo P s₀ (writeMainTable d dev s limit).1 (writeMainTable d dev s limit).2 := by
  unfold writeMainTable
  split
  · exact (nmbmRebuildInfoTable_rewritten hP hacc hmgmt htop).of_updated hu
  · next h0 =>
    have hmain' := hmain h0
    have htop₀ := hu.top
    have hlim : limit ≤ s.tbl.mappingBlocksTopBa := by
      rcases hbackup with ⟨-, hl⟩ | ⟨-, hl, -, -, hlive, hmap⟩
      · omega
      · have := hlive.lt
        omega
    rcases hw : nmbmWriteInfoTable d dev s s.tbl.mainTableBa limit with ⟨_ | ⟨start, stop⟩, s₁⟩
    · have hwrote := wrote_of_write hw
      have hu₁ := hu.trans (Updated.of_wrote hwrote hmain' hlim)
      have hacc₁ : Accepts d P s₁.tbl.infoTableCache := by
        rw [hwrote.infoTableCache]
        exact hacc
      have htop₁ := hwrote.mappingBlocksTopBa
      have hmgmt₁ := hwrote.mgmtStartBa
      have hmap₁ := hwrote.mappingBlocksBa
      have hbackup₁ := hwrote.backupTableBa
      dsimp only
      rcases hbackup with ⟨hb, -⟩ | ⟨hb, hl, hlo, hset, hlive, hmap⟩
      · rw [if_pos (by omega)]
        exact (nmbmRebuildInfoTable_rewritten hP hacc₁ (by omega) (by omega)).of_updated hu₁
      · rw [if_neg (by omega)]
        have hlive₁ := hlive.frame hP hwrote (Or.inr (Nat.le_refl _))
        rw [hl, ← hbackup₁, ← hmap₁] at hlive₁
        exact nmbmRescueMainInfoTable_rewritten hP hacc₁ hu₁ (hset.wrote hu hwrote hmain' (by omega))
          (by omega) (by omega) hlive₁ (by omega)
    · have hwrote := wrote_of_write hw
      obtain ⟨h₁, h₂, h₃, hp⟩ := live_of_write hacc hw
      have hu₁ := hu.trans (Updated.of_wrote hwrote hmain' hlim)
      have hlo₁ : lo ≤ start := Nat.le_trans hmain' h₁
      have htop₁ := hwrote.mappingBlocksTopBa
      have hmap₁ := hwrote.mappingBlocksBa
      have hbackup₁ := hwrote.backupTableBa
      dsimp only
      refine ⟨(hu₁.trans (Updated.moveTables s₁ _ _ _)).trans (Updated.markClean _), ?_,
        fun _ => ⟨stop, hp⟩, fun _ => settled_markClean lo s₀ _⟩
      rcases hbackup with ⟨hb, -⟩ | ⟨hb, hl, hlo, hset, hlive, hmap⟩
      · rw [if_pos (by omega)]
        refine tables_single rfl (hbackup₁.trans hb) hlo₁ h₂ (Nat.le_refl _) ?_ hp
        show stop ≤ s₁.tbl.mappingBlocksTopBa
        omega
      · rw [if_neg (by omega)]
        obtain ⟨stop', hlt', hle', hp'⟩ := hlive.frame hP hwrote (Or.inr (Nat.le_refl _))
        refine tables_pair rfl (hbackup₁.trans hl.symm) hlo₁ h₂ h₃ hlt' ?_ ?_ hp hp'
        · show stop' ≤ s₁.tbl.mappingBlocksBa
          omega
        · show s₁.tbl.mappingBlocksBa ≤ s₁.tbl.mappingBlocksTopBa
          omega

/-- A round of `nmbm_update_info_table`, from the state with the new image in the
cache. -/
theorem writeBothTables_rewritten (hP : Framed d P) (hacc : Accepts d P s.tbl.infoTableCache)
    (hmgmt : lo ≤ s.tbl.mgmtStartBa) (htop : lo ≤ s.tbl.mappingBlocksTopBa)
    (hmain : s.tbl.mainTableBa ≠ 0 → lo ≤ s.tbl.mainTableBa)
    (hbackup : s.tbl.backupTableBa ≠ 0 → lo ≤ s.tbl.backupTableBa) :
    Rewritten d lo P s (writeBothTables d dev s).1 (writeBothTables d dev s).2 := by
  unfold writeBothTables
  split
  · next hb =>
    exact writeMainTable_rewritten hP hacc (Updated.refl s) hmgmt htop hmain (Or.inl ⟨hb, rfl⟩)
  · next hb =>
    have hlo := hbackup hb
    rcases hw : nmbmWriteInfoTable d dev s s.tbl.backupTableBa s.tbl.mappingBlocksTopBa with
      ⟨_ | ⟨start, stop⟩, s₁⟩
    · have hwrote := wrote_of_write hw
      have hmgmt₁ := hwrote.mgmtStartBa
      have htop₁ := hwrote.mappingBlocksTopBa
      have hmain₁ := hwrote.mainTableBa
      dsimp only
      refine writeMainTable_rewritten hP ?_ ((Updated.of_wrote hwrote hlo (Nat.le_refl _)).trans
        (Updated.moveTables s₁ _ _ _)) ?_ ?_ ?_ (Or.inl ⟨rfl, rfl⟩)
      · show Accepts d P s₁.tbl.infoTableCache
        rw [hwrote.infoTableCache]
        exact hacc
      · show lo ≤ s₁.tbl.mgmtStartBa
        omega
      · show lo ≤ s₁.tbl.mappingBlocksTopBa
        omega
      · show s₁.tbl.mainTableBa ≠ 0 → lo ≤ s₁.tbl.mainTableBa
        rw [hmain₁]
        exact hmain
    · have hwrote := wrote_of_write hw
      obtain ⟨h₁, h₂, h₃, hp⟩ := live_of_write hacc hw
      have hmgmt₁ := hwrote.mgmtStartBa
      have htop₁ := hwrote.mappingBlocksTopBa
      have hmain₁ := hwrote.mainTableBa
      dsimp only
      refine writeMainTable_rewritten hP ?_ (((Updated.of_wrote hwrote hlo (Nat.le_refl _)).trans
        (Updated.moveTables s₁ _ _ _)).trans (Updated.markClean _)) ?_ ?_ ?_ (Or.inr ⟨?_, rfl, ?_,
          settled_markClean lo s _, ⟨stop, h₂, Nat.le_refl _, hp⟩, ?_⟩)
      · show Accepts d P s₁.tbl.infoTableCache
        rw [hwrote.infoTableCache]
        exact hacc
      · show lo ≤ s₁.tbl.mgmtStartBa
        omega
      · show lo ≤ s₁.tbl.mappingBlocksTopBa
        omega
      · show s₁.tbl.mainTableBa ≠ 0 → lo ≤ s₁.tbl.mainTableBa
        rw [hmain₁]
        exact hmain
      · show start ≠ 0
        omega
      · omega
      · show stop ≤ s₁.tbl.mappingBlocksTopBa
        omega

end Routines

end Lede.Nmbm
