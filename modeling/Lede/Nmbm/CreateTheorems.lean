/-
Lede.Nmbm.CreateTheorems — walks down over good blocks, and what `nmbm_create_new` signs.

The search for the place of the signature and the one for a spare block are the same walk
(`nmbmBlockWalkDesc`). When the signature is written, the mapping is the one that was built from
the scan of the chip, and nothing else of the instance has changed (`Signed`).
-/
import Lede.Nmbm.RegionTheorems

namespace Lede.Nmbm

open Lede.Nand Lede.Bmt Lede.Lib

/-! ## Walks down -/

section Walks

variable {d : NmbmDesc}

/-- A walk down from a good block ends right there. -/
theorem nmbmBlockWalkDesc_self {ni : NmbmInstance} {ba limit : Nat} (hg : isGood ni ba = true)
    (hba : ba < d.blockCount) (hlt : limit < ba) : nmbmBlockWalkDesc d ni ba 0 limit = some ba := by
  unfold nmbmBlockWalkDesc
  dsimp only
  rw [if_neg (by omega)]
  obtain ⟨n, hn⟩ : ∃ n, ba - limit = n + 1 := ⟨ba - limit - 1, by omega⟩
  rw [hn, walkDescLoop, if_pos hg]
  rfl

theorem walkDescLoop_range (ni : NmbmInstance) : ∀ (n ba : Nat) (count : Int) {nba : Nat}, n ≤ ba →
    walkDescLoop ni n ba count = some nba → ba - n < nba ∧ nba ≤ ba
  | 0, _, _, _, _, h => absurd h (by simp [walkDescLoop])
  | n + 1, ba, count, nba, hn, h => by
      rw [walkDescLoop] at h
      generalize (if isGood ni ba then count - 1 else count) = nblock at h
      split at h
      · obtain rfl := Option.some.inj h
        omega
      · have ih := walkDescLoop_range ni n (ba - 1) _ (by omega) h
        omega

/-- A walk down over one good block ends strictly between its two ends. -/
theorem nmbmBlockWalkDesc_one {ni : NmbmInstance} {ba limit nba : Nat} (hba : ba < d.blockCount)
    (h : nmbmBlockWalkDesc d ni ba 1 limit = some nba) : limit < nba ∧ nba < ba := by
  unfold nmbmBlockWalkDesc at h
  dsimp only at h
  by_cases hlim : limit ≥ d.blockCount
  · rw [if_pos hlim, show ba - (d.blockCount - 1) = 0 by omega] at h
    exact absurd h (by simp [walkDescLoop])
  · rw [if_neg hlim] at h
    cases hn : ba - limit with
    | zero =>
      rw [hn] at h
      exact absurd h (by simp [walkDescLoop])
    | succ n =>
      rw [hn, walkDescLoop] at h
      have hnb : ¬ (if isGood ni ba = true then (1 : Int) - 1 else 1) < 0 := by
        split
        · omega
        · omega
      simp only [hnb, if_false] at h
      have ih := walkDescLoop_range ni n (ba - 1) _ (by omega) h
      omega

end Walks

/-! ## A new chip -/

section New

variable {d : NmbmDesc} {dev : LowerDev} {s s' : Attached}

/-- The chip with the bad blocks in the table, before the mapping is built. -/
def scannedNew (d : NmbmDesc) (dev : LowerDev) (s : Attached) : Attached :=
  nmbmScanBadblocks d dev { s with tbl := { s.tbl with mgmtStartBa := newMgmtStart d } }

/-- What `nmbm_create_new` hands to `nmbm_create_info_table`. -/
structure Signed (d : NmbmDesc) (s scanned s' : Attached) : Prop where
  mgmt : s'.tbl.mgmtStartBa = newMgmtStart d
  scannedMgmt : scanned.tbl.mgmtStartBa = newMgmtStart d
  dbc : s'.tbl.dataBlockCount = (nmbmBuildMappingTable d scanned.tbl).dataBlockCount
  map : s'.tbl.blockMapping = (nmbmBuildMappingTable d scanned.tbl).blockMapping
  hdr : s'.tbl.infoTable = s.tbl.infoTable
  signature : s'.tbl.signature = signatureImage d (newMgmtStart d)
  sig_gt : newMgmtStart d < s'.tbl.signatureBa
  sig_lt : s'.tbl.signatureBa < d.blockCount

theorem signNew_signed (hok : signNew d dev s = (true, s')) : Signed d s (scannedNew d dev s) s' := by
  unfold signNew at hok
  dsimp only at hok
  unfold scannedNew
  have hscan := (scanLoop_rest (d := d) dev d.blockCount 0
    { s with tbl := { s.tbl with mgmtStartBa := newMgmtStart d } }).1
  change (nmbmScanBadblocks d dev _).tbl = _ at hscan
  generalize nmbmScanBadblocks d dev { s with tbl := { s.tbl with mgmtStartBa := newMgmtStart d } } = s₁
    at hscan hok ⊢
  have hmgmt₁ : s₁.tbl.mgmtStartBa = newMgmtStart d := by rw [hscan]
  have hhdr₁ : s₁.tbl.infoTable = s.tbl.infoTable := by rw [hscan]
  -- what the signature is written over
  generalize hs₂ : ({ s₁ with tbl := { nmbmBuildMappingTable d s₁.tbl with
    signature := signatureImage d s₁.tbl.mgmtStartBa } } : Attached) = s₂ at hok
  have hmgmt₂ : s₂.tbl.mgmtStartBa = newMgmtStart d := by
    rw [← hs₂, ← hmgmt₁]
    rfl
  have hbuild : (nmbmBuildMappingTable d s₁.tbl).mgmtStartBa = newMgmtStart d := hmgmt₁
  rw [hbuild, hmgmt₁] at hok
  obtain ⟨hw, hrange⟩ := nmbmWriteSignature_wrote (d := d) dev s₂ (newMgmtStart d)
    (signatureImage d (newMgmtStart d))
  rcases hsig : nmbmWriteSignature d dev s₂ (newMgmtStart d) (signatureImage d (newMgmtStart d))
    with ⟨_ | ba, s₃⟩
  · rw [hsig] at hok
    exact absurd hok (by simp)
  · rw [hsig] at hok hw hrange
    obtain rfl := (Prod.mk.inj hok).2
    obtain ⟨h₁, h₂⟩ := hrange ba rfl
    refine ⟨hw.mgmtStartBa.trans hmgmt₂, hmgmt₁, ?_, ?_, ?_, ?_, h₁, h₂⟩
    · show s₃.tbl.dataBlockCount = _
      rw [hw.rest, ← hs₂]
    · show s₃.tbl.blockMapping = _
      rw [hw.rest, ← hs₂]
    · show s₃.tbl.infoTable = _
      rw [hw.infoTable, ← hhdr₁, ← hs₂]
      rfl
    · show s₃.tbl.signature = _
      rw [hw.signature, ← hs₂, ← hmgmt₁]

end New

end Lede.Nmbm
