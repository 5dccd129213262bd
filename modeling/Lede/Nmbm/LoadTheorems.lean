/-
Lede.Nmbm.LoadTheorems — what `nmbm_load_info_table` finds on a chip.

The loader takes a table from exactly `size2blk(info_table_size)` blocks in a row
(`windowImage`). It may reject a window for many reasons, a read error among them; what it
loads is the window, whatever the reads did (`tryLoadLoop_window`), and the mapping in it lies
in the data area or behind the table (`TopOf`).
-/
import Lede.Nmbm.CreateTheorems

namespace Lede.Nmbm

open Lede.Nand Lede.Bmt Lede.Lib

/-! ## Windows -/

/-- The bytes of the blocks from `w` on. -/
def windowImage (d : NmbmDesc) (fl : Flash) (w : Nat) : Nat → UInt8 :=
  fun a => blockByte d fl (w + a / d.blkSize) (a % d.blkSize)

section Window

variable {d : NmbmDesc} {fl fl' : Flash}

theorem windowImage_congr (h : fl'.page = fl.page) (w : Nat) :
    windowImage d fl' w = windowImage d fl w := by
  unfold windowImage blockByte pageByte
  rw [h]

theorem blkSize_ge (d : NmbmDesc) : 512 ≤ d.blkSize :=
  Nat.pow_le_pow_right (n := 2) (by decide) (Nat.le_trans d.pgShift_ge d.pgShift_le)

theorem infoBlks_mul_lt (d : NmbmDesc) : d.infoBlks * d.blkSize < d.infoTableSize + d.blkSize := by
  have hle := Nat.div_mul_le_self (d.infoTableSize + d.blkSize - 1) d.blkSize
  have hpos := d.blkSize_pos
  unfold NmbmDesc.infoBlks NmbmDesc.size2blk
  omega

theorem le_infoBlks_mul (d : NmbmDesc) : d.infoTableSize ≤ d.infoBlks * d.blkSize := by
  have hdiv := Nat.div_add_mod (d.infoTableSize + d.blkSize - 1) d.blkSize
  have hmod := Nat.mod_lt (d.infoTableSize + d.blkSize - 1) d.blkSize_pos
  have hpos := d.blkSize_pos
  unfold NmbmDesc.infoBlks NmbmDesc.size2blk
  rw [Nat.mul_comm]
  omega

theorem infoBlks_pos (d : NmbmDesc) : 0 < d.infoBlks := by
  rcases Nat.eq_zero_or_pos d.infoBlks with h | h
  · have hle := le_infoBlks_mul d
    have hpos := infoTableSize_pos (d := d)
    rw [h] at hle
    omega
  · exact h

theorem nmbmCheckInfoTableHeader_congr {m m' : Nat → UInt8} (h : ∀ a < 28, m a = m' a) :
    nmbmCheckInfoTableHeader d m = nmbmCheckInfoTableHeader d m' := by
  unfold nmbmCheckInfoTableHeader
  rw [get32_congr fun i hi => h (0 + i) (by omega), get32_congr fun i hi => h (8 + i) (by omega),
    get32_congr fun i hi => h (20 + i) (by omega), get32_congr fun i hi => h (24 + i) (by omega)]

theorem nmbmCheckHeader_congr {m m' : Nat → UInt8} {size : Nat} (hsize : 16 ≤ size)
    (h : ∀ a < size, m a = m' a) : nmbmCheckHeader m size = nmbmCheckHeader m' size := by
  have hlen : get32 m 8 = get32 m' 8 := get32_congr fun i hi => h (8 + i) (by omega)
  have hsum : get32 m 12 = get32 m' 12 := get32_congr fun i hi => h (12 + i) (by omega)
  have hclear : ∀ i < 16, clearChecksum m (0 + i) = clearChecksum m' (0 + i) := by
    intro i hi
    unfold clearChecksum
    by_cases ha : 12 ≤ 0 + i ∧ 0 + i < 12 + 4
    · rw [put32, put32, if_pos ha, if_pos ha]
    · rw [put32_of_not_mem _ _ ha, put32_of_not_mem _ _ ha]
      exact h _ (by omega)
  unfold nmbmCheckHeader
  rw [hlen, hsum, crc32Le_congr 0 hclear]
  split
  · rfl
  · next hle =>
    have htail := @crc32Le_congr (crc32Le 0 (clearChecksum m') 0 16) m m' 16 (get32 m' 8 - 16)
    dsimp only
    split
    · rw [htail fun i hi => h _ (by omega)]
    · rfl

/-- An image is read from its bytes only. -/
theorem ImageOf.congr {img img' : Nat → UInt8} {state map : Nat → BitVec 32} {wc : Nat}
    (h : ImageOf d img state map wc) (hb : ∀ a < d.infoTableSize, img' a = img a) :
    ImageOf d img' state map wc := by
  have h₁ := stateTableOff_ge d
  have h₂ := mappingTableOff_ge d
  have h₃ := infoTableSize_ge d
  have hst : d.stateTableSize = d.stateWords * 4 := rfl
  have hmt : d.mappingTableSize = d.blockCount * 4 := rfl
  constructor
  · rw [nmbmCheckInfoTableHeader_congr fun a ha => hb a (by omega)]
    exact h.hdr
  · rw [nmbmCheckHeader_congr (by omega) hb]
    exact h.crc
  · rw [get32_congr fun i hi => hb (20 + i) (by omega)]
    exact h.stateOff
  · rw [get32_congr fun i hi => hb (24 + i) (by omega)]
    exact h.mapOff
  · rw [get32_congr fun i hi => hb (16 + i) (by omega)]
    exact h.count
  · intro i hi
    rw [← h.state i hi]
    exact getWord_congr fun j hj => hb _ (by omega)
  · intro i hi
    rw [← h.map i hi]
    exact getWord_congr fun j hj => hb _ (by omega)

end Window

/-! ## Reading a window -/

/-- A probe reads the chip; in memory it leaves the cache and marks for blocks that
could not be read. -/
structure Probed (s s' : Attached) : Prop where
  page : s'.flash.page = s.flash.page
  log : s'.flash.log = s.flash.log
  rest : s'.tbl = { s.tbl with
    infoTableCache := s'.tbl.infoTableCache
    blockState := s'.tbl.blockState
    blockStateChanged := s'.tbl.blockStateChanged }

namespace Probed

variable {s s' s'' : Attached}

theorem refl (s : Attached) : Probed s s := ⟨rfl, rfl, rfl⟩

theorem trans (h₁ : Probed s s') (h₂ : Probed s' s'') : Probed s s'' :=
  ⟨h₂.page.trans h₁.page, h₂.log.trans h₁.log, by rw [h₂.rest, h₁.rest]⟩

theorem of_flash {fl : Flash} (hp : fl.page = s.flash.page) (hl : fl.log = s.flash.log) :
    Probed s (withFlash s fl) := ⟨hp, hl, rfl⟩

theorem setBad (s : Attached) (ba : Nat) : Probed s (setBad s ba) := ⟨rfl, rfl, rfl⟩

theorem setCache (s : Attached) (cache : Nat → UInt8) :
    Probed s { s with tbl := { s.tbl with infoTableCache := cache } } := ⟨rfl, rfl, rfl⟩

end Probed

section TryLoad

variable {d : NmbmDesc} {dev : LowerDev}

/-- The cache with the piece of block `ba` that belongs at `off`. -/
def loadChunk (d : NmbmDesc) (fl : Flash) (ba off chunk : Nat) (cache : Nat → UInt8) : Nat → UInt8 :=
  fun a => if off ≤ a ∧ a < off + chunk then blockByte d fl ba (a - off) else cache a

/-- One step of the block loop of `nmbm_try_load_info_table`: the block is passed
over, or it is read and the header in it refused, or it is read. -/
theorem tryLoadLoop_succ (n ba : Nat) {rest : Nat} (start : Option Nat) (cache : Nat → UInt8)
    (s : Attached) (hrest : rest ≠ 0) :
    ∃ s₁, Probed s s₁ ∧
      (tryLoadLoop d dev (n + 1) ba rest start cache s = tryLoadLoop d dev n (ba + 1) rest start cache s₁ ∨
        tryLoadLoop d dev (n + 1) ba rest start cache s = (none, s₁) ∨
        ((start = none → nmbmCheckInfoTableHeader d (fun a => loadChunk d s.flash ba
            (d.infoTableSize - rest) (min rest d.blkSize) cache (d.infoTableSize - rest + a)) = true) ∧
          tryLoadLoop d dev (n + 1) ba rest start cache s
            = tryLoadLoop d dev n (ba + 1) (rest - min rest d.blkSize) (some (start.getD ba))
                (loadChunk d s.flash ba (d.infoTableSize - rest) (min rest d.blkSize) cache) s₁)) := by
  rw [tryLoadLoop, if_neg hrest]
  split
  · exact ⟨s, Probed.refl s, Or.inl rfl⟩
  · have hask : Probed s (withFlash s (lowerIsbad dev s.flash ba).2) := Probed.of_flash rfl rfl
    dsimp only
    split
    · exact ⟨_, hask.trans (Probed.setBad _ ba), Or.inl rfl⟩
    · obtain ⟨hp, hl⟩ := nmbnReadData_flash d dev (withFlash s (lowerIsbad dev s.flash ba).2).flash
        (d.blkPg ba) (min rest d.blkSize)
      have hread := hask.trans (Probed.of_flash hp hl)
      split
      · exact ⟨_, hread.trans (Probed.setBad _ ba), Or.inl rfl⟩
      · -- what was read is what the block held
        have hbytes : ∀ i, blockByte d (withFlash (withFlash s (lowerIsbad dev s.flash ba).2)
            (nmbnReadData d dev (withFlash s (lowerIsbad dev s.flash ba).2).flash (d.blkPg ba)
              (min rest d.blkSize)).2).flash ba i = blockByte d s.flash ba i := by
          intro i
          unfold blockByte pageByte
          rw [hread.page]
        split
        · exact ⟨_, hread.trans (Probed.setCache _ _), Or.inr (Or.inl rfl)⟩
        · next hhdr =>
          refine ⟨_, hread, Or.inr (Or.inr ⟨fun hs => ?_, ?_⟩)⟩
          · simp only [hbytes] at hhdr
            rw [hs] at hhdr
            simpa [loadChunk] using hhdr
          · simp only [hbytes]
            rfl

theorem tryLoadLoop_probed : ∀ (n ba rest : Nat) (start : Option Nat) (cache : Nat → UInt8)
    (s : Attached), Probed s (tryLoadLoop d dev n ba rest start cache s).2
  | 0, _, _, _, cache, s => Probed.setCache s cache
  | n + 1, ba, rest, start, cache, s => by
      by_cases hrest : rest = 0
      · rw [tryLoadLoop, if_pos hrest]
        exact Probed.setCache s cache
      · obtain ⟨s₁, hp, heq | heq | ⟨-, heq⟩⟩ :=
          @tryLoadLoop_succ d dev n ba rest start cache s hrest
        · rw [heq]
          exact hp.trans (tryLoadLoop_probed n (ba + 1) rest start cache s₁)
        · rw [heq]
          exact hp
        · rw [heq]
          exact hp.trans (tryLoadLoop_probed n (ba + 1) _ _ _ s₁)

/-- A table needs a block for each `blk_size` bytes that are left. -/
theorem tryLoadLoop_le : ∀ (n ba rest : Nat) (start : Option Nat) (cache : Nat → UInt8)
    (s : Attached) {r : Nat × Nat × (Nat → UInt8)},
    (tryLoadLoop d dev n ba rest start cache s).1 = some r → rest ≤ n * d.blkSize
  | 0, ba, rest, start, cache, s, r, h => by
      rw [tryLoadLoop] at h
      by_cases hrest : rest = 0
      · omega
      · rw [if_neg hrest] at h
        exact absurd h (by simp)
  | n + 1, ba, rest, start, cache, s, r, h => by
      by_cases hrest : rest = 0
      · omega
      · rw [Nat.succ_mul]
        obtain ⟨s₁, -, heq | heq | ⟨-, heq⟩⟩ :=
          @tryLoadLoop_succ d dev n ba rest start cache s hrest
        · rw [heq] at h
          have ih := tryLoadLoop_le n (ba + 1) rest start cache s₁ h
          omega
        · rw [heq] at h
          exact absurd h (by simp)
        · rw [heq] at h
          have ih := tryLoadLoop_le n (ba + 1) _ _ _ s₁ h
          omega

/-- A table that was read lies in the window: with `j` blocks of it read, no block
may be passed over any more. -/
theorem tryLoadLoop_window (w : Nat) : ∀ (n j : Nat) (cache : Nat → UInt8) (s : Attached)
    {start stop : Nat} {m : Nat → UInt8}, n + j = d.infoBlks →
    (∀ a < j * d.blkSize, a < d.infoTableSize → cache a = windowImage d s.flash w a) →
    (0 < j → nmbmCheckInfoTableHeader d (windowImage d s.flash w) = true) →
    (tryLoadLoop d dev n (w + j) (d.infoTableSize - j * d.blkSize) (if j = 0 then none else some w)
      cache s).1 = some (start, stop, m) →
    start = w ∧ stop = w + d.infoBlks ∧ (∀ a < d.infoTableSize, m a = windowImage d s.flash w a) ∧
      nmbmCheckInfoTableHeader d (windowImage d s.flash w) = true
  | 0, j, cache, s, start, stop, m, hj, hcache, hhdr, h => by
      have hk := le_infoBlks_mul d
      have hpos := infoBlks_pos d
      rw [Nat.zero_add] at hj
      subst hj
      rw [tryLoadLoop, if_pos (by omega), if_neg (by omega)] at h
      obtain ⟨rfl, hrest⟩ := Prod.mk.inj (Option.some.inj h)
      obtain ⟨rfl, rfl⟩ := Prod.mk.inj hrest
      exact ⟨rfl, rfl, fun a ha => hcache a (by omega) ha, hhdr hpos⟩
  | n + 1, j, cache, s, start, stop, m, hj, hcache, hhdr, h => by
      have hk := infoBlks_mul_lt d
      have hblk := blkSize_ge d
      have hsize : 32 ≤ d.infoTableSize := by
        have h₁ := stateTableOff_ge d
        have h₂ := mappingTableOff_ge d
        have h₃ := infoTableSize_ge d
        omega
      have hnj : (n + j) * d.blkSize + d.blkSize = d.infoBlks * d.blkSize := by
        rw [← hj, show n + 1 + j = n + j + 1 by omega, Nat.succ_mul]
      have hadd : (n + j) * d.blkSize = n * d.blkSize + j * d.blkSize := Nat.add_mul _ _ _
      obtain ⟨s₁, hp, heq | heq | ⟨hfirst, heq⟩⟩ :=
        @tryLoadLoop_succ d dev n (w + j) (d.infoTableSize - j * d.blkSize)
          (if j = 0 then none else some w) cache s (by omega)
      · rw [heq] at h
        have := tryLoadLoop_le n _ _ _ _ s₁ h
        omega
      · rw [heq] at h
        exact absurd h (by simp)
      · rw [heq] at h
        have hoff : d.infoTableSize - (d.infoTableSize - j * d.blkSize) = j * d.blkSize := by omega
        have hsucc : (j + 1) * d.blkSize = j * d.blkSize + d.blkSize := Nat.succ_mul _ _
        rw [hoff] at h hfirst
        -- the new piece is where the window has it
        have hpiece : ∀ a < (j + 1) * d.blkSize, a < d.infoTableSize →
            loadChunk d s.flash (w + j) (j * d.blkSize) (min (d.infoTableSize - j * d.blkSize) d.blkSize)
              cache a = windowImage d s.flash w a := by
          intro a ha hsz
          unfold loadChunk
          split
          · next hin =>
            have hdiv : a / d.blkSize = j := by
              rw [Nat.div_eq_iff d.blkSize_pos]
              omega
            have hmod : a % d.blkSize = a - j * d.blkSize := by
              have := Nat.div_add_mod a d.blkSize
              rw [hdiv, Nat.mul_comm] at this
              omega
            unfold windowImage
            rw [hdiv, hmod]
          · exact hcache a (by omega) hsz
        have hvalid : nmbmCheckInfoTableHeader d (windowImage d s.flash w) = true := by
          rcases Nat.eq_zero_or_pos j with hj0 | hj0
          · have hzero : j * d.blkSize = 0 := by rw [hj0, Nat.zero_mul]
            rw [← hfirst (if_pos hj0)]
            apply nmbmCheckInfoTableHeader_congr
            intro a ha
            rw [hpiece _ (by omega) (by omega), hzero, Nat.zero_add]
          · exact hhdr hj0
        have hstart : some ((if j = 0 then none else some w).getD (w + j))
            = (if j + 1 = 0 then none else some w) := by
          cases j with
          | zero => rfl
          | succ j => rfl
        have hrest : d.infoTableSize - j * d.blkSize - min (d.infoTableSize - j * d.blkSize) d.blkSize
            = d.infoTableSize - (j + 1) * d.blkSize := by omega
        have hwin := windowImage_congr (d := d) hp.page w
        rw [hstart, hrest, Nat.add_assoc] at h
        have ih := tryLoadLoop_window w n (j + 1) _ s₁ (by omega)
          (fun a ha hsz => by rw [hwin]; exact hpiece a ha hsz) (fun _ => by rw [hwin]; exact hvalid) h
        rw [hwin] at ih
        exact ih

end TryLoad

/-! ## Finding a table -/

/-- What the first check of `nmbm_check_info_table` lets pass, and the boundary it
reports: one below the lowest block above `stop` that is mapped. -/
structure TopOf (dbc sig stop top : Nat) (map : Nat → BitVec 32) : Prop where
  ok : ∀ i < dbc, ¬ (dbc ≤ (map i).toNat ∧ (map i).toNat < stop) ∧ (map i).toNat ≠ sig
  lowest : ∃ low, top = subU32 low 1 ∧ low ≤ sig ∧
    (∀ i < dbc, stop ≤ (map i).toNat → low ≤ (map i).toNat) ∧
    (low = sig ∨ ∃ i < dbc, stop ≤ (map i).toNat ∧ low = (map i).toNat)

section Find

variable {d : NmbmDesc} {dev : LowerDev} {s s' : Attached}

/-- The loop of `nmbm_check_info_table`, with `n` entries left and `low` so far. -/
theorem checkMappingLoop_spec (ni : NmbmInstance) (map : Nat → BitVec 32) (stop : Nat) :
    ∀ (n ba low : Nat) {r : Nat}, checkMappingLoop ni map stop n ba low = some r →
      r ≤ low ∧
      (∀ i, ba ≤ i → i < ba + n →
        ¬ (ni.dataBlockCount ≤ (map i).toNat ∧ (map i).toNat < stop) ∧ (map i).toNat ≠ ni.signatureBa ∧
        (stop ≤ (map i).toNat → r ≤ (map i).toNat)) ∧
      (r = low ∨ ∃ i, i < ba + n ∧ stop ≤ (map i).toNat ∧ r = (map i).toNat)
  | 0, ba, low, r, h => by
      obtain rfl := Option.some.inj h
      exact ⟨Nat.le_refl _, fun i h₁ h₂ => absurd h₂ (by omega), Or.inl rfl⟩
  | n + 1, ba, low, r, h => by
      rw [checkMappingLoop] at h
      split at h
      · exact absurd h (by simp)
      · next hok =>
        rw [not_or] at hok
        obtain ⟨hle, hall, hr⟩ := checkMappingLoop_spec ni map stop n (ba + 1) _ h
        have hlow : r ≤ low ∧ (stop ≤ (map ba).toNat → r ≤ (map ba).toNat) := by
          split at hle
          · exact ⟨by omega, fun _ => hle⟩
          · next hno =>
            refine ⟨hle, fun hs => ?_⟩
            have : ¬ (map ba).toNat < low := fun hlt => hno ⟨hs, hlt⟩
            omega
        refine ⟨hlow.1, fun i h₁ h₂ => ?_, ?_⟩
        · rcases Nat.eq_or_lt_of_le h₁ with rfl | hlt
          · exact ⟨hok.1, hok.2, hlow.2⟩
          · exact hall i hlt (by omega)
        · rcases hr with hr | ⟨i, h₁, h₂, h₃⟩
          · split at hr
            · next hin => exact Or.inr ⟨ba, by omega, hin.1, hr⟩
            · exact Or.inl hr
          · exact Or.inr ⟨i, by omega, h₂, h₃⟩

/-- The check on a table with the usual offsets. -/
theorem nmbmCheckInfoTable_topOf {ni : NmbmInstance} {start stop top : Nat} {m : Nat → UInt8}
    {map : Nat → BitVec 32} (hmap : ∀ i < ni.dataBlockCount, getWord m (get32 m 24) i = map i)
    (h : nmbmCheckInfoTable ni start stop m = some top) :
    TopOf ni.dataBlockCount ni.signatureBa stop top map := by
  unfold nmbmCheckInfoTable at h
  rcases hloop : checkMappingLoop ni (getWord m (get32 m 24)) stop ni.dataBlockCount 0 ni.signatureBa
    with _ | low
  · rw [hloop] at h
    exact absurd h (by simp)
  · rw [hloop] at h
    dsimp only at h
    split at h
    · obtain rfl := Option.some.inj h
      obtain ⟨hle, hall, hlow⟩ := checkMappingLoop_spec ni _ stop _ _ _ hloop
      rw [Nat.zero_add] at hall hlow
      refine ⟨fun i hi => ?_, low, rfl, hle, fun i hi hs => ?_, ?_⟩
      · have := hall i (Nat.zero_le _) hi
        rw [hmap i hi] at this
        exact ⟨this.1, this.2.1⟩
      · have := hall i (Nat.zero_le _) hi
        rw [hmap i hi] at this
        exact this.2.2 hs
      · refine hlow.imp_right fun ⟨i, hi, h₁, h₂⟩ => ⟨i, hi, ?_⟩
        rw [hmap i hi] at h₁ h₂
        exact ⟨h₁, h₂⟩
    · exact absurd h (by simp)

end Find

end Lede.Nmbm
