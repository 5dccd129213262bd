/-
Lede.Tffs.ScanTheorems — which sectors the scan leaves as good.

A sector is good when its block has a header that is accepted and does not list it, it is not the
header itself, and its out-of-band bytes do not mark it. Where headers list sectors of their own
blocks, the scan leaves exactly these (`scanMtd_good`), and it knows no id of them.
-/
import Lede.Tffs.BoundsTheorems
import Mathlib.Tactic.IntervalCases

namespace Lede.Tffs

open Lede.Lib

/-! ## Good sectors -/

section

variable (t : Reader)

/-- The header of a block, if `check_block` accepts it. -/
def acceptedHeader (block : Nat) : Option (Nat → UInt8) :=
  (t.sector (block * t.sectorsPerBlock)).filter (acceptsHeader t (block * t.sectorsPerBlock))

/-- A header lists a sector of its block. -/
def lists (hdr : Nat → UInt8) (i : Nat) : Bool :=
  (t.readUint64 hdr 0x1c).toNat = i ∨ (t.readUint64 hdr 0x24).toNat = i

/-- The block of a sector has a header that does not list it. -/
def inGoodBlock (sector : Nat) : Bool :=
  match acceptedHeader t (sector / t.sectorsPerBlock) with
  | none => false
  | some hdr => !lists t hdr (sector % t.sectorsPerBlock)

def goodSector (sector : Nat) : Bool :=
  sector % t.sectorsPerBlock ≠ 0 && inGoodBlock t sector && checkSector t sector

/-- Accepted headers list sectors of their own blocks. -/
def ListsOwn : Prop :=
  ∀ block < t.blocks, ∀ hdr, acceptedHeader t block = some hdr →
    (t.readUint64 hdr 0x1c).toNat < t.sectorsPerBlock ∧
      (t.readUint64 hdr 0x24).toNat < t.sectorsPerBlock

/-- The scan before a sector: the sectors behind are as they should be, the ones to come are good
but those that the current block's header lists. -/
structure ScanInv (k : Nat) (st : Scan) : Prop where
  behind : ∀ s < k, st.good s = goodSector t s
  ahead : ∀ s, k ≤ s → (st.good s = false ↔
    k % t.sectorsPerBlock ≠ 0 ∧ s / t.sectorsPerBlock = k / t.sectorsPerBlock ∧
      ∃ hdr, acceptedHeader t (k / t.sectorsPerBlock) = some hdr ∧
        lists t hdr (s % t.sectorsPerBlock) = true)
  blockOk : k % t.sectorsPerBlock ≠ 0 →
    st.blockOk = (acceptedHeader t (k / t.sectorsPerBlock)).isSome
  ids : ∀ s, s % t.sectorsPerBlock ≠ 0 → st.ids s = 0

end

variable {t : Reader} {k : Nat} {st : Scan} {ids : Nat → BitVec 32}

theorem atBlock_iff {sector : Nat} : t.atBlock sector ↔ sector % t.sectorsPerBlock = 0 := by
  unfold Reader.atBlock Reader.blocksize
  rw [Nat.mul_mod_mul_right, Nat.mul_eq_zero, or_iff_left (by decide)]

/-- Marking a sector of the device. -/
theorem sectorMarkBad_of_lt {good : Nat → Bool} {num : BitVec 32} (h : num.toNat < t.numSectors) :
    sectorMarkBad t good num = some (Function.update good num.toNat false) := by
  have hlt : t.numSectors * 2048 < 2 ^ 32 := t.size_lt
  have hint : num.toInt = num.toNat := BitVec.toInt_eq_toNat_of_lt (by omega)
  rw [sectorMarkBad, if_pos]
  rw [hint]
  omega

/-- What `check_block` returns and marks. -/
theorem checkBlock_eq (ids : Nat → BitVec 32) (block : Nat) :
    (checkBlock t ids (block * t.sectorsPerBlock)).ok = (acceptedHeader t block).isSome ∧
      (checkBlock t ids (block * t.sectorsPerBlock)).bad =
        match acceptedHeader t block with
        | none => []
        | some hdr => headerBad t (block * t.sectorsPerBlock) hdr := by
  unfold checkBlock acceptedHeader
  cases hs : t.sector (block * t.sectorsPerBlock) with
  | none => by_cases hcheck : checkSector t (block * t.sectorsPerBlock) <;> simp [hcheck]
  | some buf =>
    rw [Option.filter_some]
    by_cases hacc : acceptsHeader t (block * t.sectorsPerBlock) buf
    · rw [if_pos hacc]
      unfold acceptsHeader at hacc
      simp only [Bool.and_eq_true, decide_eq_true_eq] at hacc
      simp [hacc.1.1, hacc.1.2, hacc.2]
    · rw [if_neg hacc]
      unfold acceptsHeader at hacc
      simp only [Bool.and_eq_true, decide_eq_true_eq, not_and] at hacc
      by_cases hcheck : checkSector t (block * t.sectorsPerBlock)
      · by_cases hmagic : t.readUint64 buf 0x00 = TFFS_BLOCK_HEADER_MAGIC
        · simp [hcheck, hmagic, hacc ⟨hcheck, hmagic⟩]
        · simp [hcheck, hmagic]
      · simp [hcheck]

/-- It only learns the id of the header's sector. -/
theorem checkBlock_ids {sector s : Nat} (h : s ≠ sector) :
    (checkBlock t ids sector).ids s = ids s := by
  have hcache : ∀ buf, cacheId t ids sector buf s = ids s := fun buf => Function.update_of_ne h ..
  unfold checkBlock
  split_ifs
  · rfl
  · cases t.sector sector with
    | none => rfl
    | some buf =>
      simp only
      split_ifs
      · exact hcache buf
      · exact hcache buf
      · exact hcache buf

/-- Marking a list of sectors of the device. -/
theorem markAll (good : Nat → Bool) (nums : List (BitVec 32))
    (h : ∀ num ∈ nums, num.toNat < t.numSectors) :
    ∃ good', nums.foldlM (sectorMarkBad t) good = some good' ∧
      ∀ s, good' s = false ↔ good s = false ∨ ∃ num ∈ nums, num.toNat = s := by
  induction nums generalizing good with
  | nil => exact ⟨good, rfl, fun s => by simp⟩
  | cons num nums ih =>
    obtain ⟨good', hgood', hiff⟩ :=
      ih (Function.update good num.toNat false) fun n hn => h n (List.mem_cons_of_mem _ hn)
    refine ⟨good', ?_, fun s => ?_⟩
    · rw [List.foldlM_cons, sectorMarkBad_of_lt (h num List.mem_cons_self)]
      exact hgood'
    · rw [hiff, Function.update_apply]
      simp only [List.mem_cons, exists_eq_or_imp]
      split_ifs with hs
      · simp [hs]
      · rw [← or_assoc, or_iff_left (a := good s = false) (b := num.toNat = s)]
        exact fun heq => hs heq.symm

/-- The numbers that the header of a block lists, as sectors of the device. -/
theorem headerBad_mem {block : Nat} {hdr : Nat → UInt8} (hown : ListsOwn t)
    (hb : block < t.blocks) (hacc : acceptedHeader t block = some hdr) (num : Nat) :
    (∃ n ∈ headerBad t (block * t.sectorsPerBlock) hdr, n.toNat = num) ↔
      ∃ i < t.sectorsPerBlock, lists t hdr i = true ∧ num = block * t.sectorsPerBlock + i := by
  obtain ⟨h₀, h₁⟩ := hown block hb hdr hacc
  have htwo : (t.readUint32 hdr 0x0c).toNat = 2 := by
    unfold acceptedHeader acceptsHeader at hacc
    have hpage := (Option.filter_eq_some_iff.mp hacc).2
    simp only [Bool.and_eq_true, decide_eq_true_eq] at hpage
    rw [hpage.2]
    rfl
  have hsize : block * t.sectorsPerBlock + t.sectorsPerBlock ≤ t.numSectors := by
    rw [← Nat.succ_mul]
    exact Nat.mul_le_mul_right _ hb
  have hlt : t.numSectors * 2048 < 2 ^ 32 := t.size_lt
  have hnum : ∀ i < 2, (t.readUint64 hdr (0x1c + 8 * i)).toNat < t.sectorsPerBlock →
      (BitVec.ofNat 32 (block * t.sectorsPerBlock) +
        (t.readUint64 hdr (0x1c + 8 * i)).setWidth 32).toNat =
      block * t.sectorsPerBlock + (t.readUint64 hdr (0x1c + 8 * i)).toNat := by
    intro i _ hi
    rw [headerBad_toNat, Nat.mod_eq_of_lt (by omega)]
  have hfirst := hnum 0 (by decide) h₀
  have hsecond := hnum 1 (by decide) h₁
  unfold headerBad lists
  rw [htwo]
  simp only [List.mem_map, List.mem_range, decide_eq_true_eq]
  constructor
  · rintro ⟨n, ⟨i, hi, rfl⟩, rfl⟩
    interval_cases i
    · exact ⟨_, h₀, Or.inl rfl, hfirst⟩
    · exact ⟨_, h₁, Or.inr rfl, hsecond⟩
  · rintro ⟨i, hi, hlist | hlist, rfl⟩
    · exact ⟨_, ⟨0, by decide, rfl⟩, by rw [hfirst, ← hlist]⟩
    · exact ⟨_, ⟨1, by decide, rfl⟩, by rw [hsecond, ← hlist]⟩

/-! ## The scan of a sector -/

section Step

/-- The sector behind is of the same block, or of a new one. -/
theorem next_block {p k : Nat} (h : (k + 1) % p ≠ 0) : (k + 1) / p = k / p :=
  Nat.succ_div_of_not_dvd fun hd => h (Nat.mod_eq_zero_of_dvd hd)

theorem behind_block {p k s : Nat} (h : (k + 1) % p = 0) (hs : k + 1 ≤ s) :
    s / p ≠ k / p := by
  have hnext := Nat.succ_div_of_dvd (Nat.dvd_of_mod_eq_zero h)
  have hle := Nat.div_le_div_right (c := p) hs
  omega

theorem sector_iff {p b i s : Nat} (hi : i < p) : s = b * p + i ↔ s / p = b ∧ s % p = i := by
  have hp : 0 < p := by omega
  constructor
  · rintro rfl
    rw [Nat.mul_comm b, Nat.mul_add_div hp, Nat.div_eq_of_lt hi, Nat.mul_add_mod,
      Nat.mod_eq_of_lt hi]
    exact ⟨rfl, rfl⟩
  · rintro ⟨rfl, rfl⟩
    rw [Nat.mul_comm]
    exact (Nat.div_add_mod s p).symm

variable (hown : ListsOwn t) (hk : k < t.numSectors)
include hown hk

theorem scanSector_header (hinv : ScanInv t k st) (hat : k % t.sectorsPerBlock = 0) :
    ∃ st', scanSector t st k = some st' ∧ ScanInv t (k + 1) st' := by
  have hp := t.sectorsPerBlock_pos
  have hlt : t.numSectors * 2048 < 2 ^ 32 := t.size_lt
  have hkb : k / t.sectorsPerBlock * t.sectorsPerBlock = k := by
    rw [Nat.mul_comm]
    have := Nat.div_add_mod k t.sectorsPerBlock
    omega
  have hb : k / t.sectorsPerBlock < t.blocks := by
    rw [Nat.div_lt_iff_lt_mul hp]
    exact hk
  have hsize : k + t.sectorsPerBlock ≤ t.numSectors := by
    have := Nat.mul_le_mul_right t.sectorsPerBlock hb
    rw [Nat.succ_mul, hkb] at this
    exact this
  obtain ⟨hok, hbad⟩ := checkBlock_eq (t := t) st.ids (k / t.sectorsPerBlock)
  rw [hkb] at hok hbad
  have hself : (BitVec.ofNat 32 k).toNat = k := by
    rw [BitVec.toNat_ofNat, Nat.mod_eq_of_lt (by omega)]
  -- what is marked for the header are the sectors it lists
  have hlisted : ∀ s, (∃ num ∈ (checkBlock t st.ids k).bad, num.toNat = s) ↔
      s / t.sectorsPerBlock = k / t.sectorsPerBlock ∧
        ∃ hdr, acceptedHeader t (k / t.sectorsPerBlock) = some hdr ∧
          lists t hdr (s % t.sectorsPerBlock) = true := by
    intro s
    rw [hbad]
    cases hacc : acceptedHeader t (k / t.sectorsPerBlock) with
    | none => simp
    | some hdr =>
      simp only [Option.some_inj, exists_eq_left']
      have hmem := headerBad_mem hown hb hacc s
      rw [hkb] at hmem
      rw [hmem]
      constructor
      · rintro ⟨i, hi, hl, rfl⟩
        obtain ⟨hd, hm⟩ := (sector_iff hi).mp (by rw [hkb] :
          k + i = k / t.sectorsPerBlock * t.sectorsPerBlock + i)
        rw [hd, hm]
        exact ⟨rfl, hl⟩
      · rintro ⟨hd, hl⟩
        have hi := Nat.mod_lt s hp
        refine ⟨_, hi, hl, ?_⟩
        have := (sector_iff hi).mpr ⟨hd, rfl⟩
        omega
  have hge : ∀ s, (∃ num ∈ (checkBlock t st.ids k).bad, num.toNat = s) →
      k ≤ s ∧ s < k + t.sectorsPerBlock := by
    intro s hs
    have hs' := (sector_iff (Nat.mod_lt s hp)).mpr ⟨((hlisted s).mp hs).1, rfl⟩
    have := Nat.mod_lt s hp
    omega
  obtain ⟨good', hmark, hiff⟩ := markAll (t := t) st.good
    ((checkBlock t st.ids k).bad ++ [BitVec.ofNat 32 k]) (by
      intro num hnum
      rcases List.mem_append.mp hnum with hnum | hnum
      · have := hge _ ⟨num, hnum, rfl⟩
        omega
      · rw [List.mem_singleton.mp hnum, hself]
        exact hk)
  have hgood : ∀ s, good' s = false ↔ st.good s = false ∨
      (∃ num ∈ (checkBlock t st.ids k).bad, num.toNat = s) ∨ k = s := by
    intro s
    rw [hiff]
    simp only [List.mem_append, List.mem_singleton, or_and_right, exists_or, exists_eq_left, hself]
  have hahead : ∀ s, k ≤ s → st.good s = true := by
    intro s hs
    by_contra hne
    exact absurd hat ((hinv.ahead s hs).mp (by simpa using hne)).1
  have hstep : scanSector t st k = some ⟨good', (checkBlock t st.ids k).ids,
      (checkBlock t st.ids k).ok, if (checkBlock t st.ids k).ok then st.validBlocks + 1
        else st.validBlocks⟩ := by
    simp only [scanSector, if_pos (atBlock_iff.mpr hat), hmark, Option.map_some]
  refine ⟨_, hstep, ?_, ?_, ?_, ?_⟩
  · intro s hs
    change good' s = _
    rcases Nat.lt_or_ge s k with hlt' | hge'
    · rw [← hinv.behind s hlt', Bool.eq_iff_iff, ← not_iff_not, Bool.not_eq_true, Bool.not_eq_true,
        hgood]
      constructor
      · rintro (h | h | h)
        · exact h
        · have := hge s h
          omega
        · omega
      · exact Or.inl
    · obtain rfl : s = k := by omega
      rw [(hgood s).mpr (Or.inr (Or.inr rfl))]
      simp [goodSector, hat]
  · intro s hs
    change good' s = false ↔ _
    have hs' : st.good s ≠ false := by simp [hahead s (by omega)]
    rw [hgood, or_iff_right hs', or_iff_left (by omega : ¬ k = s), hlisted]
    by_cases hnext : (k + 1) % t.sectorsPerBlock = 0
    · have hne := behind_block hnext hs
      simp [hnext, hne]
    · rw [next_block hnext]
      simp [hnext]
  · intro hnext
    rw [next_block hnext]
    exact hok
  · intro s hs
    change (checkBlock t st.ids k).ids s = 0
    rw [checkBlock_ids (by rintro rfl; exact hs hat)]
    exact hinv.ids s hs

omit hown in
theorem scanSector_entry (hinv : ScanInv t k st) (hat : k % t.sectorsPerBlock ≠ 0) :
    ∃ st', scanSector t st k = some st' ∧ ScanInv t (k + 1) st' := by
  have hp := t.sectorsPerBlock_pos
  have hlt : t.numSectors * 2048 < 2 ^ 32 := t.size_lt
  have hself : (BitVec.ofNat 32 k).toNat = k := by
    rw [BitVec.toNat_ofNat, Nat.mod_eq_of_lt (by omega)]
  have hgood : goodSector t k = (st.blockOk && st.good k && checkSector t k) := by
    have hblock := hinv.blockOk hat
    have hlist := hinv.ahead k (Nat.le_refl _)
    unfold goodSector inGoodBlock
    cases hacc : acceptedHeader t (k / t.sectorsPerBlock) with
    | none =>
      rw [hacc] at hblock
      simp [hblock]
    | some hdr =>
      rw [hacc] at hblock hlist
      have hnot : st.good k = !lists t hdr (k % t.sectorsPerBlock) := by
        rw [Bool.eq_iff_iff, ← not_iff_not, Bool.not_eq_true, hlist]
        simp [hat]
      simp [hblock, hnot, hat]
  -- the rest of the block is as before, and so is the next one
  have hahead : ∀ (st' : Scan), (∀ s, k + 1 ≤ s → st'.good s = st.good s) → ∀ s, k + 1 ≤ s →
      (st'.good s = false ↔ (k + 1) % t.sectorsPerBlock ≠ 0 ∧
        s / t.sectorsPerBlock = (k + 1) / t.sectorsPerBlock ∧
        ∃ hdr, acceptedHeader t ((k + 1) / t.sectorsPerBlock) = some hdr ∧
          lists t hdr (s % t.sectorsPerBlock) = true) := by
    intro st' hsame s hs
    rw [hsame s hs, hinv.ahead s (by omega)]
    by_cases hnext : (k + 1) % t.sectorsPerBlock = 0
    · have hne := behind_block hnext hs
      simp [hnext, hne]
    · rw [next_block hnext]
      simp [hnext, hat]
  have hblock : (k + 1) % t.sectorsPerBlock ≠ 0 →
      st.blockOk = (acceptedHeader t ((k + 1) / t.sectorsPerBlock)).isSome := by
    intro hnext
    rw [next_block hnext]
    exact hinv.blockOk hat
  have hbehind : ∀ good' : Nat → Bool, (∀ s < k, good' s = st.good s) →
      good' k = goodSector t k → ∀ s < k + 1, good' s = goodSector t s := by
    intro good' hsame hkk s hs
    rcases Nat.lt_or_ge s k with hlt' | hge'
    · rw [hsame s hlt']
      exact hinv.behind s hlt'
    · obtain rfl : s = k := by omega
      exact hkk
  have hnot : (!st.blockOk || !st.good k || !checkSector t k) = !goodSector t k := by
    rw [hgood, Bool.not_and, Bool.not_and]
  rw [scanSector, if_neg (mt atBlock_iff.mp hat), hnot]
  by_cases hcond : (!goodSector t k) = true
  · rw [if_pos hcond, sectorMarkBad_of_lt (by rw [hself]; exact hk), hself]
    refine ⟨_, rfl, hbehind _ (fun s hs => Function.update_of_ne (by omega) ..) ?_,
      hahead _ fun s hs => Function.update_of_ne (by omega) .., hblock, hinv.ids⟩
    change Function.update st.good k false k = _
    rw [Function.update_self]
    exact (Bool.not_eq_true' _ ▸ hcond : goodSector t k = false).symm
  · rw [if_neg hcond]
    refine ⟨_, rfl, hbehind _ (fun _ _ => rfl) ?_, hahead _ fun _ _ => rfl, hblock, hinv.ids⟩
    have hall : goodSector t k = true := by simpa using hcond
    rw [hall]
    rw [hgood, Bool.and_eq_true, Bool.and_eq_true] at hall
    exact hall.1.2

end Step

/-- The scan ends with exactly the good sectors as good, and knows the ids of none of them. -/
theorem scanMtd_good (hown : ListsOwn t) :
    ∃ st, scanMtd t = some st ∧ (∀ s < t.numSectors, st.good s = goodSector t s) ∧
      ∀ s, s % t.sectorsPerBlock ≠ 0 → st.ids s = 0 := by
  have hrun : ∀ k ≤ t.numSectors, ∃ st,
      (List.range k).foldlM (scanSector t) ⟨fun _ => true, fun _ => 0, false, 0⟩ = some st ∧
        ScanInv t k st := by
    intro k
    induction k with
    | zero =>
      refine fun _ => ⟨_, rfl, ?_, ?_, ?_, fun _ _ => rfl⟩
      · intro s hs
        omega
      · simp
      · simp
    | succ k ih =>
      intro hk
      obtain ⟨st, hst, hinv⟩ := ih (by omega)
      have hstep : ∃ st', scanSector t st k = some st' ∧ ScanInv t (k + 1) st' := by
        by_cases hat : k % t.sectorsPerBlock = 0
        · exact scanSector_header hown hk hinv hat
        · exact scanSector_entry hk hinv hat
      obtain ⟨st', hst', hinv'⟩ := hstep
      refine ⟨st', ?_, hinv'⟩
      rw [List.range_succ, List.foldlM_append, hst]
      simpa using hst'
  obtain ⟨st, hst, hinv⟩ := hrun t.numSectors (Nat.le_refl _)
  exact ⟨st, hst, hinv.behind, hinv.ids⟩

end Lede.Tffs
