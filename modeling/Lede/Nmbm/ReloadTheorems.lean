/-
Lede.Nmbm.ReloadTheorems — a table that was written is read again.

`nmbm_write_mgmt_range` passes over bad blocks up to the limit of its caller. The loader passes
over them as well, but it stops `size2blk(info_table_size)` blocks behind the first one, so what
it reads lies in blocks in a row. The two agree exactly if no block between the first and the
last block of the table is bad (`writtenTable_reloaded_iff`).
-/
import Lede.Nmbm.LoadTheorems
import Mathlib.Order.Interval.Finset.Nat

namespace Lede.Nmbm

open Lede.Nand Lede.Bmt Lede.Lib

/-! ## The blocks of a table -/

section Blocks

variable {d : NmbmDesc} {fl : Flash} {img : Nat → UInt8}

/-- A table takes as many blocks as it is long. -/
theorem StoredFrom.length {size : Nat} : ∀ {bs : List Nat} {off : Nat},
    StoredFrom d fl img size off bs →
      size - off ≤ bs.length * d.blkSize ∧ bs.length * d.blkSize < size - off + d.blkSize
  | [], off, h => by
      have hpos := d.blkSize_pos
      have hle : size ≤ off := h
      simp only [List.length_nil, Nat.zero_mul]
      omega
  | [b], off, ⟨hlt, _, hrest⟩ => by
      have hle : size ≤ off + min (size - off) d.blkSize := hrest
      simp only [List.length_singleton, Nat.one_mul]
      omega
  | b :: c :: bs, off, ⟨hlt, _, hrest⟩ => by
      -- not the last block, so it is full
      have hfull := hrest.1
      obtain ⟨h₁, h₂⟩ := StoredFrom.length hrest
      rw [List.length_cons, Nat.succ_mul]
      omega

theorem StoredAt.length {start stop : Nat} {bs : List Nat} (h : StoredAt d fl img start stop bs) :
    bs.length = d.infoBlks := by
  obtain ⟨h₁, h₂⟩ := h.bytes.length
  have h₃ := le_infoBlks_mul d
  have h₄ := infoBlks_mul_lt d
  rw [Nat.sub_zero] at h₁ h₂
  have hlt₁ : bs.length * d.blkSize < (d.infoBlks + 1) * d.blkSize := by
    rw [Nat.succ_mul]
    omega
  have hlt₂ : d.infoBlks * d.blkSize < (bs.length + 1) * d.blkSize := by
    rw [Nat.succ_mul]
    omega
  have := Nat.lt_of_mul_lt_mul_right hlt₁
  have := Nat.lt_of_mul_lt_mul_right hlt₂
  omega

/-- The blocks of a table are in a row if they are as many as fit between its ends. -/
theorem StoredAt.eq_range' {start stop : Nat} {bs : List Nat}
    (h : StoredAt d fl img start stop bs) (hall : ∀ b, start ≤ b → b < stop → b ∈ bs) :
    bs = List.range' start (stop - start) := by
  refine List.Perm.eq_of_pairwise (fun a b _ _ hab hba => absurd hab (by omega)) h.sorted
    List.pairwise_lt_range' ?_
  rw [List.perm_ext_iff_of_nodup (h.sorted.imp Nat.ne_of_lt) List.nodup_range']
  intro b
  have hlt := h.lt
  rw [List.mem_range'_1]
  constructor
  · intro hb
    have := h.mem b hb
    omega
  · intro hb
    exact hall b hb.1 (by omega)

/-- No block of a table that was written is bad exactly if it takes no more blocks than it
needs. -/
theorem Fresh.allGood_iff {state : Nat → BitVec 32} {start stop : Nat} {bs : List Nat}
    (h : Fresh d img fl state start stop bs) :
    (∀ b, start ≤ b → b < stop → field state b = blockStGood) ↔ stop = start + d.infoBlks := by
  have hlt := h.stored.lt
  have hlen := h.stored.length
  constructor
  · intro hall
    have hrange := h.stored.eq_range' fun b h₁ h₂ => (h.good b h₁ h₂).2 (hall b h₁ h₂)
    rw [hrange, List.length_range'] at hlen
    omega
  · intro hstop b h₁ h₂
    -- as many blocks as there are: each is one of the table
    have hsub : bs.toFinset ⊆ Finset.Ico start stop := by
      intro c hc
      rw [Finset.mem_Ico]
      exact h.stored.mem c (List.mem_toFinset.1 hc)
    have hcard : (Finset.Ico start stop).card ≤ bs.toFinset.card := by
      rw [List.toFinset_card_of_nodup (h.stored.sorted.imp Nat.ne_of_lt), hlen, Nat.card_Ico]
      omega
    have hmem : b ∈ bs.toFinset := by
      rw [Finset.eq_of_subset_of_card_le hsub hcard, Finset.mem_Ico]
      exact ⟨h₁, h₂⟩
    exact (h.good b h₁ h₂).1 (List.mem_toFinset.1 hmem)

/-- A table in blocks in a row is what the loader sees there. -/
theorem windowImage_of_storedFrom (w : Nat) : ∀ (n j : Nat),
    StoredFrom d fl img d.infoTableSize (j * d.blkSize) (List.range' (w + j) n) →
    ∀ a, j * d.blkSize ≤ a → a < d.infoTableSize → windowImage d fl w a = img a
  | 0, j, h => by
      intro a h₁ h₂
      have hle : d.infoTableSize ≤ j * d.blkSize := h
      omega
  | n + 1, j, h => by
      intro a h₁ h₂
      rw [List.range'_succ] at h
      obtain ⟨-, hbytes, hrest⟩ := h
      have hsucc : (j + 1) * d.blkSize = j * d.blkSize + d.blkSize := Nat.succ_mul _ _
      by_cases ha : a < (j + 1) * d.blkSize
      · have hdiv : a / d.blkSize = j := by
          rw [Nat.div_eq_iff d.blkSize_pos]
          omega
        have hmod : a % d.blkSize = a - j * d.blkSize := by
          have := Nat.div_add_mod a d.blkSize
          rw [hdiv, Nat.mul_comm] at this
          omega
        unfold windowImage
        rw [hdiv, hmod, hbytes _ (by omega), Nat.add_sub_cancel' h₁]
      · rw [Nat.min_eq_right (by omega), ← hsucc] at hrest
        exact windowImage_of_storedFrom w n (j + 1) hrest a (by omega) h₂

theorem StoredAt.windowImage {start : Nat} {bs : List Nat}
    (h : StoredAt d fl img start (start + d.infoBlks) bs)
    (hall : ∀ b, start ≤ b → b < start + d.infoBlks → b ∈ bs) (a : Nat) (ha : a < d.infoTableSize) :
    windowImage d fl start a = img a := by
  have hbytes := h.bytes
  rw [h.eq_range' hall, ← Nat.zero_mul d.blkSize] at hbytes
  exact windowImage_of_storedFrom start _ 0 hbytes a (by omega) ha

end Blocks

/-! ## Blocks that can be read -/

section Reading

variable {d : NmbmDesc} {dev : LowerDev} {s s' : Attached}

/-- The chip does not call the block bad, and a read of a page of it delivers the page. -/
structure Readable (d : NmbmDesc) (dev : LowerDev) (b : Nat) : Prop where
  notBad : ∀ t, dev.isBad t b = false
  reads : ∀ t p, p / d.ppb = b → (dev.readRet t p).failed = false

theorem nmbmReadPhysPage_readable {b : Nat} (h : Readable d dev b) (fl : Flash) {pg : Nat}
    (hpg : pg / d.ppb = b) : (nmbmReadPhysPage dev fl pg).1 = .ok := by
  have hret := h.reads fl.clock pg hpg
  unfold nmbmReadPhysPage readPhysPage lowerRead
  cases hr : dev.readRet fl.clock pg with
  | ok n => rfl
  | euclean => rfl
  | ebadmsg => simp [hr, ReadRet.failed] at hret
  | eio => simp [hr, ReadRet.failed] at hret

theorem readLoop_readable {b : Nat} (h : Readable d dev b) : ∀ (n pg : Nat) (fl : Flash),
    (∀ q, pg ≤ q → q < pg + n → q / d.ppb = b) → (readLoop dev n pg fl).1 = .ok
  | 0, _, _, _ => rfl
  | n + 1, pg, fl, hpg => by
      rw [readLoop]
      dsimp only
      rw [if_neg (by simp [nmbmReadPhysPage_readable h fl (hpg pg (Nat.le_refl _) (by omega))])]
      exact readLoop_readable h n (pg + 1) _ fun q h₁ h₂ => hpg q (by omega) (by omega)

theorem nmbnReadData_readable {b : Nat} (h : Readable d dev b) (fl : Flash) {size : Nat}
    (hsize : size ≤ d.blkSize) : (nmbnReadData d dev fl (d.blkPg b) size).1 = .ok := by
  refine readLoop_readable h _ _ fl fun q h₁ h₂ => ?_
  have hle := pages_le d hsize
  have hq : q = d.blkPg b + (q - d.blkPg b) := by omega
  rw [hq, d.blkPg_add_div b (by omega)]

/-- The loader marks blocks bad in memory only, and none that can be read. -/
def Marked (d : NmbmDesc) (dev : LowerDev) (s s' : Attached) : Prop :=
  ∀ b, getBlockState s'.tbl b = getBlockState s.tbl b ∨
    (¬ Readable d dev b ∧ getBlockState s'.tbl b = blockStBad)

namespace Marked

theorem trans {s'' : Attached} (h₁ : Marked d dev s s') (h₂ : Marked d dev s' s'') :
    Marked d dev s s'' := by
  intro b
  rcases h₂ b with h | h
  · rw [h]
    exact h₁ b
  · exact .inr h

theorem setBad {ba : Nat} (h : ¬ Readable d dev ba) : Marked d dev s (setBad s ba) := by
  intro b
  rw [getBlockState_setBad]
  by_cases hb : b = ba
  · exact .inr ⟨hb ▸ h, if_pos hb⟩
  · exact .inl (if_neg hb)

theorem isGood_of_readable (h : Marked d dev s s') {b : Nat} (hb : Readable d dev b)
    (hg : isGood s.tbl b = true) : isGood s'.tbl b = true := by
  rw [isGood_iff] at hg ⊢
  rcases h b with he | ⟨hno, -⟩
  · rw [he, hg]
  · exact absurd hb hno

theorem isGood_of_isGood (h : Marked d dev s s') {b : Nat} (hg : isGood s'.tbl b = true) :
    isGood s.tbl b = true := by
  rw [isGood_iff] at hg ⊢
  rcases h b with he | ⟨-, hbad⟩
  · rw [← he, hg]
  · rw [hbad] at hg
    exact absurd hg (by decide)

end Marked

theorem tryLoadLoop_marked : ∀ (n ba rest : Nat) (start : Option Nat) (cache : Nat → UInt8)
    (s : Attached), Marked d dev s (tryLoadLoop d dev n ba rest start cache s).2
  | 0, _, _, _, _, _ => fun _ => .inl rfl
  | n + 1, ba, rest, start, cache, s => by
      rw [tryLoadLoop]
      split
      · exact fun _ => .inl rfl
      split
      · exact tryLoadLoop_marked n (ba + 1) rest start cache s
      dsimp only
      split
      · next hbad =>
        refine Marked.trans (Marked.setBad (s := withFlash s _) fun hr => ?_)
          (tryLoadLoop_marked n (ba + 1) rest start cache _)
        simp [lowerIsbad, hr.notBad] at hbad
      split
      · next hfail =>
        refine Marked.trans (Marked.setBad (s := withFlash _ _) fun hr => ?_)
          (tryLoadLoop_marked n (ba + 1) rest start cache _)
        exact hfail (nmbnReadData_readable hr _ (Nat.min_le_right rest d.blkSize))
      split
      · exact fun _ => .inl rfl
      · exact tryLoadLoop_marked n (ba + 1) _ _ _ _

/-- A good block that can be read gives its piece of the table. -/
theorem tryLoadLoop_take (n : Nat) {ba rest : Nat} (start : Option Nat) (cache : Nat → UInt8)
    (hr : Readable d dev ba) (hg : isGood s.tbl ba = true) (hrest : rest ≠ 0)
    (hhdr : start = none → nmbmCheckInfoTableHeader d (fun a => loadChunk d s.flash ba
      (d.infoTableSize - rest) (min rest d.blkSize) cache (d.infoTableSize - rest + a)) = true) :
    ∃ s₁, s₁.tbl = s.tbl ∧ s₁.flash.page = s.flash.page ∧
      tryLoadLoop d dev (n + 1) ba rest start cache s =
        tryLoadLoop d dev n (ba + 1) (rest - min rest d.blkSize) (some (start.getD ba))
          (loadChunk d s.flash ba (d.infoTableSize - rest) (min rest d.blkSize) cache) s₁ := by
  rw [tryLoadLoop, if_neg hrest, if_neg (by simp [hg])]
  dsimp only
  rw [if_neg (by simp [lowerIsbad, hr.notBad])]
  have hread := nmbnReadData_readable hr (withFlash s (lowerIsbad dev s.flash ba).2).flash
    (Nat.min_le_right rest d.blkSize)
  rw [if_neg (by simpa using hread)]
  obtain ⟨hp, -⟩ := nmbnReadData_flash d dev (withFlash s (lowerIsbad dev s.flash ba).2).flash
    (d.blkPg ba) (min rest d.blkSize)
  generalize (nmbnReadData d dev (withFlash s (lowerIsbad dev s.flash ba).2).flash (d.blkPg ba)
    (min rest d.blkSize)).2 = fl at hp ⊢
  have hbytes : ∀ i, blockByte d (withFlash (withFlash s (lowerIsbad dev s.flash ba).2) fl).flash ba i
      = blockByte d s.flash ba i := by
    intro i
    unfold blockByte pageByte
    rw [withFlash, hp]
    rfl
  simp only [hbytes]
  refine ⟨withFlash (withFlash s (lowerIsbad dev s.flash ba).2) fl, rfl, hp, ?_⟩
  rw [if_neg]
  · rfl
  · simp only [Bool.and_eq_true, Option.isNone_iff_eq_none, Bool.not_eq_true', not_and,
      Bool.not_eq_false]
    exact hhdr

end Reading

/-! ## Loading the table -/

section Loading

variable {d : NmbmDesc} {dev : LowerDev} {s s' : Attached}

/-- A window of good blocks that can be read is read to its end. -/
theorem tryLoadLoop_reads (w : Nat) (hhdr : nmbmCheckInfoTableHeader d (windowImage d s.flash w) = true) :
    ∀ (n j : Nat) (cache : Nat → UInt8) (r : Attached), n + j = d.infoBlks →
      r.flash.page = s.flash.page →
      (∀ b, w + j ≤ b → b < w + j + n → Readable d dev b ∧ isGood r.tbl b = true) →
      ∃ x, (tryLoadLoop d dev n (w + j) (d.infoTableSize - j * d.blkSize)
        (if j = 0 then none else some w) cache r).1 = some x
  | 0, j, cache, r, hj, _, _ => by
      have hk := le_infoBlks_mul d
      rw [Nat.zero_add] at hj
      subst hj
      rw [tryLoadLoop, if_pos (by omega)]
      exact ⟨_, rfl⟩
  | n + 1, j, cache, r, hj, hpage, hall => by
      have hk := infoBlks_mul_lt d
      have hblk := blkSize_ge d
      have hsize : 32 ≤ d.infoTableSize := by
        have h₁ := stateTableOff_ge d
        have h₂ := mappingTableOff_ge d
        have h₃ := infoTableSize_ge d
        omega
      have hnj : (n + j) * d.blkSize + d.blkSize = d.infoBlks * d.blkSize := by
        rw [← hj, show n + 1 + j = n + j + 1 by omega, Nat.succ_mul]
      have hadd : (n + j) * d.blkSize = n * d.blkSize + j * d.blkSize := Nat.add_mul _ _ _
      have hsucc : (j + 1) * d.blkSize = j * d.blkSize + d.blkSize := Nat.succ_mul _ _
      obtain ⟨hread, hgood⟩ := hall (w + j) (Nat.le_refl _) (by omega)
      have hfirst : (if j = 0 then none else some w) = none → nmbmCheckInfoTableHeader d
          (fun a => loadChunk d r.flash (w + j) (d.infoTableSize - (d.infoTableSize - j * d.blkSize))
            (min (d.infoTableSize - j * d.blkSize) d.blkSize) cache
            (d.infoTableSize - (d.infoTableSize - j * d.blkSize) + a)) = true := by
        intro hnone
        have hj0 : j = 0 := by
          by_contra hne
          rw [if_neg hne] at hnone
          cases hnone
        subst hj0
        rw [← hhdr]
        apply nmbmCheckInfoTableHeader_congr
        intro a ha
        rw [Nat.zero_mul, Nat.sub_zero, Nat.sub_self, Nat.zero_add, loadChunk,
          if_pos ⟨Nat.zero_le a, by omega⟩, Nat.sub_zero, ← windowImage_congr hpage w, windowImage,
          Nat.div_eq_of_lt (by omega), Nat.mod_eq_of_lt (by omega)]
      obtain ⟨r₁, htbl, hpage₁, heq⟩ := tryLoadLoop_take n (if j = 0 then none else some w) cache hread
        hgood (by omega) hfirst
      rw [heq, show d.infoTableSize - j * d.blkSize - min (d.infoTableSize - j * d.blkSize) d.blkSize
        = d.infoTableSize - (j + 1) * d.blkSize by omega]
      have hstart : some ((if j = 0 then none else some w).getD (w + j))
          = (if j + 1 = 0 then none else some w) := by
        cases j with
        | zero => rfl
        | succ j => rfl
      rw [hstart, Nat.add_assoc]
      refine tryLoadLoop_reads w hhdr n (j + 1) _ r₁ (by omega) (hpage₁.trans hpage) fun b h₁ h₂ => ?_
      rw [htbl]
      exact hall b (by omega) (by omega)

/-- A block that is bad to the loader is passed over, and the table does not fit in what is left
of the window. -/
theorem tryLoadLoop_bad {ba : Nat} (cache : Nat → UInt8)
    (hbad : isGood s.tbl ba = true → ∀ t, dev.isBad t ba = true) :
    (tryLoadLoop d dev d.infoBlks ba d.infoTableSize none cache s).1 = none := by
  have hpos := infoTableSize_pos (d := d)
  have hk := infoBlks_mul_lt d
  obtain ⟨n, hn⟩ := Nat.exists_eq_succ_of_ne_zero (infoBlks_pos d).ne'
  rw [hn, Nat.succ_mul] at hk
  rw [hn, Nat.succ_eq_add_one, tryLoadLoop, if_neg (by omega)]
  -- what is left is too short
  have hnone : ∀ s₁ : Attached, (tryLoadLoop d dev n (ba + 1) d.infoTableSize none cache s₁).1 = none := by
    intro s₁
    cases h : (tryLoadLoop d dev n (ba + 1) d.infoTableSize none cache s₁).1 with
    | none => rfl
    | some x =>
      have := tryLoadLoop_le n _ _ _ _ s₁ h
      omega
  by_cases hg : isGood s.tbl ba = true
  · rw [if_neg (by simp [hg])]
    dsimp only
    rw [if_pos (by rw [lowerIsbad]; exact hbad hg _)]
    exact hnone _
  · rw [if_pos (by simpa using hg)]
    exact hnone s

theorem tryLoadLoop_cache : ∀ (n ba rest : Nat) (start : Option Nat) (cache : Nat → UInt8)
    (s : Attached) {x y : Nat} {m : Nat → UInt8} {s' : Attached},
    tryLoadLoop d dev n ba rest start cache s = (some (x, y, m), s') → s'.tbl.infoTableCache = m
  | 0, ba, rest, start, cache, s, x, y, m, s', h => by
      rw [tryLoadLoop] at h
      obtain ⟨h₁, rfl⟩ := Prod.mk.inj h
      split at h₁
      · cases h₁
        rfl
      · cases h₁
  | n + 1, ba, rest, start, cache, s, x, y, m, s', h => by
      by_cases hrest : rest = 0
      · rw [tryLoadLoop, if_pos hrest] at h
        cases h
        rfl
      · obtain ⟨s₁, -, heq | heq | ⟨-, heq⟩⟩ := @tryLoadLoop_succ d dev n ba rest start cache s hrest
        · exact tryLoadLoop_cache n (ba + 1) rest start cache s₁ (heq ▸ h)
        · rw [heq] at h
          cases h
        · exact tryLoadLoop_cache n (ba + 1) _ _ _ s₁ (heq ▸ h)

theorem checkMappingLoop_isSome (ni : NmbmInstance) (map : Nat → BitVec 32) (stop : Nat) :
    ∀ (n ba low : Nat), (∀ i, ba ≤ i → i < ba + n →
      ¬ (ni.dataBlockCount ≤ (map i).toNat ∧ (map i).toNat < stop) ∧ (map i).toNat ≠ ni.signatureBa) →
      ∃ r, checkMappingLoop ni map stop n ba low = some r
  | 0, _, low, _ => ⟨low, rfl⟩
  | n + 1, ba, low, h => by
      rw [checkMappingLoop]
      rw [if_neg (not_or.2 (h ba (Nat.le_refl _) (by omega)))]
      exact checkMappingLoop_isSome ni map stop n (ba + 1) _ fun i h₁ h₂ => h i (by omega) (by omega)

/-- What `nmbm_check_info_table` asks of a table in the blocks `start .. stop - 1`. -/
structure LoaderAccepts (ni : NmbmInstance) (start stop : Nat) (state map : Nat → BitVec 32) :
    Prop where
  mapped : ∀ i < ni.dataBlockCount,
    ¬ (ni.dataBlockCount ≤ (map i).toNat ∧ (map i).toNat < stop) ∧ (map i).toNat ≠ ni.signatureBa
  good : ∀ b, start ≤ b → b < stop → field state b = blockStGood

/-- The tables in the cache are those of the image. -/
theorem ImageOf.fields {img m : Nat → UInt8} {state map : Nat → BitVec 32} {wc : Nat}
    (h : ImageOf d img state map wc) (hm : ∀ a < d.infoTableSize, m a = img a) :
    (∀ i < d.blockCount, getWord m (get32 m 24) i = map i) ∧
      ∀ b < d.blockCount, field (getWord m (get32 m 20)) b = field state b := by
  have hcopy := h.congr hm
  refine ⟨fun i hi => ?_, fun b hb => ?_⟩
  · rw [hcopy.mapOff, hcopy.map i hi]
  · unfold field
    rw [hcopy.stateOff, hcopy.state (b / 16) (by unfold NmbmDesc.stateWords; omega)]

/-- The window at `start` offers a table to the loader: its blocks can be read, and the image in
them is acceptable. -/
structure Offered (d : NmbmDesc) (dev : LowerDev) (s : Attached) (img : Nat → UInt8)
    (state map : Nat → BitVec 32) (wc start : Nat) : Prop where
  image : ImageOf d img state map wc
  window : ∀ a < d.infoTableSize, windowImage d s.flash start a = img a
  blocks : ∀ b, start ≤ b → b < start + d.infoBlks → Readable d dev b ∧ isGood s.tbl b = true
  dbc_le : s.tbl.dataBlockCount ≤ d.blockCount
  stop_le : start + d.infoBlks ≤ d.blockCount
  accepts : LoaderAccepts s.tbl start (start + d.infoBlks) state map

/-- What is offered is loaded. -/
theorem Offered.load {img : Nat → UInt8} {state map : Nat → BitVec 32} {wc start : Nat}
    (h : Offered d dev s img state map wc start) (loaded : Bool) :
    ∃ t s', nmbmTryLoadInfoTable d dev s start loaded = (some t, s') ∧ t.start = start ∧
      t.stop = start + d.infoBlks ∧ ∀ a < d.infoTableSize, s'.tbl.infoTableCache a = img a := by
  obtain ⟨himg, hwin, hall, hdbc, hstop, hacc⟩ := h
  have h₁ := stateTableOff_ge d
  have h₂ := mappingTableOff_ge d
  have h₃ := infoTableSize_ge d
  have hhdr : nmbmCheckInfoTableHeader d (windowImage d s.flash start) = true :=
    (himg.congr hwin).hdr
  obtain ⟨⟨x, y, m⟩, hx⟩ := tryLoadLoop_reads start hhdr d.infoBlks 0 s.tbl.infoTableCache s rfl rfl hall
  obtain ⟨rfl, rfl, hm, -⟩ := tryLoadLoop_window start d.infoBlks 0 s.tbl.infoTableCache s rfl
    (fun a ha => absurd ha (by omega)) (fun h0 => absurd h0 (by omega)) hx
  rw [Nat.zero_mul, Nat.sub_zero, Nat.add_zero, if_pos rfl] at hx
  have hprobe := @tryLoadLoop_probed d dev d.infoBlks x d.infoTableSize none s.tbl.infoTableCache s
  unfold nmbmTryLoadInfoTable
  rcases hloop : tryLoadLoop d dev d.infoBlks x d.infoTableSize none s.tbl.infoTableCache s with
    ⟨r, s₁⟩
  rw [hloop] at hx hprobe
  obtain rfl : r = some (x, x + d.infoBlks, m) := hx
  have hcache := tryLoadLoop_cache _ _ _ _ _ _ hloop
  have hmi : ∀ a < d.infoTableSize, m a = img a := fun a ha => (hm a ha).trans (hwin a ha)
  obtain ⟨hmap, hstate⟩ := himg.fields hmi
  have hdbc₁ : s₁.tbl.dataBlockCount = s.tbl.dataBlockCount := by rw [hprobe.rest]
  have hsig₁ : s₁.tbl.signatureBa = s.tbl.signatureBa := by rw [hprobe.rest]
  have hcheck : ∃ top, nmbmCheckInfoTable s₁.tbl x (x + d.infoBlks) m = some top := by
    obtain ⟨low, hlow⟩ := checkMappingLoop_isSome s₁.tbl (getWord m (get32 m 24)) (x + d.infoBlks)
      s₁.tbl.dataBlockCount 0 s₁.tbl.signatureBa fun i _ hi => by
        rw [hdbc₁] at hi
        rw [hmap i (by omega), hdbc₁, hsig₁]
        exact hacc.mapped i (by omega)
    refine ⟨subU32 low 1, ?_⟩
    unfold nmbmCheckInfoTable
    rw [hlow]
    dsimp only
    rw [if_pos]
    rw [List.all_eq_true]
    intro b hb
    rw [List.mem_range'_1] at hb
    rw [hstate b (by omega), hacc.good b hb.1 (by omega)]
    simp
  obtain ⟨top, htop⟩ := hcheck
  dsimp only
  rw [if_neg (by simp [nmbmCheckHeader_congr (by omega : 16 ≤ d.infoTableSize) hmi, himg.crc]), htop]
  dsimp only
  split
  · refine ⟨_, _, rfl, rfl, rfl, fun a ha => ?_⟩
    show s₁.tbl.infoTableCache a = img a
    rw [hcache, hmi a ha]
  · refine ⟨_, _, rfl, rfl, rfl, fun a ha => ?_⟩
    rw [hcache, hmi a ha]

/-- A probe does not take the offer back. -/
theorem Offered.of_probed {img : Nat → UInt8} {state map : Nat → BitVec 32} {wc start : Nat}
    (h : Offered d dev s img state map wc start) (hp : Probed s s') (hm : Marked d dev s s') :
    Offered d dev s' img state map wc start where
  image := h.image
  window := by
    rw [windowImage_congr hp.page]
    exact h.window
  blocks := by
    intro b h₁ h₂
    obtain ⟨hr, hg⟩ := h.blocks b h₁ h₂
    exact ⟨hr, hm.isGood_of_readable hr hg⟩
  dbc_le := by
    rw [hp.rest]
    exact h.dbc_le
  stop_le := h.stop_le
  accepts := by
    rw [hp.rest]
    exact ⟨h.accepts.mapped, h.accepts.good⟩

/-- At a block that is bad to the loader there is no table. -/
theorem nmbmTryLoadInfoTable_bad {ba : Nat} (hbad : isGood s.tbl ba = true → ∀ t, dev.isBad t ba = true)
    (loaded : Bool) : ∃ s', nmbmTryLoadInfoTable d dev s ba loaded = (none, s') ∧ Probed s s' ∧
      Marked d dev s s' := by
  have hprobe := @tryLoadLoop_probed d dev d.infoBlks ba d.infoTableSize none s.tbl.infoTableCache s
  have hmarked := @tryLoadLoop_marked d dev d.infoBlks ba d.infoTableSize none s.tbl.infoTableCache s
  have hnone := tryLoadLoop_bad s.tbl.infoTableCache hbad (d := d)
  unfold nmbmTryLoadInfoTable
  rcases hloop : tryLoadLoop d dev d.infoBlks ba d.infoTableSize none s.tbl.infoTableCache s with
    ⟨_ | x, s₁⟩
  · rw [hloop] at hprobe hmarked
    exact ⟨s₁, rfl, hprobe, hmarked⟩
  · rw [hloop] at hnone
    cases hnone

/-- The search passes over bad blocks and finds what is offered behind them. -/
theorem Offered.search {img : Nat → UInt8} {state map : Nat → BitVec 32} {wc start : Nat}
    {loaded : Bool} : ∀ (n ba : Nat) {s : Attached}, Offered d dev s img state map wc start →
    ba ≤ start → start < ba + n →
    (∀ b, ba ≤ b → b < start → isGood s.tbl b = true → ∀ t, dev.isBad t b = true) →
    ∃ t s', searchLoop d dev loaded n ba s = (some t, s') ∧ t.start = start ∧
      t.stop = start + d.infoBlks ∧ ∀ a < d.infoTableSize, s'.tbl.infoTableCache a = img a
  | 0, ba, s, _, _, hlt, _ => by omega
  | n + 1, ba, s, h, hle, hlt, hbad => by
      rw [searchLoop]
      rcases Nat.eq_or_lt_of_le hle with rfl | hlt'
      · obtain ⟨t, s', ht, hrest⟩ := h.load loaded
        rw [ht]
        exact ⟨t, s', rfl, hrest⟩
      · obtain ⟨s₁, hs₁, hp, hm⟩ := nmbmTryLoadInfoTable_bad (d := d)
          (hbad ba (Nat.le_refl _) hlt') loaded
        rw [hs₁]
        exact Offered.search n (ba + 1) (h.of_probed hp hm) hlt' (by omega) fun b h₁ h₂ hg =>
          hbad b (by omega) h₂ (hm.isGood_of_isGood hg)

/-- What is loaded is acceptable, and lies in blocks in a row. -/
theorem nmbmTryLoadInfoTable_accepts {img : Nat → UInt8} {state map : Nat → BitVec 32}
    {wc start : Nat} {loaded : Bool} {t : FoundTable}
    (himg : ImageOf d img state map wc) (hdbc : s.tbl.dataBlockCount ≤ d.blockCount)
    (h : nmbmTryLoadInfoTable d dev s start loaded = (some t, s'))
    (hcache : ∀ a < d.infoTableSize, s'.tbl.infoTableCache a = img a) :
    t.stop = start + d.infoBlks ∧
      (∀ i < s.tbl.dataBlockCount, ¬ (s.tbl.dataBlockCount ≤ (map i).toNat ∧ (map i).toNat < t.stop) ∧
        (map i).toNat ≠ s.tbl.signatureBa) ∧
      ∀ b, start ≤ b → b < t.stop → b < d.blockCount → Readable d dev b → isGood s.tbl b = true →
        field state b = blockStGood := by
  have hprobe := @tryLoadLoop_probed d dev d.infoBlks start d.infoTableSize none s.tbl.infoTableCache s
  have hmarked := @tryLoadLoop_marked d dev d.infoBlks start d.infoTableSize none
    s.tbl.infoTableCache s
  unfold nmbmTryLoadInfoTable at h
  rcases hloop : tryLoadLoop d dev d.infoBlks start d.infoTableSize none s.tbl.infoTableCache s with
    ⟨_ | ⟨x, y, m⟩, s₁⟩
  · rw [hloop] at h
    cases h
  rw [hloop] at h hprobe hmarked
  have hsome : (tryLoadLoop d dev d.infoBlks (start + 0) (d.infoTableSize - 0 * d.blkSize)
      (if (0 : Nat) = 0 then none else some start) s.tbl.infoTableCache s).1 = some (x, y, m) := by
    rw [Nat.zero_mul, Nat.sub_zero, Nat.add_zero, if_pos rfl, hloop]
  obtain ⟨rfl, rfl, -, -⟩ := tryLoadLoop_window start d.infoBlks 0 s.tbl.infoTableCache s rfl
    (fun a ha => absurd ha (by omega)) (fun h0 => absurd h0 (by omega)) hsome
  have hcache₁ := tryLoadLoop_cache _ _ _ _ _ _ hloop
  dsimp only at h
  split at h
  · cases h
  rcases hcheck : nmbmCheckInfoTable s₁.tbl x (x + d.infoBlks) m with _ | top
  · simp only [hcheck] at h
    cases h
  simp only [hcheck] at h
  have hm : ∀ a < d.infoTableSize, m a = img a := by
    intro a ha
    rw [← hcache a ha, ← hcache₁]
    split at h <;> cases h <;> rfl
  have hstop : t.stop = x + d.infoBlks := by
    split at h <;> cases h <;> rfl
  obtain ⟨hmap, hstate⟩ := himg.fields hm
  have hdbc₁ : s₁.tbl.dataBlockCount = s.tbl.dataBlockCount := by rw [hprobe.rest]
  have hsig₁ : s₁.tbl.signatureBa = s.tbl.signatureBa := by rw [hprobe.rest]
  have htop := nmbmCheckInfoTable_topOf (fun i hi => hmap i (by omega)) hcheck
  rw [hdbc₁, hsig₁] at htop
  refine ⟨hstop, by rw [hstop]; exact htop.ok, fun b h₁ h₂ hb hr hg => ?_⟩
  -- the check of the states, at a block that is good
  unfold nmbmCheckInfoTable at hcheck
  split at hcheck
  · cases hcheck
  · split at hcheck
    · next hall =>
      rw [List.all_eq_true] at hall
      have hcell := hall b (by rw [List.mem_range'_1]; omega)
      rw [hmarked.isGood_of_readable hr hg, hstate b hb] at hcell
      simpa using hcell
    · cases hcheck

end Loading

/-! ## Tables that were written -/

section Reload

variable {d : NmbmDesc} {dev dev' : LowerDev} {s s' r : Attached}

/-- The chip is read later, maybe after a reboot: the blocks of the table that are good can be
read and hold what was written. -/
structure ReadsBack (d : NmbmDesc) (dev : LowerDev) (s r : Attached) (start stop : Nat) : Prop where
  page : ∀ p, start ≤ p / d.ppb → p / d.ppb < stop → r.flash.page p = s.flash.page p
  blocks : ∀ b, start ≤ b → b < stop → isGood s.tbl b = true →
    Readable d dev b ∧ isGood r.tbl b = true

/-- The table in the blocks `start .. stop - 1` is loaded from there, and it is found from every
block on from which there are only bad blocks before it. -/
structure Reloaded (d : NmbmDesc) (dev : LowerDev) (r : Attached) (img : Nat → UInt8)
    (start stop : Nat) : Prop where
  loads : ∀ loaded, ∃ t r', nmbmTryLoadInfoTable d dev r start loaded = (some t, r') ∧
    t.stop = stop ∧ ∀ a < d.infoTableSize, r'.tbl.infoTableCache a = img a
  found : ∀ loaded ba, ba ≤ start →
    (∀ b, ba ≤ b → b < start → isGood r.tbl b = true → ∀ t, dev.isBad t b = true) →
    ∃ t r', nmbmSearchInfoTable d dev r ba r.tbl.signatureBa loaded = (some t, r') ∧
      t.start = start ∧ t.stop = stop ∧ ∀ a < d.infoTableSize, r'.tbl.infoTableCache a = img a

/-- The bytes of a window are those of its blocks. -/
theorem windowImage_readsBack {start stop : Nat} (h : ReadsBack d dev' s' r start stop)
    (hstop : stop = start + d.infoBlks) (a : Nat) (ha : a < d.infoTableSize) :
    windowImage d r.flash start a = windowImage d s'.flash start a := by
  have hk := le_infoBlks_mul d
  have hdiv : a / d.blkSize < d.infoBlks := by
    rw [Nat.div_lt_iff_lt_mul d.blkSize_pos]
    omega
  have hpg : a % d.blkSize / d.pgSize < d.ppb := by
    rw [Nat.div_lt_iff_lt_mul d.pgSize_pos, d.ppb_mul_pgSize]
    exact Nat.mod_lt _ d.blkSize_pos
  unfold windowImage blockByte pageByte
  have hblk := d.blkPg_add_div (start + a / d.blkSize) hpg
  rw [h.page _ (by rw [hblk]; exact Nat.le_add_right _ _)
    (by rw [hblk, hstop]; exact Nat.add_lt_add_left hdiv start)]

/-- **A table that `nmbm_write_mgmt_range` wrote is loaded again exactly if none of its blocks is
bad and the loader accepts what it says.** -/
theorem writtenTable_reloaded_iff {state map : Nat → BitVec 32} {wc ba limit start stop : Nat}
    (himg : ImageOf d s.tbl.infoTableCache state map wc)
    (hw : nmbmWriteInfoTable d dev s ba limit = (some (start, stop), s'))
    (hr : ReadsBack d dev' s' r start stop) (hdbc : r.tbl.dataBlockCount ≤ d.blockCount)
    (hlimit : limit < r.tbl.signatureBa) (hsig : r.tbl.signatureBa < d.blockCount) :
    Reloaded d dev' r s.tbl.infoTableCache start stop ↔
      (∀ b, start ≤ b → b < stop → isGood s'.tbl b = true) ∧
        LoaderAccepts r.tbl start stop state map := by
  obtain ⟨hba, hle, bs, hfresh⟩ :=
    @nmbmWriteInfoTable_stored d dev s ba limit (start, stop) (by rw [hw])
  rw [hw] at hfresh
  dsimp only at hba hle hfresh
  have hgood : (∀ b, start ≤ b → b < stop → isGood s'.tbl b = true) ↔ stop = start + d.infoBlks := by
    rw [← hfresh.allGood_iff]
    exact forall_congr' fun b => forall₂_congr fun _ _ => isGood_iff s'.tbl b
  constructor
  · intro h
    obtain ⟨t, r', ht, hstop, hcache⟩ := h.loads false
    obtain ⟨hlen, hmap, hstate⟩ := nmbmTryLoadInfoTable_accepts himg hdbc ht hcache
    have hall := hgood.2 (hstop ▸ hlen)
    rw [hstop] at hmap hstate
    refine ⟨hall, hmap, fun b h₁ h₂ => ?_⟩
    obtain ⟨hread, hg⟩ := hr.blocks b h₁ h₂ (hall b h₁ h₂)
    exact hstate b h₁ h₂ (by omega) hread hg
  · rintro ⟨hall, hacc⟩
    obtain rfl := hgood.1 hall
    have hoffer : Offered d dev' r s.tbl.infoTableCache state map wc start := by
      refine ⟨himg, fun a ha => ?_, fun b h₁ h₂ => hr.blocks b h₁ h₂ (hall b h₁ h₂), hdbc, by omega,
        hacc⟩
      rw [windowImage_readsBack hr rfl a ha]
      exact hfresh.stored.windowImage
        (fun b h₁ h₂ => (hfresh.good b h₁ h₂).2 ((isGood_iff s'.tbl b).1 (hall b h₁ h₂))) a ha
    refine ⟨fun loaded => ?_, fun loaded w hfrom hbad => ?_⟩
    · obtain ⟨t, r', ht, -, hstop, hcache⟩ := hoffer.load loaded
      exact ⟨t, r', ht, hstop, hcache⟩
    · refine hoffer.search _ w hfrom ?_ hbad
      have hsub : subU32 r.tbl.signatureBa d.infoBlks = r.tbl.signatureBa - d.infoBlks := by
        have := d.totalBlks_lt
        unfold NmbmDesc.blockCount at hsig
        unfold subU32
        omega
      rw [hsub]
      omega

/-- A mapping of the first `c` logical blocks: into the data area or above `lo`,
never to the signature, no block twice, and nothing behind. -/
structure MapOk (mgmt lo sig c : Nat) (map : Nat → BitVec 32) : Prop where
  c_le : c ≤ mgmt
  mapped : ∀ i < c, (map i).toNat < 2 ^ 31
  unmapped : ∀ i, c ≤ i → i < mgmt → map i = -1#32
  inj : ∀ i < c, ∀ j < c, map i = map j → i = j
  above : ∀ i < c, mgmt ≤ (map i).toNat → lo < (map i).toNat ∧ (map i).toNat ≠ sig

/-- The loader accepts what this driver writes: the mapping is in order above the table, and the
good blocks are marked so. -/
theorem MapOk.loaderAccepts {ni : NmbmInstance} {lo c start stop : Nat} {state map : Nat → BitVec 32}
    (h : MapOk ni.dataBlockCount lo ni.signatureBa c map) (hlo : stop ≤ lo)
    (hsig : ni.dataBlockCount ≤ ni.signatureBa) (hlt : lo < ni.signatureBa)
    (hsig' : ni.signatureBa < 65536)
    (hgood : ∀ b, start ≤ b → b < stop → field state b = blockStGood) :
    LoaderAccepts ni start stop state map := by
  refine ⟨fun i hi => ?_, hgood⟩
  by_cases hic : i < c
  · by_cases hm : ni.dataBlockCount ≤ (map i).toNat
    · obtain ⟨h₁, h₂⟩ := h.above i hic hm
      exact ⟨by omega, h₂⟩
    · exact ⟨by omega, by omega⟩
  · rw [h.unmapped i (by omega) hi, show (-1#32).toNat = 4294967295 from rfl]
    exact ⟨by omega, by omega⟩

end Reload

/-! ## A chip on which writes succeed -/

section Works

variable {d : NmbmDesc} {dev : LowerDev} {s : Attached}

/-- Every erase, program and read succeeds; blocks may be called bad. -/
structure Works (dev : LowerDev) : Prop where
  erase : ∀ t b, dev.eraseOk t b = true
  write : ∀ t p, dev.writeOk t p = true
  stored : ∀ t p old new, dev.stored t p old new = new
  reads : ∀ t p, (dev.readRet t p).failed = false

theorem Works.read (h : Works dev) (fl : Flash) (pg : Nat) : (nmbmReadPhysPage dev fl pg).1 = .ok := by
  have hret := h.reads fl.clock pg
  unfold nmbmReadPhysPage readPhysPage lowerRead
  cases hr : dev.readRet fl.clock pg with
  | ok n => rfl
  | euclean => rfl
  | ebadmsg => simp [hr, ReadRet.failed] at hret
  | eio => simp [hr, ReadRet.failed] at hret

theorem Works.eraseAndCheck (h : Works dev) (fl : Flash) (ba : Nat) :
    (nmbmEraseBlockAndCheck d dev fl ba).1 = true := by
  have hcheck : ∀ (n pg : Nat) (fl : Flash), (checkEmptyPages dev n pg fl).1 = true := by
    intro n
    induction n with
    | zero => exact fun _ _ => rfl
    | succ n ih =>
      intro pg fl
      rw [checkEmptyPages]
      dsimp only
      rw [if_neg (by simp [h.read])]
      exact ih _ _
  have herase : (nmbmErasePhysBlock d dev fl ba).1 = true := by
    simp [nmbmErasePhysBlock, nmbmTryCount, erasePhysBlock, lowerErase, h.erase]
  unfold nmbmEraseBlockAndCheck
  dsimp only
  rw [if_neg (by simp [herase])]
  split
  · rfl
  · exact hcheck _ _ _

theorem Works.verifyPage (h : Works dev) (fl : Flash) (pg : Nat) (dat : Nat → UInt8) {size : Nat}
    (hsize : size ≤ d.pgSize) : (writeVerifyPage d dev fl pg dat size).1 = true := by
  have hwrite : nmbmWritePhysPage dev fl pg (pageImage d dat size) =
      (true, (lowerWrite dev fl pg (pageImage d dat size)).2) := by
    simp [nmbmWritePhysPage, nmbmTryCount, writePhysPage, lowerWrite, h.write]
  unfold writeVerifyPage
  rw [hwrite]
  dsimp only
  rw [if_neg (by decide), if_neg (by simp [h.read])]
  rw [List.all_eq_true]
  intro i hi
  rw [List.mem_range] at hi
  obtain ⟨hp, -⟩ := nmbmReadPhysPage_flash dev (lowerWrite dev fl pg (pageImage d dat size)).2 pg
  unfold pageByte
  rw [hp]
  simp [lowerWrite, h.stored, pageImage, hi, show i < d.pgSize by omega]

theorem Works.verifyData (h : Works dev) (fl : Flash) (ba : Nat) (dat : Nat → UInt8) (size : Nat) :
    (nmbnWriteVerifyData d dev fl ba dat size).1 = true := by
  have hloop : ∀ (n pg : Nat) (dat : Nat → UInt8) (size : Nat) (fl : Flash),
      (writeVerifyLoop d dev n pg dat size fl).1 = true := by
    intro n
    induction n with
    | zero => exact fun _ _ _ _ => rfl
    | succ n ih =>
      intro pg dat size fl
      rw [writeVerifyLoop]
      dsimp only
      rw [if_neg (by simp [h.verifyPage fl pg dat (Nat.min_le_left d.pgSize size)])]
      exact ih _ _ _ _
  exact hloop _ _ _ _ _

/-- A good block takes its piece of the data. -/
theorem Works.takes (h : Works dev) (dat : Nat → UInt8) (size n start : Nat) {ba rest : Nat}
    (hrest : rest ≠ 0) (hg : isGood s.tbl ba = true) (hbad : ∀ t, dev.isBad t ba = false) :
    ∃ fl, writeMgmtLoop d dev dat size (n + 1) ba rest start s =
      writeMgmtLoop d dev dat size n (ba + 1) (rest - min rest d.blkSize)
        (if rest = size then ba else start) (withFlash s fl) := by
  rw [writeMgmtLoop, if_neg hrest, if_neg (by simp [hg])]
  dsimp only
  rw [if_neg (by simp [lowerIsbad, hbad]), if_neg (by simp [h.eraseAndCheck]),
    if_neg (by simp [h.verifyData])]
  exact ⟨_, rfl⟩

/-- A block that is called bad is passed over. -/
theorem writeMgmtLoop_passes (dat : Nat → UInt8) (size n start : Nat) {ba rest : Nat}
    (hrest : rest ≠ 0) (hg : isGood s.tbl ba = true) (hbad : ∀ t, dev.isBad t ba = true) :
    ∃ fl, writeMgmtLoop d dev dat size (n + 1) ba rest start s =
      writeMgmtLoop d dev dat size n (ba + 1) rest start (setBad (withFlash s fl) ba) := by
  rw [writeMgmtLoop, if_neg hrest, if_neg (by simp [hg])]
  dsimp only
  rw [if_pos (by rw [lowerIsbad]; exact hbad _)]
  exact ⟨_, rfl⟩

end Works

/-! ## A chip of 8192 blocks -/

/-- 128 MiB in blocks of 16 KiB; a table takes three of them. -/
def smallBlockChip : NmbmDesc where
  blkShift := 14
  pgShift := 9
  totalBlks := 8192
  pgShift_le := by decide
  totalBlks_lt := by decide
  remapRange := []
  disjoint := List.Pairwise.nil
  bmtPgs := 0
  oobOffset := 0
  size_le := by decide
  pgShift_ge := NmbmDesc.page512_ge
  oobSize := 16
  maxRatio := 1
  maxRatio_lt := by decide
  maxReservedBlocks := 0
  emptyPageEccOk := true
  forceCreate := true

theorem smallBlockChip_infoTableSize : smallBlockChip.infoTableSize = 35328 := by decide

theorem smallBlockChip_infoBlks : smallBlockChip.infoBlks = 3 := by decide

/-- A chip that works, with the blocks of `bad` marked bad. -/
def markedChip (bad : Nat → Bool) : LowerDev :=
  { LowerDev.perfect smallBlockChip.toGeometry with isBad := fun _ b => bad b }

theorem markedChip_works (bad : Nat → Bool) : Works (markedChip bad) :=
  ⟨fun _ _ => rfl, fun _ _ => rfl, fun _ _ _ _ => rfl, fun _ _ => rfl⟩

/-- The instance of a new chip without bad blocks, with the image of its table. -/
def freshInstance : Attached :=
  generateCache smallBlockChip
    { flash := { page := fun _ => smallBlockChip.erasedPage, log := [], clock := 0 }
      tbl := { nmbmInitStructure smallBlockChip with
        dataBlockCount := 7680
        mgmtStartBa := 7680
        mappingBlocksTopBa := 8189
        signatureBa := 8191
        blockMapping := fun i => if i < 7680 then BitVec.ofNat 32 i else -1#32
        blockMappingChanged := 1 } }

theorem field_neg_one (t : Nat → BitVec 32) (b : Nat) (h : t (b / 16) = -1#32) :
    field t b = blockStGood := by
  have hlt : b % 16 < 16 := Nat.mod_lt _ (by decide)
  unfold field
  rw [h]
  generalize b % 16 = k at hlt ⊢
  interval_cases k <;> rfl

theorem freshInstance_good {b : Nat} (hb : b < 8192) : isGood freshInstance.tbl b = true := by
  rw [isGood_iff]
  refine field_neg_one _ b (if_pos ?_)
  show b / 16 < 512
  omega

theorem freshInstance_image : ∃ wc, ImageOf smallBlockChip freshInstance.tbl.infoTableCache
    freshInstance.tbl.blockState freshInstance.tbl.blockMapping wc :=
  ⟨_, nmbmGenerate_image (by decide) ⟨rfl, rfl⟩ (by decide)⟩

/-- Without bad blocks the table takes three blocks. -/
theorem freshInstance_write : ∃ fl,
    nmbmWriteInfoTable smallBlockChip (markedChip fun _ => false) freshInstance 7680 8189 =
      (some (7680, 7683), withFlash freshInstance fl) := by
  have hworks := markedChip_works fun _ => false
  have hsize := smallBlockChip_infoTableSize
  have hblk : smallBlockChip.blkSize = 16384 := by decide
  unfold nmbmWriteInfoTable
  rw [hsize, show 8189 - 7680 = 506 + 1 + 1 + 1 from rfl]
  obtain ⟨fl₁, h₁⟩ := @Works.takes smallBlockChip _ freshInstance hworks
    freshInstance.tbl.infoTableCache 35328 (506 + 1 + 1) 0 7680 35328 (by decide)
    (freshInstance_good (by decide)) fun _ => rfl
  obtain ⟨fl₂, h₂⟩ := @Works.takes smallBlockChip _ (withFlash freshInstance fl₁) hworks
    freshInstance.tbl.infoTableCache 35328 (506 + 1) 7680 7681 18944 (by decide)
    (freshInstance_good (by decide)) fun _ => rfl
  obtain ⟨fl₃, h₃⟩ := @Works.takes smallBlockChip _ (withFlash freshInstance fl₂) hworks
    freshInstance.tbl.infoTableCache 35328 506 7680 7682 2560 (by decide)
    (freshInstance_good (by decide)) fun _ => rfl
  refine ⟨fl₃, ?_⟩
  rw [h₁, hblk]
  refine h₂.trans ?_
  rw [hblk]
  refine h₃.trans ?_
  rw [hblk]
  exact writeMgmtLoop_rest_zero _ _ _ _ _ _ _

/-- It is loaded again. -/
theorem freshInstance_reloaded : ∃ fl, Reloaded smallBlockChip (markedChip fun _ => false)
    (withFlash freshInstance fl) freshInstance.tbl.infoTableCache 7680 7683 := by
  obtain ⟨fl, hw⟩ := freshInstance_write
  obtain ⟨wc, himg⟩ := freshInstance_image
  have hgood : ∀ b, 7680 ≤ b → b < 7683 → isGood freshInstance.tbl b = true :=
    fun b _ h => freshInstance_good (by omega)
  refine ⟨fl, (writtenTable_reloaded_iff
    (r := withFlash freshInstance fl) himg hw
    ⟨fun _ _ _ => rfl, fun b h₁ h₂ hg => ⟨⟨fun _ => rfl, fun _ _ _ => rfl⟩, hg⟩⟩
    (show 7680 ≤ 8192 by decide) (show 8189 < 8191 by decide)
    (show 8191 < 8192 by decide)).2 ⟨hgood, ?_⟩⟩
  refine ⟨fun i hi => ?_, fun b h₁ h₂ => (isGood_iff _ b).1 (hgood b h₁ h₂)⟩
  have hi' : i < 7680 := hi
  have hmap : freshInstance.tbl.blockMapping i = BitVec.ofNat 32 i := if_pos hi'
  have hnat : (freshInstance.tbl.blockMapping i).toNat = i := by
    rw [hmap, BitVec.toNat_ofNat]
    omega
  rw [hnat]
  refine ⟨fun h => ?_, ?_⟩
  · have : 7680 ≤ i := h.1
    omega
  · show i ≠ 8191
    omega

/-- With block 7681 marked bad the table takes the blocks 7680, 7682 and 7683, and no instance
loads it again from any chip. -/
theorem spreadTable_not_reloaded :
    (nmbmWriteInfoTable smallBlockChip (markedChip fun b => b == 7681) freshInstance 7680 8189).1 =
        some (7680, 7684) ∧
      ∀ (dev : LowerDev) (r : Attached), r.tbl.dataBlockCount ≤ smallBlockChip.blockCount →
        ¬ Reloaded smallBlockChip dev r freshInstance.tbl.infoTableCache 7680 7684 := by
  have hworks := markedChip_works fun b => b == 7681
  have hsize := smallBlockChip_infoTableSize
  have hblk : smallBlockChip.blkSize = 16384 := by decide
  constructor
  · unfold nmbmWriteInfoTable
    rw [hsize, show 8189 - 7680 = 505 + 1 + 1 + 1 + 1 from rfl]
    obtain ⟨fl₁, h₁⟩ := @Works.takes smallBlockChip _ freshInstance hworks
      freshInstance.tbl.infoTableCache 35328 (505 + 1 + 1 + 1) 0 7680 35328
      (by decide) (freshInstance_good (by decide)) fun _ => rfl
    obtain ⟨fl₂, h₂⟩ := @writeMgmtLoop_passes smallBlockChip
      (markedChip fun b => b == 7681) (withFlash freshInstance fl₁)
      freshInstance.tbl.infoTableCache 35328 (505 + 1 + 1) 7680 7681 18944
      (by decide) (freshInstance_good (by decide)) fun _ => rfl
    have hgood : ∀ b < 8192, b ≠ 7681 → ∀ fl,
        isGood (withFlash (setBad (withFlash freshInstance fl₂) 7681) fl).tbl b = true := by
      intro b hb hne fl
      rw [isGood_iff]
      refine (getBlockState_setBad (withFlash freshInstance fl₂) 7681 b).trans ?_
      rw [if_neg hne]
      exact (isGood_iff _ b).1 (freshInstance_good hb)
    obtain ⟨fl₃, h₃⟩ := @Works.takes smallBlockChip _
      (setBad (withFlash freshInstance fl₂) 7681) hworks freshInstance.tbl.infoTableCache 35328
      (505 + 1) 7680 7682 18944 (by decide)
      (hgood 7682 (by decide) (by decide) fl₂) fun _ => rfl
    obtain ⟨fl₄, h₄⟩ := @Works.takes smallBlockChip _
      (withFlash (setBad (withFlash freshInstance fl₂) 7681) fl₃) hworks
      freshInstance.tbl.infoTableCache 35328 505 7680 7683 2560 (by decide)
      (hgood 7683 (by decide) (by decide) fl₃) fun _ => rfl
    rw [hblk] at h₁ h₃ h₄
    exact congrArg Prod.fst (h₁.trans (h₂.trans (h₃.trans (h₄.trans
      (writeMgmtLoop_rest_zero _ _ _ _ _ _ _)))))
  · intro dev r hdbc h
    obtain ⟨wc, himg⟩ := freshInstance_image
    obtain ⟨t, r', ht, hstop, hcache⟩ := h.loads false
    obtain ⟨hlen, -⟩ := nmbmTryLoadInfoTable_accepts himg hdbc ht hcache
    rw [hstop, smallBlockChip_infoBlks] at hlen
    cases hlen

end Lede.Nmbm
