/-
Lede.Tffs.LookupTheorems — what a lookup finds.

`findEntry_iff`: on a flash of valid blocks, and after any lookups, a lookup gives the value of the
newest revision exactly when that one is complete, provided that the array of no revision grows
twice. The ids that earlier lookups have left do not matter.

The array grows twice for three segments in their order (`threeSegments_fault`): the second time,
the `memset` clears bytes far behind the array instead of the new slots.
-/
import Lede.Tffs.ScanTheorems

namespace Lede.Tffs

open Lede.Lib

/-! ## Entries on a flash -/

section

variable (t : Reader) (id : BitVec 32)

/-- The id that a sector starts with. -/
def idAt (sector : Nat) : Option (BitVec 32) := (t.sector sector).map fun buf => t.readUint32 buf 0

/-- The segment of an entry in a good sector. -/
def segmentIn (sector : Nat) : Option Segment :=
  if goodSector t sector ∧ idAt t sector = some id ∧ id ≠ TFFS_ID_END then
    (t.sector sector).map (segmentOf t)
  else none

/-- The segments of an entry on the good sectors. -/
def segmentsOf : List Segment := (List.range t.numSectors).filterMap (segmentIn t id)

/-- The number and the link of a segment of an entry of `n`. -/
def Segment.LinksTo (n : Nat) (e : Segment) : Prop :=
  e.seg.toNat < n ∧ e.nextSeg.toNat = if e.seg.toNat + 1 = n then 0 else e.seg.toNat + 1

instance (n : Nat) (e : Segment) : Decidable (e.LinksTo n) := inferInstanceAs (Decidable (_ ∧ _))

/-- The newest revision is complete, and its segments in their order are the value. A segment that
is there twice counts as the last one says. -/
def Found (val : List UInt8) : Prop :=
  ∃ n, 0 < n ∧ (∀ e ∈ ofRev (segmentsOf t id) (topRev (segmentsOf t id)), e.LinksTo n) ∧
    ∃ vals : List (List UInt8), vals.length = n ∧
      (∀ i (hi : i < vals.length),
        lastVal (segmentsOf t id) (topRev (segmentsOf t id)) i = some vals[i]) ∧
      val = vals.flatten

/-- A flash of valid blocks: headers list sectors of their blocks; good sectors can be read, agree
with their out-of-band bytes, and hold a segment each until the unused ones at the end of the block;
and the segments of a revision link to each other. -/
structure Valid : Prop where
  lists : ListsOwn t
  readable : ∀ s < t.numSectors, goodSector t s → ∃ buf oob, t.sector s = some buf ∧
    t.oob s = some oob ∧ (t.readOobSectorHealth → oobAgrees t buf oob) ∧
    (t.readUint32 buf 0x00 ≠ TFFS_ID_END →
      (t.readUint32 buf 0x04).toNat ≤ TFFS_MAXIMUM_SEGMENT_SIZE)
  tail : ∀ s s', s ≤ s' → s' < t.numSectors → s / t.sectorsPerBlock = s' / t.sectorsPerBlock →
    goodSector t s → goodSector t s' → idAt t s = some TFFS_ID_END → idAt t s' = some TFFS_ID_END
  links : ∀ id rev, ∃ n ≤ t.numSectors, ∀ e ∈ ofRev (segmentsOf t id) rev, e.LinksTo n

/-- The array of a revision does not grow twice: of the segments that are found for it before a
newer revision, none asks for more slots than the first. -/
def GrowsOnce (es : List Segment) : Prop :=
  ∀ pre e post, es = pre ++ e :: post → e.seg ≠ TFFS_SEGMENT_CLEARED → topRev pre ≤ e.rev →
    slotsFor pre e.rev = 0 ∨ e.newNumSegs ≤ slotsFor pre e.rev

/-- The ids that lookups behind a scan leave. -/
inductive Looked (st : Scan) : (Nat → BitVec 32) → Prop
  | scanned : Looked st st.ids
  | found {ids ids' : Nat → BitVec 32} {id : BitVec 32} {r : Option (List UInt8)}
    (h : Looked st ids) (hfind : findEntry t st.good ids id = .ok (r, ids')) : Looked st ids'

/-- What is known of a good sector is its id. -/
def Knows (ids : Nat → BitVec 32) : Prop :=
  ∀ s < t.numSectors, goodSector t s → ids s = 0 ∨ idAt t s = some (ids s)

/-- A block that has ended holds nothing more. -/
def Ended (sector : Nat) (w : Walk) : Prop :=
  w.blockEnd = true → sector % t.sectorsPerBlock = 0 ∨
    ∃ s < sector, s / t.sectorsPerBlock = sector / t.sectorsPerBlock ∧ goodSector t s ∧
      idAt t s = some TFFS_ID_END

end

variable {t : Reader} {id : BitVec 32} {st : Scan} {ids : Nat → BitVec 32}

/-! ## A pass -/

theorem segmentIn_of_not_good {s : Nat} (h : ¬ goodSector t s) : segmentIn t id s = none := by
  rw [segmentIn, if_neg fun hc => h hc.1]

theorem segmentIn_of_id_ne {s : Nat} (h : idAt t s ≠ some id) : segmentIn t id s = none := by
  rw [segmentIn, if_neg fun hc => h hc.2.1]

theorem segmentIn_of_end {s : Nat} (h : idAt t s = some TFFS_ID_END) :
    segmentIn t id s = none := by
  rw [segmentIn, if_neg]
  rintro ⟨-, hid, hne⟩
  exact hne (Option.some_inj.mp (hid.symm.trans h))

theorem Ended.next {s : Nat} {w w' : Walk} (h : Ended t s w) (hs : s % t.sectorsPerBlock ≠ 0)
    (hw : w'.blockEnd = w.blockEnd) : Ended t (s + 1) w' := by
  intro hend
  by_cases hnext : (s + 1) % t.sectorsPerBlock = 0
  · exact Or.inl hnext
  · right
    rcases h (hw ▸ hend) with hat | ⟨s₀, hlt, hblock, hgood, hid⟩
    · exact absurd hat hs
    · exact ⟨s₀, by omega, by rw [next_block hnext, hblock], hgood, hid⟩

theorem Ended.here {s : Nat} {w : Walk} (hgood : goodSector t s)
    (hid : idAt t s = some TFFS_ID_END) : Ended t (s + 1) w := by
  intro _
  by_cases hnext : (s + 1) % t.sectorsPerBlock = 0
  · exact Or.inl hnext
  · exact Or.inr ⟨s, by omega, (next_block hnext).symm, hgood, hid⟩

theorem Ended.not {s : Nat} {w : Walk} (h : w.blockEnd = false) : Ended t s w := by
  intro hend
  rw [h] at hend
  cases hend

/-- A pass comes past a sector with the segment in it, and knows no wrong id. -/
theorem visitSector_spec (id : BitVec 32) (hv : Valid t) {good : Nat → Bool} {s : Nat} {w : Walk}
    (hs : s < t.numSectors) (hgood : good s = goodSector t s) (hk : Knows t w.ids)
    (he : Ended t s w) :
    ∃ w', visitSector t good id w s = some (w', segmentIn t id s) ∧ Knows t w'.ids ∧
      Ended t (s + 1) w' := by
  unfold visitSector
  by_cases hend : w.blockEnd = true
  · rw [if_pos hend]
    by_cases hat : s % t.sectorsPerBlock = 0
    · rw [if_pos (atBlock_iff.mpr hat), segmentIn_of_not_good (by simp [goodSector, hat])]
      exact ⟨_, rfl, hk, Ended.not rfl⟩
    · have hnone : segmentIn t id s = none := by
        by_cases hg : goodSector t s
        · obtain hat' | ⟨s₀, hlt, hblock, hg₀, hid₀⟩ := he hend
          · exact absurd hat' hat
          · exact segmentIn_of_end (hv.tail s₀ s (Nat.le_of_lt hlt) hs hblock hg₀ hg hid₀)
        · exact segmentIn_of_not_good hg
      rw [if_neg (mt atBlock_iff.mp hat), hnone]
      exact ⟨_, rfl, hk, he.next hat rfl⟩
  rw [if_neg hend, hgood]
  have hopen : w.blockEnd = false := by simpa using hend
  by_cases hg : goodSector t s
  swap
  · rw [if_neg hg, segmentIn_of_not_good hg]
    exact ⟨_, rfl, hk, Ended.not hopen⟩
  rw [if_pos hg]
  by_cases hcend : w.ids s ≠ 0 ∧ w.ids s = TFFS_ID_END
  · have hid : idAt t s = some TFFS_ID_END := by
      rw [← hcend.2]
      exact (hk s hs hg).resolve_left hcend.1
    rw [if_pos hcend, segmentIn_of_end hid]
    exact ⟨_, rfl, hk, Ended.here hg hid⟩
  rw [if_neg hcend]
  by_cases hother : w.ids s ≠ 0 ∧ w.ids s ≠ id
  · have hid := (hk s hs hg).resolve_left hother.1
    have hne : idAt t s ≠ some id := by
      rw [hid, Ne, Option.some_inj]
      exact hother.2
    rw [if_pos hother, segmentIn_of_id_ne hne]
    exact ⟨_, rfl, hk, Ended.not hopen⟩
  rw [if_neg hother]
  obtain ⟨buf, oob, hbuf, hoob, hagree, hlen⟩ := hv.readable s hs hg
  have hid : idAt t s = some (t.readUint32 buf 0x00) := by
    rw [idAt, hbuf]
    rfl
  have hk' : Knows t (cacheId t w.ids s buf) := by
    intro s' hs' hg'
    by_cases hss : s' = s
    · subst hss
      right
      rw [hid, cacheId, Function.update_self]
    · rw [cacheId, Function.update_of_ne hss]
      exact hk s' hs' hg'
  have hfine : (t.readOobSectorHealth && !oobAgrees t buf oob) = false := by
    cases hh : t.readOobSectorHealth with
    | false => rfl
    | true => simp [hagree hh]
  simp only [hoob, hbuf, Option.some_inj]
  unfold readEntry
  rw [hfine]
  by_cases hid_end : t.readUint32 buf 0x00 = TFFS_ID_END
  · rw [hid_end] at hid
    simp only [Bool.false_eq_true, if_false, hid_end, if_true, segmentIn_of_end hid]
    exact ⟨_, rfl, hk', Ended.here hg hid⟩
  have hshort := Nat.not_lt.mpr (hlen hid_end)
  by_cases hsame : t.readUint32 buf 0x00 = id
  · have hin : segmentIn t id s = some (segmentOf t buf) := by
      rw [segmentIn, if_pos ⟨hg, by rw [hid, hsame], hsame ▸ hid_end⟩, hbuf]
      rfl
    simp only [Bool.false_eq_true, if_false, hshort, hsame, if_true, hin]
    rw [if_neg (hsame ▸ hid_end)]
    exact ⟨_, rfl, hk', Ended.not hopen⟩
  · have hne : idAt t s ≠ some id := by
      rw [hid, Ne, Option.some_inj]
      exact hsame
    simp only [Bool.false_eq_true, if_false, hid_end, hshort, hsame, segmentIn_of_id_ne hne]
    exact ⟨_, rfl, hk', Ended.not hopen⟩

/-- A pass over the sectors from one on takes the segments in them. -/
theorem findSegments_spec (id : BitVec 32) (hv : Valid t) {good : Nat → Bool} {s m : Nat} {w : Walk}
    (hs : s + m ≤ t.numSectors) (hgood : ∀ s < t.numSectors, good s = goodSector t s)
    (hk : Knows t w.ids) (he : Ended t s w) (segs : Segments) :
    ∃ w', Knows t w'.ids ∧ findSegments t good id (List.range' s m) w segs =
      (((List.range' s m).filterMap (segmentIn t id)).foldlM (takeSegment t) segs).map
        fun segs => (w', segs) := by
  induction m generalizing s w segs with
  | zero => exact ⟨w, hk, rfl⟩
  | succ m ih =>
    obtain ⟨w₁, hvisit, hk₁, he₁⟩ := visitSector_spec id hv (by omega)
      (hgood s (by omega)) hk he
    rw [List.range'_succ, findSegments, hvisit, List.filterMap_cons]
    cases hseg : segmentIn t id s with
    | none => exact ih (by omega) hk₁ he₁ segs
    | some e =>
      simp only [List.foldlM_cons]
      cases htake : takeSegment t segs e with
      | error stop => exact ⟨w₁, hk₁, rfl⟩
      | ok segs' => exact ih (by omega) hk₁ he₁ segs'

/-- A lookup ends as the segments of the entry let it, and leaves no wrong id. -/
theorem findEntry_eq (id : BitVec 32) (hv : Valid t) {good : Nat → Bool}
    (hgood : ∀ s < t.numSectors, good s = goodSector t s) (hk : Knows t ids) :
    (∀ stop, (segmentsOf t id).foldlM (takeSegment t) {} = .error stop →
      findEntry t good ids id = .error stop) ∧
    ∀ segs, (segmentsOf t id).foldlM (takeSegment t) {} = .ok segs →
      ∃ r ids', findEntry t good ids id = .ok (r, ids') ∧ Knows t ids' ∧ ∀ val, r = some val ↔
        segs.slots ≠ [] ∧ ∃ vals : List (List UInt8), segs.slots = vals.map some ∧
          val = vals.flatten := by
  obtain ⟨w', hk', hfind⟩ := findSegments_spec id (s := 0) (m := t.numSectors)
    (w := { ids := ids }) hv (by omega) hgood hk (Ended.not rfl) {}
  rw [← List.range_eq_range'] at hfind
  change _ = ((segmentsOf t id).foldlM (takeSegment t) {}).map _ at hfind
  unfold findEntry
  constructor
  · intro stop hfold
    rw [hfind, hfold]
    rfl
  · intro segs hfold
    rw [hfold] at hfind
    have hload := findSegments_load hfind
    have hbytes := numSectors_bytes t
    obtain ⟨r, hr, hval⟩ := joinSegments_ok (show load segs.slots < 2 ^ 32 by omega)
    refine ⟨r, w'.ids, ?_, hk', hval⟩
    rw [hfind]
    simp only [Except.map, hr]

/-- Lookups leave no wrong id of a good sector. -/
theorem Looked.knows (hv : Valid t) (hgood : ∀ s < t.numSectors, st.good s = goodSector t s)
    (hzero : ∀ s, s % t.sectorsPerBlock ≠ 0 → st.ids s = 0) (h : Looked t st ids) :
    Knows t ids := by
  induction h with
  | scanned =>
    intro s _ hg
    left
    apply hzero
    intro hat
    simp [goodSector, hat] at hg
  | @found ids ids' id r _ hfind ih =>
    obtain ⟨herr, hok⟩ := findEntry_eq id hv hgood ih
    cases hfold : (segmentsOf t id).foldlM (takeSegment t) {} with
    | error stop =>
      rw [herr stop hfold] at hfind
      cases hfind
    | ok segs =>
      obtain ⟨r', ids'', heq, hk, -⟩ := hok segs hfold
      rw [heq] at hfind
      cases hfind
      exact hk

/-! ## Segments that link to each other -/

theorem Segment.LinksTo.newNumSegs {e : Segment} {n : Nat} (h : e.LinksTo n) (hn : n < 2 ^ 32) :
    e.newNumSegs = if e.seg.toNat + 1 = n then n else e.seg.toNat + 2 := by
  obtain ⟨hlt, hnext⟩ := h
  unfold Segment.newNumSegs
  split_ifs at hnext with hlast
  · have hzero : e.nextSeg = 0 := BitVec.eq_of_toNat_eq hnext
    rw [if_pos hzero, if_pos hlast, BitVec.toNat_add, ← hlast]
    exact Nat.mod_eq_of_lt (by simp; omega)
  · have hne : e.nextSeg ≠ 0 := by
      intro hzero
      rw [hzero] at hnext
      simp at hnext
    rw [if_neg hne, if_neg hlast, BitVec.toNat_add, hnext]
    exact Nat.mod_eq_of_lt (by simp; omega)

theorem mem_ofRev {es : List Segment} {e : Segment} {rev : BitVec 32} :
    e ∈ ofRev es rev ↔ e ∈ es ∧ e.rev = rev ∧ e.seg ≠ TFFS_SEGMENT_CLEARED := by
  simp [ofRev]

theorem le_slotsFor {es : List Segment} {e : Segment} {rev : BitVec 32} (h : e ∈ ofRev es rev) :
    e.newNumSegs ≤ slotsFor es rev := by
  unfold slotsFor
  generalize ofRev es rev = ds at h ⊢
  induction ds with
  | nil => simp at h
  | cons d ds ih =>
    simp only [List.map_cons, List.foldr_cons]
    rcases List.mem_cons.mp h with rfl | h
    · exact Nat.le_max_left _ _
    · exact Nat.le_trans (ih h) (Nat.le_max_right _ _)

theorem slotsFor_le {es : List Segment} {rev : BitVec 32} {n : Nat}
    (h : ∀ e ∈ ofRev es rev, e.newNumSegs ≤ n) : slotsFor es rev ≤ n := by
  unfold slotsFor
  generalize ofRev es rev = ds at h ⊢
  induction ds with
  | nil => simp
  | cons d ds ih =>
    simp only [List.map_cons, List.foldr_cons]
    exact Nat.max_le.mpr ⟨h d List.mem_cons_self, ih fun e he => h e (List.mem_cons_of_mem _ he)⟩

theorem exists_of_lastVal {es : List Segment} {rev : BitVec 32} {i : Nat} {val : List UInt8}
    (h : lastVal es rev i = some val) : ∃ e ∈ ofRev es rev, e.seg.toNat = i ∧ e.val = val := by
  unfold lastVal at h
  obtain ⟨e, he, rfl⟩ := Option.map_eq_some_iff.mp h
  have hmem := List.mem_of_getLast? he
  simp only [List.mem_filter, decide_eq_true_eq] at hmem
  exact ⟨e, hmem.1, hmem.2, rfl⟩

/-- Where the segments link to each other, they fit exactly when no array grows twice. -/
theorem allFit_iff (hv : Valid t) : AllFit t (segmentsOf t id) ↔ GrowsOnce (segmentsOf t id) := by
  have hlt : t.numSectors * 2048 < 2 ^ 32 := t.size_lt
  refine forall_congr' fun pre => forall_congr' fun e => forall_congr' fun post =>
    imp_congr_right fun heq => imp_congr_right fun hclear => imp_congr_right fun _ => ?_
  obtain ⟨n, hn, hlinks⟩ := hv.links id e.rev
  have hmem : e ∈ ofRev (segmentsOf t id) e.rev :=
    mem_ofRev.mpr ⟨by rw [heq]; simp, rfl, hclear⟩
  have hnum := (hlinks e hmem).newNumSegs (by omega)
  have hseg := (hlinks e hmem).1
  have hle : e.newNumSegs ≤ n ∧ e.seg.toNat < e.newNumSegs := by
    rw [hnum]
    split_ifs <;> omega
  have hsize : e.newNumSegs * t.word.segmentSize < t.word.modulus := by
    rcases t.word.segmentSize_cases with ⟨hs, hm⟩ | ⟨hs, hm⟩
    · rw [hs, hm]
      omega
    · rw [hs, hm]
      omega
  constructor
  · rintro ⟨hgrow, -⟩
    rcases Nat.lt_or_ge (slotsFor pre e.rev) e.newNumSegs with h | h
    · exact Or.inl (hgrow h).1
    · exact Or.inr h
  · intro h
    refine ⟨fun hgrow => ⟨?_, hsize⟩, by omega⟩
    omega

/-- A full array of the newest revision holds what is to be found, and only that is one. -/
theorem found_iff (hv : Valid t) {segs : Segments} (h : Holds t (segmentsOf t id) segs)
    (val : List UInt8) :
    (segs.slots ≠ [] ∧ ∃ vals : List (List UInt8), segs.slots = vals.map some ∧
      val = vals.flatten) ↔ Found t id val := by
  have hlt : t.numSectors * 2048 < 2 ^ 32 := t.size_lt
  obtain ⟨n, hn, hlinks⟩ := hv.links id (topRev (segmentsOf t id))
  have hnum : ∀ e ∈ ofRev (segmentsOf t id) (topRev (segmentsOf t id)), ∀ n, n < 2 ^ 32 →
      e.LinksTo n → e.newNumSegs = if e.seg.toNat + 1 = n then n else e.seg.toNat + 2 :=
    fun e _ n hn hl => hl.newNumSegs hn
  constructor
  · rintro ⟨hne, vals, heq, rfl⟩
    have hlen : vals.length = slotsFor (segmentsOf t id) (topRev (segmentsOf t id)) := by
      rw [← h.length, heq, List.length_map]
    have hpos : 0 < vals.length := by
      apply List.length_pos_iff.mpr
      rintro rfl
      exact hne heq
    have hvals : ∀ i (hi : i < vals.length),
        lastVal (segmentsOf t id) (topRev (segmentsOf t id)) i = some vals[i] := by
      intro i hi
      rw [← h.vals, heq, List.getElem?_map, List.getElem?_eq_getElem hi]
      rfl
    -- the last slot is filled, so its segment is the last one
    obtain ⟨e, he, hseg, -⟩ := exists_of_lastVal (hvals (vals.length - 1) (by omega))
    have hle := le_slotsFor he
    have heq' := (hlinks e he).newNumSegs (by omega)
    have hlast : vals.length = n := by
      have := (hlinks e he).1
      split_ifs at heq' with hcase
      · omega
      · omega
    exact ⟨n, by omega, hlinks, vals, hlast, hvals, rfl⟩
  · rintro ⟨m, hm, hall, vals, hlen, hvals, rfl⟩
    obtain ⟨e, he, hseg, -⟩ := exists_of_lastVal (hvals (vals.length - 1) (by omega))
    have hmn : m = n := by
      have h₁ := hlinks e he
      have h₂ := hall e he
      unfold Segment.LinksTo at h₁ h₂
      have hnext := h₁.2.symm.trans h₂.2
      split_ifs at hnext <;> omega
    have hslots : segs.slots.length = vals.length := by
      rw [h.length]
      apply Nat.le_antisymm
      · apply slotsFor_le
        intro d hd
        have hd' := (hlinks d hd).newNumSegs (by omega)
        have := (hlinks d hd).1
        split_ifs at hd' <;> omega
      · have hle := le_slotsFor he
        have he' := (hlinks e he).newNumSegs (by omega)
        split_ifs at he' <;> omega
    refine ⟨fun hnil => ?_, vals, ?_, rfl⟩
    · rw [hnil] at hslots
      simp at hslots
      omega
    · apply List.ext_getElem (by rw [hslots, List.length_map])
      intro i hi hi'
      have hival : i < vals.length := by omega
      have hget := h.vals i
      rw [hvals i hival, List.getElem?_eq_getElem hi] at hget
      rw [List.getElem_map]
      exact hget

/-- On a flash of valid blocks the scan ends, and behind it and any lookups, a lookup of any id ends
with the value to be found for it, if there is one, exactly when its array does not grow twice. -/
theorem findEntry_iff (t : Reader) (hv : Valid t) :
    ∃ st, scanMtd t = some st ∧ ∀ ids, Looked t st ids → ∀ id,
      (∃ r ids', findEntry t st.good ids id = .ok (r, ids') ∧
        ∀ val, r = some val ↔ Found t id val) ↔ GrowsOnce (segmentsOf t id) := by
  obtain ⟨st, hscan, hgood, hzero⟩ := scanMtd_good hv.lists
  refine ⟨st, hscan, fun ids hlooked id => ?_⟩
  obtain ⟨herr, hok⟩ := findEntry_eq id hv hgood (hlooked.knows hv hgood hzero)
  rw [← allFit_iff hv]
  constructor
  · rintro ⟨r, ids', hfind, -⟩
    by_contra hfit
    rw [herr .fault (takeAll_fault hfit)] at hfind
    cases hfind
  · intro hfit
    obtain ⟨segs, hsegs, hholds⟩ := takeAll_ok hfit
    obtain ⟨r, ids', hfind, -, hval⟩ := hok segs hsegs
    exact ⟨r, ids', hfind, fun val => (hval val).trans (found_iff hv hholds val)⟩

/-! ## Entries of two and of three segments -/

/-- A block with an entry of some segments, in their order. -/
def entryInOrder (n : Nat) : Reader :=
  oneBlock (blockHeader 0 0) ((List.range n).map fun i =>
    entrySector 0x101 1 (BitVec.ofNat 32 i) (if i + 1 = n then 0 else BitVec.ofNat 32 (i + 1))
      (0x61626364 + BitVec.ofNat 32 i))

/-- What `Valid` asks of such a block, sector by sector. -/
structure BlockOk (n : Nat) : Prop where
  lists : ∀ i < 2, ∀ buf ∈ (entryInOrder n).sector 0,
    ((entryInOrder n).readUint64 buf (0x1c + 8 * i)).toNat < 8
  tail : ∀ s' < 8, ∀ s < 8, s ≤ s' → idAt (entryInOrder n) s = some TFFS_ID_END →
    idAt (entryInOrder n) s' = some TFFS_ID_END
  entries : ∀ s < 8, goodSector (entryInOrder n) s →
    idAt (entryInOrder n) s = some TFFS_ID_END ∨ ∀ buf ∈ (entryInOrder n).sector s,
      (segmentOf (entryInOrder n) buf).LinksTo n ∧
        ((entryInOrder n).readUint32 buf 0x04).toNat ≤ TFFS_MAXIMUM_SEGMENT_SIZE

theorem entryInOrder_valid {n : Nat} (hn : n ≤ 8) (h : BlockOk n) : Valid (entryInOrder n) where
  lists := by
    intro block hb hdr hacc
    obtain rfl : block = 0 := Nat.lt_one_iff.mp hb
    have hs := (Option.filter_eq_some_iff.mp hacc).1
    exact ⟨h.lists 0 (by decide) hdr hs, h.lists 1 (by decide) hdr hs⟩
  readable := by
    intro s hs hg
    refine ⟨_, _, rfl, rfl, (fun hh => by cases hh), fun hne => ?_⟩
    rcases h.entries s hs hg with hend | hentry
    · exact absurd (Option.some_inj.mp hend) hne
    · exact (hentry _ rfl).2
  tail s s' hle hs' _ _ _ hid := h.tail s' hs' s (Nat.lt_of_le_of_lt hle hs') hle hid
  links := by
    intro id rev
    refine ⟨n, hn, fun e he => ?_⟩
    obtain ⟨hmem, -, -⟩ := mem_ofRev.mp he
    obtain ⟨s, hs, hin⟩ := List.mem_filterMap.mp hmem
    unfold segmentIn at hin
    split_ifs at hin with hcond
    obtain ⟨hg, hid, hne⟩ := hcond
    obtain ⟨buf, hbuf, rfl⟩ := Option.map_eq_some_iff.mp hin
    rcases h.entries s (List.mem_range.mp hs) hg with hend | hentry
    · exact absurd (Option.some_inj.mp (hid.symm.trans hend)) hne
    · exact (hentry buf hbuf).1

theorem entryInOrder_runs :
    BlockOk 2 ∧ BlockOk 3 ∧
      (segmentsOf (entryInOrder 2) 0x101).foldlM (takeSegment (entryInOrder 2)) {} ≠
        .error .fault ∧
      lookup (entryInOrder 3) 0x101 = some (.error .fault) ∧
      (∀ e ∈ ofRev (segmentsOf (entryInOrder 3) 0x101) 1, e.LinksTo 3) ∧
      topRev (segmentsOf (entryInOrder 3) 0x101) = 1 ∧
      ∀ i < 3, lastVal (segmentsOf (entryInOrder 3) 0x101) 1 i =
        some [0x61, 0x62, 0x63, UInt8.ofNat (0x64 + i)] := by
  refine ⟨⟨?_, ?_, ?_⟩, ⟨?_, ?_, ?_⟩, ?_, ?_, ?_, ?_, ?_⟩
  all_goals decide +kernel

/-- Two segments in their order are found behind all lookups. -/
theorem twoSegments_found :
    ∃ st, scanMtd (entryInOrder 2) = some st ∧ ∀ ids, Looked (entryInOrder 2) st ids →
      ∃ r ids', findEntry (entryInOrder 2) st.good ids 0x101 = .ok (r, ids') ∧
        ∀ val, r = some val ↔ Found (entryInOrder 2) 0x101 val := by
  obtain ⟨hok, -, hfold, -⟩ := entryInOrder_runs
  have hv := entryInOrder_valid (by decide) hok
  obtain ⟨st, hscan, hiff⟩ := findEntry_iff (entryInOrder 2) hv
  refine ⟨st, hscan, fun ids hlooked => (hiff ids hlooked 0x101).mpr ?_⟩
  rw [← allFit_iff hv]
  by_contra hfit
  exact hfold (takeAll_fault hfit)

/-- Three segments in their order are complete, and the lookup of them leaves its array. -/
theorem threeSegments_fault :
    Valid (entryInOrder 3) ∧
      Found (entryInOrder 3) 0x101
        [0x61, 0x62, 0x63, 0x64, 0x61, 0x62, 0x63, 0x65, 0x61, 0x62, 0x63, 0x66] ∧
      lookup (entryInOrder 3) 0x101 = some (.error .fault) := by
  obtain ⟨-, hok, -, hfault, hlinks, htop, hvals⟩ := entryInOrder_runs
  refine ⟨entryInOrder_valid (by decide) hok, ⟨3, by decide, ?_, ?_⟩, hfault⟩
  · rw [htop]
    exact hlinks
  · refine ⟨[[0x61, 0x62, 0x63, 0x64], [0x61, 0x62, 0x63, 0x65], [0x61, 0x62, 0x63, 0x66]], rfl,
      fun i hi => ?_, rfl⟩
    have hi' : i < 3 := hi
    rw [htop, hvals i hi']
    interval_cases i <;> rfl

end Lede.Tffs
