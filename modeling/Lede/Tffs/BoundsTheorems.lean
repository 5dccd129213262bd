/-
Lede.Tffs.BoundsTheorems — when the reader stays inside its arrays.

`tffs_inBounds_iff`: a lookup does so exactly when every segment that it comes to fits behind those
before; a block header is taken exactly when the two sectors it lists are the device's; and the
table of names is read inside exactly when it is a sequence of names. What these conditions ask for
is on the flash and is not checked.
-/
import Lede.Tffs.SegmentTheorems

namespace Lede.Tffs

open Lede.Lib

/-! ## Lookups -/

section Lookup

variable (t : Reader) (good : Nat → Bool) (id : BitVec 32)

/-- The segments of an entry that a pass comes to, up to the first sector it cannot read. -/
def seen : List Nat → Walk → List Segment
  | [], _ => []
  | sector :: rest, w =>
    match visitSector t good id w sector with
    | none => []
    | some (w, e) => e.toList ++ seen rest w

end Lookup

variable {t : Reader} {good : Nat → Bool} {id : BitVec 32} {sectors : List Nat} {w : Walk}
  {st : Segments}

/-- The loop writes outside of its array exactly when the segments it comes to do. -/
theorem findSegments_fault :
    findSegments t good id sectors w st = .error .fault ↔
      (seen t good id sectors w).foldlM (takeSegment t) st = .error .fault := by
  induction sectors generalizing w st with
  | nil =>
    unfold findSegments seen
    constructor <;> intro h <;> cases h
  | cons sector rest ih =>
    unfold findSegments seen
    cases hv : visitSector t good id w sector with
    | none => constructor <;> intro h <;> cases h
    | some we =>
      obtain ⟨w', _ | e⟩ := we
      · exact ih
      · simp only [Option.toList_some, List.singleton_append, List.foldlM_cons]
        cases htake : takeSegment t st e with
        | error stop => constructor <;> (intro h; cases h; rfl)
        | ok st' => exact ih

/-- A loop that ends has taken all of them. -/
theorem findSegments_ok {w' : Walk} {st' : Segments}
    (h : findSegments t good id sectors w st = .ok (w', st')) :
    (seen t good id sectors w).foldlM (takeSegment t) st = .ok st' := by
  induction sectors generalizing w st with
  | nil =>
    unfold findSegments at h
    cases h
    rfl
  | cons sector rest ih =>
    unfold findSegments at h
    unfold seen
    cases hv : visitSector t good id w sector with
    | none => simp [hv] at h
    | some we =>
      obtain ⟨w₁, _ | e⟩ := we
      · simp only [hv] at h
        exact ih h
      · simp only [hv] at h
        simp only [Option.toList_some, List.singleton_append, List.foldlM_cons]
        cases htake : takeSegment t st e with
        | error stop => simp [htake] at h
        | ok st₁ =>
          simp only [htake] at h
          exact ih h

/-- A segment that is taken is not longer than a sector. -/
theorem visitSector_val {w' : Walk} {e : Segment} {sector : Nat}
    (h : visitSector t good id w sector = some (w', some e)) :
    e.val.length ≤ TFFS_MAXIMUM_SEGMENT_SIZE := by
  have hread : ∀ (w : Walk) buf oob, readEntry t id w buf oob = (w', some e) →
      e.val.length ≤ TFFS_MAXIMUM_SEGMENT_SIZE := by
    intro w buf oob hr
    unfold readEntry at hr
    split_ifs at hr with hagree hend hlen hid
    all_goals simp only [Prod.mk.injEq, reduceCtorEq, and_false, Option.some_inj] at hr
    obtain ⟨-, rfl⟩ := hr
    simpa [segmentOf] using hlen
  unfold visitSector at h
  split_ifs at h with hend hgood hids hskip
  all_goals try simp at h
  cases ho : t.oob sector with
  | none => simp [ho] at h
  | some oob =>
    cases hs : t.sector sector with
    | none => simp [ho, hs] at h
    | some buf =>
      simp only [ho, hs, Option.some_inj] at h
      exact hread _ _ _ h

theorem seen_length :
    ((seen t good id sectors w).map fun e => e.val.length).sum ≤
      sectors.length * TFFS_MAXIMUM_SEGMENT_SIZE := by
  induction sectors generalizing w with
  | nil => simp [seen]
  | cons sector rest ih =>
    unfold seen
    cases hv : visitSector t good id w sector with
    | none => simp
    | some we =>
      obtain ⟨w', e⟩ := we
      have hrest := ih (w := w')
      have hsucc : (rest.length + 1) * TFFS_MAXIMUM_SEGMENT_SIZE =
          rest.length * TFFS_MAXIMUM_SEGMENT_SIZE + TFFS_MAXIMUM_SEGMENT_SIZE := Nat.succ_mul _ _
      cases e with
      | none =>
        simp only [Option.toList_none, List.nil_append, List.length_cons]
        omega
      | some e =>
        have hle := visitSector_val hv
        simp only [Option.toList_some, List.singleton_append, List.map_cons, List.sum_cons,
          List.length_cons]
        omega

/-- The bytes that a pass takes are less than the device has. -/
theorem findSegments_load {w' : Walk} {st' : Segments}
    (h : findSegments t good id (List.range t.numSectors) w {} = .ok (w', st')) :
    load st'.slots ≤ t.numSectors * TFFS_MAXIMUM_SEGMENT_SIZE := by
  have hload := takeAll_load (findSegments_ok h)
  have hseen : ((seen t good id (List.range t.numSectors) w).map fun e => e.val.length).sum ≤
      (List.range t.numSectors).length * TFFS_MAXIMUM_SEGMENT_SIZE := seen_length
  rw [List.length_range] at hseen
  have hempty : load ({} : Segments).slots = 0 := rfl
  omega

theorem numSectors_bytes (t : Reader) :
    t.numSectors * TFFS_MAXIMUM_SEGMENT_SIZE + 4 < 2 ^ 32 := by
  have hlt : t.numSectors * 2048 < 2 ^ 32 := t.size_lt
  have hn : t.numSectors ≤ 2097151 := by omega
  calc t.numSectors * 2024 + 4 ≤ 2097151 * 2024 + 4 :=
        Nat.add_le_add_right (Nat.mul_le_mul_right _ hn) _
    _ < 2 ^ 32 := by decide

variable {ids : Nat → BitVec 32}

/-- A lookup leaves its arrays exactly when a segment it comes to does not fit. -/
theorem findEntry_inBounds (t : Reader) (good : Nat → Bool) (ids : Nat → BitVec 32)
    (id : BitVec 32) :
    findEntry t good ids id ≠ .error .fault ↔
      AllFit t (seen t good id (List.range t.numSectors) { ids := ids }) := by
  have hfault : findSegments t good id (List.range t.numSectors) { ids := ids } {} =
        .error .fault ↔
      (seen t good id (List.range t.numSectors) { ids := ids }).foldlM (takeSegment t) {} =
        .error .fault := findSegments_fault
  unfold findEntry
  cases hfind : findSegments t good id (List.range t.numSectors) { ids := ids } {} with
  | error stop =>
    simp only
    rw [hfind] at hfault
    constructor
    · intro hne
      by_contra hfit
      have heq := hfault.mpr (takeAll_fault hfit)
      cases heq
      exact hne rfl
    · intro hfit heq
      cases heq
      obtain ⟨st, hst, -⟩ := takeAll_ok hfit
      rw [hst] at hfault
      cases hfault.mp rfl
  | ok ws =>
    obtain ⟨w', st'⟩ := ws
    have hload := findSegments_load hfind
    have hbytes := numSectors_bytes t
    obtain ⟨r, hr, -⟩ := joinSegments_ok (show load st'.slots < 2 ^ 32 by omega)
    simp only [hr]
    refine ⟨fun _ => ?_, fun _ h => by cases h⟩
    by_contra hfit
    have hall := findSegments_ok hfind
    rw [takeAll_fault hfit] at hall
    cases hall

/-- The value that a lookup gives is smaller than the device. -/
theorem findEntry_length {val : List UInt8} {ids' : Nat → BitVec 32}
    (h : findEntry t good ids id = .ok (some val, ids')) :
    val.length ≤ t.numSectors * TFFS_MAXIMUM_SEGMENT_SIZE := by
  unfold findEntry at h
  cases hfind : findSegments t good id (List.range t.numSectors) { ids := ids } {} with
  | error stop =>
    rw [hfind] at h
    cases h
  | ok ws =>
    obtain ⟨w', st'⟩ := ws
    have hload := findSegments_load hfind
    have hbytes := numSectors_bytes t
    obtain ⟨r, hr, hval⟩ := joinSegments_ok (show load st'.slots < 2 ^ 32 by omega)
    rw [hfind] at h
    simp only [hr] at h
    cases h
    obtain ⟨-, vals, heq, rfl⟩ := (hval val).mp rfl
    rw [heq, load_map_some] at hload
    exact hload

/-! ## Block headers -/

section Header

variable (t : Reader) (sector : Nat)

/-- `check_block` accepts the header in a buffer. -/
def acceptsHeader (buf : Nat → UInt8) : Bool :=
  checkSector t sector && t.readUint64 buf 0x00 = TFFS_BLOCK_HEADER_MAGIC &&
    t.readUint32 buf 0x0c = TFFS_SECTORS_PER_PAGE

/-- Both sectors that an accepted header lists are sectors of the device. -/
def ListsSectors : Prop :=
  ∀ buf, t.sector sector = some buf → acceptsHeader t sector buf →
    ∀ i < 2, (sector + (t.readUint64 buf (0x1c + 8 * i)).toNat) % 2 ^ 32 < t.numSectors

/-- All that is marked are sectors of the device, and all reads are inside the sector buffer. -/
def CheckBlock.InBounds (c : CheckBlock) : Prop :=
  (∀ num ∈ c.bad, num.toNat < t.numSectors) ∧ Within TFFS_SECTOR_SIZE c.reads

end Header

theorem headerBad_toNat (t : Reader) (sector : Nat) (buf : Nat → UInt8) (i : Nat) :
    (BitVec.ofNat 32 sector + (t.readUint64 buf (0x1c + 8 * i)).setWidth 32).toNat =
      (sector + (t.readUint64 buf (0x1c + 8 * i)).toNat) % 2 ^ 32 := by
  rw [BitVec.toNat_add, BitVec.toNat_ofNat, BitVec.toNat_setWidth, ← Nat.add_mod]

theorem checkBlock_inBounds (t : Reader) (ids : Nat → BitVec 32) (sector : Nat) :
    (checkBlock t ids sector).InBounds t ↔ ListsSectors t sector := by
  unfold checkBlock ListsSectors
  by_cases hcheck : checkSector t sector
  · cases hs : t.sector sector with
    | none => simp [hcheck, CheckBlock.InBounds]
    | some buf =>
      by_cases hmagic : t.readUint64 buf 0x00 = TFFS_BLOCK_HEADER_MAGIC
      · by_cases hpage : t.readUint32 buf 0x0c = TFFS_SECTORS_PER_PAGE
        · have htwo : (t.readUint32 buf 0x0c).toNat = 2 := by
            rw [hpage]
            rfl
          have hwithin : Within TFFS_SECTOR_SIZE (headerReads t buf) := by
            unfold headerReads
            rw [htwo]
            decide
          have hbad : headerBad t sector buf = (List.range 2).map fun i =>
              BitVec.ofNat 32 sector + (t.readUint64 buf (0x1c + 8 * i)).setWidth 32 := by
            rw [headerBad, htwo]
          simp only [hcheck, Bool.not_true, Bool.false_eq_true, if_false, hmagic, ne_eq,
            not_true_eq_false, hpage, CheckBlock.InBounds, hwithin, and_true, Option.some_inj,
            forall_eq', acceptsHeader, decide_true, Bool.and_self, true_implies, hbad,
            List.mem_map, List.mem_range, forall_exists_index, and_imp,
            forall_apply_eq_imp_iff₂, headerBad_toNat]
        · simp [hcheck, hmagic, hpage, CheckBlock.InBounds, acceptsHeader, TFFS_SECTOR_SIZE]
      · simp [hcheck, hmagic, CheckBlock.InBounds, acceptsHeader, TFFS_SECTOR_SIZE]
  · simp [hcheck, CheckBlock.InBounds, acceptsHeader]

/-! ## The table of names -/

/-- The bytes that fill a name and its end up to a multiple of four. -/
def padding (len : Nat) : Nat := getWalkSize (len + 1) - (len + 1)

/-- A sequence of names, each behind four bytes of id and filled up, the last perhaps not. -/
inductive NameTable : List UInt8 → Prop
  | last {id name pad : List UInt8} (hid : id.length = 4) (hname : 0 ∉ name)
    (hpad : pad.length ≤ padding name.length) : NameTable (id ++ (name ++ 0 :: pad))
  | more {id name pad rest : List UInt8} (hid : id.length = 4) (hname : 0 ∉ name)
    (hpad : pad.length = padding name.length) (h : NameTable rest) :
    NameTable (id ++ (name ++ 0 :: (pad ++ rest)))

theorem NameTable.length {val : List UInt8} (h : NameTable val) : 5 ≤ val.length := by
  cases h with
  | last hid => simp; omega
  | more hid => simp; omega

theorem takeWhile_name {name : List UInt8} (tail : List UInt8) (h : 0 ∉ name) :
    (name ++ 0 :: tail).takeWhile (· ≠ 0) = name := by
  rw [List.takeWhile_append_of_pos]
  · simp
  · intro b hb
    simp only [ne_eq, decide_eq_true_eq]
    rintro rfl
    exact h hb

/-- The name and what is behind it are fixed by the bytes. -/
theorem name_unique {name name' tail tail' : List UInt8} (h : 0 ∉ name) (h' : 0 ∉ name')
    (heq : name ++ 0 :: tail = name' ++ 0 :: tail') : name = name' ∧ tail = tail' := by
  have hname : name = name' := by
    rw [← takeWhile_name tail h, heq, takeWhile_name tail' h']
  subst hname
  refine ⟨rfl, ?_⟩
  simpa using heq

/-- A table with a name in front ends there or goes on behind the padding. -/
theorem nameTable_iff {id name : List UInt8} (tail : List UInt8) (hid : id.length = 4)
    (hname : 0 ∉ name) :
    NameTable (id ++ (name ++ 0 :: tail)) ↔
      tail.length ≤ padding name.length ∨ NameTable (tail.drop (padding name.length)) := by
  constructor
  · intro h
    generalize hval : id ++ (name ++ 0 :: tail) = val at h
    cases h with
    | last hid' hname' hpad =>
      obtain ⟨-, htail⟩ := List.append_inj hval (by rw [hid, hid'])
      obtain ⟨rfl, rfl⟩ := name_unique hname hname' htail
      exact Or.inl hpad
    | more hid' hname' hpad hrest =>
      obtain ⟨-, htail⟩ := List.append_inj hval (by rw [hid, hid'])
      obtain ⟨rfl, rfl⟩ := name_unique hname hname' htail
      right
      rw [← hpad, List.drop_left]
      exact hrest
  · rintro (h | h)
    · exact .last hid hname h
    · have hlen := h.length
      rw [List.length_drop] at hlen
      have hpad : (tail.take (padding name.length)).length = padding name.length := by
        rw [List.length_take]
        omega
      have hmore := NameTable.more hid hname hpad h
      rwa [List.take_append_drop] at hmore

theorem stringAt_eq_some {val name : List UInt8} {pos : Nat} :
    stringAt val pos = some name ↔ 0 ∉ name ∧ ∃ tail, val.drop pos = name ++ 0 :: tail := by
  unfold stringAt
  constructor
  · intro h
    split_ifs at h with hzero
    rw [Option.some_inj] at h
    have hmem : 0 ∈ val.drop pos := by simpa using hzero
    obtain ⟨front, tail, heq, hfront⟩ := List.eq_append_cons_of_mem hmem
    rw [heq, takeWhile_name tail hfront] at h
    subst h
    exact ⟨hfront, tail, heq⟩
  · rintro ⟨hname, tail, htail⟩
    rw [htail, if_pos (by simp), takeWhile_name tail hname]

/-- From a position on, the loop ends, and it stays inside exactly where a table starts. -/
theorem keyNamesFrom_spec {val : List UInt8} (hlen : val.length + 4 < 2 ^ 32) {n pos : Nat}
    (hpos : pos ≤ val.length) (hn : val.length - pos < n) :
    ∃ r, keyNamesFrom t val n pos = some r ∧ (r ≠ .error .fault ↔ NameTable (val.drop pos)) := by
  induction n generalizing pos with
  | zero => omega
  | succ n ih =>
    unfold keyNamesFrom
    split_ifs with hshort
    · refine ⟨_, rfl, fun h => absurd rfl h, fun h => ?_⟩
      have hlen' := h.length
      rw [List.length_drop] at hlen'
      omega
    have hid : ((val.drop pos).take 4).length = 4 := by
      rw [List.length_take, List.length_drop]
      omega
    have hsplit : val.drop pos = (val.drop pos).take 4 ++ val.drop (pos + 4) := by
      rw [← List.drop_drop, List.take_append_drop]
    cases hname : stringAt val (pos + 4) with
    | none =>
      refine ⟨_, rfl, fun h => absurd rfl h, fun h => ?_⟩
      rw [hsplit] at h
      generalize hrest : val.drop (pos + 4) = rest at h
      have hzero : 0 ∉ rest := by
        intro hin
        unfold stringAt at hname
        rw [hrest, if_pos (by simpa using hin)] at hname
        cases hname
      generalize hval : (val.drop pos).take 4 ++ rest = v at h
      cases h with
      | last hid' hname' hpad =>
        obtain ⟨-, rfl⟩ := List.append_inj hval (by rw [hid, hid'])
        exact absurd hzero (by simp)
      | more hid' hname' hpad hrest =>
        obtain ⟨-, rfl⟩ := List.append_inj hval (by rw [hid, hid'])
        exact absurd hzero (by simp)
    | some name =>
      obtain ⟨hzero, tail, htail⟩ := stringAt_eq_some.mp hname
      have hbytes : val.length = pos + 4 + (name.length + 1 + tail.length) := by
        have := congrArg List.length htail
        rw [List.length_drop, List.length_append, List.length_cons] at this
        omega
      have hwalk : name.length + 1 ≤ getWalkSize (name.length + 1) ∧
          getWalkSize (name.length + 1) ≤ name.length + 4 := by
        unfold getWalkSize
        omega
      have hnext : (pos + 4 + getWalkSize (name.length + 1)) % 2 ^ 32 =
          pos + 4 + getWalkSize (name.length + 1) := Nat.mod_eq_of_lt (by omega)
      have hpad : padding name.length = getWalkSize (name.length + 1) - (name.length + 1) := rfl
      have hiff := nameTable_iff tail hid hzero
      rw [← htail, ← hsplit] at hiff
      simp only [hnext]
      split_ifs with hmore
      · obtain ⟨r, hr, hrfault⟩ := ih
          (show pos + 4 + getWalkSize (name.length + 1) ≤ val.length by omega) (by omega)
        refine ⟨_, by rw [hr]; rfl, ?_⟩
        have hdrop : val.drop (pos + 4 + getWalkSize (name.length + 1)) =
            tail.drop (padding name.length) := by
          rw [← List.drop_drop, htail]
          have : getWalkSize (name.length + 1) =
              (name ++ [0]).length + padding name.length := by
            rw [List.length_append, List.length_singleton]
            omega
          rw [this, ← List.drop_drop, List.append_cons name 0 tail, List.drop_left]
        rw [hiff, ← hdrop, ← hrfault, or_iff_right (by omega)]
        cases r with
        | error stop => simp [Except.map]
        | ok items => simp [Except.map]
      · refine ⟨_, rfl, fun _ => hiff.mpr (Or.inl (by omega)), fun _ h => by cases h⟩

/-- For every flash, a lookup stays inside its arrays exactly when each segment that it comes to
fits, `check_block` marks sectors of the device and reads its buffer exactly when an accepted header
lists such sectors, and on the value of every lookup `parse_key_names` ends, having read only inside
of it exactly when it is a sequence of names. -/
theorem tffs_inBounds_iff (t : Reader) :
    (∀ good ids id, findEntry t good ids id ≠ .error .fault ↔
      AllFit t (seen t good id (List.range t.numSectors) { ids := ids })) ∧
    (∀ ids sector, (checkBlock t ids sector).InBounds t ↔ ListsSectors t sector) ∧
    ∀ good ids id val ids', findEntry t good ids id = .ok (some val, ids') →
      ∃ r, parseKeyNames t val (val.length + 1) = some r ∧ (r ≠ .error .fault ↔ NameTable val) := by
  refine ⟨findEntry_inBounds t, checkBlock_inBounds t, fun good ids id val ids' h => ?_⟩
  have hlen := findEntry_length h
  have hbytes := numSectors_bytes t
  exact keyNamesFrom_spec (by omega) (Nat.zero_le _) (by omega)

/-! ## A small flash -/

/-- The bytes of big-endian words, and 0xff behind them. -/
def wordBytes (words : List (BitVec 32)) (i : Nat) : UInt8 :=
  match words[i / 4]? with
  | some word => UInt8.ofNat (word.toNat / 256 ^ (3 - i % 4))
  | none => 0xff

/-- A block header that lists two bad sectors. -/
def blockHeader (bad₀ bad₁ : BitVec 32) : List (BitVec 32) :=
  [0x41564d5f, 0x54464653, 3, TFFS_SECTORS_PER_PAGE, 0, 0, 0, 0, bad₀, 0, bad₁]

/-- The sector of a segment of four bytes. -/
def entrySector (id rev seg nextSeg val : BitVec 32) : List (BitVec 32) :=
  [id, 4, 0, rev, seg, nextSeg, val]

/-- A block of eight sectors with a header and some others; the rest is unused. -/
def oneBlock (header : List (BitVec 32)) (others : List (List (BitVec 32))) : Reader where
  word := .bits32
  endian := .big
  readOobSectorHealth := false
  blocks := 1
  sectorsPerBlock := 8
  sectorsPerBlock_pos := by decide
  size_lt := by decide
  sector i := some (wordBytes ((header :: others)[i]?.getD []))
  oob _ := some fun _ => 0xff

/-- The lookup of an id behind the scan. -/
def lookup (t : Reader) (id : BitVec 32) : Option (Except Stop (Option (List UInt8))) :=
  (scanMtd t).map fun st => (findEntry t st.good st.ids id).map Prod.fst

theorem lookup_eq_ok {t : Reader} {id : BitVec 32} {r : Option (List UInt8)}
    (h : lookup t id = some (.ok r)) :
    ∃ good ids ids', findEntry t good ids id = .ok (r, ids') := by
  unfold lookup at h
  obtain ⟨st, -, hst⟩ := Option.map_eq_some_iff.mp h
  cases hfind : findEntry t st.good st.ids id with
  | error stop =>
    rw [hfind] at hst
    cases hst
  | ok x =>
    rw [hfind] at hst
    cases hst
    exact ⟨st.good, st.ids, x.2, hfind⟩

/-- A table with the one name `a`, in two segments. -/
def oneName : Reader :=
  oneBlock (blockHeader 0 0) [entrySector TFFS_ID_TABLE_NAME 1 0 1 0x101,
    entrySector TFFS_ID_TABLE_NAME 1 1 0 0x61000000]

theorem oneBlock_runs :
    lookup oneName TFFS_ID_TABLE_NAME = some (.ok (some [0, 0, 1, 1, 0x61, 0, 0, 0])) ∧
      lookup (oneBlock (blockHeader 0 0) [entrySector 0x101 1 2 1 0]) 0x101 =
        some (.error .fault) ∧
      lookup (oneBlock (blockHeader 0 0) [entrySector TFFS_ID_TABLE_NAME 1 0 0 0x101])
        TFFS_ID_TABLE_NAME = some (.ok (some [0, 0, 1, 1])) := by
  decide +kernel

theorem oneName_inBounds :
    (∀ ids, (checkBlock oneName ids 0).InBounds oneName) ∧
      ∃ r, parseKeyNames oneName [0, 0, 1, 1, 0x61, 0, 0, 0] 9 = some r ∧
        (r ≠ .error .fault ↔ NameTable [0, 0, 1, 1, 0x61, 0, 0, 0]) := by
  obtain ⟨-, hcheck, hnames⟩ := tffs_inBounds_iff oneName
  obtain ⟨good, ids, ids', hfind⟩ := lookup_eq_ok oneBlock_runs.1
  refine ⟨fun ids => (hcheck ids 0).mpr ?_, hnames good ids _ _ ids' hfind⟩
  intro buf hbuf _ i hi
  cases hbuf
  revert i
  decide

/-- A segment 2 whose next is to be 1, a header that lists sector 1000, and a table of names that
ends behind an id. -/
theorem oneBlock_leaves :
    lookup (oneBlock (blockHeader 0 0) [entrySector 0x101 1 2 1 0]) 0x101 =
        some (.error .fault) ∧
      ¬ (checkBlock (oneBlock (blockHeader 1000 0) []) (fun _ => 0) 0).InBounds
        (oneBlock (blockHeader 1000 0) []) ∧
      lookup (oneBlock (blockHeader 0 0) [entrySector TFFS_ID_TABLE_NAME 1 0 0 0x101])
        TFFS_ID_TABLE_NAME = some (.ok (some [0, 0, 1, 1])) ∧
      parseKeyNames (oneBlock (blockHeader 0 0) [entrySector TFFS_ID_TABLE_NAME 1 0 0 0x101])
        [0, 0, 1, 1] 5 = some (.error .fault) := by
  refine ⟨oneBlock_runs.2.1, ?_, oneBlock_runs.2.2, by decide⟩
  rw [checkBlock_inBounds]
  intro h
  exact absurd (h _ rfl (by decide) 0 (by decide)) (by decide)

end Lede.Tffs
