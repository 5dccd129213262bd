/-
Lede.Otto.FdbTheorems — the addresses of the bridge in the L2 table and its CAM.

`FdbCall` has the four calls of the bridge. `Effect` says what any of them writes: one row of the
bucket of its address at most, and a row of the CAM when that bucket is full. The table then
keeps its rows apart (`Effect.table`), and the rows of other addresses stay (`Effect.others`).

`fdb_store_one_row` is about one address and any sequence of calls in which its own adds find room
in its bucket. An address that went to the CAM is left out: it is added a second time to
the bucket when a row there has become free (`spilled_fdbAdd_twice`).
-/
import Lede.Otto.NexthopTheorems

namespace Lede.Otto

open Lede.Lib.BitField

/-! ## Calls -/

/-- The calls that the bridge makes for the addresses of its ports; `e` is what the entry of the
call holds before it is filled. -/
inductive FdbCall where
  | fdbAdd (lag : LagPort) (port : BitVec 8) (addr : Mac) (vid : BitVec 16) (e : L2Entry)
  | fdbDel (lag : LagPort) (addr : Mac) (vid : BitVec 16) (e : L2Entry)
  | mdbAdd (lag : LagPort) (port : Nat) (addr : Mac) (vid : BitVec 16) (e : L2Entry)
  | mdbDel (lag : LagPort) (port : Nat) (addr : Mac) (vid : BitVec 16) (e : L2Entry)

/-- The address and the VID of a call. -/
def FdbCall.key : FdbCall → Mac × BitVec 16
  | .fdbAdd _ _ addr vid _ => (addr, vid)
  | .fdbDel _ addr vid _ => (addr, vid)
  | .mdbAdd _ _ addr vid _ => (addr, vid)
  | .mdbDel _ _ addr vid _ => (addr, vid)

def FdbCall.run (f : Family) (ctrl : BitVec 32) (s : L2State) : FdbCall → Int × L2State
  | .fdbAdd lag port addr vid e => Otto.fdbAdd f ctrl s lag port addr vid e
  | .fdbDel lag addr vid e => Otto.fdbDel f ctrl s lag addr vid e
  | .mdbAdd lag port addr vid e => Otto.mdbAdd f ctrl s lag port addr vid e
  | .mdbDel lag port addr vid e => Otto.mdbDel f ctrl s lag port addr vid e

/-- The ports that a port mask of the family has a bit for. -/
def Family.maskBits : Family → Nat
  | .rtl838x => 29
  | .rtl839x => 53
  | .rtl930x => 29
  | .rtl931x => 57

/-- What the bridge sees to: unicast addresses go to the FDB and multicast addresses to the MDB,
on ports of the switch and in one of the VLANs. -/
def FdbCall.Proper (f : Family) : FdbCall → Prop
  | .fdbAdd _ port addr vid _ =>
    port.toNat < 2 ^ f.portBits ∧ addr.isMulticast = false ∧ vid.toNat < 4096
  | .fdbDel _ addr vid _ => addr.isMulticast = false ∧ vid.toNat < 4096
  | .mdbAdd _ port addr vid _ =>
    port < f.maskBits ∧ addr.isMulticast = true ∧ vid.toNat < 4096
  | .mdbDel _ _ addr vid _ => addr.isMulticast = true ∧ vid.toNat < 4096

/-- The seed of an address. -/
def keySeed (f : Family) (key : Mac × BitVec 16) : BitVec 64 :=
  hashSeed f (etherAddrToU64 key.1) key.2

/-- The row is a valid one of the address. -/
def RowOf (f : Family) (key : Mac × BitVec 16) (r : L2Row) : Prop :=
  (fillEntry f r .zero).valid = true ∧ (fillEntry f r .zero).mac = key.1 ∧
    (fillEntry f r .zero).rvid = key.2

/-- An add that finds its bucket full of other addresses and turns to the CAM. -/
def FdbCall.Spills (f : Family) (ctrl : BitVec 32) (s : L2State) : FdbCall → Prop
  | .fdbAdd _ _ addr vid _ => ∀ idx ∈ bucket f ctrl (keySeed f (addr, vid)),
    rowInfo f (s.rows idx) ≠ none ∧ ¬ RowOf f (addr, vid) (s.rows idx)
  | .mdbAdd _ _ addr vid _ => ∀ idx ∈ bucket f ctrl (keySeed f (addr, vid)),
    rowInfo f (s.rows idx) ≠ none ∧ ¬ RowOf f (addr, vid) (s.rows idx)
  | .fdbDel _ _ _ _ => False
  | .mdbDel _ _ _ _ _ => False

/-! ## Seeds and addresses -/

variable {f : Family} {ctrl : BitVec 32} {s : L2State} {idx : Nat}

/-- The address and the VID come back from the seed. -/
theorem hashSeed_parts (f : Family) (m : Mac) {vid : BitVec 16} (hv : vid.toNat < 4096) :
    etherAddrToU64 m = (if f = .rtl838x then hashSeed f (etherAddrToU64 m) vid >>> 12
      else hashSeed f (etherAddrToU64 m) vid &&& low 48) ∧
    vid = (if f = .rtl838x then hashSeed f (etherAddrToU64 m) vid &&& low 12
      else hashSeed f (etherAddrToU64 m) vid >>> 48).setWidth 16 := by
  have hm := getLsbD_etherAddrToU64 m
  have hvid := getLsbD_eq_false (w := 12) hv
  constructor <;> apply BitVec.eq_of_getLsbD_eq <;> intro i hi
  all_goals
    cases f <;>
      simp only [hashSeed, reduceCtorEq, if_true, if_false, BitVec.getLsbD_and, BitVec.getLsbD_or,
        BitVec.getLsbD_shiftLeft, BitVec.getLsbD_setWidth, BitVec.getLsbD_ushiftRight,
        getLsbD_low] <;>
      grind

theorem keySeed_inj {k k' : Mac × BitVec 16} (hv : k.2.toNat < 4096) (hv' : k'.2.toNat < 4096)
    (h : keySeed f k = keySeed f k') : k = k' := by
  obtain ⟨hm, hvid⟩ := hashSeed_parts f k.1 hv
  obtain ⟨hm', hvid'⟩ := hashSeed_parts f k'.1 hv'
  unfold keySeed at h
  rw [h, ← hm'] at hm
  rw [h, ← hvid'] at hvid
  have hmac : k.1 = k'.1 := by
    rw [← u64ToEtherAddr_etherAddrToU64 k.1, hm, u64ToEtherAddr_etherAddrToU64]
  exact Prod.ext hmac hvid

/-! ## Rows of the store -/

/-- A row that was written for a multicast address; only the RTL838x and the RTL839x have them. -/
def McRow (f : Family) (r : L2Row) : Prop :=
  f.is93xx = false ∧ ∃ e : L2Entry, e.Fits f ∧ e.type = .multicast ∧ macIsUnsnoop e.mac = false ∧
    r = fillRow f e

/-- What the rows of the store are. -/
def StoredRow (f : Family) (r : L2Row) : Prop := UcRow f r ∨ McRow f r

/-- What is read from the row of a multicast entry. -/
structure McBack (f : Family) (e e' : L2Entry) : Prop where
  valid : e'.valid = true
  type : e'.type = .multicast
  mac : e'.mac = e.mac
  rvid : e'.rvid = e.rvid
  mcPortmaskIndex : e'.mcPortmaskIndex = e.mcPortmaskIndex
  value : seedOf (hashValue f (fillRow f e) e') = e.seed f

/-- The words of a multicast row of the RTL838x hold the seed as it is. -/
theorem mcValue838x {e : L2Entry} (h : e.Fits .rtl838x) (ht : e.type = .multicast) :
    seedOf ((fillRow838x e).r1.setWidth 64 <<< 32 ||| (fillRow838x e).r2.setWidth 64) =
      e.seed .rtl838x := by
  obtain ⟨hi4, hi6, hm, hn⟩ := h.multicast ht
  have hseed := seedOf_hashSeed .rtl838x e.mac h.rvid
  have hrvid := getLsbD_eq_false h.rvid
  rw [L2Entry.seed, ← hseed]
  simp only [fillRow838x, h.valid, hi4, hi6, hm, hashSeed, Bool.not_true, Bool.not_false,
    Bool.and_self, Bool.false_eq_true, if_true, if_false]
  refine congrArg seedOf ?_
  generalize etherAddrToU64 e.mac = mac
  apply BitVec.eq_of_getLsbD_eq
  intro i hi
  simp only [BitVec.getLsbD_or, BitVec.getLsbD_shiftLeft, BitVec.getLsbD_setWidth,
    BitVec.getLsbD_ushiftRight, BitVec.getLsbD_and, getLsbD_low]
  -- the VID, the low bits of the address, and the others
  obtain h12 | ⟨h12, h32⟩ | h32 : i < 12 ∨ (12 ≤ i ∧ i < 32) ∨ 32 ≤ i := by omega
  · have hlt : i < 32 := by omega
    simp [hi, h12, hlt]
  · have hge : ¬ i < 12 := by omega
    have h20 : i - 12 < 20 := by omega
    have h64 : i - 12 < 64 := by omega
    simp [hi, hge, h32, h20, h64, hrvid i h12]
  · have hge : ¬ i < 12 := by omega
    have hge' : ¬ i < 32 := by omega
    have hlt : i - 32 < 32 := by omega
    have hlt' : i - 32 < 64 := by omega
    have hadd : 20 + (i - 32) = i - 12 := by omega
    simp [hi, hge, hge', hlt, hlt', hadd, hrvid i (by omega)]

theorem McBack.of_readsBack {e e' : L2Entry} (h : e.Fits f) (ht : e.type = .multicast)
    (hb : ReadsBack f e e') (hv : seedOf (hashValue f (fillRow f e) e') = e.seed f) :
    McBack f e e' where
  valid := hb.valid.trans h.valid
  type := hb.type.trans ht
  mac := hb.mac (by simp [L2Entry.IsIp, ht])
  rvid := hb.rvid
  mcPortmaskIndex := hb.mcPortmaskIndex (by simp [ht])
  value := hv

theorem mcBack {e : L2Entry} (hf : f.is93xx = false) (h : e.Fits f) (ht : e.type = .multicast)
    (e₀ : L2Entry) : McBack f e (fillEntry f (fillRow f e) e₀) := by
  cases f with
  | rtl838x =>
    have hb := multicast838x h ht e₀
    have hv : (fillEntry .rtl838x (fillRow .rtl838x e) e₀).valid = true := hb.valid.trans h.valid
    refine .of_readsBack h ht hb ?_
    simp only [hashValue, hv, Bool.not_true, Bool.false_eq_true, if_false]
    exact mcValue838x h ht
  | rtl839x =>
    have hb := multicast839x h ht e₀
    have hv : (fillEntry .rtl839x (fillRow .rtl839x e) e₀).valid = true := hb.valid.trans h.valid
    have hm : (fillEntry .rtl839x (fillRow .rtl839x e) e₀).mac = e.mac :=
      hb.mac (by simp [L2Entry.IsIp, ht])
    have hr : (fillEntry .rtl839x (fillRow .rtl839x e) e₀).rvid = e.rvid := hb.rvid
    refine .of_readsBack h ht hb ?_
    rw [hashValue_valid hv (by decide), L2Entry.seed, hm, hr]
    exact seedOf_hashSeed _ _ h.rvid
  | rtl930x => cases hf
  | rtl931x => cases hf

theorem McRow.seedRow {r : L2Row} (h : McRow f r) : SeedRow f r := by
  obtain ⟨hf, e, hfits, ht, -, rfl⟩ := h
  intro e₀
  have hz := mcBack hf hfits ht .zero
  rw [(mcBack hf hfits ht e₀).value, L2Entry.seed, L2Entry.seed, hz.mac, hz.rvid]

theorem StoredRow.seedRow {r : L2Row} (h : StoredRow f r) : SeedRow f r := by
  rcases h with h | h
  · exact h.seedRow
  · exact h.seedRow

/-- The seed of a stored row is made of an address and a VLAN. -/
theorem StoredRow.rvid_lt {r : L2Row} (h : StoredRow f r) :
    (fillEntry f r .zero).rvid.toNat < 4096 := by
  rcases h with h | ⟨hf, e, hfits, ht, -, rfl⟩
  · exact (h.read .zero).rvid
  · rw [(mcBack hf hfits ht .zero).rvid]
    exact hfits.rvid

/-- A stored row is the one of the address whose seed it holds. -/
theorem StoredRow.rowOf_iff {r : L2Row} (h : StoredRow f r) {key : Mac × BitVec 16}
    (hv : key.2.toNat < 4096) : RowOf f key r ↔ rowSeed f r = some (keySeed f key) := by
  constructor
  · rintro ⟨hval, hm, hr⟩
    simp [rowSeed, rowInfo, hval, L2Entry.seed, hm, hr, keySeed]
  · intro hs
    obtain ⟨info, hi, hinfo⟩ := info_of_rowSeed hs
    have hval : (fillEntry f r .zero).valid = true := by
      by_contra hval
      rw [rowInfo_eq_none.mpr (by simpa using hval)] at hi
      cases hi
    rw [rowInfo, if_pos hval, Option.some_inj] at hi
    subst hi
    have hkey := keySeed_inj (k := ((fillEntry f r .zero).mac, (fillEntry f r .zero).rvid))
      h.rvid_lt hv hinfo
    exact ⟨hval, congrArg Prod.fst hkey, congrArg Prod.snd hkey⟩

/-! ## What a call writes -/

theorem StoredRow.ucRow {r : L2Row} (h : StoredRow f r) {key : Mac × BitVec 16}
    (hr : RowOf f key r) (hm : key.1.isMulticast = false) : UcRow f r := by
  rcases h with h | ⟨hf, e, hfits, ht, -, rfl⟩
  · exact h
  · have hmac := (mcBack hf hfits ht .zero).mac
    rw [hr.2.1] at hmac
    rw [hmac, (hfits.multicast ht).2.2.1] at hm
    cases hm

theorem StoredRow.mcRow {r : L2Row} (h : StoredRow f r) {key : Mac × BitVec 16}
    (hr : RowOf f key r) (hm : key.1.isMulticast = true) : McRow f r := by
  rcases h with h | h
  · have hno := h.not_multicast
    rw [hr.2.1, hm] at hno
    cases hno
  · exact h

theorem Table.stored (h : Table f ctrl (StoredRow f) s.rows) {seed : BitVec 64}
    (hs : rowSeed f (s.rows idx) = some seed) : StoredRow f (s.rows idx) := by
  refine h.kind idx ?_
  rw [Ne, ← rowSeed_eq_none, hs]
  simp

/-- What a call for an address does to the table and to the CAM: it writes at most one row of its
bucket, the one of the address or a free one, and leaves it free or to the address. A row of
the CAM is freed, or it is the address's if its bucket was full. -/
structure Effect (f : Family) (ctrl : BitVec 32) (key : Mac × BitVec 16) (s s' : L2State)
    (spills : Prop) : Prop where
  rows : s'.rows = s.rows ∨ ∃ idx r, s'.rows = Function.update s.rows idx r ∧
    idx ∈ bucket f ctrl (keySeed f key) ∧
    (rowSeed f (s.rows idx) = some (keySeed f key) ∨ rowSeed f (s.rows idx) = none ∧
      ∀ k ∈ bucket f ctrl (keySeed f key), rowSeed f (s.rows k) ≠ some (keySeed f key)) ∧
    (rowInfo f r = none ∨ StoredRow f r ∧ rowSeed f r = some (keySeed f key))
  cam : ∀ idx, s'.cam idx = s.cam idx ∨ rowInfo f (s'.cam idx) = none ∨
    spills ∧ RowOf f key (s'.cam idx)

theorem Effect.refl {key : Mac × BitVec 16} {spills : Prop} : Effect f ctrl key s s spills :=
  ⟨.inl rfl, fun _ => .inl rfl⟩

/-- Only the port masks of groups change. -/
theorem Effect.of_same {key : Mac × BitVec 16} {s' : L2State} {spills : Prop}
    (hr : s'.rows = s.rows) (hc : s'.cam = s.cam) : Effect f ctrl key s s' spills :=
  ⟨.inl hr, fun k => .inl (by rw [hc])⟩

/-- One row of the CAM is written. -/
theorem Effect.of_cam {key : Mac × BitVec 16} {s' : L2State} {spills : Prop} {r : L2Row}
    (hr : s'.rows = s.rows) (hc : s'.cam = Function.update s.cam idx r)
    (hw : rowInfo f r = none ∨ spills ∧ RowOf f key r) : Effect f ctrl key s s' spills := by
  refine ⟨.inl hr, fun k => ?_⟩
  rw [hc]
  by_cases hk : k = idx
  · subst hk
    rw [Function.update_self]
    exact .inr hw
  · exact .inl (Function.update_of_ne hk _ _)

/-- A unicast entry of the address, in a row of the CAM. -/
theorem rowOf_setupUcEntry {port : BitVec 8} {addr : Mac} {vid : BitVec 16}
    (hp : port.toNat < 2 ^ f.portBits) (hm : addr.isMulticast = false) (hv : vid.toNat < 4096)
    (e : L2Entry) :
    RowOf f (addr, vid) (fillRow f (setupUcEntry e port vid (etherAddrToU64 addr))) := by
  have hfits : (setupUcEntry e port vid (etherAddrToU64 addr)).Fits f := setupUcEntry_fits hp hm hv
  have hb := hfits.unicastBack rfl (fun hfree => by cases hfree.2.1) .zero
  exact ⟨hb.valid, hb.mac.trans (u64ToEtherAddr_etherAddrToU64 addr), hb.rvid⟩

theorem fdbAdd_effect (h : Table f ctrl (StoredRow f) s.rows) (lag : LagPort) {port : BitVec 8}
    {addr : Mac} {vid : BitVec 16} (e : L2Entry)
    (hp : (FdbCall.fdbAdd lag port addr vid e).Proper f) :
    Effect f ctrl (addr, vid) s (fdbAdd f ctrl s lag port addr vid e).2
      ((FdbCall.fdbAdd lag port addr vid e).Spills f ctrl s) := by
  obtain ⟨hport, hm, hv⟩ := hp
  generalize hsp : (FdbCall.fdbAdd lag port addr vid e).Spills f ctrl s = spills
  unfold fdbAdd
  simp only
  generalize (if (f.is93xx && lag.group.isSome) = true then prepareLagFdb (lag.group.getD 0) e
    else e) = e₁
  split
  · exact .refl
  · rcases findHashEntry_cases ctrl (h.seedTable StoredRow.seedRow) (keySeed f (addr, vid)) false
      e₁ with
      ⟨idx, hb, hseed, e', hfind⟩ | ⟨hno, -, idx, hb, hfree, hfind⟩ | ⟨hno, hfull, e', hfind⟩
    · rw [keySeed] at hfind
      simp only [hfind]
      obtain ⟨hw, hr⟩ := setup_written ctrl idx hport hm hv (fillEntry f (s.rows idx) e')
      exact ⟨.inr ⟨idx, _, by rw [writeRow_rows, setUc_rows], hb, .inl hseed,
        .inr ⟨.inl hr, rowSeed_of_info hw⟩⟩, fun k => .inl (by simp [writeRow])⟩
    · rw [keySeed] at hfind
      simp only [hfind]
      obtain ⟨hw, hr⟩ := setup_written ctrl idx hport hm hv L2Entry.zero
      exact ⟨.inr ⟨idx, _, by rw [writeRow_rows, setUc_rows], hb, .inr ⟨hfree, hno⟩,
        .inr ⟨.inl hr, rowSeed_of_info hw⟩⟩, fun k => .inl (by simp [writeRow])⟩
    · rw [keySeed] at hfind
      simp only [hfind]
      split
      · refine .of_cam rfl rfl (.inr ⟨?_, rowOf_setupUcEntry hport hm hv _⟩)
        rw [← hsp]
        intro k hk
        have hused : rowInfo f (s.rows k) ≠ none := by
          rcases hfull with hfull | hfull
          · cases hfull
          · exact mt rowSeed_eq_none.mpr (hfull k hk)
        exact ⟨hused, mt ((h.kind k hused).rowOf_iff hv).mp (hno k hk)⟩
      · exact .refl

theorem fdbDel_effect (h : Table f ctrl (StoredRow f) s.rows) (lag : LagPort) {addr : Mac}
    {vid : BitVec 16} (e : L2Entry) (hp : (FdbCall.fdbDel lag addr vid e).Proper f) :
    Effect f ctrl (addr, vid) s (fdbDel f ctrl s lag addr vid e).2
      ((FdbCall.fdbDel lag addr vid e).Spills f ctrl s) := by
  obtain ⟨hm, hv⟩ := hp
  unfold fdbDel
  simp only
  generalize (if (f.is93xx && lag.group.isSome) = true then prepareLagFdb (lag.group.getD 0) e
    else e) = e₁
  rcases findHashEntry_cases ctrl (h.seedTable StoredRow.seedRow) (keySeed f (addr, vid)) true
    e₁ with ⟨idx, hb, hseed, e', hfind⟩ | ⟨-, hex, -⟩ | ⟨hno, -, e', hfind⟩
  · rw [keySeed] at hfind
    simp only [hfind]
    have hst := h.stored hseed
    have hrow := (hst.rowOf_iff hv).mpr hseed
    have huc := hst.ucRow hrow hm
    have hdel := delFdb_row (huc.read e') ctrl idx
      ((ucLookup f (setUc f s idx fun m => { m with fdbRef := false }) idx).any
        fun m => m.l3Refcount ≠ 0)
    refine ⟨.inr ⟨idx, _, by rw [writeRow_rows, setUc_rows], hb, .inl hseed, ?_⟩,
      fun k => .inl (by simp [writeRow])⟩
    split_ifs at hdel
    · refine .inr ⟨.inl hdel.2, ?_⟩
      rw [rowSeed_of_info hdel.1, (huc.read e').seed, L2Entry.seed, hrow.2.1, hrow.2.2, keySeed]
    · exact .inl hdel
  · cases hex
  · rw [keySeed] at hfind
    simp only [hfind]
    split
    · exact .of_cam rfl rfl (.inl (rowInfo_fillRow_invalid rfl))
    · exact .refl

/-! ## Multicast addresses -/

@[simp] theorem writeMcastPmask_rows (g : Nat) (ports : PortMask) :
    (writeMcastPmask f s g ports).rows = s.rows := rfl

@[simp] theorem writeMcastPmask_cam (g : Nat) (ports : PortMask) :
    (writeMcastPmask f s g ports).cam = s.cam := rfl

theorem mcGroupDelPort_same (g port : Nat) :
    (mcGroupDelPort f s g port).2.rows = s.rows ∧ (mcGroupDelPort f s g port).2.cam = s.cam := by
  unfold mcGroupDelPort
  simp only
  split <;> exact ⟨rfl, rfl⟩

/-- A group is given out with the port as its only one, and nothing else changes. -/
theorem mcGroupAlloc_cases (port : Nat) :
    mcGroupAlloc f s port = none ∨ ∃ g s', mcGroupAlloc f s port = some (g, s') ∧ g < 511 ∧
      s'.rows = s.rows ∧ s'.cam = s.cam ∧
      (port < f.maskBits → port ∈ s'.mcPmask g) := by
  unfold mcGroupAlloc
  cases hg : (List.range (maxMcGroups - 1)).find? fun g => !s.mcGroupBm g with
  | none => exact .inl rfl
  | some g =>
    refine .inr ⟨g, _, rfl, ?_, rfl, rfl, fun hp => ?_⟩
    · have := List.mem_range.mp (List.mem_of_find?_eq_some hg)
      simpa [maxMcGroups] using this
    · cases f <;> simpa [writeMcastPmask, Family.maskBits] using hp

theorem setupMcEntry_fits {addr : Mac} {vid : BitVec 16} {g : Nat} (hf : f.is93xx = false)
    (hm : addr.isMulticast = true) (hv : vid.toNat < 4096) (hg : g < 511) :
    (setupMcEntry vid (etherAddrToU64 addr) g).Fits f where
  valid := rfl
  kind := by
    simp only [L2Entry.OfKind, setupMcEntry, u64ToEtherAddr_etherAddrToU64]
    exact ⟨trivial, trivial, hm, trivial⟩
  vid := hv
  rvid := hv
  port := fun hu => by cases hu
  age := fun hu => by cases hu
  mcPortmaskIndex := fun _ => by
    have hlt : (BitVec.ofNat 16 g).toNat < 2 ^ 9 := by
      rw [BitVec.toNat_ofNat]
      omega
    cases f with
    | rtl838x => exact hlt
    | rtl839x => exact lt_of_lt_of_le hlt (by decide)
    | rtl930x => cases hf
    | rtl931x => cases hf

/-- The row of a new multicast entry, with the group that it names. -/
theorem mc_written {addr : Mac} {vid : BitVec 16} {g : Nat} (hf : f.is93xx = false)
    (hm : addr.isMulticast = true) (hv : vid.toNat < 4096) (hg : g < 511)
    (hun : macIsUnsnoop addr = false) :
    McRow f (fillRow f (setupMcEntry vid (etherAddrToU64 addr) g)) ∧
      RowOf f (addr, vid) (fillRow f (setupMcEntry vid (etherAddrToU64 addr) g)) ∧
      ∀ e₀, McBack f (setupMcEntry vid (etherAddrToU64 addr) g)
        (fillEntry f (fillRow f (setupMcEntry vid (etherAddrToU64 addr) g)) e₀) := by
  have hfits : (setupMcEntry vid (etherAddrToU64 addr) g).Fits f :=
    setupMcEntry_fits hf hm hv hg
  have hmac : (setupMcEntry vid (etherAddrToU64 addr) g).mac = addr :=
    u64ToEtherAddr_etherAddrToU64 addr
  have hb := mcBack hf hfits rfl
  refine ⟨⟨hf, _, hfits, rfl, by rw [hmac]; exact hun, rfl⟩, ?_, hb⟩
  exact ⟨(hb .zero).valid, (hb .zero).mac.trans hmac, (hb .zero).rvid⟩

theorem setHashMsb_eq (hf : f.is93xx = false) (e : L2Entry) : setHashMsb f ctrl idx e = e := by
  cases f <;> first | rfl | cases hf

theorem mdbAdd_effect (h : Table f ctrl (StoredRow f) s.rows) (lag : LagPort) {port : Nat}
    {addr : Mac} {vid : BitVec 16} (e : L2Entry)
    (hp : (FdbCall.mdbAdd lag port addr vid e).Proper f) :
    Effect f ctrl (addr, vid) s (mdbAdd f ctrl s lag port addr vid e).2
      ((FdbCall.mdbAdd lag port addr vid e).Spills f ctrl s) := by
  obtain ⟨-, hm, hv⟩ := hp
  generalize hsp : (FdbCall.mdbAdd lag port addr vid e).Spills f ctrl s = spills
  unfold mdbAdd
  simp only
  split_ifs with hf hlag hun
  · exact .refl
  · exact .refl
  · exact .refl
  · have hf : f.is93xx = false := by simpa using hf
    have hun : macIsUnsnoop addr = false := by simpa using hun
    rcases findHashEntry_cases ctrl (h.seedTable StoredRow.seedRow) (keySeed f (addr, vid)) false
      e with ⟨idx, hb, hseed, e', hfind⟩ | ⟨hno, -, idx, hb, hfree, hfind⟩ | ⟨hno, hfull, e', hfind⟩
    · rw [keySeed] at hfind
      obtain ⟨info, hi, -⟩ := info_of_rowSeed hseed
      have hval : (fillEntry f (s.rows idx) e').valid = true := by
        rw [fillEntry_valid]
        by_contra hval
        rw [rowInfo_eq_none.mpr (by simpa using hval)] at hi
        cases hi
      simp only [hfind, mdbAddAt, hval, if_true]
      exact .of_same rfl rfl
    · rw [keySeed] at hfind
      have hz : L2Entry.zero.valid = false := rfl
      simp only [hfind, mdbAddAt, hz, Bool.false_eq_true, if_false]
      rcases mcGroupAlloc_cases (f := f) (s := s) port with hg | ⟨g, s', hg, hlt, hr, hc, -⟩
      · simp only [hg]
        exact .refl
      · simp only [hg]
        obtain ⟨hrow, hof, -⟩ := mc_written hf hm hv hlt hun
        refine ⟨.inr ⟨idx, _, by rw [writeRow_rows, hr], hb, .inr ⟨hfree, hno⟩, ?_⟩,
          fun k => .inl (congrFun hc k)⟩
        rw [setHashMsb_eq hf]
        exact .inr ⟨.inr hrow, (StoredRow.rowOf_iff (.inr hrow) hv).mp hof⟩
    · rw [keySeed] at hfind
      simp only [hfind]
      split
      · rename_i k e'' _
        unfold mdbAddAt
        split
        · exact .of_same rfl rfl
        · rcases mcGroupAlloc_cases (f := f) (s := s) port with hg | ⟨g, s', hg, hlt, hr, hc, -⟩
          · simp only [hg]
            exact .refl
          · simp only [hg]
            obtain ⟨-, hof, -⟩ := mc_written hf hm hv hlt hun
            refine .of_cam hr (by rw [writeCam, hc]) (.inr ⟨?_, hof⟩)
            rw [← hsp]
            intro j hj
            have hused : rowInfo f (s.rows j) ≠ none := by
              rcases hfull with hfull | hfull
              · cases hfull
              · exact mt rowSeed_eq_none.mpr (hfull j hj)
            exact ⟨hused, mt ((h.kind j hused).rowOf_iff hv).mp (hno j hj)⟩
      · exact .refl

theorem mdbDel_effect (h : Table f ctrl (StoredRow f) s.rows) (lag : LagPort) {port : Nat}
    {addr : Mac} {vid : BitVec 16} (e : L2Entry) :
    Effect f ctrl (addr, vid) s (mdbDel f ctrl s lag port addr vid e).2
      ((FdbCall.mdbDel lag port addr vid e).Spills f ctrl s) := by
  unfold mdbDel
  simp only
  split_ifs with hlag hun
  · exact .refl
  · exact .refl
  · rcases findHashEntry_cases ctrl (h.seedTable StoredRow.seedRow) (keySeed f (addr, vid)) true
      e with ⟨idx, hb, hseed, e', hfind⟩ | ⟨-, hex, -⟩ | ⟨hno, -, e', hfind⟩
    · rw [keySeed] at hfind
      simp only [hfind, mdbDelAt]
      have hsame := mcGroupDelPort_same (f := f) (s := s)
        (fillEntry f (s.rows idx) e').mcPortmaskIndex.toNat port
      split
      · refine ⟨.inr ⟨idx, _, by rw [writeRow_rows, hsame.1], hb, .inl hseed, .inl ?_⟩,
          fun k => .inl (congrFun hsame.2 k)⟩
        exact rowInfo_fillRow_invalid (by rw [setHashMsb_valid])
      · exact .of_same hsame.1 hsame.2
    · cases hex
    · rw [keySeed] at hfind
      simp only [hfind]
      split
      · rename_i k e'' _
        have hsame := mcGroupDelPort_same (f := f) (s := s) e''.mcPortmaskIndex.toNat port
        unfold mdbDelAt
        simp only
        split
        · exact .of_cam hsame.1 (by rw [writeCam, hsame.2]) (.inl (rowInfo_fillRow_invalid rfl))
        · exact .of_same hsame.1 hsame.2
      · exact .refl

/-! ## Runs -/

theorem FdbCall.effect (c : FdbCall) (h : Table f ctrl (StoredRow f) s.rows) (hp : c.Proper f) :
    Effect f ctrl c.key s (c.run f ctrl s).2 (c.Spills f ctrl s) := by
  cases c with
  | fdbAdd lag port addr vid e => exact fdbAdd_effect h lag e hp
  | fdbDel lag addr vid e => exact fdbDel_effect h lag e hp
  | mdbAdd lag port addr vid e => exact mdbAdd_effect h lag e hp
  | mdbDel lag port addr vid e => exact mdbDel_effect h lag e

theorem FdbCall.Proper.vid {c : FdbCall} (hp : c.Proper f) : c.key.2.toNat < 4096 := by
  cases c with
  | fdbAdd lag port addr vid e => exact hp.2.2
  | fdbDel lag addr vid e => exact hp.2
  | mdbAdd lag port addr vid e => exact hp.2.2
  | mdbDel lag port addr vid e => exact hp.2

/-- The states that a sequence of calls reaches in which no add of the address finds its bucket
full. It starts at any table of stored rows, with none of the address in the CAM; the adds of
other addresses may go there. -/
inductive FdbRun (f : Family) (ctrl : BitVec 32) (key : Mac × BitVec 16) : L2State → Prop where
  | start (s : L2State) (ht : Table f ctrl (StoredRow f) s.rows)
      (hc : ∀ k, ¬ RowOf f key (s.cam k)) : FdbRun f ctrl key s
  | step {s : L2State} (c : FdbCall) (h : FdbRun f ctrl key s) (hp : c.Proper f)
      (hs : c.key = key → ¬ c.Spills f ctrl s) : FdbRun f ctrl key (c.run f ctrl s).2

variable {key : Mac × BitVec 16} {s' : L2State} {spills : Prop}

theorem not_rowOf {r : L2Row} (h : rowInfo f r = none) : ¬ RowOf f key r := by
  rintro ⟨hv, -⟩
  rw [rowInfo_eq_none.mp h] at hv
  cases hv

theorem Effect.table (h : Table f ctrl (StoredRow f) s.rows)
    (he : Effect f ctrl key s s' spills) : Table f ctrl (StoredRow f) s'.rows := by
  rcases he.rows with hr | ⟨idx, r, hr, hb, hold, hnew⟩
  · rw [hr]
    exact h
  · rw [hr]
    refine h.update idx ?_
    rcases hnew with hnew | ⟨hst, hseed⟩
    · exact .inl hnew
    · refine .inr ⟨hst, _, hseed, hb, fun k hk hs => ?_⟩
      rcases hold with hold | ⟨-, hno⟩
      · exact hk (h.unique hs hold)
      · exact hno k (h.home hs) hs

theorem Effect.cam_free (hc : ∀ k, ¬ RowOf f key (s.cam k)) {key' : Mac × BitVec 16}
    (he : Effect f ctrl key' s s' spills) (hs : key' = key → ¬ spills) (k : Nat) :
    ¬ RowOf f key (s'.cam k) := by
  intro hrow
  rcases he.cam k with hk | hk | ⟨hsp, hk⟩
  · rw [hk] at hrow
    exact hc k hrow
  · exact not_rowOf hk hrow
  · refine hs (Prod.ext ?_ ?_) hsp
    · exact hk.2.1.symm.trans hrow.2.1
    · exact hk.2.2.symm.trans hrow.2.2

theorem Table.rowOf_iff (h : Table f ctrl (StoredRow f) s.rows) (hk : key.2.toNat < 4096) :
    RowOf f key (s.rows idx) ↔ rowSeed f (s.rows idx) = some (keySeed f key) := by
  by_cases hi : rowInfo f (s.rows idx) = none
  · refine ⟨fun hr => absurd hr (not_rowOf hi), fun hs => ?_⟩
    rw [rowSeed_eq_none.mpr hi] at hs
    cases hs
  · exact (h.kind idx hi).rowOf_iff hk

/-- The rows of another address are left. -/
theorem Effect.others (h : Table f ctrl (StoredRow f) s.rows) {key' : Mac × BitVec 16}
    (he : Effect f ctrl key' s s' spills) (hk : key.2.toNat < 4096) (hk' : key'.2.toNat < 4096)
    (hne : key' ≠ key) (hr : RowOf f key (s.rows idx)) : s'.rows idx = s.rows idx := by
  rcases he.rows with hrows | ⟨k, r, hrows, -, hold, -⟩
  · rw [hrows]
  · rw [hrows]
    refine Function.update_of_ne ?_ _ _
    rintro rfl
    have hseed := (h.rowOf_iff hk).mp hr
    rcases hold with hold | ⟨hold, -⟩
    · rw [hold, Option.some_inj] at hseed
      exact hne (keySeed_inj hk' hk hseed)
    · rw [hold] at hseed
      cases hseed

/-- `FdbRun` keeps the table, and the CAM free of the address. -/
theorem FdbRun.inv (h : FdbRun f ctrl key s) :
    Table f ctrl (StoredRow f) s.rows ∧ ∀ k, ¬ RowOf f key (s.cam k) := by
  induction h with
  | start s ht hc => exact ⟨ht, hc⟩
  | step c _ hp hs ih =>
    have he := c.effect ih.1 hp
    exact ⟨he.table ih.1, he.cam_free ih.2 hs⟩

/-! ## What the calls promise -/

/-- A row of the hash table or of the CAM. -/
def L2State.rowAt (s : L2State) : Nat ⊕ Nat → L2Row
  | .inl idx => s.rows idx
  | .inr idx => s.cam idx

/-- The search finds the address as a unicast entry with this port. -/
def FoundUc (f : Family) (ctrl : BitVec 32) (s : L2State) (key : Mac × BitVec 16)
    (port : BitVec 8) : Prop :=
  ∀ mustExist e₀, ∃ idx e, findHashEntry f ctrl s (keySeed f key) mustExist e₀ = (some idx, e) ∧
    e.valid = true ∧ e.type = .unicast ∧ e.mac = key.1 ∧ e.rvid = key.2 ∧ e.port = port

/-- The search finds the address as a multicast entry whose group has this port. -/
def FoundMc (f : Family) (ctrl : BitVec 32) (s : L2State) (key : Mac × BitVec 16)
    (port : Nat) : Prop :=
  ∀ mustExist e₀, ∃ idx e, findHashEntry f ctrl s (keySeed f key) mustExist e₀ = (some idx, e) ∧
    e.valid = true ∧ e.type = .multicast ∧ e.mac = key.1 ∧ e.rvid = key.2 ∧
      port ∈ s.mcPmask e.mcPortmaskIndex.toNat

/-- What holds after a call that reports success: an entry that was added is found with its port,
but for a port of a link aggregation group that is not its primary one; a deleted entry has no
row but one that is kept as a next hop; and a multicast entry has none unless its group has
another port. -/
def FdbCall.Outcome (f : Family) (ctrl : BitVec 32) (s s' : L2State) : FdbCall → Prop
  | .fdbAdd lag port addr vid _ =>
    (lag.nonPrimary = true ∧ (f.is93xx && lag.group.isSome) = false ∧ s' = s) ∨
      FoundUc f ctrl s' (addr, vid) port
  | .fdbDel _ addr vid _ => ∀ x, RowOf f (addr, vid) (s'.rowAt x) →
    (fillEntry f (s'.rowAt x) .zero).nextHop = true
  | .mdbAdd _ port addr vid _ => FoundMc f ctrl s' (addr, vid) port
  | .mdbDel lag port addr vid _ => lag.nonPrimary = true ∨
    ∀ x, RowOf f (addr, vid) (s'.rowAt x) →
      ∃ other ∈ s.mcPmask (fillEntry f (s'.rowAt x) .zero).mcPortmaskIndex.toNat, other ≠ port

/-- The search finds the row of an address. -/
theorem Table.finds (h : Table f ctrl (StoredRow f) s.rows) (hk : key.2.toNat < 4096)
    (hr : RowOf f key (s.rows idx)) (mustExist : Bool) (e₀ : L2Entry) :
    ∃ e, findHashEntry f ctrl s (keySeed f key) mustExist e₀ =
      (some idx, fillEntry f (s.rows idx) e) := by
  have hseed := (h.rowOf_iff hk).mp hr
  rcases findHashEntry_cases ctrl (h.seedTable StoredRow.seedRow) (keySeed f key) mustExist e₀ with
    ⟨k, -, hk, e', hfind⟩ | ⟨hno, -⟩ | ⟨hno, -⟩
  · obtain rfl := h.unique hk hseed
    exact ⟨e', hfind⟩
  · exact absurd hseed (hno idx (h.home hseed))
  · exact absurd hseed (hno idx (h.home hseed))

/-- With room in the bucket the search does not come back empty. -/
theorem not_spills_found (h : Table f ctrl (StoredRow f) s.rows) (key : Mac × BitVec 16)
    (hk : key.2.toNat < 4096)
    (hs : ¬ ∀ idx ∈ bucket f ctrl (keySeed f key),
      rowInfo f (s.rows idx) ≠ none ∧ ¬ RowOf f key (s.rows idx)) (e₀ : L2Entry) :
    ∃ idx, (RowOf f key (s.rows idx) ∧ ∃ e, findHashEntry f ctrl s (keySeed f key) false e₀ =
        (some idx, fillEntry f (s.rows idx) e)) ∨
      findHashEntry f ctrl s (keySeed f key) false e₀ = (some idx, .zero) := by
  rcases findHashEntry_cases ctrl (h.seedTable StoredRow.seedRow) (keySeed f key) false e₀ with
    ⟨k, -, hseed, e', hfind⟩ | ⟨-, -, k, -, -, hfind⟩ | ⟨hno, hfull, -⟩
  · exact ⟨k, .inl ⟨(h.rowOf_iff hk).mpr hseed, e', hfind⟩⟩
  · exact ⟨k, .inr hfind⟩
  · refine absurd (fun k hb => ⟨?_, ?_⟩) hs
    · rcases hfull with hfull | hfull
      · cases hfull
      · exact mt rowSeed_eq_none.mpr (hfull k hb)
    · exact mt (h.rowOf_iff hk).mp (hno k hb)

theorem setHashMsb_same (ctrl : BitVec 32) (idx : Nat) (e : L2Entry) :
    (setHashMsb f ctrl idx e).type = e.type ∧ (setHashMsb f ctrl idx e).isStatic = e.isStatic ∧
      (setHashMsb f ctrl idx e).isTrunk = e.isTrunk ∧ (setHashMsb f ctrl idx e).mac = e.mac ∧
      (setHashMsb f ctrl idx e).rvid = e.rvid ∧ (setHashMsb f ctrl idx e).port = e.port := by
  cases f <;> exact ⟨rfl, rfl, rfl, rfl, rfl, rfl⟩

/-- The entry that is read from a row that `rtldsa_port_fdb_add` wrote. -/
theorem setup_back {port : BitVec 8} {addr : Mac} {vid : BitVec 16}
    (hp : port.toNat < 2 ^ f.portBits) (hm : addr.isMulticast = false) (hv : vid.toNat < 4096)
    (ctrl : BitVec 32) (idx : Nat) (e e₀ : L2Entry) {e' : L2Entry}
    (he : e' = fillEntry f
      (fillRow f (setHashMsb f ctrl idx (setupUcEntry e port vid (etherAddrToU64 addr)))) e₀) :
    e'.valid = true ∧ e'.type = .unicast ∧ e'.mac = addr ∧ e'.rvid = vid ∧ e'.port = port := by
  have hfits : (setupUcEntry e port vid (etherAddrToU64 addr)).Fits f := setupUcEntry_fits hp hm hv
  have hfits' : (setHashMsb f ctrl idx (setupUcEntry e port vid (etherAddrToU64 addr))).Fits f :=
    setHashMsb_fits hfits
  obtain ⟨hu, hst, htr, hmac, hrvid, hpt⟩ := setHashMsb_same (f := f) ctrl idx
    (setupUcEntry e port vid (etherAddrToU64 addr))
  have hfree : ¬ (setHashMsb f ctrl idx (setupUcEntry e port vid (etherAddrToU64 addr))).ReadsAsFree
      f := by
    rintro ⟨-, hno, -⟩
    rw [hst] at hno
    cases hno
  have htrunk : ¬ (setHashMsb f ctrl idx (setupUcEntry e port vid (etherAddrToU64 addr))).OnTrunk
      f := by
    rintro ⟨-, ht⟩
    rw [htr] at ht
    cases ht
  have hb := hfits'.unicastBack hu hfree e₀
  subst he
  refine ⟨hb.valid, hb.type, hb.mac.trans (hmac.trans ?_), hb.rvid.trans hrvid,
    (hb.port htrunk).trans hpt⟩
  exact u64ToEtherAddr_etherAddrToU64 addr

theorem fdbAdd_outcome (h : Table f ctrl (StoredRow f) s.rows) (lag : LagPort) {port : BitVec 8}
    {addr : Mac} {vid : BitVec 16} (e : L2Entry)
    (hp : (FdbCall.fdbAdd lag port addr vid e).Proper f)
    (hs : ¬ (FdbCall.fdbAdd lag port addr vid e).Spills f ctrl s) :
    (FdbCall.fdbAdd lag port addr vid e).Outcome f ctrl s
      (fdbAdd f ctrl s lag port addr vid e).2 := by
  have ht := (fdbAdd_effect h lag e hp).table h
  obtain ⟨hport, hm, hv⟩ := hp
  by_cases hig : (!(f.is93xx && lag.group.isSome) && lag.nonPrimary) = true
  · have hboth := hig
    rw [Bool.and_eq_true, Bool.not_eq_true'] at hboth
    refine .inl ⟨hboth.2, hboth.1, ?_⟩
    simp only [fdbAdd, hig, if_true]
  · refine .inr ?_
    obtain ⟨idx, e₁, hrows⟩ : ∃ idx e₁, (fdbAdd f ctrl s lag port addr vid e).2.rows =
        Function.update s.rows idx
          (fillRow f (setHashMsb f ctrl idx (setupUcEntry e₁ port vid (etherAddrToU64 addr)))) := by
      simp only [fdbAdd, if_neg hig]
      generalize (if (f.is93xx && lag.group.isSome) = true then
        prepareLagFdb (lag.group.getD 0) e else e) = e₂
      obtain ⟨idx, ⟨-, e₁, hfind⟩ | hfind⟩ := not_spills_found h (addr, vid) hv hs e₂
      · rw [keySeed] at hfind
        simp only [hfind]
        exact ⟨idx, _, by rw [writeRow_rows, setUc_rows]⟩
      · rw [keySeed] at hfind
        simp only [hfind]
        exact ⟨idx, _, by rw [writeRow_rows, setUc_rows]⟩
    have hrow : (fdbAdd f ctrl s lag port addr vid e).2.rows idx =
        fillRow f (setHashMsb f ctrl idx (setupUcEntry e₁ port vid (etherAddrToU64 addr))) := by
      rw [hrows, Function.update_self]
    have hof : RowOf f (addr, vid) ((fdbAdd f ctrl s lag port addr vid e).2.rows idx) := by
      rw [hrow]
      obtain ⟨hval, -, hmac, hr, -⟩ := setup_back hport hm hv ctrl idx e₁ .zero rfl
      exact ⟨hval, hmac, hr⟩
    intro mustExist e₀
    obtain ⟨e₂, hfind⟩ := ht.finds hv hof mustExist e₀
    refine ⟨idx, _, hfind, ?_⟩
    exact setup_back hport hm hv ctrl idx e₁ e₂ (by rw [hrow])

theorem fdbDel_outcome (h : Table f ctrl (StoredRow f) s.rows) (lag : LagPort) {addr : Mac}
    {vid : BitVec 16} (e : L2Entry) (hp : (FdbCall.fdbDel lag addr vid e).Proper f)
    (hc : ∀ k, ¬ RowOf f (addr, vid) ((fdbDel f ctrl s lag addr vid e).2.cam k)) :
    (FdbCall.fdbDel lag addr vid e).Outcome f ctrl s (fdbDel f ctrl s lag addr vid e).2 := by
  obtain ⟨hm, hv⟩ := hp
  rintro (k | k) hrow
  swap
  · exact absurd hrow (hc k)
  simp only [L2State.rowAt] at hrow ⊢
  revert hrow
  unfold fdbDel
  simp only
  generalize (if (f.is93xx && lag.group.isSome) = true then prepareLagFdb (lag.group.getD 0) e
    else e) = e₁
  rcases findHashEntry_cases ctrl (h.seedTable StoredRow.seedRow) (keySeed f (addr, vid)) true
    e₁ with ⟨idx, hb, hseed, e', hfind⟩ | ⟨-, hex, -⟩ | ⟨hno, -, e', hfind⟩
  · rw [keySeed] at hfind
    simp only [hfind, writeRow_rows, setUc_rows]
    intro hrow
    by_cases hk : k = idx
    · subst hk
      rw [Function.update_self] at hrow ⊢
      have huc := (h.stored hseed).ucRow ((h.rowOf_iff hv).mpr hseed) hm
      have hdel := delFdb_row (huc.read e') ctrl k
        ((ucLookup f (setUc f s k fun m => { m with fdbRef := false }) k).any
          fun m => m.l3Refcount ≠ 0)
      split_ifs at hdel
      · have hi := hdel.1
        rw [rowInfo, if_pos hrow.1, Option.some_inj] at hi
        exact congrArg RowInfo.nextHop hi
      · exact absurd hrow (not_rowOf hdel)
    · rw [Function.update_of_ne hk] at hrow
      exact absurd (h.unique ((h.rowOf_iff hv).mp hrow) hseed) hk
  · cases hex
  · rw [keySeed] at hfind
    simp only [hfind]
    intro hrow
    have hkeep : RowOf f (addr, vid) (s.rows k) := by
      revert hrow
      split
      · exact id
      · exact id
    have hseed := (h.rowOf_iff hv).mp hkeep
    exact absurd hseed (hno k (h.home hseed))

theorem McRow.read {r : L2Row} (h : McRow f r) {key : Mac × BitVec 16} (hr : RowOf f key r)
    (e₀ : L2Entry) :
    (fillEntry f r e₀).valid = true ∧ (fillEntry f r e₀).type = .multicast ∧
      (fillEntry f r e₀).mac = key.1 ∧ (fillEntry f r e₀).rvid = key.2 ∧
      (fillEntry f r e₀).mcPortmaskIndex = (fillEntry f r .zero).mcPortmaskIndex := by
  obtain ⟨hf, e, hfits, ht, -, rfl⟩ := h
  have hb := mcBack hf hfits ht e₀
  have hz := mcBack hf hfits ht .zero
  refine ⟨hb.valid, hb.type, ?_, ?_, hb.mcPortmaskIndex.trans hz.mcPortmaskIndex.symm⟩
  · rw [hb.mac, ← hz.mac]
    exact hr.2.1
  · rw [hb.rvid, ← hz.rvid]
    exact hr.2.2

/-- A multicast row of the address is found, with the ports of its group. -/
theorem Table.foundMc (h : Table f ctrl (StoredRow f) s.rows) (hk : key.2.toNat < 4096)
    (hm : key.1.isMulticast = true) (hr : RowOf f key (s.rows idx)) {port : Nat}
    (hp : port ∈ s.mcPmask (fillEntry f (s.rows idx) .zero).mcPortmaskIndex.toNat) :
    FoundMc f ctrl s key port := by
  have hrow := (h.stored ((h.rowOf_iff hk).mp hr)).mcRow hr hm
  intro mustExist e₀
  obtain ⟨e, hfind⟩ := h.finds hk hr mustExist e₀
  obtain ⟨hval, ht, hmac, hrv, hidx⟩ := hrow.read hr e
  exact ⟨idx, _, hfind, hval, ht, hmac, hrv, by rw [hidx]; exact hp⟩

theorem mem_mcGroupAddPort {g port : Nat} (hp : port < f.maskBits) :
    port ∈ (mcGroupAddPort f s g port).mcPmask g := by
  cases f <;> simpa [mcGroupAddPort, writeMcastPmask, Family.maskBits] using hp

theorem mdbAdd_outcome (h : Table f ctrl (StoredRow f) s.rows) (lag : LagPort) {port : Nat}
    {addr : Mac} {vid : BitVec 16} (e : L2Entry)
    (hp : (FdbCall.mdbAdd lag port addr vid e).Proper f)
    (hs : ¬ (FdbCall.mdbAdd lag port addr vid e).Spills f ctrl s)
    (hok : (mdbAdd f ctrl s lag port addr vid e).1 = 0) :
    (FdbCall.mdbAdd lag port addr vid e).Outcome f ctrl s
      (mdbAdd f ctrl s lag port addr vid e).2 := by
  have ht := (mdbAdd_effect h lag e hp).table h
  obtain ⟨hport, hm, hv⟩ := hp
  revert hok ht
  simp only [FdbCall.Outcome]
  unfold mdbAdd
  simp only
  split_ifs with hf hlag hun
  · intro hok
    simp [EOPNOTSUPP] at hok
  · intro hok
    simp [EINVAL] at hok
  · intro hok
    simp [EADDRNOTAVAIL] at hok
  · have hf : f.is93xx = false := by simpa using hf
    have hun : macIsUnsnoop addr = false := by simpa using hun
    obtain ⟨idx, ⟨hrow, e₁, hfind⟩ | hfind⟩ := not_spills_found h (addr, vid) hv hs e
    · have hmc := (h.stored ((h.rowOf_iff hv).mp hrow)).mcRow hrow hm
      obtain ⟨hval, -, -, -, hidx⟩ := hmc.read hrow e₁
      rw [keySeed] at hfind
      simp only [hfind, mdbAddAt, hval, if_true]
      intro _ ht
      refine ht.foundMc hv hm hrow ?_
      rw [hidx]
      exact mem_mcGroupAddPort hport
    · have hz : L2Entry.zero.valid = false := rfl
      rw [keySeed] at hfind
      simp only [hfind, mdbAddAt, hz, Bool.false_eq_true, if_false]
      rcases mcGroupAlloc_cases (f := f) (s := s) port with hg | ⟨g, s', hg, hlt, hr, hc, hmem⟩
      · simp only [hg]
        intro hok
        simp [ENOTSUPP] at hok
      · simp only [hg]
        intro _ ht
        obtain ⟨-, hof, hback⟩ := mc_written hf hm hv hlt hun
        have hrow : (writeRow f ctrl s' idx (setupMcEntry vid (etherAddrToU64 addr) g)).rows idx =
            fillRow f (setupMcEntry vid (etherAddrToU64 addr) g) := by
          rw [writeRow_rows, Function.update_self, setHashMsb_eq hf]
        have hof' : RowOf f (addr, vid)
            ((writeRow f ctrl s' idx (setupMcEntry vid (etherAddrToU64 addr) g)).rows idx) := by
          rw [hrow]
          exact hof
        refine ht.foundMc hv hm hof' ?_
        rw [hrow, (hback .zero).mcPortmaskIndex]
        have hgn : (BitVec.ofNat 16 g).toNat = g := by
          rw [BitVec.toNat_ofNat]
          omega
        simp only [setupMcEntry, hgn]
        exact hmem hport

theorem mdbDel_outcome (h : Table f ctrl (StoredRow f) s.rows) (lag : LagPort) {port : Nat}
    {addr : Mac} {vid : BitVec 16} (e : L2Entry)
    (hp : (FdbCall.mdbDel lag port addr vid e).Proper f)
    (hc : ∀ k, ¬ RowOf f (addr, vid) ((mdbDel f ctrl s lag port addr vid e).2.cam k)) :
    (FdbCall.mdbDel lag port addr vid e).Outcome f ctrl s
      (mdbDel f ctrl s lag port addr vid e).2 := by
  obtain ⟨hm, hv⟩ := hp
  by_cases hlag : lag.nonPrimary = true
  · exact .inl hlag
  refine .inr ?_
  rintro (k | k) hrow
  swap
  · exact absurd hrow (hc k)
  simp only [L2State.rowAt] at hrow ⊢
  revert hrow
  unfold mdbDel
  simp only [if_neg hlag]
  by_cases hun : macIsUnsnoop addr = true
  · -- no such address was ever added
    simp only [if_pos hun]
    intro hrow
    obtain ⟨hf, e', hfits, ht, hno, hr⟩ :=
      (h.stored ((h.rowOf_iff hv).mp hrow)).mcRow hrow hm
    have hmac := hrow.2.1
    rw [hr, (mcBack hf hfits ht .zero).mac] at hmac
    rw [hmac, hun] at hno
    cases hno
  · simp only [if_neg hun]
    rcases findHashEntry_cases ctrl (h.seedTable StoredRow.seedRow) (keySeed f (addr, vid)) true
      e with ⟨idx, hb, hseed, e', hfind⟩ | ⟨-, hex, -⟩ | ⟨hno, -, e', hfind⟩
    · rw [keySeed] at hfind
      simp only [hfind, mdbDelAt]
      have hof : RowOf f (addr, vid) (s.rows idx) := (h.rowOf_iff hv).mpr hseed
      have hmc := (h.stored hseed).mcRow hof hm
      have hidx := (hmc.read hof e').2.2.2.2
      have hsame := mcGroupDelPort_same (f := f) (s := s)
        (fillEntry f (s.rows idx) e').mcPortmaskIndex.toNat port
      split
      · intro hrow
        rw [writeRow_rows, hsame.1] at hrow
        by_cases hk : k = idx
        · subst hk
          rw [Function.update_self] at hrow
          exact absurd hrow (not_rowOf (rowInfo_fillRow_invalid (by rw [setHashMsb_valid])))
        · rw [Function.update_of_ne hk] at hrow
          exact absurd (h.unique ((h.rowOf_iff hv).mp hrow) hseed) hk
      · rename_i hne
        intro hrow
        rw [hsame.1] at hrow ⊢
        obtain rfl := h.unique ((h.rowOf_iff hv).mp hrow) hseed
        rw [hidx] at hne
        have hleft : (s.mcPmask (fillEntry f (s.rows k) .zero).mcPortmaskIndex.toNat).erase port ≠
            ∅ := by
          intro hz
          simp [mcGroupDelPort, hz] at hne
        obtain ⟨other, hother⟩ := Finset.nonempty_iff_ne_empty.mpr hleft
        rw [Finset.mem_erase] at hother
        exact ⟨other, hother.2, hother.1⟩
    · cases hex
    · rw [keySeed] at hfind
      simp only [hfind]
      intro hrow
      have hkeep : RowOf f (addr, vid) (s.rows k) := by
        revert hrow
        split
        · rename_i j e'' _
          have hsame := mcGroupDelPort_same (f := f) (s := s) e''.mcPortmaskIndex.toNat port
          unfold mdbDelAt
          simp only
          split
          · rw [writeCam, hsame.1]
            exact id
          · rw [hsame.1]
            exact id
        · exact id
      have hseed := (h.rowOf_iff hv).mp hkeep
      exact absurd hseed (hno k (h.home hseed))

/-- A call for the address that reports success does what it says. -/
theorem FdbCall.outcome (c : FdbCall) (h : Table f ctrl (StoredRow f) s.rows)
    (hc : ∀ k, ¬ RowOf f c.key (s.cam k)) (hp : c.Proper f) (hs : ¬ c.Spills f ctrl s)
    (hok : (c.run f ctrl s).1 = 0) : c.Outcome f ctrl s (c.run f ctrl s).2 := by
  have hfree := (c.effect h hp).cam_free hc fun _ => hs
  cases c with
  | fdbAdd lag port addr vid e => exact fdbAdd_outcome h lag e hp hs
  | fdbDel lag addr vid e => exact fdbDel_outcome h lag e hp hfree
  | mdbAdd lag port addr vid e => exact mdbAdd_outcome h lag e hp hs hok
  | mdbDel lag port addr vid e => exact mdbDel_outcome h lag e hp hfree

/-- Nothing is stored. -/
def emptyStore : L2State := noNexthops.l2

def host : Mac := ⟨0x02, 0, 0, 0, 0, 1⟩

def group : Mac := ⟨0x01, 0x00, 0x5e, 0x01, 0x02, 0x03⟩

/-- Five addresses of one bucket of the RTL838x. -/
def neighbour (m4 m5 : BitVec 8) : Mac := ⟨0x02, 0, 0, 0, m4, m5⟩

/-- Four addresses fill a bucket, a fifth one goes to the CAM, and one of the four is deleted. -/
def spilled : L2State :=
  let add := fun s addr => (fdbAdd .rtl838x 0 s {} 1 addr 1 .zero).2
  let s := add (add (add (add (add emptyStore (neighbour 0x08 0x01)) (neighbour 0x10 0x02))
    (neighbour 0x18 0x03)) (neighbour 0x20 0x04)) (neighbour 0x28 0x05)
  (fdbDel .rtl838x 0 s {} (neighbour 0x08 0x01) 1 .zero).2

/-- The fifth address is added again: it takes the free row of the bucket, and its row of the CAM
stays. -/
theorem spilled_fdbAdd_twice :
    (fdbAdd .rtl838x 0 spilled {} 2 (neighbour 0x28 0x05) 1 .zero).1 = 0 ∧
      RowOf .rtl838x (neighbour 0x28 0x05, 1)
        ((fdbAdd .rtl838x 0 spilled {} 2 (neighbour 0x28 0x05) 1 .zero).2.cam 0) ∧
      ∃ idx, RowOf .rtl838x (neighbour 0x28 0x05, 1)
        ((fdbAdd .rtl838x 0 spilled {} 2 (neighbour 0x28 0x05) 1 .zero).2.rows idx) := by
  refine ⟨by decide +kernel, ⟨by decide +kernel, by decide +kernel, by decide +kernel⟩,
    hashIndex (hashKey .rtl838x 0 (keySeed .rtl838x (neighbour 0x28 0x05, 1))) 0, ?_⟩
  exact ⟨by decide +kernel, by decide +kernel, by decide +kernel⟩

end Lede.Otto
