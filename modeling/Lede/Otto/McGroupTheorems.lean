/-
Lede.Otto.McGroupTheorems — multicast groups, their port masks and the rows that name them.

A run is made of `mdbAdd` and `mdbDel` calls, between which unicast entries come and go in any row
that no multicast address has. `added` keeps, for each address and VID, the ports that were added
and not yet deleted. The rows, the bitmap and the masks are a store of `Lib.Slots`; each branch of
a call changes one value in it, claims a slot or releases one.

`mcGroups_exact` is about the runs in which no add passes by the address in the CAM. The search
in the bucket goes on behind a free row; the one in the CAM ends there, and the CAM is not looked
at when the bucket has a free row. An address that is in the CAM gets a second row and a second
group then (`rejoined_splits`).
-/
import Lede.Lib.Runs
import Lede.Lib.Slots
import Lede.Otto.FdbTheorems

namespace Lede.Otto

open Lede.Lib.BitField Lede.Lib.Runs Lede.Lib.Slots

/-! ## Runs -/

/-- What a multicast row holds: its address and VID, and the group that it names. -/
def mcRef (f : Family) (r : L2Row) : Option ((Mac × BitVec 16) × Nat) :=
  let e := fillEntry f r .zero
  if e.valid && e.type == .multicast then some ((e.mac, e.rvid), e.mcPortmaskIndex.toNat) else none

/-- The row is a unicast one, or free. -/
def plainRow (f : Family) (r : L2Row) : Bool :=
  let e := fillEntry f r .zero
  !e.valid || e.type == .unicast

/-- Unicast entries are learned, written, aged out and deleted; other rows stay. -/
def changeUnicast (f : Family) (old new : Nat → L2Row) (idx : Nat) : L2Row :=
  if plainRow f (old idx) && plainRow f (new idx) then new idx else old idx

/-- The tables with the ports that were added and not yet deleted for an address and VID. -/
structure McState where
  l2 : L2State
  added : Mac × BitVec 16 → PortMask

inductive McStep where
  | add (lag : LagPort) (port : Nat) (addr : Mac) (vid : BitVec 16) (e : L2Entry)
  | del (lag : LagPort) (port : Nat) (addr : Mac) (vid : BitVec 16) (e : L2Entry)
  | unicast (rows cam : Nat → L2Row) (ucMap : Nat → L2Uc)

def mcStep (f : Family) (ctrl : BitVec 32) (m : McState) : McStep → McState
  | .add lag port addr vid e =>
    let r := mdbAdd f ctrl m.l2 lag port addr vid e
    { l2 := r.2
      added :=
        if r.1 = 0 then Function.update m.added (addr, vid) (insert port (m.added (addr, vid)))
        else m.added }
  | .del lag port addr vid e =>
    { l2 := (mdbDel f ctrl m.l2 lag port addr vid e).2
      added := Function.update m.added (addr, vid) ((m.added (addr, vid)).erase port) }
  | .unicast rows cam ucMap =>
    { m with l2 := { m.l2 with rows := changeUnicast f m.l2.rows rows,
                               cam := changeUnicast f m.l2.cam cam, ucMap := ucMap } }

/-- No multicast row, and no group in use. -/
structure McState.Fresh (f : Family) (m : McState) : Prop where
  plain : ∀ x, plainRow f (m.l2.rowAt x) = true
  unused : ∀ g, m.l2.mcGroupBm g = false
  added : ∀ key, m.added key = ∅

/-- A row of the CAM holds the address and an add does not get there: it settles for a free row of
the bucket, or of the CAM before that row. -/
def PassedBy (f : Family) (ctrl : BitVec 32) (s : L2State) (key : Mac × BitVec 16) : Prop :=
  (∀ idx ∈ bucket f ctrl (keySeed f key), ¬ RowOf f key (s.rows idx)) ∧
    ∃ k < f.camRows, RowOf f key (s.cam k) ∧
      ((∃ idx ∈ bucket f ctrl (keySeed f key), rowInfo f (s.rows idx) = none) ∨
        ∃ j < k, rowInfo f (s.cam j) = none)

instance (f : Family) (key : Mac × BitVec 16) (r : L2Row) : Decidable (RowOf f key r) :=
  inferInstanceAs (Decidable (_ ∧ _ ∧ _))

instance (f : Family) (ctrl : BitVec 32) (s : L2State) (key : Mac × BitVec 16) :
    Decidable (PassedBy f ctrl s key) :=
  inferInstanceAs (Decidable ((∀ idx ∈ bucket f ctrl (keySeed f key), ¬ RowOf f key (s.rows idx)) ∧
    ∃ k < f.camRows, RowOf f key (s.cam k) ∧
      ((∃ idx ∈ bucket f ctrl (keySeed f key), rowInfo f (s.rows idx) = none) ∨
        ∃ j < k, rowInfo f (s.cam j) = none)))

/-- The condition on a call: a multicast address, a VID of the switch and one of its ports, and
no row that is passed by. A port that was added is not deleted as a member of a link aggregation
group that is not the primary one. -/
def McStep.Clear (f : Family) (ctrl : BitVec 32) (m : McState) : McStep → Prop
  | .add lag port addr vid _ =>
    lag.nonPrimary = false → macIsUnsnoop addr = false →
      port < f.maskBits ∧ addr.isMulticast = true ∧ vid.toNat < 4096 ∧
        ¬ PassedBy f ctrl m.l2 (addr, vid)
  | .del lag port addr vid _ =>
    if lag.nonPrimary then port ∉ m.added (addr, vid)
    else macIsUnsnoop addr = false → addr.isMulticast = true ∧ vid.toNat < 4096
  | .unicast _ _ _ => True

/-- The three stores agree. -/
structure GroupsExact (f : Family) (m : McState) : Prop where
  bit : ∀ g, m.l2.mcGroupBm g = true ↔ ∃! x, ∃ key, mcRef f (m.l2.rowAt x) = some (key, g)
  apart : ∀ x y key key' g, mcRef f (m.l2.rowAt x) = some (key, g) →
    mcRef f (m.l2.rowAt y) = some (key', g) → x = y
  ports : ∀ x key g, mcRef f (m.l2.rowAt x) = some (key, g) → m.l2.mcPmask g = m.added key
  row : ∀ key, m.added key ≠ ∅ → ∃! x, ∃ g, mcRef f (m.l2.rowAt x) = some (key, g)

/-! ## Multicast rows -/

variable {f : Family} {ctrl : BitVec 32} {s : L2State} {key : Mac × BitVec 16} {g : Nat}

theorem mcRef_eq_some {r : L2Row} :
    mcRef f r = some (key, g) ↔ RowOf f key r ∧ (fillEntry f r .zero).type = .multicast ∧
      (fillEntry f r .zero).mcPortmaskIndex.toNat = g := by
  obtain ⟨mac, vid⟩ := key
  simp only [mcRef, RowOf, Option.ite_none_right_eq_some, Bool.and_eq_true, beq_iff_eq,
    Option.some_inj, Prod.mk.injEq]
  tauto

theorem mcRef_of_plain {r : L2Row} (h : plainRow f r = true) : mcRef f r = none := by
  cases hv : (fillEntry f r .zero).valid with
  | false => simp [mcRef, hv]
  | true =>
    have ht : (fillEntry f r .zero).type = .unicast := by simpa [plainRow, hv] using h
    simp [mcRef, ht]

theorem mcRef_of_free {r : L2Row} (h : rowInfo f r = none) : mcRef f r = none :=
  mcRef_of_plain (by simp [plainRow, rowInfo_eq_none.mp h])

theorem StoredRow.of_plain {r : L2Row} (h : plainRow f r = true) (hi : rowInfo f r ≠ none) :
    StoredRow f r := by
  have hv : (fillEntry f r .zero).valid = true := by
    rw [Ne, rowInfo_eq_none, Bool.not_eq_false] at hi
    exact hi
  exact .inl ⟨hv, by simpa [plainRow, hv] using h⟩

/-- The address of a multicast row is one that an add takes. -/
theorem StoredRow.mc_key {r : L2Row} (h : StoredRow f r) (hr : mcRef f r = some (key, g)) :
    key.2.toNat < 4096 ∧ macIsUnsnoop key.1 = false := by
  obtain ⟨hof, ht, -⟩ := mcRef_eq_some.mp hr
  refine ⟨hof.2.2 ▸ h.rvid_lt, ?_⟩
  rcases h with h | ⟨hf, e, hfits, hm, hun, rfl⟩
  · rw [h.2] at ht
    cases ht
  · rw [← hof.2.1, (mcBack hf hfits hm .zero).mac]
    exact hun

/-- The row of a multicast address names a group, whatever it is read into. -/
theorem StoredRow.mcRef {r : L2Row} (h : StoredRow f r) (hm : key.1.isMulticast = true)
    (hr : RowOf f key r) :
    ∃ g, mcRef f r = some (key, g) ∧ ∀ e₀, (fillEntry f r e₀).valid = true ∧
      (fillEntry f r e₀).mcPortmaskIndex.toNat = g := by
  have hmc := h.mcRow hr hm
  refine ⟨_, mcRef_eq_some.mpr ⟨hr, (hmc.read hr .zero).2.1, rfl⟩, fun e₀ => ?_⟩
  obtain ⟨hv, -, -, -, hidx⟩ := hmc.read hr e₀
  exact ⟨hv, by rw [hidx]⟩

/-! ## The search in the CAM -/

/-- No multicast address has the seed 0, which is what a free row of the CAM is taken for. -/
theorem keySeed_ne_zero (hf : f.is93xx = false) (hm : key.1.isMulticast = true) :
    keySeed f key ≠ 0 := by
  have hbit : key.1.m0[0] = true := by simpa [Mac.isMulticast] using hm
  intro h
  cases f with
  | rtl838x =>
    have := congrArg (fun x => x.getLsbD 52) h
    simp [keySeed, hashSeed, etherAddrToU64, hbit] at this
  | rtl839x =>
    have := congrArg (fun x => x.getLsbD 40) h
    simp [keySeed, hashSeed, etherAddrToU64, hbit] at this
  | rtl930x => cases hf
  | rtl931x => cases hf

theorem camValue_eq (hf : f.is93xx = false) (r : L2Row) (e : L2Entry) :
    camValue f r e = hashValue f r e := by
  cases f with
  | rtl838x => rfl
  | rtl839x => rfl
  | rtl930x => cases hf
  | rtl931x => cases hf

/-- The loop ends at the first row that holds the seed, or that is free when one will do. -/
theorem findCamLoop_spec (hf : f.is93xx = false) {cam : Nat → L2Row} (h : SeedTable f cam)
    {seed : BitVec 64} (hs : seed ≠ 0) (mustExist : Bool) (is : List Nat) (e : L2Entry) :
    ∃ e', findCamLoop f cam seed mustExist is e =
      match is.find? fun k => rowSeed f (cam k) = some seed ∨
        (mustExist = false ∧ rowSeed f (cam k) = none) with
      | some k => (some k, fillEntry f (cam k) e')
      | none => (none, e') := by
  induction is generalizing e with
  | nil => exact ⟨e, rfl⟩
  | cons k is ih =>
    simp only [findCamLoop, List.find?_cons]
    cases hv : (fillEntry f (cam k) e).valid with
    | false =>
      have hfree : rowSeed f (cam k) = none := by
        rw [rowSeed_eq_none, rowInfo_eq_none, ← fillEntry_valid f _ e, hv]
      have hzero : seedOf (camValue f (cam k) (fillEntry f (cam k) e)) ≠ seed := by
        simpa [camValue, hv, seedOf] using Ne.symm hs
      cases mustExist with
      | false => exact ⟨e, by simp [hfree]⟩
      | true =>
        obtain ⟨e', he⟩ := ih (fillEntry f (cam k) e)
        exact ⟨e', by simpa [hfree, hzero] using he⟩
    | true =>
      have hused : rowSeed f (cam k) ≠ none := by
        rw [Ne, rowSeed_eq_none, rowInfo_eq_none, ← fillEntry_valid f _ e, hv]
        decide
      have hval := h.value_eq e hv seed
      rw [camValue_eq hf]
      by_cases hk : rowSeed f (cam k) = some seed
      · exact ⟨e, by simp [hk, hval.mpr hk]⟩
      · obtain ⟨e', he⟩ := ih (fillEntry f (cam k) e)
        exact ⟨e', by simpa [hk, hused, mt hval.mp hk] using he⟩

/-- `otto_l2_find_cam_entry` finds the row that holds the seed, or a free one before it. -/
theorem findCamEntry_cases (hf : f.is93xx = false) (h : SeedTable f s.cam) {seed : BitVec 64}
    (hs : seed ≠ 0) (mustExist : Bool) (e : L2Entry) :
    (∃ k < f.camRows, rowSeed f (s.cam k) = some seed ∧
      ∃ e', findCamEntry f s seed mustExist e = (some k, fillEntry f (s.cam k) e')) ∨
    (mustExist = false ∧ ∃ k < f.camRows, rowSeed f (s.cam k) = none ∧
      (∀ j < k, rowSeed f (s.cam j) ≠ some seed) ∧
      ∃ e', findCamEntry f s seed mustExist e = (some k, fillEntry f (s.cam k) e')) ∨
    ((∀ k < f.camRows, rowSeed f (s.cam k) ≠ some seed) ∧
      ∃ e', findCamEntry f s seed mustExist e = (none, e')) := by
  obtain ⟨e', he⟩ := findCamLoop_spec hf h hs mustExist (List.range f.camRows) e
  rw [findCamEntry, he]
  cases hfind : (List.range f.camRows).find? fun k => rowSeed f (s.cam k) = some seed ∨
    (mustExist = false ∧ rowSeed f (s.cam k) = none) with
  | some k =>
    obtain ⟨hstop, hlt, hbefore⟩ := List.find?_range_eq_some.mp hfind
    have hlt : k < f.camRows := List.mem_range.mp hlt
    rcases of_decide_eq_true hstop with hk | ⟨hex, hk⟩
    · exact .inl ⟨k, hlt, hk, e', rfl⟩
    · refine .inr (.inl ⟨hex, k, hlt, hk, fun j hj => ?_, e', rfl⟩)
      have := hbefore j hj
      simp only [Bool.not_eq_true', decide_eq_false_iff_not, not_or] at this
      exact this.1
  | none =>
    refine .inr (.inr ⟨fun k hk hseed => ?_, e', rfl⟩)
    have := List.find?_eq_none.mp hfind k (List.mem_range.mpr hk)
    simp [hseed] at this

/-! ## The store of groups -/

/-- The places of the rows, the bitmap of the groups and their port masks. -/
def L2State.groups (f : Family) (s : L2State) :
    Store (Nat ⊕ Nat) (Mac × BitVec 16) Nat PortMask where
  ref x := Otto.mcRef f (s.rowAt x)
  used := s.mcGroupBm
  val := s.mcPmask

/-- Where the row of an address may be. -/
def Place (f : Family) (ctrl : BitVec 32) (key : Mac × BitVec 16) : Nat ⊕ Nat → Prop
  | .inl idx => idx ∈ bucket f ctrl (keySeed f key)
  | .inr k => k < f.camRows

/-- What every call keeps. -/
structure McState.Inv (f : Family) (ctrl : BitVec 32) (m : McState) : Prop where
  stored : ∀ x, rowInfo f (m.l2.rowAt x) ≠ none → StoredRow f (m.l2.rowAt x)
  home : ∀ {x key g}, mcRef f (m.l2.rowAt x) = some (key, g) → Place f ctrl key x
  exact : (m.l2.groups f).Exact ∅ m.added
  ports : ∀ {key}, ∀ p ∈ m.added key, p < f.maskBits

/-- A row of the table or of the CAM is written. -/
def writeAt (f : Family) (ctrl : BitVec 32) (x : Nat ⊕ Nat) (s : L2State) (e : L2Entry) : L2State :=
  match x with
  | .inl idx => writeRow f ctrl s idx e
  | .inr k => writeCam f s k e

variable {m : McState} {x : Nat ⊕ Nat} {e : L2Entry} {port : Nat}

theorem writeAt_rowAt (hf : f.is93xx = false) :
    (writeAt f ctrl x s e).rowAt = Function.update s.rowAt x (fillRow f e) := by
  funext y
  rcases x with i | i <;> rcases y with j | j
  · by_cases hj : j = i
    · subst hj
      simp [L2State.rowAt, writeAt, writeRow, setHashMsb_eq hf]
    · simp [L2State.rowAt, writeAt, writeRow, hj]
  · simp [L2State.rowAt, writeAt, writeRow]
  · simp [L2State.rowAt, writeAt, writeCam]
  · by_cases hj : j = i
    · subst hj
      simp [L2State.rowAt, writeAt, writeCam]
    · simp [L2State.rowAt, writeAt, writeCam, hj]

@[simp] theorem writeAt_mcGroupBm : (writeAt f ctrl x s e).mcGroupBm = s.mcGroupBm := by
  cases x <;> rfl

@[simp] theorem writeAt_mcPmask : (writeAt f ctrl x s e).mcPmask = s.mcPmask := by
  cases x <;> rfl

theorem writeAt_groups (hf : f.is93xx = false) :
    (writeAt f ctrl x s e).groups f =
      { s.groups f with
        ref := Function.update (s.groups f).ref x (mcRef f (fillRow f e)) } := by
  simp only [L2State.groups, writeAt_rowAt hf, writeAt_mcGroupBm, writeAt_mcPmask]
  congr 1
  funext y
  by_cases hy : y = x
  · subst hy
    simp
  · simp [hy]

/-- The mask of ports of the switch is written as it is. -/
theorem writeMcastPmask_eq {ports : PortMask} (h : ∀ p ∈ ports, p < f.maskBits) :
    writeMcastPmask f s g ports = { s with mcPmask := Function.update s.mcPmask g ports } := by
  have hall : ports.filter (· < f.maskBits) = ports := Finset.filter_true_of_mem h
  unfold writeMcastPmask
  cases f <;> (rw [Family.maskBits] at hall; simp only [hall])

/-- Rows change at one place, and the row there is free or a stored one then. -/
theorem stored_writeAt (hf : f.is93xx = false)
    (h : ∀ y, rowInfo f (s.rowAt y) ≠ none → StoredRow f (s.rowAt y))
    (hr : rowInfo f (fillRow f e) = none ∨ StoredRow f (fillRow f e)) (y : Nat ⊕ Nat)
    (hy : rowInfo f ((writeAt f ctrl x s e).rowAt y) ≠ none) :
    StoredRow f ((writeAt f ctrl x s e).rowAt y) := by
  rw [writeAt_rowAt hf] at hy ⊢
  by_cases hyx : y = x
  · subst hyx
    rw [Function.update_self] at hy ⊢
    rcases hr with hr | hr
    · exact absurd hr hy
    · exact hr
  · rw [Function.update_of_ne hyx] at hy ⊢
    exact h y hy

/-- Ports of the switch stay so when one set of them changes. -/
theorem ports_update {added : Mac × BitVec 16 → PortMask} {n : Nat}
    (h : ∀ {key}, ∀ p ∈ added key, p < n) (key : Mac × BitVec 16) {ports : PortMask}
    (hp : ∀ p ∈ ports, p < n) {key' : Mac × BitVec 16} :
    ∀ p ∈ Function.update added key ports key', p < n := by
  intro p hmem
  by_cases hk : key' = key
  · subst hk
    rw [Function.update_self] at hmem
    exact hp p hmem
  · rw [Function.update_of_ne hk] at hmem
    exact h p hmem

/-- The first group that is not in use gets the port. -/
theorem mcGroupAlloc_spec (hp : port < f.maskBits) :
    mcGroupAlloc f s port = none ∨ ∃ g < 511, s.mcGroupBm g = false ∧
      mcGroupAlloc f s port = some (g, { s with
        mcGroupBm := Function.update s.mcGroupBm g true
        mcPmask := Function.update s.mcPmask g {port} }) := by
  unfold mcGroupAlloc
  cases hg : (List.range (maxMcGroups - 1)).find? fun g => !s.mcGroupBm g with
  | none => exact .inl rfl
  | some g =>
    have hlt := List.mem_range.mp (List.mem_of_find?_eq_some hg)
    have hone : ∀ p ∈ ({port} : PortMask), p < f.maskBits := by simpa using hp
    refine .inr ⟨g, by simpa [maxMcGroups] using hlt, by simpa using List.find?_some hg, ?_⟩
    simp only [writeMcastPmask_eq hone]

/-! ## Calls at the row that was found -/

/-- The row of the address: the port joins the mask of its group. -/
theorem McState.Inv.joinGroup (h : m.Inv f ctrl) (hp : port < f.maskBits)
    (hx : mcRef f (m.l2.rowAt x) = some (key, g)) :
    McState.Inv f ctrl ⟨mcGroupAddPort f m.l2 g port,
      Function.update m.added key (insert port (m.added key))⟩ := by
  have hmask : m.l2.mcPmask g = m.added key := h.exact.val hx
  have hports : ∀ p ∈ insert port (m.added key), p < f.maskBits := by
    intro p hmem
    rcases Finset.mem_insert.mp hmem with rfl | hmem
    · exact hp
    · exact h.ports p hmem
  rw [mcGroupAddPort, hmask, writeMcastPmask_eq hports]
  exact ⟨h.stored, h.home, h.exact.set hx _, ports_update h.ports key hports⟩

/-- A free row: a group that is not in use gets the port and a row that names it. -/
theorem McState.Inv.newGroup (h : m.Inv f ctrl) (hf : f.is93xx = false) (hp : port < f.maskBits)
    {addr : Mac} {vid : BitVec 16} (hm : addr.isMulticast = true) (hv : vid.toNat < 4096)
    (hun : macIsUnsnoop addr = false) (hplace : Place f ctrl (addr, vid) x)
    (hfree : rowInfo f (m.l2.rowAt x) = none)
    (hno : ∀ y g, mcRef f (m.l2.rowAt y) ≠ some ((addr, vid), g)) (hg : g < 511)
    (hbm : m.l2.mcGroupBm g = false) :
    McState.Inv f ctrl
      ⟨writeAt f ctrl x { m.l2 with mcGroupBm := Function.update m.l2.mcGroupBm g true
                                    mcPmask := Function.update m.l2.mcPmask g {port} }
          (setupMcEntry vid (etherAddrToU64 addr) g),
        Function.update m.added (addr, vid) (insert port (m.added (addr, vid)))⟩ := by
  obtain ⟨hrow, hof, hback⟩ := mc_written hf hm hv hg hun
  have hempty : m.added (addr, vid) = ∅ := by
    by_contra hne
    obtain ⟨y, g', hy⟩ := h.exact.held hne
    exact hno y g' hy
  have hone : ∀ p ∈ ({port} : PortMask), p < f.maskBits := by simpa using hp
  have hgn : (BitVec.ofNat 16 g).toNat = g := by
    rw [BitVec.toNat_ofNat]
    omega
  have href : mcRef f (fillRow f (setupMcEntry vid (etherAddrToU64 addr) g)) =
      some ((addr, vid), g) := by
    refine mcRef_eq_some.mpr ⟨hof, (hback .zero).type, ?_⟩
    rw [(hback .zero).mcPortmaskIndex]
    exact hgn
  have hclaim := h.exact.claim (p := x) (mcRef_of_free hfree) hno hbm {port}
  rw [hempty, insert_empty_eq]
  have hgroups : (writeAt f ctrl x
      { m.l2 with mcGroupBm := Function.update m.l2.mcGroupBm g true,
                  mcPmask := Function.update m.l2.mcPmask g {port} }
      (setupMcEntry vid (etherAddrToU64 addr) g)).groups f =
      (m.l2.groups f).claim x (addr, vid) g {port} := by
    rw [writeAt_groups hf, href]
    rfl
  refine ⟨?_, ?_, ?_, ?_⟩
  · exact stored_writeAt hf h.stored (.inr (.inr hrow))
  · intro y key' g' hy
    have hy' : ((m.l2.groups f).claim x (addr, vid) g {port}).ref y = some (key', g') := by
      rw [← hgroups]
      exact hy
    rcases Store.claim_ref.mp hy' with ⟨rfl, rfl, -⟩ | ⟨-, hy'⟩
    · exact hplace
    · exact h.home hy'
  · rw [hgroups]
    exact hclaim
  · exact ports_update h.ports (addr, vid) hone

/-- The row of the address: the port leaves the mask, and with the last one the group is free and
so is the row. -/
theorem McState.Inv.leaveGroup (h : m.Inv f ctrl) (hf : f.is93xx = false)
    (hx : mcRef f (m.l2.rowAt x) = some (key, g)) (hg : e.mcPortmaskIndex.toNat = g) :
    McState.Inv f ctrl ⟨mdbDelAt f m.l2 port e (writeAt f ctrl x),
      Function.update m.added key ((m.added key).erase port)⟩ := by
  have hmask : m.l2.mcPmask g = m.added key := h.exact.val hx
  have hports : ∀ p ∈ (m.added key).erase port, p < f.maskBits :=
    fun p hmem => h.ports p (Finset.mem_of_mem_erase hmem)
  rw [mdbDelAt, mcGroupDelPort, hg, hmask, writeMcastPmask_eq hports]
  by_cases hempty : (m.added key).erase port = ∅
  · simp only [if_pos hempty, if_true]
    have hfree : rowInfo f (fillRow f { e with valid := false }) = none :=
      rowInfo_fillRow_invalid rfl
    have hgroups : (writeAt f ctrl x
        { m.l2 with mcGroupBm := Function.update m.l2.mcGroupBm g false,
                    mcPmask := Function.update m.l2.mcPmask g ((m.added key).erase port) }
        { e with valid := false }).groups f =
        (m.l2.groups f).release x g ((m.added key).erase port) := by
      rw [writeAt_groups hf, mcRef_of_free hfree]
      rfl
    refine ⟨stored_writeAt hf h.stored (.inl hfree), ?_, ?_, ports_update h.ports key hports⟩
    · intro y key' g' hy
      have hy' : ((m.l2.groups f).release x g ((m.added key).erase port)).ref y =
          some (key', g') := by
        rw [← hgroups]
        exact hy
      exact h.home (Store.release_ref.mp hy').2
    · rw [hgroups]
      have hrel := h.exact.release hx ((m.added key).erase port)
      rwa [← hempty] at hrel ⊢
  · simp only [if_neg hempty, Bool.false_eq_true, if_false]
    exact ⟨h.stored, h.home, h.exact.set hx _, ports_update h.ports key hports⟩

/-! ## Steps -/

theorem McState.Inv.seedRows (h : m.Inv f ctrl) : SeedTable f m.l2.rows :=
  fun idx hi => (h.stored (.inl idx) hi).seedRow

theorem McState.Inv.seedCam (h : m.Inv f ctrl) : SeedTable f m.l2.cam :=
  fun k hk => (h.stored (.inr k) hk).seedRow

theorem McState.Inv.rowOf_iff (h : m.Inv f ctrl) (hv : key.2.toNat < 4096) :
    RowOf f key (m.l2.rowAt x) ↔ rowSeed f (m.l2.rowAt x) = some (keySeed f key) := by
  by_cases hi : rowInfo f (m.l2.rowAt x) = none
  · refine ⟨fun hr => absurd hr (not_rowOf hi), fun hs => ?_⟩
    rw [rowSeed_eq_none.mpr hi] at hs
    cases hs
  · exact (h.stored x hi).rowOf_iff hv

/-- The row that holds the seed of a multicast address names its group. -/
theorem McState.Inv.found (h : m.Inv f ctrl) (hm : key.1.isMulticast = true)
    (hv : key.2.toNat < 4096) (hs : rowSeed f (m.l2.rowAt x) = some (keySeed f key)) :
    ∃ g, mcRef f (m.l2.rowAt x) = some (key, g) ∧
      ∀ e₀, (fillEntry f (m.l2.rowAt x) e₀).valid = true ∧
        (fillEntry f (m.l2.rowAt x) e₀).mcPortmaskIndex.toNat = g := by
  have hi : rowInfo f (m.l2.rowAt x) ≠ none := by
    rw [Ne, ← rowSeed_eq_none, hs]
    simp
  exact (h.stored x hi).mcRef hm ((h.rowOf_iff hv).mpr hs)

/-- An address that is neither in its bucket nor in the CAM has no row. -/
theorem McState.Inv.no_ref (h : m.Inv f ctrl) (hv : key.2.toNat < 4096)
    (hb : ∀ idx ∈ bucket f ctrl (keySeed f key), rowSeed f (m.l2.rows idx) ≠ some (keySeed f key))
    (hc : ∀ k < f.camRows, rowSeed f (m.l2.cam k) ≠ some (keySeed f key)) (y : Nat ⊕ Nat)
    (g : Nat) : mcRef f (m.l2.rowAt y) ≠ some (key, g) := by
  intro hy
  have hplace := h.home hy
  have hseed := (h.rowOf_iff hv).mp (mcRef_eq_some.mp hy).1
  cases y with
  | inl idx => exact hb idx hplace hseed
  | inr k => exact hc k hplace hseed

/-- An add at a free row of a place that the address may be in. -/
theorem McState.Inv.addFree (h : m.Inv f ctrl) (hf : f.is93xx = false) (hp : port < f.maskBits)
    {addr : Mac} {vid : BitVec 16} (hm : addr.isMulticast = true) (hv : vid.toNat < 4096)
    (hun : macIsUnsnoop addr = false) (hplace : Place f ctrl (addr, vid) x)
    (hfree : rowInfo f (m.l2.rowAt x) = none)
    (hno : ∀ y g, mcRef f (m.l2.rowAt y) ≠ some ((addr, vid), g)) (he : e.valid = false)
    {r : Int × L2State}
    (hr : r = mdbAddAt f m.l2 port vid (etherAddrToU64 addr) e (writeAt f ctrl x)) :
    McState.Inv f ctrl ⟨r.2,
      if r.1 = 0 then Function.update m.added (addr, vid) (insert port (m.added (addr, vid)))
      else m.added⟩ := by
  rw [mdbAddAt, he] at hr
  rcases mcGroupAlloc_spec (s := m.l2) hp with hg | ⟨g, hlt, hbm, hg⟩
  · simp only [hg, Bool.false_eq_true, if_false] at hr
    subst hr
    rw [if_neg (show (-ENOTSUPP : Int) ≠ 0 by decide)]
    exact h
  · simp only [hg, Bool.false_eq_true, if_false] at hr
    subst hr
    rw [if_pos rfl]
    exact h.newGroup hf hp hm hv hun hplace hfree hno hlt hbm

theorem McState.Inv.add (h : m.Inv f ctrl) (hf : f.is93xx = false) (lag : LagPort) (addr : Mac)
    (vid : BitVec 16) (e : L2Entry)
    (hc : McStep.Clear f ctrl m (.add lag port addr vid e)) :
    McState.Inv f ctrl (mcStep f ctrl m (.add lag port addr vid e)) := by
  simp only [mcStep]
  generalize hr : mdbAdd f ctrl m.l2 lag port addr vid e = r
  unfold mdbAdd at hr
  simp only [hf, Bool.false_eq_true, if_false] at hr
  by_cases hlag : lag.nonPrimary = true
  · rw [if_pos hlag] at hr
    subst hr
    rw [if_neg (show (-EINVAL : Int) ≠ 0 by decide)]
    exact h
  rw [if_neg hlag] at hr
  by_cases hun : macIsUnsnoop addr = true
  · rw [if_pos hun] at hr
    subst hr
    rw [if_neg (show (-EADDRNOTAVAIL : Int) ≠ 0 by decide)]
    exact h
  rw [if_neg hun] at hr
  have hun : macIsUnsnoop addr = false := by simpa using hun
  obtain ⟨hp, hm, hv, hpass⟩ := hc (by simpa using hlag) hun
  -- with `hno` the address is not in its bucket, and the CAM is not passed by
  have hpassed : ∀ k < f.camRows, rowSeed f (m.l2.cam k) = some (keySeed f (addr, vid)) →
      (∀ idx ∈ bucket f ctrl (keySeed f (addr, vid)),
        rowSeed f (m.l2.rows idx) ≠ some (keySeed f (addr, vid))) →
      (∀ idx ∈ bucket f ctrl (keySeed f (addr, vid)), rowInfo f (m.l2.rows idx) ≠ none) ∧
        ∀ j < k, rowInfo f (m.l2.cam j) ≠ none := by
    intro k hk hseed hno
    have hrows : ∀ idx ∈ bucket f ctrl (keySeed f (addr, vid)),
        ¬ RowOf f (addr, vid) (m.l2.rows idx) :=
      fun idx hidx => mt (h.rowOf_iff (x := .inl idx) hv).mp (hno idx hidx)
    have hcam : RowOf f (addr, vid) (m.l2.cam k) := (h.rowOf_iff (x := .inr k) hv).mpr hseed
    refine ⟨fun idx hidx hfree => hpass ⟨hrows, k, hk, hcam, .inl ⟨idx, hidx, hfree⟩⟩, ?_⟩
    exact fun j hj hfree => hpass ⟨hrows, k, hk, hcam, .inr ⟨j, hj, hfree⟩⟩
  rcases findHashEntry_cases ctrl h.seedRows (keySeed f (addr, vid)) false e with
    ⟨idx, hb, hseed, e', hfind⟩ | ⟨hno, -, idx, hb, hfree, hfind⟩ | ⟨hno, hfull, e', hfind⟩
  · obtain ⟨g, hx, hread⟩ := h.found (x := .inl idx) hm hv hseed
    obtain ⟨hval, hidx⟩ := hread e'
    rw [keySeed] at hfind
    simp only [L2State.rowAt] at hval hidx
    simp only [hfind, mdbAddAt, hval, hidx, if_true] at hr
    subst hr
    rw [if_pos rfl]
    exact h.joinGroup hp hx
  · rw [keySeed] at hfind
    simp only [hfind] at hr
    have hfree := rowSeed_eq_none.mp hfree
    refine h.addFree (x := .inl idx) hf hp hm hv hun hb hfree (h.no_ref hv hno ?_) rfl hr.symm
    exact fun k hk hseed => (hpassed k hk hseed hno).1 idx hb hfree
  · rw [keySeed] at hfind
    simp only [hfind] at hr
    rcases findCamEntry_cases hf h.seedCam
        (show keySeed f (addr, vid) ≠ 0 from keySeed_ne_zero hf hm) false e'
      with ⟨k, hk, hseed, e₁, hcam⟩ | ⟨-, k, hk, hfree, hbefore, e₁, hcam⟩ | ⟨-, e₁, hcam⟩
    · obtain ⟨g, hx, hread⟩ := h.found (x := .inr k) hm hv hseed
      obtain ⟨hval, hidx⟩ := hread e₁
      rw [keySeed] at hcam
      simp only [L2State.rowAt] at hval hidx
      simp only [hcam, mdbAddAt, hval, hidx, if_true] at hr
      subst hr
      rw [if_pos rfl]
      exact h.joinGroup hp hx
    · rw [keySeed] at hcam
      simp only [hcam] at hr
      have hfree := rowSeed_eq_none.mp hfree
      have hval : (fillEntry f (m.l2.cam k) e₁).valid = false := by
        rw [fillEntry_valid]
        exact rowInfo_eq_none.mp hfree
      refine h.addFree (x := .inr k) hf hp hm hv hun hk hfree (h.no_ref hv hno ?_) hval hr.symm
      intro j hj hseed
      have hlt : k < j := by
        rcases lt_trichotomy j k with hjk | rfl | hjk
        · exact absurd hseed (hbefore j hjk)
        · rw [rowSeed_eq_none.mpr hfree] at hseed
          cases hseed
        · exact hjk
      exact (hpassed j hj hseed hno).2 k hlt hfree
    · rw [keySeed] at hcam
      simp only [hcam] at hr
      subst hr
      rw [if_neg (show (-ENOTSUPP : Int) ≠ 0 by decide)]
      exact h

/-- Where an address has no row, nothing was added, and a delete is one of no port. -/
theorem McState.Inv.erase_none (h : m.Inv f ctrl)
    (hno : ∀ y g, mcRef f (m.l2.rowAt y) ≠ some (key, g)) :
    Function.update m.added key ((m.added key).erase port) = m.added := by
  have hempty : m.added key = ∅ := by
    by_contra hne
    obtain ⟨y, g, hy⟩ := h.exact.held hne
    exact hno y g hy
  rw [hempty, Finset.erase_empty, ← hempty, Function.update_eq_self]

theorem McState.Inv.del (h : m.Inv f ctrl) (hf : f.is93xx = false) (lag : LagPort) (addr : Mac)
    (vid : BitVec 16) (e : L2Entry)
    (hc : McStep.Clear f ctrl m (.del lag port addr vid e)) :
    McState.Inv f ctrl (mcStep f ctrl m (.del lag port addr vid e)) := by
  simp only [mcStep, McStep.Clear] at hc ⊢
  unfold mdbDel
  by_cases hlag : lag.nonPrimary = true
  · rw [if_pos hlag] at hc
    simp only [if_pos hlag]
    rw [Finset.erase_eq_of_notMem hc, Function.update_eq_self]
    exact h
  rw [if_neg hlag] at hc
  simp only [if_neg hlag]
  by_cases hun : macIsUnsnoop addr = true
  · -- no such address was ever added
    simp only [if_pos hun]
    rw [h.erase_none]
    · exact h
    · intro y g hy
      have hi : rowInfo f (m.l2.rowAt y) ≠ none := by
        intro hi
        rw [mcRef_of_free hi] at hy
        cases hy
      have hno := ((h.stored y hi).mc_key hy).2
      rw [hun] at hno
      cases hno
  obtain ⟨hm, hv⟩ := hc (by simpa using hun)
  simp only [if_neg hun]
  rcases findHashEntry_cases ctrl h.seedRows (keySeed f (addr, vid)) true e with
    ⟨idx, hb, hseed, e', hfind⟩ | ⟨-, hex, -⟩ | ⟨hno, -, e', hfind⟩
  · obtain ⟨g, hx, hread⟩ := h.found (x := .inl idx) hm hv hseed
    rw [keySeed] at hfind
    simp only [hfind]
    exact h.leaveGroup hf hx (hread e').2
  · cases hex
  · rw [keySeed] at hfind
    simp only [hfind]
    rcases findCamEntry_cases hf h.seedCam
        (show keySeed f (addr, vid) ≠ 0 from keySeed_ne_zero hf hm) true e'
      with ⟨k, hk, hseed, e₁, hcam⟩ | ⟨hex, -⟩ | ⟨hno', e₁, hcam⟩
    · obtain ⟨g, hx, hread⟩ := h.found (x := .inr k) hm hv hseed
      rw [keySeed] at hcam
      simp only [hcam]
      exact h.leaveGroup hf hx (hread e₁).2
    · cases hex
    · rw [keySeed] at hcam
      simp only [hcam]
      rw [h.erase_none (h.no_ref hv hno hno')]
      exact h

/-- Unicast entries take no row of a multicast address. -/
theorem mcRef_changeUnicast (old new : Nat → L2Row) (idx : Nat) :
    mcRef f (changeUnicast f old new idx) = mcRef f (old idx) := by
  unfold changeUnicast
  split_ifs with h
  · rw [Bool.and_eq_true] at h
    rw [mcRef_of_plain h.1, mcRef_of_plain h.2]
  · rfl

theorem stored_changeUnicast {old new : Nat → L2Row}
    (h : ∀ idx, rowInfo f (old idx) ≠ none → StoredRow f (old idx)) (idx : Nat)
    (hi : rowInfo f (changeUnicast f old new idx) ≠ none) :
    StoredRow f (changeUnicast f old new idx) := by
  unfold changeUnicast at hi ⊢
  split_ifs at hi ⊢ with hp
  · rw [Bool.and_eq_true] at hp
    exact .of_plain hp.2 hi
  · exact h idx hi

theorem McState.Inv.unicast (h : m.Inv f ctrl) (rows cam : Nat → L2Row) (ucMap : Nat → L2Uc) :
    McState.Inv f ctrl (mcStep f ctrl m (.unicast rows cam ucMap)) := by
  have href : ∀ y, mcRef f ((mcStep f ctrl m (.unicast rows cam ucMap)).l2.rowAt y) =
      mcRef f (m.l2.rowAt y) := by
    rintro (idx | k)
    · exact mcRef_changeUnicast _ _ idx
    · exact mcRef_changeUnicast _ _ k
  have hgroups : (mcStep f ctrl m (.unicast rows cam ucMap)).l2.groups f = m.l2.groups f := by
    simp only [L2State.groups, href]
    rfl
  refine ⟨?_, fun hy => ?_, ?_, h.ports⟩
  · rintro (idx | k) hi
    · exact stored_changeUnicast (fun idx => h.stored (.inl idx)) idx hi
    · exact stored_changeUnicast (fun k => h.stored (.inr k)) k hi
  · rw [href] at hy
    exact h.home hy
  · rw [hgroups]
    exact h.exact

theorem McState.Inv.step (hf : f.is93xx = false) (m : McState) (c : McStep) (h : m.Inv f ctrl)
    (hc : c.Clear f ctrl m) : (mcStep f ctrl m c).Inv f ctrl := by
  cases c with
  | add lag port addr vid e => exact h.add hf lag addr vid e hc
  | del lag port addr vid e => exact h.del hf lag addr vid e hc
  | unicast rows cam ucMap => exact h.unicast rows cam ucMap

theorem McState.Fresh.inv (h : m.Fresh f) : m.Inv f ctrl := by
  have hnone : ∀ x, mcRef f (m.l2.rowAt x) = none := fun x => mcRef_of_plain (h.plain x)
  refine ⟨fun x hi => .of_plain (h.plain x) hi, fun hx => ?_, ⟨fun g => ?_, fun hx => ?_,
    fun hx => ?_, fun hx => ?_, fun hne => absurd (h.added _) hne⟩, fun p hp => ?_⟩
  · rw [hnone] at hx
    cases hx
  · simp [L2State.groups, hnone, h.unused]
  · simp [L2State.groups, hnone] at hx
  · simp [L2State.groups, hnone] at hx
  · simp [L2State.groups, hnone] at hx
  · simp [h.added] at hp

theorem McState.Inv.groupsExact (h : m.Inv f ctrl) : GroupsExact f m where
  bit := h.exact.existsUnique
  apart _ _ _ _ _ hx hy := h.exact.slot_inj hx hy
  ports _ _ _ hx := h.exact.val hx
  row key hne := by
    obtain ⟨x, g, hx⟩ := h.exact.held hne
    refine ⟨x, ⟨g, hx⟩, ?_⟩
    rintro y ⟨g', hy⟩
    exact h.exact.key_inj hy hx

/-- In a run from tables without multicast rows in which each call meets its condition, the
bitmap, the port masks and the rows agree. -/
theorem mcGroups_exact (f : Family) (hf : f.is93xx = false) (ctrl : BitVec 32) {m : McState}
    (h : m.Fresh f) {steps : List McStep}
    (hc : Along (mcStep f ctrl) (fun m c => c.Clear f ctrl m) m steps) :
    GroupsExact f (steps.foldl (mcStep f ctrl) m) :=
  (inv_of_along (McState.Inv f ctrl) (McState.Inv.step hf) h.inv hc).groupsExact

/-! ## A second row -/

/-- Nothing is stored and nothing was added. -/
def noGroups : McState := ⟨emptyStore, fun _ => ∅⟩

theorem noGroups_fresh : noGroups.Fresh .rtl838x where
  plain x := by
    have hz : plainRow .rtl838x .zero = true := by decide +kernel
    rcases x with i | i <;> exact hz
  unused _ := rfl
  added _ := rfl

/-- Groups of one bucket of the RTL838x. -/
def groupOf (m4 m5 : BitVec 8) : Mac := ⟨0x01, 0x00, 0x5e, 0x01, m4, m5⟩

def join (port : Nat) (addr : Mac) : McStep := .add {} port addr 1 .zero

def leave (port : Nat) (addr : Mac) : McStep := .del {} port addr 1 .zero

/-- Two ports join a group, and one leaves it. -/
theorem mcGroups_exact_two :
    GroupsExact .rtl838x ([join 1 group, join 2 group, leave 1 group].foldl (mcStep .rtl838x 0)
      noGroups) := by
  refine mcGroups_exact .rtl838x rfl 0 noGroups_fresh ?_
  simp only [along_cons, along_nil, and_true]
  refine ⟨fun _ _ => ⟨by decide, by decide, by decide, ?_⟩,
    fun _ _ => ⟨by decide, by decide, by decide, ?_⟩, fun _ => ⟨by decide, by decide⟩⟩
  · decide +kernel
  · decide +kernel

/-- Four groups fill a bucket and a fifth one goes to the CAM; the first one is left, and another
port joins the fifth. -/
def rejoined : List McStep :=
  [join 1 (groupOf 0x08 0x01), join 1 (groupOf 0x10 0x02), join 1 (groupOf 0x18 0x03),
    join 1 (groupOf 0x20 0x04), join 1 (groupOf 0x28 0x05), leave 1 (groupOf 0x08 0x01),
    join 2 (groupOf 0x28 0x05)]

/-- The fifth group has two rows then, with one port each. -/
theorem rejoined_splits : ¬ GroupsExact .rtl838x (rejoined.foldl (mcStep .rtl838x 0) noGroups) := by
  intro h
  have hcam := h.ports (.inr 0) (groupOf 0x28 0x05, 1) 4 (by decide +kernel)
  have hports : (rejoined.foldl (mcStep .rtl838x 0) noGroups).l2.mcPmask 4 ≠
      (rejoined.foldl (mcStep .rtl838x 0) noGroups).added (groupOf 0x28 0x05, 1) := by
    decide +kernel
  exact hports hcam

end Lede.Otto
