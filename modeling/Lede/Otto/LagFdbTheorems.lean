/-
Lede.Otto.LagFdbTheorems — FDB entries of ports in a LAG group (`dsa.c`, `lag.c`).

`rtldsa_port_fdb_add` marks its entry as a trunk entry first. The search reads
rows over the entry and `rtldsa_setup_l2_uc_entry` clears it, so the row that
is written is that of a port, whatever the port is a member of
(`setup_not_trunk`).
-/
import Lede.Otto.FdbTheorems
import Lede.Otto.LagTheorems

namespace Lede.Otto

/-! ## The groups -/

/-- A member of a group, and of the union that the driver looks into first. -/
structure LagState.Member (s : LagState) (group port : Nat) : Prop where
  group_lt : group < maxLags
  union : port ∈ s.lagmembers
  group : port ∈ s.lagsPortMembers group

/-- The port as `rtldsa_port_fdb_add` sees it. -/
def LagState.portView (s : LagState) (port : Nat) : LagPort where
  nonPrimary := port ∈ s.lagNonPrimary
  group := lagFindGroupFromPort s port

section Groups

variable {f : Family} {s : LagState} {port : Nat}

theorem lagFindGroupFromPort_isSome :
    (lagFindGroupFromPort s port).isSome = true ↔ ∃ group, s.Member group port := by
  unfold lagFindGroupFromPort
  split
  · rename_i h
    simp only [Option.isSome_none, Bool.false_eq_true, false_iff, not_exists]
    exact fun g hm => h hm.union
  · rename_i h
    simp only [List.find?_isSome, List.mem_range, decide_eq_true_eq]
    constructor
    · rintro ⟨g, hg, hp⟩
      exact ⟨g, hg, not_not.1 h, hp⟩
    · rintro ⟨g, hm⟩
      exact ⟨g, hm.group_lt, hm.group⟩

/-- The ports that are not primary are members. -/
def NonPrimaryIn (s : LagState) : Prop := s.lagNonPrimary ⊆ s.lagmembers

/-- The functions below the calls write the members of a group and registers. -/
def SameUnion (s s' : LagState) : Prop :=
  s'.lagNonPrimary = s.lagNonPrimary ∧ s'.lagmembers = s.lagmembers

theorem lagSetPortMembers_sameUnion (tx : Nat → Bool) (group : Nat) (members : PortMask)
    (info : Option LagUpperInfo) :
    SameUnion s (lagSetPortMembers f tx s group members info).2 := by
  obtain ⟨hw, h⟩ := lagSetPortMembers_state f tx s group members info
  rw [h]
  exact ⟨rfl, rfl⟩

theorem lagAdd_sameUnion (f : Family) (s : LagState) (port : Nat) (tx : Nat → Bool) (group : Nat)
    (info : LagUpperInfo) : SameUnion s (lagAdd f tx s group port info).2 := by
  unfold lagAdd
  split
  · exact ⟨rfl, rfl⟩
  · dsimp only
    cases f.is93xx with
    | true => exact lagSetPortMembers_sameUnion tx group _ _
    | false =>
      exact lagSetPortMembers_sameUnion
        (s := { s with hw := setupAlgomask f s.hw group info.hashType }) tx group _ _

theorem lagDel_sameUnion (f : Family) (s : LagState) (port : Nat) (tx : Nat → Bool) (group : Nat) :
    SameUnion s (lagDel f tx s group port).2 := by
  unfold lagDel
  split
  · exact ⟨rfl, rfl⟩
  split
  · exact ⟨rfl, rfl⟩
  · exact lagSetPortMembers_sameUnion tx group _ _

theorem NonPrimaryIn.same {s' : LagState} (h : NonPrimaryIn s) (hs : SameUnion s s') :
    NonPrimaryIn s' := by
  unfold NonPrimaryIn
  rw [hs.1, hs.2]
  exact h

theorem NonPrimaryIn.electPrimary (h : NonPrimaryIn s) (group : Nat) :
    NonPrimaryIn (electPrimary s group port) := by
  unfold Otto.electPrimary
  split
  · split
    · exact (Finset.erase_subset _ _).trans h
    · exact h
  · exact h

theorem NonPrimaryIn.join (h : NonPrimaryIn s) (tx : Nat → Bool) (id : Nat)
    (info : LagUpperInfo) : NonPrimaryIn (lagPortJoin f tx s port id info).2 := by
  unfold lagPortJoin
  dsimp only
  split_ifs
  · exact h
  · exact h
  · exact h.same (lagAdd_sameUnion f s port tx _ info)
  all_goals
    obtain ⟨hn, hm⟩ := lagAdd_sameUnion f s port tx (id - 1) info
    simp only [NonPrimaryIn, hn, hm]
  · exact h.trans (Finset.subset_insert _ _)
  · exact Finset.insert_subset_insert _ h

theorem NonPrimaryIn.leave (h : NonPrimaryIn s) (tx : Nat → Bool) (id : Nat) :
    NonPrimaryIn (lagPortLeave f tx s port id).2 := by
  unfold lagPortLeave
  dsimp only
  obtain ⟨hn, hm⟩ := lagDel_sameUnion f s port tx (id - 1)
  split_ifs
  · exact h
  · exact h
  · exact h.same ⟨hn, hm⟩
  · refine NonPrimaryIn.electPrimary ?_ _
    simp only [NonPrimaryIn, hn, hm]
    exact Finset.erase_subset_erase _ h

theorem NonPrimaryIn.step (h : NonPrimaryIn s) (c : LagCall) : NonPrimaryIn (lagStep f s c).2 := by
  cases c with
  | join tx port id info => exact h.join tx id info
  | leave tx port id => exact h.leave tx id
  | change tx port =>
    obtain ⟨hw, hs⟩ := lagPortChange_state (f := f) (s := s) tx port
    have hsame : SameUnion s (lagStep f s (.change tx port)).2 := by
      rw [lagStep, hs]
      exact ⟨rfl, rfl⟩
    exact h.same hsame

theorem NonPrimaryIn.run (h : NonPrimaryIn s) (calls : List LagCall) :
    NonPrimaryIn (lagRun f s calls) := by
  induction calls generalizing s with
  | nil => exact h
  | cons c calls ih => exact ih (h.step c)

end Groups

/-! ## The entry that is written -/

section Entry

variable {f : Family} {ctrl : BitVec 32} {s : L2State} {port : BitVec 8} {addr : Mac}
  {vid : BitVec 16}

/-- The row of the RTL93xx that `rtldsa_setup_l2_uc_entry` makes is that of a port. -/
structure PortEntry (port : BitVec 8) (e : L2Entry) : Prop where
  valid : e.valid = true
  isTrunk : e.isTrunk = false
  port : e.port = port

/-- The entry of a group. -/
structure TrunkEntry (group : Nat) (e : L2Entry) : Prop where
  valid : e.valid = true
  isTrunk : e.isTrunk = true
  trunk : e.trunk.toNat = group

theorem unicast_portEntry {x : L2Entry} (hf : f.is93xx = true) (h : x.Fits f)
    (hu : x.type = .unicast) (hs : x.isStatic = true) (ht : x.isTrunk = false) (e₀ : L2Entry) :
    PortEntry x.port (fillEntry f (fillRow f x) e₀) := by
  have hb := h.unicastBack hu (fun hfree => Bool.noConfusion (hs.symm.trans hfree.2.1)) e₀
  have hno : ¬ x.OnTrunk f := fun ho => Bool.noConfusion (ht.symm.trans ho.2)
  have hback := mt hb.onTrunk.1 hno
  rw [L2Entry.OnTrunk, hf] at hback
  exact ⟨hb.valid, by simpa [reread] using hback, hb.port hno⟩

/-- A hash row has one bit more than a CAM row on the RTL931x. -/
theorem setup_not_trunk (ctrl : BitVec 32) (hf : f.is93xx = true) (hp : port.toNat < 2 ^ f.portBits)
    (hm : addr.isMulticast = false) (hv : vid.toNat < 4096) (idx : Nat) (e e₀ : L2Entry) :
    PortEntry port (fillEntry f (fillRow f (setHashMsb f ctrl idx
        (setupUcEntry e port vid (etherAddrToU64 addr)))) e₀) ∧
      PortEntry port (fillEntry f (fillRow f
        (setupUcEntry e port vid (etherAddrToU64 addr))) e₀) := by
  have hfits : (setupUcEntry e port vid (etherAddrToU64 addr)).Fits f := setupUcEntry_fits hp hm hv
  obtain ⟨hu, hst, htr, -, -, hpt⟩ := setHashMsb_same (f := f) ctrl idx
    (setupUcEntry e port vid (etherAddrToU64 addr))
  refine ⟨?_, unicast_portEntry hf hfits rfl rfl rfl e₀⟩
  have hmsb : (setHashMsb f ctrl idx (setupUcEntry e port vid (etherAddrToU64 addr))).Fits f :=
    setHashMsb_fits hfits
  have hhash := unicast_portEntry hf hmsb hu hst htr e₀
  rw [hpt] at hhash
  exact hhash

/-- The row that the two searches settle for. -/
def fdbRoom (f : Family) (ctrl : BitVec 32) (s : L2State) (addr : Mac) (vid : BitVec 16)
    (e : L2Entry) : Option (Nat ⊕ Nat) :=
  let seed := hashSeed f (etherAddrToU64 addr) vid
  match findHashEntry f ctrl s seed false e with
  | (some idx, _) => some (.inl idx)
  | (none, e) => (findCamEntry f s seed false e).1.map .inr

/-- The entry of the call after the group was put in. -/
def markedEntry (lag : LagPort) (e : L2Entry) : L2Entry :=
  match lag.group with
  | some group => prepareLagFdb group e
  | none => e

/-- Where there is room, the row is written for the port. -/
theorem fdbAdd_portEntry (hf : f.is93xx = true) (lag : LagPort)
    (hlag : lag.nonPrimary = true → lag.group.isSome = true) (hp : port.toNat < 2 ^ f.portBits)
    (hm : addr.isMulticast = false) (hv : vid.toNat < 4096) (e : L2Entry) {loc : Nat ⊕ Nat}
    (hroom : fdbRoom f ctrl s addr vid (markedEntry lag e) = some loc) (e₀ : L2Entry) :
    PortEntry port (fillEntry f ((fdbAdd f ctrl s lag port addr vid e).2.rowAt loc) e₀) := by
  have he : (if (f.is93xx && lag.group.isSome) = true then prepareLagFdb (lag.group.getD 0) e
      else e) = markedEntry lag e := by
    cases hg : lag.group with
    | none => simp [markedEntry, hg]
    | some group => simp [markedEntry, hg, hf]
  have hgo : (!(f.is93xx && lag.group.isSome) && lag.nonPrimary) = false := by
    cases hn : lag.nonPrimary with
    | false => simp
    | true => simp [hf, hlag hn]
  simp only [fdbAdd, he, hgo, Bool.false_eq_true, if_false]
  rw [fdbRoom] at hroom
  rcases hh : findHashEntry f ctrl s (hashSeed f (etherAddrToU64 addr) vid) false
      (markedEntry lag e) with ⟨_ | idx, e'⟩
  · simp only [hh, Option.map_eq_some_iff] at hroom
    obtain ⟨idx, hidx, rfl⟩ := hroom
    rcases hc : findCamEntry f s (hashSeed f (etherAddrToU64 addr) vid) false e' with ⟨_ | i, e''⟩
    · simp [hc] at hidx
    · obtain rfl : i = idx := by simpa [hc] using hidx
      simp only [hc, L2State.rowAt, writeCam, Function.update_self]
      exact (setup_not_trunk ctrl hf hp hm hv i e'' e₀).2
  · simp only [hh, Option.some.injEq] at hroom
    subst hroom
    simp only [L2State.rowAt, writeRow, Function.update_self]
    exact (setup_not_trunk ctrl hf hp hm hv idx e' e₀).1

end Entry

/-- What is asked of the row that a call writes: a trunk entry for a member of
a group, a port entry for a port outside every LAG. -/
def EntryOfLag (f : Family) (ctrl : BitVec 32) (s : L2State) (lag : LagState) (port : Nat)
    (addr : Mac) (vid : BitVec 16) (e : L2Entry) : Prop :=
  ∀ loc, fdbRoom f ctrl s addr vid (markedEntry (lag.portView port) e) = some loc → ∀ e₀,
    let read := fillEntry f
      ((fdbAdd f ctrl s (lag.portView port) (BitVec.ofNat 8 port) addr vid e).2.rowAt loc) e₀
    (∀ group, lag.Member group port → TrunkEntry group read) ∧
      (port ∉ lag.lagmembers → PortEntry (BitVec.ofNat 8 port) read)

/-- After any calls of the DSA core on the groups, the row is right exactly for
a port in no group, unless no row is written at all. -/
theorem fdbAdd_lag_iff (f : Family) (hf : f.is93xx = true) (ctrl : BitVec 32) (s : L2State)
    (hw : LagHw) (calls : List LagCall) (port : Nat) (hport : port < numPorts) (addr : Mac)
    (hm : addr.isMulticast = false) (vid : BitVec 16) (hv : vid.toNat < 4096) (e : L2Entry) :
    let lag := lagRun f (lagInit hw) calls
    EntryOfLag f ctrl s lag port addr vid e ↔
      (∀ group, ¬ lag.Member group port) ∨
        fdbRoom f ctrl s addr vid (markedEntry (lag.portView port) e) = none := by
  intro lag
  have hinit : NonPrimaryIn (lagInit hw) := by simp [NonPrimaryIn, lagInit]
  have hin : NonPrimaryIn lag := hinit.run calls
  have hp : (BitVec.ofNat 8 port).toNat < 2 ^ f.portBits := by
    have h57 : port < 57 := hport
    have h64 : f.portBits = 6 := by cases f <;> first | rfl | cases hf
    rw [h64, BitVec.toNat_ofNat, Nat.mod_eq_of_lt (by omega)]
    omega
  constructor
  · intro h
    rcases Option.eq_none_or_eq_some (fdbRoom f ctrl s addr vid
      (markedEntry (lag.portView port) e)) with hroom | ⟨loc, hroom⟩
    · exact .inr hroom
    · refine .inl fun group hmem => ?_
      -- the group is found, so the call goes on, and its row is that of the port
      have hsome : (lag.portView port).group.isSome = true :=
        lagFindGroupFromPort_isSome.2 ⟨group, hmem⟩
      have hrow := fdbAdd_portEntry hf (lag.portView port) (fun _ => hsome) hp hm hv e hroom .zero
      have htr := ((h loc hroom .zero).1 group hmem).isTrunk
      rw [hrow.isTrunk] at htr
      cases htr
  · rintro (hno | hroom) loc hloc e₀
    · refine ⟨fun group hmem => absurd hmem (hno group), fun hout => ?_⟩
      refine fdbAdd_portEntry hf (lag.portView port) (fun hn => ?_) hp hm hv e hloc e₀
      exact absurd (hin (by simpa [LagState.portView] using hn)) hout
    · rw [hroom] at hloc
      cases hloc

/-- One port in the first LAG. -/
def oneJoin : List LagCall := [.join (fun _ => true) 3 1 ⟨true, .l2⟩]

theorem fdbAdd_lag_iff_outside :
    EntryOfLag .rtl930x 0 emptyStore (lagRun .rtl930x (lagInit noLags) oneJoin) 4 host 1 .zero :=
  (fdbAdd_lag_iff .rtl930x rfl 0 emptyStore noLags oneJoin 4 (by decide) host (by decide) 1
    (by decide) .zero).2 (.inl fun group hmem => by
      have hunion := hmem.union
      revert hunion
      decide)

/-- Port 3 is in the first group, and its entry is that of the port. -/
theorem fdbAdd_member_not_trunk :
    ¬ EntryOfLag .rtl930x 0 emptyStore (lagRun .rtl930x (lagInit noLags) oneJoin) 3 host 1
      .zero := by
  intro h
  have hmem : (lagRun .rtl930x (lagInit noLags) oneJoin).Member 0 3 :=
    ⟨by decide, by decide, by decide⟩
  have hroom : fdbRoom .rtl930x 0 emptyStore host 1 (markedEntry
      ((lagRun .rtl930x (lagInit noLags) oneJoin).portView 3) .zero) = some (.inl 1092) := by
    decide +kernel
  have htr := ((h (.inl 1092) hroom .zero).1 0 hmem).isTrunk
  revert htr
  decide +kernel

end Lede.Otto
