/-
Lede.Rtl8366.VlanTheorems — the MC table as a cache of the 4K table.

Every call keeps the MC entries copies of 4K entries, one for a VID at most
(`Coherent`). The PVID of a port is a different matter: `rtl8366_smi_reset_vlan` clears
the MC entries and not the indexes of the ports, and the second loop of `rtl8366_set_pvid`
takes the first cleared entry without asking who names it, which the third loop does ask.
`run_lawful_iff` says that this is the only way in which a call moves the PVID of a port
that it was not given.
-/
import Lede.Rtl8366.Vlan

namespace Lede.Rtl8366

variable {smi : Smi}

/-! ## Searches -/

theorem firstMc_some {p : Fin smi.numVlanMc → Bool} {i : Fin smi.numVlanMc}
    (h : firstMc p = some i) : p i = true :=
  List.find?_some h

theorem firstMc_none {p : Fin smi.numVlanMc → Bool} (h : firstMc p = none)
    (i : Fin smi.numVlanMc) : p i = false := by
  simpa using List.find?_eq_none.mp h i (List.mem_finRange i)

theorem mcIsUsed_iff (s : Chip smi) (i : Fin smi.numVlanMc) :
    mcIsUsed s i = true ↔ ∃ port, s.mcIndex port = i := by
  simp only [mcIsUsed, List.any_eq_true, List.mem_finRange, true_and, beq_iff_eq]
  exact exists_congr (fun port => eq_comm)

/-! ## The tables -/

/-- The MC entry is a copy of the 4K entry of its VID. -/
def Mirrors (s : Chip smi) (e : VlanMc) : Prop :=
  let k := s.vlan4k e.vid.toNat
  e.member = k.member ∧ e.untag = k.untag ∧ e.fid = k.fid

/-- One MC entry at most has a given VID, and it is a copy of the 4K entry. -/
structure Coherent (s : Chip smi) : Prop where
  unique : ∀ i j, (s.vlanMc i).vid ≠ 0 → (s.vlanMc i).vid = (s.vlanMc j).vid → i = j
  mirrors : ∀ i, (s.vlanMc i).vid ≠ 0 → Mirrors s (s.vlanMc i)

/-- No MC entry is in use, as after a reset. The 4K table and the indexes are not looked at. -/
def Cleared (s : Chip smi) : Prop := ∀ i, (s.vlanMc i).vid = 0

theorem Cleared.coherent {s : Chip smi} (h : Cleared s) : Coherent s :=
  ⟨fun i _ hi _ => absurd (h i) hi, fun i hi => absurd (h i) hi⟩

/-- Only the two tables matter. -/
theorem Coherent.congr {s t : Chip smi} (h : Coherent s) (h4k : t.vlan4k = s.vlan4k)
    (hmc : t.vlanMc = s.vlanMc) : Coherent t := by
  constructor
  · rw [hmc]
    exact h.unique
  · intro i
    rw [Mirrors, hmc, h4k]
    exact h.mirrors i

theorem toUInt16_toNat {vid : Nat} (h : vid ≤ 4095) : vid.toUInt16.toNat = vid := by
  show vid % 65536 = vid
  exact Nat.mod_eq_of_lt (by omega)

theorem toUInt16_ne_zero {vid : Nat} (h1 : 1 ≤ vid) (h : vid ≤ 4095) : vid.toUInt16 ≠ 0 := by
  intro h0
  have hnat := congrArg UInt16.toNat h0
  rw [toUInt16_toNat h] at hnat
  simp at hnat
  omega

/-- Storing a copy of the 4K entry under a VID that no other entry has. -/
theorem Coherent.setVlanMc {s : Chip smi} (h : Coherent s) (i : Fin smi.numVlanMc) {e : VlanMc}
    (he : Mirrors s e) (hfree : ∀ j, j ≠ i → (s.vlanMc j).vid ≠ e.vid) :
    Coherent (s.setVlanMc i e) := by
  constructor
  · intro a b ha hab
    by_cases hai : a = i <;> by_cases hbi : b = i
    · rw [hai, hbi]
    · simp only [Chip.setVlanMc, hai, Function.update_self, Function.update_of_ne hbi] at hab
      exact absurd hab.symm (hfree b hbi)
    · simp only [Chip.setVlanMc, hbi, Function.update_self, Function.update_of_ne hai] at hab
      exact absurd hab (hfree a hai)
    · simp only [Chip.setVlanMc, Function.update_of_ne hai, Function.update_of_ne hbi] at ha hab
      exact h.unique a b ha hab
  · intro a ha
    by_cases hai : a = i
    · subst hai
      simpa [Chip.setVlanMc, Mirrors] using he
    · simp only [Chip.setVlanMc, Function.update_of_ne hai] at ha ⊢
      exact h.mirrors a ha

/-! ## One spec for each function -/

theorem coherent_resetVlan (s : Chip smi) : Coherent (resetVlan s) :=
  Cleared.coherent (fun _ => rfl)

theorem setVlan_eq (s : Chip smi) (vid : Nat) (member untag fid : UInt32) :
    setVlan s vid member untag fid =
      match firstMc (fun i => vid == (s.vlanMc i).vid.toNat) with
      | some i =>
        (s.setVlan4k vid ⟨untag.toUInt16, member.toUInt16, fid.toUInt8⟩).setVlanMc i
          { s.vlanMc i with member := member.toUInt16, untag := untag.toUInt16, fid := fid.toUInt8 }
      | none => s.setVlan4k vid ⟨untag.toUInt16, member.toUInt16, fid.toUInt8⟩ := rfl

/-- `rtl8366_set_vlan` changes the 4K entry, and the first MC entry with its VID. -/
theorem setVlan_cases (s : Chip smi) (vid : Nat) (member untag fid : UInt32) :
    let t := s.setVlan4k vid ⟨untag.toUInt16, member.toUInt16, fid.toUInt8⟩
    (∃ i e, e.vid.toNat = vid ∧ e.vid = (s.vlanMc i).vid ∧ Mirrors t e ∧
      setVlan s vid member untag fid = t.setVlanMc i e) ∨
    ((∀ i, (s.vlanMc i).vid.toNat ≠ vid) ∧ setVlan s vid member untag fid = t) := by
  intro t
  have hvlan := setVlan_eq s vid member untag fid
  cases hf : firstMc (fun i => vid == (s.vlanMc i).vid.toNat) with
  | some i =>
    have hi : vid = (s.vlanMc i).vid.toNat := by simpa using firstMc_some hf
    refine .inl ⟨i, ⟨(s.vlanMc i).vid, untag.toUInt16, member.toUInt16, fid.toUInt8,
      (s.vlanMc i).priority⟩, hi.symm, rfl, ?_, by rw [hvlan, hf]⟩
    simp [Mirrors, t, Chip.setVlan4k, ← hi]
  | none =>
    refine .inr ⟨fun i hi => ?_, by rw [hvlan, hf]⟩
    have := firstMc_none hf i
    simp [hi] at this

theorem Coherent.setVlan {s : Chip smi} (h : Coherent s) (vid : Nat) (member untag fid : UInt32) :
    Coherent (setVlan s vid member untag fid) := by
  obtain ⟨i, e, hvid, hsame, hmirrors, heq⟩ | ⟨hnone, heq⟩ := setVlan_cases s vid member untag fid
  · rw [heq]
    constructor
    · intro a b ha hab
      have hvids : ∀ c, (Function.update s.vlanMc i e c).vid = (s.vlanMc c).vid := by
        intro c
        by_cases hc : c = i
        · rw [hc, Function.update_self, hsame]
        · rw [Function.update_of_ne hc]
      apply h.unique a b
      · rw [← hvids a]
        exact ha
      · rw [← hvids a, ← hvids b]
        exact hab
    · intro a ha
      by_cases hai : a = i
      · subst hai
        simpa [Chip.setVlanMc, Mirrors] using hmirrors
      · -- the VID is in one entry only, so that this one is the copy of another 4K entry
        simp only [Chip.setVlanMc, Chip.setVlan4k, Function.update_of_ne hai] at ha ⊢
        have hne : (s.vlanMc a).vid.toNat ≠ vid := by
          intro hva
          apply hai (h.unique a i ha _)
          rw [← hsame]
          exact UInt16.toNat_inj.mp (hva.trans hvid.symm)
        simpa [Mirrors, Function.update_of_ne hne] using h.mirrors a ha
  · rw [heq]
    refine ⟨h.unique, fun i hi => ?_⟩
    simpa [Mirrors, Chip.setVlan4k, Function.update_of_ne (hnone i)] using h.mirrors i hi

theorem Coherent.takeMc {s : Chip smi} (h : Coherent s) {vid : Nat} (hvid : vid ≤ 4095)
    (hnone : firstMc (fun i => vid == (s.vlanMc i).vid.toNat) = none) (port : Fin smi.numPorts)
    (i : Fin smi.numVlanMc) (priority : UInt8) : Coherent (takeMc s port vid i priority) := by
  have hset : Coherent (s.setVlanMc i ⟨vid.toUInt16, (s.vlan4k vid).untag, (s.vlan4k vid).member,
      (s.vlan4k vid).fid, priority⟩) := by
    apply h.setVlanMc
    · simp [Mirrors, toUInt16_toNat hvid]
    · intro j _ heq
      have hj := firstMc_none hnone j
      rw [heq, toUInt16_toNat hvid] at hj
      simp at hj
  exact hset.congr rfl rfl

theorem Coherent.setPvid {s : Chip smi} (h : Coherent s) {vid : Nat} (hvid : vid ≤ 4095)
    (port : Fin smi.numPorts) : Coherent (setPvid s port vid).2 := by
  unfold Rtl8366.setPvid
  split
  · exact h.congr rfl (by simp [Chip.setMcIndex, Chip.setVlanMc])
  · rename_i hnone
    split
    · exact h.takeMc hvid hnone _ _ _
    · split
      · exact h.takeMc hvid hnone _ _ _
      · exact h

theorem Coherent.initPorts {s : Chip smi} (h : Coherent s) (ports : List (Fin smi.numPorts)) :
    Coherent (initPorts s ports).2 := by
  induction ports generalizing s with
  | nil => exact h
  | cons port ports ih =>
    have hport := port.isLt
    have hle := smi.numPorts_le
    have hnext := (h.setVlan (port + 1) (initMask smi port) (initMask smi port) 0).setPvid
      (show (port : Nat) + 1 ≤ 4095 by omega) port
    unfold Rtl8366.initPorts
    dsimp only
    split
    · exact hnext
    · exact ih hnext

theorem Coherent.step {s : Chip smi} (h : Coherent s) (c : Call smi) : Coherent (step s c).2 := by
  cases c with
  | initVlan =>
    have hp := (coherent_resetVlan s).initPorts (List.finRange smi.numPorts)
    unfold Rtl8366.step initVlan
    dsimp only
    split
    · exact hp
    · exact hp.congr rfl rfl
  | resetVlan => exact coherent_resetVlan s
  | setVlan vid member untag fid => exact h.setVlan vid member untag fid
  | setPvid port vid => exact h.setPvid vid.2.2 port

theorem Coherent.run {s : Chip smi} (h : Coherent s) (calls : List (Call smi)) :
    Coherent (run s calls) := by
  induction calls generalizing s with
  | nil => exact h
  | cons c calls ih => exact ih (h.step c)

/-! ## The PVID of a port -/

/-- `rtl8366_set_pvid` needs an entry, and the first cleared one is that of another port. -/
def TakesOver (s : Chip smi) (port : Fin smi.numPorts) (vid : Nat) : Prop :=
  (∀ i, (s.vlanMc i).vid.toNat ≠ vid) ∧
    ∃ i, firstMc (mcIsEmpty s) = some i ∧ ∃ q, q ≠ port ∧ s.mcIndex q = i

theorem getPvid_setMcIndex_self (s : Chip smi) (port : Fin smi.numPorts) (i : Fin smi.numVlanMc) :
    getPvid (s.setMcIndex port i) port = (s.vlanMc i).vid := by
  simp [getPvid, Chip.setMcIndex]

theorem getPvid_setMcIndex_of_ne (s : Chip smi) {port q : Fin smi.numPorts} (hq : q ≠ port)
    (i : Fin smi.numVlanMc) : getPvid (s.setMcIndex port i) q = getPvid s q := by
  simp [getPvid, Chip.setMcIndex, Function.update_of_ne hq]

theorem getPvid_takeMc_self (s : Chip smi) (port : Fin smi.numPorts) (vid : Nat)
    (i : Fin smi.numVlanMc) (priority : UInt8) :
    getPvid (takeMc s port vid i priority) port = vid.toUInt16 := by
  simp [takeMc, getPvid_setMcIndex_self, Chip.setVlanMc]

theorem getPvid_takeMc_of_ne (s : Chip smi) {port q : Fin smi.numPorts} (hq : q ≠ port) (vid : Nat)
    {i : Fin smi.numVlanMc} (hi : s.mcIndex q ≠ i) (priority : UInt8) :
    getPvid (takeMc s port vid i priority) q = getPvid s q := by
  simp only [takeMc, getPvid_setMcIndex_of_ne _ hq]
  simp [getPvid, Chip.setVlanMc, Function.update_of_ne hi]

/-- The index that is taken over is that of a port with a different PVID from then on. -/
theorem getPvid_takeMc_taken (s : Chip smi) {port q : Fin smi.numPorts} (hq : q ≠ port) (vid : Nat)
    {i : Fin smi.numVlanMc} (hi : s.mcIndex q = i) (priority : UInt8) :
    getPvid (takeMc s port vid i priority) q = vid.toUInt16 := by
  simp only [takeMc, getPvid_setMcIndex_of_ne _ hq]
  simp [getPvid, Chip.setVlanMc, hi]

theorem setPvid_own (s : Chip smi) (port : Fin smi.numPorts) (vid : Vid)
    (h : (setPvid s port vid).1 = 0) : (getPvid (setPvid s port vid).2 port).toNat = vid := by
  unfold Rtl8366.setPvid at h ⊢
  split
  · rename_i i hi
    have hvid : (vid : Nat) = (s.vlanMc i).vid.toNat := by simpa using firstMc_some hi
    simp [getPvid_setMcIndex_self, Chip.setVlanMc, hvid]
  · rename_i hnone
    rw [hnone] at h
    split
    · rw [getPvid_takeMc_self, toUInt16_toNat vid.2.2]
    · rename_i hfull
      split
      · rw [getPvid_takeMc_self, toUInt16_toNat vid.2.2]
      · rename_i hused
        simp [hfull, hused, ENOSPC] at h

theorem setPvid_others_iff (s : Chip smi) (port : Fin smi.numPorts) (vid : Vid) :
    (∀ q, q ≠ port → getPvid (setPvid s port vid).2 q = getPvid s q) ↔ ¬ TakesOver s port vid := by
  unfold Rtl8366.setPvid
  split
  · rename_i i hi
    have hvid : (s.vlanMc i).vid.toNat = vid := by
      have : (vid : Nat) = (s.vlanMc i).vid.toNat := by simpa using firstMc_some hi
      exact this.symm
    refine iff_of_true (fun q hq => ?_) (fun ht => ht.1 i hvid)
    simp [getPvid, Chip.setMcIndex, Chip.setVlanMc, Function.update_of_ne hq]
  · rename_i hnone
    have hfree : ∀ i, (s.vlanMc i).vid.toNat ≠ vid := by
      intro i hi
      have := firstMc_none hnone i
      simp [hi] at this
    split
    · rename_i i hi
      have hempty := firstMc_some hi
      simp only [mcIsEmpty, Bool.and_eq_true, beq_iff_eq] at hempty
      constructor
      · rintro hsame ⟨-, j, hj, q, hq, hqj⟩
        rw [hi] at hj
        cases hj
        have hpvid := hsame q hq
        rw [getPvid_takeMc_taken s hq vid hqj, getPvid, hqj, hempty.1] at hpvid
        exact toUInt16_ne_zero vid.2.1 vid.2.2 hpvid
      · intro hnot q hq
        apply getPvid_takeMc_of_ne s hq vid
        intro hqi
        exact hnot ⟨hfree, i, hi, q, hq, hqi⟩
    · rename_i hfull
      have hnot : ¬ TakesOver s port vid := by
        rintro ⟨-, i, hi, -⟩
        rw [hfull] at hi
        cases hi
      refine iff_of_true (fun q hq => ?_) hnot
      split
      · rename_i i hi
        -- the third loop asks whether a port names the entry
        apply getPvid_takeMc_of_ne s hq vid
        intro hqi
        have hused := (mcIsUsed_iff s i).mpr ⟨q, hqi⟩
        have := firstMc_some hi
        simp [hused] at this
      · rfl

theorem setPvid_noSpace (s : Chip smi) (port : Fin smi.numPorts) (vid : Nat)
    (h : (setPvid s port vid).1 = -ENOSPC) (i : Fin smi.numVlanMc) :
    ∃ q, (setPvid s port vid).2.mcIndex q = i := by
  unfold Rtl8366.setPvid at h ⊢
  split at h
  · simp [ENOSPC] at h
  · rename_i hnone
    split at h
    · simp [ENOSPC] at h
    · rename_i hfull
      split at h
      · simp [ENOSPC] at h
      · rename_i hused
        have := firstMc_none hused i
        rw [← mcIsUsed_iff]
        simpa using this

theorem initPorts_noSpace (s : Chip smi) (ports : List (Fin smi.numPorts))
    (h : (initPorts s ports).1 = -ENOSPC) (i : Fin smi.numVlanMc) :
    ∃ q, (initPorts s ports).2.mcIndex q = i := by
  induction ports generalizing s with
  | nil => simp [initPorts, ENOSPC] at h
  | cons port ports ih =>
    unfold Rtl8366.initPorts at h ⊢
    dsimp only at h ⊢
    split at h
    · rename_i hne
      rw [if_pos hne]
      exact setPvid_noSpace _ _ _ h i
    · rename_i heq
      rw [if_neg heq]
      exact ih _ h

theorem step_noSpace (s : Chip smi) (c : Call smi) (h : (step s c).1 = -ENOSPC)
    (i : Fin smi.numVlanMc) : ∃ q, (step s c).2.mcIndex q = i := by
  cases c with
  | initVlan =>
    unfold Rtl8366.step initVlan at h ⊢
    dsimp only at h ⊢
    split at h
    · rename_i hne
      rw [if_pos hne]
      exact initPorts_noSpace _ _ h i
    · simp [ENOSPC] at h
  | resetVlan => simp [step, ENOSPC] at h
  | setVlan vid member untag fid => simp [step, ENOSPC] at h
  | setPvid port vid => exact setPvid_noSpace s port vid h i

/-! ## Runs -/

/-- The chip as a reset leaves it: no MC entry is filled. -/
def powerUp (vlan4k : Nat → Vlan4k) (mcIndex : Fin smi.numPorts → Fin smi.numVlanMc) : Chip smi :=
  ⟨vlan4k, fun _ => ⟨0, 0, 0, 0, 0⟩, mcIndex, false, false⟩

/-- What one call owes to the MC table and to the PVIDs. -/
structure LawfulCall (s : Chip smi) (c : Call smi) : Prop where
  coherent : Coherent (step s c).2
  own : ∀ port vid, c = .setPvid port vid → (step s c).1 = 0 →
    (getPvid (step s c).2 port).toNat = vid
  others : ∀ port vid, c = .setPvid port vid → (step s c).1 = 0 →
    ∀ q, q ≠ port → getPvid (step s c).2 q = getPvid s q
  noSpace : (step s c).1 = -ENOSPC → ∀ i, ∃ q, (step s c).2.mcIndex q = i

theorem setPvid_error {s : Chip smi} {port : Fin smi.numPorts} {vid : Nat}
    (h : (setPvid s port vid).1 ≠ 0) : ¬ TakesOver s port vid := by
  rintro ⟨hfree, i, hi, -⟩
  apply h
  have hnone : firstMc (fun i => vid == (s.vlanMc i).vid.toNat) = none := by
    rw [firstMc, List.find?_eq_none]
    intro j _
    rw [beq_iff_eq]
    exact fun heq => hfree j heq.symm
  simp [Rtl8366.setPvid, hnone, hi]

theorem Coherent.lawfulCall_iff {s : Chip smi} (h : Coherent s) (c : Call smi) :
    LawfulCall s c ↔ ∀ port vid, c = .setPvid port vid → ¬ TakesOver s port vid := by
  constructor
  · rintro hlaw port vid rfl
    by_cases hok : (Rtl8366.setPvid s port vid).1 = 0
    · exact (setPvid_others_iff s port vid).mp (hlaw.others port vid rfl hok)
    · exact setPvid_error hok
  · intro hnot
    refine ⟨h.step c, ?_, ?_, step_noSpace s c⟩
    · rintro port vid rfl hok
      exact setPvid_own s port vid hok
    · rintro port vid rfl -
      exact (setPvid_others_iff s port vid).mpr (hnot port vid rfl)

/-- **Every call of a run is lawful exactly if no `rtl8366_set_pvid` of it takes the cleared
entry of another port.** -/
theorem run_lawful_iff (vlan4k : Nat → Vlan4k) (mcIndex : Fin smi.numPorts → Fin smi.numVlanMc)
    (calls : List (Call smi)) :
    (∀ pre c post, calls = pre ++ c :: post → LawfulCall (run (powerUp vlan4k mcIndex) pre) c) ↔
      ∀ pre port (vid : Vid) post, calls = pre ++ .setPvid port vid :: post →
        ¬ TakesOver (run (powerUp vlan4k mcIndex) pre) port vid := by
  have hstart : Coherent (powerUp vlan4k mcIndex) := Cleared.coherent (fun _ => rfl)
  constructor
  · intro hlaw pre port vid post heq
    exact ((hstart.run pre).lawfulCall_iff _).mp (hlaw pre _ post heq) port vid rfl
  · intro hnot pre c post heq
    rw [(hstart.run pre).lawfulCall_iff]
    rintro port vid rfl
    exact hnot pre port vid post heq

/-- An RTL8366S: six ports, the last of which is that of the CPU, and sixteen MC entries. -/
def rtl8366s : Smi := ⟨6, 16, 5, by decide⟩

/-- A chip of which every port names the first MC entry. -/
def freshRtl8366s : Chip rtl8366s := powerUp (fun _ => ⟨0, 0, 0⟩) (fun _ => ⟨0, by decide⟩)

/-- After `rtl8366_init_vlan` and `rtl8366_smi_reset_vlan`, the PVID that port 3 gets is also
that of port 0. -/
theorem freshRtl8366s_setPvid :
    let s := run freshRtl8366s [.initVlan, .resetVlan]
    let c := Call.setPvid ⟨3, by decide⟩ ⟨5, by decide⟩
    ((step s c).1 = 0 ∧ getPvid s ⟨0, by decide⟩ = 0 ∧ getPvid (step s c).2 ⟨0, by decide⟩ = 5) ∧
      ¬ LawfulCall s c := by
  intro s c
  have hvalues : (step s c).1 = 0 ∧ getPvid s ⟨0, by decide⟩ = 0 ∧
      getPvid (step s c).2 ⟨0, by decide⟩ = 5 := by decide
  refine ⟨hvalues, fun hlaw => ?_⟩
  have hsame := hlaw.others _ _ rfl hvalues.1 ⟨0, by decide⟩ (by decide)
  rw [hvalues.2.1, hvalues.2.2] at hsame
  exact absurd hsame (by decide)

end Lede.Rtl8366
