/-
Lede.Otto.MstStateTheorems — the port states of MST slots.

The states are written for a slot, and a slot belongs to one MSTI after the other. `lastStates`
follows the MSTIs instead: the state that was last set for a port and an MSTI since the MSTI has
its slot. A slot that was free is set up by `otto_stp_slot_init`, so the two agree
(`StatesKept.setUp`). A slot that a VLAN takes along by `otto_stp_slot_recycle` is not: it keeps
the states of the MSTI before. `mst_states_kept_iff` says that the states agree in a run exactly
if every slot that is taken along has no other state than disabled.
-/
import Lede.Otto.MstTheorems

namespace Lede.Otto

open Lede.Lib.BitField Lede.Lib.Runs

/-! ## Rows of states -/

section

variable {f : Family}

theorem toNat_hwState_lt (state : BrState) : state.hwState.toNat < 2 ^ 2 := by
  cases state <;> decide

theorem low_two : (0x3 : BitVec 32) = low 2 := rfl

theorem stpGet_stpSet (buf : Nat → BitVec 32) (port : Nat) (state : BrState) :
    stpGet f (stpSet f buf port state.hwState) port = state.hwState := by
  simp only [stpGet, stpSet, Function.update_self, low_two]
  refine readField_writeField _ (toNat_hwState_lt state) ?_
  simp only [stpBit]
  omega

/-- Two ports have different fields. -/
theorem stpField_ne {p q : Nat} (hp : p < f.cpuPort) (hq : q < f.cpuPort) (hne : p ≠ q)
    (hidx : stpIdx f p = stpIdx f q) :
    stpBit f q + 2 ≤ stpBit f p ∨ stpBit f p + 2 ≤ stpBit f q := by
  cases f <;> simp only [stpIdx, stpBit, Family.stpRow, Family.cpuPort] at * <;> omega

theorem stpGet_stpSet_of_ne (buf : Nat → BitVec 32) {p q : Nat} (hp : p < f.cpuPort)
    (hq : q < f.cpuPort) (hne : p ≠ q) (state : BrState) :
    stpGet f (stpSet f buf q state.hwState) p = stpGet f buf p := by
  by_cases hidx : stpIdx f p = stpIdx f q
  · simp only [stpGet, stpSet, hidx, Function.update_self, low_two]
    exact readField_writeField_of_disjoint _ (toNat_hwState_lt state)
      (stpField_ne hp hq hne hidx)
  · simp only [stpGet, stpSet, Function.update_of_ne hidx]

/-- The state of a port in a slot, as the switch has it. -/
def MstState.portSlotState (f : Family) (st : MstState) (slot port : Nat) : BitVec 32 :=
  stpGet f (st.mstTable slot) port

theorem portSlotState_set (st : MstState) {p : Nat} (hp : p < f.cpuPort) (port : Nat)
    (state : BrState) (slot s : Nat) :
    (portSlotStateSet f st port state slot).portSlotState f s p =
      if p = port ∧ s = slot then state.hwState else st.portSlotState f s p := by
  unfold portSlotStateSet MstState.portSlotState
  by_cases hport : f.cpuPort ≤ port
  · rw [if_pos hport, if_neg (by omega)]
  rw [if_neg hport]
  by_cases hs : s = slot
  · subst hs
    by_cases hpp : p = port
    · subst hpp
      simp [stpGet_stpSet]
    · simp [hpp, stpGet_stpSet_of_ne _ hp (by omega : port < f.cpuPort) hpp]
  · simp [hs]

@[simp] theorem stpState_set (st : MstState) (port : Nat) (state : BrState) (slot : Nat) :
    (portSlotStateSet f st port state slot).stpState = st.stpState := by
  unfold portSlotStateSet
  split_ifs <;> rfl

/-- `otto_stp_slot_init` disables the bridged ports in the slot and nothing else. -/
theorem portSlotState_slotInit (sw : MstSwitch f) (st : MstState) {p : Nat}
    (hp : p ∈ sw.userPorts) (hbridged : sw.bridged p = true) (slot s : Nat) :
    (slotInit sw st slot).portSlotState f s p =
      if s = slot then 0 else st.portSlotState f s p := by
  have hlt := sw.user_lt p hp
  have hfold : ∀ (ports : List Nat) (st : MstState),
      (ports.foldl (fun st port => portSlotStateSet f st port
        (if sw.bridged port then .disabled else st.stpState port) slot) st).portSlotState f s p =
      if p ∈ ports ∧ s = slot then 0 else st.portSlotState f s p := by
    intro ports
    induction ports with
    | nil => intro st; simp
    | cons q ports ih =>
      intro st
      rw [List.foldl_cons, ih, portSlotState_set st hlt]
      by_cases hq : p = q
      · subst hq
        by_cases hs : s = slot <;> simp [hs, hbridged, BrState.hwState]
      · simp [hq]
  rw [slotInit, hfold]
  simp [hp]

theorem portSlotState_nonCist (st : MstState) {p : Nat} (hp : p < f.cpuPort) {port : Nat}
    (hne : p ≠ port) (state : BrState) (s : Nat) :
    (portNonCistStatesSet f st port state).portSlotState f s p = st.portSlotState f s p := by
  unfold portNonCistStatesSet
  generalize List.range (f.nMst - 1) = slots
  induction slots generalizing st with
  | nil => rfl
  | cons i slots ih =>
    rw [List.foldl_cons, ih, portSlotState_set st hp, if_neg (fun h => hne h.1)]

/-- The state of a port outside the MSTIs leaves the slots of a bridged port alone. -/
theorem portSlotState_portState (sw : MstSwitch f) (st : MstState) {p : Nat}
    (hp : p ∈ sw.userPorts) (hbridged : sw.bridged p = true) (port : Nat) (state : BrState)
    {s : Nat} (hs : 1 ≤ s) :
    (portStateSet sw st port state).portSlotState f s p = st.portSlotState f s p := by
  have hlt := sw.user_lt p hp
  have hcist : (portSlotStateSet f st port state 0).portSlotState f s p =
      st.portSlotState f s p := by
    rw [portSlotState_set st hlt, if_neg (by omega)]
  unfold portStateSet
  by_cases hport : sw.bridged port = true
  · simp only [hport, if_true]
    exact hcist
  · have hne : p ≠ port := by
      rintro rfl
      exact hport hbridged
    simp only [hport]
    exact (portSlotState_nonCist _ hlt hne state s).trans hcist

/-! ## Slots of MSTIs -/

/-- No two slots have one MSTI. -/
def DistinctMstis (f : Family) (st : MstState) : Prop :=
  ∀ i j, i + 1 < f.nMst → j + 1 < f.nMst → (st.msts i).msti ≠ 0 →
    (st.msts i).msti = (st.msts j).msti → i = j

theorem firstSlot_of_distinct {st : MstState} (h : DistinctMstis f st) {i : Nat}
    (hi : i + 1 < f.nMst) (hne : (st.msts i).msti ≠ 0) :
    firstSlot f st (st.msts i).msti = some i := by
  cases hfirst : firstSlot f st (st.msts i).msti with
  | none => exact absurd rfl (firstSlot_eq_none hfirst i hi)
  | some j =>
    obtain ⟨hj, hsame⟩ := firstSlot_eq_some hfirst
    rw [h i j hi hj hne hsame.symm]

theorem firstSlot_eq_none_iff {st : MstState} {msti : BitVec 16} :
    firstSlot f st msti = none ↔ ∀ i, i + 1 < f.nMst → (st.msts i).msti ≠ msti := by
  constructor
  · exact firstSlot_eq_none
  · intro h
    cases hfirst : firstSlot f st msti with
    | none => rfl
    | some j =>
      obtain ⟨hj, hsame⟩ := firstSlot_eq_some hfirst
      exact absurd hsame (h j hj)

theorem firstSlot_congr {st st' : MstState} (h : st'.msts = st.msts) (msti : BitVec 16) :
    firstSlot f st' msti = firstSlot f st msti := by
  simp only [firstSlot, h]

/-- No slot has got an MSTI that it did not have. -/
def Loses (f : Family) (st st' : MstState) : Prop :=
  ∀ i, i + 1 < f.nMst → (st'.msts i).msti = (st.msts i).msti ∨ (st'.msts i).msti = 0

theorem Loses.slotPut {st st' : MstState} (h : Loses f st st') (old : Nat) :
    Loses f st (slotPut f st' old) := by
  unfold Otto.slotPut
  dsimp only
  split_ifs
  · exact h
  · exact h
  · intro i hi
    by_cases heq : i = old - 1
    · subst heq
      simp only [Function.update_self, MstSlot.put]
      split_ifs
      · exact .inr rfl
      · exact h _ hi
    · simpa [heq] using h i hi

theorem mstTable_slotPut (st : MstState) (old : Nat) :
    (slotPut f st old).mstTable = st.mstTable := by
  unfold slotPut
  dsimp only
  split_ifs <;> rfl

/-- The slot that a VLAN takes along to an MSTI: there is no other, and no other VLAN has it. -/
structure Recycles (f : Family) (st : MstState) (vid : Nat) (msti : BitVec 16) : Prop where
  msti_ne : msti ≠ 0
  msti_le : msti.toNat ≤ 4095
  unknown : firstSlot f st msti = none
  full : firstSlot f st 0 = none
  fid_ne : st.fid f vid ≠ 0
  single : (st.msts (st.fid f vid - 1)).refcount = 1

/-- What `otto_stp_slot_replace` can do to the slots. -/
theorem slotReplace_cases (sw : MstSwitch f) (st : MstState) (vid : Nat) (msti : BitVec 16) :
    -- no slot is taken
    ((slotReplace sw st msti (st.fid f vid)).2.mstTable = st.mstTable ∧
      Loses f st (slotReplace sw st msti (st.fid f vid)).2 ∧ ¬ Recycles f st vid msti) ∨
    -- a free slot is set up
    (∃ i, i + 1 < f.nMst ∧ (∀ j, j + 1 < f.nMst → (st.msts j).msti ≠ msti) ∧
      let got := { st with msts := Function.update st.msts i { msti := msti, refcount := 1 } }
      (slotReplace sw st msti (st.fid f vid)).2.mstTable = (slotInit sw got (i + 1)).mstTable ∧
      Loses f got (slotReplace sw st msti (st.fid f vid)).2 ∧ ¬ Recycles f st vid msti) ∨
    -- the slot of the VLAN is taken along
    (Recycles f st vid msti ∧
      (slotReplace sw st msti (st.fid f vid)).2.mstTable = st.mstTable ∧
      (slotReplace sw st msti (st.fid f vid)).2.msts = Function.update st.msts
        (st.fid f vid - 1) { st.msts (st.fid f vid - 1) with msti := msti }) := by
  have hstay : Loses f st st := fun i _ => .inl rfl
  have hfidlt := fid_lt f st vid
  unfold slotReplace
  obtain ⟨rfl, hget⟩ | ⟨i, hi, h0, hmsti, hget⟩ | ⟨i, hi, h0, hnew, hfree, hget⟩ |
    ⟨h0, h4095, hnew, hfull, hget⟩ | ⟨h4095, hget⟩ := slotGet_cases sw st msti
  · rw [hget]
    exact .inl ⟨mstTable_slotPut st _, hstay.slotPut _, fun h => h.msti_ne rfl⟩
  · rw [hget]
    refine .inl ⟨mstTable_slotPut _ _, Loses.slotPut ?_ _, fun h => ?_⟩
    · intro j hj
      refine .inl ?_
      by_cases heq : j = i
      · subst heq
        simp
      · simp [heq]
    · exact firstSlot_eq_none h.unknown i hi hmsti
  · rw [hget]
    refine .inr (.inl ⟨i, hi, hnew, mstTable_slotPut _ _, Loses.slotPut ?_ _, fun h => ?_⟩)
    · obtain ⟨table, htable⟩ := slotInit_eq sw
        { st with msts := Function.update st.msts i { msti := msti, refcount := 1 } } (i + 1)
      rw [htable]
      exact fun j _ => .inl rfl
    · exact firstSlot_eq_none h.full i hi hfree
  · rw [hget]
    simp only [if_true]
    unfold slotRecycle
    rw [if_neg h0]
    by_cases hold : st.fid f vid = 0
    · rw [if_pos hold]
      exact .inl ⟨rfl, hstay, fun h => h.fid_ne hold⟩
    rw [if_neg hold, if_neg (by omega), if_neg (by omega)]
    dsimp only
    rw [if_neg (hfull _ (by omega))]
    by_cases hone : (st.msts (st.fid f vid - 1)).refcount = 1
    · rw [if_neg (by simpa using hone)]
      exact .inr (.inr ⟨⟨h0, h4095, firstSlot_eq_none_iff.2 hnew, firstSlot_eq_none_iff.2 hfull,
        hold, hone⟩, rfl, rfl⟩)
    · rw [if_pos hone]
      exact .inl ⟨rfl, hstay, fun h => hone h.single⟩
  · rw [hget]
    exact .inl ⟨rfl, hstay, fun h => absurd h.msti_le (by omega)⟩

/-- `otto_vlan_msti_set` writes the VLAN besides. -/
theorem vlanMstiSet_frame (sw : MstSwitch f) (st : MstState) (vid : Fin maxVlans)
    (msti : BitVec 16) :
    (vlanMstiSet sw st vid msti).2.msts = (slotReplace sw st msti (st.fid f vid)).2.msts ∧
      (vlanMstiSet sw st vid msti).2.mstTable =
        (slotReplace sw st msti (st.fid f vid)).2.mstTable := by
  unfold vlanMstiSet MstState.fid
  dsimp only
  generalize slotReplace sw st msti (tablesRead f (st.vlan vid)).fid.toNat = res
  obtain ⟨_ | slot, st'⟩ := res <;> exact ⟨rfl, rfl⟩

/-- `otto_vlan_port_add` and `otto_vlan_port_del` write no state and take no slot. -/
theorem vlanPortAdd_frame (sw : MstSwitch f) (st : MstState) (port : Fin (f.cpuPort + 1))
    (vid : Nat) (proto : VlanProto) (pvid untagged : Bool) :
    (vlanPortAdd sw st port vid proto pvid untagged).2.mstTable = st.mstTable ∧
      (vlanPortAdd sw st port vid proto pvid untagged).2.msts = st.msts := by
  have hclaim : ∀ st1, (if port.val ∈ sw.userPorts then claimProto f st vid proto else .ok st) =
      .ok st1 → st1.mstTable = st.mstTable ∧ st1.msts = st.msts := by
    intro st1 h
    unfold claimProto at h
    dsimp only at h
    split_ifs at h <;> cases h <;> exact ⟨rfl, rfl⟩
  unfold vlanPortAdd
  by_cases h0 : vid = 0
  · rw [if_pos h0]
    exact ⟨rfl, rfl⟩
  rw [if_neg h0]
  by_cases hvid : maxVlans ≤ vid
  · rw [if_pos hvid]
    exact ⟨rfl, rfl⟩
  rw [if_neg hvid]
  by_cases hjoin : joinRefused f proto = true
  · rw [if_pos hjoin]
    exact ⟨rfl, rfl⟩
  rw [if_neg hjoin]
  cases hc : (if port.val ∈ sw.userPorts then claimProto f st vid proto else .ok st) with
  | error e => exact ⟨rfl, rfl⟩
  | ok st1 =>
    dsimp only
    split_ifs <;> exact hclaim st1 hc

theorem vlanPortDel_frame (st : MstState) (port : Fin (f.cpuPort + 1)) (vid : Nat) :
    (vlanPortDel st port vid).2.mstTable = st.mstTable ∧
      Loses f st (vlanPortDel st port vid).2 := by
  unfold vlanPortDel
  by_cases h0 : vid = 0
  · rw [if_pos h0]
    exact ⟨rfl, fun _ _ => .inl rfl⟩
  rw [if_neg h0]
  by_cases hvid : maxVlans ≤ vid
  · rw [if_pos hvid]
    exact ⟨rfl, fun _ _ => .inl rfl⟩
  rw [if_neg hvid]
  extract_lets st1 info0 info1 st2 st3 info2 row
  have hst2 : st2.mstTable = st.mstTable ∧ Loses f st st2 := by
    unfold st2 st1
    split_ifs <;> exact ⟨rfl, fun _ _ => .inl rfl⟩
  show st3.mstTable = st.mstTable ∧ Loses f st st3
  unfold st3
  split_ifs
  · exact ⟨(mstTable_slotPut st2 _).trans hst2.1, hst2.2.slotPut _⟩
  · exact hst2

theorem DistinctMstis.loses {st st' : MstState} (h : DistinctMstis f st) (hl : Loses f st st') :
    DistinctMstis f st' := by
  intro i j hi hj hne hsame
  have hi' := (hl i hi).resolve_right hne
  have hj' := (hl j hj).resolve_right (hsame ▸ hne)
  exact h i j hi hj (hi' ▸ hne) (by rw [← hi', ← hj', hsame])

/-- An MSTI that has no slot may be given one. -/
theorem DistinctMstis.give {st st' : MstState} (h : DistinctMstis f st) {i : Nat}
    {slot : MstSlot} (hnew : ∀ j, j + 1 < f.nMst → (st.msts j).msti ≠ slot.msti)
    (hmsts : st'.msts = Function.update st.msts i slot) : DistinctMstis f st' := by
  intro j k hj hk hne hsame
  rw [hmsts] at hne hsame
  by_cases hji : j = i
  · by_cases hki : k = i
    · rw [hji, hki]
    · subst hji
      simp only [Function.update_self, Function.update_of_ne hki] at hsame
      exact absurd hsame.symm (hnew k hk)
  · by_cases hki : k = i
    · subst hki
      simp only [Function.update_self, Function.update_of_ne hji] at hsame
      exact absurd hsame (hnew j hj)
    · simp only [Function.update_of_ne hji, Function.update_of_ne hki] at hne hsame
      exact h j k hj hk hne hsame

/-- No call gives two slots to one MSTI. -/
theorem DistinctMstis.step {st : MstState} (h : DistinctMstis f st) (sw : MstSwitch f)
    (call : MstCall f) : DistinctMstis f (mstStep sw st call).2 := by
  have hsame : ∀ st' : MstState, st'.msts = st.msts → DistinctMstis f st' := by
    intro st' hmsts
    exact h.loses fun i _ => .inl (by rw [hmsts])
  cases call with
  | portAdd port vid proto pvid untagged =>
    exact hsame _ (vlanPortAdd_frame sw st port vid proto pvid untagged).2
  | portDel port vid => exact h.loses (vlanPortDel_frame st port vid).2
  | mstiSet vid msti =>
    obtain ⟨hmsts, -⟩ := vlanMstiSet_frame sw st vid msti
    have hres : DistinctMstis f (slotReplace sw st msti (st.fid f vid)).2 := by
      obtain ⟨-, hl, -⟩ | ⟨i, hi, hnew, -, hl, -⟩ | ⟨hr, -, hgot⟩ :=
        slotReplace_cases sw st vid msti
      · exact h.loses hl
      · exact (h.give hnew rfl).loses hl
      · exact h.give (firstSlot_eq_none hr.unknown) hgot
    exact hres.loses fun i _ => .inl (by rw [mstStep, hmsts])
  | portState port state => exact hsame _ (portState_frame sw st port state).2
  | mstState port msti state => exact hsame _ (mstState_frame st port msti state).2

/-! ## States of MSTIs -/

/-- The states that were last set for a port and an MSTI since the MSTI has its slot, after a
call. -/
def lastStates (sw : MstSwitch f) (st : MstState) (last : Nat → BitVec 16 → BrState)
    (call : MstCall f) (port : Nat) (msti : BitVec 16) : BrState :=
  if firstSlot f (mstStep sw st call).2 msti ≠ firstSlot f st msti then .disabled
  else match call, (mstStep sw st call).1 with
    | .mstState p m state, .ok () => if port = p ∧ msti = m then state else last port msti
    | _, _ => last port msti

/-- A call, with the states of the MSTIs. -/
def stateTrack (sw : MstSwitch f) (s : MstState × (Nat → BitVec 16 → BrState))
    (call : MstCall f) : MstState × (Nat → BitVec 16 → BrState) :=
  ((mstStep sw s.1 call).2, lastStates sw s.1 s.2 call)

/-- The slots of the MSTIs have the states that were set for the MSTIs. -/
def StatesKept (sw : MstSwitch f) (s : MstState × (Nat → BitVec 16 → BrState)) : Prop :=
  ∀ port ∈ sw.userPorts, sw.bridged port = true → ∀ i, i + 1 < f.nMst →
    (s.1.msts i).msti ≠ 0 →
    s.1.portSlotState f (i + 1) port = (s.2 port (s.1.msts i).msti).hwState

/-- A slot that a VLAN takes along to another MSTI has the bridged ports disabled. -/
def RecyclesDisabled (sw : MstSwitch f) (s : MstState × (Nat → BitVec 16 → BrState))
    (call : MstCall f) : Prop :=
  ∀ vid msti, call = .mstiSet vid msti → Recycles f s.1 vid msti →
    ∀ port ∈ sw.userPorts, sw.bridged port = true →
      s.1.portSlotState f (s.1.fid f vid) port = 0

/-- A slot keeps its MSTI and its states, or is set up for an MSTI that had none. -/
theorem StatesKept.setUp {sw : MstSwitch f} {st st' : MstState}
    {last last' : Nat → BitVec 16 → BrState} (h : StatesKept sw (st, last))
    (hd : DistinctMstis f st) (hd' : DistinctMstis f st')
    (hlast : ∀ port msti, last' port msti =
      if firstSlot f st' msti ≠ firstSlot f st msti then .disabled else last port msti)
    (hslots : ∀ i, i + 1 < f.nMst → (st'.msts i).msti ≠ 0 → ∀ port ∈ sw.userPorts,
      sw.bridged port = true →
      ((st'.msts i).msti = (st.msts i).msti ∧
        st'.portSlotState f (i + 1) port = st.portSlotState f (i + 1) port) ∨
      (firstSlot f st (st'.msts i).msti = none ∧ st'.portSlotState f (i + 1) port = 0)) :
    StatesKept sw (st', last') := by
  intro port hport hbridged i hi hne
  have hfirst := firstSlot_of_distinct hd' hi hne
  dsimp only at hne ⊢
  rw [hlast, hfirst]
  obtain ⟨hmsti, hstate⟩ | ⟨hnone, hstate⟩ := hslots i hi hne port hport hbridged
  · have hbefore := firstSlot_of_distinct hd hi (hmsti ▸ hne)
    rw [hmsti, hbefore, if_neg (by simp), hstate]
    exact h port hport hbridged i hi (hmsti ▸ hne)
  · rw [hnone, if_pos (by simp), hstate]
    rfl

theorem lastStates_eq (sw : MstSwitch f) (st : MstState) (last : Nat → BitVec 16 → BrState)
    {call : MstCall f} (hcall : ∀ p m state, call ≠ .mstState p m state) (port : Nat)
    (msti : BitVec 16) : lastStates sw st last call port msti =
      if firstSlot f (mstStep sw st call).2 msti ≠ firstSlot f st msti then .disabled
      else last port msti := by
  cases call with
  | mstState p m state => exact absurd rfl (hcall p m state)
  | _ => simp only [lastStates]

/-- A call that writes no state of a bridged port and takes no slot. -/
theorem StatesKept.quiet {sw : MstSwitch f} {st : MstState} {last : Nat → BitVec 16 → BrState}
    (h : StatesKept sw (st, last)) (hd : DistinctMstis f st) {call : MstCall f}
    (hcall : ∀ p m state, call ≠ .mstState p m state) (hl : Loses f st (mstStep sw st call).2)
    (htable : ∀ port ∈ sw.userPorts, sw.bridged port = true → ∀ i,
      (mstStep sw st call).2.portSlotState f (i + 1) port = st.portSlotState f (i + 1) port) :
    StatesKept sw (stateTrack sw (st, last) call) :=
  h.setUp hd (hd.step sw call) (lastStates_eq sw st last hcall)
    fun i hi hne port hport hbridged =>
      .inl ⟨(hl i hi).resolve_right hne, htable port hport hbridged i⟩

/-- `otto_vlan_msti_set` keeps the states unless it takes along a slot with states. -/
theorem StatesKept.mstiSet {sw : MstSwitch f} {st : MstState}
    {last : Nat → BitVec 16 → BrState} (h : StatesKept sw (st, last)) (hd : DistinctMstis f st)
    {vid : Fin maxVlans} {msti : BitVec 16}
    (hdisabled : Recycles f st vid msti → ∀ port ∈ sw.userPorts, sw.bridged port = true →
      st.portSlotState f (st.fid f vid) port = 0) :
    StatesKept sw (stateTrack sw (st, last) (.mstiSet vid msti)) := by
  have hcall : ∀ p m state, (.mstiSet vid msti : MstCall f) ≠ .mstState p m state := by
    intro p m state heq
    cases heq
  obtain ⟨hmsts, htable⟩ := vlanMstiSet_frame sw st vid msti
  obtain ⟨htable', hl, -⟩ | ⟨i, hi, hnew, htable', hl, -⟩ | ⟨hr, htable', hgot⟩ :=
    slotReplace_cases sw st vid msti
  · refine h.quiet hd hcall (fun i hi => ?_) fun port _ _ i => ?_
    · rw [mstStep, hmsts]
      exact hl i hi
    · rw [mstStep, MstState.portSlotState, htable, htable']
      rfl
  · -- the slot was free
    refine h.setUp hd (hd.step sw _) (lastStates_eq sw st last hcall)
      fun j hj hne port hport hbridged => ?_
    rw [mstStep, hmsts] at hne
    have hgot := (hl j hj).resolve_right hne
    rw [mstStep, hmsts, hgot, MstState.portSlotState, htable, htable']
    have hstate := portSlotState_slotInit sw
      { st with msts := Function.update st.msts i { msti := msti, refcount := 1 } } hport hbridged
      (i + 1) (j + 1)
    rw [MstState.portSlotState] at hstate
    rw [hstate]
    by_cases hji : j = i
    · subst hji
      exact .inr ⟨by simpa using firstSlot_eq_none_iff.2 hnew, by simp⟩
    · refine .inl ⟨by simp [hji], ?_⟩
      rw [if_neg (by omega)]
      rfl
  · -- the slot was that of another MSTI
    have hfid := hr.fid_ne
    refine h.setUp hd (hd.step sw _) (lastStates_eq sw st last hcall)
      fun j hj hne port hport hbridged => ?_
    rw [mstStep, hmsts, hgot, MstState.portSlotState, htable, htable']
    by_cases hj' : j = st.fid f vid - 1
    · have hzero := hdisabled hr port hport hbridged
      rw [show st.fid f vid = j + 1 by omega] at hzero
      subst hj'
      exact .inr ⟨by simpa using hr.unknown, hzero⟩
    · exact .inl ⟨by simp [hj'], rfl⟩

/-- And it does not keep them if it does. -/
theorem StatesKept.disabled {sw : MstSwitch f} {st : MstState}
    {last : Nat → BitVec 16 → BrState} {vid : Fin maxVlans} {msti : BitVec 16}
    (hd : DistinctMstis f st)
    (h : StatesKept sw (stateTrack sw (st, last) (.mstiSet vid msti)))
    (hr : Recycles f st vid msti) {port : Nat} (hport : port ∈ sw.userPorts)
    (hbridged : sw.bridged port = true) : st.portSlotState f (st.fid f vid) port = 0 := by
  have hd' := hd.step sw (.mstiSet vid msti)
  have hfid := hr.fid_ne
  have hlt := fid_lt f st vid
  obtain ⟨hmsts, htable⟩ := vlanMstiSet_frame sw st vid msti
  obtain ⟨-, -, hno⟩ | ⟨-, -, -, -, -, hno⟩ | ⟨-, htable', hgot⟩ :=
    slotReplace_cases sw st vid msti
  · exact absurd hr hno
  · exact absurd hr hno
  · have hslot : ((mstStep sw st (.mstiSet vid msti)).2.msts (st.fid f vid - 1)).msti = msti := by
      simp [mstStep, hmsts, hgot]
    have hstate := h port hport hbridged (st.fid f vid - 1) (by omega) (by
      rw [stateTrack, hslot]
      exact hr.msti_ne)
    have hfirst := firstSlot_of_distinct hd' (i := st.fid f vid - 1) (by omega) (by
      rw [hslot]
      exact hr.msti_ne)
    rw [hslot] at hfirst
    simp only [stateTrack, hslot] at hstate
    rw [lastStates_eq sw st last (by simp), hfirst, hr.unknown, if_pos (by simp),
      Nat.sub_add_cancel (by omega)] at hstate
    rw [mstStep, MstState.portSlotState, htable, htable'] at hstate
    exact hstate

/-- `otto_stp_port_mst_state_set` writes the slot of its MSTI. -/
theorem StatesKept.mstState {sw : MstSwitch f} {st : MstState}
    {last : Nat → BitVec 16 → BrState} (h : StatesKept sw (st, last)) (hd : DistinctMstis f st)
    (port : Nat) (msti : BitVec 16) (state : BrState) :
    StatesKept sw (stateTrack sw (st, last) (.mstState port msti state)) := by
  have hmsts := (mstState_frame (f := f) st port msti state).2
  intro p hp hbridged i hi hne
  simp only [stateTrack, mstStep, lastStates, firstSlot_congr hmsts, hmsts, ne_eq,
    not_true_eq_false, if_false] at hne ⊢
  have hstate := h p hp hbridged i hi hne
  have hfirst := firstSlot_of_distinct hd hi hne
  unfold portMstStateSet
  cases hfind : slotFind f st msti with
  | error e => exact hstate
  | ok slot =>
    dsimp only
    rw [portSlotState_set st (sw.user_lt p hp)]
    -- the slot that is found is the one that has the MSTI
    have hsame : i + 1 = slot ↔ (st.msts i).msti = msti := by
      unfold slotFind at hfind
      split_ifs at hfind with h0
      · cases hfind
        simpa [h0] using hne
      · cases hslot : firstSlot f st msti with
        | none => simp [hslot] at hfind
        | some j =>
          obtain ⟨hj, hfound⟩ := firstSlot_eq_some hslot
          obtain rfl : j + 1 = slot := by simpa [hslot] using hfind
          constructor
          · intro hij
            rw [← hfound, Nat.succ.inj hij]
          · intro hmsti
            rw [hmsti, hslot] at hfirst
            rw [Option.some.inj hfirst]
    simp only [hsame]
    split_ifs
    · rfl
    · exact hstate

/-- The step: the states are kept by a call exactly if it takes along no slot with states. -/
theorem statesKept_step_iff {sw : MstSwitch f} {s : MstState × (Nat → BitVec 16 → BrState)}
    (h : StatesKept sw s) (hd : DistinctMstis f s.1) (call : MstCall f) :
    StatesKept sw (stateTrack sw s call) ↔ RecyclesDisabled sw s call := by
  obtain ⟨st, last⟩ := s
  have hother : (∀ vid msti, call ≠ .mstiSet vid msti) →
      StatesKept sw (stateTrack sw (st, last) call) →
      (StatesKept sw (stateTrack sw (st, last) call) ↔ RecyclesDisabled sw (st, last) call) :=
    fun hcall hkept => iff_of_true hkept fun vid msti heq => absurd heq (hcall vid msti)
  cases call with
  | portAdd port vid proto pvid untagged =>
    obtain ⟨htable, hmsts⟩ := vlanPortAdd_frame sw st port vid proto pvid untagged
    refine hother (by simp) (h.quiet hd (by simp) (fun i _ => .inl ?_) fun p _ _ i => ?_)
    · rw [mstStep, hmsts]
    · rw [mstStep, MstState.portSlotState, htable]
      rfl
  | portDel port vid =>
    obtain ⟨htable, hl⟩ := vlanPortDel_frame st port vid
    refine hother (by simp) (h.quiet hd (by simp) hl fun p _ _ i => ?_)
    rw [mstStep, MstState.portSlotState, htable]
    rfl
  | mstiSet vid msti =>
    constructor
    · rintro hkept vid' msti' heq hr port hport hbridged
      cases heq
      exact hkept.disabled hd hr hport hbridged
    · intro hdisabled
      exact h.mstiSet hd fun hr => hdisabled vid msti rfl hr
  | portState port state =>
    obtain ⟨-, hmsts⟩ := portState_frame sw st port state
    refine hother (by simp) (h.quiet hd (by simp) (fun i _ => .inl ?_) fun p hp hb i => ?_)
    · rw [mstStep, hmsts]
    · exact portSlotState_portState sw st hp hb port state (by omega)
  | mstState port msti state => exact hother (by simp) (h.mstState hd port msti state)

theorem statesKept_along_iff {sw : MstSwitch f} {s : MstState × (Nat → BitVec 16 → BrState)}
    (h : StatesKept sw s) (hd : DistinctMstis f s.1) (calls : List (MstCall f)) :
    Along (stateTrack sw) (fun s call => StatesKept sw (stateTrack sw s call)) s calls ↔
      Along (stateTrack sw) (RecyclesDisabled sw) s calls :=
  along_iff (fun s => StatesKept sw s ∧ DistinctMstis f s.1)
    (fun _ call hs hkeep => ⟨(statesKept_step_iff hs.1 hs.2 call).2 hkeep, hs.2.step sw call⟩)
    (fun _ call hs => statesKept_step_iff hs.1 hs.2 call) ⟨h, hd⟩

theorem MstState.Fresh.statesKept {st : MstState} (h : st.Fresh f) (sw : MstSwitch f)
    (last : Nat → BitVec 16 → BrState) : StatesKept sw (st, last) ∧ DistinctMstis f st := by
  constructor
  · intro port _ _ i _ hne
    simp [h.msts] at hne
  · intro i j _ _ hne
    simp [h.msts] at hne

/-- **After every call of a run the slots have the states that were set for their MSTIs exactly
if no call takes along a slot in which a bridged port is not disabled.** -/
theorem mst_states_kept_iff (sw : MstSwitch f) {st : MstState} (hfresh : st.Fresh f)
    (calls : List (MstCall f)) :
    Along (stateTrack sw) (fun s call => StatesKept sw (stateTrack sw s call))
        (st, fun _ _ => .disabled) calls ↔
      Along (stateTrack sw) (RecyclesDisabled sw) (st, fun _ _ => .disabled) calls := by
  obtain ⟨h, hd⟩ := hfresh.statesKept sw fun _ _ => .disabled
  exact statesKept_along_iff h hd calls

end

theorem emptyMst_statesKept : Along (stateTrack oneBridgedPort)
    (fun s call => StatesKept oneBridgedPort (stateTrack oneBridgedPort s call))
    (emptyMst, fun _ _ => .disabled) [.mstiSet vid10 5, .mstState 0 5 .forwarding] := by
  rw [mst_states_kept_iff oneBridgedPort emptyMst_fresh]
  simp only [along_cons, along_nil, and_true]
  constructor
  · rintro vid msti - hr
    exact absurd hr.full (by decide +kernel)
  · rintro vid msti heq
    cases heq

/-- A VLAN for each of the 63 slots of an RTL838x, with the MSTI of its own number, and a port
that forwards in the MSTI of VLAN 1. -/
def fillSlots : List (MstCall .rtl838x) :=
  (List.range 63).map (fun i => .mstiSet ⟨(i + 1) % maxVlans, Nat.mod_lt _ (by decide)⟩
    (BitVec.ofNat 16 (i + 1))) ++ [.mstState 0 1 .forwarding]

/-- VLAN 1. -/
def vid1 : Fin maxVlans := ⟨1, by decide⟩

/-- The state of the switch in a run with the states of the MSTIs. -/
theorem foldl_stateTrack {f : Family} (sw : MstSwitch f)
    (s : MstState × (Nat → BitVec 16 → BrState)) (calls : List (MstCall f)) :
    (calls.foldl (stateTrack sw) s).1 = mstRun sw s.1 calls := by
  induction calls generalizing s with
  | nil => rfl
  | cons call calls ih =>
    rw [List.foldl_cons, ih]
    rfl

theorem fillSlots_recycles :
    let st := mstRun oneBridgedPort emptyMst fillSlots
    (firstSlot .rtl838x st 64 = none ∧ firstSlot .rtl838x st 0 = none ∧
      st.fid .rtl838x 1 = 1 ∧ (st.msts 0).refcount = 1) ∧ st.portSlotState .rtl838x 1 0 = 3 := by
  decide +kernel

/-- VLAN 1 moves to MSTI 64 and takes its slot along: port 0 forwards in an MSTI for which no
state was set. -/
theorem recycled_keeps_forwarding :
    (((mstRun oneBridgedPort emptyMst (fillSlots ++ [.mstiSet vid1 64])).msts 0).msti = 64 ∧
      (mstRun oneBridgedPort emptyMst (fillSlots ++ [.mstiSet vid1 64])).portSlotState
        .rtl838x 1 0 = BrState.forwarding.hwState) ∧
      ¬ Along (stateTrack oneBridgedPort)
        (fun s call => StatesKept oneBridgedPort (stateTrack oneBridgedPort s call))
        (emptyMst, fun _ _ => .disabled) (fillSlots ++ [.mstiSet vid1 64]) := by
  refine ⟨by decide +kernel, fun hkept => ?_⟩
  obtain ⟨h, hd⟩ := emptyMst_fresh.statesKept oneBridgedPort fun _ _ => .disabled
  rw [statesKept_along_iff h hd] at hkept
  have hdisabled := hkept fillSlots (.mstiSet vid1 64) [] rfl vid1 64 rfl
  have hstates := fillSlots_recycles
  rw [foldl_stateTrack] at hdisabled
  dsimp only at hdisabled hstates
  generalize mstRun oneBridgedPort emptyMst fillSlots = st at hdisabled hstates
  obtain ⟨⟨hunknown, hfull, hfid, hrefs⟩, hstate⟩ := hstates
  have hslot : st.fid .rtl838x vid1 = 1 := hfid
  rw [hslot] at hdisabled
  have hzero := hdisabled ⟨by decide, by decide, hunknown, hfull, by simp [hslot],
    by simpa [hslot] using hrefs⟩ 0 (by decide) rfl
  rw [hstate] at hzero
  exact absurd hzero (by decide)

end Lede.Otto
