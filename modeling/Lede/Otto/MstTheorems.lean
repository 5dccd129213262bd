/-
Lede.Otto.MstTheorems — the references on MST slots.

`Pending` counts the references on the slots: those of the VLANs whose FID is the slot, and one
more that a call has taken and not given yet. A call takes a reference for the new slot
(`Pending.get`), moves the VLAN (`Pending.move`), which leaves the reference on its old slot over,
and puts that one (`Pending.put`).

One call breaks the count. `otto_vlan_port_add` sets the FID of a VLAN without members to 0, and
such a VLAN may have been given an MSTI before: its slot keeps the reference for good.
`mst_slots_counted_iff` says that no other call does.
-/
import Lede.Lib.RefCount
import Lede.Lib.Runs
import Lede.Otto.Mst

namespace Lede.Otto

open Lede.Lib.BitField Lede.Lib.RefCount Lede.Lib.Runs

/-! ## References -/

/-- The number of VLANs of which the slot is the FID. -/
def vlansOf (fid : Nat → Nat) (slot : Nat) : Nat :=
  refs (Finset.range maxVlans) (fun vid => some (fid vid)) slot

theorem vlansOf_update {fid : Nat → Nat} {vid : Nat} (hvid : vid < maxVlans) (slot s : Nat) :
    vlansOf (Function.update fid vid slot) s + (if fid vid = s then 1 else 0) =
      vlansOf fid s + (if slot = s then 1 else 0) := by
  have h := refs_update (Finset.mem_range.mpr hvid) (fun v => some (fid v)) (some slot) s
  have hcomp : (fun v => some (Function.update fid vid slot v)) =
      Function.update (fun v => some (fid v)) vid (some slot) := by
    funext v
    by_cases hv : v = vid
    · subst hv
      simp
    · simp [hv]
  rw [vlansOf, vlansOf, hcomp]
  simpa using h

theorem vlansOf_pos {fid : Nat → Nat} {vid : Nat} (hvid : vid < maxVlans) :
    0 < vlansOf fid (fid vid) :=
  refs_pos (Finset.mem_range.mpr hvid) rfl

/-- The MSTI of a slot; slot 0 is that of the CIST. -/
def mstiOf (msts : Nat → MstSlot) : Nat → BitVec 16
  | 0 => 0
  | i + 1 => (msts i).msti

/-- `kref_get` -/
def MstSlot.take (slot : MstSlot) : MstSlot := { slot with refcount := slot.refcount + 1 }

@[simp] theorem MstSlot.msti_take (slot : MstSlot) : slot.take.msti = slot.msti := rfl

@[simp] theorem MstSlot.refcount_take (slot : MstSlot) :
    slot.take.refcount = slot.refcount + 1 := rfl

/-- The slots, with a reference on `extra` that no VLAN has: `want` is the MSTI of each VLAN. -/
structure Pending (n : Nat) (fid : Nat → Nat) (msts : Nat → MstSlot) (want : Nat → BitVec 16)
    (extra : Nat) : Prop where
  refs : ∀ i, i + 1 < n → (msts i).refcount = vlansOf fid (i + 1) + if extra = i + 1 then 1 else 0
  free : ∀ i, i + 1 < n → ((msts i).msti = 0 ↔ (msts i).refcount = 0)
  distinct : ∀ i j, i + 1 < n → j + 1 < n → (msts i).msti ≠ 0 → (msts i).msti = (msts j).msti →
    i = j
  mapped : ∀ vid < maxVlans, fid vid < n ∧ mstiOf msts (fid vid) = want vid
  extra_lt : extra < n

section

variable {n : Nat} {fid : Nat → Nat} {msts : Nat → MstSlot} {want : Nat → BitVec 16}

/-- A slot that the call already holds may be given to a VLAN: the reference on the slot of the
VLAN is left over. -/
theorem Pending.move {slot : Nat} (h : Pending n fid msts want slot) {vid : Nat}
    (hvid : vid < maxVlans) :
    Pending n (Function.update fid vid slot) msts
      (Function.update want vid (mstiOf msts slot)) (fid vid) where
  refs := by
    intro i hi
    have := @vlansOf_update fid _ hvid slot (i + 1)
    rw [h.refs i hi]
    omega
  free := h.free
  distinct := h.distinct
  mapped := by
    intro v hv
    by_cases heq : v = vid
    · subst heq
      simp [h.extra_lt]
    · simpa [heq] using h.mapped v hv
  extra_lt := (h.mapped vid hvid).1

/-- A reference on a slot that has the MSTI already. -/
theorem Pending.getUsed (h : Pending n fid msts want 0) {i : Nat} (hi : i + 1 < n)
    (hused : (msts i).msti ≠ 0) :
    Pending n fid (Function.update msts i (msts i).take) want (i + 1) where
  refs := by
    intro j hj
    have := h.refs j hj
    by_cases heq : j = i
    · subst heq
      simp [this]
    · simp [heq, this, Ne.symm heq]
  free := by
    intro j hj
    by_cases heq : j = i
    · subst heq
      simpa using hused
    · simpa [heq] using h.free j hj
  distinct := by
    intro j k hj hk hne hsame
    have hmsti : ∀ l, (Function.update msts i (msts i).take l).msti = (msts l).msti := by
      intro l
      by_cases heq : l = i
      · subst heq
        simp [MstSlot.take]
      · simp [heq]
    rw [hmsti] at hne
    rw [hmsti, hmsti] at hsame
    exact h.distinct j k hj hk hne hsame
  mapped := by
    intro vid hvid
    refine ⟨(h.mapped vid hvid).1, ?_⟩
    rw [← (h.mapped vid hvid).2]
    cases hfid : fid vid with
    | zero => rfl
    | succ j =>
      by_cases heq : j = i
      · subst heq
        simp [mstiOf]
      · simp [mstiOf, heq]
  extra_lt := hi

/-- A reference on a free slot, for an MSTI that has none. -/
theorem Pending.getFree (h : Pending n fid msts want 0) {i : Nat} (hi : i + 1 < n)
    (hfree : (msts i).msti = 0) {msti : BitVec 16} (hmsti : msti ≠ 0)
    (hnew : ∀ j, j + 1 < n → (msts j).msti ≠ msti) :
    Pending n fid (Function.update msts i { msti := msti, refcount := 1 }) want (i + 1) where
  refs := by
    intro j hj
    have hj' := h.refs j hj
    by_cases heq : j = i
    · subst heq
      have hzero := (h.free j hj).1 hfree
      simp only [Function.update_self, if_true]
      omega
    · simp [heq, hj', Ne.symm heq]
  free := by
    intro j hj
    by_cases heq : j = i
    · subst heq
      simpa using hmsti
    · simpa [heq] using h.free j hj
  distinct := by
    intro j k hj hk hne hsame
    by_cases hji : j = i
    · by_cases hki : k = i
      · rw [hji, hki]
      · subst hji
        simp only [Function.update_self, Function.update_of_ne hki] at hsame
        exact absurd hsame.symm (hnew k hk)
    · by_cases hki : k = i
      · subst hki
        simp only [Function.update_self, Function.update_of_ne hji] at hsame
        exact absurd hsame (hnew j hj)
      · simp only [Function.update_of_ne hji, Function.update_of_ne hki] at hne hsame
        exact h.distinct j k hj hk hne hsame
  mapped := by
    intro vid hvid
    refine ⟨(h.mapped vid hvid).1, ?_⟩
    rw [← (h.mapped vid hvid).2]
    cases hfid : fid vid with
    | zero => rfl
    | succ j =>
      -- no VLAN names a free slot
      have hne : j ≠ i := by
        rintro rfl
        have hpos := @vlansOf_pos fid _ hvid
        rw [hfid] at hpos
        have hzero := (h.free j hi).1 hfree
        have := h.refs j hi
        omega
      simp [mstiOf, hne]
  extra_lt := hi

/-- The reference that is left over is put. -/
theorem Pending.put {old : Nat} (h : Pending n fid msts want old) (hold : old ≠ 0) :
    Pending n fid (Function.update msts (old - 1) (msts (old - 1)).put) want 0 where
  refs := by
    intro j hj
    have hj' := h.refs j hj
    by_cases heq : j = old - 1
    · subst heq
      have : old - 1 + 1 = old := by omega
      simp [MstSlot.put, hj', this, Ne.symm hold]
    · have hne : old ≠ j + 1 := by omega
      simp [heq, hj', hne]
  free := by
    intro j hj
    by_cases heq : j = old - 1
    · subst heq
      have hfree := h.free (old - 1) hj
      have hrefs := h.refs (old - 1) hj
      rw [if_pos (by omega)] at hrefs
      simp only [Function.update_self, MstSlot.put]
      split_ifs with hone
      · simp [hone]
      · rw [hfree]
        omega
    · simpa [heq] using h.free j hj
  distinct := by
    intro j k hj hk hne hsame
    have hmsti : ∀ l, (Function.update msts (old - 1) (msts (old - 1)).put l).msti ≠ 0 →
        (Function.update msts (old - 1) (msts (old - 1)).put l).msti = (msts l).msti := by
      intro l hl
      by_cases heq : l = old - 1
      · subst heq
        simp only [Function.update_self, MstSlot.put] at hl ⊢
        split_ifs with hone
        · simp [hone] at hl
        · rfl
      · simp [heq]
    have hne' := hmsti j hne
    have hne'' := hmsti k (hsame ▸ hne)
    rw [hne', hne''] at hsame
    exact h.distinct j k hj hk (hne' ▸ hne) hsame
  mapped := by
    intro vid hvid
    refine ⟨(h.mapped vid hvid).1, ?_⟩
    rw [← (h.mapped vid hvid).2]
    cases hfid : fid vid with
    | zero => rfl
    | succ j =>
      by_cases heq : j = old - 1
      · -- the slot of a VLAN has a reference besides the one that is put
        subst heq
        have hpos := @vlansOf_pos fid _ hvid
        rw [hfid] at hpos
        have hlt := (h.mapped vid hvid).1
        have hrefs := h.refs (old - 1) (by omega)
        rw [if_pos (by omega)] at hrefs
        have hone : (msts (old - 1)).refcount ≠ 1 := by omega
        simp [mstiOf, MstSlot.put, hone]
      · simp [mstiOf, heq]
  extra_lt := by
    have := h.extra_lt
    omega

/-- A VLAN that has a slot of its own takes it along to an MSTI that has none. -/
theorem Pending.recycle (h : Pending n fid msts want 0) {vid i : Nat} (hvid : vid < maxVlans)
    (hfid : fid vid = i + 1) (hone : (msts i).refcount = 1) {msti : BitVec 16} (hmsti : msti ≠ 0)
    (hnew : ∀ j, j + 1 < n → (msts j).msti ≠ msti) :
    Pending n fid (Function.update msts i { msts i with msti := msti })
      (Function.update want vid msti) 0 where
  refs := by
    intro j hj
    have hj' := h.refs j hj
    by_cases heq : j = i
    · subst heq
      simp [hj']
    · simp [heq, hj']
  free := by
    intro j hj
    by_cases heq : j = i
    · subst heq
      simpa [hone] using hmsti
    · simpa [heq] using h.free j hj
  distinct := by
    intro j k hj hk hne hsame
    by_cases hji : j = i
    · by_cases hki : k = i
      · rw [hji, hki]
      · subst hji
        simp only [Function.update_self, Function.update_of_ne hki] at hsame
        exact absurd hsame.symm (hnew k hk)
    · by_cases hki : k = i
      · subst hki
        simp only [Function.update_self, Function.update_of_ne hji] at hsame
        exact absurd hsame (hnew j hj)
      · simp only [Function.update_of_ne hji, Function.update_of_ne hki] at hne hsame
        exact h.distinct j k hj hk hne hsame
  mapped := by
    intro v hv
    refine ⟨(h.mapped v hv).1, ?_⟩
    by_cases heq : v = vid
    · subst heq
      simp [hfid, mstiOf]
    · rw [Function.update_of_ne heq, ← (h.mapped v hv).2]
      cases hv' : fid v with
      | zero => rfl
      | succ j =>
        -- the slot has one reference, that of the VLAN itself
        have hne : j ≠ i := by
          rintro rfl
          have hlt := (h.mapped v hv).1
          have hrefs := h.refs j (by omega)
          have hmove := @vlansOf_update fid _ hvid 0 (j + 1)
          have hpos : 0 < vlansOf (Function.update fid vid 0) (j + 1) := by
            have := @vlansOf_pos (Function.update fid vid 0) _ hv
            rwa [Function.update_of_ne heq, hv'] at this
          rw [if_pos hfid] at hmove
          rw [if_neg (by omega)] at hrefs hmove
          omega
        simp [mstiOf, hne]
  extra_lt := h.extra_lt

end

/-! ## Calls -/

section

variable {f : Family}

/-- `n_mst` is what a FID can tell apart. -/
theorem nMst_eq (f : Family) : f.nMst = 2 ^ f.fidBits := by
  cases f <;> rfl

theorem getLsbD_ofNat_eq_false {k s : Nat} (hs : s < 2 ^ k) (i : Nat) (hi : k ≤ i) :
    (BitVec.ofNat 8 s).getLsbD i = false := by
  rw [BitVec.getLsbD_ofNat, Nat.testBit_lt_two_pow (lt_of_lt_of_le hs
    (Nat.pow_le_pow_right Nat.two_pos hi)), Bool.and_false]

theorem fid_lt (f : Family) (st : MstState) (vid : Nat) : st.fid f vid < f.nMst := by
  rw [nMst_eq]
  exact toNat_lt_of_getLsbD (tablesRead_fits f (st.vlan vid)).fid

/-- A VLAN that is written has the FID that fits its row. -/
theorem fid_update {st : MstState} {vid : Nat} {info : VlanInfo} (row : VlanRow)
    (h : info.Fits f) :
    MstState.fid f { st with vlan := Function.update st.vlan vid (setTagged f row info) } =
      Function.update (st.fid f) vid info.fid.toNat := by
  funext v
  by_cases hv : v = vid
  · subst hv
    simp [MstState.fid, fid_setTagged h]
  · simp [MstState.fid, hv]

theorem slotInit_eq (sw : MstSwitch f) (st : MstState) (slot : Nat) :
    ∃ table, slotInit sw st slot = { st with mstTable := table } := by
  unfold slotInit
  generalize sw.userPorts = ports
  induction ports generalizing st with
  | nil => exact ⟨st.mstTable, rfl⟩
  | cons p ports ih =>
    rw [List.foldl_cons]
    obtain ⟨table, htable⟩ := ih (portSlotStateSet f st p
      (if sw.bridged p then .disabled else st.stpState p) slot)
    refine ⟨table, htable.trans ?_⟩
    unfold portSlotStateSet
    split_ifs <;> rfl

theorem firstSlot_eq_some {st : MstState} {msti : BitVec 16} {i : Nat}
    (h : firstSlot f st msti = some i) : i + 1 < f.nMst ∧ (st.msts i).msti = msti := by
  have hmem := List.mem_of_find?_eq_some h
  have hfound := List.find?_some h
  simp only [List.mem_range] at hmem
  exact ⟨by omega, by simpa using hfound⟩

theorem firstSlot_eq_none {st : MstState} {msti : BitVec 16}
    (h : firstSlot f st msti = none) (i : Nat) (hi : i + 1 < f.nMst) : (st.msts i).msti ≠ msti := by
  have := List.find?_eq_none.1 h i (List.mem_range.2 (by omega))
  simpa using this

/-- What `otto_stp_slot_find` finds. -/
theorem slotFind_eq {st : MstState} {msti : BitVec 16} (h0 : msti ≠ 0)
    (h4095 : ¬ 4095 < msti.toNat) :
    slotFind f st msti = match firstSlot f st msti with
      | some i => .ok (i + 1)
      | none => .error (-ENOENT) := by
  rw [slotFind, if_neg h0]
  exact if_neg h4095

/-- What `otto_stp_slot_get` can do. -/
theorem slotGet_cases (sw : MstSwitch f) (st : MstState) (msti : BitVec 16) :
    (msti = 0 ∧ slotGet sw st msti = (.ok 0, st)) ∨
    (∃ i, i + 1 < f.nMst ∧ msti ≠ 0 ∧ (st.msts i).msti = msti ∧ slotGet sw st msti =
      (.ok (i + 1), { st with msts := Function.update st.msts i (st.msts i).take })) ∨
    (∃ i, i + 1 < f.nMst ∧ msti ≠ 0 ∧ (∀ j, j + 1 < f.nMst → (st.msts j).msti ≠ msti) ∧
      (st.msts i).msti = 0 ∧ slotGet sw st msti =
      (.ok (i + 1), slotInit sw
        { st with msts := Function.update st.msts i { msti := msti, refcount := 1 } } (i + 1))) ∨
    (msti ≠ 0 ∧ msti.toNat ≤ 4095 ∧ (∀ j, j + 1 < f.nMst → (st.msts j).msti ≠ msti) ∧
      (∀ j, j + 1 < f.nMst → (st.msts j).msti ≠ 0) ∧
      slotGet sw st msti = (.error (-ENOSPC), st)) ∨
    (4095 < msti.toNat ∧ slotGet sw st msti = (.error (-EINVAL), st)) := by
  by_cases h0 : msti = 0
  · refine .inl ⟨h0, ?_⟩
    rw [slotGet, slotFind, if_pos h0]
  by_cases h4095 : 4095 < msti.toNat
  · refine .inr (.inr (.inr (.inr ⟨h4095, ?_⟩)))
    rw [slotGet, slotFind, if_neg h0, if_pos h4095]
    rfl
  have hfind : slotFind f st msti = _ := slotFind_eq h0 h4095
  cases hslot : firstSlot f st msti with
  | some i =>
    obtain ⟨hi, hmsti⟩ := firstSlot_eq_some hslot
    refine .inr (.inl ⟨i, hi, h0, hmsti, ?_⟩)
    rw [hslot] at hfind
    rw [slotGet, hfind]
    rfl
  | none =>
    have hnew := firstSlot_eq_none hslot
    rw [hslot] at hfind
    cases hfree : firstSlot f st 0 with
    | some i =>
      obtain ⟨hi, hzero⟩ := firstSlot_eq_some hfree
      refine .inr (.inr (.inl ⟨i, hi, h0, hnew, hzero, ?_⟩))
      rw [slotGet, hfind]
      simp only [hfree, ne_eq, not_true_eq_false, if_false]
    | none =>
      refine .inr (.inr (.inr (.inl ⟨h0, by omega, hnew, firstSlot_eq_none hfree, ?_⟩)))
      rw [slotGet, hfind]
      simp only [hfree, ne_eq, not_true_eq_false, if_false]

/-- `otto_stp_slot_put` of the slot that is left over. -/
theorem Pending.slotPut {fid : Nat → Nat} {want : Nat → BitVec 16} {st : MstState} {old : Nat}
    (h : Pending f.nMst fid st.msts want old) :
    (slotPut f st old).vlan = st.vlan ∧ Pending f.nMst fid (slotPut f st old).msts want 0 := by
  unfold Otto.slotPut
  by_cases hold : old = 0
  · subst hold
    exact ⟨by simp, by simpa using h⟩
  have hlt := h.extra_lt
  have hused : (st.msts (old - 1)).msti ≠ 0 := by
    have hrefs := h.refs (old - 1) (by omega)
    rw [if_pos (by omega)] at hrefs
    intro hzero
    have := (h.free (old - 1) (by omega)).1 hzero
    omega
  rw [if_neg (by omega)]
  simp only [if_neg hused, true_and]
  exact h.put hold

/-- The slots of a state, and the MSTIs of its VLANs. -/
def Slots (f : Family) (st : MstState) (want : Nat → BitVec 16) : Prop :=
  Pending f.nMst (st.fid f) st.msts want 0

/-- `otto_stp_slot_replace` for a VLAN: an error leaves everything as it was, and a slot is the
one of the MSTI. -/
theorem Slots.slotReplace {st : MstState} {want : Nat → BitVec 16} (h : Slots f st want)
    (sw : MstSwitch f) {vid : Nat} (hvid : vid < maxVlans) (msti : BitVec 16) :
    (∃ e, slotReplace sw st msti (st.fid f vid) = (.error e, st)) ∨
    ∃ slot st', slotReplace sw st msti (st.fid f vid) = (.ok slot, st') ∧ slot < f.nMst ∧
      st'.vlan = st.vlan ∧
      Pending f.nMst (Function.update (st.fid f) vid slot) st'.msts
        (Function.update want vid msti) 0 := by
  unfold Otto.slotReplace
  -- a slot that was got is given to the VLAN, and the old one is put
  have hgot : ∀ slot st1, st1.vlan = st.vlan →
      Pending f.nMst (st.fid f) st1.msts want slot → mstiOf st1.msts slot = msti →
      ∃ slot' st', ((.ok slot, slotPut f st1 (st.fid f vid)) : Except Int Nat × MstState) =
        (.ok slot', st') ∧ slot' < f.nMst ∧ st'.vlan = st.vlan ∧
        Pending f.nMst (Function.update (st.fid f) vid slot') st'.msts
          (Function.update want vid msti) 0 := by
    intro slot st1 hvlan hpending hmsti
    have hmove := hpending.move hvid
    rw [hmsti] at hmove
    obtain ⟨hput, hpending'⟩ := hmove.slotPut
    exact ⟨slot, _, rfl, hpending.extra_lt, hput.trans hvlan, hpending'⟩
  obtain ⟨rfl, hget⟩ | ⟨i, hi, h0, hmsti, hget⟩ | ⟨i, hi, h0, hnew, hfree, hget⟩ |
    ⟨h0, h4095, hnew, hfull, hget⟩ | ⟨h4095, hget⟩ := slotGet_cases sw st msti
  · rw [hget]
    exact .inr (hgot 0 st rfl h rfl)
  · rw [hget]
    refine .inr (hgot (i + 1) _ rfl (h.getUsed hi (by rw [hmsti]; exact h0)) ?_)
    simpa [mstiOf] using hmsti
  · obtain ⟨table, htable⟩ := slotInit_eq sw
      { st with msts := Function.update st.msts i { msti := msti, refcount := 1 } } (i + 1)
    rw [hget, htable]
    refine .inr (hgot (i + 1) _ rfl (h.getFree hi hfree h0 hnew) ?_)
    simp [mstiOf]
  · -- the slot of the VLAN is taken along if no other VLAN has it
    rw [hget]
    simp only [if_true]
    unfold slotRecycle
    rw [if_neg h0]
    by_cases hold : st.fid f vid = 0
    · exact .inl ⟨-ENOSPC, by rw [if_pos hold]⟩
    rw [if_neg hold, if_neg (by omega), if_neg (by have := fid_lt f st vid; omega)]
    obtain ⟨i, hi⟩ := Nat.exists_eq_succ_of_ne_zero hold
    have hlt : i + 1 < f.nMst := by
      have := fid_lt f st vid
      omega
    simp only [hi, Nat.succ_eq_add_one, Nat.add_sub_cancel, if_neg (hfull i hlt)]
    by_cases hone : (st.msts i).refcount = 1
    · rw [if_neg (by simpa using hone)]
      refine .inr ⟨i + 1, _, rfl, hlt, rfl, ?_⟩
      have hsame : Function.update (st.fid f) vid (i + 1) = st.fid f := by
        rw [← Nat.succ_eq_add_one, ← hi]
        exact Function.update_eq_self vid (st.fid f)
      rw [hsame]
      exact h.recycle hvid hi hone h0 hnew
    · rw [if_pos hone]
      exact .inl ⟨_, rfl⟩
  · rw [hget]
    exact .inl ⟨-EINVAL, rfl⟩

theorem fid_congr {st st' : MstState} (h : st'.vlan = st.vlan) : st'.fid f = st.fid f := by
  funext vid
  simp [MstState.fid, h]

theorem nMst_le (f : Family) : f.nMst ≤ 256 := by
  cases f <;> decide

/-- `otto_vlan_msti_set` keeps the slots, and an error leaves everything as it was. -/
theorem Slots.mstiSet {st : MstState} {want : Nat → BitVec 16} (h : Slots f st want)
    (sw : MstSwitch f) (vid : Fin maxVlans) (msti : BitVec 16) :
    (∃ e, vlanMstiSet sw st vid msti = (.error e, st)) ∨
    ∃ st', vlanMstiSet sw st vid msti = (.ok (), st') ∧
      Slots f st' (Function.update want vid msti) := by
  unfold vlanMstiSet
  dsimp only
  obtain ⟨e, he⟩ | ⟨slot, st', hslot, hlt, hvlan, hpending⟩ := h.slotReplace sw vid.isLt msti
  · refine .inl ⟨e, ?_⟩
    simp only [MstState.fid] at he
    rw [he]
  · refine .inr ?_
    simp only [MstState.fid] at hslot
    rw [hslot]
    refine ⟨_, rfl, ?_⟩
    have hread := tablesRead_fits f (st.vlan vid)
    have hfits : VlanInfo.Fits f
        { tablesRead f (st.vlan vid) with fid := BitVec.ofNat 8 slot } :=
      ⟨hread.members, getLsbD_ofNat_eq_false (nMst_eq f ▸ hlt), hread.profile⟩
    have hsame : (BitVec.ofNat 8 slot).toNat = slot := by
      have := nMst_le f
      rw [BitVec.toNat_ofNat]
      omega
    unfold Slots
    rw [fid_update (st'.vlan vid) hfits, fid_congr hvlan, hsame]
    exact hpending

/-- A VLAN whose row is written with the FID that it has keeps the slots. -/
theorem Slots.sameFid {st st' : MstState} {want : Nat → BitVec 16} (h : Slots f st want)
    (hfid : st'.fid f = st.fid f) (hmsts : st'.msts = st.msts) : Slots f st' want := by
  unfold Slots
  rw [hfid, hmsts]
  exact h

/-- `otto_vlan_port_del` keeps the slots: a VLAN that loses its last member gives its slot
back. -/
theorem Slots.portDel {st : MstState} {want : Nat → BitVec 16} (h : Slots f st want)
    (port : Fin (f.cpuPort + 1)) {vid : Nat} (h0 : vid ≠ 0) (hvid : vid < maxVlans) :
    (vlanPortDel st port vid).1 = .ok () ∧
      Slots f (vlanPortDel st port vid).2
        (if (tablesRead f (st.vlan vid)).memberPorts &&& ~~~bitUll port = 0 then
          Function.update want vid 0 else want) := by
  unfold vlanPortDel
  rw [if_neg h0, if_neg (by omega)]
  extract_lets st1 info0 info1 st2 st3 info2 row
  refine ⟨rfl, ?_⟩
  have hst1 : st1.vlan = st.vlan ∧ st1.msts = st.msts := by
    unfold st1
    split_ifs <;> exact ⟨rfl, rfl⟩
  have hst2 : st2.vlan = st.vlan ∧ st2.msts = st.msts := by
    unfold st2
    split_ifs <;> exact hst1
  have hinfo : info0 = tablesRead f (st.vlan vid) := by
    unfold info0
    rw [hst1.1]
  have hread := tablesRead_fits f (st.vlan vid)
  have hmembers : ∀ i, f.memberBits ≤ i → info1.memberPorts.getLsbD i = false := by
    intro i hi
    simp [info1, hinfo, hread.members i hi]
  have hzero : info1.memberPorts = (tablesRead f (st.vlan vid)).memberPorts &&& ~~~bitUll port := by
    simp [info1, hinfo]
  have hslots2 : Slots f st2 want := h.sameFid (fid_congr hst2.1) hst2.2
  rw [← hzero]
  by_cases hlast : info1.memberPorts = 0
  · have hmove := Pending.move hslots2 hvid
    have hold : info1.fid.toNat = st2.fid f vid := by
      simp [info1, hinfo, MstState.fid, hst2.1]
    obtain ⟨hput, hpending⟩ := hmove.slotPut
    have hfits : info2.Fits f := by
      unfold info2
      rw [if_pos hlast]
      exact ⟨hmembers, by simp, by simpa [info1, hinfo] using hread.profile⟩
    have hfid2 : info2.fid.toNat = 0 := by
      simp [info2, hlast]
    have hst3 : st3 = slotPut f st2 (st2.fid f vid) := by
      simp only [st3, hlast, if_true, hold]
    rw [if_pos hlast]
    unfold Slots
    rw [fid_update row hfits, hfid2, hst3, fid_congr hput]
    exact hpending
  · have hst3 : st3 = st2 := by
      simp only [st3, hlast, if_false]
    have hfits : info2.Fits f := by
      unfold info2
      rw [if_neg hlast]
      exact ⟨hmembers, by simpa [info1, hinfo] using hread.fid,
        by simpa [info1, hinfo] using hread.profile⟩
    have hinfo2 : info2 = info1 := if_neg hlast
    have hfid2 : info2.fid.toNat = st2.fid f vid := by
      simp [hinfo2, info1, hinfo, MstState.fid, hst2.1]
    rw [if_neg hlast]
    refine hslots2.sameFid ?_ (by rw [hst3])
    rw [fid_update row hfits, hfid2, hst3, Function.update_eq_self]

/-- A VLAN without members does not lose its protocol to anyone. -/
theorem claimProto_of_empty {st : MstState} {vid : Nat} {proto : VlanProto}
    (h : (tablesRead f (st.vlan vid)).memberPorts = 0) :
    ∃ st', claimProto f st vid proto = .ok st' := by
  simp [claimProto, h]

theorem claimProto_ok {st st' : MstState} {vid : Nat} {proto : VlanProto}
    (h : claimProto f st vid proto = .ok st') : st'.vlan = st.vlan ∧ st'.msts = st.msts := by
  unfold claimProto at h
  dsimp only at h
  split_ifs at h
  · cases h
    exact ⟨rfl, rfl⟩
  · cases h
    exact ⟨rfl, rfl⟩

/-- The row of a VLAN with one member more. -/
theorem addMember_fits {info : VlanInfo} (h : info.Fits f) (port : Fin (f.cpuPort + 1))
    (untagged : Bool) : (addMember info port untagged).Fits f := by
  have hport : port.val < f.memberBits := by
    have := port.isLt
    cases f <;> simp only [Family.memberBits, Family.cpuPort] at this ⊢ <;> omega
  have hbit : ∀ i, f.memberBits ≤ i → (bitUll port).getLsbD i = false := by
    intro i hi
    simp only [bitUll, BitVec.getLsbD_twoPow]
    grind
  obtain ⟨hm, hf, hp⟩ := h
  unfold addMember
  split_ifs
  all_goals
    refine ⟨fun i hi => ?_, fun i hi => ?_, fun i hi => ?_⟩
    all_goals simp [hm, hf, hp, hbit, hi]

theorem fid_addMember (info : VlanInfo) (port : Nat) (untagged : Bool) :
    (addMember info port untagged).fid = if info.memberPorts = 0 then 0 else info.fid := by
  unfold addMember
  split_ifs <;> rfl

/-- `otto_vlan_port_add` takes the slot of a VLAN that has no member, and touches no other. -/
theorem vlanPortAdd_cases (sw : MstSwitch f) (st : MstState) (port : Fin (f.cpuPort + 1))
    (vid : Nat) (proto : VlanProto) (pvid untagged : Bool) :
    (vlanPortAdd sw st port vid proto pvid untagged = (.ok (), st) ∧ vid = 0) ∨
    (∃ e, vlanPortAdd sw st port vid proto pvid untagged = (.error e, st) ∧
      ¬ (vid < maxVlans ∧ joinRefused f proto = false ∧
        (tablesRead f (st.vlan vid)).memberPorts = 0)) ∨
    (∃ st', vlanPortAdd sw st port vid proto pvid untagged = (.ok (), st') ∧ vid ≠ 0 ∧
      vid < maxVlans ∧ joinRefused f proto = false ∧ st'.msts = st.msts ∧
      st'.fid f = Function.update (st.fid f) vid
        (if (tablesRead f (st.vlan vid)).memberPorts = 0 then 0 else st.fid f vid)) := by
  unfold vlanPortAdd
  by_cases h0 : vid = 0
  · exact .inl ⟨if_pos h0, h0⟩
  rw [if_neg h0]
  by_cases hvid : maxVlans ≤ vid
  · exact .inr (.inl ⟨-ENOTSUPP, if_pos hvid, fun h => by omega⟩)
  rw [if_neg hvid]
  by_cases hjoin : joinRefused f proto = true
  · exact .inr (.inl ⟨-EINVAL, if_pos hjoin, fun h => by simp [hjoin] at h⟩)
  rw [if_neg hjoin]
  have hclaim : ∀ st1, (if port.val ∈ sw.userPorts then claimProto f st vid proto else .ok st) =
      .ok st1 → st1.vlan = st.vlan ∧ st1.msts = st.msts := by
    intro st1 h
    split_ifs at h
    · exact claimProto_ok h
    · cases h
      exact ⟨rfl, rfl⟩
  have hfid : ∀ st2 : MstState, st2.vlan = st.vlan → ∀ row,
      MstState.fid f { st2 with vlan := Function.update st2.vlan vid (setTagged f row
        (addMember (tablesRead f (st2.vlan vid)) port untagged)) } =
      Function.update (st.fid f) vid
        (if (tablesRead f (st.vlan vid)).memberPorts = 0 then 0 else st.fid f vid) := by
    intro st2 h row
    rw [fid_update row (addMember_fits (tablesRead_fits f _) port untagged), fid_addMember,
      fid_congr h, h]
    split_ifs <;> rfl
  cases hc : (if port.val ∈ sw.userPorts then claimProto f st vid proto else .ok st) with
  | error e =>
    refine .inr (.inl ⟨e, rfl, fun h => ?_⟩)
    split_ifs at hc
    obtain ⟨st', hok⟩ := claimProto_of_empty h.2.2
    rw [hok] at hc
    cases hc
  | ok st1 =>
    obtain ⟨hvlan, hmsts⟩ := hclaim st1 hc
    dsimp only
    refine .inr (.inr ⟨_, rfl, h0, by omega, by simpa using hjoin, ?_, ?_⟩)
    · split_ifs <;> exact hmsts
    · apply hfid
      split_ifs <;> exact hvlan

theorem portSlotStateSet_eq (st : MstState) (port : Nat) (state : BrState) (slot : Nat) :
    ∃ table, portSlotStateSet f st port state slot = { st with mstTable := table } := by
  unfold portSlotStateSet
  split_ifs
  · exact ⟨st.mstTable, rfl⟩
  · exact ⟨_, rfl⟩

theorem portNonCistStatesSet_eq (st : MstState) (port : Nat) (state : BrState) :
    ∃ table, portNonCistStatesSet f st port state = { st with mstTable := table } := by
  unfold portNonCistStatesSet
  generalize List.range (f.nMst - 1) = slots
  induction slots generalizing st with
  | nil => exact ⟨st.mstTable, rfl⟩
  | cons i slots ih =>
    obtain ⟨table, htable⟩ := portSlotStateSet_eq (f := f) st port state (i + 1)
    obtain ⟨table', htable'⟩ := ih { st with mstTable := table }
    exact ⟨table', by rw [List.foldl_cons, htable, htable']⟩

/-- The states of ports are apart from VLANs and slots. -/
theorem portState_frame (sw : MstSwitch f) (st : MstState) (port : Nat) (state : BrState) :
    (portStateSet sw st port state).vlan = st.vlan ∧
      (portStateSet sw st port state).msts = st.msts := by
  obtain ⟨table, htable⟩ := portSlotStateSet_eq (f := f) st port state 0
  obtain ⟨table', htable'⟩ :=
    portNonCistStatesSet_eq (f := f) { st with mstTable := table } port state
  unfold portStateSet
  rw [htable]
  dsimp only
  rw [htable']
  split_ifs <;> exact ⟨rfl, rfl⟩

theorem mstState_frame (st : MstState) (port : Nat) (msti : BitVec 16) (state : BrState) :
    (portMstStateSet f st port msti state).2.vlan = st.vlan ∧
      (portMstStateSet f st port msti state).2.msts = st.msts := by
  unfold portMstStateSet
  split
  · exact ⟨rfl, rfl⟩
  · rename_i slot _
    obtain ⟨table, htable⟩ := portSlotStateSet_eq (f := f) st port state slot
    rw [htable]
    exact ⟨rfl, rfl⟩

/-! ## Runs -/

/-- The MSTIs of the VLANs after a call: what the last `otto_vlan_msti_set` that was not refused
asked for, and the CIST for a VLAN without members and for a new one. -/
def wanted (sw : MstSwitch f) (st : MstState) (want : Nat → BitVec 16) (call : MstCall f) :
    Nat → BitVec 16 :=
  match call, (mstStep sw st call).1 with
  | .mstiSet vid msti, .ok () => Function.update want vid msti
  | .portAdd _ vid _ _ _, .ok () =>
    if vid ≠ 0 ∧ (tablesRead f (st.vlan vid)).memberPorts = 0 then Function.update want vid 0
    else want
  | .portDel port vid, .ok () =>
    if vid ≠ 0 ∧ (tablesRead f (st.vlan vid)).memberPorts &&& ~~~bitUll port = 0 then
      Function.update want vid 0
    else want
  | _, _ => want

/-- A call, with the MSTIs of the VLANs. -/
def mstTrack (sw : MstSwitch f) (s : MstState × (Nat → BitVec 16)) (call : MstCall f) :
    MstState × (Nat → BitVec 16) :=
  ((mstStep sw s.1 call).2, wanted sw s.1 s.2 call)

/-- The slots count the VLANs that name them, and each VLAN names the slot of its MSTI. -/
structure SlotsLawful (f : Family) (st : MstState) (want : Nat → BitVec 16) : Prop where
  refs : ∀ s, 1 ≤ s → s < f.nMst → (st.msts (s - 1)).refcount = vlansOf (st.fid f) s
  free : ∀ s, 1 ≤ s → s < f.nMst → ((st.msts (s - 1)).msti = 0 ↔ vlansOf (st.fid f) s = 0)
  distinct : ∀ s t, 1 ≤ s → s < f.nMst → 1 ≤ t → t < f.nMst → (st.msts (s - 1)).msti ≠ 0 →
    (st.msts (s - 1)).msti = (st.msts (t - 1)).msti → s = t
  mapped : ∀ vid < maxVlans, mstiOf st.msts (st.fid f vid) = want vid
  shared : ∀ u v, u < maxVlans → v < maxVlans → want u = want v → st.fid f u = st.fid f v

theorem slots_iff_lawful {st : MstState} {want : Nat → BitVec 16} :
    Slots f st want ↔ SlotsLawful f st want := by
  constructor
  · intro h
    have hrefs : ∀ s, 1 ≤ s → s < f.nMst → (st.msts (s - 1)).refcount = vlansOf (st.fid f) s := by
      intro s hs hlt
      have := h.refs (s - 1) (by omega)
      rwa [if_neg (by omega), Nat.sub_add_cancel hs, Nat.add_zero] at this
    refine ⟨hrefs, ?_, ?_, fun vid hvid => (h.mapped vid hvid).2, ?_⟩
    · intro s hs hlt
      rw [h.free (s - 1) (by omega), hrefs s hs hlt]
    · intro s t hs hlt ht hlt' hne hsame
      have := h.distinct (s - 1) (t - 1) (by omega) (by omega) hne hsame
      omega
    · intro u v hu hv hsame
      rw [← (h.mapped u hu).2, ← (h.mapped v hv).2] at hsame
      have hused : ∀ w i, w < maxVlans → st.fid f w = i + 1 → (st.msts i).msti ≠ 0 := by
        intro w i hw hi hzero
        have hlt := (h.mapped w hw).1
        have hpos := @vlansOf_pos (st.fid f) _ hw
        have := (h.free i (by omega)).1 hzero
        have := h.refs i (by omega)
        rw [hi] at hpos
        omega
      cases hfu : st.fid f u with
      | zero =>
        cases hfv : st.fid f v with
        | zero => rfl
        | succ j =>
          rw [hfu, hfv] at hsame
          exact absurd hsame.symm (hused v j hv hfv)
      | succ i =>
        cases hfv : st.fid f v with
        | zero =>
          rw [hfu, hfv] at hsame
          exact absurd hsame (hused u i hu hfu)
        | succ j =>
          rw [hfu, hfv] at hsame
          have hi := (h.mapped u hu).1
          have hj := (h.mapped v hv).1
          rw [h.distinct i j (by omega) (by omega) (hused u i hu hfu) hsame]
  · intro h
    have hrefs : ∀ i, i + 1 < f.nMst → (st.msts i).refcount = vlansOf (st.fid f) (i + 1) := by
      intro i hi
      simpa using h.refs (i + 1) (by omega) hi
    refine ⟨fun i hi => ?_, fun i hi => ?_, fun i j hi hj hne hsame => ?_,
      fun vid hvid => ⟨fid_lt f st vid, h.mapped vid hvid⟩, by cases f <;> decide⟩
    · simp [hrefs i hi]
    · rw [hrefs i hi]
      simpa using h.free (i + 1) (by omega) hi
    · have := h.distinct (i + 1) (j + 1) (by omega) hi (by omega) hj (by simpa using hne)
        (by simpa using hsame)
      omega

/-- What a call owes to the slots. -/
structure LawfulMstCall (sw : MstSwitch f) (s : MstState × (Nat → BitVec 16)) (call : MstCall f) :
    Prop where
  slots : SlotsLawful f (mstTrack sw s call).1 (mstTrack sw s call).2
  refused : ∀ vid msti e, call = .mstiSet vid msti → (mstStep sw s.1 call).1 = .error e →
    (mstStep sw s.1 call).2.msts = s.1.msts ∧ (mstStep sw s.1 call).2.vlan = s.1.vlan

/-- The condition: a VLAN that gets its first member has no slot. -/
def KeepsSlot (s : MstState × (Nat → BitVec 16)) (call : MstCall f) : Prop :=
  ∀ port vid proto pvid untagged, call = .portAdd port vid proto pvid untagged →
    vid ≠ 0 → vid < maxVlans → joinRefused f proto = false →
    (tablesRead f (s.1.vlan vid)).memberPorts = 0 → s.1.fid f vid = 0

/-- Under the condition a call keeps the slots. -/
theorem Slots.track {s : MstState × (Nat → BitVec 16)} (h : Slots f s.1 s.2) (sw : MstSwitch f)
    {call : MstCall f} (hkeep : KeepsSlot s call) :
    Slots f (mstTrack sw s call).1 (mstTrack sw s call).2 := by
  obtain ⟨st, want⟩ := s
  cases call with
  | portAdd port vid proto pvid untagged =>
    simp only [mstTrack, wanted, mstStep]
    obtain ⟨hadd, rfl⟩ | ⟨e, hadd, -⟩ | ⟨st', hadd, h0, hvid, hjoin, hmsts, hfid⟩ :=
      vlanPortAdd_cases sw st port vid proto pvid untagged
    · rw [hadd]
      simpa using h
    · rw [hadd]
      exact h
    · rw [hadd]
      have hzero := hkeep port vid proto pvid untagged rfl h0 hvid hjoin
      dsimp only at hzero ⊢
      have hsame : st'.fid f = st.fid f := by
        rw [hfid]
        split_ifs with hm
        · rw [← hzero hm, Function.update_eq_self]
        · rw [Function.update_eq_self]
      by_cases hm : (tablesRead f (st.vlan vid)).memberPorts = 0
      · -- the VLAN was one of the CIST already
        have hwant : Function.update want vid 0 = want := by
          have := (h.mapped vid hvid).2
          rw [hzero hm] at this
          rw [Function.update_eq_self_iff]
          exact this
        rw [if_pos ⟨h0, hm⟩, hwant]
        exact h.sameFid hsame hmsts
      · rw [if_neg (fun hc => hm hc.2)]
        exact h.sameFid hsame hmsts
  | portDel port vid =>
    simp only [mstTrack, wanted, mstStep]
    by_cases h0 : vid = 0
    · subst h0
      simpa [vlanPortDel] using h
    by_cases hvid : vid < maxVlans
    · obtain ⟨hok, hslots⟩ := h.portDel port h0 hvid
      rw [hok]
      simpa [h0] using hslots
    · rw [vlanPortDel, if_neg h0, if_pos (by omega)]
      exact h
  | mstiSet vid msti =>
    simp only [mstTrack, wanted, mstStep]
    obtain ⟨e, he⟩ | ⟨st', hst', hslots⟩ := h.mstiSet sw vid msti
    · rw [he]
      exact h
    · rw [hst']
      exact hslots
  | portState port state =>
    obtain ⟨hvlan, hmsts⟩ := portState_frame sw st port state
    exact h.sameFid (fid_congr hvlan) hmsts
  | mstState port msti state =>
    obtain ⟨hvlan, hmsts⟩ := mstState_frame (f := f) st port msti state
    have hsame : wanted sw st want (.mstState port msti state) = want := by
      simp only [wanted]
    simp only [mstTrack, hsame]
    exact h.sameFid (fid_congr hvlan) hmsts

/-- And a call that does not meet it does not. -/
theorem Slots.lawfulCall_iff {s : MstState × (Nat → BitVec 16)} (h : Slots f s.1 s.2)
    (sw : MstSwitch f) (call : MstCall f) : LawfulMstCall sw s call ↔ KeepsSlot s call := by
  constructor
  · rintro hlaw port vid proto pvid untagged rfl h0 hvid hjoin hm
    have hslots := slots_iff_lawful.2 hlaw.slots
    obtain ⟨hadd, rfl⟩ | ⟨e, hadd, hno⟩ | ⟨st', hadd, -, -, -, hmsts, hfid⟩ :=
      vlanPortAdd_cases sw s.1 port vid proto pvid untagged
    · exact absurd rfl h0
    · exact absurd ⟨hvid, hjoin, hm⟩ hno
    · by_contra hne
      obtain ⟨i, hi⟩ := Nat.exists_eq_succ_of_ne_zero hne
      have hlt := (h.mapped vid hvid).1
      have hbefore := h.refs i (by omega)
      have hafter := hslots.refs i (by omega)
      simp only [mstTrack, mstStep, hadd, hmsts, hfid, if_pos hm] at hafter
      have hmove := @vlansOf_update (s.1.fid f) _ hvid 0 (i + 1)
      rw [if_pos hi] at hmove
      rw [if_neg (by omega)] at hmove hbefore hafter
      omega
  · intro hkeep
    refine ⟨slots_iff_lawful.1 (h.track sw hkeep), ?_⟩
    rintro vid msti e rfl he
    obtain ⟨e', he'⟩ | ⟨st', hst', -⟩ := h.mstiSet sw vid msti
    · simp only [mstStep, he', and_self]
    · simp only [mstStep, hst'] at he
      cases he

/-- No slot is in use yet. -/
theorem MstState.Fresh.slots {st : MstState} (h : st.Fresh f) : Slots f st (fun _ => 0) := by
  have hnone : ∀ s, s ≠ 0 → vlansOf (st.fid f) s = 0 := by
    intro s hs
    rw [vlansOf, refs_eq_zero]
    intro vid hvid
    rw [h.fid vid (Finset.mem_range.1 hvid)]
    simpa using Ne.symm hs
  refine ⟨fun i hi => ?_, fun i hi => ?_, fun i j hi hj hne hsame => ?_, fun vid hvid => ?_,
    by cases f <;> decide⟩
  · rw [h.msts, hnone (i + 1) (by omega), if_neg (by omega)]
  · simp [h.msts]
  · simp [h.msts] at hne
  · rw [h.fid vid hvid]
    exact ⟨by cases f <;> decide, rfl⟩

/-- **Every call of a run is lawful exactly if no `otto_vlan_port_add` of it gives a VLAN that
has a slot its first member.** -/
theorem mst_slots_counted_iff (sw : MstSwitch f) {st : MstState} (hfresh : st.Fresh f)
    (calls : List (MstCall f)) :
    Along (mstTrack sw) (LawfulMstCall sw) (st, fun _ => 0) calls ↔
      Along (mstTrack sw) KeepsSlot (st, fun _ => 0) calls :=
  along_iff (fun s => Slots f s.1 s.2) (fun _ _ h hkeep => h.track sw hkeep)
    (fun _ call h => h.lawfulCall_iff sw call) hfresh.slots

end

/-- An RTL838x with one user port, which is in a bridge. -/
def oneBridgedPort : MstSwitch .rtl838x where
  userPorts := [0]
  hasPhy := fun _ => true
  user_lt := by decide
  bridged := fun port => port == 0

/-- Tables that hold nothing. -/
def emptyMst : MstState where
  vlan := fun _ => ⟨fun _ => 0, fun _ => 0⟩
  vlanProto := fun _ => none
  pvid := fun _ => 0
  msts := fun _ => {}
  mstTable := fun _ _ => 0
  stpState := fun _ => .disabled

theorem emptyMst_fid (vid : Nat) : emptyMst.fid .rtl838x vid = 0 := by
  simp [MstState.fid, tablesRead, emptyMst]

theorem emptyMst_fresh : emptyMst.Fresh .rtl838x := ⟨fun vid _ => emptyMst_fid vid, fun _ => rfl⟩

/-- VLAN 10. -/
def vid10 : Fin maxVlans := ⟨10, by decide⟩

theorem emptyMst_counted : Along (mstTrack oneBridgedPort) (LawfulMstCall oneBridgedPort)
    (emptyMst, fun _ => 0) [.portAdd 0 10 .ethP8021Q false false, .mstiSet vid10 5] := by
  rw [mst_slots_counted_iff oneBridgedPort emptyMst_fresh]
  simp only [along_cons, along_nil, and_true]
  refine ⟨?_, ?_⟩
  · rintro port vid proto pvid untagged - - - - -
    exact emptyMst_fid vid
  · rintro port vid proto pvid untagged heq
    cases heq

/-- A VLAN without members gets an MSTI, and then its first member: the slot of the MSTI keeps
its reference, and no VLAN names it. -/
theorem firstMember_leaks :
    ((mstRun oneBridgedPort emptyMst
        [.mstiSet vid10 5, .portAdd 0 10 .ethP8021Q false false]).msts 0 =
        { msti := 5, refcount := 1 } ∧
      (mstRun oneBridgedPort emptyMst
        [.mstiSet vid10 5, .portAdd 0 10 .ethP8021Q false false]).fid .rtl838x 10 = 0) ∧
      ¬ Along (mstTrack oneBridgedPort) (LawfulMstCall oneBridgedPort) (emptyMst, fun _ => 0)
        [.mstiSet vid10 5, .portAdd 0 10 .ethP8021Q false false] := by
  refine ⟨⟨by decide, by decide⟩, ?_⟩
  rw [along_cons, along_cons]
  rintro ⟨-, hlaw, -⟩
  have hslots : Slots .rtl838x emptyMst (fun _ => 0) := emptyMst_fresh.slots
  have hfirst : KeepsSlot (emptyMst, fun _ => 0) (.mstiSet vid10 5 : MstCall .rtl838x) := by
    rintro port vid proto pvid untagged heq
    cases heq
  have hnext := Slots.track (s := (emptyMst, fun _ => 0)) hslots oneBridgedPort hfirst
  have hkeep := (hnext.lawfulCall_iff oneBridgedPort _).1 hlaw
  have hzero := hkeep 0 10 .ethP8021Q false false rfl (by decide) (by decide) rfl (by decide)
  exact absurd hzero (by decide)

end Lede.Otto
