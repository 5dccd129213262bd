/-
Lede.Otto.LagTheorems — the five descriptions of the groups agree.

`LagConsistent` says how the members of the groups, their union, the primaries and the
non-primaries hang together. Every call keeps it, and a join or leave that is refused
changes nothing, but for one case: `otto_lag_93xx_set_port_members` stores the members before
`otto_lag_93xx_set_group2ports` counts them, so that a ninth port stays in its group although
the join returns an error. `lagRun_lawful_iff` says that it is the only case.
-/
import Lede.Otto.Lag

namespace Lede.Otto

/-- The groups are disjoint, and the other fields are made from them. -/
structure LagConsistent (s : LagState) : Prop where
  disjoint : ∀ g h p, p ∈ s.lagsPortMembers g → p ∈ s.lagsPortMembers h → g = h
  union : ∀ p, p ∈ s.lagmembers ↔ ∃ g, p ∈ s.lagsPortMembers g
  primary : ∀ g, (∃ p ∈ s.lagsPortMembers g, s.lagPrimary g = p) ∨
    (s.lagsPortMembers g = ∅ ∧ s.lagPrimary g = -1)
  nonPrimary : ∀ p, p ∈ s.lagNonPrimary ↔ p ∈ s.lagmembers ∧ ∀ g, s.lagPrimary g ≠ p

/-- The groups fit into the tables. -/
structure LagFits (f : Family) (s : LagState) : Prop where
  groups : ∀ g, f.numLagIds ≤ g → s.lagsPortMembers g = ∅
  ports : ∀ g, ∀ p ∈ s.lagsPortMembers g, p < f.cpuPort
  size : f.is93xx = true → ∀ g, (setBits (s.lagsPortMembers g)).length ≤ 8

/-! ## Counting -/

theorem length_setBits (m : PortMask) : (setBits m).length = (m ∩ Finset.range numPorts).card := by
  have hnodup : (setBits m).Nodup := List.Nodup.filter _ List.nodup_range
  rw [← List.toFinset_card_of_nodup hnodup]
  congr 1
  ext p
  simp [and_comm]

theorem length_setBits_insert {m : PortMask} {p : Nat} (hp : p < numPorts) (hm : p ∉ m) :
    (setBits (insert p m)).length = (setBits m).length + 1 := by
  rw [length_setBits, length_setBits, Finset.insert_inter_of_mem (Finset.mem_range.mpr hp),
    Finset.card_insert_of_notMem (by simp [hm])]

theorem length_setBits_erase_le (m : PortMask) (p : Nat) :
    (setBits (m.erase p)).length ≤ (setBits m).length := by
  rw [length_setBits, length_setBits]
  exact Finset.card_le_card (Finset.inter_subset_inter_right (Finset.erase_subset p m))

/-! ## `lag_set_port_members` -/

section SetPortMembers

variable (f : Family) (tx : Nat → Bool) (s : LagState) (group : Nat) (members : PortMask)

/-- The members are stored whatever the result is. -/
theorem lagSetPortMembers_state (info : Option LagUpperInfo) :
    ∃ hw, (lagSetPortMembers f tx s group members info).2 =
      { s with lagsPortMembers := Function.update s.lagsPortMembers group members, hw := hw } := by
  unfold lagSetPortMembers
  split
  · unfold setPortMembers93xx
    dsimp only
    split
    · exact ⟨_, rfl⟩
    · exact ⟨_, rfl⟩
  · exact ⟨_, rfl⟩

/-- A group of eight ports at most is accepted for every hash type of `can_offload`. -/
theorem lagSetPortMembers_ok (info : Option LagUpperInfo)
    (hsize : f.is93xx = true → (setBits members).length ≤ 8)
    (hinfo : ∀ i ∈ info, i.hashType = .l2 ∨ i.hashType = .l23) :
    (lagSetPortMembers f tx s group members info).1 = 0 := by
  unfold lagSetPortMembers
  split
  · rename_i hf
    have hle : ¬ 8 < (setBits members).length := by
      have := hsize hf
      omega
    have hr : ∀ hw, (setGroup2ports tx members hw group info).1 = 0 := by
      intro hw
      unfold setGroup2ports
      rw [if_neg hle]
      cases info with
      | none => rfl
      | some i =>
        obtain hi | hi := hinfo i rfl
        · simp [hi, hashMaskIdx]
        · simp [hi, hashMaskIdx]
    unfold setPortMembers93xx
    dsimp only
    rw [if_neg (by simp [hr])]
  · rfl

theorem lagSetPortMembers_tooMany (info : Option LagUpperInfo) (hf : f.is93xx = true)
    (hsize : 8 < (setBits members).length) :
    (lagSetPortMembers f tx s group members info).1 = -ENOSPC := by
  simp [lagSetPortMembers, hf, setPortMembers93xx, setGroup2ports, hsize, ENOSPC]

end SetPortMembers

/-! ## Joins and leaves that are carried out -/

section Accepted

variable {f : Family} {s : LagState}

/-- What a join leaves behind. -/
def joined (s : LagState) (hw : LagHw) (group port : Nat) : LagState :=
  { s with
    lagsPortMembers := Function.update s.lagsPortMembers group (insert port (s.lagsPortMembers group))
    lagPrimary := if s.lagPrimary group = -1 then Function.update s.lagPrimary group port else s.lagPrimary
    lagNonPrimary := if s.lagPrimary group = -1 then s.lagNonPrimary else insert port s.lagNonPrimary
    lagmembers := insert port s.lagmembers
    hw := hw }

/-- What a leave makes of the state before it looks for a primary. -/
def left (s : LagState) (hw : LagHw) (group port : Nat) : LagState :=
  { s with
    lagsPortMembers := Function.update s.lagsPortMembers group ((s.lagsPortMembers group).erase port)
    lagNonPrimary := s.lagNonPrimary.erase port
    lagmembers := s.lagmembers.erase port
    hw := hw }

theorem mem_update_insert {members : Nat → PortMask} {group port g p : Nat} :
    p ∈ Function.update members group (insert port (members group)) g ↔
      p ∈ members g ∨ (g = group ∧ p = port) := by
  by_cases hg : g = group
  · subst hg
    simp [or_comm]
  · simp [hg]

theorem mem_update_erase {members : Nat → PortMask} {group port g p : Nat} :
    p ∈ Function.update members group ((members group).erase port) g ↔
      p ∈ members g ∧ (g = group → p ≠ port) := by
  by_cases hg : g = group
  · subst hg
    simp [and_comm]
  · simp [hg]

/-- A port of no group is not the primary of one either. -/
theorem LagConsistent.primary_ne (h : LagConsistent s) {port : Nat}
    (hport : ∀ g, port ∉ s.lagsPortMembers g) (g : Nat) : s.lagPrimary g ≠ port := by
  obtain ⟨p, hp, hprim⟩ | ⟨-, hprim⟩ := h.primary g
  · rw [hprim]
    intro heq
    exact hport g (Int.ofNat_inj.mp heq ▸ hp)
  · rw [hprim]
    omega

theorem LagConsistent.joined (h : LagConsistent s) {port : Nat} (group : Nat)
    (hport : ∀ g, port ∉ s.lagsPortMembers g) (hw : LagHw) :
    LagConsistent (joined s hw group port) := by
  have hnot : port ∉ s.lagmembers := by
    rw [h.union]
    rintro ⟨g, hg⟩
    exact hport g hg
  refine ⟨?_, ?_, ?_, ?_⟩
  · intro a b p ha hb
    obtain ha | ⟨ha, hap⟩ := mem_update_insert.mp ha
    · obtain hb | ⟨-, hbp⟩ := mem_update_insert.mp hb
      · exact h.disjoint a b p ha hb
      · exact absurd (hbp ▸ ha) (hport a)
    · obtain hb | ⟨hb, -⟩ := mem_update_insert.mp hb
      · exact absurd (hap ▸ hb) (hport b)
      · rw [ha, hb]
  · intro p
    show p ∈ insert port s.lagmembers ↔ ∃ g, p ∈ Function.update s.lagsPortMembers group _ g
    simp only [mem_update_insert, Finset.mem_insert, h.union, exists_or, exists_eq_left]
    exact or_comm
  · intro g
    show (∃ p ∈ Function.update s.lagsPortMembers group _ g, _) ∨ _
    obtain ⟨p, hp, hprim⟩ | ⟨hempty, hprim⟩ := h.primary g
    · refine .inl ⟨p, mem_update_insert.mpr (.inl hp), ?_⟩
      show (if s.lagPrimary group = -1 then _ else _ : Nat → Int) g = p
      split
      · rename_i hfree
        have hg : g ≠ group := by
          rintro rfl
          omega
        rw [Function.update_of_ne hg, hprim]
      · exact hprim
    · by_cases hg : g = group
      · subst hg
        refine .inl ⟨port, mem_update_insert.mpr (.inr ⟨rfl, rfl⟩), ?_⟩
        show (if s.lagPrimary g = -1 then _ else _ : Nat → Int) g = port
        rw [if_pos hprim, Function.update_self]
      · refine .inr ⟨?_, ?_⟩
        · show Function.update s.lagsPortMembers group _ g = ∅
          rw [Function.update_of_ne hg, hempty]
        · show (if s.lagPrimary group = -1 then _ else _ : Nat → Int) g = -1
          split
          · rw [Function.update_of_ne hg, hprim]
          · exact hprim
  · intro p
    show p ∈ (if s.lagPrimary group = -1 then s.lagNonPrimary else insert port s.lagNonPrimary) ↔
      p ∈ insert port s.lagmembers ∧
        ∀ g, (if s.lagPrimary group = -1 then Function.update s.lagPrimary group (port : Int)
          else s.lagPrimary) g ≠ p
    by_cases hfree : s.lagPrimary group = -1
    · -- the port stands for its group, and the group had no other primary
      simp only [hfree, if_true, h.nonPrimary, Finset.mem_insert]
      constructor
      · rintro ⟨hp, hprim⟩
        refine ⟨.inr hp, fun g => ?_⟩
        by_cases hg : g = group
        · subst hg
          rw [Function.update_self]
          intro heq
          exact hnot (Int.ofNat_inj.mp heq ▸ hp)
        · rw [Function.update_of_ne hg]
          exact hprim g
      · rintro ⟨hp, hprim⟩
        have hne : p ≠ port := by
          rintro rfl
          exact hprim group (Function.update_self group _ _)
        refine ⟨hp.resolve_left hne, fun g => ?_⟩
        by_cases hg : g = group
        · rw [hg, hfree]
          omega
        · have := hprim g
          rwa [Function.update_of_ne hg] at this
    · simp only [hfree, if_false, h.nonPrimary, Finset.mem_insert]
      constructor
      · rintro (rfl | ⟨hp, hprim⟩)
        · exact ⟨.inl rfl, h.primary_ne hport⟩
        · exact ⟨.inr hp, hprim⟩
      · rintro ⟨rfl | hp, hprim⟩
        · exact .inl rfl
        · exact .inr ⟨hp, hprim⟩

/-- The members and their union after a leave do not depend on the primary. -/
theorem LagConsistent.of_left (h : LagConsistent s) {group port : Nat}
    (hport : port ∈ s.lagsPortMembers group) {u : LagState}
    (hmembers : u.lagsPortMembers =
      Function.update s.lagsPortMembers group ((s.lagsPortMembers group).erase port))
    (hall : u.lagmembers = s.lagmembers.erase port)
    (hprimary : ∀ g, (∃ p ∈ u.lagsPortMembers g, u.lagPrimary g = p) ∨
      (u.lagsPortMembers g = ∅ ∧ u.lagPrimary g = -1))
    (hnon : ∀ p, p ∈ u.lagNonPrimary ↔ p ∈ u.lagmembers ∧ ∀ g, u.lagPrimary g ≠ p) :
    LagConsistent u := by
  refine ⟨?_, ?_, hprimary, hnon⟩
  · intro a b p ha hb
    rw [hmembers, mem_update_erase] at ha hb
    exact h.disjoint a b p ha.1 hb.1
  · intro p
    simp only [hall, hmembers, Finset.mem_erase, h.union, mem_update_erase]
    constructor
    · rintro ⟨hne, g, hg⟩
      exact ⟨g, hg, fun _ => hne⟩
    · rintro ⟨g, hg, hne⟩
      refine ⟨?_, g, hg⟩
      rintro rfl
      exact hne (h.disjoint g group p hg hport) rfl

/-- A port is the primary of its own group only. -/
theorem LagConsistent.primary_group (h : LagConsistent s) {group port g : Nat}
    (hport : port ∈ s.lagsPortMembers group) (hg : s.lagPrimary g = port) : g = group := by
  obtain ⟨p, hp, hprim⟩ | ⟨-, hprim⟩ := h.primary g
  · rw [hg] at hprim
    exact h.disjoint g group port (Int.ofNat_inj.mp hprim ▸ hp) hport
  · omega

theorem LagConsistent.left (h : LagConsistent s) {group port : Nat}
    (hport : port ∈ s.lagsPortMembers group) (hother : s.lagPrimary group ≠ port) (hw : LagHw) :
    LagConsistent (left s hw group port) := by
  have hnever : ∀ g, s.lagPrimary g ≠ port := by
    intro g hg
    exact hother (h.primary_group hport hg ▸ hg)
  apply h.of_left hport rfl rfl
  · intro g
    show (∃ p ∈ Function.update s.lagsPortMembers group _ g, s.lagPrimary g = p) ∨
      (Function.update s.lagsPortMembers group _ g = ∅ ∧ s.lagPrimary g = -1)
    obtain ⟨p, hp, hprim⟩ | ⟨hempty, hprim⟩ := h.primary g
    · refine .inl ⟨p, mem_update_erase.mpr ⟨hp, fun _ => ?_⟩, hprim⟩
      rintro rfl
      exact hnever g hprim
    · refine .inr ⟨?_, hprim⟩
      rw [Finset.eq_empty_iff_forall_notMem]
      intro p hp
      have := (mem_update_erase.mp hp).1
      simp [hempty] at this
  · intro p
    show p ∈ s.lagNonPrimary.erase port ↔ p ∈ s.lagmembers.erase port ∧ ∀ g, s.lagPrimary g ≠ p
    simp only [Finset.mem_erase, h.nonPrimary, and_assoc]

theorem LagConsistent.left_elect (h : LagConsistent s) {group port : Nat}
    (hport : port ∈ s.lagsPortMembers group) (hlt : ∀ p ∈ s.lagsPortMembers group, p < 64) (hw : LagHw) :
    LagConsistent (electPrimary (Otto.left s hw group port) group port) := by
  unfold electPrimary
  split
  · rename_i hprim
    have hprim : s.lagPrimary group = port := hprim
    -- the new primary is a member, or there is no member
    have hothers : ∀ g, g ≠ group → ∀ x : Int,
        (∃ p ∈ (Otto.left s hw group port).lagsPortMembers g, Function.update s.lagPrimary group x g = p) ∨
        ((Otto.left s hw group port).lagsPortMembers g = ∅ ∧ Function.update s.lagPrimary group x g = -1) := by
      intro g hg x
      show (∃ p ∈ Function.update s.lagsPortMembers group _ g, _) ∨
        (Function.update s.lagsPortMembers group _ g = ∅ ∧ _)
      rw [Function.update_of_ne hg, Function.update_of_ne hg]
      exact h.primary g
    have hmembers : (Otto.left s hw group port).lagsPortMembers group =
        (s.lagsPortMembers group).erase port := Function.update_self group _ _
    split
    · rename_i q hq
      have hqm := ffs64_mem hq
      rw [hmembers, Finset.mem_erase] at hqm
      apply h.of_left hport rfl rfl
      · intro g
        by_cases hg : g = group
        · subst hg
          refine .inl ⟨q, ?_, Function.update_self g _ _⟩
          exact ffs64_mem hq
        · exact hothers g hg q
      · intro p
        show p ∈ (s.lagNonPrimary.erase port).erase q ↔ p ∈ s.lagmembers.erase port ∧
          ∀ g, Function.update s.lagPrimary group (q : Int) g ≠ p
        simp only [Finset.mem_erase, h.nonPrimary]
        constructor
        · rintro ⟨hpq, hne, hp, hnot⟩
          refine ⟨⟨hne, hp⟩, fun g => ?_⟩
          by_cases hg : g = group
          · subst hg
            rw [Function.update_self]
            omega
          · rw [Function.update_of_ne hg]
            exact hnot g
        · rintro ⟨⟨hne, hp⟩, hnot⟩
          have hpq := hnot group
          rw [Function.update_self] at hpq
          refine ⟨by omega, hne, hp, fun g => ?_⟩
          by_cases hg : g = group
          · rw [hg, hprim]
            omega
          · have := hnot g
            rwa [Function.update_of_ne hg] at this
    · rename_i hnone
      have hempty : (s.lagsPortMembers group).erase port = ∅ := by
        apply ffs64_none
        · intro p hp
          exact hlt p (Finset.mem_of_mem_erase hp)
        · rw [← hmembers]
          exact hnone
      apply h.of_left hport rfl rfl
      · intro g
        by_cases hg : g = group
        · subst hg
          exact .inr ⟨hmembers.trans hempty, Function.update_self g _ _⟩
        · exact hothers g hg (-1)
      · intro p
        show p ∈ s.lagNonPrimary.erase port ↔ p ∈ s.lagmembers.erase port ∧
          ∀ g, Function.update s.lagPrimary group (-1) g ≠ p
        simp only [Finset.mem_erase, h.nonPrimary, and_assoc]
        refine and_congr_right (fun hne => and_congr_right (fun _ => forall_congr' (fun g => ?_)))
        by_cases hg : g = group
        · rw [hg, hprim, Function.update_self]
          omega
        · rw [Function.update_of_ne hg]
  · rename_i hother
    exact h.left hport hother hw

theorem LagFits.update (h : LagFits f s) {group : Nat} (hgroup : group < f.numLagIds)
    {members : PortMask} (hports : ∀ p ∈ members, p < f.cpuPort)
    (hsize : f.is93xx = true → (setBits members).length ≤ 8) {u : LagState}
    (hu : u.lagsPortMembers = Function.update s.lagsPortMembers group members) : LagFits f u := by
  refine ⟨?_, ?_, ?_⟩
  · intro g hg
    rw [hu, Function.update_of_ne (by omega)]
    exact h.groups g hg
  · intro g
    rw [hu]
    by_cases hg : g = group
    · rw [hg, Function.update_self]
      exact hports
    · rw [Function.update_of_ne hg]
      exact h.ports g
  · intro hf g
    rw [hu]
    by_cases hg : g = group
    · rw [hg, Function.update_self]
      exact hsize hf
    · rw [Function.update_of_ne hg]
      exact h.size hf g

end Accepted

/-! ## Calls -/

section Calls

variable {f : Family} {s : LagState}

/-- The join of a ninth port to an RTL93xx group, which nothing else speaks against. -/
def NinthJoin (f : Family) (s : LagState) : LagCall → Prop
  | .join _ port id info =>
    f.is93xx = true ∧ lagCanOffload f id info = true ∧ port < f.cpuPort ∧
      lagTaken f s port = false ∧ 8 ≤ (setBits (s.lagsPortMembers (id - 1))).length
  | .leave _ _ _ => False
  | .change _ _ => False

/-- The call is a join or a leave. -/
def LagCall.isMove : LagCall → Bool
  | .join _ _ _ _ => true
  | .leave _ _ _ => true
  | .change _ _ => false

/-- What one call owes to the descriptions of the groups. -/
structure LagLawful (f : Family) (s : LagState) (c : LagCall) : Prop where
  consistent : LagConsistent (lagStep f s c).2
  refused : c.isMove = true → (lagStep f s c).1 ≠ 0 → (lagStep f s c).2 = s

theorem lagCanOffload_iff {id : Nat} {info : LagUpperInfo} :
    lagCanOffload f id info = true ↔
      (1 ≤ id ∧ id ≤ f.numLagIds) ∧ info.txHash = true ∧ (info.hashType = .l2 ∨ info.hashType = .l23) := by
  simp [lagCanOffload, and_assoc]

theorem lagTaken_false_iff {port : Nat} :
    lagTaken f s port = false ↔ ∀ g, g < f.numLagIds → port ∉ s.lagsPortMembers g := by
  simp [lagTaken]

theorem LagFits.free (h : LagFits f s) {port : Nat} (hport : lagTaken f s port = false) (g : Nat) :
    port ∉ s.lagsPortMembers g := by
  by_cases hg : g < f.numLagIds
  · exact lagTaken_false_iff.mp hport g hg
  · simp [h.groups g (Nat.le_of_not_lt hg)]

/-- The state that `otto_lag_add` hands to `lag_set_port_members`. -/
theorem lagAdd_eq (tx : Nat → Bool) {port : Nat} (group : Nat) (info : LagUpperInfo)
    (hport : lagTaken f s port = false) :
    ∃ hw, lagAdd f tx s group port info =
      lagSetPortMembers f tx { s with hw := hw } group (insert port (s.lagsPortMembers group)) (some info) := by
  unfold lagAdd
  rw [if_neg (by simp [hport])]
  by_cases hf : f.is93xx = true
  · exact ⟨s.hw, by simp [hf]⟩
  · exact ⟨setupAlgomask f s.hw group info.hashType, by simp [hf]⟩

/-- A join is refused with nothing changed, or is carried out, or is that of a ninth port. -/
theorem lagPortJoin_cases (tx : Nat → Bool) (port id : Nat) (info : LagUpperInfo) :
    (¬ (lagCanOffload f id info = true ∧ port < f.cpuPort ∧ lagTaken f s port = false) ∧
      (lagPortJoin f tx s port id info).2 = s) ∨
    (∃ hw, (id - 1 < f.numLagIds ∧ port < f.cpuPort ∧ lagTaken f s port = false ∧
      (f.is93xx = true → (setBits (insert port (s.lagsPortMembers (id - 1)))).length ≤ 8)) ∧
      lagPortJoin f tx s port id info = (0, joined s hw (id - 1) port)) ∨
    (NinthJoin f s (.join tx port id info) ∧ (lagPortJoin f tx s port id info).1 ≠ 0 ∧
      (lagPortJoin f tx s port id info).2.lagsPortMembers =
        Function.update s.lagsPortMembers (id - 1) (insert port (s.lagsPortMembers (id - 1)))) := by
  unfold lagPortJoin
  by_cases hoff : lagCanOffload f id info = true
  · rw [if_neg (by simp [hoff])]
    obtain ⟨⟨hid1, hid⟩, -, hhash⟩ := lagCanOffload_iff.mp hoff
    by_cases hcpu : f.cpuPort ≤ port
    · rw [if_pos hcpu]
      exact .inl ⟨fun hall => Nat.not_lt.mpr hcpu hall.2.1, rfl⟩
    · rw [if_neg hcpu]
      cases htaken : lagTaken f s port with
      | true =>
        refine .inl ⟨by simp, ?_⟩
        simp [lagAdd, htaken, ENOSPC]
      | false =>
        obtain ⟨hw, hadd⟩ := lagAdd_eq (f := f) (s := s) tx (id - 1) info htaken
        obtain ⟨hw', hstate⟩ := lagSetPortMembers_state f tx { s with hw := hw } (id - 1)
          (insert port (s.lagsPortMembers (id - 1))) (some info)
        have hnot := lagTaken_false_iff.mp htaken (id - 1) (by omega)
        have hlt : port < numPorts := Nat.lt_trans (Nat.lt_of_not_le hcpu) f.cpuPort_lt
        have hcount := length_setBits_insert hlt hnot
        dsimp only
        by_cases hsize : f.is93xx = true → (setBits (insert port (s.lagsPortMembers (id - 1)))).length ≤ 8
        · have hok := lagSetPortMembers_ok f tx { s with hw := hw } (id - 1)
            (insert port (s.lagsPortMembers (id - 1))) (some info) hsize
            (by simpa using hhash)
          refine .inr (.inl ⟨hw', ⟨by omega, by omega, rfl, hsize⟩, ?_⟩)
          rw [hadd, if_neg (by simp [hok]), hstate]
          unfold joined
          congr 1
          split
          · rfl
          · rfl
        · obtain ⟨hf, hlarge⟩ := Classical.not_imp.mp hsize
          have herr := lagSetPortMembers_tooMany f tx { s with hw := hw } (id - 1)
            (insert port (s.lagsPortMembers (id - 1))) (some info) hf (by omega)
          refine .inr (.inr ⟨⟨hf, hoff, by omega, htaken, by omega⟩, ?_, ?_⟩)
          · rw [hadd, if_pos (by rw [herr]; decide)]
            exact (by decide : -EINVAL ≠ 0)
          · rw [hadd, if_pos (by rw [herr]; decide), hstate]
  · rw [if_pos (by simpa using hoff)]
    exact .inl ⟨fun hall => hoff hall.1, rfl⟩

/-- A leave is refused with nothing changed, or is carried out. -/
theorem lagPortLeave_cases (h : LagFits f s) (tx : Nat → Bool) (port id : Nat) :
    (lagPortLeave f tx s port id).2 = s ∨
    (∃ hw, (id - 1 < f.numLagIds ∧ port ∈ s.lagsPortMembers (id - 1)) ∧
      lagPortLeave f tx s port id = (0, electPrimary (left s hw (id - 1) port) (id - 1) port)) := by
  unfold lagPortLeave
  split
  · exact .inl rfl
  split
  · exact .inl rfl
  dsimp only
  by_cases hgroup : f.numLagIds ≤ id - 1
  · simp [lagDel, hgroup, EINVAL]
  by_cases hport : port ∈ s.lagsPortMembers (id - 1)
  · have hdel : lagDel f tx s (id - 1) port =
        lagSetPortMembers f tx s (id - 1) ((s.lagsPortMembers (id - 1)).erase port) none := by
      simp [lagDel, hgroup, hport]
    obtain ⟨hw, hstate⟩ := lagSetPortMembers_state f tx s (id - 1)
      ((s.lagsPortMembers (id - 1)).erase port) none
    have hok := lagSetPortMembers_ok f tx s (id - 1) ((s.lagsPortMembers (id - 1)).erase port)
      none (fun hf => Nat.le_trans (length_setBits_erase_le _ port) (h.size hf _)) (by simp)
    refine .inr ⟨hw, ⟨by omega, hport⟩, ?_⟩
    rw [hdel, if_neg (by simp [hok]), hstate]
    rfl
  · simp [lagDel, hgroup, hport, ENOSPC]

/-- A change stores the members that are there. -/
theorem lagPortChange_state (tx : Nat → Bool) (port : Nat) :
    ∃ hw, (lagPortChange f tx s port).2 = { s with hw := hw } := by
  unfold lagPortChange
  split
  · exact ⟨s.hw, rfl⟩
  · rename_i group _
    obtain ⟨hw, hstate⟩ := lagSetPortMembers_state f tx s group (s.lagsPortMembers group) none
    exact ⟨hw, by rw [hstate, Function.update_eq_self]⟩

theorem LagConsistent.congr_hw (h : LagConsistent s) (hw : LagHw) : LagConsistent { s with hw := hw } :=
  ⟨h.disjoint, h.union, h.primary, h.nonPrimary⟩

theorem electPrimary_members (s : LagState) (group port : Nat) :
    (electPrimary s group port).lagsPortMembers = s.lagsPortMembers := by
  unfold electPrimary
  split
  · split
    · rfl
    · rfl
  · rfl

/-- A call other than the join of a ninth port is lawful, and the groups fit afterwards. -/
theorem LagConsistent.lawful (h : LagConsistent s) (hfits : LagFits f s) {c : LagCall}
    (hc : ¬ NinthJoin f s c) : LagLawful f s c ∧ LagFits f (lagStep f s c).2 := by
  cases c with
  | join tx port id info =>
    obtain ⟨-, hsame⟩ | ⟨hw, ⟨hgroup, hcpu, htaken, hsize⟩, heq⟩ | ⟨hninth, -⟩ :=
      lagPortJoin_cases (f := f) (s := s) tx port id info
    · refine ⟨⟨?_, fun _ _ => hsame⟩, ?_⟩
      · show LagConsistent (lagPortJoin f tx s port id info).2
        rwa [hsame]
      · show LagFits f (lagPortJoin f tx s port id info).2
        rwa [hsame]
    · refine ⟨⟨?_, ?_⟩, ?_⟩
      · show LagConsistent (lagPortJoin f tx s port id info).2
        rw [heq]
        exact h.joined (id - 1) (hfits.free htaken) hw
      · intro _ herr
        exact absurd (congrArg Prod.fst heq) herr
      · show LagFits f (lagPortJoin f tx s port id info).2
        rw [heq]
        refine hfits.update hgroup ?_ hsize rfl
        intro p hp
        obtain rfl | hp := Finset.mem_insert.mp hp
        · exact hcpu
        · exact hfits.ports _ p hp
    · exact absurd hninth hc
  | leave tx port id =>
    obtain hsame | ⟨hw, ⟨hgroup, hport⟩, heq⟩ := lagPortLeave_cases hfits tx port id
    · refine ⟨⟨?_, fun _ _ => hsame⟩, ?_⟩
      · show LagConsistent (lagPortLeave f tx s port id).2
        rwa [hsame]
      · show LagFits f (lagPortLeave f tx s port id).2
        rwa [hsame]
    · have hcpu := f.cpuPort_lt
      refine ⟨⟨?_, ?_⟩, ?_⟩
      · show LagConsistent (lagPortLeave f tx s port id).2
        rw [heq]
        refine h.left_elect hport (fun p hp => ?_) hw
        have := hfits.ports _ p hp
        simp only [numPorts] at hcpu
        omega
      · intro _ herr
        exact absurd (congrArg Prod.fst heq) herr
      · show LagFits f (lagPortLeave f tx s port id).2
        rw [heq]
        refine hfits.update hgroup (fun p hp => hfits.ports _ p (Finset.mem_of_mem_erase hp)) ?_
          (electPrimary_members _ _ _)
        intro hf
        exact Nat.le_trans (length_setBits_erase_le _ port) (hfits.size hf _)
  | change tx port =>
    obtain ⟨hw, heq⟩ := lagPortChange_state (f := f) (s := s) tx port
    refine ⟨⟨?_, fun hmove => ?_⟩, ?_⟩
    · show LagConsistent (lagPortChange f tx s port).2
      rw [heq]
      exact h.congr_hw hw
    · cases hmove
    · show LagFits f (lagPortChange f tx s port).2
      rw [heq]
      exact ⟨hfits.groups, hfits.ports, hfits.size⟩

/-- The ninth port is in the group although its join was refused. -/
theorem NinthJoin.not_lawful {c : LagCall} (hc : NinthJoin f s c) : ¬ LagLawful f s c := by
  cases c with
  | leave tx port id => exact hc.elim
  | change tx port => exact hc.elim
  | join tx port id info =>
    intro hlaw
    obtain ⟨hf, hoff, hcpu, htaken, hsize⟩ := hc
    have hid := (lagCanOffload_iff.mp hoff).1
    have hnot := lagTaken_false_iff.mp htaken (id - 1) (by omega)
    obtain ⟨hrefused, -⟩ | ⟨hw, ⟨-, -, -, hle⟩, -⟩ | ⟨-, herr, hmembers⟩ :=
      lagPortJoin_cases (f := f) (s := s) tx port id info
    · exact hrefused ⟨hoff, hcpu, htaken⟩
    · have := length_setBits_insert (Nat.lt_trans hcpu f.cpuPort_lt) hnot
      have := hle hf
      omega
    · have hsame : (lagPortJoin f tx s port id info).2 = s := hlaw.refused rfl herr
      have hport : port ∈ (lagPortJoin f tx s port id info).2.lagsPortMembers (id - 1) := by
        rw [hmembers, Function.update_self]
        exact Finset.mem_insert_self port _
      rw [hsame] at hport
      exact hnot hport

end Calls

/-! ## Runs -/

theorem lagInit_consistent (hw : LagHw) : LagConsistent (lagInit hw) := by
  refine ⟨?_, ?_, fun g => .inr ⟨rfl, rfl⟩, ?_⟩
  · intro g h p hp
    simp [lagInit] at hp
  · intro p
    simp [lagInit]
  · intro p
    simp [lagInit]

theorem lagInit_fits (f : Family) (hw : LagHw) : LagFits f (lagInit hw) := by
  refine ⟨fun g _ => rfl, ?_, ?_⟩
  · intro g p hp
    simp [lagInit] at hp
  · intro _ g
    simp [lagInit, setBits]

/-- The invariant of a run without a ninth port. -/
theorem LagConsistent.run {f : Family} {s : LagState} (h : LagConsistent s) (hfits : LagFits f s)
    (calls : List LagCall)
    (hcalls : ∀ pre c post, calls = pre ++ c :: post → ¬ NinthJoin f (lagRun f s pre) c) :
    LagConsistent (lagRun f s calls) ∧ LagFits f (lagRun f s calls) := by
  induction calls generalizing s with
  | nil => exact ⟨h, hfits⟩
  | cons c calls ih =>
    obtain ⟨hlaw, hfits'⟩ := h.lawful hfits (hcalls [] c calls rfl)
    apply ih hlaw.consistent hfits'
    intro pre d post heq
    exact hcalls (c :: pre) d post (by rw [heq]; rfl)

/-- **Every call of a run is lawful exactly if none of them joins a ninth port to an RTL93xx
group.** -/
theorem lagRun_lawful_iff (f : Family) (hw : LagHw) (calls : List LagCall) :
    (∀ pre c post, calls = pre ++ c :: post → LagLawful f (lagRun f (lagInit hw) pre) c) ↔
      ∀ pre c post, calls = pre ++ c :: post → ¬ NinthJoin f (lagRun f (lagInit hw) pre) c := by
  constructor
  · intro hlaw pre c post heq hninth
    exact hninth.not_lawful (hlaw pre c post heq)
  · intro hnot pre c post heq
    obtain ⟨hpre, hfits⟩ := (lagInit_consistent hw).run (lagInit_fits f hw) pre (by
      intro pre' d post' heq'
      apply hnot pre' d (post' ++ c :: post)
      rw [heq, heq']
      simp)
    exact (hpre.lawful hfits (hnot pre c post heq)).1

/-- Registers that hold no group. -/
def noLags : LagHw where
  trkMbrCtr := fun _ => ∅
  hashIdxCtrl := fun _ => 0
  hashCtrl := fun _ => []
  lagTable := fun _ => ⟨[], [], false, false, 0, 0, 0, 0⟩
  srcTrkMap := fun _ => ⟨false, 0⟩
  trkIdCtrl := fun _ => ⟨false, 0⟩
  localPortTrkMap := fun _ => ⟨false, 0⟩

/-- Ports 0 to 7 of an RTL930x join the first LAG. -/
def eightJoins : List LagCall :=
  (List.range 8).map (fun port => .join (fun _ => true) port 1 ⟨true, .l2⟩)

/-- The join of port 8 is refused, and port 8 is a member that is not among all members. -/
theorem eightJoins_ninth :
    let s := lagRun .rtl930x (lagInit noLags) eightJoins
    let c := LagCall.join (fun _ => true) 8 1 ⟨true, .l2⟩
    ((lagStep .rtl930x s c).1 = -EINVAL ∧ 8 ∉ s.lagsPortMembers 0 ∧
      8 ∈ (lagStep .rtl930x s c).2.lagsPortMembers 0 ∧ 8 ∉ (lagStep .rtl930x s c).2.lagmembers) ∧
      ¬ LagLawful .rtl930x s c := by
  intro s c
  have hvalues : (lagStep .rtl930x s c).1 = -EINVAL ∧ 8 ∉ s.lagsPortMembers 0 ∧
      8 ∈ (lagStep .rtl930x s c).2.lagsPortMembers 0 ∧ 8 ∉ (lagStep .rtl930x s c).2.lagmembers := by
    decide
  refine ⟨hvalues, fun hlaw => ?_⟩
  have hsame := hlaw.refused rfl (by rw [hvalues.1]; decide)
  rw [hsame] at hvalues
  exact hvalues.2.1 hvalues.2.2.1

end Lede.Otto
