/-
Lede.Otto.RouterMacTheorems — the router MACs after a sync (`rtl83xx/l3.c`).

A new entry is written where no other one has its MAC (`allocRouterMac_spec`), so the table never
has a MAC twice. The entries that stay after the match are those of the collected MACs
(`matchEntries_freed`, `matchEntries_found`), and each MAC that is left gets its own (`allocMissing_spec`).
-/
import Lede.Otto.RouterMac

namespace Lede.Otto

open Lede.Lib.BitField

/-! ## Entries -/

theorem getRouterMac_set_valid (m m₀ : RouterMac) :
    (getRouterMac (setRouterMac m) m₀).valid = m.valid := by
  have hv : (setRouterMac m)[0].getLsbD 20 = m.valid := by
    simp [setRouterMac]
  simp only [getRouterMac, hv]
  cases m.valid <;> rfl

theorem getRouterMac_set_mac {m : RouterMac} (m₀ : RouterMac) (hv : m.valid = true)
    (hm : m.mac.toNat < 2 ^ 48) : (getRouterMac (setRouterMac m) m₀).mac = m.mac := by
  have hbit : (setRouterMac m)[0].getLsbD 20 = true := by
    simp [setRouterMac, hv]
  have hhigh : ∀ i, 48 ≤ i → m.mac.getLsbD i = false := getLsbD_eq_false hm
  simp only [getRouterMac, hbit]
  change ((m.mac >>> 32).setWidth 32).setWidth 64 <<< 32 &&& low 48 |||
    (m.mac.setWidth 32).setWidth 64 = m.mac
  apply BitVec.eq_of_getLsbD_eq
  intro i hi
  simp only [BitVec.getLsbD_or, BitVec.getLsbD_and, BitVec.getLsbD_shiftLeft,
    BitVec.getLsbD_setWidth, BitVec.getLsbD_ushiftRight, getLsbD_low]
  by_cases h48 : i < 48
  · by_cases h32 : i < 32
    · simp [h32, hi]
    · simp [h32, hi, h48, show i - 32 < 32 by omega, show i - 32 < 64 by omega,
        show 32 + (i - 32) = i by omega]
  · simp [h48, show ¬i < 32 by omega, hhigh i (by omega)]

/-- An entry is valid and has this MAC. -/
def RouterMacs.Carries (s : RouterMacs) (i : Nat) (mac : BitVec 64) : Prop :=
  (getRouterMac (s.table i) {}).valid = true ∧ (getRouterMac (s.table i) {}).mac = mac

/-- The entry is in use. -/
def RouterMacs.Valid (s : RouterMacs) (i : Nat) : Prop := (getRouterMac (s.table i) {}).valid = true

instance (s : RouterMacs) (i : Nat) (mac : BitVec 64) : Decidable (s.Carries i mac) :=
  inferInstanceAs (Decidable (_ ∧ _))

instance (s : RouterMacs) (i : Nat) : Decidable (s.Valid i) :=
  inferInstanceAs (Decidable (_ = true))

/-- No MAC is in the table twice. -/
def RouterMacs.NoDup (s : RouterMacs) : Prop :=
  ∀ i < maxRouterMacs, ∀ j < maxRouterMacs, ∀ mac, s.Carries i mac → s.Carries j mac → i = j

section Alloc

variable {s s' : RouterMacs} {mac : BitVec 64}

/-- The index that is found has the MAC, or it is free and no other one has it. -/
theorem findRouterMac_spec {is : List Nat} {free : Option Nat} {i : Nat}
    (h : findRouterMac s.table mac is free = some i) (hfree : ∀ f, free = some f → ¬s.Valid f) :
    (i ∈ is ∧ s.Carries i mac) ∨
      ((i ∈ is ∨ free = some i) ∧ ¬s.Valid i ∧ ∀ j ∈ is, ¬s.Carries j mac) := by
  induction is generalizing free with
  | nil => exact .inr ⟨.inr h, hfree i h, by simp⟩
  | cons k is ih =>
    simp only [findRouterMac] at h
    split at h
    · -- the first free entry so far
      rename_i hc
      simp only [Bool.and_eq_true, Bool.not_eq_true'] at hc
      have hk : ¬s.Valid k := by
        rw [RouterMacs.Valid, hc.2]
        exact Bool.false_ne_true
      rcases ih h (by rintro f ⟨⟩; exact hk) with ⟨hmem, hi⟩ | ⟨hmem, hi, hall⟩
      · exact .inl ⟨List.mem_cons_of_mem k hmem, hi⟩
      · refine .inr ⟨.inl ?_, hi, ?_⟩
        · rcases hmem with hmem | hmem
          · exact List.mem_cons_of_mem k hmem
          · cases hmem
            exact List.mem_cons_self
        · simp only [List.forall_mem_cons]
          exact ⟨fun hcar => hk hcar.1, hall⟩
    · rename_i hc
      split at h
      · -- the one with the MAC
        rename_i hm
        cases h
        simp only [Bool.and_eq_true, beq_iff_eq] at hm
        exact .inl ⟨List.mem_cons_self, hm⟩
      · rename_i hm
        have hk : ¬s.Carries k mac := by
          simpa [RouterMacs.Carries] using hm
        rcases ih h hfree with ⟨hmem, hi⟩ | ⟨hmem, hi, hall⟩
        · exact .inl ⟨List.mem_cons_of_mem k hmem, hi⟩
        · refine .inr ⟨hmem.imp_left (List.mem_cons_of_mem k), hi, ?_⟩
          simp only [List.forall_mem_cons]
          exact ⟨hk, hall⟩

/-- The state with an entry for the MAC. -/
def RouterMacs.write (s : RouterMacs) (i : Nat) (mac : BitVec 64) : RouterMacs :=
  { s with
    table := Function.update s.table i (setRouterMac (routerMacEntry mac))
    bm := Function.update s.bm i true }

/-- A new entry is written over the one of its MAC, or over a free one when there is none. -/
theorem allocRouterMac_spec (h : allocRouterMac s mac = (true, s')) :
    ∃ i < maxRouterMacs, s' = s.write i mac ∧
      (s.Carries i mac ∨ ¬s.Valid i ∧ ∀ j < maxRouterMacs, ¬s.Carries j mac) := by
  simp only [allocRouterMac] at h
  split at h
  · cases h
  · rename_i i hi
    cases h
    rcases findRouterMac_spec hi (by simp) with ⟨hmem, hcar⟩ | ⟨hmem, hfree, hall⟩
    · exact ⟨i, List.mem_range.1 hmem, rfl, .inl hcar⟩
    · refine ⟨i, ?_, rfl, .inr ⟨hfree, fun j hj => hall j (List.mem_range.2 hj)⟩⟩
      simpa using hmem

theorem allocRouterMac_fail (h : allocRouterMac s mac = (false, s')) : s' = s := by
  simp only [allocRouterMac] at h
  split at h
  · cases h
    rfl
  · cases h

theorem carries_write {i j : Nat} {m : BitVec 64} (hm : mac.toNat < 2 ^ 48) :
    (s.write i mac).Carries j m ↔ if j = i then mac = m else s.Carries j m := by
  simp only [RouterMacs.Carries, RouterMacs.write, Function.update_apply]
  split
  · have hmac := getRouterMac_set_mac (m := routerMacEntry mac) {} rfl hm
    rw [getRouterMac_set_valid, hmac]
    exact ⟨fun h => h.2, fun h => ⟨rfl, h⟩⟩
  · rfl

theorem valid_write {i j : Nat} : (s.write i mac).Valid j ↔ j = i ∨ s.Valid j := by
  simp only [RouterMacs.Valid, RouterMacs.write, Function.update_apply]
  split
  · rename_i h
    rw [getRouterMac_set_valid]
    exact iff_of_true rfl (.inl h)
  · rename_i h
    simp [h]

/-- No MAC is in the table twice then. -/
theorem noDup_write {i : Nat} (hm : mac.toNat < 2 ^ 48) (hi : i < maxRouterMacs) (hd : s.NoDup)
    (hcar : s.Carries i mac ∨ ¬s.Valid i ∧ ∀ j < maxRouterMacs, ¬s.Carries j mac) :
    (s.write i mac).NoDup := by
  have honly : ∀ j < maxRouterMacs, s.Carries j mac → j = i := by
    intro j hj hc
    rcases hcar with hcar | ⟨-, hall⟩
    · exact hd j hj i hi mac hc hcar
    · exact absurd hc (hall j hj)
  intro j hj k hk m hcj hck
  rw [carries_write hm] at hcj hck
  split at hcj
  · rename_i hji
    split at hck
    · rename_i hki
      rw [hji, hki]
    · rw [hji, honly k hk (hcj ▸ hck)]
  · split at hck
    · rename_i hki
      rw [hki, honly j hj (hck ▸ hcj)]
    · exact hd j hj k hk m hcj hck

end Alloc

/-! ## Devices -/

/-- The device receives on a MAC of its own. -/
def NetDev.Receives (dev : NetDev) : Prop :=
  isValidEtherAddr dev.devAddr = true ∧ routerMacReceiver dev = true

instance (dev : NetDev) : Decidable dev.Receives := inferInstanceAs (Decidable (_ ∧ _))

section Track

variable {mem : Nat → Bool} {netdevs : List NetDev} {devs devs' : List Nat}

/-- The devices that have a MAC are remembered. -/
theorem routerMacTrack_spec {mac : BitVec 64}
    (h : routerMacTrack mem mac netdevs devs = (true, devs')) (d : Nat) :
    d ∈ devs' ↔ d ∈ devs ∨ ∃ dev ∈ netdevs, dev.ifindex = d ∧ routerMacReceiver dev = true ∧
      dev.mac = mac := by
  induction netdevs generalizing devs with
  | nil =>
    cases h
    simp
  | cons dev netdevs ih =>
    simp only [routerMacTrack] at h
    split at h
    · rename_i hc
      rw [ih h]
      simp only [Bool.or_eq_true, Bool.not_eq_true', bne_iff_ne, ne_eq, List.contains_iff_mem] at hc
      simp only [List.exists_mem_cons_iff]
      grind
    · rename_i hc
      split at h
      · cases h
      · rw [ih h]
        simp only [Bool.or_eq_true, Bool.not_eq_true', bne_iff_ne, ne_eq, List.contains_iff_mem]
          at hc
        simp only [List.mem_append, List.mem_singleton, List.exists_mem_cons_iff]
        grind

/-- The devices that have the MAC of an entry are. -/
theorem trackEntries_spec {s : RouterMacs} {is : List Nat}
    (h : trackEntries mem netdevs s is devs = (true, devs')) (d : Nat) :
    d ∈ devs' ↔ d ∈ devs ∨ ∃ i ∈ is, s.bm i = true ∧ ∃ dev ∈ netdevs, dev.ifindex = d ∧
      routerMacReceiver dev = true ∧ s.Carries i dev.mac := by
  induction is generalizing devs with
  | nil =>
    cases h
    simp
  | cons i is ih =>
    simp only [trackEntries] at h
    split at h
    · rename_i hb
      rw [ih h, List.exists_mem_cons_iff, or_iff_right (a := s.bm i = true ∧ _)]
      rintro ⟨hb', -⟩
      simp [hb'] at hb
    · rename_i hb
      split at h
      · rename_i hv
        rw [ih h, List.exists_mem_cons_iff, or_iff_right (a := s.bm i = true ∧ _)]
        rintro ⟨-, dev, -, -, -, hc⟩
        exact absurd hc.1 (by simpa using hv)
      · rename_i hv
        split at h
        · rename_i devs₁ htrack
          rw [ih h, routerMacTrack_spec htrack, or_assoc, List.exists_mem_cons_iff]
          refine or_congr_right (or_congr_left ⟨?_, ?_⟩)
          · rintro ⟨dev, hdev, hidx, hr, hmac⟩
            exact ⟨by simpa using hb, dev, hdev, hidx, hr, by simpa using hv, hmac.symm⟩
          · rintro ⟨-, dev, hdev, hidx, hr, -, hmac⟩
            exact ⟨dev, hdev, hidx, hr, hmac.symm⟩
        · cases h

/-- The devices that are gone are dropped, and the MACs are those of the others. -/
theorem collectMacs_spec {kept kept' : List Nat} {macs macs' : List (BitVec 64)}
    (h : collectMacs netdevs devs kept macs = (kept', some macs')) :
    kept' = kept ++ devs.filter (fun d => (devGetByIndex netdevs d).isSome) ∧
      ∀ mac, mac ∈ macs' ↔ mac ∈ macs ∨ ∃ d ∈ devs, ∃ dev, devGetByIndex netdevs d = some dev ∧
        dev.Receives ∧ dev.mac = mac := by
  induction devs generalizing kept macs with
  | nil =>
    cases h
    simp
  | cons d devs ih =>
    simp only [collectMacs] at h
    split at h
    · rename_i hd
      obtain ⟨hkept, hmem⟩ := ih h
      refine ⟨by simpa [hd] using hkept, fun mac => ?_⟩
      rw [hmem]
      simp [hd]
    · rename_i dev hd
      have hkeep : kept ++ (d :: devs).filter (fun d => (devGetByIndex netdevs d).isSome) =
          kept ++ [d] ++ devs.filter (fun d => (devGetByIndex netdevs d).isSome) := by
        simp [hd]
      have hown : ∀ mac, (∃ dev', devGetByIndex netdevs d = some dev' ∧ dev'.Receives ∧
          dev'.mac = mac) ↔ dev.Receives ∧ dev.mac = mac := by
        simp [hd]
      rw [hkeep]
      split at h
      · -- it has no MAC of its own
        rename_i hc
        obtain ⟨hkept, hmem⟩ := ih h
        have hno : ¬ dev.Receives := by
          rintro ⟨hvalid, hr⟩
          simp [hvalid, hr] at hc
        refine ⟨hkept, fun mac => ?_⟩
        rw [hmem, List.exists_mem_cons_iff, hown]
        simp only [hno, false_and, false_or]
      · rename_i hc
        simp only [Bool.or_eq_true, Bool.not_eq_true', not_or, Bool.not_eq_false] at hc
        have hr : dev.Receives := hc
        split at h
        · -- its MAC is another one's too
          rename_i hin
          obtain ⟨hkept, hmem⟩ := ih h
          refine ⟨hkept, fun mac => ?_⟩
          rw [List.contains_iff_mem] at hin
          rw [hmem, List.exists_mem_cons_iff, hown, and_iff_right hr]
          by_cases hm : dev.mac = mac
          · simp [← hm, hin]
          · simp only [hm, false_or]
        · split at h
          · cases h
          · obtain ⟨hkept, hmem⟩ := ih h
            refine ⟨hkept, fun mac => ?_⟩
            rw [hmem, List.exists_mem_cons_iff, hown, and_iff_right hr, List.mem_append,
              List.mem_singleton, or_assoc, eq_comm (a := mac)]

end Track

/-! ## Entries that stay -/

section Match

variable {macs : List (BitVec 64)} {mayFree : Bool}

/-- The entry is written back invalid. -/
def freed (s : RouterMacs) (macs : List (BitVec 64)) (mayFree : Bool) (i : Nat) : Bool :=
  s.bm i && !((getRouterMac (s.table i) {}).valid &&
    macs.contains (getRouterMac (s.table i) {}).mac) && mayFree

/-- What a round does to the entries, and to what was found. -/
def freeAt (macs : List (BitVec 64)) (mayFree : Bool) (s : RouterMacs) (i : Nat) : RouterMacs :=
  if freed s macs mayFree i then
    { s with table := Function.update s.table i (setRouterMac {}), bm := Function.update s.bm i false }
  else s

def foundAt (macs : List (BitVec 64)) (s : RouterMacs) (found : Nat → Bool) (i : Nat) : Nat → Bool :=
  if s.bm i && ((getRouterMac (s.table i) {}).valid && macs.contains (getRouterMac (s.table i) {}).mac)
  then Function.update found (macs.idxOf (getRouterMac (s.table i) {}).mac) true
  else found

theorem matchEntries_cons (i : Nat) (is : List Nat) (s : RouterMacs) (found : Nat → Bool) :
    matchEntries macs mayFree (i :: is) (s, found) =
      matchEntries macs mayFree is (freeAt macs mayFree s i, foundAt macs s found i) := by
  rw [matchEntries, freeAt, foundAt, freed]
  cases s.bm i with
  | false => rfl
  | true =>
    dsimp only
    cases (getRouterMac (s.table i) {}).valid && macs.contains (getRouterMac (s.table i) {}).mac with
    | true => rfl
    | false => cases mayFree <;> rfl

theorem freeAt_table (s : RouterMacs) (i j : Nat) : (freeAt macs mayFree s i).table j =
    if j = i ∧ freed s macs mayFree j then setRouterMac {} else s.table j := by
  unfold freeAt
  by_cases hji : j = i
  · subst hji
    cases freed s macs mayFree j <;> simp
  · cases freed s macs mayFree i <;> simp [hji]

theorem freeAt_bm (s : RouterMacs) (i j : Nat) : (freeAt macs mayFree s i).bm j =
    if j = i ∧ freed s macs mayFree j then false else s.bm j := by
  unfold freeAt
  by_cases hji : j = i
  · subst hji
    cases freed s macs mayFree j <;> simp
  · cases freed s macs mayFree i <;> simp [hji]

theorem freed_freeAt (s : RouterMacs) {i j : Nat} (hji : j ≠ i) :
    freed (freeAt macs mayFree s i) macs mayFree j = freed s macs mayFree j := by
  simp [freed, freeAt_table, freeAt_bm, hji]

/-- The loop frees the entries of no MAC. -/
theorem matchEntries_freed (macs : List (BitVec 64)) (mayFree : Bool) {is : List Nat}
    (hn : is.Nodup) (s : RouterMacs) (found : Nat → Bool) :
    let r := matchEntries macs mayFree is (s, found)
    (∀ i, r.1.table i = if i ∈ is ∧ freed s macs mayFree i then setRouterMac {} else s.table i) ∧
      (∀ i, r.1.bm i = if i ∈ is ∧ freed s macs mayFree i then false else s.bm i) ∧
      r.1.devs = s.devs := by
  induction is generalizing s found with
  | nil => simp [matchEntries]
  | cons i is ih =>
    rw [List.nodup_cons] at hn
    rw [matchEntries_cons]
    obtain ⟨htable, hbm, hdevs⟩ := ih hn.2 (freeAt macs mayFree s i) (foundAt macs s found i)
    refine ⟨fun j => ?_, fun j => ?_, ?_⟩
    · rw [htable, freeAt_table]
      by_cases hji : j = i
      · subst hji
        simp [hn.1]
      · simp [hji, freed_freeAt s hji]
    · rw [hbm, freeAt_bm]
      by_cases hji : j = i
      · subst hji
        simp [hn.1]
      · simp [hji, freed_freeAt s hji]
    · rw [hdevs, freeAt]
      split <;> rfl

/-- And it finds the MACs of the others. -/
theorem matchEntries_found (macs : List (BitVec 64)) (mayFree : Bool) {is : List Nat}
    (hn : is.Nodup) (s : RouterMacs) (found : Nat → Bool) (k : Nat) :
    (matchEntries macs mayFree is (s, found)).2 k = true ↔
      found k = true ∨ ∃ i ∈ is, s.bm i = true ∧ ∃ mac ∈ macs,
        s.Carries i mac ∧ macs.idxOf mac = k := by
  induction is generalizing s found with
  | nil => simp [matchEntries]
  | cons i is ih =>
    rw [List.nodup_cons] at hn
    have hsame : ∀ j ∈ is, (freeAt macs mayFree s i).bm j = s.bm j ∧
        (freeAt macs mayFree s i).table j = s.table j := by
      intro j hj
      have hji : j ≠ i := fun h => hn.1 (h ▸ hj)
      simp [freeAt_table, freeAt_bm, hji]
    have hfound : foundAt macs s found i k = true ↔ found k = true ∨ s.bm i = true ∧ ∃ mac ∈ macs,
        s.Carries i mac ∧ macs.idxOf mac = k := by
      unfold foundAt RouterMacs.Carries
      split
      · rename_i hc
        simp only [Bool.and_eq_true, List.contains_iff_mem] at hc
        rw [Function.update_apply]
        by_cases hk : k = macs.idxOf (getRouterMac (s.table i) {}).mac
        · rw [if_pos hk]
          exact ⟨fun _ => .inr ⟨hc.1, _, hc.2.2, ⟨hc.2.1, rfl⟩, hk.symm⟩, fun _ => rfl⟩
        · rw [if_neg hk]
          refine ⟨.inl, fun h => h.resolve_right ?_⟩
          rintro ⟨-, mac, -, ⟨-, rfl⟩, hidx⟩
          exact hk hidx.symm
      · rename_i hc
        simp only [Bool.and_eq_true, List.contains_iff_mem] at hc
        refine ⟨.inl, fun h => h.resolve_right ?_⟩
        rintro ⟨hb, mac, hmem, ⟨hv, rfl⟩, -⟩
        exact hc ⟨hb, hv, hmem⟩
    rw [matchEntries_cons, ih hn.2, hfound, or_assoc, List.exists_mem_cons_iff]
    refine or_congr_right (or_congr_right (exists_congr fun j => and_congr_right fun hj => ?_))
    simp only [RouterMacs.Carries, (hsame j hj).1, (hsame j hj).2]

variable {s : RouterMacs}

theorem matched_carries {found : Nat → Bool} {i : Nat} {mac : BitVec 64}
    (hc : (matchEntries macs mayFree (List.range maxRouterMacs) (s, found)).1.Carries i mac) :
    s.Carries i mac := by
  obtain ⟨htable, -⟩ := matchEntries_freed macs mayFree
    (List.nodup_range (n := maxRouterMacs)) s found
  rw [RouterMacs.Carries, htable] at hc
  split at hc
  · rw [getRouterMac_set_valid] at hc
    cases hc.1
  · exact hc

theorem matched_noDup {found : Nat → Bool} (hd : s.NoDup) :
    (matchEntries macs mayFree (List.range maxRouterMacs) (s, found)).1.NoDup :=
  fun i hi j hj mac hci hcj => hd i hi j hj mac (matched_carries hci) (matched_carries hcj)

/-- Every entry that stays is one of a MAC that was collected. -/
theorem matched_marked {found : Nat → Bool} {i : Nat} (hi : i < maxRouterMacs)
    (hb : (matchEntries macs true (List.range maxRouterMacs) (s, found)).1.bm i = true) :
    ∃ mac ∈ macs,
      (matchEntries macs true (List.range maxRouterMacs) (s, found)).1.Carries i mac := by
  obtain ⟨htable, hbm, -⟩ := matchEntries_freed macs true
    (List.nodup_range (n := maxRouterMacs)) s found
  rw [hbm] at hb
  split at hb
  · cases hb
  · rename_i hno
    have hkeep : freed s macs true i = false := by
      rw [← Bool.not_eq_true]
      exact fun hf => hno ⟨List.mem_range.2 hi, hf⟩
    simp only [freed, hb, Bool.true_and, Bool.and_true, Bool.not_eq_false', Bool.and_eq_true,
      List.contains_iff_mem] at hkeep
    refine ⟨_, hkeep.2, ?_⟩
    rw [RouterMacs.Carries, htable, if_neg hno]
    exact ⟨hkeep.1, rfl⟩

/-- A MAC that was found has an entry that stays. -/
theorem matched_found {mac : BitVec 64} {k : Nat} (hk : (mac, k) ∈ macs.zipIdx)
    (hf : (matchEntries macs mayFree (List.range maxRouterMacs) (s, fun _ => false)).2 k = true) :
    let r := matchEntries macs mayFree (List.range maxRouterMacs) (s, fun _ => false)
    ∃ i < maxRouterMacs, r.1.bm i = true ∧ r.1.Carries i mac := by
  obtain ⟨htable, hbm, -⟩ := matchEntries_freed macs mayFree
    (List.nodup_range (n := maxRouterMacs)) s (fun _ => false)
  rw [matchEntries_found macs mayFree List.nodup_range] at hf
  rcases hf with hf | ⟨i, hi, hb, mac', hmem, hc, hidx⟩
  · cases hf
  · rw [List.mk_mem_zipIdx_iff_getElem?] at hk
    have hmac : mac' = mac := by
      have hget : macs[macs.idxOf mac']? = some mac' := List.getElem?_idxOf hmem
      rw [hidx, hk] at hget
      exact (Option.some.inj hget).symm
    subst hmac
    have hkeep : freed s macs mayFree i = false := by
      simp only [freed, hb, hc.1, hc.2, Bool.true_and, List.contains_iff_mem.2 hmem, Bool.not_true,
        Bool.false_and]
    have hno : ¬(i ∈ List.range maxRouterMacs ∧ freed s macs mayFree i = true) := by
      rw [hkeep]
      simp
    refine ⟨i, List.mem_range.1 hi, ?_, ?_⟩
    · rw [hbm, if_neg hno]
      exact hb
    · rw [RouterMacs.Carries, htable, if_neg hno]
      exact hc

/-- An entry that was not written stays as it is. -/
theorem matched_same (macs : List (BitVec 64)) (mayFree : Bool) (s : RouterMacs)
    (found : Nat → Bool) {i : Nat} (hb : s.bm i = false ∨ mayFree = false) :
    (matchEntries macs mayFree (List.range maxRouterMacs) (s, found)).1.table i = s.table i := by
  obtain ⟨htable, -⟩ := matchEntries_freed macs mayFree
    (List.nodup_range (n := maxRouterMacs)) s found
  rw [htable, if_neg]
  rintro ⟨-, hf⟩
  rcases hb with hb | hb <;> simp [freed, hb] at hf

end Match

/-! ## Entries that are new -/

/-- What allocating entries for MACs that are missing does. -/
structure Grown (missing : BitVec 64 → Prop) (s s' : RouterMacs) : Prop where
  noDup : s'.NoDup
  devs : s'.devs = s.devs
  carries : ∀ i mac, s.Carries i mac → s'.Carries i mac
  marked : ∀ i, s.bm i = true → s'.bm i = true
  new : ∀ i, s'.bm i = true → s.bm i = true ∨ ∃ mac, missing mac ∧ s'.Carries i mac
  same : ∀ i, s.Valid i → (∀ mac, missing mac → ¬s.Carries i mac) → s'.table i = s.table i

section Grow

variable {missing : BitVec 64 → Prop} {s s' s'' : RouterMacs} {mac : BitVec 64}

theorem Grown.refl (hd : s.NoDup) : Grown missing s s where
  noDup := hd
  devs := rfl
  carries _ _ h := h
  marked _ h := h
  new _ h := .inl h
  same _ _ _ := rfl

theorem Grown.trans (h : Grown missing s s') (h' : Grown missing s' s'') :
    Grown missing s s'' where
  noDup := h'.noDup
  devs := h'.devs.trans h.devs
  carries i mac hc := h'.carries i mac (h.carries i mac hc)
  marked i hb := h'.marked i (h.marked i hb)
  new i hb := by
    rcases h'.new i hb with hb | hnew
    · rcases h.new i hb with hb | ⟨mac, hm, hc⟩
      · exact .inl hb
      · exact .inr ⟨mac, hm, h'.carries i mac hc⟩
    · exact .inr hnew
  same i hv hno := by
    have hcar : s'.Carries i (getRouterMac (s.table i) {}).mac := h.carries i _ ⟨hv, rfl⟩
    rw [h'.same i hcar.1, h.same i hv hno]
    rintro mac hm ⟨-, hc⟩
    exact hno mac hm ⟨hv, hcar.2.symm.trans hc⟩

/-- A new entry. -/
theorem grown_write {i : Nat} (hd : s.NoDup) (hm : mac.toNat < 2 ^ 48) (hmiss : missing mac)
    (hi : i < maxRouterMacs)
    (hcar : s.Carries i mac ∨ ¬s.Valid i ∧ ∀ j < maxRouterMacs, ¬s.Carries j mac) :
    Grown missing s (s.write i mac) where
  noDup := noDup_write hm hi hd hcar
  devs := rfl
  carries j m hc := by
    rw [carries_write hm]
    split
    · rename_i hji
      subst hji
      rcases hcar with hcar | ⟨hfree, -⟩
      · exact hcar.2.symm.trans hc.2
      · exact absurd hc.1 hfree
    · exact hc
  marked j hb := by
    simp [RouterMacs.write, Function.update_apply, hb]
  new j hb := by
    rcases eq_or_ne j i with rfl | hji
    · exact .inr ⟨mac, hmiss, (carries_write hm).2 (by rw [if_pos rfl])⟩
    · exact .inl (by simpa only [RouterMacs.write, Function.update_of_ne hji] using hb)
  same j hv hno := by
    have hji : j ≠ i := by
      rintro rfl
      rcases hcar with hcar | ⟨hfree, -⟩
      · exact hno mac hmiss hcar
      · exact hfree hv
    simp only [RouterMacs.write, Function.update_of_ne hji]

variable {found : Nat → Bool}

theorem allocMissing_false (found : Nat → Bool) (macs : List (BitVec 64 × Nat)) (s : RouterMacs) :
    (allocMissing found macs (false, s)).1 = false := by
  induction macs generalizing s with
  | nil => rfl
  | cons p macs ih =>
    obtain ⟨mac, k⟩ := p
    simp only [allocMissing]
    split <;> exact ih _

/-- Each MAC that is missing gets an entry. -/
theorem allocMissing_spec (missing : BitVec 64 → Prop) {macs : List (BitVec 64 × Nat)}
    (h : allocMissing found macs (true, s) = (true, s')) (hd : s.NoDup)
    (hmacs : ∀ p ∈ macs, p.1.toNat < 2 ^ 48)
    (hmiss : ∀ p ∈ macs, found p.2 = false → missing p.1) :
    Grown missing s s' ∧ ∀ p ∈ macs, found p.2 = false →
      ∃ i < maxRouterMacs, s'.bm i = true ∧ s'.Carries i p.1 := by
  induction macs generalizing s with
  | nil =>
    cases h
    exact ⟨.refl hd, by simp⟩
  | cons p macs ih =>
    obtain ⟨mac, k⟩ := p
    rw [List.forall_mem_cons] at hmacs hmiss
    simp only [allocMissing] at h
    split at h
    · rename_i hk
      obtain ⟨hgrown, hall⟩ := ih h hd hmacs.2 hmiss.2
      refine ⟨hgrown, List.forall_mem_cons.2 ⟨fun hf => ?_, hall⟩⟩
      rw [hf] at hk
      cases hk
    · rename_i hk
      rw [Bool.not_eq_true] at hk
      cases halloc : allocRouterMac s mac with
      | mk done s₁ =>
        rw [halloc, Bool.true_and] at h
        cases done with
        | false =>
          have hfalse := allocMissing_false found macs s₁
          rw [h] at hfalse
          cases hfalse
        | true =>
          obtain ⟨i, hi, rfl, hcar⟩ := allocRouterMac_spec halloc
          have hstep := grown_write hd hmacs.1 (hmiss.1 hk) hi hcar
          obtain ⟨hgrown, hall⟩ := ih h hstep.noDup hmacs.2 hmiss.2
          refine ⟨hstep.trans hgrown, List.forall_mem_cons.2 ⟨fun _ => ⟨i, hi, ?_, ?_⟩, hall⟩⟩
          · exact hgrown.marked i (by simp [RouterMacs.write])
          · exact hgrown.carries i mac ((carries_write hmacs.1).2 (by rw [if_pos rfl]))

/-- An entry that is in use stays so, even where no room is found for some MAC. -/
theorem allocMissing_valid (macs : List (BitVec 64 × Nat)) (ok : Bool) {i : Nat}
    (hv : s.Valid i) : (allocMissing found macs (ok, s)).2.Valid i := by
  induction macs generalizing s ok with
  | nil => exact hv
  | cons p macs ih =>
    obtain ⟨mac, k⟩ := p
    simp only [allocMissing]
    split
    · exact ih ok hv
    · cases halloc : allocRouterMac s mac with
      | mk done s₁ =>
        cases done with
        | false =>
          rw [allocRouterMac_fail halloc]
          exact ih _ hv
        | true =>
          obtain ⟨j, -, rfl, -⟩ := allocRouterMac_spec halloc
          exact ih _ (valid_write.2 (.inr hv))

end Grow

/-! ## A sync -/

/-- One of these devices is there and receives on this MAC of its own. -/
def Followed (netdevs : List NetDev) (devs : List Nat) (mac : BitVec 64) : Prop :=
  ∃ d ∈ devs, ∃ dev, devGetByIndex netdevs d = some dev ∧ dev.Receives ∧ dev.mac = mac

section Sync

variable {mem : Nat → Bool} {netdevs : List NetDev} {s s' : RouterMacs}

theorem followed_lt {devs : List Nat} {mac : BitVec 64} (h : Followed netdevs devs mac) :
    mac.toNat < 2 ^ 48 := by
  obtain ⟨d, -, dev, -, -, rfl⟩ := h
  rw [NetDev.mac, BitVec.toNat_setWidth]
  exact lt_of_le_of_lt (Nat.mod_le _ _) dev.devAddr.isLt

/-- The parts of a sync that completes. -/
theorem routerMacSync_parts {mayFree : Bool}
    (h : routerMacSync mem netdevs s mayFree = (true, s')) :
    ∃ devs kept macs, trackEntries mem netdevs s (List.range maxRouterMacs) s.devs = (true, devs) ∧
      collectMacs netdevs devs [] [] = (kept, some macs) ∧
      allocMissing (matchEntries macs mayFree (List.range maxRouterMacs)
          ({ s with devs := kept }, fun _ => false)).2 macs.zipIdx
        (true, (matchEntries macs mayFree (List.range maxRouterMacs)
          ({ s with devs := kept }, fun _ => false)).1) = (true, s') := by
  simp only [routerMacSync] at h
  split at h
  · cases h
  · rename_i devs htrack
    split at h
    · cases h
    · rename_i kept macs hcollect
      exact ⟨devs, kept, macs, htrack, hcollect, h⟩

/-- What a sync that completes leaves. -/
theorem routerMacSync_grown {mayFree : Bool}
    (h : routerMacSync mem netdevs s mayFree = (true, s')) (hd : s.NoDup) :
    ∃ macs, (∀ mac, mac ∈ macs ↔ Followed netdevs s'.devs mac) ∧
      (∀ d, d ∈ s'.devs ↔ (devGetByIndex netdevs d).isSome = true ∧ (d ∈ s.devs ∨
        ∃ i < maxRouterMacs, s.bm i = true ∧ ∃ dev ∈ netdevs, dev.ifindex = d ∧
          routerMacReceiver dev = true ∧ s.Carries i dev.mac)) ∧
      let r := matchEntries macs mayFree (List.range maxRouterMacs)
        ({ s with devs := s'.devs }, fun _ => false)
      Grown (fun mac => ∃ k, (mac, k) ∈ macs.zipIdx ∧ r.2 k = false) r.1 s' ∧
        ∀ p ∈ macs.zipIdx, r.2 p.2 = false →
          ∃ i < maxRouterMacs, s'.bm i = true ∧ s'.Carries i p.1 := by
  obtain ⟨devs, kept, macs, htrack, hcollect, halloc⟩ := routerMacSync_parts h
  obtain ⟨hkept, hmacs⟩ := collectMacs_spec hcollect
  have hfollowed : ∀ mac, mac ∈ macs ↔ Followed netdevs kept mac := by
    intro mac
    rw [hmacs, hkept]
    simp only [Followed, List.not_mem_nil, false_or, List.nil_append, List.mem_filter]
    grind
  obtain ⟨hgrown, hall⟩ := allocMissing_spec
    (fun mac => ∃ k, (mac, k) ∈ macs.zipIdx ∧ (matchEntries macs mayFree
      (List.range maxRouterMacs) ({ s with devs := kept }, fun _ => false)).2 k = false) halloc
    (matched_noDup hd)
    (fun p hp => followed_lt ((hfollowed p.1).1 (List.fst_mem_of_mem_zipIdx hp)))
    (fun p hp hf => ⟨p.2, hp, hf⟩)
  have hdevs : s'.devs = kept := by
    obtain ⟨-, -, hsame⟩ := matchEntries_freed macs mayFree
      (List.nodup_range (n := maxRouterMacs)) { s with devs := kept } (fun _ => false)
    rw [hgrown.devs, hsame]
  rw [hdevs]
  refine ⟨macs, hfollowed, fun d => ?_, hgrown, hall⟩
  rw [hkept, List.nil_append, List.mem_filter, trackEntries_spec htrack]
  simp only [List.mem_range]
  exact and_comm

/-- After a sync that completes the entries that are marked are those of the devices that are
followed, each MAC is there once, and the entries of others are as they were. Without `mayFree`
no entry is ever given up. -/
theorem routerMacSync_follows (mem : Nat → Bool) (netdevs : List NetDev) (s : RouterMacs) :
    (∀ s', s.NoDup → routerMacSync mem netdevs s true = (true, s') →
      (∀ d, d ∈ s'.devs ↔ (devGetByIndex netdevs d).isSome = true ∧ (d ∈ s.devs ∨
        ∃ i < maxRouterMacs, s.bm i = true ∧ ∃ dev ∈ netdevs, dev.ifindex = d ∧
          routerMacReceiver dev = true ∧ s.Carries i dev.mac)) ∧
      (∀ i < maxRouterMacs, s'.bm i = true →
        ∃ mac, Followed netdevs s'.devs mac ∧ s'.Carries i mac) ∧
      (∀ mac, Followed netdevs s'.devs mac →
        ∃! i, i < maxRouterMacs ∧ s'.bm i = true ∧ s'.Carries i mac) ∧
      s'.NoDup ∧
      ∀ i < maxRouterMacs, s.Valid i → s.bm i = false →
        (∀ mac, Followed netdevs s'.devs mac → ¬s.Carries i mac) → s'.table i = s.table i) ∧
    ∀ i < maxRouterMacs, s.Valid i → (routerMacSync mem netdevs s false).2.Valid i := by
  constructor
  · intro s' hd h
    obtain ⟨macs, hmacs, hdevs, hgrown, hall⟩ := routerMacSync_grown h hd
    refine ⟨hdevs, fun i hi hb => ?_, fun mac hmac => ?_, hgrown.noDup,
      fun i hi hv hb hno => ?_⟩
    · -- it stayed, or it is new
      rcases hgrown.new i hb with hb | ⟨mac, ⟨k, hk, -⟩, hc⟩
      · obtain ⟨mac, hmem, hc⟩ := matched_marked hi hb
        exact ⟨mac, (hmacs mac).1 hmem, hgrown.carries i mac hc⟩
      · exact ⟨mac, (hmacs mac).1 (List.fst_mem_of_mem_zipIdx hk), hc⟩
    · have hex : ∃ i < maxRouterMacs, s'.bm i = true ∧ s'.Carries i mac := by
        obtain ⟨k, hk⟩ := List.mem_iff_getElem?.1 ((hmacs mac).2 hmac)
        rw [← List.mk_mem_zipIdx_iff_getElem?] at hk
        by_cases hf : (matchEntries macs true (List.range maxRouterMacs)
            ({ s with devs := s'.devs }, fun _ => false)).2 k = true
        · obtain ⟨i, hi, hb, hc⟩ := matched_found hk hf
          exact ⟨i, hi, hgrown.marked i hb, hgrown.carries i mac hc⟩
        · rw [Bool.not_eq_true] at hf
          exact hall (mac, k) hk hf
      obtain ⟨i, hi, hb, hc⟩ := hex
      exact ⟨i, ⟨hi, hb, hc⟩, fun j hj => hgrown.noDup j hj.1 i hi mac hj.2.2 hc⟩
    · have hsame := matched_same macs true { s with devs := s'.devs } (fun _ => false) (.inl hb)
      rw [hgrown.same i, hsame]
      · rw [RouterMacs.Valid, hsame]
        exact hv
      · rintro mac ⟨k, hk, -⟩ hc
        have hold := matched_carries hc
        exact hno mac ((hmacs mac).1 (List.fst_mem_of_mem_zipIdx hk)) ⟨hold.1, hold.2⟩
  · intro i _ hv
    simp only [routerMacSync]
    split
    · exact hv
    · split
      · exact hv
      · apply allocMissing_valid
        rw [RouterMacs.Valid, matched_same _ _ _ _ (.inr rfl)]
        exact hv

end Sync

/-- A table without entries, and two devices that are followed. -/
def noEntries : RouterMacs where
  table _ := setRouterMac {}
  bm _ := false
  devs := [3, 9]

theorem noEntries_not_valid (i : Nat) : ¬noEntries.Valid i := by
  rw [RouterMacs.Valid, noEntries, getRouterMac_set_valid]
  exact Bool.false_ne_true

/-- It has one entry of the bootloader and one of the driver. -/
def movedMac : RouterMacs :=
  { (noEntries.write 1 0x00e04c000099).write 0 0x00e04c000001 with bm := fun i => i == 0 }

/-- The second device is gone, and the first one has another MAC. -/
def movedDevs : List NetDev := [{ ifindex := 3, devAddr := 0x00e04c000002 }]

theorem movedMac_noDup : movedMac.NoDup := by
  have hnone : noEntries.NoDup := fun i _ _ _ _ hc => absurd hc.1 (noEntries_not_valid i)
  have hfirst := noDup_write (i := 1) (show (0x00e04c000099 : BitVec 64).toNat < 2 ^ 48 by decide)
    (by decide) hnone
    (.inr ⟨noEntries_not_valid 1, fun j _ hc => noEntries_not_valid j hc.1⟩)
  have hother : ∀ j, ¬(noEntries.write 1 0x00e04c000099).Carries j 0x00e04c000001 := by
    intro j hc
    rw [carries_write (by decide)] at hc
    split at hc
    · cases hc
    · exact noEntries_not_valid j hc.1
  exact noDup_write (i := 0) (show (0x00e04c000001 : BitVec 64).toNat < 2 ^ 48 by decide)
    (by decide) hfirst
    (.inr ⟨by decide +kernel, fun j _ => hother j⟩)

/-- The MAC that the device has now is in the table once, and the bootloader's entry stays. -/
theorem movedMac_follows : let s := (routerMacSync (fun _ => true) movedDevs movedMac true).2
    s.devs = [3] ∧ (∃! i, i < maxRouterMacs ∧ s.bm i = true ∧ s.Carries i 0x00e04c000002) ∧
      s.NoDup ∧ s.table 1 = movedMac.table 1 := by
  obtain ⟨-, -, honce, hdup, hsame⟩ :=
    (routerMacSync_follows (fun _ => true) movedDevs movedMac).1 _ movedMac_noDup
      (Prod.ext (by decide +kernel) rfl)
  have hdev : devGetByIndex movedDevs 3 = some { ifindex := 3, devAddr := 0x00e04c000002 } := rfl
  refine ⟨by decide +kernel, honce _ ⟨3, by decide +kernel, _, hdev, by decide, rfl⟩, hdup,
    hsame 1 (by decide) (by decide +kernel) rfl ?_⟩
  rintro mac ⟨d, -, dev, hdev, -, rfl⟩
  have hmem := List.mem_of_find?_eq_some hdev
  rw [movedDevs, List.mem_singleton] at hmem
  subst hmem
  decide +kernel

end Lede.Otto
