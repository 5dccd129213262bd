/-
Lede.Otto.EgressIntfTheorems — routes follow the MAC of their device (`rtl83xx/l3.c`).

`EgressOk` is what every event keeps: an interface that a route names is counted for it, has a
source MAC and the VLAN of the route, and the next hop of the route names it too. `Moved` is what a
sync does to the routes and their interfaces; each route that it has passed has the new MAC.
-/
import Lede.Otto.EgressIntf
import Lede.Otto.L2TableTheorems
import Lede.Otto.L3RouteTheorems

namespace Lede.Otto

open Lede.Lib.BitField Lede.Lib.Packed

/-! ## Entries -/

/-- The values of an interface fit the fields of its words. -/
structure L3Intf.Fits (intf : L3Intf) : Prop where
  vid : intf.vid.toNat < 2 ^ 12
  smacIdx : intf.smacIdx.toNat < 2 ^ 6
  ip4MtuId : intf.ip4MtuId.toNat < 2 ^ 3
  ip6MtuId : intf.ip6MtuId.toNat < 2 ^ 3
  ip4IcmpRedirect : intf.ip4IcmpRedirect.toNat < 2 ^ 3
  ip6IcmpRedirect : intf.ip6IcmpRedirect.toNat < 2 ^ 3
  ip4PbrIcmpRedirect : intf.ip4PbrIcmpRedirect.toNat < 2 ^ 3
  ip6PbrIcmpRedirect : intf.ip6PbrIcmpRedirect.toNat < 2 ^ 3

def intfParts (intf : L3Intf) : List (Part 32) :=
  [⟨9, 12, intf.vid.setWidth 32⟩, ⟨3, 6, intf.smacIdx.setWidth 32⟩,
    ⟨0, 3, intf.ip4MtuId.setWidth 32⟩]

def actionParts (intf : L3Intf) : List (Part 32) :=
  [⟨28, 3, intf.ip6MtuId.setWidth 32⟩, ⟨20, 8, intf.ttlScope.setWidth 32⟩,
    ⟨12, 8, intf.hlScope.setWidth 32⟩, ⟨9, 3, intf.ip4IcmpRedirect.setWidth 32⟩,
    ⟨6, 3, intf.ip6IcmpRedirect.setWidth 32⟩, ⟨3, 3, intf.ip4PbrIcmpRedirect.setWidth 32⟩,
    ⟨0, 3, intf.ip6PbrIcmpRedirect.setWidth 32⟩]

theorem intfParts_laid (intf : L3Intf) : Laid (intfParts intf) := of_decide_eq_true rfl

theorem actionParts_laid (intf : L3Intf) : Laid (actionParts intf) := of_decide_eq_true rfl

theorem setEgressIntf_eq (intf : L3Intf) :
    setEgressIntf intf = #v[pack (intfParts intf), pack (actionParts intf)] := by
  simp only [intfParts, actionParts, pack_cons, List.foldl_cons, List.foldl_nil, word_mk]
  rfl

/-- An interface is read back as it was written. -/
theorem getEgressIntf_set {intf : L3Intf} (h : intf.Fits) :
    getEgressIntf (setEgressIntf intf) = intf := by
  have h0 := intfParts_laid intf
  have h1 := actionParts_laid intf
  rw [setEgressIntf_eq]
  change L3Intf.mk ((bits (pack (intfParts intf)) 9 12).setWidth 16)
    ((bits (pack (intfParts intf)) 3 6).setWidth 8) ((bits (pack (intfParts intf)) 0 3).setWidth 8)
    ((bits (pack (actionParts intf)) 28 3).setWidth 8)
    ((bits (pack (actionParts intf)) 20 8).setWidth 8)
    ((bits (pack (actionParts intf)) 12 8).setWidth 8)
    ((bits (pack (actionParts intf)) 9 3).setWidth 8)
    ((bits (pack (actionParts intf)) 6 3).setWidth 8)
    ((bits (pack (actionParts intf)) 3 3).setWidth 8)
    ((bits (pack (actionParts intf)) 0 3).setWidth 8) = intf
  rw [bits_pack (by decide) h.vid h0 (by simp [intfParts]),
    bits_pack (by decide) h.smacIdx h0 (by simp [intfParts]),
    bits_pack (by decide) h.ip4MtuId h0 (by simp [intfParts]),
    bits_pack (by decide) h.ip6MtuId h1 (by simp [actionParts]),
    bits_pack (by decide) intf.ttlScope.isLt h1 (by simp [actionParts]),
    bits_pack (by decide) intf.hlScope.isLt h1 (by simp [actionParts]),
    bits_pack (by decide) h.ip4IcmpRedirect h1 (by simp [actionParts]),
    bits_pack (by decide) h.ip6IcmpRedirect h1 (by simp [actionParts]),
    bits_pack (by decide) h.ip4PbrIcmpRedirect h1 (by simp [actionParts]),
    bits_pack (by decide) h.ip6PbrIcmpRedirect h1 (by simp [actionParts])]

theorem newIntf_fits {vlan : BitVec 16} {i : Nat} (hv : vlan.toNat < 4096) (hi : i < maxSmacs) :
    (newIntf vlan i).Fits := by
  have hi : i < 64 := hi
  constructor <;> simp [newIntf] <;> omega

theorem nexthopInterface_word {k : Nat} (d : BitVec 16) (hk : k < maxSmacs) :
    nexthopInterface (nexthopWord d (some k)) = k := by
  have hk' : k < 64 := hk
  have hlaid : Laid [(⟨7, 15, d.setWidth 32⟩ : Part 32), ⟨0, 7, (BitVec.ofNat 16 k).setWidth 32⟩] :=
    of_decide_eq_true rfl
  have hval : ((BitVec.ofNat 16 k).setWidth 32 : BitVec 32).toNat = k := by
    simp only [BitVec.toNat_setWidth, BitVec.toNat_ofNat]
    omega
  have hread := read_pack hlaid (x := ⟨0, 7, (BitVec.ofNat 16 k).setWidth 32⟩) (by simp)
  simp only [pack_cons, List.foldl_cons, List.foldl_nil, word_mk, BitVec.ushiftRight_zero,
    BitVec.shiftLeft_zero] at hread
  rw [nexthopInterface, nexthopWord, Option.elim, hread, and_low_of_lt (by omega), hval]

/-! ## The VLAN of a next hop -/

theorem rvid_of_seed {mac : BitVec 64} {m : Mac} {v v' : BitVec 16} (hm : mac.toNat < 2 ^ 48)
    (hv' : v'.toNat < 2 ^ 12)
    (h : seedOf (hashSeed .rtl930x (etherAddrToU64 m) v') = hashSeed .rtl930x mac v) : v' = v := by
  rw [seedOf_hashSeed _ _ hv'] at h
  apply BitVec.eq_of_getLsbD_eq
  intro i hi
  have hbit := congrArg (·.getLsbD (48 + i)) h
  have hlow := getLsbD_eq_false hm (48 + i) (by omega)
  have hlow' := getLsbD_etherAddrToU64 m (48 + i) (by omega)
  simp only [hashSeed, BitVec.getLsbD_or, BitVec.getLsbD_shiftLeft, BitVec.getLsbD_setWidth, hlow,
    hlow'] at hbit
  simpa [show 48 + i < 64 by omega, show i < 64 by omega, show ¬48 + i < 48 by omega] using hbit

theorem fillEntry930x_rvid_lt {r : L2Row} {e : L2Entry}
    (hv : (fillEntry .rtl930x r e).valid = true) :
    (fillEntry .rtl930x r e).rvid.toNat < 2 ^ 12 := by
  have hrvid : (fillEntry .rtl930x r e).rvid = (r.r1 &&& low 12).setWidth 16 := by
    simp only [fillEntry, fillEntry930x] at hv ⊢
    split at hv
    · cases hv
    · rename_i hbit
      rw [if_neg hbit]
      split <;> rfl
  rw [hrvid]
  apply toNat_lt_of_getLsbD
  intro i hi
  simp only [BitVec.getLsbD_setWidth, BitVec.getLsbD_and, getLsbD_low]
  simp [show ¬i < 12 by omega]

theorem findHashLoop_rvid {rows : Nat → L2Row} {key : BitVec 32} {mac : BitVec 64} {v : BitVec 16}
    (hm : mac.toNat < 2 ^ 48) {is : List Nat} {free free' : Option Nat} {e e' : L2Entry} {i : Nat}
    (h : findHashLoop .rtl930x rows key (hashSeed .rtl930x mac v) is free e = (some i, free', e')) :
    e'.rvid = v := by
  induction is generalizing free e with
  | nil => cases h
  | cons k is ih =>
    simp only [findHashLoop] at h
    split at h
    · exact ih h
    · rename_i hval
      rw [Bool.not_eq_true, Bool.not_eq_false'] at hval
      split at h
      · rename_i hseed
        cases h
        rw [hashValue, hval] at hseed
        exact rvid_of_seed hm (fillEntry930x_rvid_lt hval) hseed
      · exact ih h

/-- The entry that is found has the VLAN that it was looked up with. -/
theorem nexthopAdd_rvid (ctrl : BitVec 32) (l2 : L2State) {nh : Nexthop}
    (hm : nh.mac.toNat < 2 ^ 48) : (nexthopAdd .rtl930x ctrl l2 nh).2.2.rvid = nh.rvid := by
  simp only [nexthopAdd]
  split
  · rfl
  · rename_i idx e hfind
    split
    · rfl
    · rename_i hval
      simp only [findHashEntry] at hfind
      split at hfind
      · rename_i hloop
        cases hfind
        exact findHashLoop_rvid hm hloop
      · cases hfind
      · cases hfind
        exact absurd rfl hval

/-! ## Routes and interfaces -/

/-- The number of routes that name the interface. -/
def EgressState.holders (s : EgressState) (k : Nat) : Nat :=
  s.routes.countP (·.ifId == some k)

/-- What every event keeps. -/
structure EgressOk (s : EgressState) : Prop where
  ids : (s.routes.map (·.id)).Nodup
  used : ∀ r ∈ s.routes, s.routeUse r.id = true
  counted : ∀ k, s.holders k ≤ s.intfRefs k
  named : ∀ r ∈ s.routes, ∀ k, r.ifId = some k →
    k < maxSmacs ∧ s.smacs k ≠ 0 ∧ (s.interfaces k).vid = r.vlan
  written : ∀ k < maxSmacs, s.smacs k ≠ 0 →
    getEgressIntf (s.egress k) = s.interfaces k ∧ (s.interfaces k).smacIdx = BitVec.ofNat 8 k
  vlan : ∀ r ∈ s.routes, r.nh.rvid = r.vlan ∧ r.vlan.toNat < 4096
  next : ∀ r ∈ s.routes, r.gw ≠ 0 → ∀ k, r.ifId = some k →
    r.nhId = r.id ∧ nexthopInterface (s.nexthops r.id) = k

section Routes

variable {s s' : EgressState} {io : Io} {mac : BitVec 64} {vlan : BitVec 16} {p k : Nat}
variable {r r' : EgressRoute}

theorem holders_set (hp : s.routes[p]? = some r) (r' : EgressRoute) (k : Nat) :
    (s.routes.set p r').countP (·.ifId == some k) + (if r.ifId = some k then 1 else 0) =
      s.holders k + (if r'.ifId = some k then 1 else 0) := by
  obtain ⟨hlt, rfl⟩ := List.getElem?_eq_some_iff.1 hp
  rw [List.countP_set hlt, EgressState.holders]
  have hle : (if s.routes[p].ifId = some k then 1 else 0) ≤ s.routes.countP (·.ifId == some k) := by
    split
    · rename_i h
      exact List.countP_pos_iff.2 ⟨s.routes[p], List.getElem_mem hlt, by simp [h]⟩
    · exact Nat.zero_le _
  simp only [beq_iff_eq]
  omega

theorem holders_erase (hr : r ∈ s.routes) (k : Nat) :
    (s.routes.erase r).countP (·.ifId == some k) + (if r.ifId = some k then 1 else 0) =
      s.holders k := by
  have hperm := (List.perm_cons_erase hr).countP_eq (fun q => q.ifId == some k)
  rw [EgressState.holders, hperm, List.countP_cons]
  simp only [beq_iff_eq]

/-- The route that is replaced keeps its id, and no other one has it. -/
theorem mem_set (hids : (s.routes.map (·.id)).Nodup) (hp : s.routes[p]? = some r)
    {q : EgressRoute} (hq : q ∈ s.routes.set p r') : q = r' ∨ q ∈ s.routes ∧ q.id ≠ r.id := by
  obtain ⟨j, hj⟩ := List.mem_iff_getElem?.1 hq
  rw [List.getElem?_set] at hj
  split at hj
  · split at hj
    · cases hj
      exact .inl rfl
    · cases hj
  · rename_i hne
    refine .inr ⟨List.mem_of_getElem? hj, fun hid => hne ?_⟩
    have hj' : (s.routes.map (·.id))[j]? = some r.id := by rw [List.getElem?_map, hj, ← hid]; rfl
    have hp' : (s.routes.map (·.id))[p]? = some r.id := by rw [List.getElem?_map, hp]; rfl
    obtain ⟨hlt, -⟩ := List.getElem?_eq_some_iff.1 hp'
    exact (List.getElem?_inj hlt hids).1 (hp'.trans hj'.symm)

theorem map_id_set (hp : s.routes[p]? = some r) (hid : r'.id = r.id) :
    (s.routes.set p r').map (·.id) = s.routes.map (·.id) := by
  obtain ⟨hlt, rfl⟩ := List.getElem?_eq_some_iff.1 hp
  have hself := List.set_getElem_self (by simpa using hlt : p < (s.routes.map (·.id)).length)
  rw [List.getElem_map] at hself
  rw [List.map_set, hid, hself]

/-! ### Taking an interface -/

/-- The interface that is used again has the MAC and the VLAN, and the free one no MAC. -/
theorem findEgressIntf_spec {read : Nat → Bool} {is : List Nat} {free : Option Nat}
    (o : Option Nat × Option Nat) (h : findEgressIntf read s mac vlan is free = o)
    (hfree : ∀ f, free = some f → s.smacs f = 0) :
    (∀ i, o.1 = some i → i ∈ is ∧ s.smacs i = mac ∧ (s.interfaces i).vid = vlan) ∧
      ∀ i, o.1 = none → o.2 = some i → (i ∈ is ∨ free = some i) ∧ s.smacs i = 0 := by
  induction is generalizing free with
  | nil =>
    subst h
    refine ⟨by simp [findEgressIntf], fun i _ hi => ⟨.inr hi, hfree i hi⟩⟩
  | cons k is ih =>
    simp only [findEgressIntf] at h
    have hmono : ∀ {free' : Option Nat}, (free' = free ∨ free' = some k) →
        ((∀ i, o.1 = some i → i ∈ is ∧ s.smacs i = mac ∧ (s.interfaces i).vid = vlan) ∧
          ∀ i, o.1 = none → o.2 = some i → (i ∈ is ∨ free' = some i) ∧ s.smacs i = 0) →
        (∀ i, o.1 = some i → i ∈ k :: is ∧ s.smacs i = mac ∧ (s.interfaces i).vid = vlan) ∧
          ∀ i, o.1 = none → o.2 = some i → (i ∈ k :: is ∨ free = some i) ∧ s.smacs i = 0 := by
      rintro free' hf ⟨h1, h2⟩
      refine ⟨fun i hi => ⟨List.mem_cons_of_mem k (h1 i hi).1, (h1 i hi).2⟩, fun i hn hi => ?_⟩
      obtain ⟨hmem, hz⟩ := h2 i hn hi
      refine ⟨?_, hz⟩
      rcases hmem with hmem | hmem
      · exact .inl (List.mem_cons_of_mem k hmem)
      · rcases hf with rfl | rfl
        · exact .inr hmem
        · cases hmem
          exact .inl List.mem_cons_self
    split at h
    · exact hmono (.inl rfl) (ih h hfree)
    · split at h
      · rename_i hz
        simp only [Bool.and_eq_true, beq_iff_eq] at hz
        exact hmono (.inr rfl) (ih h (by rintro f ⟨⟩; exact hz.2))
      · split at h
        · rename_i hm
          simp only [Bool.and_eq_true, beq_iff_eq] at hm
          subst h
          refine ⟨?_, by simp⟩
          rintro i ⟨⟩
          exact ⟨List.mem_cons_self, hm⟩
        · exact hmono (.inl rfl) (ih h hfree)

/-- What taking and giving up interfaces leaves as it is. -/
structure Kept (s s' : EgressState) : Prop where
  routes : s'.routes = s.routes
  routeUse : s'.routeUse = s.routeUse
  nexthops : s'.nexthops = s.nexthops
  intf : ∀ r ∈ s.routes, ∀ k, r.ifId = some k →
    s'.smacs k = s.smacs k ∧ s'.egress k = s.egress k ∧ s'.interfaces k = s.interfaces k

theorem EgressOk.kept (h : EgressOk s) (hk : Kept s s')
    (hcounted : ∀ k, s.holders k ≤ s'.intfRefs k)
    (hwritten : ∀ k < maxSmacs, s'.smacs k ≠ 0 → getEgressIntf (s'.egress k) = s'.interfaces k ∧
      (s'.interfaces k).smacIdx = BitVec.ofNat 8 k) : EgressOk s' where
  ids := by rw [hk.routes]; exact h.ids
  used := by rw [hk.routes, hk.routeUse]; exact h.used
  counted k := by
    rw [EgressState.holders, hk.routes]
    exact hcounted k
  named r hr k hk' := by
    rw [hk.routes] at hr
    obtain ⟨hs, -, hi⟩ := hk.intf r hr k hk'
    rw [hs, hi]
    exact h.named r hr k hk'
  written := hwritten
  vlan := by rw [hk.routes]; exact h.vlan
  next := by rw [hk.routes, hk.nexthops]; exact h.next

/-- The interface that is taken has the MAC and the VLAN, and one hold more than routes. -/
theorem allocEgressIntf_spec (h : EgressOk s) (hv : vlan.toNat < 4096) {o : Option Nat}
    (halloc : allocEgressIntf io s mac vlan = (o, s')) :
    EgressOk s' ∧ Kept s s' ∧ ∀ k, o = some k → k < maxSmacs ∧ s'.smacs k = mac ∧
      (s'.interfaces k).vid = vlan ∧ s.holders k < s'.intfRefs k := by
  obtain ⟨hsame, hnew⟩ := findEgressIntf_spec
    (findEgressIntf io.read s mac vlan (List.range maxSmacs) none) rfl (by simp)
  have hle : ∀ i k, s.holders k ≤ Function.update s.intfRefs i (s.intfRefs i + 1) k := by
    intro i k
    rw [Function.update_apply]
    split
    · rename_i hki
      subst hki
      exact Nat.le_succ_of_le (h.counted k)
    · exact h.counted k
  simp only [allocEgressIntf] at halloc
  split at halloc
  · -- one is used again
    rename_i i free hfind
    rw [hfind] at hsame
    obtain ⟨hmem, hmac, hvid⟩ := hsame i rfl
    cases halloc
    have hk : Kept s { s with intfRefs := Function.update s.intfRefs i (s.intfRefs i + 1) } :=
      ⟨rfl, rfl, rfl, fun _ _ _ _ => ⟨rfl, rfl, rfl⟩⟩
    refine ⟨h.kept hk (hle i) h.written, hk, ?_⟩
    rintro k ⟨⟩
    refine ⟨List.mem_range.1 hmem, hmac, hvid, ?_⟩
    simp only [Function.update_self]
    exact Nat.lt_succ_of_le (h.counted i)
  · cases halloc
    exact ⟨h, ⟨rfl, rfl, rfl, fun _ _ _ _ => ⟨rfl, rfl, rfl⟩⟩, by simp⟩
  · -- a free one is written, which no route names
    rename_i i hfind
    rw [hfind] at hnew
    obtain ⟨hmem, hzero⟩ := hnew i rfl rfl
    have hi : i < maxSmacs := by simpa using hmem
    have hne : ∀ r ∈ s.routes, ∀ k, r.ifId = some k → k ≠ i := by
      rintro r hr k hk rfl
      exact (h.named r hr k hk).2.1 hzero
    split at halloc
    · cases halloc
      exact ⟨h, ⟨rfl, rfl, rfl, fun _ _ _ _ => ⟨rfl, rfl, rfl⟩⟩, by simp⟩
    · split at halloc
      · cases halloc
        have hk : Kept s { s with
            egress := Function.update s.egress i (setEgressIntf (newIntf vlan i))
            interfaces := Function.update s.interfaces i (newIntf vlan i) } := by
          refine ⟨rfl, rfl, rfl, fun r hr k hk => ⟨rfl, ?_, ?_⟩⟩
          · exact Function.update_of_ne (hne r hr k hk) _ _
          · exact Function.update_of_ne (hne r hr k hk) _ _
        refine ⟨h.kept hk h.counted fun k hk hs => ?_, hk, by simp⟩
        have hki : k ≠ i := by
          rintro rfl
          exact hs hzero
        simp only [Function.update_of_ne hki]
        exact h.written k hk hs
      · cases halloc
        have hk : Kept s { s with
            egress := Function.update s.egress i (setEgressIntf (newIntf vlan i))
            interfaces := Function.update s.interfaces i (newIntf vlan i)
            smacs := Function.update s.smacs i mac
            intfRefs := Function.update s.intfRefs i (s.intfRefs i + 1) } := by
          refine ⟨rfl, rfl, rfl, fun r hr k hk => ⟨?_, ?_, ?_⟩⟩
          · exact Function.update_of_ne (hne r hr k hk) _ _
          · exact Function.update_of_ne (hne r hr k hk) _ _
          · exact Function.update_of_ne (hne r hr k hk) _ _
        refine ⟨h.kept hk (hle i) fun k hk hs => ?_, hk, ?_⟩
        · rcases eq_or_ne k i with rfl | hki
          · simp only [Function.update_self]
            exact ⟨getEgressIntf_set (newIntf_fits hv hi), rfl⟩
          · simp only [Function.update_of_ne hki] at hs ⊢
            exact h.written k hk hs
        · rintro k ⟨⟩
          simp only [Function.update_self]
          exact ⟨hi, trivial, rfl, Nat.lt_succ_of_le (h.counted i)⟩

/-- An interface that has a hold more than routes may lose one. -/
theorem intfPut_spec (io : Io) (h : EgressOk s) (hlt : s.holders k < s.intfRefs k) :
    EgressOk (intfPut io s (some k)) ∧ Kept s (intfPut io s (some k)) := by
  have hle : ∀ j, s.holders j ≤ Function.update s.intfRefs k (s.intfRefs k - 1) j := by
    intro j
    rw [Function.update_apply]
    split
    · rename_i hjk
      subst hjk
      omega
    · exact h.counted j
  simp only [intfPut]
  split
  · -- no route names it any more
    rename_i hz
    rw [Function.update_self] at hz
    have hne : ∀ r ∈ s.routes, ∀ j, r.ifId = some j → j ≠ k := by
      rintro r hr j hj rfl
      have hpos : 0 < s.holders j := List.countP_pos_iff.2 ⟨r, hr, by simp [hj]⟩
      omega
    have hk : Kept s { s with
        intfRefs := Function.update s.intfRefs k (s.intfRefs k - 1)
        smacs := Function.update s.smacs k 0 } :=
      ⟨rfl, rfl, rfl, fun r hr j hj => ⟨Function.update_of_ne (hne r hr j hj) _ _, rfl, rfl⟩⟩
    refine ⟨h.kept hk hle fun j hj hs => ?_, hk⟩
    have hjk : j ≠ k := by
      rintro rfl
      exact hs (Function.update_self j 0 s.smacs)
    simp only [Function.update_of_ne hjk] at hs
    exact h.written j hj hs
  · have hk : Kept s { s with intfRefs := Function.update s.intfRefs k (s.intfRefs k - 1) } :=
      ⟨rfl, rfl, rfl, fun _ _ _ _ => ⟨rfl, rfl, rfl⟩⟩
    exact ⟨h.kept hk hle h.written, hk⟩

/-! ### Events -/

/-- A route that takes the place of another one of its id. -/
theorem EgressOk.replace (h : EgressOk s) (hp : s.routes[p]? = some r) (r' : EgressRoute)
    (hid : r'.id = r.id) {nexthops : Nat → BitVec 32}
    (hother : ∀ i, i ≠ r.id → nexthops i = s.nexthops i)
    (hcounted : ∀ k, (s.routes.set p r').countP (·.ifId == some k) ≤ s.intfRefs k)
    (hnamed : ∀ k, r'.ifId = some k →
      k < maxSmacs ∧ s.smacs k ≠ 0 ∧ (s.interfaces k).vid = r'.vlan)
    (hvlan : r'.nh.rvid = r'.vlan ∧ r'.vlan.toNat < 4096)
    (hnext : r'.gw ≠ 0 → ∀ k, r'.ifId = some k →
      r'.nhId = r'.id ∧ nexthopInterface (nexthops r'.id) = k) :
    EgressOk { s with routes := s.routes.set p r', nexthops := nexthops } where
  ids := by
    rw [map_id_set hp hid]
    exact h.ids
  used q hq := by
    rcases mem_set h.ids hp hq with rfl | ⟨hq, -⟩
    · rw [hid]
      exact h.used r (List.mem_of_getElem? hp)
    · exact h.used q hq
  counted := hcounted
  named q hq := by
    rcases mem_set h.ids hp hq with rfl | ⟨hq, -⟩
    · exact hnamed
    · exact h.named q hq
  written := h.written
  vlan q hq := by
    rcases mem_set h.ids hp hq with rfl | ⟨hq, -⟩
    · exact hvlan
    · exact h.vlan q hq
  next q hq := by
    rcases mem_set h.ids hp hq with rfl | ⟨hq, hne⟩
    · exact hnext
    · intro hgw k hk
      obtain ⟨hid', hnh⟩ := h.next q hq hgw k hk
      rw [← hother q.id hne] at hnh
      exact ⟨hid', hnh⟩

/-- A new route. -/
theorem EgressOk.append (h : EgressOk s) (hfree : s.routeUse r.id = false)
    (hcounted : ∀ k, s.holders k + (if r.ifId = some k then 1 else 0) ≤ s.intfRefs k)
    (hnamed : ∀ k, r.ifId = some k →
      k < maxSmacs ∧ s.smacs k ≠ 0 ∧ (s.interfaces k).vid = r.vlan)
    (hvlan : r.nh.rvid = r.vlan ∧ r.vlan.toNat < 4096) (hgw : r.gw = 0) :
    EgressOk { s with
      routeUse := Function.update s.routeUse r.id true
      routes := s.routes ++ [r] } where
  ids := by
    rw [List.map_append, List.nodup_append]
    refine ⟨h.ids, List.nodup_singleton _, ?_⟩
    rintro i hi j hj rfl
    obtain ⟨q, hq, rfl⟩ := List.mem_map.1 hi
    simp only [List.map_cons, List.map_nil, List.mem_singleton] at hj
    rw [← hj, h.used q hq] at hfree
    cases hfree
  used q hq := by
    change Function.update s.routeUse r.id true q.id = true
    rw [Function.update_apply]
    split
    · rfl
    · rename_i hne
      rcases List.mem_append.1 hq with hq | hq
      · exact h.used q hq
      · rw [List.mem_singleton.1 hq] at hne
        exact absurd rfl hne
  counted k := by
    simp only [EgressState.holders, List.countP_append, List.countP_singleton, beq_iff_eq]
    exact hcounted k
  named q hq := by
    rcases List.mem_append.1 hq with hq | hq
    · exact h.named q hq
    · rw [List.mem_singleton.1 hq]
      exact hnamed
  written := h.written
  vlan q hq := by
    rcases List.mem_append.1 hq with hq | hq
    · exact h.vlan q hq
    · rw [List.mem_singleton.1 hq]
      exact hvlan
  next q hq := by
    rcases List.mem_append.1 hq with hq | hq
    · exact h.next q hq
    · rw [List.mem_singleton.1 hq]
      exact fun hne => absurd hgw hne

theorem routeAlloc_free {host : Bool} {id : Nat} (h : routeAlloc s host = some id) :
    s.routeUse id = false := by
  have hfind := List.find?_some h
  simpa using hfind

theorem EgressOk.addTrap (h : EgressOk s) (host : Bool) : EgressOk (addTrap s host) := by
  simp only [Otto.addTrap]
  split
  · exact h
  · rename_i id hid
    exact h.append (r := { id := id, isHostRoute := host }) (routeAlloc_free hid)
      (fun k => by simpa using h.counted k) (by simp) ⟨rfl, by simp⟩ rfl

theorem NetDev.mac_ne_zero {dev : NetDev} (h : dev.devAddr ≠ 0) : dev.mac ≠ 0 := by
  intro hz
  apply h
  have hback := congrArg (BitVec.setWidth 48) hz
  simpa [NetDev.mac] using hback

theorem EgressOk.addRoute (h : EgressOk s) {dev : NetDev} (hdev : dev.devAddr ≠ 0)
    (hv : vlan.toNat < 4096) (host done : Bool) :
    EgressOk (addRoute io s host dev vlan done) := by
  simp only [Otto.addRoute]
  split
  · exact h
  · rename_i id hid
    cases halloc : allocEgressIntf io s dev.mac vlan with
    | mk o s₁ =>
      obtain ⟨h₁, hkept, hnew⟩ := allocEgressIntf_spec h hv halloc
      cases o with
      | none => exact h₁
      | some k =>
        obtain ⟨hk, hmac, hvid, hlt⟩ := hnew k rfl
        have hlt₁ : s₁.holders k < s₁.intfRefs k := by
          rw [EgressState.holders, hkept.routes]
          exact hlt
        cases done with
        | false => exact (intfPut_spec io h₁ hlt₁).1
        | true =>
          refine h₁.append (r := newRoute id host dev vlan k) ?_ ?_ ?_ ⟨rfl, hv⟩ rfl
          · rw [hkept.routeUse]
            exact routeAlloc_free hid
          · intro j
            simp only [newRoute, Option.some.injEq]
            split
            · rename_i hkj
              subst hkj
              exact hlt₁
            · exact h₁.counted j
          · rintro j ⟨⟩
            refine ⟨hk, ?_, hvid⟩
            rw [hmac]
            exact NetDev.mac_ne_zero hdev

theorem EgressOk.updateRoute (h : EgressOk s) (p : Nat) (mac : BitVec 48) (frozen : Bool)
    (dmac : Option (BitVec 16)) (ctrl : BitVec 32) (l2 : L2State) :
    EgressOk (updateRoute s p (mac.setWidth 64) frozen dmac ctrl l2) := by
  simp only [Otto.updateRoute]
  split
  · rename_i r d hp
    have hr := List.mem_of_getElem? hp
    have hlt : (mac.setWidth 64 : BitVec 64).toNat < 2 ^ 48 := by
      rw [BitVec.toNat_setWidth]
      exact lt_of_le_of_lt (Nat.mod_le _ _) mac.isLt
    have hrvid : (updateNexthop ctrl l2 (mac.setWidth 64) d r).nh.rvid = r.nh.rvid := by
      simp only [updateNexthop]
      split
      · exact nexthopAdd_rvid ctrl l2 hlt
      · exact nexthopAdd_rvid ctrl l2 hlt
    refine h.replace hp (updateNexthop ctrl l2 (mac.setWidth 64) d r) rfl
      (fun i hi => Function.update_of_ne hi _ _) (fun k => ?_) (h.named r hr) ?_
      fun _ k hk => ⟨rfl, ?_⟩
    · have hset := holders_set hp (updateNexthop ctrl l2 (mac.setWidth 64) d r) k
      simp only [updateNexthop] at hset ⊢
      have hle := h.counted k
      omega
    · rw [hrvid]
      exact h.vlan r hr
    · simp only [updateNexthop] at hk ⊢
      rw [Function.update_self, hk]
      exact nexthopInterface_word _ (h.named r hr k hk).1
  · exact h

/-- A route that goes leaves its hold. -/
theorem EgressOk.erase (h : EgressOk s) (hr : r ∈ s.routes) :
    EgressOk { s with routes := s.routes.erase r } ∧ (∀ q ∈ s.routes.erase r, q.id ≠ r.id) ∧
      ∀ k, r.ifId = some k → (s.routes.erase r).countP (·.ifId == some k) < s.intfRefs k := by
  have hsub : ∀ {q}, q ∈ s.routes.erase r → q ∈ s.routes := List.mem_of_mem_erase
  have hids := ((List.perm_cons_erase hr).map (·.id)).nodup_iff.1 h.ids
  rw [List.map_cons, List.nodup_cons] at hids
  refine ⟨⟨hids.2, fun q hq => h.used q (hsub hq), fun k => ?_, fun q hq => h.named q (hsub hq),
    h.written, fun q hq => h.vlan q (hsub hq), fun q hq => h.next q (hsub hq)⟩,
    fun q hq hid => hids.1 (List.mem_map.2 ⟨q, hq, hid⟩), fun k hk => ?_⟩
  · have herase := holders_erase hr k
    have hle := h.counted k
    change (s.routes.erase r).countP (·.ifId == some k) ≤ s.intfRefs k
    omega
  · have herase := holders_erase hr k
    have hle := h.counted k
    rw [if_pos hk] at herase
    omega

theorem EgressOk.delRoute (h : EgressOk s) (p : Nat) (stale : Bool) :
    EgressOk (delRoute io s p stale) := by
  simp only [Otto.delRoute]
  split
  · exact h
  · rename_i r hp
    obtain ⟨herase, hne, hlt⟩ := h.erase (List.mem_of_getElem? hp)
    split
    · exact herase
    · have hput : EgressOk { intfPut io s r.ifId with routes := s.routes.erase r } := by
        cases hk : r.ifId with
        | none => exact herase
        | some k =>
          have hspec := (intfPut_spec io herase (hlt k hk)).1
          simp only [intfPut] at hspec ⊢
          split at hspec
          · rename_i hz
            rw [if_pos hz]
            exact hspec
          · rename_i hz
            rw [if_neg hz]
            exact hspec
      have hroutes : (intfPut io s r.ifId).routes = s.routes := by
        cases r.ifId with
        | none => rfl
        | some k =>
          simp only [intfPut]
          split <;> rfl
      rw [hroutes]
      refine { hput with used := fun q hq => ?_ }
      change Function.update (intfPut io s r.ifId).routeUse r.id false q.id = true
      rw [Function.update_of_ne (hne q hq)]
      exact hput.used q hq

end Routes

/-! ## A new MAC -/

/-- What a sync does: routes out of the device may name another interface, the interfaces of other
routes stay as they are, and a route that has the MAC keeps it. -/
structure Moved (ifindex : Nat) (mac : BitVec 64) (s s' : EgressState) : Prop where
  length : s'.routes.length = s.routes.length
  route : ∀ (p : Nat) (r : EgressRoute), s.routes[p]? = some r → ∃ o,
    s'.routes[p]? = some { r with ifId := o } ∧ o.isSome = r.ifId.isSome ∧
    (r.gwIfindex ≠ ifindex → o = r.ifId) ∧
    ∀ k k', r.ifId = some k → o = some k' →
      (r.gwIfindex ≠ ifindex → s'.smacs k = s.smacs k ∧ s'.egress k = s.egress k) ∧
      (r.gwIfindex = ifindex → s.smacs k = mac → s'.smacs k' = mac)

/-- The route has the MAC if it is out of the device. -/
def Follows (ifindex : Nat) (mac : BitVec 64) (s : EgressState) (p : Nat) : Prop :=
  ∀ r : EgressRoute, s.routes[p]? = some r → r.gwIfindex = ifindex →
    ∀ k, r.ifId = some k → s.smacs k = mac

section Sync

variable {s s' s'' : EgressState} {ifindex : Nat} {mac : BitVec 64} {p : Nat}

theorem Moved.refl : Moved ifindex mac s s where
  length := rfl
  route p r hp := ⟨r.ifId, hp, rfl, fun _ => rfl, fun k k' hk hk' =>
    ⟨fun _ => ⟨rfl, rfl⟩, fun _ hm => by rwa [← Option.some.inj (hk.symm.trans hk')]⟩⟩

theorem Moved.trans (h : Moved ifindex mac s s') (h' : Moved ifindex mac s' s'') :
    Moved ifindex mac s s'' where
  length := h'.length.trans h.length
  route p r hp := by
    obtain ⟨o, hp', hsome, hsame, hintf⟩ := h.route p r hp
    obtain ⟨o', hp'', hsome', hsame', hintf'⟩ := h'.route p _ hp'
    refine ⟨o', hp'', hsome'.trans hsome, fun hg => (hsame' hg).trans (hsame hg), ?_⟩
    intro k k'' hk hk''
    have hsk : o.isSome = true := by rw [hsome, hk]; rfl
    obtain ⟨k', hk'⟩ := Option.isSome_iff_exists.1 hsk
    obtain ⟨hother, hmac⟩ := hintf k k' hk hk'
    obtain ⟨hother', hmac'⟩ := hintf' k' k'' hk' hk''
    refine ⟨fun hg => ?_, fun hg hm => hmac' hg (hmac hg hm)⟩
    have hkk : k' = k := Option.some.inj (hk'.symm.trans ((hsame hg).trans hk))
    rw [hkk] at hother'
    exact ⟨(hother' hg).1.trans (hother hg).1, (hother' hg).2.trans (hother hg).2⟩

theorem Moved.follows (h : Moved ifindex mac s s') (hf : Follows ifindex mac s p) :
    Follows ifindex mac s' p := by
  intro r' hp' hg k' hk'
  have hlt : p < s.routes.length := by
    rw [← h.length]
    exact (List.getElem?_eq_some_iff.1 hp').1
  obtain ⟨o, hp'', hsome, -, hintf⟩ := h.route p _ (List.getElem?_eq_getElem hlt)
  obtain rfl := Option.some.inj (hp'.symm.trans hp'')
  have ho : o = some k' := hk'
  have hsk : (s.routes[p]).ifId.isSome = true := by rw [← hsome, ho]; rfl
  obtain ⟨k, hk⟩ := Option.isSome_iff_exists.1 hsk
  exact (hintf k k' hk hk').2 hg (hf _ (List.getElem?_eq_getElem hlt) hg k hk)

/-- Every hold is a route out of the device then. -/
theorem intfOnlyDev_spec (h : EgressOk s) {k : Nat} (honly : intfOnlyDev s k ifindex = true)
    {r : EgressRoute} (hr : r ∈ s.routes) (hk : r.ifId = some k) : r.gwIfindex = ifindex := by
  rw [intfOnlyDev, beq_iff_eq] at honly
  have hle : s.routes.countP (·.ifId == some k) ≤
      s.routes.countP (fun r => r.ifId == some k && r.gwIfindex == ifindex) := by
    rw [honly]
    exact h.counted k
  have hall : ∀ q ∈ s.routes.filter (·.ifId == some k), (q.gwIfindex == ifindex) = true := by
    rw [← List.countP_eq_length, List.countP_filter, ← List.countP_eq_length_filter]
    refine Nat.le_antisymm (List.countP_mono_left (by simp +contextual)) ?_
    simpa only [Bool.and_comm, Bool.decide_and, Bool.decide_eq_true] using hle
  simpa using hall r (List.mem_filter.2 ⟨hr, by simp [hk]⟩)

theorem Kept.moved (h : Kept s s') : Moved ifindex mac s s' where
  length := by rw [h.routes]
  route p r hp := by
    refine ⟨r.ifId, by rw [h.routes]; exact hp, rfl, fun _ => rfl, fun k k' hk hk' => ?_⟩
    obtain rfl := Option.some.inj (hk.symm.trans hk')
    obtain ⟨hs, he, -⟩ := h.intf r (List.mem_of_getElem? hp) k hk
    exact ⟨fun _ => ⟨hs, he⟩, fun _ hm => hs.trans hm⟩

/-- The interface of routes out of the device alone takes the MAC where it is. -/
theorem EgressOk.rewrite (h : EgressOk s) (hm : mac ≠ 0) {old : Nat} {r : EgressRoute}
    (hr : r ∈ s.routes) (hold : r.ifId = some old) (honly : intfOnlyDev s old ifindex = true) :
    EgressOk { s with smacs := Function.update s.smacs old mac } ∧
      Moved ifindex mac s { s with smacs := Function.update s.smacs old mac } := by
  obtain ⟨hlt, hne, -⟩ := h.named r hr old hold
  refine ⟨{ h with named := fun q hq k hk => ?_, written := fun k hk hs => h.written k hk ?_ },
    rfl, fun p q hp => ⟨q.ifId, hp, rfl, fun _ => rfl, fun k k' hk hk' => ?_⟩⟩
  · obtain ⟨hk64, hs, hvid⟩ := h.named q hq k hk
    refine ⟨hk64, ?_, hvid⟩
    simp only [Function.update_apply]
    split
    · exact hm
    · exact hs
  · rcases eq_or_ne k old with rfl | hko
    · exact hne
    · simpa only [Function.update_of_ne hko] using hs
  · obtain rfl := Option.some.inj (hk.symm.trans hk')
    simp only [Function.update_apply]
    refine ⟨fun hg => ?_, fun _ hs => ?_⟩
    · have hko : k ≠ old := by
        rintro rfl
        exact hg (intfOnlyDev_spec h honly (List.mem_of_getElem? hp) hk)
      simp [hko]
    · split
      · rfl
      · exact hs

/-- The route moves to an interface that was taken for it. -/
theorem EgressOk.move (h : EgressOk s) (hm : mac ≠ 0) {io : Io} {old k : Nat} {r : EgressRoute}
    (hp : s.routes[p]? = some r) (hg : r.gwIfindex = ifindex) (hold : r.ifId = some old)
    (halloc : allocEgressIntf io s mac r.nh.rvid = (some k, s')) :
    let s₂ := { s' with
      routes := s'.routes.set p { r with ifId := some k }
      nexthops :=
        if k ≠ old ∧ r.gw ≠ 0 then
          Function.update s'.nexthops r.nhId (nexthopWord (BitVec.ofNat 16 r.nh.l2Id) (some k))
        else s'.nexthops }
    EgressOk (intfPut io s₂ (some old)) ∧ Moved ifindex mac s (intfPut io s₂ (some old)) ∧
      Follows ifindex mac (intfPut io s₂ (some old)) p := by
  intro s₂
  have hr := List.mem_of_getElem? hp
  obtain ⟨hvid, hvlt⟩ := h.vlan r hr
  obtain ⟨h₁, hkept, hnew⟩ := allocEgressIntf_spec h (by rw [hvid]; exact hvlt) halloc
  obtain ⟨hk, hmac, hvlan, hlt⟩ := hnew k rfl
  have hp₁ : s'.routes[p]? = some r := by rw [hkept.routes]; exact hp
  have hr₁ := List.mem_of_getElem? hp₁
  have hset := holders_set hp₁ { r with ifId := some k }
  have hholders : ∀ j, s'.holders j = s.holders j := by
    intro j
    rw [EgressState.holders, hkept.routes, EgressState.holders]
  have h₂ : EgressOk s₂ := by
    refine h₁.replace hp₁ { r with ifId := some k } rfl (fun i hi => ?_) (fun j => ?_) ?_
      (h.vlan r hr) fun hgw j hj => ?_
    · split
      · rename_i hc
        rw [(h.next r hr hc.2 old hold).1, Function.update_of_ne hi]
      · rfl
    · have hj := hset j
      have hle := h₁.counted j
      have hlt' : s'.holders k < s'.intfRefs k := by rw [hholders]; exact hlt
      simp only [Option.some.injEq] at hj
      split at hj
      · split at hj
        · omega
        · omega
      · split at hj
        · rename_i hkj
          subst hkj
          omega
        · omega
    · rintro j ⟨⟩
      refine ⟨hk, ?_, by rw [hvlan, hvid]⟩
      rw [hmac]
      exact hm
    · cases hj
      obtain ⟨hid, hnh⟩ := h₁.next r hr₁ hgw old hold
      refine ⟨hid, ?_⟩
      rcases eq_or_ne k old with rfl | hko
      · rw [if_neg (fun hc => hc.1 rfl)]
        exact hnh
      · rw [if_pos ⟨hko, hgw⟩, hid, Function.update_self]
        exact nexthopInterface_word _ hk
  have hone : s₂.holders old < s₂.intfRefs old := by
    have hj := hset old
    have hle := h₁.counted old
    change (s'.routes.set p { r with ifId := some k }).countP (·.ifId == some old) <
      s'.intfRefs old
    rw [if_pos hold] at hj
    rcases eq_or_ne k old with rfl | hko
    · have hlt' : s'.holders k < s'.intfRefs k := by rw [hholders]; exact hlt
      rw [if_pos rfl] at hj
      omega
    · simp only [Option.some.injEq, if_neg hko] at hj
      omega
  obtain ⟨h₃, hput⟩ := intfPut_spec io h₂ hone
  have hps : p < s'.routes.length := (List.getElem?_eq_some_iff.1 hp₁).1
  have hp₂ : s₂.routes[p]? = some { r with ifId := some k } := List.getElem?_set_self hps
  have hmoved : Moved ifindex mac s' s₂ := by
    refine ⟨List.length_set .., fun j q hq => ?_⟩
    rcases eq_or_ne j p with rfl | hjp
    · obtain rfl := Option.some.inj (hp₁.symm.trans hq)
      refine ⟨some k, hp₂, by rw [hold]; rfl, fun hne => absurd hg hne, ?_⟩
      rintro i i' - ⟨⟩
      exact ⟨fun hne => absurd hg hne, fun _ _ => hmac⟩
    · refine ⟨q.ifId, ?_, rfl, fun _ => rfl, fun i i' hi hi' => ?_⟩
      · change (s'.routes.set p _)[j]? = _
        rw [List.getElem?_set_ne hjp.symm]
        exact hq
      · obtain rfl := Option.some.inj (hi.symm.trans hi')
        exact ⟨fun _ => ⟨rfl, rfl⟩, fun _ hs => hs⟩
  refine ⟨h₃, (hkept.moved.trans hmoved).trans hput.moved, ?_⟩
  intro q hq _ j hj
  rw [hput.routes] at hq
  obtain rfl := Option.some.inj (hp₂.symm.trans hq)
  cases hj
  rw [(hput.intf _ (List.mem_of_getElem? hp₂) k rfl).1]
  exact hmac

theorem syncRoute_spec (h : EgressOk s) (hm : mac ≠ 0) {io : Io} {kept : Bool}
    (hstep : syncRoute io ifindex mac s p = (kept, s')) :
    EgressOk s' ∧ Moved ifindex mac s s' ∧ (kept = false → Follows ifindex mac s' p) := by
  simp only [syncRoute] at hstep
  split at hstep
  · rename_i hp
    cases hstep
    refine ⟨h, .refl, fun _ r hr => ?_⟩
    rw [hp] at hr
    cases hr
  · rename_i r hp
    have hr := List.mem_of_getElem? hp
    have hfollows : ∀ {s'' : EgressState}, s''.routes = s.routes →
        (r.gwIfindex = ifindex → ∀ k, r.ifId = some k → s''.smacs k = mac) →
        Follows ifindex mac s'' p := by
      intro s'' hroutes hr' q hq
      rw [hroutes, hp] at hq
      cases hq
      exact hr'
    split at hstep
    · rename_i hg
      cases hstep
      exact ⟨h, .refl, fun _ => hfollows rfl fun hg' => absurd hg' hg⟩
    · rename_i hg
      rw [not_not] at hg
      split at hstep
      · rename_i hnone
        cases hstep
        refine ⟨h, .refl, fun _ => hfollows rfl fun _ k hk => ?_⟩
        rw [hnone] at hk
        cases hk
      · rename_i old hold
        split at hstep
        · -- it has the MAC
          rename_i hhas
          simp only [Bool.and_eq_true, beq_iff_eq] at hhas
          cases hstep
          refine ⟨h, .refl, fun _ => hfollows rfl fun _ k hk => ?_⟩
          rw [← Option.some.inj (hold.symm.trans hk)]
          exact hhas.2
        · split at hstep
          · rename_i honly
            split at hstep
            · cases hstep
              obtain ⟨hok, hmoved⟩ := h.rewrite hm hr hold honly
              refine ⟨hok, hmoved, fun _ => hfollows rfl fun _ k hk => ?_⟩
              rw [← Option.some.inj (hold.symm.trans hk)]
              exact Function.update_self old mac s.smacs
            · cases hstep
              exact ⟨h, .refl, fun hf => by cases hf⟩
          · split at hstep
            · rename_i s₁ halloc
              cases hstep
              obtain ⟨hvid, hvlt⟩ := h.vlan r hr
              obtain ⟨h₁, hkept, -⟩ := allocEgressIntf_spec h (by rw [hvid]; exact hvlt) halloc
              exact ⟨h₁, hkept.moved, fun hf => by cases hf⟩
            · rename_i k s₁ halloc
              cases hstep
              obtain ⟨hok, hmoved, hf⟩ := h.move hm hp hg hold halloc
              exact ⟨hok, hmoved, fun _ => hf⟩

/-- A route that has been passed has the MAC, and keeps it while the others move. -/
theorem syncRoutes_spec (h : EgressOk s) (hm : mac ≠ 0) {io : Nat → Io} {ps : List Nat}
    {kept kept' : Bool} (hrun : syncRoutes io ifindex mac ps (kept, s) = (kept', s')) :
    EgressOk s' ∧ Moved ifindex mac s s' ∧
      (kept' = false → kept = false ∧ ∀ p ∈ ps, Follows ifindex mac s' p) := by
  induction ps generalizing s kept with
  | nil =>
    cases hrun
    exact ⟨h, .refl, fun hk => ⟨hk, by simp⟩⟩
  | cons p ps ih =>
    simp only [syncRoutes] at hrun
    cases hstep : syncRoute (io p) ifindex mac s p with
    | mk k s₁ =>
      rw [hstep] at hrun
      obtain ⟨h₁, hmoved, hp⟩ := syncRoute_spec h hm hstep
      obtain ⟨h₂, hmoved', hrest⟩ := ih h₁ hrun
      refine ⟨h₂, hmoved.trans hmoved', fun hk => ?_⟩
      obtain ⟨hnone, hps⟩ := hrest hk
      rw [Bool.or_eq_false_iff] at hnone
      exact ⟨hnone.1, List.forall_mem_cons.2 ⟨hmoved'.follows (hp hnone.2), hps⟩⟩

theorem EgressOk.sync (h : EgressOk s) (io : Nat → Io) (netdevs : List NetDev) :
    EgressOk (egressSync io netdevs ifindex s).2 := by
  simp only [egressSync]
  split
  · exact h
  · rename_i dev _
    split
    · exact h
    · rename_i hv
      have hmac : dev.mac ≠ 0 := by
        apply NetDev.mac_ne_zero
        simp only [isValidEtherAddr] at hv
        grind
      exact (syncRoutes_spec h hmac rfl).1

/-- Every state that is reached is fine. -/
theorem EgressReach.ok (h : EgressReach s) : EgressOk s := by
  induction h with
  | start egress nexthops =>
    exact ⟨List.nodup_nil, by simp, by simp [EgressState.holders], by simp, by simp, by simp,
      by simp⟩
  | step a _ he ih =>
    cases a with
    | trap host => exact ih.addTrap host
    | add host dev vlan done io => exact ih.addRoute he.1 he.2 host done
    | update p mac frozen dmac ctrl l2 => exact ih.updateRoute p mac frozen dmac ctrl l2
    | del p stale io => exact ih.delRoute p stale
    | sync netdevs ifindex io => exact ih.sync io netdevs

/-- The source MAC of the frames that leave through an interface. -/
def EgressState.sourceMac (s : EgressState) (k : Nat) : BitVec 64 :=
  s.smacs (getEgressIntf (s.egress k)).smacIdx.toNat

/-- And their VLAN. -/
def EgressState.sourceVid (s : EgressState) (k : Nat) : BitVec 16 :=
  (getEgressIntf (s.egress k)).vid

theorem EgressOk.source (h : EgressOk s) {r : EgressRoute} (hr : r ∈ s.routes) {k : Nat}
    (hk : r.ifId = some k) : s.sourceMac k = s.smacs k ∧ s.sourceVid k = r.vlan := by
  obtain ⟨hlt, hs, hvid⟩ := h.named r hr k hk
  obtain ⟨hget, hidx⟩ := h.written k hlt hs
  have hlt : k < 64 := hlt
  rw [EgressState.sourceMac, EgressState.sourceVid, hget, hidx, BitVec.toNat_ofNat,
    Nat.mod_eq_of_lt (by omega)]
  exact ⟨rfl, hvid⟩

/-- After a sync in which no route kept its MAC, the interface of every route out of the device
has the MAC of the device and the VLAN of the route, and the next hop of a gateway names it.
The interfaces of other routes stay as they were. -/
theorem egressSync_follows (h : EgressReach s) (io : Nat → Io) (netdevs : List NetDev)
    (ifindex : Nat) {dev : NetDev} (hdev : devGetByIndex netdevs ifindex = some dev)
    (hv : isValidEtherAddr dev.devAddr = true)
    (hkept : (egressSync io netdevs ifindex s).1 = false) :
    let s' := (egressSync io netdevs ifindex s).2
    s'.routes.length = s.routes.length ∧
      ∀ (p : Nat) (r : EgressRoute), s.routes[p]? = some r → ∃ o,
        s'.routes[p]? = some { r with ifId := o } ∧ o.isSome = r.ifId.isSome ∧
        ∀ k, o = some k →
          (r.gwIfindex = dev.ifindex → s'.sourceMac k = dev.mac ∧ s'.sourceVid k = r.vlan ∧
            (r.gw ≠ 0 → r.nhId = r.id ∧ nexthopInterface (s'.nexthops r.nhId) = k)) ∧
          (r.gwIfindex ≠ dev.ifindex → r.ifId = some k ∧ s'.sourceMac k = s.sourceMac k ∧
            s'.sourceVid k = s.sourceVid k) := by
  have hmac : dev.mac ≠ 0 := by
    apply NetDev.mac_ne_zero
    simp only [isValidEtherAddr] at hv
    grind
  simp only [egressSync, hdev, hv, Bool.not_true, Bool.false_eq_true, if_false] at hkept ⊢
  cases hrun : syncRoutes io dev.ifindex dev.mac (List.range s.routes.length) (false, s) with
  | mk kept s' =>
    rw [hrun] at hkept
    obtain ⟨hok, hmoved, hfollows⟩ := syncRoutes_spec h.ok hmac hrun
    refine ⟨hmoved.length, fun p r hp => ?_⟩
    obtain ⟨o, hp', hsome, hsame, hintf⟩ := hmoved.route p r hp
    have hr' := List.mem_of_getElem? hp'
    have hlt := (List.getElem?_eq_some_iff.1 hp).1
    refine ⟨o, hp', hsome, ?_⟩
    rintro k rfl
    obtain ⟨hsrc, hvid⟩ := hok.source hr' rfl
    refine ⟨fun hg => ⟨?_, hvid, fun hgw => ?_⟩, fun hg => ?_⟩
    · rw [hsrc]
      exact (hfollows hkept).2 p (List.mem_range.2 hlt) _ hp' hg k rfl
    · obtain ⟨hid, hnh⟩ := hok.next _ hr' hgw k rfl
      have hid : r.nhId = r.id := hid
      rw [hid]
      exact ⟨rfl, hnh⟩
    · have hk : r.ifId = some k := (hsame hg).symm
      obtain ⟨hsrc₀, hvid₀⟩ := h.ok.source (List.mem_of_getElem? hp) hk
      refine ⟨hk, ?_, hvid.trans hvid₀.symm⟩
      rw [hsrc, hsrc₀]
      exact ((hintf k k hk rfl).1 hg).1

end Sync

/-! ## Two devices of one MAC -/

/-- The driver after its setup. -/
def noRoutes : EgressState where
  smacs _ := 0
  egress _ := setEgressIntf {}
  nexthops _ := 0
  interfaces _ := {}
  intfRefs _ := 0
  routeUse i := i == 0
  routes := []

def noL2 : L2State where
  rows _ := .zero
  cam _ := .zero
  ucMap _ := {}
  mcGroupBm _ := false
  mcPmask _ := ∅

def lan : NetDev := { ifindex := 5, devAddr := 0x00e04c000001 }

/-- Routes out of two devices that have one MAC share an interface; the gateway of the first one
answers from `gwMac`. -/
def sharedIntf (gwMac : BitVec 48) : EgressState :=
  let s := (EgressAct.add false lan 0 true {}).run noRoutes
  let s := (EgressAct.add false { lan with ifindex := 6 } 0 true {}).run s
  (EgressAct.update 0 gwMac false (some 1) 0 noL2).run s

theorem sharedIntf_reach (gwMac : BitVec 48) : EgressReach (sharedIntf gwMac) := by
  have hstart : EgressReach noRoutes := .start _ _
  have hfirst := hstart.step (.add false lan 0 true {}) ⟨by decide, by decide⟩
  have hsecond := hfirst.step (.add false { lan with ifindex := 6 } 0 true {})
    ⟨by decide, by decide⟩
  exact hsecond.step (.update 0 gwMac false (some 1) 0 noL2) trivial

/-- The route out of the first device, with an interface. -/
def lanRoute (gwMac : BitVec 64) (k : Nat) : EgressRoute where
  id := 1
  gwIfindex := 5
  nh := { mac := gwMac, port := Family.portIgnore .rtl930x, dmacId := 1 }
  nhId := 1
  gw := gwMac
  ifId := some k

/-- The first device takes another MAC: its route leaves with it, and the other one as before. -/
theorem sharedIntf_follows :
    let s := (egressSync (fun _ => {}) [{ lan with devAddr := 0x00e04c000002 }] 5
      (sharedIntf 0x00e04c0000aa)).2
    (∃ r k, s.routes[0]? = some r ∧ r.ifId = some k ∧ s.sourceMac k = 0x00e04c000002 ∧
        s.sourceVid k = 0 ∧ nexthopInterface (s.nexthops r.nhId) = k) ∧
      ∃ r k, s.routes[1]? = some r ∧ r.ifId = some k ∧ s.sourceMac k = 0x00e04c000001 := by
  have hrun := egressSync_follows (sharedIntf_reach 0x00e04c0000aa) (fun _ => {})
    [{ lan with devAddr := 0x00e04c000002 }] 5 rfl (by decide) (by decide +kernel)
  generalize (egressSync (fun _ => {}) [{ lan with devAddr := 0x00e04c000002 }] 5
    (sharedIntf 0x00e04c0000aa)).2 = s at hrun ⊢
  obtain ⟨-, hall⟩ := hrun
  obtain ⟨o, hp, hsome, hk⟩ := hall 0 (lanRoute 0x00e04c0000aa 0) (by decide +kernel)
  obtain ⟨o', hp', hsome', hk'⟩ := hall 1 (newRoute 2 false { lan with ifindex := 6 } 0 0)
    (by decide +kernel)
  obtain ⟨k, rfl⟩ := Option.isSome_iff_exists.1 hsome
  obtain ⟨k', rfl⟩ := Option.isSome_iff_exists.1 hsome'
  obtain ⟨hmac, hvid, hnext⟩ := (hk k rfl).1 rfl
  obtain ⟨hsame, hmac', -⟩ := (hk' k' rfl).2 (by decide)
  refine ⟨⟨_, k, hp, rfl, hmac.trans (by decide), hvid, (hnext (by decide)).2⟩,
    _, k', hp', rfl, ?_⟩
  obtain rfl : 0 = k' := Option.some.inj hsame
  rw [hmac']
  decide +kernel

/-- Where the device has no MAC now, as a bridge without ports, its route leaves with the old one;
and where the gateway answers from a MAC of zero, the next hop keeps to the old interface. -/
theorem sharedIntf_not_followed :
    (∃ s, EgressReach s ∧ ∃ dev netdevs, devGetByIndex netdevs 5 = some dev ∧
      (egressSync (fun _ => {}) netdevs 5 s).1 = false ∧
      ∃ r ∈ (egressSync (fun _ => {}) netdevs 5 s).2.routes, r.gwIfindex = 5 ∧ ∃ k,
        r.ifId = some k ∧ (egressSync (fun _ => {}) netdevs 5 s).2.sourceMac k ≠ dev.mac) ∧
    ∃ s, EgressReach s ∧ ∃ dev netdevs, devGetByIndex netdevs 5 = some dev ∧
      isValidEtherAddr dev.devAddr = true ∧ (egressSync (fun _ => {}) netdevs 5 s).1 = false ∧
      ∃ r ∈ (egressSync (fun _ => {}) netdevs 5 s).2.routes, r.gwIfindex = 5 ∧ r.nhId = r.id ∧ ∃ k,
        r.ifId = some k ∧
        nexthopInterface ((egressSync (fun _ => {}) netdevs 5 s).2.nexthops r.nhId) ≠ k := by
  constructor
  · refine ⟨_, sharedIntf_reach 0x00e04c0000aa, _, [{ lan with devAddr := 0 }], rfl, ?_,
      lanRoute 0x00e04c0000aa 0, ?_, rfl, 0, rfl, ?_⟩ <;> decide +kernel
  · refine ⟨_, sharedIntf_reach 0, _, [{ lan with devAddr := 0x00e04c000002 }], rfl, by decide, ?_,
      lanRoute 0 1, ?_, rfl, rfl, 1, rfl, ?_⟩ <;> decide +kernel

end Lede.Otto
