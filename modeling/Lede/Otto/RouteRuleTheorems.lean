/-
Lede.Otto.RouteRuleTheorems — rows of prefix routes on the RTL839x (`rtl83xx/l3.c`).

A row matches the frames of its prefix (`entryMatches_l3Entry`), and what is read of it is compared
with a route as `SameRule` does (`routeMatches839x_eq`); a route that traps has no L2 index to
compare.
-/
import Lede.Otto.L3RouteTheorems
import Lede.Otto.PieActionTheorems
import Lede.Otto.RouteRule

namespace Lede.Otto

open Lede.Lib.BitField Lede.Lib.Ternary

/-! ## Prefixes -/

section Prefix

variable {w : Nat}

/-- A mask of the first `len` bits. -/
def IsPrefixMask (mask : BitVec w) (len : Nat) : Prop :=
  ∀ i < w, mask.getLsbD i = decide (w - len ≤ i)

/-- An address agrees under such a mask when it is in the net. -/
theorem agrees_prefix_iff {t : Field w} {len : Nat} (hm : IsPrefixMask t.mask len) (v : BitVec w) :
    t.Agrees v ↔ InNet t.data len v := by
  rw [agrees_iff, InNet]
  constructor
  · intro h
    apply BitVec.eq_of_getLsbD_eq
    intro i hi
    rw [BitVec.getLsbD_ushiftRight, BitVec.getLsbD_ushiftRight]
    by_cases hw : w - len + i < w
    · exact h _ hw (by rw [hm _ hw]; simp)
    · rw [BitVec.getLsbD_of_ge v _ (by omega), BitVec.getLsbD_of_ge t.data _ (by omega)]
  · intro h i hi hmask
    rw [hm i hi, decide_eq_true_eq] at hmask
    have hbit := congrArg (fun x => BitVec.getLsbD x (i - (w - len))) h
    simp only [BitVec.getLsbD_ushiftRight] at hbit
    rwa [show w - len + (i - (w - len)) = i by omega] at hbit

/-- Two such masks are the same for one length only. -/
theorem IsPrefixMask.inj {m m' : BitVec w} {len len' : Nat} (h : IsPrefixMask m len)
    (h' : IsPrefixMask m' len') (hl : len ≤ w) (hl' : len' ≤ w) : m = m' ↔ len = len' := by
  constructor
  · rintro rfl
    by_contra hne
    rcases Nat.lt_or_gt_of_ne hne with hlt | hgt
    · have h1 := h (w - len') (by omega)
      rw [h' (w - len') (by omega)] at h1
      simp at h1
      omega
    · have h1 := h (w - len) (by omega)
      rw [h' (w - len) (by omega)] at h1
      simp at h1
      omega
  · rintro rfl
    apply BitVec.eq_of_getLsbD_eq
    intro i hi
    rw [h i hi, h' i hi]

end Prefix

theorem isPrefixMask_inet {n : Nat} (h : n ≤ 32) : IsPrefixMask (inetMakeMask n) n := by
  have hall : ∀ n < 33, ∀ i < 32, (inetMakeMask n).getLsbD i = decide (32 - n ≤ i) := by
    decide +kernel
  exact hall n (by omega)

theorem isPrefixMask_ipv6 {n : Nat} (h : n ≤ 128) :
    IsPrefixMask (ipv6AddrPrefix .ones n).bits n := by
  have hall : ∀ n < 129, (ipv6AddrPrefix .ones n).bits = ~~~(BitVec.allOnes 128 >>> n) := by
    decide +kernel
  intro i hi
  rw [hall n (by omega), BitVec.getLsbD_not, BitVec.getLsbD_ushiftRight, BitVec.getLsbD_allOnes]
  by_cases hn : 128 - n ≤ i
  · simp [hi, hn]
    omega
  · simp [hi, hn]
    omega

/-! ## The rule of a route -/

section Rule

variable {rt : PieRoute}

theorem routeRule_fst (hv : rt.attr.valid = true) :
    (routeRule rt).1 =
      if rt.attr.type = .ip6uc then
        { valid := true
          isIpv6 := true
          dip6 := ⟨rt.dstIp6.bits, (ipv6AddrPrefix .ones rt.prefixLen.toNat).bits⟩
          frameType := ⟨3, 0x3⟩
          dmacHitSw := if rt.Forwards then {} else ⟨1, 1⟩ }
      else
        { valid := true
          dip := ⟨rt.dstIp, inetMakeMask rt.prefixLen.toNat⟩
          frameType := ⟨2, 0x3⟩
          dmacHitSw := if rt.Forwards then {} else ⟨1, 1⟩ } := by
  by_cases hf : rt.attr.action = ROUTE_ACT_FORWARD
  · by_cases h6 : rt.attr.type = .ip6uc <;> simp [routeRule, hv, PieRoute.Forwards, hf, h6]
  · by_cases h6 : rt.attr.type = .ip6uc <;> simp [routeRule, hv, PieRoute.Forwards, hf, h6]

theorem routeRule_snd (hv : rt.attr.valid = true) :
    (routeRule rt).2.drop = false ∧ (routeRule rt).2.sel .fwd = true ∧
      (routeRule rt).2.fwdAct = (if rt.Forwards then PIE_ACT_ROUTE_UC
        else PIE_ACT_REDIRECT_TO_PORT) ∧
      (routeRule rt).2.data .fwd = if rt.Forwards then rt.l2Id else cpuPort839x := by
  by_cases hf : rt.attr.action = ROUTE_ACT_FORWARD
  · by_cases hc : 0 ≤ rt.packetCntr <;> simp [routeRule, hv, PieRoute.Forwards, hf, hc]
  · by_cases hc : 0 ≤ rt.packetCntr <;> simp [routeRule, hv, PieRoute.Forwards, hf, hc]

/-- The blocks of the routes have the templates with a destination address. -/
theorem entrySelectors_eq (row : Nat) :
    entrySelectors (pieL3First + row) = 1 ||| 3 <<< 3 := by
  have hblock : ¬(pieL3First + row) / pieBlockSize < pieL3First / pieBlockSize := by
    simp only [pieL3First, pieBlockSize]
    omega
  rw [entrySelectors, templateSelectors, if_neg hblock]

/-- The number of the template of a family. -/
def routeTid (isIpv6 : Bool) : Nat := if isIpv6 then 1 else 0

theorem selectedTemplate_route (row : Nat) (isIpv6 : Bool) :
    selectedTemplate .rtl839x (entrySelectors (pieL3First + row))
      (BitVec.ofNat 8 (routeTid isIpv6)) = fixedTemplate .rtl839x (if isIpv6 then 3 else 1) := by
  rw [entrySelectors_eq row]
  cases isIpv6 <;> rfl

/-- The rule with the number of its template. -/
def withTid (pr : PieRule) : PieRule :=
  { pr with tid := ⟨BitVec.ofNat 8 (routeTid pr.isIpv6), 0x3⟩ }

/-- What a row of a route is written with. -/
theorem l3RuleWrite_eq (table : PieTable) {row : Nat} (hrow : row < pieL3Rules) (pr : PieRule)
    (a : PieActs) :
    l3RuleWrite table row pr a = (0, Function.update table (pieL3First + row)
      (ruleWrite .rtl839x (entrySelectors (pieL3First + row)) (withTid pr) a).2) := by
  have hidx : ¬((row : Int) < 0 ∨ (pieL3Rules : Int) ≤ row) := by omega
  have hfind : (List.range 2).find? (fun j => templHas .rtl839x
      (blockTemplate .rtl839x ((pieL3First + row) / pieBlockSize) j)
      (if pr.isIpv6 then .dip 2 else .dip 0)) = some (routeTid pr.isIpv6) := by
    have hsel : ∀ j, blockTemplate .rtl839x ((pieL3First + row) / pieBlockSize) j =
        (((1 ||| 3 <<< 3 : BitVec 32) >>> (j * 3)) &&& 0x7).toNat := by
      intro j
      rw [blockTemplate, ← entrySelectors_eq row, entrySelectors]
    simp only [hsel]
    cases pr.isIpv6 <;> decide
  simp only [l3RuleWrite, if_neg hidx, Int.toNat_natCast, hfind]
  rfl

end Rule

/-! ## Frames that a row matches -/

/-- The actions beside the rule do not change what an entry matches. -/
theorem entryMatches_ruleRegs (pr : PieRule) {a : PieActs} (entry : PieEntry)
    (hv : pr.valid = true) (hl : entry.fields.length = 12)
    (hw : ruleRegs .rtl839x pr a entry.fields = some entry.words) (fr : Frame) :
    entryMatches .rtl839x entry fr ↔
      ({ data := fixedData pr, mask := fixedMask pr } : Lib.Ternary.Field 32).Agrees
          (fr.fixed entry.tid) ∧
        ∀ field ∈ entry.fields, (fieldData pr field).Agrees (fr.field field) := by
  rw [← @entryMatches_iff .rtl839x pr
    { entry with words := ruleWords .rtl839x pr entry.fields } hv hl rfl fr]
  have hvalid := (conds_ruleRegs hw hv hl).1.trans hv
  simp only [readFixedFields, BitVec.getLsbD_ushiftRight] at hvalid
  have hvalid' := valid_ruleWords (f := .rtl839x) hv hl
  simp only [entryMatches, entryFixed_ruleRegs hw hv hl, entryFixed_ruleWords hv hl]
  refine and_congr (iff_of_true hvalid hvalid') (and_congr_right fun _ => ?_)
  refine forall₂_congr fun x hx => ?_
  obtain ⟨hi, hx1⟩ := List.mem_zipIdx' hx
  rw [entryField_ruleRegs hw hv hl x.2 hi, entryField_ruleWords hv hl x.2 hi]

/-- The fixed fields of a rule that compares the frame type and whether the MAC is the switch's. -/
structure PieRule.OfRoute (pr : PieRule) : Prop where
  frameType : pr.frameType.mask = 0x3
  others : pr.spmmaskFix.mask = 0 ∧ pr.spn.mask = 0 ∧ pr.mgntVlan.mask = 0 ∧
    pr.notFirstFrag.mask = 0 ∧ pr.frameTypeL4.mask = 0 ∧ pr.otagFmt.mask = 0 ∧
    pr.itagFmt.mask = 0 ∧ pr.otagExist.mask = 0 ∧ pr.itagExist.mask = 0 ∧ pr.frameTypeL2.mask = 0

theorem fixed_agrees_route {pr : PieRule} (h : pr.OfRoute) {j : Nat}
    (htid : pr.tid = ⟨BitVec.ofNat 8 j, 0x3⟩) (fr : Frame) :
    ({ data := fixedData pr, mask := fixedMask pr } : Lib.Ternary.Field 32).Agrees (fr.fixed j) ↔
      pr.frameType.Agrees fr.payload.frameType ∧ pr.dmacHitSw.Agrees fr.dmacHitSw := by
  obtain ⟨hft, h1, h2, h3, h4, h5, h6, h7, h8, h9, h10⟩ := h
  have hone : ∀ b : BitVec 1, (b != 0) = b.getLsbD 0 := by decide
  have hlow2 : (0x3 : BitVec 8) = low 2 := rfl
  simp only [agrees_iff, fixedData, fixedMask, Frame.fixed]
  constructor
  · intro h
    refine ⟨?_, ?_⟩
    · intro i hi hm
      have := h (8 + i) (by omega)
      rw [getLsbD_fixedWord (by omega), getLsbD_fixedWord (by omega),
        getLsbD_fixedWord (by omega)] at this
      rw [hft, hlow2, getLsbD_low] at hm
      have hi2 : i < 2 := by
        simp at hm
        omega
      simp only [hft, hlow2, getLsbD_low] at this
      interval_cases i <;> simpa using this
    · intro i hi hm
      obtain rfl : i = 0 := by omega
      have := h 14 (by omega)
      rw [getLsbD_fixedWord (by omega), getLsbD_fixedWord (by omega),
        getLsbD_fixedWord (by omega)] at this
      simp only [hone] at this
      exact this hm
  · rintro ⟨hf, hd⟩ i hi
    by_cases h24 : i < 24
    · rw [getLsbD_fixedWord h24, getLsbD_fixedWord h24, getLsbD_fixedWord h24]
      have hf0 := hf 0 (by omega)
      have hf1 := hf 1 (by omega)
      have hd0 := hd 0 (by omega)
      simp [hft] at hf0 hf1 hd0
      simp only [hone]
      interval_cases i <;> simp [htid, h1, h2, h3, h4, h5, h6, h7, h8, h9, h10, hft] <;> assumption
    · rw [getLsbD_fixedWord_of_ge (by omega)]
      simp

section Row

variable {rt : PieRoute} {table : PieTable} {row : Nat}

/-- What a rule of a route has whatever its route is. -/
theorem withTid_routeRule (hv : rt.attr.valid = true) :
    (withTid (routeRule rt).1).valid = true ∧
      (withTid (routeRule rt).1).isIpv6 = (routeRule rt).1.isIpv6 ∧
      FixedFits (withTid (routeRule rt).1) := by
  rw [routeRule_fst hv]
  by_cases h6 : rt.attr.type = .ip6uc
  · rw [if_pos h6]
    exact ⟨rfl, rfl, by constructor <;> simp [withTid, routeTid, Within]⟩
  · rw [if_neg h6]
    exact ⟨rfl, rfl, by constructor <;> simp [withTid, routeTid, Within]⟩

/-- The template of the routes of a family. -/
def routeTemplate (isIpv6 : Bool) : List TemplateField :=
  fixedTemplate .rtl839x (if isIpv6 then 3 else 1)

theorem length_routeTemplate (isIpv6 : Bool) : (routeTemplate isIpv6).length = 12 := by
  cases isIpv6 <;> rfl

/-- The row that was written has the words of its rule, and names the template of its family. -/
theorem l3Entry_write (table : PieTable) (hrow : row < pieL3Rules) (hv : rt.attr.valid = true) :
    ∃ table', routeWrite839x table row rt = (0, table') ∧
      ruleRegs .rtl839x (withTid (routeRule rt).1) (routeRule rt).2
        (routeTemplate (routeRule rt).1.isIpv6) = some (table' (pieL3First + row)) ∧
      (l3Entry table' row).tid = routeTid (routeRule rt).1.isIpv6 ∧
      (l3Entry table' row).fields = routeTemplate (routeRule rt).1.isIpv6 := by
  obtain ⟨hvalid, h6, hfits⟩ := withTid_routeRule hv
  have htempl : selectedTemplate .rtl839x (entrySelectors (pieL3First + row))
      (withTid (routeRule rt).1).tid.data = routeTemplate (routeRule rt).1.isIpv6 :=
    selectedTemplate_route row _
  have hregs : ruleRegs .rtl839x (withTid (routeRule rt).1) (routeRule rt).2
      (routeTemplate (routeRule rt).1.isIpv6) =
      some ((ruleWrite .rtl839x (entrySelectors (pieL3First + row)) (withTid (routeRule rt).1)
        (routeRule rt).2).2) := by
    simp only [ruleWrite, hvalid, Bool.not_true, Bool.false_eq_true, if_false, htempl, ruleRegs]
  have htid := ((fixedBack_iff hregs hvalid (length_routeTemplate _)).2 hfits).tid
  have hmod : (withTid (routeRule rt).1).tid.data.toNat = routeTid (routeRule rt).1.isIpv6 := by
    simp only [withTid]
    cases (routeRule rt).1.isIpv6 <;> rfl
  refine ⟨_, l3RuleWrite_eq table hrow _ _, ?_, ?_, ?_⟩
  · rw [Function.update_self]
    exact hregs
  · simp only [l3Entry, Function.update_self, htid, hmod]
  · simp only [l3Entry, Function.update_self, htid, htempl]

/-- What the rule does not compare, and when it compares the MAC. -/
theorem withTid_masks (hv : rt.attr.valid = true) :
    ((withTid (routeRule rt).1).smac = {} ∧ (withTid (routeRule rt).1).dmac = {}) ∧
      (withTid (routeRule rt).1).itag = {} ∧ ((withTid (routeRule rt).1).sport = {} ∧
      (withTid (routeRule rt).1).dport = {}) ∧ ((withTid (routeRule rt).1).sip = {} ∧
      (withTid (routeRule rt).1).sip6 = {}) ∧ (withTid (routeRule rt).1).ethertype = {} ∧
      (withTid (routeRule rt).1).dmacHitSw = if rt.Forwards then {} else ⟨1, 1⟩ := by
  rw [routeRule_fst hv]
  by_cases h6 : rt.attr.type = .ip6uc
  · rw [if_pos h6]
    exact ⟨⟨rfl, rfl⟩, rfl, ⟨rfl, rfl⟩, ⟨rfl, rfl⟩, rfl, rfl⟩
  · rw [if_neg h6]
    exact ⟨⟨rfl, rfl⟩, rfl, ⟨rfl, rfl⟩, ⟨rfl, rfl⟩, rfl, rfl⟩

/-- What the rule compares. -/
theorem withTid_ofRoute (hv : rt.attr.valid = true) :
    (withTid (routeRule rt).1).OfRoute ∧ (withTid (routeRule rt).1).OfFlower ∧
      Fits (withTid (routeRule rt).1) (routeTemplate (routeRule rt).1.isIpv6) := by
  rw [routeRule_fst hv]
  by_cases h6 : rt.attr.type = .ip6uc
  · rw [if_pos h6]
    refine ⟨by constructor <;> simp [withTid], by constructor <;> simp [withTid], ?_⟩
    constructor <;> simp [withTid, routeTemplate, fixedTemplate, fixedTemplates839x]
  · rw [if_neg h6]
    refine ⟨by constructor <;> simp [withTid], by constructor <;> simp [withTid], ?_⟩
    constructor <;> simp [withTid, routeTemplate, fixedTemplate, fixedTemplates839x]

/-- The frame type and the destination are those of a frame that the route covers. -/
theorem covers_iff (hv : rt.attr.valid = true) (hlen : rt.LenFits) (fr : Frame) :
    (withTid (routeRule rt).1).frameType.Agrees fr.payload.frameType ∧
        addressAgrees (withTid (routeRule rt).1).isIpv6 (withTid (routeRule rt).1).dip
          (withTid (routeRule rt).1).dip6 fr.payload.dip ↔ rt.Covers fr := by
  obtain ⟨hlen0, hlen⟩ := hlen
  have hft : ∀ d, (⟨d, 0x3⟩ : Lib.Ternary.Field 8).Agrees fr.payload.frameType ↔
      fr.payload.frameType &&& 0x3 = d &&& 0x3 := fun _ => Iff.rfl
  rw [routeRule_fst hv]
  by_cases h6 : rt.attr.type = .ip6uc
  · rw [if_pos h6] at hlen ⊢
    have hnet := agrees_prefix_iff (t := ⟨rt.dstIp6.bits,
      (ipv6AddrPrefix .ones rt.prefixLen.toNat).bits⟩)
      (isPrefixMask_ipv6 (n := rt.prefixLen.toNat) (by omega))
    simp only [withTid, hft, addressAgrees, if_true, hnet, PieRoute.Covers]
    cases fr.payload with
    | arp spa => simp [Payload.frameType]
    | ipv4 src dst tos proto ports => simp [Payload.frameType, h6]
    | ipv6 src dst tc nexthdr ports => simp [Payload.frameType, Payload.dip, h6]
    | other e p => simp [Payload.frameType]
  · rw [if_neg h6] at hlen ⊢
    have hnet := agrees_prefix_iff (t := ⟨rt.dstIp, inetMakeMask rt.prefixLen.toNat⟩)
      (isPrefixMask_inet (n := rt.prefixLen.toNat) (by omega))
    simp only [withTid, hft, addressAgrees, Bool.false_eq_true, if_false, hnet, PieRoute.Covers]
    cases fr.payload with
    | arp spa => simp [Payload.frameType]
    | ipv4 src dst tos proto ports => simp [Payload.frameType, Payload.dip, h6]
    | ipv6 src dst tc nexthdr ports => simp [Payload.frameType, h6]
    | other e p => simp [Payload.frameType]

/-- A row matches the frames of its prefix. -/
theorem entryMatches_l3Entry (hrow : row < pieL3Rules) (hv : rt.attr.valid = true)
    (hlen : rt.LenFits) {table' : PieTable}
    (hw : routeWrite839x table row rt = (0, table')) (fr : Frame) :
    entryMatches .rtl839x (l3Entry table' row) fr ↔
      rt.Covers fr ∧ (rt.Forwards ∨ fr.dmacHitSw = 1) := by
  obtain ⟨hvalid, h6, -⟩ := withTid_routeRule hv
  obtain ⟨hroute, hflower, hfits⟩ := withTid_ofRoute hv
  obtain ⟨t, hwrite, hregs, hentryTid, hentryFields⟩ := l3Entry_write table hrow hv
  obtain rfl : t = table' := congrArg Prod.snd (hwrite.symm.trans hw)
  obtain ⟨⟨hsmac, hdmac⟩, hitag, ⟨hsport, hdport⟩, ⟨hsip, hsip6⟩, hethertype, hhit⟩ :=
    withTid_masks hv
  have htid : (withTid (routeRule rt).1).tid =
      ⟨BitVec.ofNat 8 (routeTid (routeRule rt).1.isIpv6), 0x3⟩ := rfl
  have hfields := fields_agree_iff (f := .rtl839x)
    (t := if (routeRule rt).1.isIpv6 then 3 else 1) (by split <;> decide) hflower hfits fr
  have hsource : addressAgrees (withTid (routeRule rt).1).isIpv6 {} {} fr.payload.sip := by
    unfold addressAgrees
    split <;> exact agrees_default _
  simp only [hsmac, hdmac, hitag, hsport, hdport, hsip, hsip6, hethertype, agrees_default,
    hsource, and_self, true_and, and_true, implies_true] at hfields
  have hmac : (withTid (routeRule rt).1).dmacHitSw.Agrees fr.dmacHitSw ↔
      rt.Forwards ∨ fr.dmacHitSw = 1 := by
    have hone : ∀ b : BitVec 1, (⟨1, 1⟩ : Lib.Ternary.Field 1).Agrees b ↔ b = 1 := by decide
    rw [hhit]
    by_cases hf : rt.Forwards
    · rw [if_pos hf]
      exact iff_of_true (agrees_default _) (Or.inl hf)
    · rw [if_neg hf, hone]
      exact ⟨Or.inr, fun h => h.resolve_left hf⟩
  rw [entryMatches_ruleRegs _ (l3Entry t row) hvalid
    (by rw [hentryFields]; exact length_routeTemplate _) (by rw [hentryFields]; exact hregs),
    hentryTid, hentryFields]
  simp only [routeTemplate, hfields, fixed_agrees_route hroute htid, hmac]
  rw [← covers_iff hv hlen fr]
  constructor
  · rintro ⟨⟨h1, h2⟩, h3⟩
    exact ⟨⟨h1, h3⟩, h2⟩
  · rintro ⟨⟨h1, h3⟩, h2⟩
    exact ⟨⟨h1, h2⟩, h3⟩

end Row

/-! ## Rows that are read back -/

/-- A field is made of its words. -/
theorem eq_of_chunks {w n : Nat} (hw : w = 16 * n) {x y : Field w}
    (h : ∀ k < n, x.chunk k = y.chunk k) : x = y := by
  have hword : ∀ a b : BitVec w, (∀ k < n, chunk k a = chunk k b) → a = b := by
    intro a b hab
    apply BitVec.eq_of_getLsbD_eq
    intro i hi
    have hbit := congrArg (fun c => BitVec.getLsbD c (i % 16)) (hab (i / 16) (by omega))
    simp only [getLsbD_chunk, show 16 * (i / 16) + i % 16 = i by omega] at hbit
    simpa [Nat.mod_lt] using hbit
  obtain ⟨d, m⟩ := x
  obtain ⟨d', m'⟩ := y
  simp only [Field.chunk, Field.mk.injEq] at h ⊢
  exact ⟨hword d d' fun k hk => (h k hk).1, hword m m' fun k hk => (h k hk).2⟩

section Back

variable {rt : PieRoute} {table : PieTable} {row : Nat}

/-- The destination of the rule comes back. -/
theorem dip_back (pr pr₀ : PieRule) {r : Regs}
    (he : ∀ x ∈ (routeTemplate pr.isIpv6).zipIdx, entryField .rtl839x r x.2 = fieldData pr x.1) :
    if pr.isIpv6 then (readTemplated .rtl839x r pr₀ (routeTemplate pr.isIpv6)).dip6 = pr.dip6
    else (readTemplated .rtl839x r pr₀ (routeTemplate pr.isIpv6)).dip = pr.dip := by
  have hword : ∀ k, .dip k ∈ routeTemplate pr.isIpv6 →
      fieldAs pr.isIpv6 (readTemplated .rtl839x r pr₀ (routeTemplate pr.isIpv6)) (.dip k) =
        fieldData pr (.dip k) := fun k hk =>
    fieldAs_readTemplated pr.isIpv6 he
      (fun _ h => inRange_of_mem (by split <;> decide) h) rfl hk
  cases h6 : pr.isIpv6 with
  | true =>
    rw [h6] at hword
    rw [if_pos rfl]
    refine eq_of_chunks (n := 8) rfl fun k hk => ?_
    have hmem : .dip k ∈ routeTemplate true := by
      interval_cases k <;> decide
    simpa [fieldAs, fieldData, h6] using hword k hmem
  | false =>
    rw [h6] at hword
    rw [if_neg Bool.false_ne_true]
    refine eq_of_chunks (n := 2) rfl fun k hk => ?_
    have hmem : .dip k ∈ routeTemplate false := by
      interval_cases k <;> decide
    simpa [fieldAs, fieldData, h6, Nat.not_le.2 hk] using hword k hmem

/-- What a row of a route reads as. -/
structure RuleBack (rt : PieRoute) (pr : PieRule) (a : PieActs) : Prop where
  valid : pr.valid = true
  frameType : pr.frameType.data = if rt.attr.type = .ip6uc then 3 else 2
  dip6 : rt.attr.type = .ip6uc →
    pr.dip6 = ⟨rt.dstIp6.bits, (ipv6AddrPrefix .ones rt.prefixLen.toNat).bits⟩
  dip : rt.attr.type ≠ .ip6uc → pr.dip = ⟨rt.dstIp, inetMakeMask rt.prefixLen.toNat⟩
  sel : a.sel .fwd = true
  act : a.fwdAct = if rt.Forwards then PIE_ACT_ROUTE_UC else PIE_ACT_REDIRECT_TO_PORT
  data : a.data .fwd = if rt.Forwards then rt.l2Id else cpuPort839x

theorem l3RuleRead_write (hrow : row < pieL3Rules) (hv : rt.attr.valid = true)
    (hl2 : rt.Forwards → rt.l2Id.toNat < 2 ^ 14) {table' : PieTable}
    (hw : routeWrite839x table row rt = (0, table')) :
    ∃ pr a, l3RuleRead table' row = .ok (pr, a) ∧ RuleBack rt pr a := by
  obtain ⟨hvalid, h6, hfits⟩ := withTid_routeRule hv
  obtain ⟨t, hwrite, hregs, -, -⟩ := l3Entry_write table hrow hv
  obtain rfl : t = table' := congrArg Prod.snd (hwrite.symm.trans hw)
  have hidx : ¬((row : Int) < 0 ∨ (pieL3Rules : Int) ≤ row) := by omega
  have hl := length_routeTemplate (routeRule rt).1.isIpv6
  have hfix := (fixedBack_iff hregs hvalid hl).2 hfits
  have hread : l3RuleRead t row = .ok (readTemplated .rtl839x (t (pieL3First + row))
      (readFixedFields .rtl839x (t (pieL3First + row))) (routeTemplate (routeRule rt).1.isIpv6),
      readAction839x (t (pieL3First + row))) := by
    simp only [l3RuleRead, if_neg hidx, Int.toNat_natCast, ruleRead, hfix.valid, hvalid, hfix.tid,
      Bool.not_true, Bool.false_eq_true, if_false]
    rw [show (withTid (routeRule rt).1).tid.data =
      BitVec.ofNat 8 (routeTid (routeRule rt).1.isIpv6) from rfl, selectedTemplate_route]
    rfl
  refine ⟨_, _, hread, ?_⟩
  have hfixed := fixedBack_congr (fixedPart_readTemplated .rtl839x (t (pieL3First + row))
    (readFixedFields .rtl839x (t (pieL3First + row)))
    (routeTemplate (routeRule rt).1.isIpv6)).symm hfix
  have hdip := dip_back (withTid (routeRule rt).1)
    (readFixedFields .rtl839x (t (pieL3First + row))) (r := t (pieL3First + row))
    fun x hx => by
      obtain ⟨hi, hx⟩ := List.mem_zipIdx' (x := x.1) (i := x.2) hx
      rw [entryField_ruleRegs hregs hvalid hl _ hi, hx]
      rfl
  obtain ⟨hdrop, hsel, hact, hdata⟩ := routeRule_snd hv
  obtain ⟨-, h13, h14, -⟩ := ruleWords_actions hvalid hl
  have hr : t (pieL3First + row) = writeAction839x (ruleWords .rtl839x (withTid (routeRule rt).1)
      (routeTemplate (routeRule rt).1.isIpv6)) (routeRule rt).2 := (Option.some.inj hregs).symm
  obtain ⟨-, hback2, hback3⟩ := (readAction839x_fwd (a := (routeRule rt).2) h13).2 hdrop
  have hback4 := (readAction839x_data (a := (routeRule rt).2) h14).1
  rw [← hr] at hback2 hback3 hback4
  have hcut : (routeRule rt).2.fwdAct &&& low 3 = (routeRule rt).2.fwdAct ∧
      ((routeRule rt).2.fwdAct != 1) = true := by
    rw [hact]
    split <;> decide
  rw [hsel, Bool.true_or, Bool.true_and, hcut.1, hcut.2] at hback2 hback3
  exact
    { valid := hfixed.valid.trans hvalid
      frameType := by
        rw [hfixed.frameType, withTid, routeRule_fst hv]
        split <;> rfl
      dip6 := by
        intro ht
        have hv6 : (routeRule rt).1.isIpv6 = true := by rw [routeRule_fst hv, if_pos ht]
        rw [if_pos (h6.trans hv6)] at hdip
        exact hdip.trans (by rw [withTid, routeRule_fst hv, if_pos ht])
      dip := by
        intro ht
        have hv6 : (routeRule rt).1.isIpv6 = false := by rw [routeRule_fst hv, if_neg ht]
        rw [if_neg (by rw [h6, hv6]; exact Bool.false_ne_true)] at hdip
        exact hdip.trans (by rw [withTid, routeRule_fst hv, if_neg ht])
      sel := hback2
      act := hback3.trans hact
      data := by
        rw [hback4, hdata]
        split
        · rename_i hf
          exact Lib.Packed.and_low_of_lt (hl2 hf)
        · decide }

/-- The number of an action is the one of its kind. -/
theorem act_eq_iff (rt rt' : PieRoute) :
    (if rt.Forwards then PIE_ACT_ROUTE_UC else PIE_ACT_REDIRECT_TO_PORT) =
      (if rt'.Forwards then PIE_ACT_ROUTE_UC else PIE_ACT_REDIRECT_TO_PORT) ↔
      (rt.Forwards ↔ rt'.Forwards) := by
  by_cases h : rt.Forwards <;> by_cases h' : rt'.Forwards <;>
    simp [h, h', PIE_ACT_ROUTE_UC, PIE_ACT_REDIRECT_TO_PORT]

theorem append_inj {m n : Nat} {a a' : BitVec m} {b b' : BitVec n} (h : a ++ b = a' ++ b') :
    a = a' ∧ b = b' := by
  have hbit := fun i => congrArg (fun x => BitVec.getLsbD x i) h
  simp only [BitVec.getLsbD_append] at hbit
  constructor
  · apply BitVec.eq_of_getLsbD_eq
    intro i hi
    simpa using hbit (n + i)
  · apply BitVec.eq_of_getLsbD_eq
    intro i hi
    simpa [hi] using hbit i

theorem bits_inj {x y : In6Addr} : x.bits = y.bits ↔ x = y := by
  constructor
  · intro h
    obtain ⟨x0, x1, x2, x3⟩ := x
    obtain ⟨y0, y1, y2, y3⟩ := y
    simp only [In6Addr.bits] at h
    obtain ⟨h, h3⟩ := append_inj h
    obtain ⟨h, h2⟩ := append_inj h
    obtain ⟨h0, h1⟩ := append_inj h
    rw [h0, h1, h2, h3]
  · rintro rfl
    rfl

/-- The destination and the mask of a rule are those of one prefix only. -/
theorem dest_eq_iff {rt rt' : PieRoute} (hlen : rt.LenFits) (hlen' : rt'.LenFits)
    {pr : PieRule} {a : PieActs} (hb : RuleBack rt pr a) :
    (if rt'.attr.type = .ip6uc then
        pr.frameType.data = 3 ∧ pr.dip6.data = rt'.dstIp6.bits ∧
          pr.dip6.mask = (ipv6AddrPrefix .ones rt'.prefixLen.toNat).bits
      else pr.frameType.data = 2 ∧ pr.dip.data = rt'.dstIp ∧
        pr.dip.mask = inetMakeMask rt'.prefixLen.toNat) ↔
      (rt.attr.type = .ip6uc ↔ rt'.attr.type = .ip6uc) ∧
        (if rt.attr.type = .ip6uc then rt.dstIp6 = rt'.dstIp6 else rt.dstIp = rt'.dstIp) ∧
        rt.prefixLen = rt'.prefixLen := by
  obtain ⟨h0, hlen⟩ := hlen
  obtain ⟨h0', hlen'⟩ := hlen'
  have hint : rt.prefixLen.toNat = rt'.prefixLen.toNat ↔ rt.prefixLen = rt'.prefixLen := by omega
  by_cases h6 : rt.attr.type = .ip6uc
  · by_cases h6' : rt'.attr.type = .ip6uc
    · rw [if_pos h6] at hlen
      rw [if_pos h6'] at hlen'
      have hmask := (isPrefixMask_ipv6 (n := rt.prefixLen.toNat) (by omega)).inj
        (isPrefixMask_ipv6 (n := rt'.prefixLen.toNat) (by omega)) (by omega) (by omega)
      simp [hb.frameType, hb.dip6 h6, h6, h6', bits_inj, hmask, hint]
    · simp [hb.frameType, h6, h6']
  · by_cases h6' : rt'.attr.type = .ip6uc
    · simp [hb.frameType, h6, h6']
    · rw [if_neg h6] at hlen
      rw [if_neg h6'] at hlen'
      have hmask := (isPrefixMask_inet (n := rt.prefixLen.toNat) (by omega)).inj
        (isPrefixMask_inet (n := rt'.prefixLen.toNat) (by omega)) (by omega) (by omega)
      simp [hb.frameType, hb.dip h6, h6, h6', hmask, hint]

/-- The comparison of a row with a route. -/
theorem routeMatches839x_eq {rt' : PieRoute} {pr : PieRule} {a : PieActs}
    (hread : l3RuleRead table row = .ok (pr, a)) (hb : RuleBack rt pr a) (hlen : rt.LenFits)
    (hlen' : rt'.LenFits) :
    routeMatches839x table row rt' = if SameRule rt rt' then 1 else 0 := by
  have hdest := dest_eq_iff hlen hlen' hb
  have hact := act_eq_iff rt rt'
  have hdata : (rt.Forwards ↔ rt'.Forwards) → (a.data .fwd = (if rt'.Forwards then rt'.l2Id
      else cpuPort839x) ↔ (rt.Forwards → rt.l2Id = rt'.l2Id)) := by
    intro h
    rw [hb.data]
    by_cases hf : rt.Forwards
    · simp [hf, h.1 hf]
    · have hf' : ¬rt'.Forwards := fun h' => hf (h.2 h')
      simp [hf, hf']
  have hmatch : routeMatches839x table row rt' =
      if (a.fwdAct = (if rt'.Forwards then PIE_ACT_ROUTE_UC else PIE_ACT_REDIRECT_TO_PORT) ∧
        a.data .fwd = if rt'.Forwards then rt'.l2Id else cpuPort839x) ∧
        (if rt'.attr.type = .ip6uc then
          pr.frameType.data = 3 ∧ pr.dip6.data = rt'.dstIp6.bits ∧
            pr.dip6.mask = (ipv6AddrPrefix .ones rt'.prefixLen.toNat).bits
        else pr.frameType.data = 2 ∧ pr.dip.data = rt'.dstIp ∧
          pr.dip.mask = inetMakeMask rt'.prefixLen.toNat) then 1 else 0 := by
    simp only [routeMatches839x, hread, hb.valid, hb.sel, PieRoute.Forwards]
    by_cases hf' : rt'.attr.action = ROUTE_ACT_FORWARD
    · by_cases h6 : rt'.attr.type = .ip6uc
      · simp [hf', h6]
        grind
      · simp [hf', h6]
        grind
    · by_cases h6 : rt'.attr.type = .ip6uc
      · simp [hf', h6]
        grind
      · simp [hf', h6]
        grind
  rw [hmatch]
  refine if_congr ?_ rfl rfl
  rw [hdest, hb.act, hact, SameRule]
  constructor
  · rintro ⟨⟨h1, h2⟩, h3, h4, h5⟩
    exact ⟨h3, h4, h5, h1, (hdata h1).1 h2⟩
  · rintro ⟨h3, h4, h5, h1, h2⟩
    exact ⟨⟨h1, (hdata h1).2 h2⟩, h3, h4, h5⟩

end Back

/-- A row of a route matches the frames of its family with a destination in the prefix, addressed
to the switch if they are trapped, and is recognized as its route: not for one of another family,
destination, prefix length or action, or of another L2 index when it forwards. -/
theorem route_row_exact (table : PieTable) (rt : PieRoute) (row : Nat) (hrow : row < pieL3Rules)
    (hv : rt.attr.valid = true) (hlen : rt.LenFits)
    (hl2 : rt.Forwards → rt.l2Id.toNat < 2 ^ 14) :
    ∃ table', routeWrite839x table row rt = (0, table') ∧
      (∀ fr, entryMatches .rtl839x (l3Entry table' row) fr ↔
        rt.Covers fr ∧ (rt.Forwards ∨ fr.dmacHitSw = 1)) ∧
      ∀ rt' : PieRoute, rt'.LenFits →
        routeMatches839x table' row rt' = if SameRule rt rt' then 1 else 0 := by
  obtain ⟨table', hw, -⟩ := l3Entry_write table hrow hv
  obtain ⟨pr, a, hread, hb⟩ := l3RuleRead_write hrow hv hl2 hw
  exact ⟨table', hw, entryMatches_l3Entry hrow hv hlen hw, fun rt' hlen' =>
    routeMatches839x_eq hread hb hlen hlen'⟩

/-- A route to 2001:db8::/33 through the gateway at L2 index 16383. -/
def someRule : PieRoute where
  dstIp6 := ⟨0x20010db8, 0, 0, 0⟩
  prefixLen := 33
  l2Id := 16383
  packetCntr := 5
  attr := { valid := true, type := .ip6uc }

theorem someRule_row : ∃ table', routeWrite839x (fun _ _ => 0) 511 someRule = (0, table') ∧
    routeMatches839x table' 511 someRule = 1 ∧
    routeMatches839x table' 511 { someRule with prefixLen := 34 } = 0 ∧
    routeMatches839x table' 511 { someRule with l2Id := 0 } = 0 := by
  obtain ⟨table', hw, -, hm⟩ := route_row_exact (fun _ _ => 0) someRule 511 (by decide) rfl
    ⟨by decide, by decide⟩ (by decide)
  exact ⟨table', hw, (hm someRule ⟨by decide, by decide⟩).trans (by decide),
    (hm { someRule with prefixLen := 34 } ⟨by decide, by decide⟩).trans (by decide),
    (hm { someRule with l2Id := 0 } ⟨by decide, by decide⟩).trans (by decide)⟩

/-- A route that is trapped, 192.0.2.0/24. -/
def trapRoute : PieRoute where
  dstIp := 0xc0000200
  prefixLen := 24
  attr := { valid := true, action := ROUTE_ACT_TRAP2CPU }

/-- Its row is taken for the one of a trap with another L2 index. -/
theorem trapRoute_other_index :
    (routeWrite839x (fun _ _ => 0) 0 trapRoute).1 = 0 ∧
      routeMatches839x (routeWrite839x (fun _ _ => 0) 0 trapRoute).2 0
        { trapRoute with l2Id := 1 } = 1 := by
  decide +kernel

end Lede.Otto
