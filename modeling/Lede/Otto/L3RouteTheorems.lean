/-
Lede.Otto.L3RouteTheorems — what is written to a route table of the RTL930x is
read back.

The words of a row are lists of parts that lie apart (`attrParts`, `typeParts`,
`hostParts`), so each field comes back by `Lib.Packed`. The prefix length is
recovered from a mask and two flags (`decodeLen_write4`, `decodeLen_write6`).
-/
import Lede.Otto.L3Route
import Lede.Lib.Packed

namespace Lede.Otto

open Lede.Lib.BitField Lede.Lib.Packed

/-! ## Masks -/

theorem inetMaskLen_make {n : Nat} (h : n ≤ 32) : inetMaskLen (inetMakeMask n) = n := by
  have hall : ∀ n : Fin 33, inetMaskLen (inetMakeMask n) = n := by decide +kernel
  exact hall ⟨n, by omega⟩

theorem mask6Len_net6Mask {n : Nat} (h : n ≤ 128) : mask6Len (net6Mask n) = n := by
  have hall : ∀ n : Fin 129, mask6Len (net6Mask n) = n := by decide +kernel
  exact hall ⟨n, by omega⟩

/-! ## Parts -/

/-- A value that fits its field comes back in its own type. -/
theorem bits_pack {k p w : Nat} {x : BitVec k} {xs : List (Part 32)} (hk : k ≤ 32)
    (hx : x.toNat < 2 ^ w) (h : Laid xs) (hm : ⟨p, w, x.setWidth 32⟩ ∈ xs) :
    (bits (pack xs) p w).setWidth k = x := by
  have hlt : x.toNat < 2 ^ 32 := Nat.lt_of_lt_of_le x.isLt (Nat.pow_le_pow_right Nat.two_pos hk)
  have hsw : (x.setWidth 32).toNat = x.toNat := by
    rw [BitVec.toNat_setWidth, Nat.mod_eq_of_lt hlt]
  have hread := read_pack h hm
  rw [show (x.setWidth 32) &&& low w = x.setWidth 32 from and_low_of_lt (by rwa [hsw])] at hread
  rw [bits, hread]
  rw [BitVec.setWidth_setWidth_of_le x hk, BitVec.setWidth_eq]

def typeParts (rt : L3Route) : List (Part 32) :=
  [flagPart 31 rt.attr.valid, ⟨29, 2, rt.attr.type.code⟩]

def hostParts (rt : L3Route) : List (Part 32) :=
  [flagPart 31 rt.attr.valid, ⟨29, 2, rt.attr.type.code⟩, flagPart 20 rt.attr.hit,
    flagPart 19 rt.attr.dstNull, ⟨17, 2, rt.attr.action.setWidth 32⟩,
    ⟨6, 11, rt.nhId.setWidth 32⟩, flagPart 5 rt.attr.ttlDec, flagPart 4 rt.attr.ttlCheck,
    flagPart 3 rt.attr.qosAs, ⟨0, 3, rt.attr.qosPrio.setWidth 32⟩]

def attrParts (rt : L3Route) (host : Int) : List (Part 32) :=
  [flagPart 22 rt.attr.hit, ⟨18, 2, rt.attr.action.setWidth 32⟩, ⟨7, 11, rt.nhId.setWidth 32⟩,
    flagPart 6 rt.attr.ttlDec, flagPart 5 rt.attr.ttlCheck, flagPart 4 rt.attr.dstNull,
    flagPart 3 rt.attr.qosAs, ⟨0, 3, rt.attr.qosPrio.setWidth 32⟩,
    flagPart 20 (rt.prefixLen = 0), flagPart 21 (rt.prefixLen = host)]

theorem typeParts_laid (rt : L3Route) : Laid (typeParts rt) :=
  laid_of_spans [(31, 1), (29, 2)] rfl (by decide)

theorem hostParts_laid (rt : L3Route) : Laid (hostParts rt) :=
  laid_of_spans [(31, 1), (29, 2), (20, 1), (19, 1), (17, 2), (6, 11), (5, 1), (4, 1), (3, 1),
    (0, 3)] rfl (by decide)

theorem attrParts_laid (rt : L3Route) (host : Int) : Laid (attrParts rt host) :=
  laid_of_spans [(22, 1), (18, 2), (7, 11), (6, 1), (5, 1), (4, 1), (3, 1), (0, 3), (20, 1),
    (21, 1)] rfl (by decide)

/-- The type comes back from its two bits. -/
theorem ofCode_bits {xs : List (Part 32)} {t : RouteType} (h : Laid xs)
    (hm : ⟨29, 2, t.code⟩ ∈ xs) : RouteType.ofCode (bits (pack xs) 29 2) = t := by
  have hread : bits (pack xs) 29 2 = t.code &&& low 2 := read_pack h hm
  rw [hread]
  cases t <;> decide

/-! ## Routes -/

/-- A unicast route whose values fit the fields of a row. -/
structure L3Route.Unicast (rt : L3Route) : Prop where
  unicast : rt.attr.type = .ip4uc ∨ rt.attr.type = .ip6uc
  nhId : rt.nhId.toNat < 2 ^ 11
  action : rt.attr.action.toNat < 2 ^ 2
  qosPrio : rt.attr.qosPrio.toNat < 2 ^ 3

/-- The prefix length is one of the family. -/
def L3Route.LenFits (rt : L3Route) : Prop :=
  0 ≤ rt.prefixLen ∧ rt.prefixLen ≤ if rt.attr.type = .ip6uc then 128 else 32

/-- The two routes are of one family and for one destination address. -/
def SameDest (e rt : L3Route) : Prop :=
  e.attr.type = rt.attr.type ∧ if rt.attr.type = .ip6uc then e.dstIp6 = rt.dstIp6
    else e.dstIp = rt.dstIp

/-- `e` has what a host row holds of a route. -/
structure HostBack (e rt : L3Route) : Prop where
  attr : e.attr = rt.attr
  nhId : e.nhId = rt.nhId
  dest : SameDest e rt

/-- `e` has what a prefix row holds of a route. -/
structure RouteBack (e rt : L3Route) : Prop extends HostBack e rt where
  prefixLen : e.prefixLen = rt.prefixLen

section Write

variable {rt : L3Route}

theorem typeWord_eq (rt : L3Route) : typeWord rt = pack (typeParts rt) := by
  simp [typeWord, pack, typeParts, flagPart_word, word_mk]

theorem hostRouteWord_eq (rt : L3Route) : hostRouteWord rt = pack (hostParts rt) := by
  simp [hostRouteWord, pack, hostParts, flagPart_word, word_mk]

theorem attrWord_eq (rt : L3Route) (host : Int) : attrWord rt host = pack (attrParts rt host) := by
  simp [attrWord, pack, attrParts, flagPart_word, word_mk]

theorem typeWord_back (rt : L3Route) : (typeWord rt).getLsbD 31 = rt.attr.valid ∧
    RouteType.ofCode (bits (typeWord rt) 29 2) = rt.attr.type := by
  rw [typeWord_eq]
  exact ⟨getLsbD_pack_flag (typeParts_laid rt) (by simp [typeParts]),
    ofCode_bits (typeParts_laid rt) (by simp [typeParts])⟩

/-- The fields of a host row, whatever the entry held. -/
theorem hostFields_back (h : rt.Unicast) {e : L3Route} (hv : e.attr.valid = rt.attr.valid)
    (ht : e.attr.type = rt.attr.type) :
    (hostFields (hostRouteWord rt) e).attr = rt.attr ∧
      (hostFields (hostRouteWord rt) e).nhId = rt.nhId := by
  have hl := hostParts_laid rt
  rw [hostRouteWord_eq]
  constructor
  · simp only [hostFields, hv, ht]
    rw [getLsbD_pack_flag (b := rt.attr.hit) hl (by simp [hostParts]),
      getLsbD_pack_flag (b := rt.attr.ttlDec) hl (by simp [hostParts]),
      getLsbD_pack_flag (b := rt.attr.ttlCheck) hl (by simp [hostParts]),
      getLsbD_pack_flag (b := rt.attr.dstNull) hl (by simp [hostParts]),
      getLsbD_pack_flag (b := rt.attr.qosAs) hl (by simp [hostParts]),
      bits_pack (by decide) h.qosPrio hl (by simp [hostParts]),
      bits_pack (by decide) h.action hl (by simp [hostParts])]
  · exact bits_pack (by decide) h.nhId hl (by simp [hostParts])

/-- The fields of a prefix row. -/
theorem attrFields_back (h : rt.Unicast) (host : Int) {e : L3Route}
    (hv : e.attr.valid = rt.attr.valid) (ht : e.attr.type = rt.attr.type) :
    (attrFields (attrWord rt host) e).attr = rt.attr ∧
      (attrFields (attrWord rt host) e).nhId = rt.nhId := by
  have hl := attrParts_laid rt host
  rw [attrWord_eq]
  constructor
  · simp only [attrFields, hv, ht]
    rw [getLsbD_pack_flag (b := rt.attr.hit) hl (by simp [attrParts]),
      getLsbD_pack_flag (b := rt.attr.ttlDec) hl (by simp [attrParts]),
      getLsbD_pack_flag (b := rt.attr.ttlCheck) hl (by simp [attrParts]),
      getLsbD_pack_flag (b := rt.attr.dstNull) hl (by simp [attrParts]),
      getLsbD_pack_flag (b := rt.attr.qosAs) hl (by simp [attrParts]),
      bits_pack (by decide) h.qosPrio hl (by simp [attrParts]),
      bits_pack (by decide) h.action hl (by simp [attrParts])]
  · exact bits_pack (by decide) h.nhId hl (by simp [attrParts])

/-- The two flags are those of the ends, and the mask tells the lengths between. -/
theorem decodeLen_write (host : Int) {m : Nat} (h0 : 0 ≤ rt.prefixLen)
    (hm : m = rt.prefixLen.toNat) : decodeLen (attrWord rt host) host m = rt.prefixLen := by
  have hl := attrParts_laid rt host
  rw [attrWord_eq, decodeLen,
    getLsbD_pack_flag (b := rt.prefixLen = host) hl (by simp [attrParts]),
    getLsbD_pack_flag (b := rt.prefixLen = 0) hl (by simp [attrParts])]
  by_cases hh : rt.prefixLen = host
  · simp [hh]
  · rw [decide_eq_false hh, if_neg Bool.false_ne_true]
    by_cases hz : rt.prefixLen = 0
    · simp [hz]
    · simp [hz, hm, h0]

/-- A host row read back into any entry. -/
theorem hostRoute_back (h : rt.Unicast) (hv : rt.attr.valid = true) (e₀ : L3Route) :
    ∃ data e, hostRouteWrite rt = some data ∧ hostRouteDecode data e₀ = (true, e) ∧
      HostBack e rt := by
  have hb31 : (hostRouteWord rt)[31] = true := by
    rw [hostRouteWord_eq, ← BitVec.getLsbD_eq_getElem, ← hv]
    exact getLsbD_pack_flag (hostParts_laid rt) (by simp [hostParts])
  have htype : RouteType.ofCode (bits (hostRouteWord rt) 29 2) = rt.attr.type := by
    rw [hostRouteWord_eq]
    exact ofCode_bits (hostParts_laid rt) (by simp [hostParts])
  rcases h.unicast with ht | ht
  · obtain ⟨ha, hn⟩ := hostFields_back h
      (e := { e₀ with attr.valid := true, attr.type := .ip4uc, dstIp := rt.dstIp }) hv.symm ht.symm
    refine ⟨_, _, by rw [hostRouteWrite, ht], by simp [hostRouteDecode, hb31, htype, ht],
      ha, hn, ?_⟩
    rw [SameDest, ha, ht]
    exact ⟨rfl, rfl⟩
  · obtain ⟨ha, hn⟩ := hostFields_back h
      (e := { e₀ with attr.valid := true, attr.type := .ip6uc, dstIp6 := rt.dstIp6 })
      hv.symm ht.symm
    refine ⟨_, _, by rw [hostRouteWrite, ht], by simp [hostRouteDecode, hb31, htype, ht],
      ha, hn, ?_⟩
    rw [SameDest, ha, ht]
    exact ⟨rfl, rfl⟩

/-- A prefix row read back into any entry. -/
theorem route_back (h : rt.Unicast) (hlen : rt.LenFits) (hv : rt.attr.valid = true)
    (e₀ : L3Route) :
    ∃ data e, routeWrite rt = some data ∧ routeDecode data e₀ = (true, e) ∧ RouteBack e rt := by
  have hb31 : (typeWord rt)[31] = true := by
    rw [← BitVec.getLsbD_eq_getElem, (typeWord_back rt).1, hv]
  have htype := (typeWord_back rt).2
  obtain ⟨h0, hle⟩ := hlen
  rcases h.unicast with ht | ht
  · simp only [ht, reduceCtorEq, if_false] at hle
    have hl := decodeLen_write 32 h0 (inetMaskLen_make (n := rt.prefixLen.toNat) (by omega))
    obtain ⟨ha, hn⟩ := attrFields_back h 32
      (e := { e₀ with attr.valid := true, attr.type := .ip4uc, dstIp := rt.dstIp,
                      prefixLen := rt.prefixLen }) hv.symm ht.symm
    refine ⟨_, _, by rw [routeWrite, ht], by simp [routeDecode, hb31, htype, ht, hl],
      ⟨ha, hn, ?_⟩, rfl⟩
    rw [SameDest, ha, ht]
    exact ⟨rfl, rfl⟩
  · simp only [ht, if_true] at hle
    have hl := decodeLen_write 128 h0
      (mask6Len_net6Mask (n := rt.prefixLen.toNat) (by omega))
    obtain ⟨ha, hn⟩ := attrFields_back h 128
      (e := { e₀ with attr.valid := true, attr.type := .ip6uc, dstIp6 := rt.dstIp6,
                      prefixLen := rt.prefixLen }) hv.symm ht.symm
    refine ⟨_, _, by rw [routeWrite, ht], by simp [routeDecode, hb31, htype, ht, hl],
      ⟨ha, hn, ?_⟩, rfl⟩
    rw [SameDest, ha, ht]
    exact ⟨rfl, rfl⟩

end Write

/-- The route a row holds is this one: of one type, for one prefix, through one
next hop. -/
def SameRow (rt rt' : L3Route) : Prop :=
  SameDest rt rt' ∧ rt.prefixLen = rt'.prefixLen ∧ rt.nhId = rt'.nhId

instance (e rt : L3Route) : Decidable (SameDest e rt) := inferInstanceAs (Decidable (_ ∧ _))

instance (rt rt' : L3Route) : Decidable (SameRow rt rt') := inferInstanceAs (Decidable (_ ∧ _))

theorem SameDest.congr {e rt rt' : L3Route} (h : SameDest e rt) :
    SameDest e rt' ↔ SameDest rt rt' := by
  obtain ⟨ht, hd⟩ := h
  unfold SameDest
  rw [ht]
  refine and_congr_right fun htt => ?_
  rw [← htt]
  split
  · rename_i h6
    rw [if_pos h6] at hd
    rw [hd]
  · rename_i h6
    rw [if_neg h6] at hd
    rw [hd]

/-- The comparison looks at what `SameRow` names. -/
theorem routeMatches_of_decode {data : Vector (BitVec 32) 11} {entry e rt : L3Route}
    (h : routeDecode data entry = (true, e)) :
    routeMatches (.ok data) rt entry = if SameRow e rt then 1 else 0 := by
  simp only [routeMatches, h, SameRow, SameDest]
  by_cases ht : e.attr.type = rt.attr.type
  · by_cases hp : e.prefixLen = rt.prefixLen
    · by_cases hn : e.nhId = rt.nhId
      · by_cases h6 : rt.attr.type = .ip6uc
        · simp [ht, hp, hn, h6]
        · simp [ht, hp, hn, h6]
      · simp [hn]
    · simp [hp]
  · simp [ht]

/-- Rows of valid unicast routes are read back with every field, and a prefix
row matches a route exactly when it holds it. -/
theorem route_rows_back (rt : L3Route) (h : rt.Unicast) (hlen : rt.LenFits)
    (hv : rt.attr.valid = true) (e₀ : L3Route) :
    (∃ data e, routeWrite rt = some data ∧ routeDecode data e₀ = (true, e) ∧ RouteBack e rt ∧
      ∀ rt' entry, routeMatches (.ok data) rt' entry = if SameRow rt rt' then 1 else 0) ∧
      ∃ data e, hostRouteWrite rt = some data ∧ hostRouteDecode data e₀ = (true, e) ∧
        HostBack e rt := by
  refine ⟨?_, hostRoute_back h hv e₀⟩
  obtain ⟨data, e, hw, hd, hb⟩ := route_back h hlen hv e₀
  refine ⟨data, e, hw, hd, hb, fun rt' entry => ?_⟩
  obtain ⟨data', e', hw', hd', hb'⟩ := route_back h hlen hv entry
  obtain rfl : data' = data := Option.some.inj (hw'.symm.trans hw)
  rw [routeMatches_of_decode hd']
  have hsame : SameRow e' rt' ↔ SameRow rt rt' := by
    unfold SameRow
    rw [hb'.dest.congr, hb'.prefixLen, hb'.nhId]
  simp only [hsame]

/-- A route to 10.1.0.0/17 with the largest values of its fields. -/
def someRoute : L3Route where
  dstIp := 0x0a010000
  prefixLen := 17
  nhId := 2047
  attr := ⟨true, true, true, true, true, true, 7, .ip4uc, 3⟩

theorem someRoute_back : ∃ data, routeWrite someRoute = some data ∧
    routeMatches (.ok data) someRoute {} = 1 ∧
    routeMatches (.ok data) { someRoute with prefixLen := 16 } {} = 0 := by
  obtain ⟨⟨data, -, hw, -, -, hm⟩, -⟩ := route_rows_back someRoute
    ⟨.inl rfl, by decide, by decide, by decide⟩ ⟨by decide, by decide⟩ rfl {}
  exact ⟨data, hw, (hm someRoute {}).trans (by decide),
    (hm { someRoute with prefixLen := 16 } {}).trans (by decide)⟩

end Lede.Otto
