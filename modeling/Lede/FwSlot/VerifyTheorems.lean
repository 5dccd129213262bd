/-
Lede.FwSlot.VerifyTheorems — what `slot_verify` accepts.

The table-driven CRC is the bitwise one (`crc32Update_eq`), so pieces of a checksum can
be put together. Feeding the good blocks one after the other gives the checksums over
the payload, the bytes of the good blocks in order (`feedLoop_eq`); a slot is intact
exactly if its payload agrees with the header (`verify_eq_none_iff`).
-/
import Lede.FwSlot.Flash

namespace Lede.FwSlot

open Lede.Lib

/-! ## The CRC table -/

theorem crcBit_xor (x y : BitVec 32) : crcBit (x ^^^ y) = crcBit x ^^^ crcBit y := by
  unfold crcBit
  rw [BitVec.getLsbD_xor, BitVec.ushiftRight_xor_distrib]
  cases x.getLsbD 0 <;> cases y.getLsbD 0
  · simp
  · simp [BitVec.xor_assoc]
  · simp only [Bool.true_bne, Bool.not_false, if_true, Bool.false_eq_true, if_false]
    rw [BitVec.xor_assoc, BitVec.xor_assoc, BitVec.xor_comm (y >>> 1)]
  · simp only [bne_self_eq_false, Bool.false_eq_true, if_false, if_true]
    rw [BitVec.xor_comm (y >>> 1), BitVec.xor_assoc, ← BitVec.xor_assoc _ _ (y >>> 1),
      BitVec.xor_self, BitVec.zero_xor]

theorem iterate_crcBit_xor (n : Nat) (x y : BitVec 32) :
    Nat.iterate crcBit n (x ^^^ y) = Nat.iterate crcBit n x ^^^ Nat.iterate crcBit n y := by
  induction n generalizing x y with
  | zero => rfl
  | succ n ih =>
    rw [Function.iterate_succ_apply, Function.iterate_succ_apply, Function.iterate_succ_apply,
      crcBit_xor, ih]

/-- Bits that are not reached yet only move. -/
theorem iterate_crcBit_of_low {n : Nat} {z : BitVec 32} (h : ∀ j < n, z.getLsbD j = false) :
    Nat.iterate crcBit n z = z >>> n := by
  induction n generalizing z with
  | zero => simp
  | succ n ih =>
    have hbit : crcBit z = z >>> 1 := by
      unfold crcBit
      rw [h 0 (Nat.succ_pos n)]
      simp
    rw [Function.iterate_succ_apply, hbit, ih, Nat.add_comm, BitVec.shiftRight_add]
    intro j hj
    rw [BitVec.getLsbD_ushiftRight]
    exact h (1 + j) (by omega)

theorem crcTable_step (c : BitVec 32) (b : UInt8) :
    crcTable ((c ^^^ b.toBitVec.setWidth 32) &&& 0xff#32) ^^^ (c >>> 8) = crcByte c b := by
  have hlow : ∀ i < 32, (0xff#32).getLsbD i = decide (i < 8) := by decide
  have hhigh : ∀ i < 32, (0xffffff00#32).getLsbD i = decide (8 ≤ i) := by decide
  generalize hx : c ^^^ b.toBitVec.setWidth 32 = x
  -- the low byte goes through the table, the others only move
  have hsplit : x = (x &&& 0xff#32) ^^^ (x &&& 0xffffff00#32) := by
    apply BitVec.eq_of_getLsbD_eq
    intro i hi
    rw [BitVec.getLsbD_xor, BitVec.getLsbD_and, BitVec.getLsbD_and, hlow i hi, hhigh i hi]
    by_cases h8 : i < 8
    · have h8' : ¬ 8 ≤ i := by omega
      simp [h8, h8']
    · have h8' : 8 ≤ i := by omega
      simp [h8, h8']
  have hmove : (x &&& 0xffffff00#32) >>> 8 = c >>> 8 := by
    apply BitVec.eq_of_getLsbD_eq
    intro i hi
    rw [BitVec.getLsbD_ushiftRight, BitVec.getLsbD_ushiftRight, BitVec.getLsbD_and, ← hx,
      BitVec.getLsbD_xor, BitVec.getLsbD_setWidth]
    by_cases h32 : 8 + i < 32
    · have hge : 8 ≤ 8 + i := by omega
      rw [hhigh _ h32, BitVec.getLsbD_of_ge b.toBitVec (8 + i) hge]
      simp
    · rw [BitVec.getLsbD_of_ge c _ (by omega)]
      simp [h32]
  have hzero : ∀ j < 8, (x &&& 0xffffff00#32).getLsbD j = false := by
    intro j hj
    have hnot : ¬ 8 ≤ j := by omega
    rw [BitVec.getLsbD_and, hhigh j (by omega)]
    simp [hnot]
  unfold crcByte crcTable
  rw [hx]
  conv_rhs => rw [hsplit]
  rw [iterate_crcBit_xor, iterate_crcBit_of_low hzero, hmove]

theorem crc32Update_eq (c : BitVec 32) (m : Nat → UInt8) (o len : Nat) :
    crc32Update c m o len = crc32Le c m o len := by
  unfold crc32Update crc32Le
  simp only [crcTable_step]

/-- A bit step loses nothing: its top bit is the low bit that went out. -/
theorem crcBit_injective : Function.Injective crcBit := by
  have hzero : ∀ z, crcBit z = 0#32 → z = 0#32 := by
    intro z hz
    unfold crcBit at hz
    split at hz
    · have htop : ((z >>> 1) ^^^ 0xEDB88320#32).getLsbD 31 = true := by
        rw [BitVec.getLsbD_xor, BitVec.getLsbD_ushiftRight, BitVec.getLsbD_of_ge z (1 + 31) (by omega)]
        decide
      rw [hz] at htop
      cases htop
    · next hlow =>
      refine BitVec.eq_of_getLsbD_eq (fun i hi => ?_)
      cases i with
      | zero => simpa using hlow
      | succ i =>
        have hbit : (z >>> 1).getLsbD i = false := by rw [hz]; exact BitVec.getLsbD_zero
        rw [BitVec.getLsbD_ushiftRight, Nat.add_comm] at hbit
        rw [hbit, BitVec.getLsbD_zero]
  intro x y h
  have hxor : crcBit (x ^^^ y) = 0#32 := by rw [crcBit_xor, h, BitVec.xor_self]
  exact BitVec.xor_eq_zero_iff.mp (hzero _ hxor)

theorem crcByte_injective (b : UInt8) : Function.Injective (crcByte · b) := by
  intro x y h
  have hxor := crcBit_injective.iterate 8 h
  exact BitVec.xor_left_inj _ |>.mp hxor

theorem crc32Le_injective (m : Nat → UInt8) (o n : Nat) : Function.Injective (crc32Le · m o n) := by
  intro x y h
  induction n with
  | zero => exact h
  | succ n ih =>
    dsimp only at h
    rw [← crc32Le_append, ← crc32Le_append] at h
    exact ih (crcByte_injective _ h)

/-- The checksum sees a byte that differs. -/
theorem crc32_ne {m m' : Nat → UInt8} {n : Nat} (hfirst : m 0 ≠ m' 0)
    (hrest : ∀ i, 0 < i → i < n + 1 → m i = m' i) : crc32 m 0 (n + 1) ≠ crc32 m' 0 (n + 1) := by
  intro h
  unfold crc32 at h
  have h' := BitVec.xor_left_inj _ |>.mp (BitVec.eq_of_toNat_eq h)
  rw [crc32Update_eq, crc32Update_eq, Nat.add_comm, ← crc32Le_append, ← crc32Le_append,
    @crc32Le_congr _ m m' (0 + 1) n (fun i hi => hrest _ (by omega) (by omega))] at h'
  have hbyte := crc32Le_injective _ _ _ h'
  have hbits : 0xffffffff#32 ^^^ (m (0 + 0)).toBitVec.setWidth 32 =
      0xffffffff#32 ^^^ (m' (0 + 0)).toBitVec.setWidth 32 := crcBit_injective.iterate 8 hbyte
  have hwide := BitVec.xor_right_inj _ |>.mp hbits
  refine hfirst (UInt8.toBitVec_inj.mp (BitVec.eq_of_toNat_eq ?_))
  have hnat := congrArg BitVec.toNat hwide
  rw [BitVec.toNat_setWidth, BitVec.toNat_setWidth, Nat.mod_eq_of_lt (by omega),
    Nat.mod_eq_of_lt (by omega)] at hnat
  exact hnat

/-! ## Regions -/

/-- A region of which all bytes below `pos` were fed, from the payload `m`. -/
def Region.fed (m : Nat → UInt8) (pos : Nat) (r : Region) : Region :=
  { r with crc := crc32Le r.crc m r.start (min (pos - r.start) r.len) }

theorem Region.fed_zero (m : Nat → UInt8) (r : Region) : r.fed m 0 = r := by
  unfold Region.fed
  rw [Nat.zero_sub, Nat.zero_min]
  rfl

/-- Equal bytes at different places have one checksum. -/
theorem crc32Le_shift {m m' : Nat → UInt8} {o o' n : Nat} (c : BitVec 32)
    (h : ∀ i < n, m (o + i) = m' (o' + i)) : crc32Le c m o n = crc32Le c m' o' n := by
  unfold crc32Le
  induction n with
  | zero => rfl
  | succ n ih =>
    rw [List.range_succ, List.foldl_append, List.foldl_append, ih fun i hi => h i (by omega),
      List.foldl_cons, List.foldl_cons, h n (by omega)]
    rfl

/-- The next `n` bytes. -/
theorem Region.feed_fed {m buf : Nat → UInt8} {pos n : Nat} (r : Region)
    (hbuf : ∀ i < n, buf i = m (pos + i)) : (r.fed m pos).feed pos buf n = r.fed m (pos + n) := by
  unfold Region.feed Region.fed
  dsimp only
  rw [crc32Update_eq]
  generalize hlo : (if r.start < pos then pos else r.start) = lo
  generalize hhi : (if pos + n < r.start + r.len then pos + n else r.start + r.len) = hi
  have hlo : lo = max pos r.start := by
    rw [← hlo]
    split <;> omega
  have hhi : hi = min (pos + n) (r.start + r.len) := by
    rw [← hhi]
    split <;> omega
  by_cases hlt : lo < hi
  · have hfed : min (pos - r.start) r.len = lo - r.start := by omega
    have hnew : min (pos + n - r.start) r.len = (lo - r.start) + (hi - lo) := by omega
    have hat : r.start + (lo - r.start) = lo := by omega
    have hbytes := @crc32Le_shift buf m (lo - pos) lo (hi - lo)
      (crc32Le r.crc m r.start (lo - r.start)) (fun i hi' => by
        rw [hbuf (lo - pos + i) (by omega)]
        congr 1
        omega)
    rw [if_pos hlt, hfed, hnew, hbytes, ← crc32Le_append, hat]
  · -- nothing of the region lies among them
    have hsame : min (pos + n - r.start) r.len = min (pos - r.start) r.len := by omega
    rw [if_neg hlt, hsame]

/-! ## The payload -/

/-- The good blocks of a slot among the first `b`. -/
def Slot.goodBelow (s : Slot) (b : Nat) : List Nat := (List.range b).filter (fun i => !s.bad i)

/-- The bytes of the good blocks, in order. -/
def Slot.payload (g : Geom) (s : Slot) : Nat → UInt8 := fun i =>
  s.mem ((s.goodBelow s.blocks).getD (i / g.bs) 0) (i % g.bs)

section Payload

variable {g : Geom} {s : Slot}

theorem Geom.bs_pos (g : Geom) : 0 < g.bs := Nat.lt_of_lt_of_le (by decide) g.hdr_le

theorem goodBelow_succ_bad {b : Nat} (h : s.bad b = true) : s.goodBelow (b + 1) = s.goodBelow b := by
  simp [Slot.goodBelow, List.range_succ, h]

theorem goodBelow_succ_good {b : Nat} (h : s.bad b = false) :
    s.goodBelow (b + 1) = s.goodBelow b ++ [b] := by
  simp [Slot.goodBelow, List.range_succ, h]

/-- The blocks found first stay in place. -/
theorem goodBelow_mono {b c : Nat} (h : b ≤ c) : s.goodBelow b <+: s.goodBelow c := by
  induction c, h using Nat.le_induction with
  | base => exact List.prefix_rfl
  | succ c _ ih =>
    cases hbad : s.bad c with
    | false =>
      rw [goodBelow_succ_good hbad]
      exact ih.trans (List.prefix_append _ _)
    | true => rwa [goodBelow_succ_bad hbad]

theorem getD_of_prefix_lt {l m : List Nat} (h : l <+: m) {i : Nat} (hi : i < l.length) :
    m.getD i 0 = l.getD i 0 := by
  obtain ⟨t, rfl⟩ := h
  rw [List.getD_eq_getElem?_getD, List.getD_eq_getElem?_getD, List.getElem?_append_left hi]

/-- The payload in the block found next. -/
theorem payload_block {b : Nat} (hb : b < s.blocks) (hgood : s.bad b = false) {i : Nat}
    (hi : i < g.bs) : s.payload g ((s.goodBelow b).length * g.bs + i) = s.mem b i := by
  have hdiv : ((s.goodBelow b).length * g.bs + i) / g.bs = (s.goodBelow b).length := by
    rw [Nat.mul_comm, Nat.mul_add_div g.bs_pos, Nat.div_eq_of_lt hi, Nat.add_zero]
  have hmod : ((s.goodBelow b).length * g.bs + i) % g.bs = i := by
    rw [Nat.mul_comm, Nat.mul_add_mod, Nat.mod_eq_of_lt hi]
  have hpre := @goodBelow_mono s (b + 1) s.blocks hb
  rw [goodBelow_succ_good hgood] at hpre
  have hget := getD_of_prefix_lt hpre (i := (s.goodBelow b).length) (by simp)
  unfold Slot.payload
  rw [hdiv, hmod, hget, List.getD_eq_getElem?_getD, List.getElem?_append_right le_rfl]
  simp

/-- The loop of `slot_verify`, from block `b` on: the checksums over the payload, if the good blocks hold
it. -/
theorem feedLoop_eq {bodyLen : Nat} (rs : List Region) {fuel b pos : Nat}
    (hfuel : b + fuel = s.blocks) (hpos : pos = min ((s.goodBelow b).length * g.bs) bodyLen) :
    s.feedLoop g bodyLen fuel b pos (rs.map (·.fed (s.payload g) pos)) =
      if bodyLen ≤ (s.goodBelow s.blocks).length * g.bs then
        .ok (rs.map (·.fed (s.payload g) bodyLen))
      else .error "payload runs past the end of the slot" := by
  induction fuel generalizing b pos with
  | zero =>
    have hb : b = s.blocks := hfuel
    subst hb
    rw [Slot.feedLoop]
    by_cases hle : bodyLen ≤ (s.goodBelow s.blocks).length * g.bs
    · have hdone : pos = bodyLen := by omega
      rw [if_neg (by omega), if_pos hle, hdone]
    · rw [if_pos (by omega), if_neg hle]
  | succ fuel ih =>
    have hb : b < s.blocks := by omega
    have hmono : (s.goodBelow b).length * g.bs ≤ (s.goodBelow s.blocks).length * g.bs :=
      Nat.mul_le_mul_right _ (goodBelow_mono (by omega)).length_le
    rw [Slot.feedLoop]
    by_cases hlt : pos < bodyLen
    · rw [if_pos hlt]
      cases hbad : s.bad b with
      | true =>
        simp only [if_true]
        exact ih (by omega) (by rw [goodBelow_succ_bad hbad]; exact hpos)
      | false =>
        simp only [Bool.false_eq_true, if_false]
        have hat : pos = (s.goodBelow b).length * g.bs := by omega
        generalize hn : (if bodyLen - pos < g.bs then bodyLen - pos else g.bs) = n
        have hn : n = min (bodyLen - pos) g.bs := by
          rw [← hn]
          split <;> omega
        have hfed : (rs.map (·.fed (s.payload g) pos)).map (·.feed pos (s.mem b) n) =
            rs.map (·.fed (s.payload g) (pos + n)) := by
          rw [List.map_map]
          refine List.map_congr_left (fun r _ => ?_)
          refine r.feed_fed (fun i hi => ?_)
          rw [hat, payload_block hb hbad (by omega)]
        rw [hfed]
        refine ih (by omega) ?_
        rw [goodBelow_succ_good hbad, List.length_append, List.length_singleton, Nat.succ_mul]
        omega
    · have hdone : pos = bodyLen := by omega
      rw [if_neg hlt, if_pos (by omega), hdone]

end Payload

/-! ## Intact slots -/

/-- A payload that agrees with a header. -/
structure Intact (hdr payload : Nat → UInt8) : Prop where
  crc : crc32 hdr 0 hCrc = get32 hdr hCrc
  crc2 : crc32 hdr 0 hCrc2 = get32 hdr hCrc2
  order : get32 hdr hKernelFileofs ≤ get32 hdr hFsFileofs
  inside : ∀ r ∈ regions hdr, r.start + r.len ≤ get32 hdr hFwSize
  crcs : ∀ r ∈ regions hdr, crc32 payload r.start r.len = r.want

theorem checkRegions_eq_none_iff (rs : List Region) :
    checkRegions rs = none ↔ ∀ r ∈ rs, (r.crc ^^^ 0xffffffff#32).toNat = r.want := by
  induction rs with
  | nil => simp [checkRegions]
  | cons r rs ih =>
    rw [checkRegions, List.forall_mem_cons, ← ih]
    by_cases h : (r.crc ^^^ 0xffffffff#32).toNat = r.want
    · rw [if_neg (not_not.mpr h)]
      exact ⟨fun hrs => ⟨h, hrs⟩, fun hall => hall.2⟩
    · rw [if_pos h]
      exact ⟨fun hnone => (by cases hnone), fun hall => absurd hall.1 h⟩

theorem regions_crc {hdr : Nat → UInt8} {r : Region} (h : r ∈ regions hdr) :
    r.crc = 0xffffffff#32 := by
  simp only [regions, List.mem_cons, List.not_mem_nil, or_false] at h
  rcases h with rfl | rfl | rfl <;> rfl

/-- `slot_verify` finds nothing wrong exactly with the slots the good blocks of which hold
a payload that agrees with the header. -/
theorem verify_eq_none_iff (g : Geom) (s : Slot) (hdr : Nat → UInt8) :
    s.verify g hdr = none ↔
      Intact hdr (s.payload g) ∧ get32 hdr hFwSize ≤ (s.goodBelow s.blocks).length * g.bs := by
  have hall : (s.goodBelow s.blocks).length ≤ s.blocks := by
    have := List.length_filter_le (fun i => !s.bad i) (List.range s.blocks)
    rwa [List.length_range] at this
  have hsize := Nat.mul_le_mul_right g.bs hall
  have hstart : regions hdr = (regions hdr).map (·.fed (s.payload g) 0) := by
    conv_lhs => rw [← List.map_id (regions hdr)]
    exact List.map_congr_left (fun r _ => (r.fed_zero _).symm)
  have hloop := @feedLoop_eq g s (get32 hdr hFwSize) (regions hdr) s.blocks 0 0 (by omega)
    (by simp [Slot.goodBelow])
  rw [← hstart] at hloop
  unfold Slot.verify
  dsimp only
  rw [hloop]
  constructor
  · intro h
    split at h
    · cases h
    · next hcrcs =>
      split at h
      · cases h
      · next horder =>
        split at h
        · cases h
        · split at h
          · cases h
          · next hinside =>
            have hinside : ∀ r ∈ regions hdr, r.start + r.len ≤ get32 hdr hFwSize := by
              intro r hr
              by_contra hgt
              exact hinside (List.any_eq_true.mpr ⟨r, hr, by simpa using hgt⟩)
            by_cases hfit : get32 hdr hFwSize ≤ (s.goodBelow s.blocks).length * g.bs
            · rw [if_pos hfit] at h
              dsimp only at h
              rw [checkRegions_eq_none_iff] at h
              refine ⟨⟨?_, ?_, by omega, hinside, fun r hr => ?_⟩, hfit⟩
              · by_contra hne
                exact hcrcs (Or.inl hne)
              · by_contra hne
                exact hcrcs (Or.inr hne)
              · have := h _ (List.mem_map.mpr ⟨r, hr, rfl⟩)
                have hlen : min (get32 hdr hFwSize - r.start) r.len = r.len := by
                  have := hinside r hr
                  omega
                dsimp only [Region.fed] at this
                rw [hlen, regions_crc hr] at this
                rw [crc32, crc32Update_eq]
                exact this
            · rw [if_neg hfit] at h
              cases h
  · rintro ⟨hintact, hfit⟩
    have hcrcs : ¬ (crc32 hdr 0 hCrc ≠ get32 hdr hCrc ∨ crc32 hdr 0 hCrc2 ≠ get32 hdr hCrc2) := by
      rintro (hne | hne)
      · exact hne hintact.crc
      · exact hne hintact.crc2
    have hany : ¬ ((regions hdr).any (fun r => get32 hdr hFwSize < r.start + r.len)) = true := by
      intro hany
      obtain ⟨r, hr, hgt⟩ := List.any_eq_true.mp hany
      have := hintact.inside r hr
      have := of_decide_eq_true hgt
      omega
    have horder := hintact.order
    rw [if_neg hcrcs, if_neg (by omega), if_neg (by omega), if_neg hany, if_pos hfit]
    dsimp only
    rw [checkRegions_eq_none_iff]
    intro r' hr'
    obtain ⟨r, hr, rfl⟩ := List.mem_map.mp hr'
    have hlen : min (get32 hdr hFwSize - r.start) r.len = r.len := by
      have := hintact.inside r hr
      omega
    have hcrc := hintact.crcs r hr
    rw [crc32, crc32Update_eq] at hcrc
    dsimp only [Region.fed]
    rw [hlen, regions_crc hr]
    exact hcrc

end Lede.FwSlot
