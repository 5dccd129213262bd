/-
Lede.FwSlot.FlashTheorems — what `cmd_flash` leaves in the slot.

Writing keeps one invariant (`Laid`): the good blocks passed so far hold the beginning
of the body, and those ahead are erased. A write that fails takes its block out of the
good ones, so it never tears the body apart. After a flash that succeeded the payload of
the slot is the body of the package, and `slot_verify` decides on the package alone
(`cmdFlash_verify_iff`).
-/
import Lede.FwSlot.VerifyTheorems

namespace Lede.FwSlot

open Lede.Lib

/-! ## Operations on a slot -/

section Ops

variable {s : Slot}

theorem mem_setBlock (s : Slot) (b : Nat) (m : Nat → UInt8) (i : Nat) :
    (s.setBlock b m).mem i = if i = b then m else s.mem i := rfl

theorem erasedBlock_and (data : Nat → UInt8) : (fun i => erasedBlock i &&& data i) = data := by
  funext i
  exact UInt8.neg_one_and

/-- The table below `b` decides on the good blocks below `b`. -/
theorem goodBelow_congr {s t : Slot} {b : Nat} (h : ∀ x < b, t.bad x = s.bad x) :
    t.goodBelow b = s.goodBelow b := by
  unfold Slot.goodBelow
  refine List.filter_congr (fun x hx => ?_)
  rw [h x (List.mem_range.mp hx)]

theorem mem_goodBelow {b x : Nat} : x ∈ s.goodBelow b ↔ x < b ∧ s.bad x = false := by
  simp [Slot.goodBelow]

/-- The blocks of a list, erased. -/
theorem applyAll_erase (s : Slot) (l : List Nat) :
    s.applyAll (l.map .erase) =
      { s with mem := fun b => if b ∈ l then erasedBlock else s.mem b } := by
  induction l generalizing s with
  | nil => simp [Slot.applyAll]
  | cons a l ih =>
    have hcons : s.applyAll ((a :: l).map .erase) = (s.apply (.erase a)).applyAll (l.map .erase) := rfl
    rw [hcons, ih]
    unfold Slot.apply Slot.setBlock
    congr 1
    funext b
    dsimp only
    by_cases hl : b ∈ l
    · rw [if_pos hl, if_pos (List.mem_cons_of_mem a hl)]
    · rw [if_neg hl]
      by_cases hb : b = a
      · rw [if_pos hb, if_pos (by rw [hb]; exact List.mem_cons_self)]
      · rw [if_neg hb, if_neg (fun h => (List.mem_cons.mp h).elim hb hl)]

theorem applyAll_append (s : Slot) (ops ops' : List Op) :
    s.applyAll (ops ++ ops') = (s.applyAll ops).applyAll ops' := List.foldl_append

theorem applyAll_blocks (s : Slot) (ops : List Op) : (s.applyAll ops).blocks = s.blocks := by
  induction ops generalizing s with
  | nil => rfl
  | cons op ops ih =>
    have hcons : s.applyAll (op :: ops) = (s.apply op).applyAll ops := rfl
    rw [hcons, ih]
    cases op <;> rfl

/-- A block write leaves what its operations make of the slot. -/
theorem writeBlock_slot (fails : Nat → Bool) (data : Nat → UInt8) (fuel b : Nat) (s : Slot) :
    (writeBlock fails data fuel b s).slot = s.applyAll (writeBlock fails data fuel b s).ops := by
  induction fuel generalizing b s with
  | zero => rfl
  | succ fuel ih =>
    rw [writeBlock]
    split
    · exact ih (b + 1) s
    · split
      · exact ih (b + 1) (s.apply (.fail b))
      · rfl

theorem writeBody_slot (g : Geom) (fails : Nat → Bool) (n : Nat) (src : Nat → UInt8) (left b : Nat)
    (s : Slot) :
    (writeBody g fails n src left b s).slot = s.applyAll (writeBody g fails n src left b s).ops := by
  induction n generalizing src left b s with
  | zero => rfl
  | succ n ih =>
    rw [writeBody]
    split
    · rfl
    · dsimp only
      split
      · exact writeBlock_slot ..
      · dsimp only
        rw [ih, writeBlock_slot, applyAll_append]

theorem writeSlot_slot (g : Geom) (fails : Nat → Bool) (p : Package) (hdr : Nat → UInt8) (s : Slot) :
    (writeSlot g fails p hdr s).slot = s.applyAll (writeSlot g fails p hdr s).ops := by
  unfold writeSlot
  dsimp only
  split
  · exact writeBody_slot ..
  · dsimp only
    rw [writeBlock_slot, writeBody_slot, applyAll_append]

/-- `cmd_flash` leaves what its operations make of the slot, whatever it reports. -/
theorem cmdFlash_slot (g : Geom) (fails : Nat → Bool) (p : Package) (f : Flash) (running : Fin 2) :
    (cmdFlash g fails p f running).slot =
      (f (running + 1)).applyAll (cmdFlash g fails p f running).ops := by
  generalize hd : cmdFlash g fails p f running = d
  unfold cmdFlash at hd
  dsimp only at hd
  split at hd
  · subst hd
    rfl
  · split at hd
    · subst hd
      rfl
    · split at hd
      · subst hd
        dsimp only
        rw [applyAll_append, writeSlot_slot]
      · split at hd
        · subst hd
          dsimp only
          rw [applyAll_append, writeSlot_slot]
        · subst hd
          dsimp only
          rw [applyAll_append, writeSlot_slot]

theorem eraseOps_eq (s : Slot) : eraseOps s = (s.goodBelow s.blocks).map .erase := rfl

end Ops

/-! ## Writing a block -/

/-- From `s` to `t` one block was written, at `c`, the first good one at or after `b`. -/
structure Wrote (s t : Slot) (b c : Nat) (data : Nat → UInt8) : Prop where
  blocks : t.blocks = s.blocks
  ge : b ≤ c
  lt : c < s.blocks
  good : t.goodBelow (c + 1) = s.goodBelow b ++ [c]
  mem : t.mem = (s.setBlock c data).mem
  after : ∀ x, c < x → t.bad x = s.bad x

/-- The good blocks at and after `b` are erased. -/
def Blank (s : Slot) (b : Nat) : Prop :=
  ∀ x, b ≤ x → x < s.blocks → s.bad x = false → s.mem x = erasedBlock

theorem writeBlock_wrote {fails : Nat → Bool} {data : Nat → UInt8} {fuel b b' : Nat} {s : Slot}
    (hfuel : b + fuel = s.blocks) (hblank : Blank s b)
    (h : (writeBlock fails data fuel b s).result = some b') :
    ∃ c, b' = c + 1 ∧ Wrote s (writeBlock fails data fuel b s).slot b c data := by
  induction fuel generalizing b s with
  | zero => cases h
  | succ fuel ih =>
    rw [writeBlock] at h ⊢
    cases hbad : s.bad b with
    | true =>
      simp only [hbad, if_true] at h ⊢
      obtain ⟨c, hc, hw⟩ := ih (by omega) (fun x hx => hblank x (by omega)) h
      refine ⟨c, hc, hw.blocks, Nat.le_of_succ_le hw.ge, hw.lt, ?_, hw.mem, hw.after⟩
      rw [hw.good, goodBelow_succ_bad hbad]
    | false =>
      simp only [hbad, Bool.false_eq_true, if_false] at h ⊢
      cases hfail : fails b with
      | true =>
        -- the block is bad from now on
        simp only [hfail, if_true] at h ⊢
        have hblank' : Blank (s.apply (.fail b)) (b + 1) := by
          intro x hx hlt hgood
          have hne : (x == b) = false := beq_eq_false_iff_ne.mpr (by omega)
          dsimp only [Slot.apply] at hgood hlt ⊢
          rw [hne, Bool.false_or] at hgood
          exact hblank x (by omega) hlt hgood
        obtain ⟨c, hc, hw⟩ := ih (s := s.apply (.fail b)) (by dsimp only [Slot.apply]; omega) hblank' h
        refine ⟨c, hc, hw.blocks, Nat.le_of_succ_le hw.ge, hw.lt, ?_, hw.mem, fun x hx => ?_⟩
        · have hself : (s.apply (.fail b)).bad b = true := by simp [Slot.apply]
          rw [hw.good, goodBelow_succ_bad hself, goodBelow_congr (s := s) (fun x hx => ?_)]
          have hne : (x == b) = false := beq_eq_false_iff_ne.mpr (by omega)
          simp [Slot.apply, hne]
        · have hge := hw.ge
          have hne : (x == b) = false := beq_eq_false_iff_ne.mpr (by omega)
          rw [hw.after x hx]
          simp [Slot.apply, hne]
      | false =>
        simp only [hfail, Bool.false_eq_true, if_false] at h ⊢
        cases h
        have hmem := hblank b le_rfl (by omega) hbad
        refine ⟨b, rfl, rfl, le_rfl, by omega, ?_, ?_, fun x _ => rfl⟩
        · exact goodBelow_succ_good (s := s.apply (.program b data)) hbad
        · dsimp only [Slot.apply]
          rw [hmem, erasedBlock_and]

theorem Wrote.blank {s t : Slot} {b c : Nat} {data : Nat → UInt8} (h : Wrote s t b c data)
    (hblank : Blank s b) : Blank t (c + 1) := by
  intro x hx hlt hgood
  have hge := h.ge
  rw [h.blocks] at hlt
  rw [h.after x hx] at hgood
  rw [h.mem, mem_setBlock, if_neg (by omega)]
  exact hblank x (by omega) hlt hgood

/-! ## Writing the body -/

/-- The good blocks below `b` are `k` blocks and hold the first bytes of `body`; the others
are erased. -/
structure Laid (g : Geom) (body : Nat → UInt8) (len : Nat) (s : Slot) (b k : Nat) : Prop where
  le : b ≤ s.blocks
  count : (s.goodBelow b).length = k
  bytes : ∀ i < k * g.bs, i < len →
    s.mem ((s.goodBelow b).getD (i / g.bs) 0) (i % g.bs) = body i
  blank : Blank s b

section Body

variable {g : Geom} {body : Nat → UInt8} {len : Nat} {s t : Slot} {b c k : Nat}
  {data : Nat → UInt8}

/-- A block below `b` is not the one written. -/
theorem getD_goodBelow_lt {i : Nat} (hi : i < (s.goodBelow b).length) :
    (s.goodBelow b).getD i 0 < b := by
  have hmem : (s.goodBelow b).getD i 0 ∈ s.goodBelow b := by
    rw [List.getD_eq_getElem?_getD, List.getElem?_eq_getElem hi, Option.getD_some]
    exact List.getElem_mem hi
  exact (mem_goodBelow.mp hmem).1

/-- What was laid stays, whatever the next block holds. -/
theorem Laid.old (h : Laid g body len s b k) (hw : Wrote s t b c data) {i : Nat}
    (hi : i < k * g.bs) (hlen : i < len) :
    t.mem ((t.goodBelow (c + 1)).getD (i / g.bs) 0) (i % g.bs) = body i := by
  have hidx : i / g.bs < (s.goodBelow b).length := by
    rw [h.count]
    exact (Nat.div_lt_iff_lt_mul g.bs_pos).mpr hi
  have hget : (t.goodBelow (c + 1)).getD (i / g.bs) 0 = (s.goodBelow b).getD (i / g.bs) 0 := by
    rw [hw.good]
    exact getD_of_prefix_lt (List.prefix_append _ _) hidx
  have hlt := getD_goodBelow_lt hidx
  have hge := hw.ge
  rw [hget, hw.mem, mem_setBlock, if_neg (by omega)]
  exact h.bytes i hi hlen

theorem Laid.write (h : Laid g body len s b k) (hw : Wrote s t b c data)
    (hdata : ∀ i < g.bs, k * g.bs + i < len → data i = body (k * g.bs + i)) :
    Laid g body len t (c + 1) (k + 1) := by
  refine ⟨by rw [hw.blocks]; exact hw.lt, ?_, fun i hi hlen => ?_, hw.blank h.blank⟩
  · rw [hw.good, List.length_append, h.count, List.length_singleton]
  · by_cases hold : i < k * g.bs
    · exact h.old hw hold hlen
    · -- the byte lies in the block just written
      obtain ⟨j, rfl⟩ : ∃ j, i = k * g.bs + j := ⟨i - k * g.bs, by omega⟩
      rw [Nat.succ_mul] at hi
      have hdiv : (k * g.bs + j) / g.bs = k := by
        rw [Nat.mul_comm, Nat.mul_add_div g.bs_pos, Nat.div_eq_of_lt (by omega), Nat.add_zero]
      have hmod : (k * g.bs + j) % g.bs = j := by
        rw [Nat.mul_comm, Nat.mul_add_mod, Nat.mod_eq_of_lt (by omega)]
      have hget : (t.goodBelow (c + 1)).getD k 0 = c := by
        rw [hw.good, List.getD_eq_getElem?_getD, ← h.count, List.getElem?_append_right le_rfl]
        simp
      rw [hdiv, hmod, hget, hw.mem, mem_setBlock, if_pos rfl]
      exact hdata j (by omega) hlen

theorem chunk_eq {src : Nat → UInt8} {left i : Nat} (hi : i < left) : chunk g src left i = src i := by
  unfold chunk
  split
  · exact if_pos hi
  · rfl

theorem writeBody_laid {fails : Nat → Bool} {n b' : Nat} (h : Laid g body len s b k)
    (hn : len - k * g.bs ≤ n * g.bs)
    (hres : (writeBody g fails n (fun i => body (k * g.bs + i)) (len - k * g.bs) b s).result =
      some b') :
    ∃ k', len ≤ k' * g.bs ∧
      Laid g body len
        (writeBody g fails n (fun i => body (k * g.bs + i)) (len - k * g.bs) b s).slot b' k' := by
  induction n generalizing s b k with
  | zero =>
    rw [writeBody] at hres ⊢
    cases hres
    exact ⟨k, by omega, h⟩
  | succ n ih =>
    rw [writeBody] at hres ⊢
    by_cases hleft : len - k * g.bs = 0
    · rw [if_pos hleft] at hres ⊢
      cases hres
      exact ⟨k, by omega, h⟩
    · rw [if_neg hleft] at hres ⊢
      dsimp only at hres ⊢
      have hwrote := @writeBlock_wrote fails
        (chunk g (fun i => body (k * g.bs + i)) (len - k * g.bs)) (s.blocks - b) b
      cases hb : (writeBlock fails (chunk g (fun i => body (k * g.bs + i)) (len - k * g.bs))
          (s.blocks - b) b s).result with
      | none =>
        rw [hb] at hres
        dsimp only at hres
        rw [hb] at hres
        cases hres
      | some b₁ =>
        rw [hb] at hres
        dsimp only at hres ⊢
        have hle := h.le
        obtain ⟨c, rfl, hw⟩ := hwrote (by omega) h.blank hb
        have hlaid := h.write hw (fun i hi hlen => chunk_eq (by omega))
        have hsrc : (fun i => body (k * g.bs + (g.bs + i))) = fun i => body ((k + 1) * g.bs + i) := by
          funext i
          rw [Nat.succ_mul, Nat.add_assoc]
        have hrest : len - k * g.bs - g.bs = len - (k + 1) * g.bs := by
          rw [Nat.succ_mul]
          omega
        rw [hsrc, hrest] at hres ⊢
        refine ih hlaid ?_ hres
        rw [Nat.succ_mul] at hn ⊢
        omega

end Body

/-! ## The header that is written -/

section Header

variable {hdr : Nat → UInt8} {slot : Fin 2} {serial : Nat}

/-- In front of the slot start, the header is the package's. -/
theorem newHeader_of_lt {i : Nat} (hi : i < hSlotStart) : newHeader hdr slot serial i = hdr i := by
  unfold hSlotStart at hi
  unfold newHeader
  dsimp only [hSlotStart, hSerial, hNew, hCrc2]
  rw [put32_of_not_mem _ _ (by omega), put32_of_not_mem _ _ (by omega),
    put32_of_not_mem _ _ (by omega), put32_of_not_mem _ _ (by omega)]

theorem get32_newHeader {o : Nat} (ho : o + 4 ≤ hSlotStart) :
    get32 (newHeader hdr slot serial) o = get32 hdr o :=
  get32_congr (fun _ _ => newHeader_of_lt (by omega))

theorem crc32_congr {m m' : Nat → UInt8} {o n : Nat} (h : ∀ i < n, m (o + i) = m' (o + i)) :
    crc32 m o n = crc32 m' o n := by
  rw [crc32, crc32, crc32Update_eq, crc32Update_eq, crc32Le_congr _ h]

theorem crc32_lt (m : Nat → UInt8) (o n : Nat) : crc32 m o n < 2 ^ 32 := BitVec.isLt _

/-- A second CRC put behind the bytes it is over. -/
theorem crc32_put_crc2 (h : Nat → UInt8) :
    crc32 (put32 h hCrc2 (crc32 h 0 hCrc2)) 0 hCrc2 =
      get32 (put32 h hCrc2 (crc32 h 0 hCrc2)) hCrc2 := by
  rw [get32_put32_self, Nat.mod_eq_of_lt (crc32_lt _ _ _)]
  refine crc32_congr (fun i hi => put32_of_not_mem _ _ ?_)
  omega

theorem crc2_newHeader :
    crc32 (newHeader hdr slot serial) 0 hCrc2 = get32 (newHeader hdr slot serial) hCrc2 :=
  crc32_put_crc2 _

theorem regions_newHeader : regions (newHeader hdr slot serial) = regions hdr := by
  unfold regions
  rw [get32_newHeader (by decide), get32_newHeader (by decide), get32_newHeader (by decide),
    get32_newHeader (by decide), get32_newHeader (by decide), get32_newHeader (by decide),
    get32_newHeader (by decide)]

end Header

/-! ## Flashing -/

/-- The three descriptions of the layout agree: the regions lie in the body where
`slot_verify` looks for them, and what is there has the CRCs of the header. -/
structure Package.LayoutAgrees (p : Package) : Prop where
  order : get32 p.hdr hKernelFileofs ≤ get32 p.hdr hFsFileofs
  inside : ∀ r ∈ regions p.hdr, r.start + r.len ≤ p.bodyLen
  kernel : crc32 p.body (ubootSize + kernelMagicSize) (get32 p.hdr hKernelSize) =
    get32 p.hdr hKernelCrc
  fs : crc32 p.body (ubootSize + kernelMagicSize +
      (get32 p.hdr hFsFileofs - get32 p.hdr hKernelFileofs)) (get32 p.hdr hFsSize) =
    get32 p.hdr hFsCrc

/-- A check lets a package through when it finds nothing. -/
theorem check_ok {c : Prop} [Decidable c] {why : String} {rest : Except String Unit} :
    (if c then .error why else rest) = .ok () ↔ ¬ c ∧ rest = .ok () := by
  by_cases hc : c
  · simp [hc]
  · simp [hc]

/-- What a package that is accepted has been checked for, as far as it is used here. -/
theorem load_ok {p : Package} (h : p.load = .ok ()) :
    memEq p.hdr hInnerMagic innerMagic = true ∧ crc32 p.hdr 0 hCrc = get32 p.hdr hCrc ∧
      get32 p.hdr hFwSize = p.bodyLen ∧ crc32 p.body 0 ubootSize = get32 p.hdr hUbootCrc := by
  unfold Package.load at h
  dsimp only at h
  rw [check_ok, check_ok, check_ok, check_ok, check_ok, check_ok, check_ok, check_ok, check_ok] at h
  obtain ⟨-, -, -, hmagic, hcrcs, -, hsize, -, huboot, -⟩ := h
  refine ⟨by simpa using hmagic, ?_, not_not.mp hsize, not_not.mp huboot⟩
  by_contra hne
  exact hcrcs (Or.inl hne)

theorem forall_regions {hdr : Nat → UInt8} {q : Region → Prop} :
    (∀ r ∈ regions hdr, q r) ↔
      q ⟨"U-Boot CRC mismatch", 0, ubootSize, get32 hdr hUbootCrc, 0xffffffff#32⟩ ∧
      q ⟨"kernel CRC mismatch", ubootSize + kernelMagicSize, get32 hdr hKernelSize,
        get32 hdr hKernelCrc, 0xffffffff#32⟩ ∧
      q ⟨"root filesystem CRC mismatch", ubootSize + kernelMagicSize +
        (get32 hdr hFsFileofs - get32 hdr hKernelFileofs), get32 hdr hFsSize, get32 hdr hFsCrc,
        0xffffffff#32⟩ := by
  unfold regions
  rw [List.forall_mem_cons, List.forall_mem_cons, List.forall_mem_singleton]

/-- A slot in which the body is laid, for a header made from the package's. -/
theorem verify_iff_layoutAgrees {g : Geom} {p : Package} {t : Slot} (hload : p.load = .ok ())
    (hbytes : ∀ i < p.bodyLen, t.payload g i = p.body i)
    (hroom : p.bodyLen ≤ (t.goodBelow t.blocks).length * g.bs) (slot : Fin 2) (serial : Nat) :
    t.verify g (newHeader p.hdr slot serial) = none ↔ p.LayoutAgrees := by
  obtain ⟨-, hcrc, hsize, huboot⟩ := load_ok hload
  have hcrcs : ∀ start n, start + n ≤ p.bodyLen →
      crc32 (t.payload g) start n = crc32 p.body start n := fun start n hle =>
    crc32_congr (fun i hi => hbytes (start + i) (by omega))
  have hfirst : crc32 (newHeader p.hdr slot serial) 0 hCrc =
      get32 (newHeader p.hdr slot serial) hCrc := by
    rw [get32_newHeader (by decide), ← hcrc]
    refine crc32_congr (fun i hi => newHeader_of_lt ?_)
    have : hCrc ≤ hSlotStart := by decide
    omega
  rw [verify_eq_none_iff, get32_newHeader (by decide), hsize]
  constructor
  · rintro ⟨hintact, -⟩
    have hinside := hintact.inside
    have hwant := hintact.crcs
    rw [regions_newHeader, get32_newHeader (by decide), hsize] at hinside
    rw [regions_newHeader] at hwant
    have horder := hintact.order
    rw [get32_newHeader (by decide), get32_newHeader (by decide)] at horder
    have hboth : ∀ r ∈ regions p.hdr, crc32 p.body r.start r.len = r.want := by
      intro r hr
      rw [← hcrcs _ _ (hinside r hr)]
      exact hwant r hr
    obtain ⟨-, hkernel, hfs⟩ := forall_regions.mp hboth
    exact ⟨horder, hinside, hkernel, hfs⟩
  · intro hagrees
    refine ⟨⟨hfirst, crc2_newHeader, ?_, ?_, ?_⟩, hroom⟩
    · rw [get32_newHeader (by decide), get32_newHeader (by decide)]
      exact hagrees.order
    · rw [regions_newHeader, get32_newHeader (by decide), hsize]
      exact hagrees.inside
    · have hboth : ∀ r ∈ regions p.hdr, crc32 p.body r.start r.len = r.want :=
        forall_regions.mpr ⟨huboot, hagrees.kernel, hagrees.fs⟩
      rw [regions_newHeader]
      intro r hr
      rw [hcrcs _ _ (hagrees.inside r hr)]
      exact hboth r hr

/-- Body and header are written. -/
theorem writeSlot_wrote {g : Geom} {fails : Nat → Bool} {p : Package} {hdr : Nat → UInt8}
    {s : Slot} {b' : Nat} (hblank : Blank s 0) (h : (writeSlot g fails p hdr s).result = some b') :
    let r := (writeBody g fails (p.bodyLen / g.bs + 1) p.body p.bodyLen 0 s).slot
    ∃ b k c, p.bodyLen ≤ k * g.bs ∧ Laid g p.body p.bodyLen r b k ∧
      Wrote r (writeSlot g fails p hdr s).slot b c (hdrBlock hdr) := by
  have hstart : Laid g p.body p.bodyLen s 0 0 := by
    refine ⟨Nat.zero_le _, rfl, fun i hi => ?_, hblank⟩
    rw [Nat.zero_mul] at hi
    omega
  have henough : p.bodyLen - 0 * g.bs ≤ (p.bodyLen / g.bs + 1) * g.bs := by
    have hdiv := Nat.div_add_mod p.bodyLen g.bs
    have hmod := Nat.mod_lt p.bodyLen g.bs_pos
    rw [Nat.succ_mul, Nat.mul_comm (p.bodyLen / g.bs)]
    omega
  have hbody := fun b' => @writeBody_laid g p.body p.bodyLen s 0 0 fails (p.bodyLen / g.bs + 1) b'
    hstart henough
  simp only [Nat.zero_mul, Nat.zero_add, Nat.sub_zero] at hbody
  unfold writeSlot at h ⊢
  dsimp only at h ⊢
  generalize hr : writeBody g fails (p.bodyLen / g.bs + 1) p.body p.bodyLen 0 s = r at h hbody
  cases hres : r.result with
  | none =>
    simp only [hres] at h
    cases h
  | some b =>
    simp only [hres] at h ⊢
    obtain ⟨k, hk, hlaid⟩ := hbody b hres
    have hblocks : r.slot.blocks = s.blocks := by
      rw [← hr, writeBody_slot, applyAll_blocks]
    have hle := hlaid.le
    obtain ⟨c, -, hw⟩ := writeBlock_wrote (by omega) hlaid.blank h
    exact ⟨b, k, c, hk, hlaid, hw⟩

/-- The payload of a slot with body and header is the body. -/
theorem Laid.payload {g : Geom} {body data : Nat → UInt8} {len b k c : Nat} {s t : Slot}
    (h : Laid g body len s b k) (hk : len ≤ k * g.bs) (hw : Wrote s t b c data) :
    (∀ i < len, t.payload g i = body i) ∧ len ≤ (t.goodBelow t.blocks).length * g.bs := by
  have hpre := @goodBelow_mono t (c + 1) t.blocks (by rw [hw.blocks]; exact hw.lt)
  have hlen : (t.goodBelow (c + 1)).length = k + 1 := by
    rw [hw.good, List.length_append, h.count, List.length_singleton]
  constructor
  · intro i hi
    have hik : i < k * g.bs := by omega
    have hidx : i / g.bs < (t.goodBelow (c + 1)).length := by
      rw [hlen]
      exact Nat.lt_succ_of_lt ((Nat.div_lt_iff_lt_mul g.bs_pos).mpr hik)
    unfold Slot.payload
    rw [getD_of_prefix_lt hpre hidx]
    exact h.old hw hik hi
  · have hmono := Nat.mul_le_mul_right g.bs hpre.length_le
    rw [hlen, Nat.succ_mul] at hmono
    omega

/-- The block written is good, and holds what was written. -/
theorem Wrote.block {s t : Slot} {b c : Nat} {data : Nat → UInt8} (h : Wrote s t b c data) :
    c < t.blocks ∧ t.bad c = false ∧ t.mem c = data := by
  refine ⟨by rw [h.blocks]; exact h.lt, ?_, by rw [h.mem, mem_setBlock, if_pos rfl]⟩
  have hmem : c ∈ t.goodBelow (c + 1) := by
    rw [h.good]
    exact List.mem_append_right _ (List.mem_singleton.mpr rfl)
  exact (mem_goodBelow.mp hmem).2

/-- A flash that reports success has written body and header. -/
theorem cmdFlash_ok {g : Geom} {fails : Nat → Bool} {p : Package} {f : Flash} {running : Fin 2}
    {serial : Nat} {d : Done (Except String Nat)} (hd : cmdFlash g fails p f running = d)
    (h : d.result = .ok serial) :
    let s := f (running + 1)
    let r := writeSlot g fails p (newHeader p.hdr (running + 1) ((maxSerial f + 1) % 2 ^ 32))
      (s.applyAll (eraseOps s))
    p.load = .ok () ∧ (∃ b, r.result = some b) ∧ d.slot = r.slot := by
  unfold cmdFlash at hd
  dsimp only at hd ⊢
  split at hd
  · subst hd
    cases h
  · next hload =>
    split at hd
    · subst hd
      cases h
    · split at hd
      · subst hd
        cases h
      · next b hb =>
        split at hd
        · subst hd
          cases h
        · subst hd
          refine ⟨hload, ⟨b, hb⟩, ?_⟩
          dsimp only

theorem blank_erased (s : Slot) : Blank (s.applyAll (eraseOps s)) 0 := by
  rw [eraseOps_eq, applyAll_erase]
  intro x _ hlt hgood
  exact if_pos (mem_goodBelow.mpr ⟨hlt, hgood⟩)

/-! ## A flash that succeeds -/

theorem memEq_congr {m m' : Nat → UInt8} {o : Nat} {bytes : List UInt8}
    (h : ∀ i < bytes.length, m (o + i) = m' (o + i)) : memEq m o bytes = memEq m' o bytes := by
  unfold memEq
  rw [Bool.eq_iff_iff, List.all_eq_true, List.all_eq_true]
  constructor
  · intro hall i hi
    rw [← h i (List.mem_range.mp hi)]
    exact hall i hi
  · intro hall i hi
    rw [h i (List.mem_range.mp hi)]
    exact hall i hi

/-- What makes a header lies in its first bytes. -/
theorem isHeader_congr {m m' : Nat → UInt8} (h : ∀ i < hSlotStart, m i = m' i) :
    isHeader m = isHeader m' := by
  unfold hSlotStart at h
  unfold isHeader
  have hmagic : memEq m hInnerMagic innerMagic = memEq m' hInnerMagic innerMagic :=
    memEq_congr (fun i hi => h _ (by
      have hlen : innerMagic.length = 16 := rfl
      unfold hInnerMagic
      omega))
  have hcrc : crc32 m 0 hCrc = crc32 m' 0 hCrc :=
    crc32_congr (fun i hi => h _ (by unfold hCrc at hi; omega))
  have hget : get32 m hCrc = get32 m' hCrc :=
    get32_congr (fun i hi => h _ (by unfold hCrc; omega))
  rw [hmagic, hcrc, hget]

/-- The block with the new header is one. -/
theorem isHeader_hdrBlock {p : Package} (h : p.load = .ok ()) (slot : Fin 2) (serial : Nat) :
    isHeader (hdrBlock (newHeader p.hdr slot serial)) = true := by
  obtain ⟨hmagic, hcrc, -, -⟩ := load_ok h
  have hsame : ∀ i < hSlotStart, hdrBlock (newHeader p.hdr slot serial) i = p.hdr i := by
    intro i hi
    have hlt : i < verHdrSize := by
      unfold hSlotStart at hi
      unfold verHdrSize
      omega
    rw [hdrBlock, if_pos hlt, newHeader_of_lt hi]
  rw [isHeader_congr hsame, isHeader, hmagic, hcrc]
  simp

/-- A good header block is found. -/
theorem header_isSome {s : Slot} {b : Nat} (hb : b < s.blocks) (hgood : s.bad b = false)
    (hhdr : isHeader (s.mem b) = true) : ∃ h, s.header = some h := by
  unfold Slot.header
  cases hscan : s.scan with
  | some c => exact ⟨_, rfl⟩
  | none =>
    have hnone := List.find?_eq_none.mp hscan b (List.mem_range.mpr hb)
    rw [hgood, hhdr] at hnone
    exact absurd rfl hnone

section Faultless

variable {g : Geom} {fails : Nat → Bool} {s : Slot}

theorem writeBlock_faultless {data : Nat → UInt8} {fuel b : Nat} (hb : s.bad b = false)
    (hok : fails b = false) (hfuel : 0 < fuel) :
    writeBlock fails data fuel b s = ⟨s.apply (.program b data), [.program b data], some (b + 1)⟩ := by
  obtain ⟨n, rfl⟩ : ∃ n, fuel = n + 1 := ⟨fuel - 1, by omega⟩
  rw [writeBlock]
  simp [hb, hok]

/-- On a faultless slot the body needs as many blocks as it fills. -/
theorem writeBody_faultless {n : Nat} {src : Nat → UInt8} {left b : Nat}
    (hgood : ∀ x, s.bad x = false) (hok : ∀ x, fails x = false)
    (hroom : left + b * g.bs + g.bs ≤ s.blocks * g.bs) (hn : left ≤ n * g.bs) :
    ∃ b', (writeBody g fails n src left b s).result = some b' ∧ b' < s.blocks ∧
      (writeBody g fails n src left b s).slot.bad = s.bad := by
  have hbs := g.bs_pos
  induction n generalizing src left b s with
  | zero =>
    refine ⟨b, rfl, ?_, rfl⟩
    by_contra hge
    have := Nat.mul_le_mul_right g.bs (Nat.le_of_not_lt hge)
    omega
  | succ n ih =>
    have hb : b < s.blocks := by
      by_contra hge
      have := Nat.mul_le_mul_right g.bs (Nat.le_of_not_lt hge)
      omega
    rw [writeBody]
    by_cases hleft : left = 0
    · rw [if_pos hleft]
      exact ⟨b, rfl, hb, rfl⟩
    · rw [if_neg hleft, writeBlock_faultless (hgood b) (hok b) (by omega)]
      dsimp only
      rw [Nat.succ_mul] at hn
      by_cases hlast : left ≤ g.bs
      · -- nothing is left: the next turn ends the loop
        have hzero : left - g.bs = 0 := by omega
        have hnext : b + 1 < s.blocks := by
          by_contra hge
          have := Nat.mul_le_mul_right g.bs (Nat.le_of_not_lt hge)
          rw [Nat.succ_mul] at this
          omega
        rw [hzero]
        cases n with
        | zero => exact ⟨b + 1, rfl, hnext, rfl⟩
        | succ n =>
          rw [writeBody, if_pos rfl]
          exact ⟨b + 1, rfl, hnext, rfl⟩
      · refine ih (s := s.apply (.program b (chunk g src left))) hgood ?_ (by omega)
        dsimp only [Slot.apply, Slot.setBlock]
        rw [Nat.succ_mul]
        omega

end Faultless

/-- A package that fits is flashed to a faultless slot. -/
theorem cmdFlash_faultless {g : Geom} {fails : Nat → Bool} {p : Package} {f : Flash}
    {running : Fin 2} (hload : p.load = .ok ()) (hgood : ∀ b, (f (running + 1)).bad b = false)
    (hok : ∀ b, fails b = false)
    (hroom : p.bodyLen + g.bs ≤ (f (running + 1)).blocks * g.bs) :
    ∃ serial, (cmdFlash g fails p f running).result = .ok serial := by
  have hbs := g.bs_pos
  generalize hs : f (running + 1) = s at hgood hroom
  generalize hhdr : newHeader p.hdr (running + 1) ((maxSerial f + 1) % 2 ^ 32) = hdr
  have henough : p.bodyLen ≤ (p.bodyLen / g.bs + 1) * g.bs := by
    have hdiv := Nat.div_add_mod p.bodyLen g.bs
    have hmod := Nat.mod_lt p.bodyLen hbs
    rw [Nat.succ_mul, Nat.mul_comm (p.bodyLen / g.bs)]
    omega
  generalize he : s.applyAll (eraseOps s) = e
  have heblocks : e.blocks = s.blocks := by rw [← he, applyAll_blocks]
  have hebad : e.bad = s.bad := by rw [← he, eraseOps_eq, applyAll_erase]
  obtain ⟨b, hb, hlt, hbad⟩ := @writeBody_faultless g fails e (p.bodyLen / g.bs + 1) p.body p.bodyLen 0
    (fun x => by rw [hebad]; exact hgood x) hok (by rw [heblocks]; omega) henough
  have hrblocks : (writeBody g fails (p.bodyLen / g.bs + 1) p.body p.bodyLen 0 e).slot.blocks =
      e.blocks := by
    rw [writeBody_slot, applyAll_blocks]
  have hwrite : (writeSlot g fails p hdr e).result = some (b + 1) := by
    unfold writeSlot
    dsimp only
    rw [hb]
    dsimp only
    rw [writeBlock_faultless (by rw [hbad, hebad]; exact hgood b) (hok b) (by omega)]
  obtain ⟨b₁, k, c, -, -, hw⟩ := writeSlot_wrote (by rw [← he]; exact blank_erased s) hwrite
  obtain ⟨hlt', hgood', hmem⟩ := hw.block
  obtain ⟨h, hfound⟩ := header_isSome hlt' hgood' (by
    rw [hmem, ← hhdr]
    exact isHeader_hdrBlock hload _ _)
  refine ⟨serialOf h, ?_⟩
  unfold cmdFlash
  dsimp only
  rw [hload]
  dsimp only
  rw [hs, if_neg (by omega), hhdr, he, hwrite]
  dsimp only
  rw [hfound]

/-! ## A package -/

/-- The magic and the product of a version header. -/
def sampleNames : Nat → UInt8 := fun i =>
  if 0xf4 ≤ i ∧ i < 0xf4 + 16 then innerMagic.getD (i - 0xf4) 0
  else if 0x6c ≤ i ∧ i < 0x6c + 12 then Package.product.getD (i - 0x6c) 0
  else 0

/-- A version header without its checksums. -/
def sampleFields (koff : Nat) : Nat → UInt8 :=
  put32 (put32 sampleNames hFwSize (ubootSize + kernelMagicSize)) hKernelFileofs koff

/-- A U-Boot that is blank but for its first byte. -/
def sampleBody : Nat → UInt8 := fun i => if i = 0 then 0 else 0xff

/-- The checksums over the U-Boot and over the header itself. -/
def sampleHeader (koff : Nat) : Nat → UInt8 :=
  let h := put32 (sampleFields koff) hUbootCrc (crc32 sampleBody 0 ubootSize)
  let h := put32 h hCrc (crc32 h 0 hCrc)
  put32 h hCrc2 (crc32 h 0 hCrc2)

/-- A package with that header and U-Boot, and an empty kernel and root filesystem. -/
def samplePackage (koff : Nat) : Package where
  data := fun i =>
    if i < 16 then Package.outerMagic.getD i 0
    else if i < 0x14 then 0
    else if i < 0x14 + verHdrSize then sampleHeader koff (i - 0x14)
    else sampleBody (i - (0x14 + verHdrSize))
  size := 0x14 + verHdrSize + (ubootSize + kernelMagicSize)

section Sample

variable {koff : Nat}

theorem samplePackage_ofs : (samplePackage koff).hdrOfs = 0x14 ∧
    (samplePackage koff).bodyOfs = 0x14 + verHdrSize := by
  have hlen : get32 (samplePackage koff).data 0x10 = 0 := by
    simp [get32, get16, samplePackage]
  unfold Package.bodyOfs Package.hdrOfs
  rw [hlen]
  exact ⟨rfl, rfl⟩

theorem samplePackage_hdr {i : Nat} (hi : i < verHdrSize) :
    (samplePackage koff).hdr i = sampleHeader koff i := by
  unfold Package.hdr
  rw [samplePackage_ofs.1]
  unfold samplePackage
  dsimp only
  rw [if_neg (by omega), if_neg (by omega), if_pos (by omega), Nat.add_sub_cancel_left]

theorem samplePackage_body : (samplePackage koff).body = sampleBody := by
  funext i
  unfold Package.body
  rw [samplePackage_ofs.2]
  unfold samplePackage
  dsimp only
  rw [if_neg (by omega), if_neg (by omega), if_neg (by omega), Nat.add_sub_cancel_left]

theorem get32_samplePackage {o : Nat} (ho : o + 4 ≤ verHdrSize) :
    get32 (samplePackage koff).hdr o = get32 (sampleHeader koff) o :=
  get32_congr (fun _ _ => samplePackage_hdr (by omega))

/-- A field that is no checksum. -/
theorem get32_sampleHeader {o : Nat} (h₁ : o + 4 ≤ hUbootCrc ∨ hUbootCrc + 4 ≤ o)
    (h₂ : o + 4 ≤ hCrc ∨ hCrc + 4 ≤ o) (h₃ : o + 4 ≤ hCrc2 ∨ hCrc2 + 4 ≤ o) :
    get32 (sampleHeader koff) o = get32 (sampleFields koff) o := by
  unfold sampleHeader
  dsimp only
  rw [get32_put32_of_disjoint _ _ h₃, get32_put32_of_disjoint _ _ h₂,
    get32_put32_of_disjoint _ _ h₁]

theorem crc_sampleHeader : crc32 (sampleHeader koff) 0 hCrc = get32 (sampleHeader koff) hCrc := by
  unfold sampleHeader
  dsimp only
  rw [get32_put32_of_disjoint _ _ (by decide), get32_put32_self, Nat.mod_eq_of_lt (crc32_lt _ _ _)]
  refine crc32_congr (fun i hi => ?_)
  unfold hCrc at hi
  rw [put32_of_not_mem _ _ (by unfold hCrc2; omega), put32_of_not_mem _ _ (by unfold hCrc; omega)]

theorem uboot_sampleHeader :
    get32 (sampleHeader koff) hUbootCrc = crc32 sampleBody 0 ubootSize := by
  unfold sampleHeader
  dsimp only
  rw [get32_put32_of_disjoint _ _ (by decide), get32_put32_of_disjoint _ _ (by decide),
    get32_put32_self, Nat.mod_eq_of_lt (crc32_lt _ _ _)]

theorem crc32_empty (m : Nat → UInt8) (o : Nat) : crc32 m o 0 = 0 := by
  unfold crc32 crc32Update
  rw [List.range_zero, List.foldl_nil, BitVec.xor_self]
  rfl

theorem memEq_of_bytes {m : Nat → UInt8} {o : Nat} {bytes : List UInt8}
    (h : ∀ i < bytes.length, m (o + i) = bytes.getD i 0) : memEq m o bytes = true := by
  unfold memEq
  rw [List.all_eq_true]
  intro i hi
  rw [h i (List.mem_range.mp hi)]
  exact beq_self_eq_true _

/-- A field in front of the product that is not set. -/
theorem get32_sampleFields {o : Nat} (ho : o + 4 ≤ hProduct)
    (h₁ : o + 4 ≤ hKernelFileofs ∨ hKernelFileofs + 4 ≤ o)
    (h₂ : o + 4 ≤ hFwSize ∨ hFwSize + 4 ≤ o) : get32 (sampleFields koff) o = 0 := by
  unfold sampleFields
  rw [get32_put32_of_disjoint _ _ h₁, get32_put32_of_disjoint _ _ h₂]
  unfold hProduct at ho
  have hzero : ∀ i < 4, sampleNames (o + i) = leByte 0 i := by
    intro i hi
    unfold sampleNames
    rw [if_neg (by omega), if_neg (by omega)]
    simp [leByte]
  exact get32_of_bytes hzero

/-- The magic and the product lie between the fields. -/
theorem sampleHeader_between {i : Nat} (hi : (0x6c ≤ i ∧ i < 0x6c + 12) ∨
    (0xf4 ≤ i ∧ i < 0xf4 + 16)) : sampleHeader koff i = sampleNames i := by
  unfold sampleHeader sampleFields
  dsimp only [hCrc2, hCrc, hUbootCrc, hKernelFileofs, hFwSize]
  rw [put32_of_not_mem _ _ (by omega), put32_of_not_mem _ _ (by omega),
    put32_of_not_mem _ _ (by omega), put32_of_not_mem _ _ (by omega),
    put32_of_not_mem _ _ (by omega)]

/-- The fields in front of the first checksum. -/
theorem get32_samplePackage_fields {o : Nat} (ho : o + 4 ≤ hUbootCrc) :
    get32 (samplePackage koff).hdr o = get32 (sampleFields koff) o := by
  unfold hUbootCrc at ho
  rw [get32_samplePackage (by unfold verHdrSize; omega),
    get32_sampleHeader (Or.inl ho) (Or.inl (by unfold hCrc; omega)) (Or.inl (by unfold hCrc2; omega))]

theorem samplePackage_bodyLen : (samplePackage koff).bodyLen = ubootSize + kernelMagicSize := by
  have htotal : (samplePackage koff).size = 0x14 + verHdrSize + (ubootSize + kernelMagicSize) := rfl
  rw [Package.bodyLen, samplePackage_ofs.2, htotal, Nat.add_sub_cancel_left,
    Nat.mod_eq_of_lt (by decide)]

theorem samplePackage_koff (hk : koff < 2 ^ 20) :
    get32 (samplePackage koff).hdr hKernelFileofs = koff := by
  rw [get32_samplePackage_fields (by decide), sampleFields, get32_put32_self,
    Nat.mod_eq_of_lt (by omega)]

/-- Kernel and root filesystem are empty. -/
theorem samplePackage_empty :
    get32 (samplePackage koff).hdr hKernelSize = 0 ∧ get32 (samplePackage koff).hdr hKernelCrc = 0 ∧
      get32 (samplePackage koff).hdr hFsSize = 0 ∧ get32 (samplePackage koff).hdr hFsFileofs = 0 ∧
      get32 (samplePackage koff).hdr hFsCrc = 0 := by
  have hzero : ∀ o, o + 4 ≤ hProduct → (o + 4 ≤ hKernelFileofs ∨ hKernelFileofs + 4 ≤ o) →
      (o + 4 ≤ hFwSize ∨ hFwSize + 4 ≤ o) → get32 (samplePackage koff).hdr o = 0 := by
    intro o ho h₁ h₂
    unfold hProduct at ho
    rw [get32_samplePackage_fields (by unfold hUbootCrc; omega), get32_sampleFields ho h₁ h₂]
  exact ⟨hzero _ (by decide) (by decide) (by decide), hzero _ (by decide) (by decide) (by decide),
    hzero _ (by decide) (by decide) (by decide), hzero _ (by decide) (by decide) (by decide),
    hzero _ (by decide) (by decide) (by decide)⟩

/-- The checksums of the header hold. -/
theorem samplePackage_crcs :
    crc32 (samplePackage koff).hdr 0 hCrc = get32 (samplePackage koff).hdr hCrc ∧
      crc32 (samplePackage koff).hdr 0 hCrc2 = get32 (samplePackage koff).hdr hCrc2 := by
  constructor
  · rw [get32_samplePackage (by decide), ← crc_sampleHeader]
    exact crc32_congr (fun i hi => samplePackage_hdr (by unfold hCrc at hi; unfold verHdrSize; omega))
  · rw [get32_samplePackage (by decide)]
    have hself : crc32 (sampleHeader koff) 0 hCrc2 = get32 (sampleHeader koff) hCrc2 :=
      crc32_put_crc2 _
    rw [← hself]
    exact crc32_congr (fun i hi => samplePackage_hdr (by unfold hCrc2 at hi; unfold verHdrSize; omega))

theorem samplePackage_load (hk : koff < 2 ^ 20) : (samplePackage koff).load = .ok () := by
  obtain ⟨hcrc, hcrc2⟩ := @samplePackage_crcs koff
  have hkoff := samplePackage_koff hk
  obtain ⟨hks, hkc, hfs, hfo, hfc⟩ := @samplePackage_empty koff
  have hsize : get32 (samplePackage koff).hdr hFwSize = (samplePackage koff).bodyLen := by
    rw [get32_samplePackage_fields (by decide), sampleFields,
      get32_put32_of_disjoint _ _ (by decide), get32_put32_self, samplePackage_bodyLen,
      Nat.mod_eq_of_lt (by decide)]
  have houter : memEq (samplePackage koff).data 0 Package.outerMagic = true :=
    memEq_of_bytes (fun i hi => by
      rw [Nat.zero_add]
      exact if_pos hi)
  have hinner : memEq (samplePackage koff).hdr hInnerMagic innerMagic = true :=
    memEq_of_bytes (fun i hi => by
      have hlen : innerMagic.length = 16 := rfl
      have hlt : i < 16 := by omega
      unfold hInnerMagic
      rw [samplePackage_hdr (by unfold verHdrSize; omega),
        sampleHeader_between (Or.inr ⟨by omega, by omega⟩), sampleNames,
        if_pos ⟨by omega, by omega⟩, Nat.add_sub_cancel_left])
  have hproduct : memEq (samplePackage koff).hdr hProduct Package.product = true :=
    memEq_of_bytes (fun i hi => by
      have hlen : Package.product.length = 12 := rfl
      have hlt : i < 12 := by omega
      unfold hProduct
      rw [samplePackage_hdr (by unfold verHdrSize; omega),
        sampleHeader_between (Or.inl ⟨by omega, by omega⟩), sampleNames, if_neg (by omega),
        if_pos ⟨by omega, by omega⟩, Nat.add_sub_cancel_left])
  have huboot : crc32 (samplePackage koff).body 0 ubootSize =
      get32 (samplePackage koff).hdr hUbootCrc := by
    rw [samplePackage_body, get32_samplePackage (by decide), uboot_sampleHeader]
  have htotal : (samplePackage koff).size = 0x14 + verHdrSize + (ubootSize + kernelMagicSize) := rfl
  have hbig : 2 ^ 20 ≤ ubootSize := by decide
  unfold Package.load
  dsimp only
  rw [htotal, samplePackage_ofs.2, if_neg (by omega), houter, hinner, hproduct, hks, hkc, hfs, hfo,
    hfc, hkoff, crc32_empty, crc32_empty, if_neg (by simp), if_neg (by omega), if_neg (by simp),
    if_neg (by simp [hcrc, hcrc2]), if_neg (by simp), if_neg (by simp [hsize]),
    if_neg (by omega), if_neg (by simp [huboot]), if_neg (by simp), if_neg (by simp)]

/-- With the kernel in front of the root filesystem, the layouts agree. -/
theorem samplePackage_layoutAgrees : (samplePackage 0).LayoutAgrees := by
  have hkoff := @samplePackage_koff 0 (by decide)
  obtain ⟨hks, hkc, hfs, hfo, hfc⟩ := @samplePackage_empty 0
  refine ⟨by rw [hkoff, hfo], forall_regions.mpr ⟨?_, ?_, ?_⟩, ?_, ?_⟩
  · rw [samplePackage_bodyLen]
    decide
  · dsimp only
    rw [samplePackage_bodyLen, hks, Nat.add_zero]
  · dsimp only
    rw [samplePackage_bodyLen, hfo, hkoff, hfs, Nat.add_zero]
  · rw [hks, hkc, crc32_empty]
  · rw [hfs, hfc, crc32_empty]

end Sample

def nandGeom : Geom := ⟨0x20000, by decide, by decide⟩

/-- Two erased slots of 14 blocks. -/
def emptyFlash : Flash := fun _ => ⟨14, fun _ => false, fun _ => erasedBlock⟩

theorem samplePackage_fits (koff : Nat) :
    (samplePackage koff).bodyLen + nandGeom.bs ≤ (emptyFlash (0 + 1)).blocks * nandGeom.bs := by
  rw [samplePackage_bodyLen]
  decide

/-- For every package that is accepted, every slot and every set of writes that fail: a
flash that reports success leaves a slot `slot_verify` accepts, with the header that was
written, exactly if the layouts of the package agree. -/
theorem cmdFlash_verify_iff (g : Geom) (fails : Nat → Bool) (p : Package) (f : Flash)
    (running : Fin 2) (serial : Nat) (h : (cmdFlash g fails p f running).result = .ok serial) :
    (cmdFlash g fails p f running).slot.verify g
        (newHeader p.hdr (running + 1) ((maxSerial f + 1) % 2 ^ 32)) = none ↔
      p.LayoutAgrees := by
  obtain ⟨hload, ⟨b, hb⟩, hslot⟩ := cmdFlash_ok rfl h
  obtain ⟨b₁, k, c, hk, hlaid, hw⟩ := writeSlot_wrote (blank_erased _) hb
  obtain ⟨hbytes, hroom⟩ := hlaid.payload hk hw
  rw [hslot]
  exact verify_iff_layoutAgrees hload hbytes hroom (running + 1) _

/-- A package whose root filesystem lies in front of the kernel is accepted and flashed, and
then called damaged. -/
theorem cmdFlash_fs_before_kernel :
    (samplePackage 1).load = .ok () ∧
    ∃ serial, (cmdFlash nandGeom (fun _ => false) (samplePackage 1) emptyFlash 0).result = .ok serial ∧
      (cmdFlash nandGeom (fun _ => false) (samplePackage 1) emptyFlash 0).slot.verify nandGeom
        (newHeader (samplePackage 1).hdr (0 + 1) ((maxSerial emptyFlash + 1) % 2 ^ 32)) ≠ none := by
  have hload := @samplePackage_load 1 (by decide)
  obtain ⟨serial, hok⟩ := @cmdFlash_faultless nandGeom (fun _ => false) _ emptyFlash 0 hload
    (fun _ => rfl) (fun _ => rfl) (samplePackage_fits 1)
  refine ⟨hload, serial, hok, fun hnone => ?_⟩
  have horder := ((verify_eq_none_iff _ _ _).mp hnone).1.order
  rw [get32_newHeader (by decide), get32_newHeader (by decide), samplePackage_koff (by decide),
    samplePackage_empty.2.2.2.1] at horder
  omega

theorem cmdFlash_verify_iff_sample :
    ∃ serial, (cmdFlash nandGeom (fun _ => false) (samplePackage 0) emptyFlash 0).result = .ok serial ∧
      (cmdFlash nandGeom (fun _ => false) (samplePackage 0) emptyFlash 0).slot.verify nandGeom
        (newHeader (samplePackage 0).hdr (0 + 1) ((maxSerial emptyFlash + 1) % 2 ^ 32)) = none := by
  obtain ⟨serial, hok⟩ := @cmdFlash_faultless nandGeom (fun _ => false) _ emptyFlash 0
    (@samplePackage_load 0 (by decide)) (fun _ => rfl) (fun _ => rfl) (samplePackage_fits 0)
  exact ⟨serial, hok, (cmdFlash_verify_iff _ _ _ _ _ serial hok).mpr samplePackage_layoutAgrees⟩

end Lede.FwSlot
