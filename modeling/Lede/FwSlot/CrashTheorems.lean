/-
Lede.FwSlot.CrashTheorems — power cuts while a slot is flashed or switched.

`Reached` collects the states of a flash with its running slot: before, after and in the
middle of commands, and after a boot, which starts the slot `nextSlot` selects. The
bootloader does not fall back, so that slot must pass `slot_verify` (`Selects`).

While a slot is erased its old headers are still there, and the erase runs upwards, so
the payload goes first: what keeps the running slot selected is that none of them
outranks it (`Quiet`). Nothing in the tool sees to that. A command that meets `Meets` is
safe at every point, and so is every history of such commands (`reached_selects`).
-/
import Lede.FwSlot.FlashTheorems

namespace Lede.FwSlot

open Lede.Lib

/-! ## Histories -/

/-- The flash and the slot that is running. -/
structure St where
  flash : Flash
  running : Fin 2

inductive Cmd where
  | flash (fails : Nat → Bool) (p : Package)
  | switch

/-- What a command does to the slot that is not running. -/
def Cmd.ops (g : Geom) (st : St) : Cmd → List Op
  | .flash fails p => (cmdFlash g fails p st.flash st.running).ops
  | .switch => (cmdSwitch g st.flash st.running).ops

/-- The flash with another content of the slot that is not running. -/
def St.withOther (st : St) (t : Slot) : Flash := fun s =>
  if s = st.running + 1 then t else st.flash s

/-- The states of a history: a command is cut at any point, or comes to its end, which is
a point as well; a boot starts the slot that is selected. -/
inductive Reached (g : Geom) (ok : St → Cmd → Prop) (init : St) : St → Prop where
  | start : Reached g ok init init
  | cmd {st : St} (c : Cmd) {t : Slot} (h : Reached g ok init st) (hok : ok st c)
      (hcut : Cut (st.flash (st.running + 1)) (c.ops g st) t) :
      Reached g ok init ⟨st.withOther t, st.running⟩
  | boot {st : St} {s : Fin 2} (h : Reached g ok init st) (hs : nextSlot st.flash = some s) :
      Reached g ok init ⟨st.flash, s⟩

/-- A slot that passes `slot_verify` with the header that is found in it. -/
def Slot.Verified (g : Geom) (s : Slot) : Prop := ∃ h, s.header = some h ∧ s.verify g h = none

/-- The slot the bootloader starts passes `slot_verify`. -/
def Selects (g : Geom) (f : Flash) : Prop := ∀ s, nextSlot f = some s → (f s).Verified g

/-! ## Ranks -/

/-- Serial `a` in slot `o` is preferred to serial `b` in the other. -/
def Outranks (o : Fin 2) (a b : Nat) : Prop := if o = 0 then b ≤ a else b < a

/-- No version header in slot `o` is preferred to one with serial `n` in the other. -/
def Quiet (o : Fin 2) (n : Nat) (s : Slot) : Prop :=
  ∀ b < s.blocks, s.bad b = false → isHeader (s.mem b) = true → ¬ Outranks o (serialOf (s.mem b)) n

/-- A slot without a version header. -/
def NoHeader (s : Slot) : Prop := ∀ b < s.blocks, s.bad b = false → isHeader (s.mem b) = false

/-- What a command needs for a cut to be harmless. -/
def Meets (g : Geom) (st : St) : Cmd → Prop
  | .flash _ p =>
    (∀ h, (st.flash st.running).header = some h →
      Quiet (st.running + 1) (serialOf h) (st.flash (st.running + 1))) ∧
    (∀ k, isHeader (chunk g (fun i => p.body (k * g.bs + i)) (p.bodyLen - k * g.bs)) = false) ∧
    p.LayoutAgrees
  | .switch =>
    let s := st.flash (st.running + 1)
    ∀ b, s.scan = some b →
      (∀ h, (st.flash st.running).header = some h →
        Quiet (st.running + 1) (serialOf h) (s.setBlock b erasedBlock)) ∧
      get32 (s.mem b) hFwSize ≤ (s.goodBelow b).length * g.bs

section Ranks

variable {g : Geom} {f : Flash} {r : Fin 2} {h : Nat → UInt8}

theorem scan_spec {s : Slot} {b : Nat} (hs : s.scan = some b) :
    b < s.blocks ∧ s.bad b = false ∧ isHeader (s.mem b) = true := by
  have hfound := List.find?_some hs
  have hmem := List.mem_range.mp (List.mem_of_find?_eq_some hs)
  simp only [Bool.and_eq_true, Bool.not_eq_true'] at hfound
  exact ⟨hmem, hfound.1, hfound.2⟩

/-- The other slot is selected only by a header that is preferred. -/
theorem nextSlot_other (hr : (f r).header = some h) (hn : nextSlot f = some (r + 1)) :
    ∃ h', (f (r + 1)).header = some h' ∧ Outranks (r + 1) (serialOf h') (serialOf h) := by
  unfold nextSlot at hn
  match r with
  | 0 =>
    rw [hr] at hn
    cases h₁ : (f 1).header with
    | none =>
      rw [h₁] at hn
      exact absurd (Option.some.inj hn) (by decide)
    | some h' =>
      rw [h₁] at hn
      dsimp only at hn
      split at hn
      · next hlt => exact ⟨h', h₁, hlt⟩
      · exact absurd (Option.some.inj hn) (by decide)
  | 1 =>
    rw [hr] at hn
    cases h₀ : (f 0).header with
    | none =>
      rw [h₀] at hn
      exact absurd (Option.some.inj hn) (by decide)
    | some h' =>
      rw [h₀] at hn
      dsimp only at hn
      split at hn
      · exact absurd (Option.some.inj hn) (by decide)
      · next hle => exact ⟨h', h₀, Nat.le_of_not_lt hle⟩

/-- The header of a quiet slot is not preferred. -/
theorem Quiet.header {o : Fin 2} {n : Nat} {s : Slot} (hq : Quiet o n s) (hs : s.header = some h) :
    ¬ Outranks o (serialOf h) n := by
  unfold Slot.header at hs
  obtain ⟨b, hscan, rfl⟩ := Option.map_eq_some_iff.mp hs
  obtain ⟨hb, hgood, hhdr⟩ := scan_spec hscan
  exact hq b hb hgood hhdr

theorem NoHeader.quiet {s : Slot} (h : NoHeader s) (o : Fin 2) (n : Nat) : Quiet o n s := by
  intro b hb hgood hhdr
  rw [h b hb hgood] at hhdr
  cases hhdr

/-- The running slot is verified, and the other is quiet or verified: whichever is selected
is verified. -/
theorem selects_of_other (hr : (f r).header = some h) (hv : (f r).verify g h = none)
    (ho : Quiet (r + 1) (serialOf h) (f (r + 1)) ∨ (f (r + 1)).Verified g) : Selects g f := by
  intro s hs
  have hcases : ∀ r s : Fin 2, s = r ∨ s = r + 1 := by decide
  rcases hcases r s with rfl | rfl
  · exact ⟨h, hr, hv⟩
  · rcases ho with hq | hver
    · obtain ⟨h', hh', hout⟩ := nextSlot_other hr hs
      exact absurd hout (hq.header hh')
    · exact hver

end Ranks

/-! ## Cuts -/

section Cuts

variable {g : Geom} {s t : Slot} {o : Fin 2} {n : Nat}

theorem isHeader_erasedBlock : isHeader erasedBlock = false := by
  have hmagic : memEq erasedBlock hInnerMagic innerMagic = false := by decide
  rw [isHeader, hmagic, Bool.false_and]

/-- A cut falls into one part or the other. -/
theorem Cut.append {a b : List Op} (h : Cut s (a ++ b) t) : Cut s a t ∨ Cut (s.applyAll a) b t := by
  induction a generalizing s with
  | nil => exact Or.inr h
  | cons op a ih =>
    cases h with
    | stop => exact Or.inl (Cut.stop _ _)
    | torn _ _ _ _ _ hj => exact Or.inl (Cut.torn _ _ _ _ _ hj)
    | tornFail _ _ _ _ hj => exact Or.inl (Cut.tornFail _ _ _ _ hj)
    | step _ _ _ _ hcut =>
      rcases ih hcut with hcut | hcut
      · exact Or.inl (Cut.step _ _ _ _ hcut)
      · exact Or.inr hcut

/-- A block that is no header makes no noise. -/
theorem Quiet.setBlock (h : Quiet o n s) {b : Nat} {m : Nat → UInt8} (hm : isHeader m = false) :
    Quiet o n (s.setBlock b m) := by
  intro x hx hgood hhdr
  rw [mem_setBlock] at hhdr ⊢
  split at hhdr
  · rw [hm] at hhdr
    cases hhdr
  · next hne =>
    rw [if_neg hne]
    exact h x hx hgood hhdr

theorem NoHeader.setBlock (h : NoHeader s) {b : Nat} {m : Nat → UInt8} (hm : isHeader m = false) :
    NoHeader (s.setBlock b m) := by
  intro x hx hgood
  rw [mem_setBlock]
  split
  · exact hm
  · exact h x hx hgood

theorem NoHeader.fail (h : NoHeader s) (b : Nat) : NoHeader (s.apply (.fail b)) := by
  intro x hx hgood
  dsimp only [Slot.apply] at hgood ⊢
  exact h x hx (Bool.or_eq_false_iff.mp hgood).2

/-- Erasing keeps a slot quiet. -/
theorem Quiet.cut_erase (h : Quiet o n s) {l : List Nat} (hcut : Cut s (l.map .erase) t) :
    Quiet o n t := by
  induction l generalizing s with
  | nil =>
    cases hcut
    exact h
  | cons b l ih =>
    cases hcut with
    | stop => exact h
    | step _ _ _ _ hcut => exact ih (h.setBlock isHeader_erasedBlock) hcut

/-- After the erase there is no header. -/
theorem noHeader_erased (s : Slot) : NoHeader (s.applyAll (eraseOps s)) := by
  intro x hx hgood
  rw [blank_erased s x (Nat.zero_le x) hx hgood, isHeader_erasedBlock]

/-- Up to the end of a block write, there is no header. -/
theorem cut_writeBlock {fails : Nat → Bool} {data : Nat → UInt8} {fuel b : Nat} (h : NoHeader s)
    (hcut : Cut s (writeBlock fails data fuel b s).ops t) :
    NoHeader t ∨ (t = (writeBlock fails data fuel b s).slot ∧
      ∃ b', (writeBlock fails data fuel b s).result = some b') := by
  induction fuel generalizing b s with
  | zero =>
    rw [writeBlock] at hcut
    cases hcut
    exact Or.inl h
  | succ fuel ih =>
    rw [writeBlock] at hcut ⊢
    split at hcut
    · next hbad =>
      rw [if_pos hbad]
      exact ih h hcut
    · next hgood =>
      rw [if_neg hgood]
      split at hcut
      · next hfail =>
        rw [if_pos hfail]
        dsimp only at hcut ⊢
        cases hcut with
        | stop => exact Or.inl h
        | tornFail _ _ _ _ hj => exact Or.inl (h.setBlock hj)
        | step _ _ _ _ hcut => exact ih (h.fail b) hcut
      · next hok =>
        rw [if_neg hok]
        dsimp only at hcut ⊢
        cases hcut with
        | stop => exact Or.inl h
        | torn _ _ _ _ _ hj => exact Or.inl (h.setBlock hj)
        | step _ _ _ _ hcut =>
          cases hcut
          exact Or.inr ⟨rfl, b + 1, rfl⟩

/-- The good blocks after a block write were good before. -/
theorem Wrote.good_before {b c x : Nat} {data : Nat → UInt8} (hw : Wrote s t b c data)
    (hgood : t.bad x = false) (hne : x ≠ c) : s.bad x = false := by
  rcases Nat.lt_or_ge c x with hlt | hle
  · rw [← hw.after x hlt]
    exact hgood
  · have hmem : x ∈ t.goodBelow (c + 1) := mem_goodBelow.mpr ⟨by omega, hgood⟩
    rw [hw.good] at hmem
    rcases List.mem_append.mp hmem with hmem | hmem
    · exact (mem_goodBelow.mp hmem).2
    · exact absurd (List.mem_singleton.mp hmem) hne

/-- Only the block written may be a header. -/
theorem Wrote.isHeader_of_ne {b c x : Nat} {data : Nat → UInt8} (hw : Wrote s t b c data)
    (h : NoHeader s) (hx : x < t.blocks) (hgood : t.bad x = false) (hne : x ≠ c) :
    isHeader (t.mem x) = false := by
  rw [hw.mem, mem_setBlock, if_neg hne]
  exact h x (by rw [← hw.blocks]; exact hx) (hw.good_before hgood hne)

theorem Wrote.noHeader {b c : Nat} {data : Nat → UInt8} (hw : Wrote s t b c data) (h : NoHeader s)
    (hdata : isHeader data = false) : NoHeader t := by
  intro x hx hgood
  by_cases hxc : x = c
  · rw [hxc, hw.block.2.2]
    exact hdata
  · exact hw.isHeader_of_ne h hx hgood hxc

/-- A header that is written is found. -/
theorem Wrote.scan {b c : Nat} {data : Nat → UInt8} (hw : Wrote s t b c data) (h : NoHeader s)
    (hdata : isHeader data = true) : t.scan = some c := by
  obtain ⟨hlt, hgood, hmem⟩ := hw.block
  unfold Slot.scan
  rw [List.find?_range_eq_some]
  refine ⟨by rw [hgood, hmem, hdata]; rfl, List.mem_range.mpr hlt, fun x hx => ?_⟩
  cases hbad : t.bad x with
  | true => rfl
  | false =>
    rw [hw.isHeader_of_ne h (by omega) hbad (by omega)]
    rfl

/-- Through the whole body there is no header. -/
theorem cut_writeBody {fails : Nat → Bool} {n : Nat} {src : Nat → UInt8} {left b : Nat}
    (h : NoHeader s) (hblank : Blank s b) (hb : b ≤ s.blocks)
    (hchunk : ∀ k, isHeader (chunk g (fun i => src (k * g.bs + i)) (left - k * g.bs)) = false)
    (hcut : Cut s (writeBody g fails n src left b s).ops t) : NoHeader t := by
  have hself : isHeader (chunk g src left) = false := by
    have := hchunk 0
    simp only [Nat.zero_mul, Nat.zero_add, Nat.sub_zero] at this
    exact this
  induction n generalizing src left b s with
  | zero =>
    rw [writeBody] at hcut
    cases hcut
    exact h
  | succ n ih =>
    rw [writeBody] at hcut
    split at hcut
    · cases hcut
      exact h
    · dsimp only at hcut
      -- a block write that came to its end
      have hdone : ∀ b', (writeBlock fails (chunk g src left) (s.blocks - b) b s).result = some b' →
          ∃ c, b' = c + 1 ∧
            Wrote s (writeBlock fails (chunk g src left) (s.blocks - b) b s).slot b c
              (chunk g src left) :=
        fun b' hres => writeBlock_wrote (by omega) hblank hres
      have hfirst : ∀ u, Cut s (writeBlock fails (chunk g src left) (s.blocks - b) b s).ops u →
          NoHeader u := by
        intro u hu
        rcases cut_writeBlock h hu with hno | ⟨rfl, b', hres⟩
        · exact hno
        · obtain ⟨c, -, hw⟩ := hdone b' hres
          exact hw.noHeader h hself
      split at hcut
      · exact hfirst t hcut
      · next b' hres =>
        obtain ⟨c, rfl, hw⟩ := hdone b' hres
        rcases hcut.append with hcut | hcut
        · exact hfirst t hcut
        · rw [← writeBlock_slot] at hcut
          have hchunk' : ∀ k, isHeader (chunk g (fun i => src (g.bs + (k * g.bs + i)))
              (left - g.bs - k * g.bs)) = false := by
            intro k
            have hsrc : (fun i => src (g.bs + (k * g.bs + i))) =
                fun i => src ((k + 1) * g.bs + i) := by
              funext i
              rw [Nat.succ_mul]
              congr 1
              omega
            have hleft : left - g.bs - k * g.bs = left - (k + 1) * g.bs := by
              rw [Nat.succ_mul]
              omega
            rw [hsrc, hleft]
            exact hchunk (k + 1)
          refine ih (hw.noHeader h hself) (hw.blank hblank) ?_ hchunk' hcut ?_
          · rw [hw.blocks]
            exact hw.lt
          · have := hchunk' 0
            simp only [Nat.zero_mul, Nat.zero_add, Nat.sub_zero] at this
            exact this

/-- A command that came to its end is a cut. -/
theorem Cut.all (s : Slot) (ops : List Op) : Cut s ops (s.applyAll ops) := by
  induction ops generalizing s with
  | nil => exact Cut.stop _ _
  | cons op ops ih => exact Cut.step _ _ _ _ (ih (s.apply op))

end Cuts

/-! ## Flashing -/

section Flashing

variable {g : Geom} {p : Package} {s t : Slot}

/-- `slot_verify` looks at the bytes of the header only. -/
theorem verify_congr {h h' : Nat → UInt8} (heq : ∀ i < verHdrSize, h i = h' i)
    (hv : s.verify g h = none) : s.verify g h' = none := by
  have hget : ∀ o, o + 4 ≤ verHdrSize → get32 h' o = get32 h o := fun o ho =>
    get32_congr (fun i hi => (heq _ (by omega)).symm)
  have hcrc : ∀ k, k ≤ verHdrSize → crc32 h' 0 k = crc32 h 0 k := fun k hk =>
    crc32_congr (fun i hi => (heq _ (by omega)).symm)
  have hregions : regions h' = regions h := by
    unfold regions
    rw [hget _ (by decide), hget _ (by decide), hget _ (by decide), hget _ (by decide),
      hget _ (by decide), hget _ (by decide), hget _ (by decide)]
  rw [verify_eq_none_iff] at hv ⊢
  obtain ⟨hi, hroom⟩ := hv
  refine ⟨⟨?_, ?_, ?_, ?_, ?_⟩, by rw [hget _ (by decide)]; exact hroom⟩
  · rw [hcrc _ (by decide), hget _ (by decide)]
    exact hi.crc
  · rw [hcrc _ (by decide), hget _ (by decide)]
    exact hi.crc2
  · rw [hget _ (by decide), hget _ (by decide)]
    exact hi.order
  · rw [hregions, hget _ (by decide)]
    exact hi.inside
  · rw [hregions]
    exact hi.crcs

/-- Body and header are written to an erased slot: at every point there is no header yet,
or the slot is verified. -/
theorem cut_writeSlot {fails : Nat → Bool} (hload : p.load = .ok ()) (hagrees : p.LayoutAgrees)
    (hchunk : ∀ k, isHeader (chunk g (fun i => p.body (k * g.bs + i)) (p.bodyLen - k * g.bs)) = false)
    (h : NoHeader s) (hblank : Blank s 0) (slot : Fin 2) (serial : Nat)
    (hcut : Cut s (writeSlot g fails p (newHeader p.hdr slot serial) s).ops t) :
    NoHeader t ∨ t.Verified g := by
  have hbody : ∀ u, Cut s (writeBody g fails (p.bodyLen / g.bs + 1) p.body p.bodyLen 0 s).ops u →
      NoHeader u := fun u => cut_writeBody h hblank (Nat.zero_le _) hchunk
  have hno : NoHeader (writeBody g fails (p.bodyLen / g.bs + 1) p.body p.bodyLen 0 s).slot := by
    rw [writeBody_slot]
    exact hbody _ (Cut.all _ _)
  cases hres : (writeBody g fails (p.bodyLen / g.bs + 1) p.body p.bodyLen 0 s).result with
  | none =>
    have hops : (writeSlot g fails p (newHeader p.hdr slot serial) s).ops =
        (writeBody g fails (p.bodyLen / g.bs + 1) p.body p.bodyLen 0 s).ops := by
      unfold writeSlot
      simp only [hres]
    rw [hops] at hcut
    exact Or.inl (hbody t hcut)
  | some b =>
    have hdone : writeSlot g fails p (newHeader p.hdr slot serial) s =
        let r := writeBody g fails (p.bodyLen / g.bs + 1) p.body p.bodyLen 0 s
        let q := writeBlock fails (hdrBlock (newHeader p.hdr slot serial)) (s.blocks - b) b r.slot
        ⟨q.slot, r.ops ++ q.ops, q.result⟩ := by
      unfold writeSlot
      simp only [hres]
    have hwrote := fun b' => @writeSlot_wrote g fails p (newHeader p.hdr slot serial) s b' hblank
    rw [hdone] at hcut hwrote
    dsimp only at hcut hwrote
    rcases hcut.append with hcut | hcut
    · exact Or.inl (hbody t hcut)
    · rw [← writeBody_slot] at hcut
      rcases cut_writeBlock hno hcut with hnot | ⟨rfl, b', hb'⟩
      · exact Or.inl hnot
      · -- the header is there: it is found, and the payload is the body
        obtain ⟨b₁, k, c, hk, hlaid, hw⟩ := hwrote b' hb'
        obtain ⟨hbytes, hroom⟩ := hlaid.payload hk hw
        have hscan := hw.scan hno (isHeader_hdrBlock hload slot serial)
        right
        refine ⟨hdrBlock (newHeader p.hdr slot serial), ?_, ?_⟩
        · unfold Slot.header
          rw [hscan, Option.map_some, hw.block.2.2]
        · refine verify_congr (fun i hi => (if_pos hi).symm) ?_
          exact (verify_iff_layoutAgrees hload hbytes hroom slot serial).mpr hagrees

/-- What `cmd_flash` does to a slot a package fits in. -/
theorem cmdFlash_ops_of_fits {fails : Nat → Bool} {f : Flash} {running : Fin 2}
    (hload : p.load = .ok ())
    (hfits : ¬ (f (running + 1)).blocks * g.bs - g.bs < p.bodyLen) :
    (cmdFlash g fails p f running).ops = eraseOps (f (running + 1)) ++
      (writeSlot g fails p (newHeader p.hdr (running + 1) ((maxSerial f + 1) % 2 ^ 32))
        ((f (running + 1)).applyAll (eraseOps (f (running + 1))))).ops := by
  generalize hd : cmdFlash g fails p f running = d
  unfold cmdFlash at hd
  dsimp only at hd
  rw [hload] at hd
  dsimp only at hd
  rw [if_neg hfits] at hd
  split at hd
  · subst hd
    dsimp only
  · split at hd
    · subst hd
      dsimp only
    · subst hd
      dsimp only

/-- What `cmd_flash` does to the slot. -/
theorem cmdFlash_ops (g : Geom) (fails : Nat → Bool) (p : Package) (f : Flash) (running : Fin 2) :
    (cmdFlash g fails p f running).ops = [] ∨
      (p.load = .ok () ∧ (cmdFlash g fails p f running).ops = eraseOps (f (running + 1)) ++
        (writeSlot g fails p (newHeader p.hdr (running + 1) ((maxSerial f + 1) % 2 ^ 32))
          ((f (running + 1)).applyAll (eraseOps (f (running + 1))))).ops) := by
  cases hload : p.load with
  | error why =>
    left
    unfold cmdFlash
    dsimp only
    rw [hload]
  | ok _ =>
    by_cases hfits : (f (running + 1)).blocks * g.bs - g.bs < p.bodyLen
    · left
      unfold cmdFlash
      dsimp only
      rw [hload]
      dsimp only
      rw [if_pos hfits]
    · exact Or.inr ⟨rfl, cmdFlash_ops_of_fits hload hfits⟩

/-- A flash that reports success is found by its new header. -/
theorem cmdFlash_scan {fails : Nat → Bool} {f : Flash} {running : Fin 2} {serial : Nat}
    (h : (cmdFlash g fails p f running).result = .ok serial)
    (hchunk : ∀ k, isHeader (chunk g (fun i => p.body (k * g.bs + i)) (p.bodyLen - k * g.bs)) = false) :
    let t := (cmdFlash g fails p f running).slot
    let hdr := newHeader p.hdr (running + 1) ((maxSerial f + 1) % 2 ^ 32)
    ∃ c, t.scan = some c ∧ t.mem c = hdrBlock hdr ∧
      (∀ i < p.bodyLen, t.payload g i = p.body i) ∧
      p.bodyLen ≤ (t.goodBelow t.blocks).length * g.bs := by
  obtain ⟨hload, ⟨b', hb'⟩, hslot⟩ := cmdFlash_ok rfl h
  have hblank := blank_erased (f (running + 1))
  have hno : NoHeader (writeBody g fails (p.bodyLen / g.bs + 1) p.body p.bodyLen 0
      ((f (running + 1)).applyAll (eraseOps (f (running + 1))))).slot := by
    have hcut := Cut.all ((f (running + 1)).applyAll (eraseOps (f (running + 1))))
      (writeBody g fails (p.bodyLen / g.bs + 1) p.body p.bodyLen 0
        ((f (running + 1)).applyAll (eraseOps (f (running + 1))))).ops
    rw [← writeBody_slot] at hcut
    exact cut_writeBody (noHeader_erased _) hblank (Nat.zero_le _) hchunk hcut
  obtain ⟨b, k, c, hk, hlaid, hw⟩ := writeSlot_wrote hblank hb'
  dsimp only
  rw [hslot]
  exact ⟨c, hw.scan hno (isHeader_hdrBlock hload _ _), hw.block.2.2, hlaid.payload hk hw⟩

end Flashing

/-! ## Switching -/

section Switching

variable {g : Geom} {s t : Slot} {b : Nat}

/-- Another header for the same payload: only the slot start, the serial and the second CRC
are not covered. -/
theorem Intact.of_eq {h h' m m' : Nat → UInt8} (hi : Intact h m) (heq : ∀ i < hSlotStart, h' i = h i)
    (hcrc2 : crc32 h' 0 hCrc2 = get32 h' hCrc2) (hm : ∀ i < get32 h hFwSize, m' i = m i) :
    Intact h' m' := by
  have hget : ∀ o, o + 4 ≤ hSlotStart → get32 h' o = get32 h o := fun o ho =>
    get32_congr (fun i hi => heq _ (by omega))
  have hregions : regions h' = regions h := by
    unfold regions
    rw [hget _ (by decide), hget _ (by decide), hget _ (by decide), hget _ (by decide),
      hget _ (by decide), hget _ (by decide), hget _ (by decide)]
  refine ⟨?_, hcrc2, ?_, ?_, ?_⟩
  · rw [hget _ (by decide), ← hi.crc]
    refine crc32_congr (fun i hi => heq _ ?_)
    have : hCrc ≤ hSlotStart := by decide
    omega
  · rw [hget _ (by decide), hget _ (by decide)]
    exact hi.order
  · rw [hregions, hget _ (by decide)]
    exact hi.inside
  · rw [hregions]
    intro r hr
    have hle := hi.inside r hr
    rw [← hi.crcs r hr]
    exact crc32_congr (fun i hi => hm _ (by omega))

/-- In front of the slot start the header that is written again is the old one. -/
theorem hdrBlock_withSerial (h : Nat → UInt8) (serial : Nat) {i : Nat} (hi : i < hSlotStart) :
    hdrBlock (withSerial h serial) i = h i := by
  unfold hSlotStart at hi
  have hlt : i < verHdrSize := by
    unfold verHdrSize
    omega
  rw [hdrBlock, if_pos hlt, withSerial, put32_of_not_mem _ _ (by unfold hCrc2; omega),
    put32_of_not_mem _ _ (by unfold hSerial; omega)]

/-- A header that is written again is found where the old one was. -/
theorem scan_rewrite (hscan : s.scan = some b) (serial : Nat) :
    (s.setBlock b (hdrBlock (withSerial (s.mem b) serial))).scan = some b := by
  obtain ⟨hb, hgood, hhdr⟩ := scan_spec hscan
  obtain ⟨-, -, hbefore⟩ := List.find?_range_eq_some.mp hscan
  unfold Slot.scan
  rw [List.find?_range_eq_some]
  refine ⟨?_, List.mem_range.mpr hb, fun x hx => ?_⟩
  · rw [mem_setBlock, if_pos rfl, isHeader_congr fun i hi => hdrBlock_withSerial _ serial hi, hhdr]
    have hgood' : (s.setBlock b (hdrBlock (withSerial (s.mem b) serial))).bad b = false := hgood
    rw [hgood']
    rfl
  · have hmem := mem_setBlock s b (hdrBlock (withSerial (s.mem b) serial)) x
    rw [if_neg (Nat.ne_of_lt hx)] at hmem
    rw [hmem]
    exact hbefore x hx

/-- The header of a verified slot is written again with another serial, behind the payload. -/
theorem verified_rewrite (hscan : s.scan = some b) (hv : s.verify g (s.mem b) = none)
    (hbehind : get32 (s.mem b) hFwSize ≤ (s.goodBelow b).length * g.bs) (serial : Nat) :
    (s.setBlock b (hdrBlock (withSerial (s.mem b) serial))).Verified g := by
  obtain ⟨hb, -, -⟩ := scan_spec hscan
  have hsame : ∀ i < hSlotStart, hdrBlock (withSerial (s.mem b) serial) i = s.mem b i :=
    fun _ hi => hdrBlock_withSerial _ serial hi
  have hfound := scan_rewrite hscan serial
  refine ⟨hdrBlock (withSerial (s.mem b) serial), ?_, ?_⟩
  · unfold Slot.header
    rw [hfound, Option.map_some, mem_setBlock, if_pos rfl]
  · rw [verify_eq_none_iff] at hv ⊢
    obtain ⟨hi, hroom⟩ := hv
    have hsize : get32 (hdrBlock (withSerial (s.mem b) serial)) hFwSize =
        get32 (s.mem b) hFwSize :=
      get32_congr (fun i hi => hsame _ (by unfold hFwSize hSlotStart; omega))
    refine ⟨hi.of_eq hsame ?_ (fun i hlt => ?_), by rw [hsize]; exact hroom⟩
    · have hput : crc32 (withSerial (s.mem b) serial) 0 hCrc2 =
          get32 (withSerial (s.mem b) serial) hCrc2 := crc32_put_crc2 _
      have hcrc : crc32 (hdrBlock (withSerial (s.mem b) serial)) 0 hCrc2 =
          crc32 (withSerial (s.mem b) serial) 0 hCrc2 :=
        crc32_congr (fun i hi => if_pos (by unfold hCrc2 at hi; unfold verHdrSize; omega))
      have hget : get32 (hdrBlock (withSerial (s.mem b) serial)) hCrc2 =
          get32 (withSerial (s.mem b) serial) hCrc2 :=
        get32_congr (fun i hi => if_pos (by unfold hCrc2 verHdrSize; omega))
      rw [hcrc, hget, hput]
    · -- the header is not in one of the blocks of the payload
      have hidx : i / g.bs < (s.goodBelow b).length :=
        (Nat.div_lt_iff_lt_mul g.bs_pos).mpr (by omega)
      have hblock := getD_goodBelow_lt hidx
      have hget := getD_of_prefix_lt (@goodBelow_mono s b s.blocks (by omega)) hidx
      have hgoods : (s.setBlock b (hdrBlock (withSerial (s.mem b) serial))).goodBelow s.blocks =
          s.goodBelow s.blocks := rfl
      unfold Slot.payload
      have hblocks : (s.setBlock b (hdrBlock (withSerial (s.mem b) serial))).blocks = s.blocks := rfl
      rw [hblocks, hgoods, hget, mem_setBlock, if_neg (by omega)]

/-- A block that is erased and programmed holds what was programmed. -/
theorem erase_program (s : Slot) (b : Nat) (data : Nat → UInt8) :
    (s.apply (.erase b)).apply (.program b data) = s.setBlock b data := by
  unfold Slot.apply Slot.setBlock
  dsimp only
  rw [if_pos rfl, erasedBlock_and]
  congr 1
  funext x
  by_cases hx : x = b
  · rw [if_pos hx, if_pos hx]
  · rw [if_neg hx, if_neg hx, if_neg hx]

theorem cut_nil (h : Cut s [] t) : t = s := by
  cases h
  rfl

/-- A block is erased and written again: it is as it was, it is no header, or it is written. -/
theorem cut_erase_program {data : Nat → UInt8} (h : Cut s [.erase b, .program b data] t) :
    t = s ∨ (∃ m, isHeader m = false ∧ t = (s.setBlock b erasedBlock).setBlock b m) ∨
      t = s.setBlock b data := by
  cases h with
  | stop => exact Or.inl rfl
  | step _ _ _ _ h =>
    cases h with
    | stop =>
      refine Or.inr (Or.inl ⟨erasedBlock, isHeader_erasedBlock, ?_⟩)
      unfold Slot.apply Slot.setBlock
      dsimp only
      congr 1
      funext x
      by_cases hx : x = b
      · rw [if_pos hx, if_pos hx]
      · rw [if_neg hx, if_neg hx]
    | torn _ _ _ junk _ hj => exact Or.inr (Or.inl ⟨junk, hj, rfl⟩)
    | step _ _ _ _ h =>
      right
      right
      rw [cut_nil h, erase_program]

/-- What `cmd_switch` does to the slot. -/
theorem cmdSwitch_ops (g : Geom) (f : Flash) (r : Fin 2) :
    (cmdSwitch g f r).ops = [] ∨ ∃ b serial, (f (r + 1)).scan = some b ∧
      (f (r + 1)).verify g ((f (r + 1)).mem b) = none ∧
      (cmdSwitch g f r).ops =
        [.erase b, .program b (hdrBlock (withSerial ((f (r + 1)).mem b) serial))] := by
  cases hscan : (f (r + 1)).scan with
  | none =>
    left
    simp only [cmdSwitch, hscan]
  | some b =>
    have hcmd : cmdSwitch g f r =
        rewriteHeader f (f (r + 1)) b ((f (r + 1)).verify g ((f (r + 1)).mem b)) := by
      simp only [cmdSwitch, hscan]
    rw [hcmd]
    cases hv : (f (r + 1)).verify g ((f (r + 1)).mem b) with
    | some why => exact Or.inl rfl
    | none => exact Or.inr ⟨b, _, rfl, hv, rfl⟩

/-- A switch at any point: nothing has happened yet, the slot is quiet, or it is verified. -/
theorem cut_cmdSwitch {f : Flash} {r : Fin 2} {n : Nat}
    (hquiet : ∀ b, (f (r + 1)).scan = some b →
      Quiet (r + 1) n ((f (r + 1)).setBlock b erasedBlock))
    (hbehind : ∀ b, (f (r + 1)).scan = some b →
      get32 ((f (r + 1)).mem b) hFwSize ≤ ((f (r + 1)).goodBelow b).length * g.bs)
    (hcut : Cut (f (r + 1)) (cmdSwitch g f r).ops t) :
    t = f (r + 1) ∨ Quiet (r + 1) n t ∨ t.Verified g := by
  rcases cmdSwitch_ops g f r with hops | ⟨b, serial, hscan, hv, hops⟩
  · rw [hops] at hcut
    exact Or.inl (cut_nil hcut)
  · rw [hops] at hcut
    rcases cut_erase_program hcut with hsame | ⟨m, hm, rfl⟩ | rfl
    · exact Or.inl hsame
    · exact Or.inr (Or.inl ((hquiet b hscan).setBlock hm))
    · exact Or.inr (Or.inr (verified_rewrite hscan hv (hbehind b hscan) serial))

end Switching

/-! ## Every history -/

section Histories

variable {g : Geom} {init st : St}

/-- The running slot is verified, and so is the one that is selected. -/
def Safe (g : Geom) (st : St) : Prop := (st.flash st.running).Verified g ∧ Selects g st.flash

theorem withOther_running (st : St) (t : Slot) : st.withOther t st.running = st.flash st.running := by
  have hne : ∀ r : Fin 2, r ≠ r + 1 := by decide
  exact if_neg (hne st.running)

theorem withOther_other (st : St) (t : Slot) : st.withOther t (st.running + 1) = t := if_pos rfl

/-- A command that meets its condition, at any point. -/
theorem Safe.cmd {c : Cmd} {t : Slot} (h : Safe g st) (hok : Meets g st c)
    (hcut : Cut (st.flash (st.running + 1)) (c.ops g st) t) :
    Safe g ⟨st.withOther t, st.running⟩ := by
  obtain ⟨⟨hdr, hhdr, hv⟩, hsel⟩ := h
  have hrun := withOther_running st t
  refine ⟨⟨hdr, by dsimp only; rw [hrun]; exact hhdr, by dsimp only; rw [hrun]; exact hv⟩, ?_⟩
  have hother : t = st.flash (st.running + 1) ∨
      Quiet (st.running + 1) (serialOf hdr) t ∨ t.Verified g := by
    cases c with
    | flash fails p =>
      obtain ⟨hquiet, hchunk, hagrees⟩ := hok
      have hcut : Cut _ (cmdFlash g fails p st.flash st.running).ops t := hcut
      rcases cmdFlash_ops g fails p st.flash st.running with hops | ⟨hload, hops⟩
      · rw [hops] at hcut
        cases hcut
        exact Or.inl rfl
      · rw [hops] at hcut
        rcases hcut.append with hcut | hcut
        · exact Or.inr (Or.inl ((hquiet hdr hhdr).cut_erase hcut))
        · rcases cut_writeSlot hload hagrees hchunk (noHeader_erased _) (blank_erased _) _ _ hcut
            with hno | hver
          · exact Or.inr (Or.inl (hno.quiet _ _))
          · exact Or.inr (Or.inr hver)
    | switch =>
      exact cut_cmdSwitch (fun b hb => (hok b hb).1 hdr hhdr) (fun b hb => (hok b hb).2) hcut
  rcases hother with rfl | hother
  · -- nothing has happened yet
    have hsame : st.withOther (st.flash (st.running + 1)) = st.flash := by
      funext s
      unfold St.withOther
      split
      · next hs => rw [hs]
      · rfl
    dsimp only
    rw [hsame]
    exact hsel
  · refine selects_of_other (r := st.running) (h := hdr) ?_ ?_ ?_
    · dsimp only
      rw [hrun]
      exact hhdr
    · dsimp only
      rw [hrun]
      exact hv
    · dsimp only
      rw [withOther_other]
      exact hother

theorem safe_of_reached (h : Reached g (Meets g) init st) (hinit : Safe g init) : Safe g st := by
  induction h with
  | start => exact hinit
  | cmd c _ hok hcut ih => exact ih.cmd hok hcut
  | boot _ hs ih => exact ⟨ih.2 _ hs, ih.2⟩

end Histories

/-! ## The sample, flashed twice -/

theorem serialOf_hdrBlock (hdr : Nat → UInt8) (slot : Fin 2) (serial : Nat) :
    serialOf (hdrBlock (newHeader hdr slot serial)) = serial % 2 ^ 32 := by
  have hblock : serialOf (hdrBlock (newHeader hdr slot serial)) =
      get32 (newHeader hdr slot serial) hSerial :=
    get32_congr (fun i hi => if_pos (by unfold hSerial verHdrSize; omega))
  rw [hblock]
  unfold newHeader
  dsimp only
  rw [get32_put32_of_disjoint _ _ (by decide), get32_put32_of_disjoint _ _ (by decide),
    get32_put32_self]

theorem noHeader_emptyFlash (s : Fin 2) : NoHeader (emptyFlash s) := fun _ _ _ => isHeader_erasedBlock

theorem NoHeader.header {s : Slot} (h : NoHeader s) : s.header = none := by
  unfold Slot.header Slot.scan
  rw [Option.map_eq_none_iff, List.find?_eq_none]
  intro b hb
  cases hbad : s.bad b with
  | true => simp
  | false => simp [h b (List.mem_range.mp hb) hbad]

/-- No block of the sample's body is a header. -/
theorem isHeader_sampleChunk (k : Nat) :
    isHeader (chunk nandGeom (fun i => (samplePackage 0).body (k * nandGeom.bs + i))
      ((samplePackage 0).bodyLen - k * nandGeom.bs)) = false := by
  have hbyte : chunk nandGeom (fun i => (samplePackage 0).body (k * nandGeom.bs + i))
      ((samplePackage 0).bodyLen - k * nandGeom.bs) hInnerMagic = 0xff := by
    have hbody : (samplePackage 0).body (k * nandGeom.bs + hInnerMagic) = 0xff := by
      rw [samplePackage_body]
      exact if_neg (by unfold hInnerMagic; omega)
    unfold chunk
    split
    · dsimp only
      split
      · exact hbody
      · rfl
    · exact hbody
  have hmagic : memEq (chunk nandGeom (fun i => (samplePackage 0).body (k * nandGeom.bs + i))
      ((samplePackage 0).bodyLen - k * nandGeom.bs)) hInnerMagic innerMagic = false := by
    unfold memEq
    rw [List.all_eq_false]
    refine ⟨0, by decide, ?_⟩
    rw [Nat.add_zero, hbyte]
    decide
  rw [isHeader, hmagic, Bool.false_and]

/-- What a flash of the sample to a faultless slot leaves. -/
theorem flash_sample {f : Flash} {r : Fin 2} (hgood : ∀ b, (f (r + 1)).bad b = false)
    (hblocks : (f (r + 1)).blocks = 14) :
    let t := (cmdFlash nandGeom (fun _ => false) (samplePackage 0) f r).slot
    ∃ c, t.scan = some c ∧
      t.mem c = hdrBlock (newHeader (samplePackage 0).hdr (r + 1) ((maxSerial f + 1) % 2 ^ 32)) ∧
      (∀ i < ubootSize, t.payload nandGeom i = sampleBody i) ∧
      0 < (t.goodBelow t.blocks).length ∧ t.blocks = 14 ∧ t.Verified nandGeom := by
  have hload := @samplePackage_load 0 (by decide)
  have hroom : (samplePackage 0).bodyLen + nandGeom.bs ≤ (f (r + 1)).blocks * nandGeom.bs := by
    rw [hblocks]
    exact samplePackage_fits 0
  obtain ⟨serial, hok⟩ := @cmdFlash_faultless _ (fun _ => false) _ _ _ hload hgood (fun _ => rfl) hroom
  obtain ⟨c, hscan, hmem, hbytes, hlen⟩ := cmdFlash_scan hok isHeader_sampleChunk
  have hverify := (verify_iff_layoutAgrees hload hbytes hlen (r + 1) ((maxSerial f + 1) % 2 ^ 32)).mpr
    samplePackage_layoutAgrees
  refine ⟨c, hscan, hmem, ?_, ?_, ?_, hdrBlock _, ?_,
    verify_congr (fun i hi => (if_pos hi).symm) hverify⟩
  · intro i hi
    rw [hbytes i (by rw [samplePackage_bodyLen]; omega), samplePackage_body]
  · rw [samplePackage_bodyLen] at hlen
    by_contra hzero
    rw [Nat.le_zero.mp (Nat.le_of_not_lt hzero), Nat.zero_mul] at hlen
    exact absurd hlen (by decide)
  · rw [cmdFlash_slot, applyAll_blocks, hblocks]
  · unfold Slot.header
    rw [hscan, Option.map_some, hmem]

/-- The sample in slot 0, nothing in slot 1. -/
def sampleFlash : Flash := fun s =>
  if s = 0 then (cmdFlash nandGeom (fun _ => false) (samplePackage 0) emptyFlash 1).slot
  else emptyFlash s

theorem maxSerial_emptyFlash : maxSerial emptyFlash = 0 := by
  unfold maxSerial
  rw [(noHeader_emptyFlash 0).header, (noHeader_emptyFlash 1).header]

theorem sampleFlash_other : sampleFlash (0 + 1) = emptyFlash (0 + 1) := if_neg (by decide)

/-- Slot 0 of the sample is found with serial 1 and verified. -/
theorem sampleFlash_running : ∃ h, (sampleFlash 0).header = some h ∧ serialOf h = 1 ∧
    (sampleFlash 0).Verified nandGeom := by
  obtain ⟨c, hscan, hmem, -, -, -, hver⟩ := @flash_sample emptyFlash 1 (fun _ => rfl) rfl
  have hslot : sampleFlash 0 = (cmdFlash nandGeom (fun _ => false) (samplePackage 0) emptyFlash 1).slot :=
    if_pos rfl
  rw [hslot]
  refine ⟨hdrBlock (newHeader (samplePackage 0).hdr (1 + 1) ((maxSerial emptyFlash + 1) % 2 ^ 32)),
    ?_, ?_, hver⟩
  · unfold Slot.header
    rw [hscan, Option.map_some, hmem]
  · rw [serialOf_hdrBlock, maxSerial_emptyFlash]
    decide

theorem selects_sampleFlash : Selects nandGeom sampleFlash := by
  obtain ⟨h, hh, -, h', hh', hv⟩ := sampleFlash_running
  refine selects_of_other hh' hv (Or.inl ?_)
  rw [sampleFlash_other]
  exact (noHeader_emptyFlash _).quiet _ _

/-- After a flash no write of which fails. -/
def St.flashed (g : Geom) (p : Package) (st : St) : St :=
  ⟨st.withOther (cmdFlash g (fun _ => false) p st.flash st.running).slot, st.running⟩

theorem Reached.flashed {g : Geom} {ok : St → Cmd → Prop} {init st : St} {p : Package}
    (h : Reached g ok init st) (hok : ok st (.flash (fun _ => false) p)) :
    Reached g ok init (st.flashed g p) := by
  refine Reached.cmd (.flash (fun _ => false) p) h hok ?_
  rw [cmdFlash_slot]
  exact Cut.all _ _

/-- A flash that is cut after its first erase. -/
theorem Reached.cut_first {g : Geom} {ok : St → Cmd → Prop} {init st : St} {p : Package} {b : Nat}
    {l : List Nat} (h : Reached g ok init st) (hok : ok st (.flash (fun _ => false) p))
    (hload : p.load = .ok ())
    (hfits : ¬ (st.flash (st.running + 1)).blocks * g.bs - g.bs < p.bodyLen)
    (hgoods : (st.flash (st.running + 1)).goodBelow (st.flash (st.running + 1)).blocks = b :: l) :
    Reached g ok init
      ⟨st.withOther ((st.flash (st.running + 1)).setBlock b erasedBlock), st.running⟩ := by
  refine Reached.cmd (.flash (fun _ => false) p) h hok ?_
  have hcmd : (Cmd.flash (fun _ => false) p).ops g st =
      (cmdFlash g (fun _ => false) p st.flash st.running).ops := rfl
  rw [hcmd, cmdFlash_ops_of_fits hload hfits, eraseOps_eq, hgoods, List.map_cons, List.cons_append]
  exact Cut.step _ _ _ _ (Cut.stop _ _)

/-- A device with one firmware. -/
def sampleState : St := ⟨sampleFlash, 0⟩

theorem meets_sampleState :
    Meets nandGeom sampleState (.flash (fun _ => false) (samplePackage 0)) := by
  refine ⟨fun h _ => ?_, isHeader_sampleChunk, samplePackage_layoutAgrees⟩
  have hother : sampleState.flash (sampleState.running + 1) = emptyFlash (0 + 1) := sampleFlash_other
  rw [hother]
  exact (noHeader_emptyFlash _).quiet _ _

/-- Erasing the first block of the sample spoils it, and its header is still found. -/
theorem spoiled_sample {t : Slot} {c b : Nat} {l : List Nat} {hdr : Nat → UInt8}
    (hscan : t.scan = some c) (hmem : t.mem c = hdrBlock hdr)
    (hhdr : ∀ i < hSlotStart, hdr i = (samplePackage 0).hdr i)
    (hbytes : ∀ i < ubootSize, t.payload nandGeom i = sampleBody i)
    (hgoods : t.goodBelow t.blocks = b :: l) :
    (t.setBlock b erasedBlock).header = some (hdrBlock hdr) ∧
      ¬ (t.setBlock b erasedBlock).Verified nandGeom := by
  have hbytes₁ := hbytes 1 (by decide)
  have hbc : b ≠ c := by
    rintro rfl
    have hone : t.payload nandGeom 1 = t.mem b 1 := by
      unfold Slot.payload
      rw [hgoods]
      rfl
    have hzero : hdrBlock hdr 1 = 0 := by
      rw [hdrBlock, if_pos (by decide), hhdr 1 (by decide), samplePackage_hdr (by decide)]
      rfl
    rw [hone, hmem, hzero] at hbytes₁
    exact absurd hbytes₁ (by decide)
  have hfound : (t.setBlock b erasedBlock).scan = some c := by
    obtain ⟨hc, hgood, hishdr⟩ := scan_spec hscan
    obtain ⟨-, -, hbefore⟩ := List.find?_range_eq_some.mp hscan
    unfold Slot.scan
    rw [List.find?_range_eq_some]
    refine ⟨?_, List.mem_range.mpr hc, fun x hx => ?_⟩
    · have hgood' : (t.setBlock b erasedBlock).bad c = false := hgood
      rw [mem_setBlock, if_neg (Ne.symm hbc), hishdr, hgood']
      rfl
    · rw [mem_setBlock]
      split
      · rw [isHeader_erasedBlock, Bool.and_false]
        rfl
      · exact hbefore x hx
  have hheader : (t.setBlock b erasedBlock).header = some (hdrBlock hdr) := by
    unfold Slot.header
    rw [hfound, Option.map_some, mem_setBlock, if_neg (Ne.symm hbc), hmem]
  refine ⟨hheader, ?_⟩
  rintro ⟨h, hh, hv⟩
  obtain rfl : hdrBlock hdr = h := Option.some.inj (hheader.symm.trans hh)
  -- what the U-Boot's checksum is taken over now
  have hpayload : ∀ i < ubootSize, (t.setBlock b erasedBlock).payload nandGeom i =
      if i = 0 then 0xff else sampleBody i := by
    intro i hi
    have hgoods' : (t.setBlock b erasedBlock).goodBelow (t.setBlock b erasedBlock).blocks = b :: l := hgoods
    have hold := hbytes i hi
    unfold Slot.payload at hold ⊢
    rw [hgoods] at hold
    rw [hgoods', mem_setBlock]
    by_cases hzero : i = 0
    · subst hzero
      rw [if_pos rfl, if_pos (by rfl)]
      rfl
    · rw [if_neg hzero]
      split
      · exact (if_neg hzero).symm
      · exact hold
  have hcrc := ((verify_eq_none_iff _ _ _).mp hv).1.crcs _ List.mem_cons_self
  have hwant : get32 (hdrBlock hdr) hUbootCrc = crc32 sampleBody 0 ubootSize := by
    rw [← uboot_sampleHeader, ← get32_samplePackage (by decide)]
    refine get32_congr (fun i hi => ?_)
    rw [hdrBlock, if_pos (by unfold hUbootCrc verHdrSize; omega),
      hhdr _ (by unfold hUbootCrc hSlotStart; omega)]
  dsimp only at hcrc
  rw [hwant] at hcrc
  refine crc32_ne (n := ubootSize - 1) ?_ (fun i hpos hi => ?_) hcrc
  · rw [hpayload 0 (by decide)]
    decide
  · rw [hpayload i hi, if_neg (by omega)]

theorem maxSerial_of_one {f : Flash} {h : Nat → UInt8} (hh : (f 0).header = some h)
    (hnone : (f 1).header = none) : maxSerial f = serialOf h := by
  unfold maxSerial
  rw [hh, hnone]

/-- What decides between two slots with a header. -/
theorem nextSlot_of_lt {f : Flash} {h₀ h₁ : Nat → UInt8} (hh₀ : (f 0).header = some h₀)
    (hh₁ : (f 1).header = some h₁) (hlt : serialOf h₀ < serialOf h₁) : nextSlot f = some 1 := by
  unfold nextSlot
  rw [hh₀, hh₁]
  exact if_pos hlt

/-- On a device with one firmware the sample is flashed. A second flash that is cut after its
first erase leaves a slot that is selected and damaged: the header of the first flash is
still there. -/
theorem second_cut {f : Flash} {h₀ : Nat → UInt8} (hh₀ : (f 0).header = some h₀)
    (hserial₀ : serialOf h₀ = 1) (hempty : f (0 + 1) = emptyFlash (0 + 1)) :
    ∃ st, Reached nandGeom (fun _ _ => True) ⟨f, 0⟩ st ∧ ¬ Selects nandGeom st.flash := by
  obtain ⟨c, hscan, hmem, hbytes, hlen, hblocks, -⟩ := @flash_sample f 0
    (fun b => by rw [hempty]; rfl) (by rw [hempty]; rfl)
  have hmax : maxSerial f = 1 := by
    have hnone : (f 1).header = none := by
      have hone : f 1 = emptyFlash (0 + 1) := hempty
      rw [hone]
      exact (noHeader_emptyFlash _).header
    rw [maxSerial_of_one hh₀ hnone, hserial₀]
  have hreached : Reached nandGeom (fun _ _ => True) ⟨f, 0⟩
      (St.flashed nandGeom (samplePackage 0) ⟨f, 0⟩) := Reached.flashed Reached.start trivial
  unfold St.flashed at hreached
  dsimp only at hreached
  generalize (cmdFlash nandGeom (fun _ => false) (samplePackage 0) f 0).slot = t at *
  obtain ⟨b, l, hgoods⟩ : ∃ b l, t.goodBelow t.blocks = b :: l := List.exists_cons_of_length_pos hlen
  obtain ⟨hheader, hspoiled⟩ := spoiled_sample hscan hmem (fun i hi => newHeader_of_lt hi) hbytes hgoods
  have hother := withOther_other ⟨f, 0⟩ t
  have hcut := @Reached.cut_first nandGeom _ _ _ (samplePackage 0) b l hreached trivial
    (samplePackage_load (by decide))
    (by
      dsimp only at hother ⊢
      rw [hother, hblocks, samplePackage_bodyLen]
      decide)
    (by
      dsimp only at hother ⊢
      rw [hother]
      exact hgoods)
  dsimp only at hother hcut
  rw [hother] at hcut
  refine ⟨_, hcut, fun hsel => ?_⟩
  have hnew := withOther_other ⟨St.withOther ⟨f, 0⟩ t, 0⟩ (t.setBlock b erasedBlock)
  refine hspoiled ?_
  rw [← hnew]
  refine hsel 1 (nextSlot_of_lt hh₀ (by dsimp only at hnew ⊢; exact hheader) ?_)
  rw [hserial₀, serialOf_hdrBlock, hmax]
  decide

/-! ## Safety -/

/-- In every history of commands that each meet their condition, cut at any points, the slot the
bootloader starts passes `slot_verify`. -/
theorem reached_selects (g : Geom) (init st : St) (hrunning : (init.flash init.running).Verified g)
    (hselected : Selects g init.flash) (h : Reached g (Meets g) init st) : Selects g st.flash :=
  (safe_of_reached h ⟨hrunning, hselected⟩).2

/-- A history of one flash. -/
theorem reached_selects_flashed :
    Reached nandGeom (Meets nandGeom) sampleState (sampleState.flashed nandGeom (samplePackage 0)) ∧
    Selects nandGeom (sampleState.flashed nandGeom (samplePackage 0)).flash := by
  obtain ⟨-, -, -, hver⟩ := sampleFlash_running
  have hreached := @Reached.flashed nandGeom _ _ _ _ Reached.start meets_sampleState
  refine ⟨hreached, reached_selects _ _ _ ?_ ?_ hreached⟩
  · unfold sampleState
    dsimp only
    exact hver
  · unfold sampleState
    dsimp only
    exact selects_sampleFlash

/-- Without a condition on the commands a cut may leave a damaged slot selected. -/
theorem second_flash_cut : ∃ init st : St, (init.flash init.running).Verified nandGeom ∧
    Selects nandGeom init.flash ∧ Reached nandGeom (fun _ _ => True) init st ∧
    ¬ Selects nandGeom st.flash := by
  obtain ⟨h₀, hh₀, hserial₀, hver⟩ := sampleFlash_running
  obtain ⟨st, hreached, hnot⟩ := second_cut hh₀ hserial₀ sampleFlash_other
  refine ⟨⟨sampleFlash, 0⟩, st, ?_, selects_sampleFlash, hreached, hnot⟩
  dsimp only
  exact hver

end Lede.FwSlot
