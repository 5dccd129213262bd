/-
Lede.FwSlot.SelectTheorems — which header a slot has, and which slot is selected, after
`cmd_flash` or `cmd_switch` reports success.

`erase_slot` goes on when an erase fails, so `cmdFlashLeft` is `cmd_flash` with what
such erases leave in their blocks; where none fails it is `cmdFlash`
(`cmdFlashLeft_none`). Body and header go to the blocks that are good and take a write,
in order (`Slot.targets`), each keeping the bits its block had cleared. `Written` is the
invariant of that.

The new header is found if nothing in front of it looks like one and its own block was
erased; it is selected if the serial, one more than the highest, does not wrap
(`select_iff`).
-/
import Lede.FwSlot.CrashTheorems

namespace Lede.FwSlot

open Lede.Lib

/-! ## Flashing when blocks do not erase -/

/-- `erase_slot`; `left b` is what a failed erase leaves in block `b`. -/
def Slot.erased (s : Slot) (left : Nat → Option (Nat → UInt8)) : Slot :=
  { s with mem := fun b =>
      if b < s.blocks ∧ s.bad b = false then (left b).getD erasedBlock else s.mem b }

/-- `cmd_flash`: the slot it leaves, and the serial it reports with the block the header went to. -/
def cmdFlashLeft (g : Geom) (fails : Nat → Bool) (left : Nat → Option (Nat → UInt8)) (p : Package)
    (f : Flash) (running : Fin 2) : Slot × Except String (Nat × Nat) :=
  let s := f (running + 1)
  match p.load with
  | .error why => (s, .error why)
  | .ok () =>
    if s.blocks * g.bs - g.bs < p.bodyLen then (s, .error "package larger than slot")
    else
      let hdr := newHeader p.hdr (running + 1) ((maxSerial f + 1) % 2 ^ 32)
      let r := writeSlot g fails p hdr (s.erased left)
      match r.result with
      | none => (r.slot, .error "ran out of good blocks")
      | some b =>
        match r.slot.header with
        | none => (r.slot, .error "header verify failed after flash")
        | some h => (r.slot, .ok (serialOf h, b - 1))

/-- The flash with another content of one slot. -/
def setSlot (f : Flash) (o : Fin 2) (t : Slot) : Flash := fun s => if s = o then t else f s

/-- The slot after its blocks that fail a write are marked bad. -/
def Slot.worn (s : Slot) (fails : Nat → Bool) : Slot := { s with bad := fun b => s.bad b || fails b }

/-- The blocks that are written, in order. -/
def Slot.targets (s : Slot) (fails : Nat → Bool) : List Nat := (s.worn fails).goodBelow s.blocks

/-- How many blocks the body takes. -/
def bodyBlocks (g : Geom) (p : Package) : Nat := (p.bodyLen + g.bs - 1) / g.bs

/-- What is written to each of them: the body, and behind it the header. -/
def blockData (g : Geom) (p : Package) (hdr : Nat → UInt8) (k : Nat) : Nat → UInt8 :=
  if k < bodyBlocks g p then chunk g (fun i => p.body (k * g.bs + i)) (p.bodyLen - k * g.bs)
  else hdrBlock hdr

/-- Slot `o` is found by `hdr` in block `b`, and selected. -/
def SelectedBy (f : Flash) (o : Fin 2) (hdr : Nat → UInt8) (b : Nat) : Prop :=
  ((f o).scan = some b ∧ ∀ i < verHdrSize, (f o).mem b i = hdr i) ∧ nextSlot f = some o

/-- No block of the body looks like a header, and the block of the header takes it: what the erases
left in these blocks, with the bits that are written. -/
structure HeaderFound (g : Geom) (fails : Nat → Bool) (left : Nat → Option (Nat → UInt8)) (p : Package)
    (hdr : Nat → UInt8) (s : Slot) : Prop where
  body : ∀ k < bodyBlocks g p, isHeader (fun i =>
    (s.erased left).mem ((s.targets fails).getD k 0) i &&& blockData g p hdr k i) = false
  header : ∀ i < verHdrSize,
    (s.erased left).mem ((s.targets fails).getD (bodyBlocks g p) 0) i &&& hdr i = hdr i

/-- The serial does not wrap, or the running slot has no header, or its serial is 0 and the other slot
is preferred among equals. -/
def SerialFits (f : Flash) (running : Fin 2) : Prop :=
  maxSerial f + 1 < 2 ^ 32 ∨ (f running).header = none ∨
    (running = 1 ∧ ∃ h, (f running).header = some h ∧ serialOf h = 0)

/-! ## Writing -/

section Writing

variable {fails : Nat → Bool} {s t s₀ : Slot} {b c k : Nat} {data : Nat → UInt8}

/-- From `s` to `t` one block was written, at `c`: the first at or after `b` that is good and takes a
write. -/
structure Placed (fails : Nat → Bool) (s t : Slot) (b c : Nat) (data : Nat → UInt8) : Prop where
  blocks : t.blocks = s.blocks
  ge : b ≤ c
  lt : c < s.blocks
  good : s.bad c = false
  writes : fails c = false
  skipped : ∀ x, b ≤ x → x < c → (s.bad x || fails x) = true ∧ t.bad x = true
  other : ∀ x, x < b ∨ c ≤ x → t.bad x = s.bad x
  mem : t.mem = fun x => if x = c then fun i => s.mem c i &&& data i else s.mem x

theorem writeBlock_placed {fuel b' : Nat} (hfuel : b + fuel = s.blocks)
    (h : (writeBlock fails data fuel b s).result = some b') :
    ∃ c, b' = c + 1 ∧ Placed fails s (writeBlock fails data fuel b s).slot b c data := by
  induction fuel generalizing b s with
  | zero => cases h
  | succ fuel ih =>
    rw [writeBlock] at h ⊢
    cases hbad : s.bad b with
    | true =>
      simp only [hbad, if_true] at h ⊢
      obtain ⟨c, hc, hp⟩ := ih (by omega) h
      refine ⟨c, hc, hp.blocks, Nat.le_of_succ_le hp.ge, hp.lt, hp.good, hp.writes, ?_, ?_, hp.mem⟩
      · intro x hx hlt
        rcases Nat.eq_or_lt_of_le hx with rfl | hgt
        · rw [hbad, hp.other b (Or.inl (Nat.lt_succ_self b)), hbad]
          exact ⟨rfl, rfl⟩
        · exact hp.skipped x hgt hlt
      · exact fun x hx => hp.other x (hx.imp_left Nat.lt_succ_of_lt)
    | false =>
      simp only [hbad, Bool.false_eq_true, if_false] at h ⊢
      cases hfail : fails b with
      | true =>
        simp only [hfail, if_true] at h ⊢
        have hbelow : ∀ x, x ≠ b → (s.apply (.fail b)).bad x = s.bad x := by
          intro x hx
          simp [Slot.apply, hx]
        have hself : (s.apply (.fail b)).bad b = true := by simp [Slot.apply]
        obtain ⟨c, hc, hp⟩ := ih (s := s.apply (.fail b)) (by dsimp only [Slot.apply]; omega) h
        have hge := hp.ge
        have hgood := hp.good
        rw [hbelow c (by omega)] at hgood
        refine ⟨c, hc, hp.blocks, by omega, hp.lt, hgood, hp.writes, ?_, ?_, hp.mem⟩
        · intro x hx hlt
          rcases Nat.eq_or_lt_of_le hx with rfl | hgt
          · rw [hfail, hp.other b (Or.inl (Nat.lt_succ_self b)), hself, Bool.or_true]
            exact ⟨rfl, rfl⟩
          · have hskip := hp.skipped x hgt hlt
            rwa [hbelow x (by omega)] at hskip
        · intro x hx
          rw [hp.other x (by omega), hbelow x (by omega)]
      | false =>
        simp only [hfail, Bool.false_eq_true, if_false] at h ⊢
        cases h
        refine ⟨b, rfl, rfl, le_rfl, by omega, hbad, hfail, fun x hx hlt => absurd hlt (by omega),
          fun _ _ => rfl, rfl⟩

/-- Below `b` the blocks that are good and take a write hold the first `k` pieces of `data`; from `b`
on nothing has changed. -/
structure Written (fails : Nat → Bool) (data : Nat → Nat → UInt8) (s₀ s : Slot) (b k : Nat) : Prop where
  blocks : s.blocks = s₀.blocks
  le : b ≤ s.blocks
  count : ((s₀.worn fails).goodBelow b).length = k
  below : ∀ x < b, s.bad x = (s₀.worn fails).bad x
  above : ∀ x, b ≤ x → s.bad x = s₀.bad x ∧ s.mem x = s₀.mem x
  mem : ∀ j < k, s.mem (((s₀.worn fails).goodBelow b).getD j 0) =
    fun i => s₀.mem (((s₀.worn fails).goodBelow b).getD j 0) i &&& data j i

theorem written_start (data : Nat → Nat → UInt8) (s : Slot) : Written fails data s s 0 0 :=
  ⟨rfl, Nat.zero_le _, rfl, fun _ hx => absurd hx (Nat.not_lt_zero _), fun _ _ => ⟨rfl, rfl⟩,
    fun _ hj => absurd hj (Nat.not_lt_zero _)⟩

/-- The blocks a write passes are none of those written. -/
theorem goodBelow_skip (hbc : b ≤ c) (hskip : ∀ x, b ≤ x → x < c → s.bad x = true) :
    s.goodBelow c = s.goodBelow b := by
  induction c, hbc using Nat.le_induction with
  | base => rfl
  | succ c hbc ih =>
    rw [goodBelow_succ_bad (hskip c hbc (Nat.lt_succ_self c))]
    exact ih fun x hx hlt => hskip x hx (by omega)

theorem Written.step {data : Nat → Nat → UInt8} (h : Written fails data s₀ s b k)
    (hp : Placed fails s t b c (data k)) :
    Written fails data s₀ t (c + 1) (k + 1) ∧
      (s₀.worn fails).goodBelow (c + 1) = (s₀.worn fails).goodBelow b ++ [c] := by
  have hge := hp.ge
  have hworn : ∀ x, b ≤ x → (s₀.worn fails).bad x = (s.bad x || fails x) := fun x hx => by
    rw [(h.above x hx).1]
    rfl
  have hlist : (s₀.worn fails).goodBelow (c + 1) = (s₀.worn fails).goodBelow b ++ [c] := by
    rw [goodBelow_succ_good (by rw [hworn c hge, hp.good, hp.writes]; rfl), goodBelow_skip hge]
    intro x hx hlt
    rw [hworn x hx]
    exact (hp.skipped x hx hlt).1
  refine ⟨⟨by rw [hp.blocks, h.blocks], by rw [hp.blocks]; exact hp.lt, ?_, ?_, ?_, ?_⟩, hlist⟩
  · rw [hlist, List.length_append, h.count, List.length_singleton]
  · intro x hx
    by_cases hxb : x < b
    · rw [hp.other x (Or.inl hxb), h.below x hxb]
    · rw [hworn x (by omega)]
      by_cases hxc : x < c
      · rw [(hp.skipped x (by omega) hxc).1, (hp.skipped x (by omega) hxc).2]
      · obtain rfl : x = c := by omega
        rw [hp.other x (Or.inr le_rfl), hp.good, hp.writes]
        rfl
  · intro x hx
    rw [hp.other x (Or.inr (by omega)), hp.mem]
    dsimp only
    rw [if_neg (by omega)]
    exact h.above x (by omega)
  · intro j hj
    rw [hlist, hp.mem]
    by_cases hold : j < k
    · have hidx : j < ((s₀.worn fails).goodBelow b).length := by rw [h.count]; exact hold
      have hlt := getD_goodBelow_lt hidx
      rw [getD_of_prefix_lt (List.prefix_append _ _) hidx]
      dsimp only
      rw [if_neg (by omega)]
      exact h.mem j hold
    · obtain rfl : j = k := by omega
      have hget : ((s₀.worn fails).goodBelow b ++ [c]).getD j 0 = c := by
        rw [List.getD_eq_getElem?_getD, ← h.count, List.getElem?_append_right le_rfl]
        simp
      rw [hget]
      dsimp only
      rw [if_pos rfl, (h.above c hge).2]

end Writing

/-! ## Body and header -/

section Flashing

variable {g : Geom} {fails : Nat → Bool} {p : Package} {hdr : Nat → UInt8} {s s₀ t : Slot}

theorem lt_bodyBlocks_iff {k : Nat} : k < bodyBlocks g p ↔ k * g.bs < p.bodyLen := by
  have hbs := g.bs_pos
  unfold bodyBlocks
  rw [Nat.lt_iff_add_one_le, Nat.le_div_iff_mul_le hbs, Nat.succ_mul]
  omega

theorem blockData_body {k : Nat} (hk : k * g.bs < p.bodyLen) :
    blockData g p hdr k = chunk g (fun i => p.body (k * g.bs + i)) (p.bodyLen - k * g.bs) :=
  if_pos (lt_bodyBlocks_iff.mpr hk)

theorem writeBody_written {n b b' k : Nat} (h : Written fails (blockData g p hdr) s₀ s b k)
    (hk : k ≤ bodyBlocks g p) (hn : p.bodyLen - k * g.bs ≤ n * g.bs)
    (hres : (writeBody g fails n (fun i => p.body (k * g.bs + i)) (p.bodyLen - k * g.bs) b s).result =
      some b') :
    Written fails (blockData g p hdr) s₀
      (writeBody g fails n (fun i => p.body (k * g.bs + i)) (p.bodyLen - k * g.bs) b s).slot b'
      (bodyBlocks g p) := by
  have hdone : p.bodyLen - k * g.bs = 0 → k = bodyBlocks g p := by
    intro hzero
    have hnot : ¬ k < bodyBlocks g p := fun hlt => by
      have := lt_bodyBlocks_iff.mp hlt
      omega
    omega
  induction n generalizing s b k with
  | zero =>
    rw [writeBody] at hres ⊢
    cases hres
    rw [← hdone (by omega)]
    exact h
  | succ n ih =>
    rw [writeBody] at hres ⊢
    by_cases hleft : p.bodyLen - k * g.bs = 0
    · rw [if_pos hleft] at hres ⊢
      cases hres
      rw [← hdone hleft]
      exact h
    · rw [if_neg hleft] at hres ⊢
      dsimp only at hres ⊢
      have hle := h.le
      have hplaced := @writeBlock_placed fails s b
        (chunk g (fun i => p.body (k * g.bs + i)) (p.bodyLen - k * g.bs)) (s.blocks - b)
      cases hb : (writeBlock fails (chunk g (fun i => p.body (k * g.bs + i)) (p.bodyLen - k * g.bs))
          (s.blocks - b) b s).result with
      | none =>
        rw [hb] at hres
        dsimp only at hres
        rw [hb] at hres
        cases hres
      | some b₁ =>
        rw [hb] at hres
        dsimp only at hres ⊢
        obtain ⟨c, rfl, hp⟩ := hplaced (by omega) hb
        have hp' : Placed fails s (writeBlock fails
            (chunk g (fun i => p.body (k * g.bs + i)) (p.bodyLen - k * g.bs)) (s.blocks - b) b s).slot
            b c (blockData g p hdr k) := by
          rw [blockData_body (by omega)]
          exact hp
        have hsrc : (fun i => p.body (k * g.bs + (g.bs + i))) =
            fun i => p.body ((k + 1) * g.bs + i) := by
          funext i
          rw [Nat.succ_mul, Nat.add_assoc]
        have hrest : p.bodyLen - k * g.bs - g.bs = p.bodyLen - (k + 1) * g.bs := by
          rw [Nat.succ_mul]
          omega
        rw [hsrc, hrest] at hres ⊢
        refine ih (h.step hp').1 (lt_bodyBlocks_iff.mpr (by omega)) ?_ hres ?_
        · rw [Nat.succ_mul] at hn ⊢
          omega
        · intro hzero
          have hnot : ¬ k + 1 < bodyBlocks g p := fun hlt => by
            have := lt_bodyBlocks_iff.mp hlt
            omega
          have := lt_bodyBlocks_iff.mpr (by omega : k * g.bs < p.bodyLen)
          omega

/-- Body and header are written: the header goes to the block behind those of the body. -/
theorem writeSlot_written {b' : Nat} (h : (writeSlot g fails p hdr s₀).result = some b') :
    Written fails (blockData g p hdr) s₀ (writeSlot g fails p hdr s₀).slot b' (bodyBlocks g p + 1) ∧
      b' - 1 = ((s₀.worn fails).goodBelow b').getD (bodyBlocks g p) 0 ∧ 0 < b' := by
  have henough : p.bodyLen - 0 * g.bs ≤ (p.bodyLen / g.bs + 1) * g.bs := by
    have hdiv := Nat.div_add_mod p.bodyLen g.bs
    have hmod := Nat.mod_lt p.bodyLen g.bs_pos
    rw [Nat.succ_mul, Nat.mul_comm (p.bodyLen / g.bs)]
    omega
  have hbody := fun b => @writeBody_written g fails p hdr s₀ s₀ (p.bodyLen / g.bs + 1) 0 b 0
    (written_start _ _) (Nat.zero_le _) henough
  simp only [Nat.zero_mul, Nat.zero_add, Nat.sub_zero] at hbody
  unfold writeSlot at h ⊢
  dsimp only at h ⊢
  generalize hr : writeBody g fails (p.bodyLen / g.bs + 1) p.body p.bodyLen 0 s₀ = r at h hbody
  cases hres : r.result with
  | none =>
    simp only [hres] at h
    cases h
  | some b =>
    simp only [hres] at h ⊢
    have hw := hbody b hres
    have hle := hw.le
    have hblocks := hw.blocks
    obtain ⟨c, rfl, hp⟩ := writeBlock_placed (by omega) h
    have hdata : hdrBlock hdr = blockData g p hdr (bodyBlocks g p) :=
      (if_neg (Nat.lt_irrefl (bodyBlocks g p))).symm
    rw [hdata] at hp
    obtain ⟨hw', hlist⟩ := hw.step hp
    refine ⟨by rw [hdata]; exact hw', ?_, Nat.succ_pos c⟩
    rw [hlist, List.getD_eq_getElem?_getD, ← hw.count, List.getElem?_append_right le_rfl]
    simp

/-- What holds of the entries of a list holds of its members. -/
theorem forall_getD_iff {l : List Nat} {q : Nat → Prop} :
    (∀ j < l.length, q (l.getD j 0)) ↔ ∀ x ∈ l, q x := by
  rw [List.forall_mem_iff_forall_getElem]
  refine forall₂_congr fun j hj => ?_
  rw [List.getD_eq_getElem?_getD, List.getElem?_eq_getElem hj, Option.getD_some]

/-- The last block written is found if it is a header and none of those before it is. -/
theorem Written.scan_iff {data : Nat → Nat → UInt8} {c k : Nat}
    (h : Written fails data s₀ t (c + 1) (k + 1))
    (hlast : c = ((s₀.worn fails).goodBelow (c + 1)).getD k 0) :
    t.scan = some c ↔ isHeader (t.mem c) = true ∧
      ∀ j < k, isHeader (t.mem (((s₀.worn fails).goodBelow (c + 1)).getD j 0)) = false := by
  have hidx : k < ((s₀.worn fails).goodBelow (c + 1)).length := by
    rw [h.count]
    exact Nat.lt_succ_self k
  have hc : (s₀.worn fails).bad c = false := by
    have hmem := forall_getD_iff.mpr (fun x hx => hx) k hidx
    rw [← hlast] at hmem
    exact (mem_goodBelow.mp hmem).2
  have hlist := goodBelow_succ_good hc
  have hlen : ((s₀.worn fails).goodBelow c).length = k := by
    have := h.count
    rw [hlist, List.length_append, List.length_singleton] at this
    omega
  have hbefore : (∀ j < k, isHeader (t.mem (((s₀.worn fails).goodBelow (c + 1)).getD j 0)) = false) ↔
      ∀ x < c, t.bad x = false → isHeader (t.mem x) = false := by
    have hcongr : ∀ j < k, ((s₀.worn fails).goodBelow (c + 1)).getD j 0 =
        ((s₀.worn fails).goodBelow c).getD j 0 := by
      intro j hj
      rw [hlist]
      exact getD_of_prefix_lt (List.prefix_append _ _) (by omega)
    have hmem := @forall_getD_iff ((s₀.worn fails).goodBelow c) (fun x => isHeader (t.mem x) = false)
    rw [hlen] at hmem
    rw [forall₂_congr fun j hj => by rw [hcongr j hj], hmem]
    refine ⟨fun hall x hx hb => hall x (mem_goodBelow.mpr ⟨hx, ?_⟩), fun hall x hx => ?_⟩
    · rwa [← h.below x (by omega)]
    · obtain ⟨hlt, hb⟩ := mem_goodBelow.mp hx
      exact hall x hlt (by rwa [h.below x (by omega)])
  have hgood : t.bad c = false := by rwa [h.below c (Nat.lt_succ_self c)]
  have hle := h.le
  unfold Slot.scan
  rw [List.find?_range_eq_some, List.mem_range, hbefore, hgood, Bool.not_false, Bool.true_and]
  refine and_congr_right fun _ => ?_
  rw [and_iff_right (by omega)]
  refine forall₂_congr fun x _ => ?_
  cases t.bad x <;> cases isHeader (t.mem x) <;> decide

end Flashing

/-! ## Which slot is selected -/

section Select

variable {g : Geom} {f : Flash} {running : Fin 2} {t : Slot} {h' : Nat → UInt8}

theorem serialOf_le_maxSerial {s : Fin 2} {h : Nat → UInt8} (hh : (f s).header = some h) :
    serialOf h ≤ maxSerial f := by
  unfold maxSerial
  match s with
  | 0 =>
    rw [hh]
    dsimp only
    cases (f 1).header with
    | none => exact le_rfl
    | some h₁ =>
      dsimp only
      split <;> omega
  | 1 =>
    rw [hh]
    cases (f 0).header with
    | none =>
      dsimp only
      split <;> omega
    | some h₀ =>
      dsimp only
      split <;> omega

theorem maxSerial_lt (f : Flash) : maxSerial f < 2 ^ 32 := by
  have hserial : ∀ h : Nat → UInt8, serialOf h < 2 ^ 32 := fun h => get32_lt _ _
  unfold maxSerial
  cases (f 0).header with
  | none =>
    cases (f 1).header with
    | none => decide
    | some h₁ =>
      dsimp only
      split
      · exact hserial h₁
      · exact Nat.two_pow_pos 32
  | some h₀ =>
    cases (f 1).header with
    | none => exact hserial h₀
    | some h₁ =>
      dsimp only
      split
      · exact hserial h₁
      · exact hserial h₀

/-- A slot with a header is selected next to one without, or next to one it is preferred to. -/
theorem nextSlot_setSlot (hh : t.header = some h') :
    nextSlot (setSlot f (running + 1) t) = some (running + 1) ↔
      ∀ h, (f running).header = some h →
        if running = 0 then serialOf h < serialOf h' else serialOf h ≤ serialOf h' := by
  have hother : setSlot f (running + 1) t (running + 1) = t := if_pos rfl
  have hne : ∀ r : Fin 2, r ≠ r + 1 := by decide
  have hself : setSlot f (running + 1) t running = f running := if_neg (hne running)
  match running with
  | 0 =>
    have h₁ : setSlot f (0 + 1) t 1 = t := hother
    unfold nextSlot
    rw [hself, h₁, hh]
    cases (f 0).header with
    | none => simp
    | some h =>
      simp only [Option.some.injEq, forall_eq', if_true]
      split
      · next hlt => exact ⟨fun _ => hlt, fun _ => rfl⟩
      · next hge => exact ⟨fun heq => absurd heq (by decide), fun hlt => absurd hlt hge⟩
  | 1 =>
    have h₀ : setSlot f (1 + 1) t 0 = t := hother
    unfold nextSlot
    rw [hself, h₀, hh]
    cases (f 1).header with
    | none => simp
    | some h =>
      have hone : ¬ (1 : Fin 2) = 0 := by decide
      simp only [Option.some.injEq, forall_eq', hone, if_false]
      split
      · next hlt => exact ⟨fun heq => absurd heq (by decide), fun hle => absurd hle (by omega)⟩
      · next hge => exact ⟨fun _ => Nat.le_of_not_lt hge, fun _ => rfl⟩

/-- A header with one more than the highest serial is preferred unless that wraps. -/
theorem nextSlot_iff_serialFits (hh : t.header = some h')
    (hserial : serialOf h' = (maxSerial f + 1) % 2 ^ 32) :
    nextSlot (setSlot f (running + 1) t) = some (running + 1) ↔ SerialFits f running := by
  have hmax : ∀ h, (f running).header = some h → serialOf h ≤ maxSerial f :=
    fun h hr => serialOf_le_maxSerial hr
  rw [nextSlot_setSlot hh, SerialFits]
  by_cases hfits : maxSerial f + 1 < 2 ^ 32
  · rw [Nat.mod_eq_of_lt hfits] at hserial
    refine ⟨fun _ => Or.inl hfits, fun _ h hr => ?_⟩
    have := hmax h hr
    split <;> omega
  · have hlt := maxSerial_lt f
    have hzero : serialOf h' = 0 := by omega
    rw [hzero, or_iff_right hfits]
    cases hr : (f running).header with
    | none => simp
    | some h =>
      simp only [Option.some.injEq, forall_eq', reduceCtorEq, false_or, exists_eq_left']
      match running with
      | 0 => simp
      | 1 => simp

theorem serialOf_newHeader (hdr : Nat → UInt8) (slot : Fin 2) (serial : Nat) :
    serialOf (newHeader hdr slot serial) = serial % 2 ^ 32 := by
  unfold serialOf newHeader
  dsimp only
  rw [get32_put32_of_disjoint _ _ (by decide), get32_put32_of_disjoint _ _ (by decide),
    get32_put32_self]

theorem serialOf_withSerial (hdr : Nat → UInt8) (serial : Nat) :
    serialOf (withSerial hdr serial) = serial % 2 ^ 32 := by
  unfold serialOf withSerial
  dsimp only
  rw [get32_put32_of_disjoint _ _ (by decide), get32_put32_self]

/-- The serial lies in the header. -/
theorem serialOf_congr {m m' : Nat → UInt8} (h : ∀ i < verHdrSize, m i = m' i) :
    serialOf m = serialOf m' :=
  get32_congr (fun i hi => h _ (by unfold hSerial verHdrSize; omega))

/-- A slot that is found by a header with the new serial: what decides on the selection. -/
theorem selectedBy_iff {hdr : Nat → UInt8} {b : Nat}
    (hserial : serialOf hdr = (maxSerial f + 1) % 2 ^ 32) :
    SelectedBy (setSlot f (running + 1) t) (running + 1) hdr b ↔
      (t.scan = some b ∧ ∀ i < verHdrSize, t.mem b i = hdr i) ∧ SerialFits f running := by
  have hother : setSlot f (running + 1) t (running + 1) = t := if_pos rfl
  unfold SelectedBy
  rw [hother]
  refine and_congr_right fun ⟨hscan, hmem⟩ => ?_
  have hheader : t.header = some (t.mem b) := by
    unfold Slot.header
    rw [hscan, Option.map_some]
  exact nextSlot_iff_serialFits hheader ((serialOf_congr hmem).trans hserial)

end Select

/-! ## After a command that succeeds -/

section Success

variable {g : Geom} {fails : Nat → Bool} {left : Nat → Option (Nat → UInt8)} {p : Package} {f : Flash}
  {running : Fin 2}

/-- A flash that reports success has written body and header. -/
theorem cmdFlashLeft_ok {serial b : Nat}
    (h : (cmdFlashLeft g fails left p f running).2 = .ok (serial, b)) :
    let r := writeSlot g fails p (newHeader p.hdr (running + 1) ((maxSerial f + 1) % 2 ^ 32))
      ((f (running + 1)).erased left)
    p.load = .ok () ∧ (∃ b', r.result = some b' ∧ b = b' - 1) ∧
      (cmdFlashLeft g fails left p f running).1 = r.slot := by
  generalize hd : cmdFlashLeft g fails left p f running = d at h
  unfold cmdFlashLeft at hd
  dsimp only at hd ⊢
  split at hd
  · subst hd
    cases h
  · next hload =>
    split at hd
    · subst hd
      cases h
    · split at hd
      · subst hd
        cases h
      · next b' hb =>
        split at hd
        · subst hd
          cases h
        · subst hd
          obtain ⟨-, rfl⟩ := Prod.mk.inj (Except.ok.inj h)
          refine ⟨hload, ⟨b', hb, ?_⟩, ?_⟩ <;> dsimp only

/-- The header just written is found exactly if nothing in front of it looks like one and its block
takes it. -/
theorem found_iff_headerFound {s : Slot} {b' : Nat} {hdr : Nat → UInt8}
    (hhdr : isHeader (hdrBlock hdr) = true)
    (h : (writeSlot g fails p hdr (s.erased left)).result = some b') :
    ((writeSlot g fails p hdr (s.erased left)).slot.scan = some (b' - 1) ∧
        ∀ i < verHdrSize, (writeSlot g fails p hdr (s.erased left)).slot.mem (b' - 1) i = hdr i) ↔
      HeaderFound g fails left p hdr s := by
  obtain ⟨hw, hlast, hpos⟩ := writeSlot_written h
  generalize (writeSlot g fails p hdr (s.erased left)).slot = t at hw ⊢
  obtain ⟨c, rfl⟩ : ∃ c, b' = c + 1 := ⟨b' - 1, by omega⟩
  rw [Nat.add_sub_cancel] at hlast ⊢
  have hle : c + 1 ≤ s.blocks := Nat.le_trans hw.le (Nat.le_of_eq hw.blocks)
  have hpre : ((s.erased left).worn fails).goodBelow (c + 1) <+: s.targets fails :=
    @goodBelow_mono (s.worn fails) (c + 1) s.blocks hle
  have hget : ∀ j < bodyBlocks g p + 1,
      (((s.erased left).worn fails).goodBelow (c + 1)).getD j 0 = (s.targets fails).getD j 0 :=
    fun j hj => (getD_of_prefix_lt hpre (by rw [hw.count]; exact hj)).symm
  have hmem : ∀ j < bodyBlocks g p + 1, t.mem ((s.targets fails).getD j 0) =
      fun i => (s.erased left).mem ((s.targets fails).getD j 0) i &&& blockData g p hdr j i := by
    intro j hj
    rw [← hget j hj]
    exact hw.mem j hj
  have hc : c = (s.targets fails).getD (bodyBlocks g p) 0 := by
    rw [← hget _ (Nat.lt_succ_self _)]
    exact hlast
  have hlastData : blockData g p hdr (bodyBlocks g p) = hdrBlock hdr := if_neg (Nat.lt_irrefl _)
  have hcontent : ∀ i < verHdrSize, t.mem c i =
      (s.erased left).mem ((s.targets fails).getD (bodyBlocks g p) 0) i &&& hdr i := by
    intro i hi
    rw [hc, hmem _ (Nat.lt_succ_self _), hlastData]
    dsimp only
    rw [hdrBlock, if_pos hi]
  rw [hw.scan_iff hlast]
  constructor
  · rintro ⟨⟨-, hbody⟩, hheader⟩
    refine ⟨fun k hk => ?_, fun i hi => ?_⟩
    · rw [← hmem k (by omega), ← hget k (by omega)]
      exact hbody k hk
    · rw [← hcontent i hi, hheader i hi]
  · rintro ⟨hbody, hheader⟩
    have hsame : ∀ i < verHdrSize, t.mem c i = hdr i := fun i hi => by
      rw [hcontent i hi, hheader i hi]
    refine ⟨⟨?_, fun k hk => ?_⟩, hsame⟩
    · rw [← hhdr]
      refine isHeader_congr fun i hi => ?_
      have hlt : i < verHdrSize := by
        unfold hSlotStart at hi
        unfold verHdrSize
        omega
      rw [hdrBlock, if_pos hlt]
      exact hsame i hlt
    · rw [hget k (by omega)]
      have hk' := hmem k (by omega)
      rw [hk']
      exact hbody k hk

/-- What a switch that reports success has done. -/
theorem cmdSwitch_ok {serial : Nat} (h : (cmdSwitch g f running).result = .ok serial) :
    ∃ b, (f (running + 1)).scan = some b ∧ (cmdSwitch g f running).slot =
      (f (running + 1)).setBlock b
        (hdrBlock (withSerial ((f (running + 1)).mem b) ((maxSerial f + 1) % 2 ^ 32))) := by
  cases hscan : (f (running + 1)).scan with
  | none =>
    simp only [cmdSwitch, hscan] at h
    cases h
  | some b =>
    have hcmd : cmdSwitch g f running = rewriteHeader f (f (running + 1)) b
        ((f (running + 1)).verify g ((f (running + 1)).mem b)) := by
      simp only [cmdSwitch, hscan]
    rw [hcmd] at h ⊢
    cases hv : (f (running + 1)).verify g ((f (running + 1)).mem b) with
    | some why =>
      rw [hv] at h
      cases h
    | none => exact ⟨b, rfl, erase_program _ _ _⟩

/-- For every content of both slots, every package, and whatever blocks fail to erase or to take a
write: after a flash that reports success the header just written is found and its slot selected
exactly if nothing in front of it looks like a header, its block takes it, and the serial fits; after a
switch, exactly if the serial fits. -/
theorem select_iff (g : Geom) (fails : Nat → Bool) (left : Nat → Option (Nat → UInt8)) (p : Package)
    (f : Flash) (running : Fin 2) :
    let hdr := newHeader p.hdr (running + 1) ((maxSerial f + 1) % 2 ^ 32)
    (∀ serial b, (cmdFlashLeft g fails left p f running).2 = .ok (serial, b) →
      (SelectedBy (setSlot f (running + 1) (cmdFlashLeft g fails left p f running).1) (running + 1)
          hdr b ↔
        HeaderFound g fails left p hdr (f (running + 1)) ∧ SerialFits f running)) ∧
    ∀ serial, (cmdSwitch g f running).result = .ok serial →
      ∃ b, (f (running + 1)).scan = some b ∧
        (SelectedBy (setSlot f (running + 1) (cmdSwitch g f running).slot) (running + 1)
            (withSerial ((f (running + 1)).mem b) ((maxSerial f + 1) % 2 ^ 32)) b ↔
          SerialFits f running) := by
  intro hdr
  have hmod : (maxSerial f + 1) % 2 ^ 32 % 2 ^ 32 = (maxSerial f + 1) % 2 ^ 32 := Nat.mod_mod _ _
  constructor
  · intro serial b h
    obtain ⟨hload, ⟨b', hb', rfl⟩, hslot⟩ := cmdFlashLeft_ok h
    rw [selectedBy_iff ((serialOf_newHeader _ _ _).trans hmod), hslot,
      found_iff_headerFound (isHeader_hdrBlock hload _ _) hb']
  · intro serial h
    obtain ⟨b, hscan, hslot⟩ := cmdSwitch_ok h
    refine ⟨b, hscan, ?_⟩
    rw [selectedBy_iff ((serialOf_withSerial _ _).trans hmod), hslot]
    refine and_iff_right ⟨scan_rewrite hscan _, fun i hi => ?_⟩
    rw [mem_setBlock, if_pos rfl, hdrBlock, if_pos hi]

theorem erased_none (s : Slot) : s.erased (fun _ => none) = s.applyAll (eraseOps s) := by
  rw [eraseOps_eq, applyAll_erase, Slot.erased]
  congr 1
  funext b
  by_cases hb : b < s.blocks ∧ s.bad b = false
  · rw [if_pos hb, if_pos (mem_goodBelow.mpr hb), Option.getD_none]
  · rw [if_neg hb, if_neg (fun hmem => hb (mem_goodBelow.mp hmem))]

/-- Where no erase fails, `cmdFlashLeft` is `cmdFlash`. -/
theorem cmdFlashLeft_none (g : Geom) (fails : Nat → Bool) (p : Package) (f : Flash)
    (running : Fin 2) :
    (cmdFlashLeft g fails (fun _ => none) p f running).1 = (cmdFlash g fails p f running).slot ∧
      (cmdFlashLeft g fails (fun _ => none) p f running).2.map Prod.fst =
        (cmdFlash g fails p f running).result := by
  unfold cmdFlashLeft cmdFlash
  dsimp only
  rw [erased_none]
  cases p.load with
  | error why => exact ⟨rfl, rfl⟩
  | ok _ =>
    dsimp only
    by_cases hroom : (f (running + 1)).blocks * g.bs - g.bs < p.bodyLen
    · rw [if_pos hroom, if_pos hroom]
      exact ⟨rfl, rfl⟩
    · rw [if_neg hroom, if_neg hroom]
      generalize writeSlot g fails p _ _ = r
      cases r.result with
      | none => exact ⟨rfl, rfl⟩
      | some b =>
        dsimp only
        cases r.slot.header with
        | none => exact ⟨rfl, rfl⟩
        | some h => exact ⟨rfl, rfl⟩

/-! ## The sample -/

/-- A flash of the sample package to the empty slot of `f` succeeds. -/
theorem cmdFlashLeft_sample {f : Flash} (hempty : f 1 = emptyFlash 1) :
    ∃ serial b, (cmdFlashLeft nandGeom (fun _ => false) (fun _ => none) (samplePackage 0) f 0).2 =
      .ok (serial, b) := by
  have hother : f (0 + 1) = emptyFlash 1 := hempty
  obtain ⟨serial, hok⟩ := @cmdFlash_faultless nandGeom (fun _ => false) _ f 0
    (@samplePackage_load 0 (by decide)) (fun b => by rw [hother]; rfl) (fun _ => rfl)
    (by rw [hother]; exact samplePackage_fits 0)
  have hmap := (cmdFlashLeft_none nandGeom (fun _ => false) (samplePackage 0) f 0).2
  rw [hok] at hmap
  cases hres : (cmdFlashLeft nandGeom (fun _ => false) (fun _ => none) (samplePackage 0) f 0).2 with
  | error why =>
    rw [hres] at hmap
    cases hmap
  | ok r => exact ⟨r.1, r.2, rfl⟩

theorem select_iff_sample : ∃ serial b,
    (cmdFlashLeft nandGeom (fun _ => false) (fun _ => none) (samplePackage 0) emptyFlash 0).2 =
      .ok (serial, b) ∧
    (SelectedBy (setSlot emptyFlash (0 + 1)
        (cmdFlashLeft nandGeom (fun _ => false) (fun _ => none) (samplePackage 0) emptyFlash 0).1)
        (0 + 1) (newHeader (samplePackage 0).hdr (0 + 1) ((maxSerial emptyFlash + 1) % 2 ^ 32)) b ↔
      HeaderFound nandGeom (fun _ => false) (fun _ => none) (samplePackage 0)
        (newHeader (samplePackage 0).hdr (0 + 1) ((maxSerial emptyFlash + 1) % 2 ^ 32))
        (emptyFlash (0 + 1)) ∧ SerialFits emptyFlash 0) := by
  obtain ⟨serial, b, hok⟩ := @cmdFlashLeft_sample emptyFlash rfl
  exact ⟨serial, b, hok,
    (select_iff nandGeom (fun _ => false) (fun _ => none) (samplePackage 0) emptyFlash 0).1
      serial b hok⟩

/-- A running slot with the given serial, and an empty one. -/
def serialFlash (serial : Nat) : Flash := fun s =>
  if s = 0 then (emptyFlash 0).setBlock 0 (hdrBlock (newHeader (samplePackage 0).hdr 0 serial))
  else emptyFlash s

theorem serialFlash_other (serial : Nat) : serialFlash serial 1 = emptyFlash 1 := if_neg (by decide)

/-- A header in the first block of an empty slot is found. -/
theorem header_setBlock_zero {m : Nat → UInt8} (h : isHeader m = true) (o : Fin 2) :
    ((emptyFlash o).setBlock 0 m).header = some m := by
  have hscan : ((emptyFlash o).setBlock 0 m).scan = some 0 := by
    unfold Slot.scan
    rw [List.find?_range_eq_some, mem_setBlock, if_pos rfl, h]
    exact ⟨rfl, List.mem_range.mpr (Nat.succ_pos 13), fun x hx => absurd hx (Nat.not_lt_zero x)⟩
  rw [Slot.header, hscan, Option.map_some, mem_setBlock, if_pos rfl]

theorem serialFlash_header (serial : Nat) : (serialFlash serial 0).header =
    some (hdrBlock (newHeader (samplePackage 0).hdr 0 serial)) := by
  rw [serialFlash, if_pos rfl]
  exact header_setBlock_zero (isHeader_hdrBlock (@samplePackage_load 0 (by decide)) _ _) 0

theorem maxSerial_of_other {f : Flash} {h : Nat → UInt8} (h₀ : (f 0).header = some h)
    (h₁ : (f 1).header = none) : maxSerial f = serialOf h := by
  unfold maxSerial
  rw [h₀, h₁]

theorem maxSerial_serialFlash {serial : Nat} (h : serial < 2 ^ 32) :
    maxSerial (serialFlash serial) = serial := by
  have hother : (serialFlash serial 1).header = none := by
    rw [serialFlash_other]
    exact (noHeader_emptyFlash 1).header
  rw [maxSerial_of_other (serialFlash_header serial) hother, serialOf_hdrBlock, Nat.mod_eq_of_lt h]

/-- A flash next to a slot with the last serial reports success, and the old slot stays selected. -/
theorem nextSlot_of_last {f : Flash} {h₀ : Nat → UInt8} (hempty : f (0 + 1) = emptyFlash 1)
    (hhdr : (f 0).header = some h₀) (hmax : maxSerial f = 2 ^ 32 - 1) :
    nextSlot (setSlot f (0 + 1) (cmdFlash nandGeom (fun _ => false) (samplePackage 0) f 0).slot) =
      some 0 := by
  obtain ⟨c, hscan, hmem, -⟩ := @flash_sample f 0 (fun b => by rw [hempty]; rfl) (by rw [hempty]; rfl)
  generalize (cmdFlash nandGeom (fun _ => false) (samplePackage 0) f 0).slot = t at *
  have hself : setSlot f (0 + 1) t 0 = f 0 := if_neg (by decide)
  have hother : setSlot f (0 + 1) t 1 = t := if_pos rfl
  have hheader : t.header = some (t.mem c) := by rw [Slot.header, hscan, Option.map_some]
  have hnew : serialOf (t.mem c) = 0 := by
    rw [hmem, serialOf_hdrBlock, hmax, Nat.sub_add_cancel (by decide), Nat.mod_self, Nat.zero_mod]
  unfold nextSlot
  rw [hself, hother, hhdr, hheader]
  dsimp only
  rw [hnew, if_neg (Nat.not_lt_zero _)]

/-- The serial wraps: the flash reports success, and the old slot stays selected. -/
theorem serialFlash_selected : ∃ serial b,
    (cmdFlashLeft nandGeom (fun _ => false) (fun _ => none) (samplePackage 0)
      (serialFlash (2 ^ 32 - 1)) 0).2 = .ok (serial, b) ∧
    nextSlot (setSlot (serialFlash (2 ^ 32 - 1)) (0 + 1) (cmdFlashLeft nandGeom (fun _ => false)
      (fun _ => none) (samplePackage 0) (serialFlash (2 ^ 32 - 1)) 0).1) = some 0 := by
  obtain ⟨serial, b, hok⟩ := cmdFlashLeft_sample (serialFlash_other (2 ^ 32 - 1))
  refine ⟨serial, b, hok, ?_⟩
  rw [(cmdFlashLeft_none _ _ _ _ _).1]
  exact nextSlot_of_last (serialFlash_other _) (serialFlash_header _)
    (maxSerial_serialFlash (by decide))

end Success

end Lede.FwSlot
