/-
Lede.Sfe.OptionTheorems — how far the TCP options are read.

`sfe_ipv4_process_tcp_option_sack` is a loop over the options and, for a SACK option, a loop over
its blocks; the two come to an end with what `sackLoop` says (`optionBody_leaves`). The size byte of
an option is read without a look at the end of the header, and the header may be longer than what
is there of the packet: the data offset is compared with the length of the packet only after the
options. So the reads stay inside exactly where the options do (`options_within_iff`).
-/
import Lede.Lib.Access
import Lede.Lib.Loops
import Lede.Sfe.WindowTheorems

namespace Lede.Sfe

open Lede.Lib Lede.Lib.Loops

/-! ## The loops -/

/-- One turn of the loop over the blocks of a SACK option; `re` is an octet. -/
def blockStep (m : Nat → UInt8) (ptr size : Nat) (s : Nat × BitVec 32) :
    (Nat × BitVec 32) ⊕ BitVec 32 :=
  if s.1 < size then
    let sackRe := be32 m (ptr + s.1)
    .inl ((s.1 + 8) % 256, if s.2 < sackRe then sackRe else s.2)
  else .inr s.2

/-- One turn of the loop over the options. -/
def optionBody (m : Nat → UInt8) (o dataOffs : Nat) (s : Nat × BitVec 32)
    (x : (Nat × BitVec 32) ⊕ Option (BitVec 32)) : Prop :=
  if dataOffs ≤ s.1 then x = .inr (some s.2)
  else
    let kind := (m (o + s.1)).toNat
    let size := (m (o + s.1 + 1)).toNat
    if kind = 1 then x = .inl (s.1 + 1, s.2)
    else if kind = 5 then
      if size < 10 ∨ (size - 2) % 8 ≠ 0 ∨ dataOffs - s.1 < size then x = .inr none
      else
        ∃ sack, Leaves (fun t y => y = blockStep m (o + s.1) size t) (6, 0) sack ∧
          x = .inl (s.1 + size, if s.2 < sack then sack else s.2)
    else if kind = 0 then x = .inr (some s.2)
    else if size < 2 then x = .inr none
    else x = .inl (s.1 + size, s.2)

/-- The same with the result of the loop over the blocks. -/
def optionStep (m : Nat → UInt8) (o dataOffs : Nat) (s : Nat × BitVec 32) :
    (Nat × BitVec 32) ⊕ Option (BitVec 32) :=
  if dataOffs ≤ s.1 then .inr (some s.2)
  else
    let kind := (m (o + s.1)).toNat
    let size := (m (o + s.1 + 1)).toNat
    if kind = 1 then .inl (s.1 + 1, s.2)
    else if kind = 5 then
      if size < 10 ∨ (size - 2) % 8 ≠ 0 ∨ dataOffs - s.1 < size then .inr none
      else
        let sack := sackRightEdges m ((size - 2) / 8) (o + s.1 + 6) 0
        .inl (s.1 + size, if s.2 < sack then sack else s.2)
    else if kind = 0 then .inr (some s.2)
    else if size < 2 then .inr none
    else .inl (s.1 + size, s.2)

section Loops

variable {m : Nat → UInt8} {o dataOffs : Nat}

/-- The loop over the blocks of an option of up to 240 bytes ends with the largest right edge. -/
theorem blockStep_leaves {ptr size : Nat} (hle : size ≤ 240) (hmod : (size - 2) % 8 = 0)
    (hsize : 10 ≤ size) (sack : BitVec 32) :
    Leaves (fun t y => y = blockStep m ptr size t) (6, 0) sack ↔
      sack = sackRightEdges m ((size - 2) / 8) (ptr + 6) 0 := by
  have hsix : size - 2 = size + 4 - 6 := by omega
  rw [hsix] at hmod ⊢
  refine leaves_iff (blockStep m ptr size) (fun s => s.1 ≤ size + 4 ∧ (size + 4 - s.1) % 8 = 0)
    (fun s => size + 4 - s.1)
    (fun s => sackRightEdges m ((size + 4 - s.1) / 8) (ptr + s.1) s.2) (fun s _ x => Iff.rfl)
    ?_ ?_ ⟨by omega, hmod⟩ sack
  · intro s r ⟨hs, hs8⟩ hstep
    unfold blockStep at hstep
    split at hstep
    · cases hstep
    · cases hstep
      have hzero : (size + 4 - s.1) / 8 = 0 := by omega
      rw [hzero]
      rfl
  · intro s s' ⟨hs, hs8⟩ hstep
    unfold blockStep at hstep
    split at hstep
    · cases hstep
      dsimp only
      have hre : (s.1 + 8) % 256 = s.1 + 8 := Nat.mod_eq_of_lt (by omega)
      have hcount : (size + 4 - s.1) / 8 = (size + 4 - (s.1 + 8)) / 8 + 1 := by omega
      rw [hre, hcount]
      refine ⟨⟨by omega, by omega⟩, by omega, ?_⟩
      rw [sackRightEdges, Nat.add_assoc]
    · cases hstep

theorem optionBody_iff (hoffs : dataOffs ≤ 240) (s : Nat × BitVec 32)
    (x : (Nat × BitVec 32) ⊕ Option (BitVec 32)) :
    optionBody m o dataOffs s x ↔ x = optionStep m o dataOffs s := by
  unfold optionBody optionStep
  dsimp only
  by_cases hend : dataOffs ≤ s.1
  · rw [if_pos hend, if_pos hend]
  · rw [if_neg hend, if_neg hend]
    by_cases hnop : (m (o + s.1)).toNat = 1
    · rw [if_pos hnop, if_pos hnop]
    · rw [if_neg hnop, if_neg hnop]
      by_cases hsack : (m (o + s.1)).toNat = 5
      · rw [if_pos hsack, if_pos hsack]
        generalize (m (o + s.1 + 1)).toNat = size
        by_cases hbad : size < 10 ∨ (size - 2) % 8 ≠ 0 ∨ dataOffs - s.1 < size
        · rw [if_pos hbad, if_pos hbad]
        · rw [if_neg hbad, if_neg hbad]
          have hblocks := @blockStep_leaves m (o + s.1) size (by omega) (by omega) (by omega)
          simp only [hblocks, exists_eq_left]
      · rw [if_neg hsack, if_neg hsack]
        by_cases heol : (m (o + s.1)).toNat = 0
        · rw [if_pos heol, if_pos heol]
        · rw [if_neg heol, if_neg heol]
          by_cases hsmall : (m (o + s.1 + 1)).toNat < 2
          · rw [if_pos hsmall, if_pos hsmall]
          · rw [if_neg hsmall, if_neg hsmall]

/-- A turn that goes on has an option, and goes forward. -/
theorem optionStep_inl {s s' : Nat × BitVec 32} (h : optionStep m o dataOffs s = .inl s') :
    s.1 < dataOffs ∧ s.1 < s'.1 := by
  unfold optionStep at h
  dsimp only at h
  split_ifs at h <;> cases h <;> dsimp only <;> omega

theorem sackLoop_succ (n length : Nat) (ack : BitVec 32) :
    sackLoop m o dataOffs (n + 1) length ack = match optionStep m o dataOffs (length, ack) with
    | .inl s => sackLoop m o dataOffs n s.1 s.2
    | .inr r => r := by
  rw [sackLoop]
  unfold optionStep
  dsimp only
  split_ifs <;> rfl

theorem sackLoop_end {length : Nat} (hle : dataOffs ≤ length) (n : Nat) (ack : BitVec 32) :
    sackLoop m o dataOffs n length ack = some ack := by
  cases n with
  | zero => rfl
  | succ n =>
    rw [sackLoop]
    exact if_pos hle

/-- A bound that the walk cannot use up does not matter. -/
theorem sackLoop_bound {n k length : Nat} (h : dataOffs ≤ length + n) (h' : dataOffs ≤ length + k)
    (ack : BitVec 32) :
    sackLoop m o dataOffs n length ack = sackLoop m o dataOffs k length ack := by
  induction n generalizing k length ack with
  | zero =>
    rw [Nat.add_zero] at h
    rw [sackLoop_end h, sackLoop_end h]
  | succ n ih =>
    cases k with
    | zero =>
      rw [Nat.add_zero] at h'
      rw [sackLoop_end h', sackLoop_end h']
    | succ k =>
      rw [sackLoop_succ, sackLoop_succ]
      cases hstep : optionStep m o dataOffs (length, ack) with
      | inr r => rfl
      | inl s =>
        obtain ⟨hlt, hgt⟩ := optionStep_inl hstep
        dsimp only at hlt hgt ⊢
        exact ih (by omega) (by omega) _

/-- The loop over the options ends, with what `sackLoop` says. -/
theorem optionBody_leaves (hoffs : dataOffs ≤ 240) (ack : BitVec 32) (r : Option (BitVec 32)) :
    Leaves (optionBody m o dataOffs) (20, ack) r ↔
      r = sackLoop m o dataOffs (dataOffs - 20) 20 ack := by
  refine leaves_iff (optionStep m o dataOffs) (fun _ => True) (fun s => dataOffs - s.1)
    (fun s => sackLoop m o dataOffs (dataOffs - s.1) s.1 s.2)
    (fun s _ x => optionBody_iff hoffs s x) ?_ ?_ trivial r
  · rintro ⟨length, ack⟩ r - hstep
    dsimp only
    rw [sackLoop_bound (k := dataOffs - length + 1) (by omega) (by omega), sackLoop_succ, hstep]
  · rintro ⟨length, ack⟩ s' - hstep
    obtain ⟨hlt, hgt⟩ := optionStep_inl hstep
    dsimp only at hlt hgt ⊢
    refine ⟨trivial, by omega, ?_⟩
    rw [sackLoop_bound (k := dataOffs - length + 1) (by omega) (by omega), sackLoop_succ, hstep]
    exact sackLoop_bound (by omega) (by omega) _

end Loops

/-! ## Reads -/

/-- The reads of `timestampOnly`: a comparison that fails is the last one. -/
def timestampUse (m : Nat → UInt8) (o dataOffs : Nat) : List Access :=
  if dataOffs ≠ 32 then []
  else if (m (o + 20)).toNat ≠ 1 then [⟨o + 20, 1⟩]
  else if (m (o + 21)).toNat ≠ 1 then [⟨o + 20, 1⟩, ⟨o + 21, 1⟩]
  else if (m (o + 22)).toNat ≠ 8 then [⟨o + 20, 1⟩, ⟨o + 21, 1⟩, ⟨o + 22, 1⟩]
  else [⟨o + 20, 1⟩, ⟨o + 21, 1⟩, ⟨o + 22, 1⟩, ⟨o + 23, 1⟩]

/-- The reads of `sackLoop`: the kind of an option, its size where it has one, and the right
edges. -/
def sackUse (m : Nat → UInt8) (o dataOffs : Nat) : Nat → Nat → List Access
  | 0, _ => []
  | n + 1, length =>
    if dataOffs ≤ length then []
    else
      let kind := (m (o + length)).toNat
      let size := (m (o + length + 1)).toNat
      if kind = 1 then ⟨o + length, 1⟩ :: sackUse m o dataOffs n (length + 1)
      else if kind = 5 then
        if size < 10 ∨ (size - 2) % 8 ≠ 0 ∨ dataOffs - length < size then
          [⟨o + length, 1⟩, ⟨o + length + 1, 1⟩]
        else
          [⟨o + length, 1⟩, ⟨o + length + 1, 1⟩] ++
            (List.range ((size - 2) / 8)).map (fun i => ⟨o + length + 6 + 8 * i, 4⟩) ++
            sackUse m o dataOffs n (length + size)
      else if kind = 0 then [⟨o + length, 1⟩]
      else if size < 2 then [⟨o + length, 1⟩, ⟨o + length + 1, 1⟩]
      else [⟨o + length, 1⟩, ⟨o + length + 1, 1⟩] ++ sackUse m o dataOffs n (length + size)

/-- The reads of `processTcpOptionSack`. -/
def optionUse (m : Nat → UInt8) (o dataOffs : Nat) : List Access :=
  timestampUse m o dataOffs ++
    if timestampOnly m o dataOffs then [] else sackUse m o dataOffs (dataOffs - 20) 20

/-- The reads of the options in `tcpDecide`. -/
def tcpOptionUse (cm : ConnectionMatch) (skb : Skb) (ihl : Nat) (flushOnFind : Bool) :
    List Access :=
  if flushOnFind then []
  else if !cm.flowAccel then []
  else if ipTtl skb.data < 2 then []
  else if skb.len > cm.xmitDevMtu.toNat ∧ !skb.isGso then []
  else if !tcpFastFlags skb.data ihl then []
  else if cm.flags.noSeqCheck then []
  else if 0 < (tcpSeq skb.data ihl - (cm.tcp.maxEnd + 1)).toInt then []
  else if tcpDataOffs skb.data ihl < 20 then []
  else optionUse skb.data ihl (tcpDataOffs skb.data ihl)

/-! ## Options -/

section Options

variable (m : Nat → UInt8) (o dataOffs : Nat)

/-- The size of a SACK option is one of whole blocks inside the header, that of another option is
one of at least its kind and size. -/
def sizeOk (a : Nat) : Bool :=
  let size := (m (o + a + 1)).toNat
  if (m (o + a)).toNat = 5 then 10 ≤ size && (size - 2) % 8 == 0 && size ≤ dataOffs - a
  else 2 ≤ size

/-- The option at `a` is followed by one at `b`. -/
def nextOption (a : Nat) : Option Nat :=
  if (m (o + a)).toNat = 1 then some (a + 1)
  else if (m (o + a)).toNat = 0 then none
  else if sizeOk m o dataOffs a then some (a + (m (o + a + 1)).toNat)
  else none

/-- The options of the header from `a` on. -/
inductive OptionAt : Nat → Nat → Prop where
  | here {a : Nat} (h : a < dataOffs) : OptionAt a a
  | next {a b l : Nat} (h : a < dataOffs) (hb : nextOption m o dataOffs a = some b)
      (rest : OptionAt b l) : OptionAt a l

/-- Where what is read of the option at `a` ends. -/
def readEnd (a : Nat) : Nat :=
  if (m (o + a)).toNat ≤ 1 then a + 1
  else if (m (o + a)).toNat = 5 ∧ sizeOk m o dataOffs a then a + (m (o + a + 1)).toNat
  else a + 2

/-- The options are inside the header and inside the bytes that were pulled. -/
structure OptionsFit (pulled : Nat) : Prop where
  /-- A timestamp behind two NOPs is compared to its second byte. -/
  stamp : timestampOnly m o dataOffs = true → o + 24 ≤ pulled
  /-- No option with a size begins with the last byte of the header. -/
  header : timestampOnly m o dataOffs = false → ∀ l, OptionAt m o dataOffs 20 l →
    (m (o + l)).toNat ≤ 1 ∨ l + 1 < dataOffs
  pulled : timestampOnly m o dataOffs = false → ∀ l, OptionAt m o dataOffs 20 l →
    o + readEnd m o dataOffs l ≤ pulled

end Options

section Fits

variable {m : Nat → UInt8} {o dataOffs a l n lim : Nat}

theorem OptionAt.lt (h : OptionAt m o dataOffs a l) : l < dataOffs := by
  induction h with
  | here h => exact h
  | next _ _ _ ih => exact ih

/-- The option at `a`, and the options behind it. -/
theorem optionAt_iff (ha : a < dataOffs) : OptionAt m o dataOffs a l ↔
    l = a ∨ ∃ b, nextOption m o dataOffs a = some b ∧ OptionAt m o dataOffs b l := by
  constructor
  · intro h
    cases h with
    | here => exact Or.inl rfl
    | next _ hb rest => exact Or.inr ⟨_, hb, rest⟩
  · rintro (rfl | ⟨b, hb, rest⟩)
    · exact .here ha
    · exact .next ha hb rest

theorem within_blocks {k c : Nat} (hk : 0 < k) :
    Within lim ((List.range k).map fun i => (⟨c + 6 + 8 * i, 4⟩ : Access)) ↔
      c + 2 + 8 * k ≤ lim := by
  simp only [Within, List.mem_map, List.mem_range, forall_exists_index, and_imp,
    forall_apply_eq_imp_iff₂]
  constructor
  · intro h
    have := h (k - 1) (by omega)
    omega
  · intro h i hi
    omega

theorem sizeOk_sack (hsack : (m (o + a)).toNat = 5) : sizeOk m o dataOffs a = true ↔
    ¬ ((m (o + a + 1)).toNat < 10 ∨ ((m (o + a + 1)).toNat - 2) % 8 ≠ 0 ∨
      dataOffs - a < (m (o + a + 1)).toNat) := by
  unfold sizeOk
  dsimp only
  rw [if_pos hsack]
  simp only [Bool.and_eq_true, decide_eq_true_eq, beq_iff_eq]
  omega

theorem sizeOk_other (hsack : (m (o + a)).toNat ≠ 5) :
    sizeOk m o dataOffs a = true ↔ ¬ (m (o + a + 1)).toNat < 2 := by
  unfold sizeOk
  dsimp only
  rw [if_neg hsack, decide_eq_true_eq]
  omega

theorem nextOption_lt {b : Nat} (hb : nextOption m o dataOffs a = some b) : a < b := by
  unfold nextOption at hb
  split_ifs at hb with hnop heol hok
  · cases hb
    omega
  · cases hb
    unfold sizeOk at hok
    dsimp only at hok
    split_ifs at hok with hsack
    · simp only [Bool.and_eq_true, decide_eq_true_eq] at hok
      omega
    · rw [decide_eq_true_eq] at hok
      omega

/-- What is read of one option, and of those behind it. -/
theorem within_sackUse_succ (ha : a < dataOffs) : Within lim (sackUse m o dataOffs (n + 1) a) ↔
    o + readEnd m o dataOffs a ≤ lim ∧
      ∀ b, nextOption m o dataOffs a = some b → Within lim (sackUse m o dataOffs n b) := by
  rw [sackUse]
  unfold nextOption readEnd
  dsimp only
  rw [if_neg (by omega)]
  by_cases hnop : (m (o + a)).toNat = 1
  · simp [hnop, Nat.add_assoc]
  · rw [if_neg hnop, if_neg hnop]
    by_cases hsack : (m (o + a)).toNat = 5
    · have hsome : ¬ (m (o + a)).toNat = 0 := by omega
      have hsize : ¬ (m (o + a)).toNat ≤ 1 := by omega
      rw [if_pos hsack, if_neg hsome, if_neg hsize]
      cases hok : sizeOk m o dataOffs a with
      | false =>
        have hbad := (not_congr (sizeOk_sack hsack)).mp (by rw [hok]; decide)
        rw [not_not] at hbad
        rw [if_pos hbad, if_neg (by simp)]
        simp
        omega
      | true =>
        have hgood := (sizeOk_sack hsack).mp hok
        have hread : o + a + 2 + 8 * (((m (o + a + 1)).toNat - 2) / 8) =
            o + (a + (m (o + a + 1)).toNat) := by omega
        rw [if_neg hgood, if_pos ⟨hsack, rfl⟩, within_append, within_append,
          within_blocks (by omega), hread]
        simp
        omega
    · rw [if_neg hsack]
      by_cases heol : (m (o + a)).toNat = 0
      · have hsize : (m (o + a)).toNat ≤ 1 := by omega
        rw [if_pos heol, if_pos heol, if_pos hsize]
        simp [Nat.add_assoc]
      · have hsize : ¬ (m (o + a)).toNat ≤ 1 := by omega
        have hother : ¬ ((m (o + a)).toNat = 5 ∧ sizeOk m o dataOffs a = true) :=
          fun h => hsack h.1
        rw [if_neg heol, if_neg heol, if_neg hsize, if_neg hother]
        cases hok : sizeOk m o dataOffs a with
        | false =>
          have hbad := (not_congr (sizeOk_other hsack)).mp (by rw [hok]; decide)
          rw [not_not] at hbad
          rw [if_pos hbad]
          simp
          omega
        | true =>
          rw [if_neg ((sizeOk_other hsack).mp hok), within_append]
          simp
          omega

/-- The reads of the loop end inside where those of every option do. -/
theorem within_sackUse (hn : dataOffs ≤ a + n) : Within lim (sackUse m o dataOffs n a) ↔
    ∀ l, OptionAt m o dataOffs a l → o + readEnd m o dataOffs l ≤ lim := by
  induction n generalizing a with
  | zero =>
    refine iff_of_true within_nil fun l h => ?_
    cases h <;> omega
  | succ n ih =>
    by_cases ha : a < dataOffs
    · have hlater : ∀ b, nextOption m o dataOffs a = some b →
          (Within lim (sackUse m o dataOffs n b) ↔
            ∀ l, OptionAt m o dataOffs b l → o + readEnd m o dataOffs l ≤ lim) := fun b hb => by
        have hab : a < b := nextOption_lt hb
        exact ih (by omega)
      rw [within_sackUse_succ ha]
      constructor
      · rintro ⟨hhere, hrest⟩ l hl
        rcases (optionAt_iff ha).mp hl with rfl | ⟨b, hb, hbl⟩
        · exact hhere
        · exact (hlater b hb).mp (hrest b hb) l hbl
      · intro h
        exact ⟨h a (.here ha), fun b hb => (hlater b hb).mpr fun l hl => h l (.next ha hb hl)⟩
    · rw [sackUse, if_pos (by omega)]
      refine iff_of_true within_nil fun l h => ?_
      cases h <;> omega

/-- The end of the header matters for the size byte only. -/
theorem readEnd_le_iff (ha : a < dataOffs) :
    readEnd m o dataOffs a ≤ dataOffs ↔ (m (o + a)).toNat ≤ 1 ∨ a + 1 < dataOffs := by
  unfold readEnd
  by_cases hsmall : (m (o + a)).toNat ≤ 1
  · rw [if_pos hsmall]
    omega
  · rw [if_neg hsmall]
    by_cases hsack : (m (o + a)).toNat = 5 ∧ sizeOk m o dataOffs a = true
    · have hgood := (sizeOk_sack hsack.1).mp hsack.2
      rw [if_pos hsack]
      omega
    · rw [if_neg hsack]
      omega

theorem lt_readEnd (a : Nat) :
    a < readEnd m o dataOffs a ∧ (1 < (m (o + a)).toNat → a + 1 < readEnd m o dataOffs a) := by
  unfold readEnd
  by_cases hsmall : (m (o + a)).toNat ≤ 1
  · rw [if_pos hsmall]
    omega
  · rw [if_neg hsmall]
    by_cases hsack : (m (o + a)).toNat = 5 ∧ sizeOk m o dataOffs a = true
    · have hgood := (sizeOk_sack hsack.1).mp hsack.2
      rw [if_pos hsack]
      omega
    · rw [if_neg hsack]
      omega

/-- What is compared with a timestamp is read by the loop as well. -/
theorem within_timestampUse (h : ∀ l, OptionAt m o dataOffs 20 l →
    o + readEnd m o dataOffs l ≤ lim) : Within lim (timestampUse m o dataOffs) := by
  unfold timestampUse
  by_cases h32 : dataOffs = 32
  · have hnop : ∀ a, (m (o + a)).toNat = 1 → nextOption m o dataOffs a = some (a + 1) :=
      fun a ha => if_pos ha
    have hfirst : OptionAt m o dataOffs 20 20 := .here (by omega)
    have h20 := h 20 hfirst
    have hend20 := @lt_readEnd m o dataOffs 20
    rw [if_neg (by omega)]
    by_cases hb0 : (m (o + 20)).toNat = 1
    · have h21 := h 21 (.next (by omega) (hnop 20 hb0) (.here (by omega)))
      have hend21 := @lt_readEnd m o dataOffs 21
      rw [if_neg (by omega)]
      by_cases hb1 : (m (o + 21)).toNat = 1
      · have h22 := h 22 (.next (by omega) (hnop 20 hb0)
          (.next (by omega) (hnop 21 hb1) (.here (by omega))))
        have hend22 := @lt_readEnd m o dataOffs 22
        rw [if_neg (by omega)]
        by_cases hb2 : (m (o + 22)).toNat = 8
        · rw [if_neg (by omega)]
          simp only [within_cons, within_nil, and_true]
          omega
        · rw [if_pos hb2]
          simp only [within_cons, within_nil, and_true]
          omega
      · rw [if_pos hb1]
        simp only [within_cons, within_nil, and_true]
        omega
    · rw [if_pos hb0]
      simp only [within_cons, within_nil, and_true]
      omega
  · rw [if_pos h32]
    exact within_nil

/-- The reads of one packet. -/
theorem within_optionUse_iff {pulled : Nat} (hoffs : 20 ≤ dataOffs) :
    Within (min (o + dataOffs) pulled) (optionUse m o dataOffs) ↔
      OptionsFit m o dataOffs pulled := by
  unfold optionUse
  cases hstamp : timestampOnly m o dataOffs with
  | true =>
    have hbytes := hstamp
    simp only [timestampOnly, Bool.and_eq_true, beq_iff_eq] at hbytes
    obtain ⟨⟨⟨⟨h32, hb0⟩, hb1⟩, hb2⟩, -⟩ := hbytes
    have huse : timestampUse m o dataOffs =
        [⟨o + 20, 1⟩, ⟨o + 21, 1⟩, ⟨o + 22, 1⟩, ⟨o + 23, 1⟩] := by
      unfold timestampUse
      simp [h32, hb0, hb1, hb2]
    rw [huse, if_pos rfl, List.append_nil]
    simp only [within_cons, within_nil, and_true]
    constructor
    · intro h
      exact ⟨fun _ => by omega, fun hno => Bool.noConfusion (hstamp.symm.trans hno),
        fun hno => Bool.noConfusion (hstamp.symm.trans hno)⟩
    · intro h
      have hle := h.stamp hstamp
      omega
  | false =>
    rw [if_neg Bool.false_ne_true, within_append, within_sackUse (by omega)]
    constructor
    · rintro ⟨-, h⟩
      refine ⟨fun hyes => Bool.noConfusion (hstamp.symm.trans hyes), fun _ l hl => ?_,
        fun _ l hl => ?_⟩
      · rw [← readEnd_le_iff hl.lt]
        have := h l hl
        omega
      · have := h l hl
        omega
    · intro h
      have hall : ∀ l, OptionAt m o dataOffs 20 l →
          o + readEnd m o dataOffs l ≤ min (o + dataOffs) pulled := fun l hl => by
        have hheader := (readEnd_le_iff hl.lt).mpr (h.header hstamp l hl)
        have hpulled := h.pulled hstamp l hl
        omega
      exact ⟨within_timestampUse hall, hall⟩

end Fits

/-! ## Packets -/

/-- A packet of a connection whose options are looked at. -/
structure ParsesOptions (cm : ConnectionMatch) (skb : Skb) (ihl : Nat) (flushOnFind : Bool) :
    Prop where
  whole : flushOnFind = false
  accel : cm.flowAccel = true
  ttl : 2 ≤ ipTtl skb.data
  fits : skb.len ≤ cm.xmitDevMtu.toNat ∨ skb.isGso = true
  flags : tcpFastFlags skb.data ihl = true
  seqCheck : cm.flags.noSeqCheck = false
  seq : (tcpSeq skb.data ihl - (cm.tcp.maxEnd + 1)).toInt ≤ 0
  dataOffs : 20 ≤ tcpDataOffs skb.data ihl

section Packets

variable {cm : ConnectionMatch} {skb : Skb} {ihl : Nat} {flushOnFind : Bool}

theorem tcpOptionUse_of_parses (h : ParsesOptions cm skb ihl flushOnFind) :
    tcpOptionUse cm skb ihl flushOnFind =
      optionUse skb.data ihl (tcpDataOffs skb.data ihl) := by
  obtain ⟨hwhole, haccel, httl, hfits, hflags, hseqc, hseq, hoffs⟩ := h
  have hmtu : ¬ (skb.len > cm.xmitDevMtu.toNat ∧ (!skb.isGso) = true) := by
    rintro ⟨hlen, hgso⟩
    rcases hfits with hle | hyes
    · omega
    · rw [hyes] at hgso
      cases hgso
  unfold tcpOptionUse
  rw [hwhole, haccel, hflags, hseqc, if_neg (by decide), if_neg (by decide), if_neg (by omega),
    if_neg hmtu, if_neg (by decide), if_neg (by decide), if_neg (by omega), if_neg (by omega)]

theorem tcpOptionUse_of_not_parses (h : ¬ ParsesOptions cm skb ihl flushOnFind) :
    tcpOptionUse cm skb ihl flushOnFind = [] := by
  unfold tcpOptionUse
  by_cases hwhole : flushOnFind = true
  · exact if_pos hwhole
  rw [if_neg hwhole]
  by_cases haccel : (!cm.flowAccel) = true
  · exact if_pos haccel
  rw [if_neg haccel]
  by_cases httl : ipTtl skb.data < 2
  · exact if_pos httl
  rw [if_neg httl]
  by_cases hmtu : skb.len > cm.xmitDevMtu.toNat ∧ (!skb.isGso) = true
  · exact if_pos hmtu
  rw [if_neg hmtu]
  by_cases hflags : (!tcpFastFlags skb.data ihl) = true
  · exact if_pos hflags
  rw [if_neg hflags]
  by_cases hseqc : cm.flags.noSeqCheck = true
  · exact if_pos hseqc
  rw [if_neg hseqc]
  by_cases hseq : 0 < (tcpSeq skb.data ihl - (cm.tcp.maxEnd + 1)).toInt
  · exact if_pos hseq
  rw [if_neg hseq]
  by_cases hoffs : tcpDataOffs skb.data ihl < 20
  · exact if_pos hoffs
  exact absurd
    { whole := by simpa using hwhole
      accel := by simpa using haccel
      ttl := by omega
      fits := by
        rcases Nat.lt_or_ge cm.xmitDevMtu.toNat skb.len with hlt | hle
        · right
          by_contra hno
          exact hmtu ⟨hlt, by simpa using hno⟩
        · exact Or.inl hle
      flags := by simpa using hflags
      seqCheck := by simpa using hseqc
      seq := by omega
      dataOffs := by omega } h

/-- For every packet of every connection: the walk over the options comes to an end, and it reads
nothing from outside the TCP header or the bytes that were pulled exactly where the options, if
they are looked at, are inside. -/
theorem options_within_iff (pulled : Nat) :
    ((∀ ack, ∃! r, Leaves (optionBody skb.data ihl (tcpDataOffs skb.data ihl)) (20, ack) r) ∧
      Within (min (ihl + tcpDataOffs skb.data ihl) pulled)
        (tcpOptionUse cm skb ihl flushOnFind)) ↔
      (ParsesOptions cm skb ihl flushOnFind →
        OptionsFit skb.data ihl (tcpDataOffs skb.data ihl) pulled) := by
  have hmax : tcpDataOffs skb.data ihl ≤ 240 := by
    have hbyte := (skb.data (ihl + 12)).toNat_lt
    unfold tcpDataOffs
    omega
  have hends : ∀ ack, ∃! r,
      Leaves (optionBody skb.data ihl (tcpDataOffs skb.data ihl)) (20, ack) r := fun ack =>
    ⟨_, (optionBody_leaves hmax ack _).mpr rfl, fun r hr => (optionBody_leaves hmax ack r).mp hr⟩
  rw [and_iff_right hends]
  by_cases hparses : ParsesOptions cm skb ihl flushOnFind
  · rw [tcpOptionUse_of_parses hparses, within_optionUse_iff hparses.dataOffs]
    exact ⟨fun h _ => h, fun h => h hparses⟩
  · rw [tcpOptionUse_of_not_parses hparses]
    exact iff_of_true within_nil fun h => absurd h hparses

end Packets

/-- A packet of 24 bytes of TCP header; the last of them is the kind of a timestamp. -/
def optionPacket : Skb where
  data i := ([0x45, 0, 0, 44, 0, 0, 0, 0, 64, 6, 0, 0, 10, 0, 0, 1, 10, 0, 0, 2,
    0, 80, 0, 80, 0, 0, 0, 0, 0, 0, 0, 0, 0x60, 0x10, 0, 0, 0, 0, 0, 0, 1, 1, 1, 8] :
    List UInt8).getD i 0
  len := 44
  len_lt := by decide
  csumPartial := false
  isGso := false
  cloned := false
  unshareOk := true

/-- The size of the last option is read behind the packet. -/
theorem options_optionPacket :
    ParsesOptions (watchedMatch ⟨0, 0, 0, 0⟩) optionPacket 20 false ∧
      ⟨44, 1⟩ ∈ tcpOptionUse (watchedMatch ⟨0, 0, 0, 0⟩) optionPacket 20 false ∧
      ¬ Within (min (20 + tcpDataOffs optionPacket.data 20) 44)
        (tcpOptionUse (watchedMatch ⟨0, 0, 0, 0⟩) optionPacket 20 false) :=
  ⟨⟨by decide, by decide, by decide, by decide, by decide, by decide, by decide, by decide⟩,
    by decide, by decide⟩

end Lede.Sfe
