/-
Lede.Sfe.WindowTheorems — the TCP windows of a connection, moved in sequence space.

Sequence numbers are circular, so a connection whose numbers are all moved by a
constant should be treated as before. The windows compare signed differences and
are. The option loop takes the largest of the acknowledged number and the right
SACK edges as unsigned numbers: that moves with them only if all of them pass
2^32 or none does (`maxOf_moved_iff`).
-/
import Lede.Sfe.RunTheorems
import Mathlib.Data.BitVec
import Mathlib.Tactic.Ring

namespace Lede.Sfe

open Lede.Lib

/-! ## The largest of some numbers, moved -/

section Largest

/-- The largest of `a` and `xs`. -/
def maxOf (a : Nat) (xs : List Nat) : Nat := xs.foldl max a

theorem maxOf_mem : ∀ (xs : List Nat) (a : Nat), maxOf a xs ∈ a :: xs
  | [], a => by simp [maxOf]
  | x :: xs, a => by
      have ih := maxOf_mem xs (max a x)
      have hstep : maxOf a (x :: xs) = maxOf (max a x) xs := rfl
      rw [hstep]
      rcases List.mem_cons.mp ih with h | h
      · rw [h]
        rcases Nat.le_total a x with hle | hle
        · simp [Nat.max_eq_right hle]
        · simp [Nat.max_eq_left hle]
      · simp [h]

theorem le_maxOf : ∀ (xs : List Nat) (a : Nat), ∀ x ∈ a :: xs, x ≤ maxOf a xs
  | [], a, x, hx => by
      have hxa : x = a := by simpa using hx
      rw [hxa]
      exact Nat.le_refl a
  | y :: xs, a, x, hx => by
      have ih := le_maxOf xs (max a y)
      have hfirst := ih (max a y) (by simp)
      have hstep : maxOf a (y :: xs) = maxOf (max a y) xs := rfl
      rw [hstep]
      simp only [List.mem_cons] at hx
      rcases hx with rfl | rfl | hx
      · omega
      · omega
      · exact ih x (by simp [hx])

/-- Numbers below `N` that are moved by `l` pass `N` together. -/
def MoveTogether (N l : Nat) (xs : List Nat) : Prop :=
  (∀ x ∈ xs, x + l < N) ∨ (∀ x ∈ xs, N ≤ x + l)

/-- The largest number moves with the numbers exactly if they pass `N` together. -/
theorem maxOf_moved_iff {N l a : Nat} {xs : List Nat} (hl : l < N) (hlt : ∀ x ∈ a :: xs, x < N) :
    maxOf ((a + l) % N) (xs.map fun x => (x + l) % N) = (maxOf a xs + l) % N ↔
      MoveTogether N l (a :: xs) := by
  have hmem := maxOf_mem xs a
  have hle := le_maxOf xs a
  have hM := hlt _ hmem
  have hmem' : ∃ x ∈ a :: xs,
      maxOf ((a + l) % N) (xs.map fun x => (x + l) % N) = (x + l) % N := by
    have h := maxOf_mem (xs.map fun x => (x + l) % N) ((a + l) % N)
    rw [← List.map_cons (f := fun x => (x + l) % N)] at h
    obtain ⟨x, hx, he⟩ := List.mem_map.mp h
    exact ⟨x, hx, he.symm⟩
  have hle' : ∀ x ∈ a :: xs,
      (x + l) % N ≤ maxOf ((a + l) % N) (xs.map fun x => (x + l) % N) := by
    intro x hx
    refine le_maxOf _ _ _ ?_
    rw [← List.map_cons (f := fun x => (x + l) % N)]
    exact List.mem_map_of_mem hx
  have hstay : ∀ {x}, x + l < N → (x + l) % N = x + l := fun h => Nat.mod_eq_of_lt h
  have hpass : ∀ {x}, x < N → N ≤ x + l → (x + l) % N = x + l - N := by
    intro x hx h
    rw [Nat.mod_eq_sub_mod h, Nat.mod_eq_of_lt (by omega)]
  obtain ⟨y, hy, heq⟩ := hmem'
  constructor
  · intro h
    by_cases hbig : N ≤ maxOf a xs + l
    · -- the largest passes, so nothing stays behind
      right
      intro x hx
      have hxle := hle' x hx
      rw [h, hpass hM hbig] at hxle
      by_contra hnot
      rw [hstay (by omega)] at hxle
      omega
    · left
      intro x hx
      have hxle := hle x hx
      omega
  · rintro (h | h)
    · have hylt := h y hy
      have hyle := hle y hy
      have hMle := hle' _ hmem
      rw [heq, hstay hylt] at *
      rw [hstay (h _ hmem)] at *
      omega
    · have hyle := hle y hy
      have hMle := hle' _ hmem
      rw [heq, hpass (hlt y hy) (h y hy)] at *
      rw [hpass hM (h _ hmem)] at *
      have hyge := h y hy
      omega

end Largest

/-! ## SACK blocks -/

/-- The addresses of `n` SACK blocks, the first at `a`. -/
def blocksAt : Nat → Nat → List Nat
  | 0, _ => []
  | n + 1, a => a :: blocksAt n (a + 8)

/-- The blocks that the option loop comes to, and whether it comes to an end. -/
def sackBlocks (m : Nat → UInt8) (o dataOffs : Nat) : Nat → Nat → List Nat × Bool
  | 0, _ => ([], true)
  | n + 1, length =>
    if dataOffs ≤ length then ([], true)
    else
      let kind := (m (o + length)).toNat
      let size := (m (o + length + 1)).toNat
      if kind = 1 then sackBlocks m o dataOffs n (length + 1)
      else if kind = 5 then
        if size < 10 ∨ (size - 2) % 8 ≠ 0 ∨ dataOffs - length < size then ([], false)
        else
          (blocksAt ((size - 2) / 8) (o + length + 2) ++ (sackBlocks m o dataOffs n (length + size)).1,
            (sackBlocks m o dataOffs n (length + size)).2)
      else if kind = 0 then ([], true)
      else if size < 2 then ([], false)
      else sackBlocks m o dataOffs n (length + size)

section Blocks

variable {m m' : Nat → UInt8} {o dataOffs : Nat}

theorem mem_blocksAt : ∀ (n : Nat) {a b : Nat}, b ∈ blocksAt n a → a ≤ b ∧ b + 8 ≤ a + 8 * n
  | n + 1, a, b, h => by
      rcases List.mem_cons.mp h with rfl | h
      · omega
      · have ih := mem_blocksAt n h
        omega

theorem pairwise_blocksAt : ∀ (n a : Nat), (blocksAt n a).Pairwise fun b c => b + 8 ≤ c
  | 0, _ => List.Pairwise.nil
  | n + 1, a => by
      rw [blocksAt, List.pairwise_cons]
      exact ⟨fun b hb => (mem_blocksAt n hb).1, pairwise_blocksAt n (a + 8)⟩

/-- The blocks lie behind the kind and the size of their option. -/
theorem le_sackBlocks (dataOffs n length : Nat) : ∀ b ∈ (sackBlocks m o dataOffs n length).1, o + length + 2 ≤ b := by
  fun_induction sackBlocks m o dataOffs n length with
  | case1 => simp
  | case2 => simp
  | case3 n length _ kind _ ih =>
    intro b hb
    have h := ih b hb
    omega
  | case4 => simp
  | case5 n length _ kind size _ _ _ ih =>
    intro b hb
    rcases List.mem_append.mp hb with hb | hb
    · exact (mem_blocksAt _ hb).1
    · have h := ih b hb
      omega
  | case6 => simp
  | case7 => simp
  | case8 n length _ kind size _ _ _ _ ih =>
    intro b hb
    have h := ih b hb
    omega

/-- One block ends before the next one. -/
theorem pairwise_sackBlocks (n length : Nat) :
    (sackBlocks m o dataOffs n length).1.Pairwise fun b c => b + 8 ≤ c := by
  fun_induction sackBlocks m o dataOffs n length with
  | case1 => exact List.Pairwise.nil
  | case2 => exact List.Pairwise.nil
  | case3 n length _ kind _ ih => exact ih
  | case4 => exact List.Pairwise.nil
  | case5 n length _ kind size _ _ _ ih =>
    rw [List.pairwise_append]
    refine ⟨pairwise_blocksAt _ _, ih, fun b hb c hc => ?_⟩
    have hlast := mem_blocksAt _ hb
    have hnext := le_sackBlocks dataOffs n (length + size) c hc
    omega
  | case6 => exact List.Pairwise.nil
  | case7 => exact List.Pairwise.nil
  | case8 n length _ kind size _ _ _ _ ih => exact ih

/-- The loop does not look into the blocks to find its way. -/
theorem sackBlocks_congr (n length : Nat)
    (h : ∀ i, o + length ≤ i → (∀ b ∈ (sackBlocks m o dataOffs n length).1, i < b ∨ b + 8 ≤ i) → m' i = m i) :
    sackBlocks m' o dataOffs n length = sackBlocks m o dataOffs n length := by
  induction n generalizing length with
  | zero => rfl
  | succ n ih =>
    have hblocks := le_sackBlocks (m := m) (o := o) dataOffs (n + 1) length
    have hkind : m' (o + length) = m (o + length) :=
      h _ (by omega) fun b hb => by
        have hb := hblocks b hb
        omega
    have hsize : m' (o + length + 1) = m (o + length + 1) :=
      h _ (by omega) fun b hb => by
        have hb := hblocks b hb
        omega
    unfold sackBlocks at h ⊢
    rw [hkind, hsize]
    dsimp only at h ⊢
    by_cases hend : dataOffs ≤ length
    · rw [if_pos hend, if_pos hend]
    rw [if_neg hend] at h
    rw [if_neg hend, if_neg hend]
    by_cases hnop : (m (o + length)).toNat = 1
    · rw [if_pos hnop] at h
      rw [if_pos hnop, if_pos hnop]
      exact ih _ fun i hi hb => h i (by omega) hb
    rw [if_neg hnop] at h
    rw [if_neg hnop, if_neg hnop]
    by_cases hsack : (m (o + length)).toNat = 5
    · rw [if_pos hsack] at h
      rw [if_pos hsack, if_pos hsack]
      by_cases hbad : (m (o + length + 1)).toNat < 10 ∨ ((m (o + length + 1)).toNat - 2) % 8 ≠ 0 ∨
          dataOffs - length < (m (o + length + 1)).toNat
      · rw [if_pos hbad, if_pos hbad]
      rw [if_neg hbad] at h
      rw [if_neg hbad, if_neg hbad]
      have hrest := ih (length + (m (o + length + 1)).toNat) fun i hi hb =>
        h i (by omega) fun b hmem => by
          rcases List.mem_append.mp hmem with hmem | hmem
          · have hlast := mem_blocksAt _ hmem
            omega
          · exact hb b hmem
      rw [hrest]
    rw [if_neg hsack] at h
    rw [if_neg hsack, if_neg hsack]
    by_cases heol : (m (o + length)).toNat = 0
    · rw [if_pos heol, if_pos heol]
    rw [if_neg heol] at h
    rw [if_neg heol, if_neg heol]
    by_cases hsmall : (m (o + length + 1)).toNat < 2
    · rw [if_pos hsmall, if_pos hsmall]
    rw [if_neg hsmall] at h
    rw [if_neg hsmall, if_neg hsmall]
    exact ih _ fun i hi hb => h i (by omega) hb

end Blocks

/-- The right edge of the block at `b`. -/
def rightEdge (m : Nat → UInt8) (b : Nat) : Nat := (be32 m (b + 4)).toNat

section Loop

variable {m : Nat → UInt8} {o dataOffs : Nat}

theorem toNat_larger (x y : BitVec 32) : (if x < y then y else x).toNat = max x.toNat y.toNat := by
  split
  · rename_i h
    rw [BitVec.lt_def] at h
    omega
  · rename_i h
    rw [BitVec.lt_def] at h
    omega

theorem toNat_sackRightEdges (n a : Nat) (sack : BitVec 32) :
    (sackRightEdges m n (a + 4) sack).toNat = maxOf sack.toNat ((blocksAt n a).map (rightEdge m)) := by
  induction n generalizing a sack with
  | zero => rfl
  | succ n ih =>
    have haddr : a + 4 + 8 = a + 8 + 4 := by omega
    rw [sackRightEdges, haddr]
    rw [ih, toNat_larger, blocksAt, List.map_cons, maxOf, maxOf, List.foldl_cons, rightEdge]

/-- Numbers can be taken in any grouping. -/
theorem max_maxOf : ∀ (xs : List Nat) (a b : Nat), max a (maxOf b xs) = maxOf (max a b) xs
  | [], _, _ => rfl
  | x :: xs, a, b => by
      have ih := max_maxOf xs a (max b x)
      have hassoc : max a (max b x) = max (max a b) x := by omega
      rw [hassoc] at ih
      exact ih

theorem maxOf_append (a : Nat) (xs ys : List Nat) : maxOf a (xs ++ ys) = maxOf (maxOf a xs) ys := by
  unfold maxOf
  rw [List.foldl_append]

/-- The option loop gives the largest of the acknowledged number and the right edges. -/
theorem sackLoop_eq (n length : Nat) (ack : BitVec 32) :
    (sackLoop m o dataOffs n length ack).map BitVec.toNat
      = if (sackBlocks m o dataOffs n length).2 then
          some (maxOf ack.toNat ((sackBlocks m o dataOffs n length).1.map (rightEdge m)))
        else none := by
  induction n generalizing length ack with
  | zero => rfl
  | succ n ih =>
    unfold sackLoop sackBlocks
    dsimp only
    by_cases hend : dataOffs ≤ length
    · rw [if_pos hend, if_pos hend]
      rfl
    rw [if_neg hend, if_neg hend]
    by_cases hnop : (m (o + length)).toNat = 1
    · rw [if_pos hnop, if_pos hnop, ih]
    rw [if_neg hnop, if_neg hnop]
    by_cases hsack : (m (o + length)).toNat = 5
    · rw [if_pos hsack, if_pos hsack]
      by_cases hbad : (m (o + length + 1)).toNat < 10 ∨ ((m (o + length + 1)).toNat - 2) % 8 ≠ 0 ∨
          dataOffs - length < (m (o + length + 1)).toNat
      · rw [if_pos hbad, if_pos hbad]
        rfl
      · have hedges := toNat_sackRightEdges (m := m) (((m (o + length + 1)).toNat - 2) / 8) (o + length + 2) 0
        have hlarger := toNat_larger ack
          (sackRightEdges m (((m (o + length + 1)).toNat - 2) / 8) (o + length + 2 + 4) 0)
        have hzero : (0 : BitVec 32).toNat = 0 := rfl
        rw [hedges, hzero, max_maxOf, Nat.max_zero] at hlarger
        rw [if_neg hbad, if_neg hbad, ih]
        dsimp only
        rw [List.map_append, maxOf_append, ← hlarger]
    rw [if_neg hsack, if_neg hsack]
    by_cases heol : (m (o + length)).toNat = 0
    · rw [if_pos heol, if_pos heol]
      rfl
    rw [if_neg heol, if_neg heol]
    by_cases hsmall : (m (o + length + 1)).toNat < 2
    · rw [if_pos hsmall, if_pos hsmall]
      rfl
    rw [if_neg hsmall, if_neg hsmall, ih]

/-- The blocks of a header. A header with a timestamp alone has none. -/
def headerBlocks (m : Nat → UInt8) (o : Nat) : List Nat × Bool :=
  sackBlocks m o (tcpDataOffs m o) (tcpDataOffs m o - 20) 20

theorem headerBlocks_timestampOnly (h : timestampOnly m o (tcpDataOffs m o) = true) :
    headerBlocks m o = ([], true) := by
  simp only [timestampOnly, Bool.and_eq_true, beq_iff_eq] at h
  obtain ⟨⟨⟨⟨hdata, h₂₀⟩, h₂₁⟩, h₂₂⟩, h₂₃⟩ := h
  unfold headerBlocks
  rw [hdata]
  simp [sackBlocks, h₂₀, h₂₁, h₂₂, h₂₃]

theorem processTcpOptionSack_eq (ack : BitVec 32) :
    (processTcpOptionSack m o (tcpDataOffs m o) ack).map BitVec.toNat
      = if (headerBlocks m o).2 then some (maxOf ack.toNat ((headerBlocks m o).1.map (rightEdge m)))
        else none := by
  unfold processTcpOptionSack
  by_cases h : timestampOnly m o (tcpDataOffs m o) = true
  · rw [if_pos h, headerBlocks_timestampOnly h]
    rfl
  · rw [if_neg h, sackLoop_eq]
    rfl

end Loop

/-! ## A packet that is moved -/

/-- The tracked state of a direction, moved by `k`. -/
def moveTcp (k : BitVec 32) (t : TcpConnectionMatch) : TcpConnectionMatch :=
  { t with endSeq := t.endSeq + k, maxEnd := t.maxEnd + k }

def moveMatch (k : BitVec 32) (cm : ConnectionMatch) : ConnectionMatch := { cm with tcp := moveTcp k cm.tcp }

/-- The sequence number of the packet moves by `k`, the acknowledged number and both
edges of every SACK block by `l`. -/
def movedFields (k l : BitVec 32) (o : Nat) (m : Nat → UInt8) : List (Nat × BitVec 32) :=
  (o + 4, tcpSeq m o + k) :: (o + 8, tcpAckSeq m o + l) ::
    (headerBlocks m o).1.flatMap fun b => [(b, be32 m b + l), (b + 4, be32 m (b + 4) + l)]

def movePacket (k l : BitVec 32) (o : Nat) (m : Nat → UInt8) : Nat → UInt8 := stores (movedFields k l o m) m

section Move

variable {k l : BitVec 32} {m : Nat → UInt8} {o : Nat}

theorem le_headerBlocks : ∀ b ∈ (headerBlocks m o).1, o + 22 ≤ b := by
  intro b hb
  have h := le_sackBlocks _ _ _ b hb
  omega

theorem mem_movedFields {p : Nat × BitVec 32} (h : p ∈ movedFields k l o m) :
    p.1 = o + 4 ∨ p.1 = o + 8 ∨ ∃ b ∈ (headerBlocks m o).1, p.1 = b ∨ p.1 = b + 4 := by
  simp only [movedFields, List.mem_cons, List.mem_flatMap, List.not_mem_nil, or_false] at h
  rcases h with rfl | rfl | ⟨b, hb, rfl | rfl⟩
  · exact Or.inl rfl
  · exact Or.inr (Or.inl rfl)
  · exact Or.inr (Or.inr ⟨b, hb, Or.inl rfl⟩)
  · exact Or.inr (Or.inr ⟨b, hb, Or.inr rfl⟩)

/-- The fields do not overlap. -/
theorem pairwise_movedFields :
    (movedFields k l o m).Pairwise fun p q => p.1 + 4 ≤ q.1 ∨ q.1 + 4 ≤ p.1 := by
  have hblocks := le_headerBlocks (m := m) (o := o)
  have hrest : ∀ p ∈ (headerBlocks m o).1.flatMap fun b => [(b, be32 m b + l), (b + 4, be32 m (b + 4) + l)],
      o + 22 ≤ p.1 := by
    intro p hp
    obtain ⟨b, hb, hp⟩ := List.mem_flatMap.mp hp
    have hle := hblocks b hb
    simp only [List.mem_cons, List.not_mem_nil, or_false] at hp
    rcases hp with rfl | rfl
    · exact hle
    · exact Nat.le_add_right_of_le hle
  rw [movedFields, List.pairwise_cons, List.pairwise_cons]
  refine ⟨fun q hq => ?_, fun q hq => ?_, ?_⟩
  · rcases List.mem_cons.mp hq with rfl | hq
    · exact Or.inl (Nat.le_refl _)
    · have hle := hrest q hq
      exact Or.inl (by omega)
  · have hle := hrest q hq
    exact Or.inl (by omega)
  · rw [List.pairwise_flatMap]
    constructor
    · intro b hb
      simp
    · refine (pairwise_sackBlocks _ _).imp fun {b c} hbc p hp q hq => ?_
      simp only [List.mem_cons, List.not_mem_nil, or_false] at hp hq
      left
      rcases hp with rfl | rfl
      · rcases hq with rfl | rfl
        · exact Nat.le_trans (by omega) hbc
        · exact Nat.le_trans (by omega) (Nat.le_add_right_of_le hbc)
      · rcases hq with rfl | rfl
        · exact hbc
        · exact Nat.le_add_right_of_le hbc

theorem movePacket_of_ne {i : Nat} (hi : i < o + 4 ∨ o + 12 ≤ i)
    (hblocks : ∀ b ∈ (headerBlocks m o).1, i < b ∨ b + 8 ≤ i) : movePacket k l o m i = m i := by
  refine stores_of_lt _ _ fun p hp => ?_
  rcases mem_movedFields hp with h | h | ⟨b, hb, h | h⟩
  · omega
  · omega
  · have hb := hblocks b hb
    omega
  · have hb := hblocks b hb
    omega

/-- The header up to its options, but for the two numbers. -/
theorem movePacket_header {i : Nat} (hi : i < o + 4 ∨ o + 12 ≤ i) (hlt : i < o + 22) :
    movePacket k l o m i = m i :=
  movePacket_of_ne hi fun b hb => by
    have hb := le_headerBlocks b hb
    omega

theorem tcpSeq_movePacket : tcpSeq (movePacket k l o m) o = tcpSeq m o + k :=
  be32_stores _ m pairwise_movedFields (o + 4, tcpSeq m o + k) (by simp [movedFields])

theorem tcpAckSeq_movePacket : tcpAckSeq (movePacket k l o m) o = tcpAckSeq m o + l :=
  be32_stores _ m pairwise_movedFields (o + 8, tcpAckSeq m o + l) (by simp [movedFields])

theorem tcpDataOffs_movePacket : tcpDataOffs (movePacket k l o m) o = tcpDataOffs m o := by
  unfold tcpDataOffs
  rw [movePacket_header (by omega) (by omega)]

theorem tcpFastFlags_movePacket : tcpFastFlags (movePacket k l o m) o = tcpFastFlags m o := by
  unfold tcpFastFlags
  rw [movePacket_header (by omega) (by omega)]

theorem tcpWindow_movePacket : tcpWindow (movePacket k l o m) o = tcpWindow m o := by
  unfold tcpWindow be16
  rw [movePacket_header (by omega) (by omega), movePacket_header (by omega) (by omega)]

theorem headerBlocks_movePacket : headerBlocks (movePacket k l o m) o = headerBlocks m o := by
  unfold headerBlocks
  rw [tcpDataOffs_movePacket]
  exact sackBlocks_congr _ _ fun i hi hb => movePacket_of_ne (by omega) hb

theorem rightEdge_movePacket {b : Nat} (hb : b ∈ (headerBlocks m o).1) :
    rightEdge (movePacket k l o m) b = (rightEdge m b + l.toNat) % 2 ^ 32 := by
  have hmem : (b + 4, be32 m (b + 4) + l) ∈ movedFields k l o m := by
    refine List.mem_cons_of_mem _ (List.mem_cons_of_mem _ (List.mem_flatMap.mpr ⟨b, hb, ?_⟩))
    simp
  have hedge := be32_stores _ m pairwise_movedFields _ hmem
  unfold rightEdge movePacket
  rw [hedge, BitVec.toNat_add]

/-- The acknowledged number and the right edges of a packet. -/
def ackNumbers (m : Nat → UInt8) (o : Nat) : List Nat :=
  (tcpAckSeq m o).toNat :: (headerBlocks m o).1.map (rightEdge m)

/-- The option loop follows the move exactly if the numbers pass 2^32 together. -/
theorem processTcpOptionSack_movePacket_iff (hok : (headerBlocks m o).2 = true) :
    processTcpOptionSack (movePacket k l o m) o (tcpDataOffs (movePacket k l o m) o)
        (tcpAckSeq (movePacket k l o m) o)
      = (processTcpOptionSack m o (tcpDataOffs m o) (tcpAckSeq m o)).map (· + l) ↔
    MoveTogether (2 ^ 32) l.toNat (ackNumbers m o) := by
  have hold := processTcpOptionSack_eq (m := m) (o := o) (tcpAckSeq m o)
  have hnew := processTcpOptionSack_eq (m := movePacket k l o m) (o := o) (tcpAckSeq (movePacket k l o m) o)
  have hedges : (headerBlocks m o).1.map (rightEdge (movePacket k l o m))
      = ((headerBlocks m o).1.map (rightEdge m)).map fun x => (x + l.toNat) % 2 ^ 32 := by
    rw [List.map_map]
    refine List.map_congr_left fun b hb => ?_
    rw [Function.comp_apply, rightEdge_movePacket hb]
  rw [if_pos hok] at hold
  rw [headerBlocks_movePacket, if_pos hok, hedges, tcpAckSeq_movePacket, BitVec.toNat_add] at hnew
  rw [ackNumbers, ← maxOf_moved_iff l.isLt]
  · obtain ⟨x, hx, hxv⟩ := Option.map_eq_some_iff.mp hold
    obtain ⟨y, hy, hyv⟩ := Option.map_eq_some_iff.mp hnew
    rw [tcpAckSeq_movePacket]
    rw [hx, hy, ← hxv, ← hyv, ← BitVec.toNat_add, Option.map_some, Option.some.injEq]
    exact ⟨fun h => congrArg BitVec.toNat h, fun h => BitVec.eq_of_toNat_eq h⟩
  · intro x hx
    rcases List.mem_cons.mp hx with rfl | hx
    · exact BitVec.isLt _
    · obtain ⟨b, -, rfl⟩ := List.mem_map.mp hx
      exact BitVec.isLt _

/-- Options that are malformed stay so. -/
theorem processTcpOptionSack_malformed (hbad : (headerBlocks m o).2 = false) :
    processTcpOptionSack m o (tcpDataOffs m o) (tcpAckSeq m o) = none ∧
      processTcpOptionSack (movePacket k l o m) o (tcpDataOffs (movePacket k l o m) o)
        (tcpAckSeq (movePacket k l o m) o) = none := by
  have hold := processTcpOptionSack_eq (m := m) (o := o) (tcpAckSeq m o)
  have hnew := processTcpOptionSack_eq (m := movePacket k l o m) (o := o) (tcpAckSeq (movePacket k l o m) o)
  rw [headerBlocks_movePacket] at hnew
  simp only [hbad, Bool.false_eq_true, if_false, Option.map_eq_none_iff] at hold hnew
  exact ⟨hold, hnew⟩

theorem processTcpOptionSack_wellFormed (hok : (headerBlocks m o).2 = true) :
    ∃ sack, processTcpOptionSack m o (tcpDataOffs m o) (tcpAckSeq m o) = some sack := by
  have hold := processTcpOptionSack_eq (m := m) (o := o) (tcpAckSeq m o)
  rw [if_pos hok] at hold
  obtain ⟨sack, h, -⟩ := Option.map_eq_some_iff.mp hold
  exact ⟨sack, h⟩

end Move

/-! ## The windows -/

section Windows

variable {k l : BitVec 32}

/-- The windows move with the connection. -/
theorem trackWindow_move (seq ack sack : BitVec 32) (payload window : Nat) (t ct : TcpConnectionMatch) :
    trackWindow (seq + k) (ack + l) (sack + l) payload window (moveTcp k t) (moveTcp l ct)
      = (trackWindow seq ack sack payload window t ct).map fun r => (moveTcp k r.1, moveTcp l r.2) := by
  have hleft : seq + k + BitVec.ofNat 32 payload - (t.endSeq + k - ct.maxWin - 1)
      = seq + BitVec.ofNat 32 payload - (t.endSeq - ct.maxWin - 1) := by ring
  have hright : sack + l - (ct.endSeq + l + 1) = sack - (ct.endSeq + 1) := by ring
  have hfar : sack + l - (ct.endSeq + l - t.maxWin - tcpMaxAckWindow - 1)
      = sack - (ct.endSeq - t.maxWin - tcpMaxAckWindow - 1) := by ring
  have hwin : sack + l - (ack + l) = sack - ack := by ring
  have hend : seq + k + BitVec.ofNat 32 payload - (t.endSeq + k)
      = seq + BitVec.ofNat 32 payload - t.endSeq := by ring
  have hmax : ∀ w, sack + l + w - (ct.maxEnd + l) = sack + w - ct.maxEnd := by
    intro w
    ring
  have hseq : seq + k + BitVec.ofNat 32 payload = seq + BitVec.ofNat 32 payload + k := by ring
  have hsack : ∀ w, sack + l + w = sack + w + l := by
    intro w
    ring
  unfold trackWindow moveTcp
  dsimp only
  rw [hleft, hright, hfar, hwin, hend, hmax]
  split
  · rfl
  split
  · rfl
  split
  · rfl
  simp only [Except.map, apply_ite (· + k), apply_ite (· + l), hseq, hsack]

/-- A packet moves through the checks, if its acknowledged numbers do. -/
theorem trackSequence_move {m : Nat → UInt8} {o : Nat} (len : Nat) (t ct : TcpConnectionMatch)
    (h : (headerBlocks m o).2 = true → 20 ≤ tcpDataOffs m o → tcpDataOffs m o + 20 ≤ len →
      MoveTogether (2 ^ 32) l.toNat (ackNumbers m o)) :
    trackSequence (movePacket k l o m) o len (moveTcp k t) (moveTcp l ct)
      = (trackSequence m o len t ct).map fun r => (moveTcp k r.1, moveTcp l r.2) := by
  have hseq : tcpSeq m o + k - (t.maxEnd + k + 1) = tcpSeq m o - (t.maxEnd + 1) := by ring
  have hedge : (tcpSeq (movePacket k l o m) o - ((moveTcp k t).maxEnd + 1)).toInt
      = (tcpSeq m o - (t.maxEnd + 1)).toInt := by
    rw [tcpSeq_movePacket, ← hseq]
    rfl
  unfold trackSequence
  rw [hedge]
  by_cases hright : 0 < (tcpSeq m o - (t.maxEnd + 1)).toInt
  · rw [if_pos hright, if_pos hright]
    rfl
  rw [if_neg hright, if_neg hright]
  by_cases hsmall : tcpDataOffs m o < 20
  · rw [tcpDataOffs_movePacket, if_pos hsmall, if_pos hsmall]
    rfl
  cases hok : (headerBlocks m o).2 with
  | false =>
    obtain ⟨hold, hnew⟩ := processTcpOptionSack_malformed (k := k) (l := l) hok
    rw [hold, hnew, tcpDataOffs_movePacket]
    rw [if_neg hsmall]
    rfl
  | true =>
    obtain ⟨sack, hold⟩ := processTcpOptionSack_wellFormed hok
    obtain ⟨sack', hnew⟩ := processTcpOptionSack_wellFormed (m := movePacket k l o m) (o := o)
      (by rw [headerBlocks_movePacket]; exact hok)
    rw [hold, hnew]
    dsimp only
    rw [tcpDataOffs_movePacket, if_neg hsmall, if_neg hsmall]
    by_cases hlen : len < tcpDataOffs m o + 20
    · rw [if_pos hlen, if_pos hlen]
      rfl
    · have hsack := (processTcpOptionSack_movePacket_iff (k := k) hok).mpr
        (h hok (by omega) (by omega))
      rw [hold, hnew, Option.map_some, Option.some.injEq] at hsack
      rw [if_neg hlen, if_neg hlen, tcpSeq_movePacket, tcpAckSeq_movePacket, tcpWindow_movePacket, hsack,
        trackWindow_move]

/-- A state whose windows a packet just meets: `e` is where the peer ends. -/
def edgeTcp (seq : BitVec 32) (payload : Nat) : TcpConnectionMatch := ⟨0, 0, seq + BitVec.ofNat 32 payload, seq⟩

def edgePeer (e : BitVec 32) : TcpConnectionMatch := ⟨0, 0, e, 0⟩

theorem trackWindow_accepts {seq ack sack : BitVec 32} {payload window : Nat} {t ct : TcpConnectionMatch}
    (hleft : ¬ (seq + BitVec.ofNat 32 payload - (t.endSeq - ct.maxWin - 1)).toInt < 0)
    (hright : ¬ 0 < (sack - (ct.endSeq + 1)).toInt)
    (hfar : ¬ (sack - (ct.endSeq - t.maxWin - tcpMaxAckWindow - 1)).toInt < 0) :
    ∃ r, trackWindow seq ack sack payload window t ct = .ok r := by
  unfold trackWindow
  dsimp only
  rw [if_neg hleft, if_neg hright, if_neg hfar]
  exact ⟨_, rfl⟩

theorem trackWindow_rejects {seq ack sack : BitVec 32} {payload window : Nat} {t ct : TcpConnectionMatch}
    (h : 0 < (sack - (ct.endSeq + 1)).toInt ∨
      (sack - (ct.endSeq - t.maxWin - tcpMaxAckWindow - 1)).toInt < 0) :
    ∃ ev, trackWindow seq ack sack payload window t ct = .error ev := by
  unfold trackWindow
  dsimp only
  split
  · exact ⟨_, rfl⟩
  split
  · exact ⟨_, rfl⟩
  split
  · exact ⟨_, rfl⟩
  · rename_i hright hfar
    exact absurd h (not_or.mpr ⟨hright, hfar⟩)

/-- Another acknowledged number than the one that was moved does not meet them. -/
theorem trackWindow_edge (seq ack : BitVec 32) {sack sack' : BitVec 32} (payload window : Nat) (hne : sack' ≠ sack + l) :
    ∃ e, (∃ r, trackWindow seq ack sack payload window (edgeTcp seq payload) (edgePeer e) = .ok r) ∧
      ∃ ev, trackWindow (seq + k) (ack + l) sack' payload window (moveTcp k (edgeTcp seq payload))
        (moveTcp l (edgePeer e)) = .error ev := by
  have hleft : ¬ (seq + BitVec.ofNat 32 payload - (seq + BitVec.ofNat 32 payload - 0 - 1)).toInt < 0 := by
    have hone : seq + BitVec.ofNat 32 payload - (seq + BitVec.ofNat 32 payload - 0 - 1) = 1 := by ring
    rw [hone]
    decide
  have hzero : (sack' - (sack + l)).toInt ≠ 0 := by
    intro h
    have hsub : sack' - (sack + l) = 0 := BitVec.eq_of_toInt_eq h
    exact hne (sub_eq_zero.1 hsub)
  by_cases hpos : 0 < (sack' - (sack + l)).toInt
  · -- it exceeds the right edge
    have hright : sack - (sack - 1 + 1) = 0 := by ring
    have hfar : sack - (sack - 1 - 0 - tcpMaxAckWindow - 1) = 65522 := by
      unfold tcpMaxAckWindow
      ring
    have hright' : sack' - (sack - 1 + l + 1) = sack' - (sack + l) := by ring
    refine ⟨sack - 1, trackWindow_accepts hleft ?_ ?_, trackWindow_rejects (Or.inl ?_)⟩
    · change ¬ 0 < (sack - (sack - 1 + 1)).toInt
      rw [hright]
      decide
    · change ¬ (sack - (sack - 1 - 0 - tcpMaxAckWindow - 1)).toInt < 0
      rw [hfar]
      decide
    · change 0 < (sack' - (sack - 1 + l + 1)).toInt
      rw [hright']
      exact hpos
  · -- it is before the left edge
    have hright : sack - (sack + 65521 + 1) = -65522 := by ring
    have hfar : sack - (sack + 65521 - 0 - tcpMaxAckWindow - 1) = 0 := by
      unfold tcpMaxAckWindow
      ring
    have hfar' : sack' - (sack + 65521 + l - 0 - tcpMaxAckWindow - 1) = sack' - (sack + l) := by
      unfold tcpMaxAckWindow
      ring
    refine ⟨sack + 65521, trackWindow_accepts hleft ?_ ?_, trackWindow_rejects (Or.inr ?_)⟩
    · change ¬ 0 < (sack - (sack + 65521 + 1)).toInt
      rw [hright]
      decide
    · change ¬ (sack - (sack + 65521 - 0 - tcpMaxAckWindow - 1)).toInt < 0
      rw [hfar]
      decide
    · change (sack' - (sack + 65521 + l - 0 - tcpMaxAckWindow - 1)).toInt < 0
      rw [hfar']
      omega

end Windows

/-! ## Packets -/

/-- The checks of a TCP packet, as `sfe_ipv4_recv` calls them. -/
def checkTcp (cm ct : ConnectionMatch) (skb : Skb) : Decision × TcpConnectionMatch × TcpConnectionMatch :=
  tcpDecide cm ct skb (ipHdrLen skb.data 0) (moreFragments skb.data || ipHdrLen skb.data 0 != 20)

/-- The packet, moved. -/
def moveSkb (k l : BitVec 32) (skb : Skb) : Skb :=
  { skb with data := movePacket k l (ipHdrLen skb.data 0) skb.data }

/-- A decision with the states it leaves, moved. -/
def moveDecision (k l : BitVec 32) (r : Decision × TcpConnectionMatch × TcpConnectionMatch) :
    Decision × TcpConnectionMatch × TcpConnectionMatch :=
  (r.1, moveTcp k r.2.1, moveTcp l r.2.2)

/-- A packet that is looked at by the windows, if its connection asks for it and its
device takes it. -/
structure WindowsSee (skb : Skb) : Prop where
  whole : (moreFragments skb.data || ipHdrLen skb.data 0 != 20) = false
  ttl : 2 ≤ ipTtl skb.data
  fits : skb.len ≤ 65535 ∨ skb.isGso = true
  flags : tcpFastFlags skb.data (ipHdrLen skb.data 0) = true
  dataOffs : 20 ≤ tcpDataOffs skb.data (ipHdrLen skb.data 0)
  options : (headerBlocks skb.data (ipHdrLen skb.data 0)).2 = true
  header : tcpDataOffs skb.data (ipHdrLen skb.data 0) + 20 ≤ skb.len

section Packets

variable {k l : BitVec 32} {skb : Skb}

theorem ipHdrLen_moveSkb : ipHdrLen (moveSkb k l skb).data 0 = ipHdrLen skb.data 0 := by
  have hbyte : (moveSkb k l skb).data 0 = skb.data 0 := movePacket_header (by omega) (by omega)
  unfold ipHdrLen
  rw [hbyte]

theorem whole_moveSkb : (moreFragments (moveSkb k l skb).data || ipHdrLen (moveSkb k l skb).data 0 != 20)
    = (moreFragments skb.data || ipHdrLen skb.data 0 != 20) := by
  rw [ipHdrLen_moveSkb]
  by_cases h : ipHdrLen skb.data 0 = 20
  · have hbyte : ∀ i < 20, (moveSkb k l skb).data i = skb.data i := fun i hi =>
      movePacket_header (by omega) (by omega)
    have hfrag : moreFragments (moveSkb k l skb).data = moreFragments skb.data := by
      unfold moreFragments fragOff be16
      rw [hbyte 6 (by omega), hbyte (6 + 1) (by omega)]
    rw [hfrag]
  · have hne : (ipHdrLen skb.data 0 != 20) = true := by simpa using h
    rw [hne, Bool.or_true, Bool.or_true]

theorem ipTtl_moveSkb (h : ipHdrLen skb.data 0 = 20) : ipTtl (moveSkb k l skb).data = ipTtl skb.data := by
  unfold ipTtl moveSkb
  dsimp only
  rw [h, movePacket_header (by omega) (by omega)]

/-- A packet moves through the checks, if its acknowledged numbers do. -/
theorem checkTcp_move (cm ct : ConnectionMatch)
    (h : WindowsSee skb → MoveTogether (2 ^ 32) l.toNat (ackNumbers skb.data (ipHdrLen skb.data 0))) :
    checkTcp (moveMatch k cm) (moveMatch l ct) (moveSkb k l skb) = moveDecision k l (checkTcp cm ct skb) := by
  unfold checkTcp
  rw [whole_moveSkb, ipHdrLen_moveSkb]
  cases hwhole : moreFragments skb.data || ipHdrLen skb.data 0 != 20 with
  | true => rfl
  | false =>
    have hihl : ipHdrLen skb.data 0 = 20 := by simpa using (Bool.or_eq_false_iff.mp hwhole).2
    have hflags : tcpFastFlags (moveSkb k l skb).data (ipHdrLen skb.data 0)
        = tcpFastFlags skb.data (ipHdrLen skb.data 0) := tcpFastFlags_movePacket
    have hlen : (moveSkb k l skb).len = skb.len := rfl
    have hgso : (moveSkb k l skb).isGso = skb.isGso := rfl
    have hunshare : unshare (moveSkb k l skb) = unshare skb := rfl
    have hcm : (moveMatch k cm).tcp = moveTcp k cm.tcp := rfl
    have hct : (moveMatch l ct).tcp = moveTcp l ct.tcp := rfl
    have haccel : (moveMatch k cm).flowAccel = cm.flowAccel := rfl
    have hmtu : (moveMatch k cm).xmitDevMtu = cm.xmitDevMtu := rfl
    have hseq : (moveMatch k cm).flags.noSeqCheck = cm.flags.noSeqCheck := rfl
    have hmtult := cm.xmitDevMtu.isLt
    unfold tcpDecide
    rw [ipTtl_moveSkb hihl, hflags, hlen, hgso, hunshare, hcm, hct, haccel, hmtu, hseq]
    simp only [Bool.false_eq_true, if_false]
    split_ifs with hpass httl hbig hslow hno
    · rfl
    · rfl
    · rfl
    · rfl
    · rfl
    · -- the windows are looked at
      have htrack := trackSequence_move (k := k) (l := l) (m := skb.data) (o := ipHdrLen skb.data 0)
        skb.len cm.tcp ct.tcp fun hok hdata hheader => h
          { whole := hwhole
            ttl := by omega
            fits := by
              rcases Nat.lt_or_ge 65535 skb.len with hlong | hshort
              · right
                by_contra hg
                exact hbig ⟨by omega, by simpa using hg⟩
              · exact Or.inl hshort
            flags := by simpa using hslow
            dataOffs := hdata
            options := hok
            header := hheader }
      have hdata : (moveSkb k l skb).data = movePacket k l (ipHdrLen skb.data 0) skb.data := rfl
      rw [hdata, htrack]
      cases trackSequence skb.data (ipHdrLen skb.data 0) skb.len cm.tcp ct.tcp with
      | error ev => rfl
      | ok r => rfl

/-- A match that asks for the windows and takes every packet. -/
def watchedMatch (t : TcpConnectionMatch) : ConnectionMatch :=
  { zeroMatch with flowAccel := true, xmitDevMtu := 0xffff, tcp := t }

theorem checkTcp_watched (t : TcpConnectionMatch) (ct : ConnectionMatch) (h : WindowsSee skb) :
    (∀ r, trackSequence skb.data (ipHdrLen skb.data 0) skb.len t ct.tcp = .ok r →
      (checkTcp (watchedMatch t) ct skb).1 = unshare skb) ∧
    ∀ ev, trackSequence skb.data (ipHdrLen skb.data 0) skb.len t ct.tcp = .error ev →
      (checkTcp (watchedMatch t) ct skb).1 = .flush ev := by
  have httl : ¬ ipTtl skb.data < 2 := by
    have h := h.ttl
    omega
  have hbig : ¬ (skb.len > (watchedMatch t).xmitDevMtu.toNat ∧ (!skb.isGso) = true) := by
    rintro ⟨hlen, hgso⟩
    have hmtu : (watchedMatch t).xmitDevMtu.toNat = 65535 := rfl
    rcases h.fits with hfits | hfits
    · omega
    · rw [hfits] at hgso
      cases hgso
  have haccel : (watchedMatch t).flowAccel = true := rfl
  have hseq : (watchedMatch t).flags.noSeqCheck = false := rfl
  unfold checkTcp tcpDecide
  rw [h.whole, haccel, hseq, h.flags, if_neg (by decide), if_neg (by decide), if_neg httl, if_neg hbig,
    if_neg (by decide), if_neg (by decide)]
  have htcp : (watchedMatch t).tcp = t := rfl
  rw [htcp]
  constructor
  · intro r hr
    rw [hr]
  · intro ev hev
    rw [hev]

theorem unshare_ne_flush (skb : Skb) (ev : ExceptionEvent) : unshare skb ≠ .flush ev := by
  unfold unshare
  split
  · intro h
    cases h
  · intro h
    cases h

theorem WindowsSee.move (h : WindowsSee skb) : WindowsSee (moveSkb k l skb) := by
  have hihl : ipHdrLen skb.data 0 = 20 := by simpa using (Bool.or_eq_false_iff.mp h.whole).2
  constructor
  case whole => exact whole_moveSkb.trans h.whole
  case ttl => exact (ipTtl_moveSkb hihl).symm ▸ h.ttl
  case fits => exact h.fits
  case flags =>
    rw [ipHdrLen_moveSkb]
    exact tcpFastFlags_movePacket.trans h.flags
  case dataOffs =>
    rw [ipHdrLen_moveSkb]
    exact tcpDataOffs_movePacket.symm ▸ h.dataOffs
  case options =>
    rw [ipHdrLen_moveSkb]
    exact (congrArg Prod.snd headerBlocks_movePacket).trans h.options
  case header =>
    rw [ipHdrLen_moveSkb]
    exact tcpDataOffs_movePacket.symm ▸ h.header

/-- A packet that goes on where its direction ends is looked at by the windows. -/
theorem WindowsSee.trackSequence_eq (h : WindowsSee skb) (t ct : TcpConnectionMatch) {sack : BitVec 32}
    (hmax : t.maxEnd = tcpSeq skb.data (ipHdrLen skb.data 0))
    (hsack : processTcpOptionSack skb.data (ipHdrLen skb.data 0) (tcpDataOffs skb.data (ipHdrLen skb.data 0))
      (tcpAckSeq skb.data (ipHdrLen skb.data 0)) = some sack) :
    trackSequence skb.data (ipHdrLen skb.data 0) skb.len t ct
      = trackWindow (tcpSeq skb.data (ipHdrLen skb.data 0)) (tcpAckSeq skb.data (ipHdrLen skb.data 0)) sack
        (skb.len - (tcpDataOffs skb.data (ipHdrLen skb.data 0) + 20))
        (tcpWindow skb.data (ipHdrLen skb.data 0)) t ct := by
  have hdata := h.dataOffs
  have hheader := h.header
  have hedge : tcpSeq skb.data (ipHdrLen skb.data 0) - (tcpSeq skb.data (ipHdrLen skb.data 0) + 1) = -1 := by
    ring
  unfold trackSequence
  rw [hmax, hedge, if_neg (by decide), if_neg (by omega), hsack]
  exact if_neg (by omega)

/-- A packet whose numbers do not pass 2^32 together is told from the moved one by some
connection. -/
theorem checkTcp_told (h : WindowsSee skb)
    (hnot : ¬ MoveTogether (2 ^ 32) l.toNat (ackNumbers skb.data (ipHdrLen skb.data 0))) :
    ∃ cm ct, checkTcp (moveMatch k cm) (moveMatch l ct) (moveSkb k l skb) ≠ moveDecision k l (checkTcp cm ct skb) := by
  obtain ⟨sack, hold⟩ := processTcpOptionSack_wellFormed h.options
  obtain ⟨sack', hnew⟩ := processTcpOptionSack_wellFormed (h.move (k := k) (l := l)).options
  have hne : sack' ≠ sack + l := by
    intro he
    refine hnot ((processTcpOptionSack_movePacket_iff (k := k) h.options).mp ?_)
    rw [ipHdrLen_moveSkb] at hnew
    rw [hold, Option.map_some, ← he]
    exact hnew
  obtain ⟨e, ⟨r, haccept⟩, ev, hreject⟩ := trackWindow_edge (k := k)
    (tcpSeq skb.data (ipHdrLen skb.data 0)) (tcpAckSeq skb.data (ipHdrLen skb.data 0))
    (skb.len - (tcpDataOffs skb.data (ipHdrLen skb.data 0) + 20))
    (tcpWindow skb.data (ipHdrLen skb.data 0)) hne
  have hbefore := h.trackSequence_eq (edgeTcp (tcpSeq skb.data (ipHdrLen skb.data 0))
    (skb.len - (tcpDataOffs skb.data (ipHdrLen skb.data 0) + 20))) (edgePeer e) rfl hold
  have hmax : (moveTcp k (edgeTcp (tcpSeq skb.data (ipHdrLen skb.data 0))
      (skb.len - (tcpDataOffs skb.data (ipHdrLen skb.data 0) + 20)))).maxEnd
      = tcpSeq (moveSkb k l skb).data (ipHdrLen (moveSkb k l skb).data 0) := by
    rw [ipHdrLen_moveSkb]
    exact tcpSeq_movePacket.symm
  have hafter := (h.move (k := k) (l := l)).trackSequence_eq _ (moveTcp l (edgePeer e)) hmax hnew
  refine ⟨watchedMatch (edgeTcp (tcpSeq skb.data (ipHdrLen skb.data 0))
    (skb.len - (tcpDataOffs skb.data (ipHdrLen skb.data 0) + 20))), watchedMatch (edgePeer e), fun heq => ?_⟩
  have hplain := (checkTcp_watched _ (watchedMatch (edgePeer e)) h).1 r (hbefore.trans haccept)
  have hreject' : trackSequence (moveSkb k l skb).data (ipHdrLen (moveSkb k l skb).data 0) (moveSkb k l skb).len
      (moveTcp k (edgeTcp (tcpSeq skb.data (ipHdrLen skb.data 0))
        (skb.len - (tcpDataOffs skb.data (ipHdrLen skb.data 0) + 20)))) (moveTcp l (edgePeer e)) = .error ev := by
    rw [hafter, ipHdrLen_moveSkb]
    unfold moveSkb
    rw [tcpSeq_movePacket, tcpAckSeq_movePacket, tcpDataOffs_movePacket, tcpWindow_movePacket]
    exact hreject
  have hmoved := (checkTcp_watched _ (moveMatch l (watchedMatch (edgePeer e))) h.move).2 ev hreject'
  have hdec := congrArg Prod.fst heq
  exact unshare_ne_flush skb ev (hplain.symm.trans (hdec.symm.trans hmoved))

end Packets

/-- Every connection treats a packet as the moved connection treats the moved packet,
exactly if the windows do not see the packet or its acknowledged numbers pass 2^32
together. -/
theorem checkTcp_move_iff (skb : Skb) (k l : BitVec 32) :
    (∀ cm ct, checkTcp (moveMatch k cm) (moveMatch l ct) (moveSkb k l skb)
      = moveDecision k l (checkTcp cm ct skb)) ↔
    (WindowsSee skb → MoveTogether (2 ^ 32) l.toNat (ackNumbers skb.data (ipHdrLen skb.data 0))) := by
  constructor
  · intro h hsee
    by_contra hnot
    obtain ⟨cm, ct, hne⟩ := checkTcp_told (k := k) hsee hnot
    exact hne (h cm ct)
  · exact fun h cm ct => checkTcp_move cm ct h

/-- A packet that acknowledges 0xfffffff0 and has a SACK block up to 0x10, 32 numbers
later. -/
def sackPacket : Skb where
  data := fun i => [0x45, 0, 0, 52, 0, 0, 0, 0, 64, 6, 0, 0, 1, 0, 0, 0, 8, 8, 8, 8,
    3, 0xe8, 0, 80, 0, 0, 0x10, 0, 0xff, 0xff, 0xff, 0xf0, 0x80, 0x10, 0x10, 0, 0, 0, 0, 0,
    1, 1, 5, 10, 0, 0, 0, 0, 0, 0, 0, 0x10].getD i 0
  len := 52
  len_lt := by decide
  csumPartial := false
  isGso := false
  cloned := false
  unshareOk := true

/-- It is forwarded. With its acknowledged numbers and those of the peer moved by 32, so
that all of them have passed 2^32, its connection is flushed. -/
theorem sackPacket_move :
    (checkTcp (watchedMatch (edgeTcp 0x1000 0)) (watchedMatch (edgePeer 0xffffffef)) sackPacket).1 = .forward ∧
    (checkTcp (moveMatch 0 (watchedMatch (edgeTcp 0x1000 0))) (moveMatch 32 (watchedMatch (edgePeer 0xffffffef)))
      (moveSkb 0 32 sackPacket)).1 = .flush .tcpAckExceedsRightEdge ∧
    checkTcp (moveMatch 0 (watchedMatch (edgeTcp 0x1000 0))) (moveMatch 32 (watchedMatch (edgePeer 0xffffffef)))
        (moveSkb 0 32 sackPacket)
      ≠ moveDecision 0 32
        (checkTcp (watchedMatch (edgeTcp 0x1000 0)) (watchedMatch (edgePeer 0xffffffef)) sackPacket) := by
  have hbefore : (checkTcp (watchedMatch (edgeTcp 0x1000 0)) (watchedMatch (edgePeer 0xffffffef)) sackPacket).1
      = .forward := by decide +kernel
  have hafter : (checkTcp (moveMatch 0 (watchedMatch (edgeTcp 0x1000 0)))
      (moveMatch 32 (watchedMatch (edgePeer 0xffffffef))) (moveSkb 0 32 sackPacket)).1
      = .flush .tcpAckExceedsRightEdge := by decide +kernel
  refine ⟨hbefore, hafter, fun h => ?_⟩
  have hdec := congrArg Prod.fst h
  rw [hafter] at hdec
  cases hdec.trans hbefore

end Lede.Sfe
