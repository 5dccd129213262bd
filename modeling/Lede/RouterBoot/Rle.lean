/-
Lede.RouterBoot.Rle — `routerboot_rle_decode`: what it writes, what it reads and what it
returns.

A run byte up to 127 is followed by a byte to repeat; one from 128 on stands for a negative
number, and as many bytes are copied. The output is counted in an `int`, which is compared
with the room as a `size_t`: a count of 2^31 or more is negative, and where `size_t` has more
than 32 bits it is then larger than any room.

What is serialised from runs and literal blocks is decoded to their expansion
(`decodeLoop_serialise`); whatever the input is, only its bytes are read and the room is not left
(`decodeLoop_safe`).
-/
import Lede.Lib.Access
import Lede.RouterBoot.HardConfig

namespace Lede.RouterBoot

open Lede.Lib

/-! ## The decoder -/

/-- The room for the output on a machine whose `size_t` has `w` bits: no object takes more than half
of the addresses. -/
structure RleRoom where
  w : Nat
  w_le : 32 ≤ w
  outlen : Nat
  lt : outlen < 2 ^ (w - 1)

inductive RleRet where
  | ok
  | enospc
  | einval
  deriving DecidableEq, Repr

/-- What the decoder returns: `*outlen`, the bytes it wrote, and the bytes of the input it read. -/
structure RleOut where
  ret : RleRet
  outlen : Nat
  out : List UInt8
  reads : List Access
  deriving DecidableEq, Repr

/-- The result with what was written and read before. -/
def RleOut.after (r : RleOut) (out : List UInt8) (reads : List Access) : RleOut :=
  { r with out := out ++ r.out, reads := reads ++ r.reads }

namespace RleRoom

variable (room : RleRoom) (m : Nat → UInt8)

/-- `nbytes` as a `size_t`. -/
def count (nbytes : BitVec 32) : Nat := (nbytes.signExtend room.w).toNat

/-- The loop of `routerboot_rle_decode`, with `inlen` bytes left at `pos`. -/
def decodeLoop : Nat → Nat → Nat → BitVec 32 → Option RleOut
  | 0, _, _, _ => none
  | n + 1, pos, inlen, nbytes =>
    if inlen < 2 then some ⟨.ok, room.count nbytes, [], []⟩
    else
      let run := (m pos).toNat
      if 128 ≤ run then
        let run := 256 - run
        if inlen - 1 < run then some ⟨.enospc, room.count nbytes, [], [⟨pos, 1⟩]⟩
        else
          let nbytes := nbytes + BitVec.ofNat 32 run
          if room.outlen < room.count nbytes then some ⟨.enospc, room.count nbytes, [], [⟨pos, 1⟩]⟩
          else
            (decodeLoop n (pos + 1 + run) (inlen - 1 - run) nbytes).map
              (·.after ((List.range run).map (fun i => m (pos + 1 + i))) [⟨pos, 1⟩, ⟨pos + 1, run⟩])
      else
        let nbytes := nbytes + BitVec.ofNat 32 run
        if room.outlen < room.count nbytes then
          some ⟨.enospc, room.count nbytes, [], [⟨pos, 1⟩, ⟨pos + 1, 1⟩]⟩
        else
          (decodeLoop n (pos + 2) (inlen - 2) nbytes).map
            (·.after (List.replicate run (m (pos + 1))) [⟨pos, 1⟩, ⟨pos + 1, 1⟩])

/-- `routerboot_rle_decode`; `none` would be a loop that is still running. -/
def decode (inlen : Nat) : Option RleOut :=
  if inlen < 2 then some ⟨.einval, room.outlen, [], []⟩ else room.decodeLoop m inlen 0 inlen 0#32

end RleRoom

/-! ## What is serialised -/

/-- A run of a byte, or a block of bytes. -/
inductive RleToken where
  | run (n : Nat) (b : UInt8) (pos : 1 ≤ n) (le : n ≤ 127)
  | literal (bytes : List UInt8) (pos : 1 ≤ bytes.length) (le : bytes.length ≤ 128)

namespace RleToken

/-- The bytes of a token: the run byte, and what is behind it. -/
def bytes : RleToken → List UInt8
  | run n b _ _ => [UInt8.ofNat n, b]
  | literal bs _ _ => UInt8.ofNat (256 - bs.length) :: bs

/-- What it stands for. -/
def expand : RleToken → List UInt8
  | run n b _ _ => List.replicate n b
  | literal bs _ _ => bs

/-- The reads a token takes. -/
def reads (p : Nat) : RleToken → List Access
  | run _ _ _ _ => [⟨p, 1⟩, ⟨p + 1, 1⟩]
  | literal bs _ _ => [⟨p, 1⟩, ⟨p + 1, bs.length⟩]

theorem two_le_bytes (t : RleToken) : 2 ≤ t.bytes.length := by
  cases t with
  | run n b pos le => exact le_rfl
  | literal bs pos le => exact Nat.succ_le_succ pos

end RleToken

/-- The serialisation of a list of tokens, and its expansion. -/
def serialise (ts : List RleToken) : List UInt8 := ts.flatMap RleToken.bytes

def expansion (ts : List RleToken) : List UInt8 := ts.flatMap RleToken.expand

/-- `l` is in memory at `pos`. -/
def Holds (m : Nat → UInt8) (pos : Nat) (l : List UInt8) : Prop :=
  ∀ i (h : i < l.length), m (pos + i) = l[i]

/-! ## Counting -/

section Count

variable {room : RleRoom} {c : Nat}

theorem count_ofNat (h : c < 2 ^ 31) : room.count (BitVec.ofNat 32 c) = c := by
  have hw := room.w_le
  have hpow : 2 ^ 32 ≤ 2 ^ room.w := Nat.pow_le_pow_right (by decide) hw
  have hmsb : (BitVec.ofNat 32 c).msb = false := by
    rw [BitVec.msb_eq_decide, BitVec.toNat_ofNat]
    simp
    omega
  rw [RleRoom.count, BitVec.toNat_signExtend, hmsb, BitVec.toNat_setWidth, BitVec.toNat_ofNat,
    Nat.mod_eq_of_lt (by omega : c < 2 ^ 32), Nat.mod_eq_of_lt (by omega)]
  rfl

/-- A count that has become negative is larger than the room. -/
theorem lt_count_ofNat (hle : 2 ^ 31 ≤ c) (h : c < 2 ^ 32) :
    room.outlen < room.count (BitVec.ofNat 32 c) := by
  have hw := room.w_le
  have hlt := room.lt
  have hpow : 2 ^ 32 ≤ 2 ^ room.w := Nat.pow_le_pow_right (by decide) hw
  have hhalf : 2 ^ room.w = 2 ^ (room.w - 1) * 2 := by
    rw [← Nat.pow_succ, Nat.succ_eq_add_one, Nat.sub_add_cancel (by omega)]
  have hmsb : (BitVec.ofNat 32 c).msb = true := by
    rw [BitVec.msb_eq_decide, BitVec.toNat_ofNat]
    simp
    omega
  rw [RleRoom.count, BitVec.toNat_signExtend, hmsb, BitVec.toNat_setWidth, BitVec.toNat_ofNat,
    Nat.mod_eq_of_lt h, Nat.mod_eq_of_lt (by omega), if_pos rfl]
  omega

/-- When the next bytes do not fit. -/
theorem lt_count_iff (h : c < 2 ^ 32) :
    room.outlen < room.count (BitVec.ofNat 32 c) ↔ room.outlen < c ∨ 2 ^ 31 ≤ c := by
  by_cases hc : c < 2 ^ 31
  · rw [count_ofNat hc]
    omega
  · exact iff_of_true (lt_count_ofNat (by omega) h) (Or.inr (by omega))

end Count

/-! ## The loop -/

section Loop

variable {room : RleRoom} {m : Nat → UInt8} {n pos inlen c : Nat}

/-- One round, for a count that is not negative. -/
theorem decodeLoop_succ (hc : c < 2 ^ 31) : room.decodeLoop m (n + 1) pos inlen (BitVec.ofNat 32 c) =
    if inlen < 2 then some ⟨.ok, c, [], []⟩
    else if 128 ≤ (m pos).toNat then
      let run := 256 - (m pos).toNat
      if inlen - 1 < run then some ⟨.enospc, c, [], [⟨pos, 1⟩]⟩
      else if room.outlen < c + run ∨ 2 ^ 31 ≤ c + run then
        some ⟨.enospc, room.count (BitVec.ofNat 32 (c + run)), [], [⟨pos, 1⟩]⟩
      else
        (room.decodeLoop m n (pos + 1 + run) (inlen - 1 - run) (BitVec.ofNat 32 (c + run))).map
          (·.after ((List.range run).map (fun i => m (pos + 1 + i))) [⟨pos, 1⟩, ⟨pos + 1, run⟩])
    else
      let run := (m pos).toNat
      if room.outlen < c + run ∨ 2 ^ 31 ≤ c + run then
        some ⟨.enospc, room.count (BitVec.ofNat 32 (c + run)), [], [⟨pos, 1⟩, ⟨pos + 1, 1⟩]⟩
      else
        (room.decodeLoop m n (pos + 2) (inlen - 2) (BitVec.ofNat 32 (c + run))).map
          (·.after (List.replicate run (m (pos + 1))) [⟨pos, 1⟩, ⟨pos + 1, 1⟩]) := by
  have hbyte := (m pos).toNat_lt
  have hlit := @lt_count_iff room (c + (256 - (m pos).toNat)) (by omega)
  have hrun := @lt_count_iff room (c + (m pos).toNat) (by omega)
  rw [RleRoom.decodeLoop]
  dsimp only
  rw [count_ofNat hc, ← BitVec.ofNat_add, ← BitVec.ofNat_add]
  simp only [hlit, hrun]

/-- Whatever the input is: the loop ends, it reads the bytes that are left and no others, and what it
writes fits the room. -/
theorem decodeLoop_safe (hfuel : inlen < 2 * n) (hc : c < 2 ^ 31) (hle : c ≤ room.outlen) :
    ∃ r, room.decodeLoop m n pos inlen (BitVec.ofNat 32 c) = some r ∧
      Within (pos + inlen) r.reads ∧ c + r.out.length ≤ room.outlen ∧
      (r.ret = .ok → r.outlen = c + r.out.length) := by
  induction n generalizing pos inlen c with
  | zero => omega
  | succ n ih =>
    rw [decodeLoop_succ hc]
    by_cases hend : inlen < 2
    · rw [if_pos hend]
      exact ⟨_, rfl, within_nil, by simpa using hle, fun _ => rfl⟩
    · rw [if_neg hend]
      have hbyte := (m pos).toNat_lt
      by_cases hlit : 128 ≤ (m pos).toNat
      · rw [if_pos hlit]
        generalize hrun : 256 - (m pos).toNat = run
        dsimp only
        by_cases hshort : inlen - 1 < run
        · rw [if_pos hshort]
          refine ⟨_, rfl, ?_, by simpa using hle, fun h => by cases h⟩
          simp
          omega
        · rw [if_neg hshort]
          by_cases hroom : room.outlen < c + run ∨ 2 ^ 31 ≤ c + run
          · rw [if_pos hroom]
            refine ⟨_, rfl, ?_, by simpa using hle, fun h => by cases h⟩
            simp
            omega
          · rw [if_neg hroom]
            obtain ⟨r, hr, hin, hout, hlen⟩ := @ih (pos + 1 + run) (inlen - 1 - run) (c + run)
              (by omega) (by omega) (by omega)
            rw [hr, Option.map_some]
            have hpos : pos + 1 + run + (inlen - 1 - run) = pos + inlen := by omega
            rw [hpos] at hin
            refine ⟨_, rfl, ?_, ?_, ?_⟩
            · simp [RleOut.after, hin]
              omega
            · simp [RleOut.after]
              omega
            · intro hok
              have := hlen hok
              simp [RleOut.after]
              omega
      · rw [if_neg hlit]
        generalize hrun : (m pos).toNat = run
        dsimp only
        by_cases hroom : room.outlen < c + run ∨ 2 ^ 31 ≤ c + run
        · rw [if_pos hroom]
          refine ⟨_, rfl, ?_, by simpa using hle, fun h => by cases h⟩
          simp
          omega
        · rw [if_neg hroom]
          obtain ⟨r, hr, hin, hout, hlen⟩ := @ih (pos + 2) (inlen - 2) (c + run)
            (by omega) (by omega) (by omega)
          rw [hr, Option.map_some]
          have hpos : pos + 2 + (inlen - 2) = pos + inlen := by omega
          rw [hpos] at hin
          refine ⟨_, rfl, ?_, ?_, ?_⟩
          · simp [RleOut.after, hin]
            omega
          · simp [RleOut.after]
            omega
          · intro hok
            have := hlen hok
            simp [RleOut.after]
            omega

end Loop

/-! ## Decoding a serialisation -/

section Tokens

variable {room : RleRoom} {m : Nat → UInt8} {n pos rest c : Nat} {t : RleToken} {ts : List RleToken}

theorem Holds.append {l l' : List UInt8} (h : Holds m pos (l ++ l')) :
    Holds m pos l ∧ Holds m (pos + l.length) l' := by
  constructor
  · intro i hi
    rw [h i (by rw [List.length_append]; omega), List.getElem_append_left hi]
  · intro i hi
    rw [Nat.add_assoc, h (l.length + i) (by rw [List.length_append]; omega),
      List.getElem_append_right (Nat.le_add_right _ _)]
    simp

theorem Holds.map_range {l : List UInt8} (h : Holds m pos l) :
    (List.range l.length).map (fun i => m (pos + i)) = l := by
  refine List.ext_getElem (by simp) fun i h₁ h₂ => ?_
  rw [List.getElem_map, List.getElem_range]
  exact h i h₂

theorem toNat_run {k : Nat} {b : UInt8} {kpos : 1 ≤ k} {kle : k ≤ 127}
    (ht : Holds m pos (RleToken.run k b kpos kle).bytes) : (m pos).toNat = k := by
  have h := ht 0 (by simp [RleToken.bytes])
  rw [Nat.add_zero] at h
  rw [h]
  simp [RleToken.bytes]
  omega

theorem toNat_literal {bs : List UInt8} {bpos : 1 ≤ bs.length} {ble : bs.length ≤ 128}
    (ht : Holds m pos (RleToken.literal bs bpos ble).bytes) : (m pos).toNat = 256 - bs.length := by
  have h := ht 0 (by simp [RleToken.bytes])
  rw [Nat.add_zero] at h
  rw [h]
  simp [RleToken.bytes]
  omega

/-- A token that fits is decoded to its expansion. -/
theorem decodeLoop_token (ht : Holds m pos t.bytes) (hc : c < 2 ^ 31)
    (hroom : c + t.expand.length ≤ room.outlen) (hfits : c + t.expand.length < 2 ^ 31) :
    room.decodeLoop m (n + 1) pos (t.bytes.length + rest) (BitVec.ofNat 32 c) =
      (room.decodeLoop m n (pos + t.bytes.length) rest
        (BitVec.ofNat 32 (c + t.expand.length))).map (·.after t.expand (t.reads pos)) := by
  have htwo := t.two_le_bytes
  rw [decodeLoop_succ hc, if_neg (by omega)]
  cases t with
  | run k b kpos kle =>
    have hbyte := toNat_run ht
    have hnext : m (pos + 1) = b := ht 1 (by simp [RleToken.bytes])
    have hlen : (RleToken.run k b kpos kle).expand.length = k := List.length_replicate
    rw [hlen] at hroom hfits ⊢
    rw [if_neg (by omega)]
    dsimp only
    rw [hbyte, if_neg (by omega), hnext]
    simp [RleToken.bytes, RleToken.reads, RleToken.expand]
  | literal bs bpos ble =>
    have hbyte := toNat_literal ht
    have hcopy : (List.range bs.length).map (fun i => m (pos + 1 + i)) = bs :=
      (Holds.append (l := [UInt8.ofNat (256 - bs.length)]) ht).2.map_range
    have hrun : 256 - (256 - bs.length) = bs.length := by omega
    have hlen : (RleToken.literal bs bpos ble).expand.length = bs.length := rfl
    have hbytes : (RleToken.literal bs bpos ble).bytes.length = bs.length + 1 := rfl
    rw [hlen] at hroom hfits ⊢
    rw [hbytes, if_pos (by omega)]
    dsimp only
    rw [hbyte, hrun, if_neg (by omega), if_neg (by omega), hcopy, Nat.add_right_comm pos,
      Nat.add_assoc pos, Nat.add_right_comm bs.length, Nat.add_sub_cancel, Nat.add_sub_cancel_left]
    rfl

/-- A token that does not fit ends the loop. -/
theorem decodeLoop_full (ht : Holds m pos t.bytes) (hc : c < 2 ^ 31)
    (hfull : room.outlen < c + t.expand.length ∨ 2 ^ 31 ≤ c + t.expand.length) :
    ∃ r, room.decodeLoop m (n + 1) pos (t.bytes.length + rest) (BitVec.ofNat 32 c) = some r ∧
      r.ret = .enospc := by
  have htwo := t.two_le_bytes
  rw [decodeLoop_succ hc, if_neg (by omega)]
  cases t with
  | run k b kpos kle =>
    have hbyte := toNat_run ht
    have hlen : (RleToken.run k b kpos kle).expand.length = k := List.length_replicate
    rw [hlen] at hfull
    rw [if_neg (by omega)]
    dsimp only
    rw [hbyte, if_pos hfull]
    exact ⟨_, rfl, rfl⟩
  | literal bs bpos ble =>
    have hbyte := toNat_literal ht
    have hrun : 256 - (256 - bs.length) = bs.length := by omega
    have hlen : (RleToken.literal bs bpos ble).expand.length = bs.length := rfl
    have hbytes : (RleToken.literal bs bpos ble).bytes.length = bs.length + 1 := rfl
    rw [hlen] at hfull
    rw [hbytes, if_pos (by omega)]
    dsimp only
    rw [hbyte, hrun, if_neg (by omega), if_pos hfull]
    exact ⟨_, rfl, rfl⟩

/-- A serialisation that fits is decoded to its expansion. -/
theorem decodeLoop_serialise (hfuel : (serialise ts).length < 2 * n) (hm : Holds m pos (serialise ts))
    (hc : c < 2 ^ 31) (hroom : c + (expansion ts).length ≤ room.outlen)
    (hfits : c + (expansion ts).length < 2 ^ 31) :
    ∃ reads, room.decodeLoop m n pos (serialise ts).length (BitVec.ofNat 32 c) =
      some ⟨.ok, c + (expansion ts).length, expansion ts, reads⟩ := by
  induction ts generalizing n pos c with
  | nil =>
    cases n with
    | zero => omega
    | succ n =>
      rw [decodeLoop_succ hc]
      exact ⟨[], rfl⟩
  | cons t ts ih =>
    rw [serialise, List.flatMap_cons] at hm hfuel ⊢
    rw [expansion, List.flatMap_cons] at hroom hfits ⊢
    rw [List.length_append] at hfuel hroom hfits ⊢
    have htwo := t.two_le_bytes
    obtain ⟨ht, hts⟩ := hm.append
    cases n with
    | zero => omega
    | succ n =>
      obtain ⟨reads, hr⟩ := @ih n (pos + t.bytes.length) (c + t.expand.length)
        (by unfold serialise; omega) hts (by omega) (by unfold expansion; omega)
        (by unfold expansion; omega)
      refine ⟨t.reads pos ++ reads, ?_⟩
      rw [decodeLoop_token ht hc (by omega) (by omega)]
      unfold serialise expansion at hr
      rw [hr, List.length_append, Nat.add_assoc]
      rfl

/-- One whose expansion is counted past the largest `int` is not. -/
theorem decodeLoop_overflow (hfuel : (serialise ts).length < 2 * n) (hm : Holds m pos (serialise ts))
    (hc : c < 2 ^ 31) (hfull : 2 ^ 31 ≤ c + (expansion ts).length) :
    ∃ r, room.decodeLoop m n pos (serialise ts).length (BitVec.ofNat 32 c) = some r ∧
      r.ret = .enospc := by
  induction ts generalizing n pos c with
  | nil =>
    simp [expansion] at hfull
    omega
  | cons t ts ih =>
    rw [serialise, List.flatMap_cons] at hm hfuel ⊢
    rw [expansion, List.flatMap_cons] at hfull
    rw [List.length_append] at hfuel hfull ⊢
    have htwo := t.two_le_bytes
    obtain ⟨ht, hts⟩ := hm.append
    cases n with
    | zero => omega
    | succ n =>
      by_cases hfit : room.outlen < c + t.expand.length ∨ 2 ^ 31 ≤ c + t.expand.length
      · exact decodeLoop_full ht hc hfit
      · obtain ⟨r, hr, hret⟩ := @ih n (pos + t.bytes.length) (c + t.expand.length)
          (by unfold serialise; omega) hts (by omega) (by unfold expansion; omega)
        rw [decodeLoop_token ht hc (by omega) (by omega)]
        unfold serialise at hr
        rw [hr]
        exact ⟨_, rfl, hret⟩

end Tokens

/-! ## The function -/

section Decode

variable {room : RleRoom} {m : Nat → UInt8} {ts : List RleToken}

theorem two_le_serialise (h : ts ≠ []) : 2 ≤ (serialise ts).length := by
  cases ts with
  | nil => exact absurd rfl h
  | cons t ts =>
    have htwo := t.two_le_bytes
    rw [serialise, List.flatMap_cons, List.length_append]
    omega

theorem decode_eq {inlen : Nat} (h : 2 ≤ inlen) :
    room.decode m inlen = room.decodeLoop m inlen 0 inlen (BitVec.ofNat 32 0) :=
  if_neg (Nat.not_lt.mpr h)

/-- The driver's model of the decoder says whether this one returns 0. -/
theorem decodeLoop_rleLoop (hout : room.outlen < 2 ^ 31) {n pos inlen c : Nat} (hfuel : inlen < 2 * n)
    (hle : c ≤ room.outlen) : ∃ r, room.decodeLoop m n pos inlen (BitVec.ofNat 32 c) = some r ∧
      (r.ret = .ok ↔ rleLoop m room.outlen n pos inlen c = true) := by
  induction n generalizing pos inlen c with
  | zero => omega
  | succ n ih =>
    rw [decodeLoop_succ (by omega), rleLoop]
    by_cases hend : inlen < 2
    · rw [if_pos hend, if_pos hend]
      exact ⟨_, rfl, by simp⟩
    · rw [if_neg hend, if_neg hend]
      dsimp only
      have hbyte := (m pos).toNat_lt
      by_cases hlit : 128 ≤ (m pos).toNat
      · rw [if_pos hlit, if_pos hlit]
        by_cases hshort : inlen - 1 < 256 - (m pos).toNat
        · rw [if_pos hshort, if_pos (Or.inl hshort)]
          exact ⟨_, rfl, by simp⟩
        · rw [if_neg hshort]
          by_cases hroom : room.outlen < c + (256 - (m pos).toNat)
          · rw [if_pos (Or.inl hroom), if_pos (Or.inr hroom)]
            exact ⟨_, rfl, by simp⟩
          · rw [if_neg (by omega), if_neg (by omega)]
            obtain ⟨r, hr, hret⟩ := @ih (pos + 1 + (256 - (m pos).toNat))
              (inlen - 1 - (256 - (m pos).toNat)) (c + (256 - (m pos).toNat)) (by omega) (by omega)
            rw [hr]
            exact ⟨_, rfl, hret⟩
      · rw [if_neg hlit, if_neg hlit]
        by_cases hroom : room.outlen < c + (m pos).toNat
        · rw [if_pos (Or.inl hroom), if_pos hroom]
          exact ⟨_, rfl, by simp⟩
        · rw [if_neg (by omega), if_neg hroom]
          obtain ⟨r, hr, hret⟩ := @ih (pos + 2) (inlen - 2) (c + (m pos).toNat) (by omega) (by omega)
          rw [hr]
          exact ⟨_, rfl, hret⟩

theorem decode_routerbootRleDecode (hout : room.outlen < 2 ^ 31) (inlen : Nat) :
    ∃ r, room.decode m inlen = some r ∧
      (r.ret = .ok ↔ routerbootRleDecode m inlen room.outlen = true) := by
  unfold routerbootRleDecode
  by_cases h : 2 ≤ inlen
  · rw [decode_eq h, decide_eq_true h, Bool.true_and]
    exact decodeLoop_rleLoop hout (by omega) (Nat.zero_le _)
  · rw [RleRoom.decode, if_pos (by omega), decide_eq_false h, Bool.false_and]
    exact ⟨_, rfl, by simp⟩

/-- For every room and input: the serialisation of a list of tokens that is not empty, and whose
expansion fits the room and an `int`, is decoded to that expansion; and whatever the input is, the
decoder returns, having read bytes of the input only and written no more than the room. -/
theorem decode_correct (room : RleRoom) (m : Nat → UInt8) :
    (∀ ts, ts ≠ [] → Holds m 0 (serialise ts) → (expansion ts).length ≤ room.outlen →
      (expansion ts).length < 2 ^ 31 →
        ∃ reads, room.decode m (serialise ts).length =
          some ⟨.ok, (expansion ts).length, expansion ts, reads⟩) ∧
      ∀ inlen, ∃ r, room.decode m inlen = some r ∧ Within inlen r.reads ∧
        r.out.length ≤ room.outlen := by
  constructor
  · intro ts hne hm hroom hfits
    have htwo := two_le_serialise hne
    obtain ⟨reads, hr⟩ := @decodeLoop_serialise room m (serialise ts).length 0 0 ts (by omega) hm
      (by decide) (by rwa [Nat.zero_add]) (by rwa [Nat.zero_add])
    rw [Nat.zero_add] at hr
    exact ⟨reads, (decode_eq htwo).trans hr⟩
  · intro inlen
    by_cases h : 2 ≤ inlen
    · obtain ⟨r, hr, hin, hout, -⟩ := @decodeLoop_safe room m inlen 0 inlen 0 (by omega) (by decide)
        (Nat.zero_le _)
      rw [Nat.zero_add] at hin hout
      exact ⟨r, (decode_eq h).trans hr, hin, hout⟩
    · exact ⟨_, if_pos (by omega), within_nil, Nat.zero_le _⟩

theorem holds_getD (l : List UInt8) : Holds (fun i => l.getD i 0) 0 l := by
  intro i hi
  dsimp only
  rw [Nat.zero_add, List.getD_eq_getElem?_getD, List.getElem?_eq_getElem hi, Option.getD_some]

/-- A run and a block. -/
def sampleTokens : List RleToken :=
  [.run 3 7 (by decide) (by decide), .literal [1, 2] (by decide) (by decide)]

theorem decode_sampleTokens :
    (∃ reads, RleRoom.decode ⟨32, by decide, 5, by decide⟩ (fun i => (serialise sampleTokens).getD i 0)
        5 = some ⟨.ok, 5, [7, 7, 7, 1, 2], reads⟩) ∧
      ∃ r, RleRoom.decode ⟨32, by decide, 5, by decide⟩ (fun i => (serialise sampleTokens).getD i 0)
        4 = some r ∧ Within 4 r.reads ∧ r.out.length ≤ 5 :=
  ⟨(decode_correct ⟨32, by decide, 5, by decide⟩ _).1 sampleTokens (by decide) (holds_getD _)
      (by decide) (by decide),
    (decode_correct ⟨32, by decide, 5, by decide⟩ _).2 4⟩

/-- A long list of runs. -/
def longTokens (n : Nat) : List RleToken := List.replicate n (.run 127 0 (by decide) (by decide))

theorem length_longTokens (n : Nat) : (expansion (longTokens n)).length = n * 127 := by
  rw [expansion, longTokens, List.length_flatMap, List.map_replicate, List.sum_replicate_nat]
  rfl

theorem longTokens_ne_nil {n : Nat} (h : 0 < n) : longTokens n ≠ [] := by
  rw [longTokens, ne_eq, List.replicate_eq_nil_iff]
  omega

/-- More than an `int` counts is not decoded, whatever the room. -/
theorem decode_longTokens (room : RleRoom) {n : Nat} (h : 2 ^ 31 ≤ n * 127) :
    ∃ r, room.decode (fun i => (serialise (longTokens n)).getD i 0) (serialise (longTokens n)).length =
      some r ∧ r.ret = .enospc := by
  have htwo := two_le_serialise (@longTokens_ne_nil n (by omega))
  rw [decode_eq htwo]
  exact decodeLoop_overflow (by omega) (holds_getD _) (by decide)
    (by rwa [length_longTokens, Nat.zero_add])

/-- An empty list of tokens is rejected, and a long one is not decoded, though it fits. -/
theorem decode_misses :
    (RleRoom.decode ⟨32, by decide, 16, by decide⟩ (fun i => (serialise []).getD i 0)
        (serialise []).length = some ⟨.einval, 16, [], []⟩) ∧
      (expansion (longTokens (2 ^ 25))).length ≤ 2 ^ 32 ∧
      ∃ r, RleRoom.decode ⟨64, by decide, 2 ^ 32, by decide⟩
        (fun i => (serialise (longTokens (2 ^ 25))).getD i 0) (serialise (longTokens (2 ^ 25))).length =
          some r ∧ r.ret = .enospc := by
  refine ⟨rfl, ?_, decode_longTokens _ (by decide)⟩
  rw [length_longTokens]
  decide

end Decode

end Lede.RouterBoot
