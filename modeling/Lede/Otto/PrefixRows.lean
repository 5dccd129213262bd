/-
Lede.Otto.PrefixRows — moves of prefix route rows on the RTL930x (`rtl83xx/l3.c`).

The rows of one address family are kept dense, so a route that comes or goes shifts a block of
rows by one. Source and destination overlap, and the copy runs away from the direction of travel:
from the last row where the block goes up, from the first where it goes down.
-/
import Lede.Lib.Moves
import Lede.Otto.Table

namespace Lede.Otto

open Lede.Lib.Moves

/-- `RTL9300_TBL_L3_PREFIX_ROUTE_IPUC`, and the width and rows of its `otto_table_maps` entry. -/
def prefixRouteId : Int := 1060
def prefixRouteWords : Nat := 11
def prefixRouteRows : Nat := 512

abbrev PrefixTable := SwitchTable prefixRouteWords prefixRouteRows

/-- The answers to the two accesses of one row. -/
structure RowRun where
  read : ReadRun prefixRouteWords := {}
  write : WriteRun prefixRouteWords := {}

/-- The row of the `n`th turn, counted from the first row of the range. -/
def moveTurn (dst src count : Int32) (n : Nat) : Int32 :=
  if dst > src then count - 1 - Int32.ofNat n else Int32.ofNat n

/-- The loop of `otto_l3_930x_route_rows_move` from turn `n` on, with `left` turns to go; `runs n`
has what the accesses of turn `n` are answered. -/
def routeRowsMoveFrom (handle : Int) (dst src count : Int32) (runs : Nat → RowRun) :
    (left n : Nat) → PrefixTable → Int × PrefixTable
  | 0, _, t => (0, t)
  | left + 1, n, t =>
    let i := moveTurn dst src count n
    let (err, data) := tableRead t handle (src + i).toInt (runs n).read
    let unread := err ≠ 0
    let (err, t) :=
      if err = 0 then tableWrite t handle (dst + i).toInt data (runs n).write else (err, t)
    if err ≠ 0 then (if unread ∧ n = 0 then -EAGAIN else - EIO, t)
    else routeRowsMoveFrom handle dst src count runs left (n + 1) t

/-- `otto_l3_930x_route_rows_move` -/
def routeRowsMove (t : PrefixTable) (dst src count : Int32) (runs : Nat → RowRun) :
    Int × PrefixTable :=
  let handle := tableAcquire t.bound prefixRouteId
  if handle < 0 then (-EAGAIN, t)
  else routeRowsMoveFrom handle dst src count runs count.toInt.toNat 0 t

/-! ## Turns -/

/-- What `moveTurn` is for the turns the loop makes. -/
def turnOf (down : Bool) (count n : Nat) : Nat := if down then count - 1 - n else n

theorem turnOf_lt (down : Bool) {count n : Nat} (hn : n < count) : turnOf down count n < count := by
  unfold turnOf
  split <;> omega

theorem turnOf_turnOf {down : Bool} {count n : Nat} (hn : n < count) :
    turnOf down count (turnOf down count n) = n := by
  unfold turnOf
  split <;> omega

theorem Int32.toInt_ofNat_lt {n : Nat} {a : Int32} (h : (n : Int) < a.toInt) :
    (Int32.ofNat n).toInt = n := by
  have ha := a.toInt_lt
  exact Int32.toInt_ofNat_of_lt (by omega)

theorem moveTurn_toInt (dst src : Int32) {count : Int32} {n : Nat} (hn : (n : Int) < count.toInt) :
    (moveTurn dst src count n).toInt = turnOf (src < dst) count.toInt.toNat n := by
  have hc := count.toInt_lt
  have hn' := Int32.toInt_ofNat_lt hn
  unfold moveTurn turnOf
  by_cases hd : src < dst
  · have h1 : (count - 1).toInt = count.toInt - 1 := by
      rw [Int32.toInt_sub]
      exact Int.bmod_eq_of_le (by simp; omega) (by simp; omega)
    rw [if_pos hd, if_pos (decide_eq_true hd), Int32.toInt_sub, h1, hn',
      Int.bmod_eq_of_le (by omega) (by omega)]
    omega
  · rw [if_neg hd, if_neg (by simpa using hd), hn']

/-- A sum that is a row number did not wrap. -/
theorem Int32.toInt_add_nonneg {a i : Int32} (hi : 0 ≤ i.toInt) (h : 0 ≤ (a + i).toInt) :
    (a + i).toInt = a.toInt + i.toInt := by
  have ha := a.le_toInt
  have ha' := a.toInt_lt
  have hi' := i.toInt_lt
  rw [Int32.toInt_add] at h ⊢
  rw [Int.bmod_def] at h ⊢
  split at h <;> split <;> omega

/-! ## The move -/

/-- The rows from `dst` on hold what those from `src` on held, and the others what they held. -/
structure RowsMoved (before after : PrefixTable) (dst src count : Int) : Prop where
  inside : 0 < count → (0 ≤ dst ∧ dst + count ≤ prefixRouteRows) ∧
    (0 ≤ src ∧ src + count ≤ prefixRouteRows)
  moved : ∀ (k : Nat) (d s : Fin prefixRouteRows), (k : Int) < count → (d : Int) = dst + k →
    (s : Int) = src + k → after.rows d = before.rows s
  kept : ∀ r : Fin prefixRouteRows, ¬ (dst ≤ r ∧ (r : Int) < dst + count) →
    after.rows r = before.rows r

section Loop

variable (dst src count : Int32) (runs : Nat → RowRun)

/-- The rows that turn `n` writes and reads, as numbers. -/
def dstTurn (n : Nat) : Int := dst.toInt + turnOf (src < dst) count.toInt.toNat n
def srcTurn (n : Nat) : Int := src.toInt + turnOf (src < dst) count.toInt.toNat n

/-- The copy runs away from the direction of travel. -/
theorem unhindered_turns :
    Unhindered (dstTurn dst src count) (srcTurn dst src count) count.toInt.toNat where
  source := by
    intro j k hjk hk
    unfold dstTurn srcTurn turnOf
    by_cases hd : src < dst
    · have hlt := Int32.lt_iff_toInt_lt.1 hd
      simp only [hd, decide_true, if_true]
      omega
    · have hge := mt Int32.lt_iff_toInt_lt.2 hd
      simp only [hd, decide_false]
      simp only [Bool.false_eq_true, if_false]
      omega
  target := by
    intro j k hjk hk
    unfold dstTurn turnOf
    split <;> omega

variable {dst src count runs} {before t : PrefixTable} {handle : Int} {left n : Nat}

/-- The ways a turn ends: both accesses went through, the row was not read, or it was not
written. -/
theorem routeRowsMoveFrom_cases {r : Int × PrefixTable}
    (h : routeRowsMoveFrom handle dst src count runs (left + 1) n t = r) :
    (∃ v t', tableRead t handle (src + moveTurn dst src count n).toInt (runs n).read = (0, v) ∧
      tableWrite t handle (dst + moveTurn dst src count n).toInt v (runs n).write = (0, t') ∧
      routeRowsMoveFrom handle dst src count runs left (n + 1) t' = r) ∨
    r = (if n = 0 then -EAGAIN else - EIO, t) ∨ ∃ t', r = (- EIO, t') := by
  unfold routeRowsMoveFrom at h
  dsimp only at h
  cases hread : tableRead t handle (src + moveTurn dst src count n).toInt (runs n).read with
  | mk err v =>
    rw [hread] at h
    by_cases herr : err = 0
    · subst herr
      simp only [if_true] at h
      cases hwrite :
          tableWrite t handle (dst + moveTurn dst src count n).toInt v (runs n).write with
      | mk err' t' =>
        rw [hwrite] at h
        by_cases herr' : err' = 0
        · subst herr'
          exact .inl ⟨v, t', rfl, hwrite, by simpa using h⟩
        · exact .inr (.inr ⟨t', by simpa [herr'] using h.symm⟩)
    · exact .inr (.inl (by simpa [herr] using h.symm))

theorem neg_eagain_ne_zero : (-EAGAIN : Int) ≠ 0 := by decide
theorem neg_eio_ne_zero : (- EIO : Int) ≠ 0 := by decide
theorem neg_eio_ne_again : (- EIO : Int) ≠ -EAGAIN := by decide

/-- What the table is after `n` turns. -/
structure MovedSoFar (dst src count : Int32) (before t : PrefixTable) (n : Nat) : Prop where
  cells : Relocated before.cell t.cell (dstTurn dst src count) (srcTurn dst src count) n
  inside : ∀ k, k < n → (∃ d : Fin prefixRouteRows, (d : Int) = dstTurn dst src count k) ∧
    ∃ s : Fin prefixRouteRows, (s : Int) = srcTurn dst src count k

theorem MovedSoFar.zero : MovedSoFar dst src count before before 0 where
  cells := .zero _ _ _
  inside := by simp

/-- A sum with the row of a turn, when it is a row of the table. -/
theorem turnRow_eq {a : Int32} {row : Fin prefixRouteRows} (hn : (n : Int) < count.toInt)
    (h : (row : Int) = (a + moveTurn dst src count n).toInt) :
    (row : Int) = a.toInt + turnOf (src < dst) count.toInt.toNat n := by
  have hturn := moveTurn_toInt dst src hn
  have hnonneg : 0 ≤ (moveTurn dst src count n).toInt := by omega
  rw [h, Int32.toInt_add_nonneg hnonneg (by omega), hturn]

/-- One more row. -/
theorem MovedSoFar.step {t' : PrefixTable} {v : Vector (BitVec 32) prefixRouteWords}
    (h : MovedSoFar dst src count before t n) (hn : (n : Int) < count.toInt)
    (hread : tableRead t handle (src + moveTurn dst src count n).toInt (runs n).read = (0, v))
    (hwrite : tableWrite t handle (dst + moveTurn dst src count n).toInt v (runs n).write
      = (0, t')) :
    MovedSoFar dst src count before t' (n + 1) := by
  obtain ⟨s, hs, rfl⟩ := tableRead_ok hread
  obtain ⟨d, hd, rfl⟩ := tableWrite_ok hwrite
  have hs' : (s : Int) = srcTurn dst src count n := turnRow_eq hn hs
  have hd' : (d : Int) = dstTurn dst src count n := turnRow_eq hn hd
  have hlt : n < count.toInt.toNat := by omega
  constructor
  · have hstep := h.cells.step (unhindered_turns dst src count) hlt
    rwa [← hs', ← hd', SwitchTable.cell_row, ← SwitchTable.cell_put] at hstep
  · intro k hk
    rcases Nat.lt_succ_iff_lt_or_eq.mp hk with hk | rfl
    · exact h.inside k hk
    · exact ⟨⟨d, hd'⟩, s, hs'⟩

/-- The loop returns 0 only at its end. -/
theorem routeRowsMoveFrom_ok (hleft : n + left = count.toInt.toNat)
    (h : MovedSoFar dst src count before t n)
    (hret : (routeRowsMoveFrom handle dst src count runs left n t).1 = 0) :
    MovedSoFar dst src count before
      (routeRowsMoveFrom handle dst src count runs left n t).2 count.toInt.toNat := by
  induction left generalizing n t with
  | zero =>
    obtain rfl : n = count.toInt.toNat := by omega
    exact h
  | succ left ih =>
    rcases routeRowsMoveFrom_cases rfl with ⟨v, t', hread, hwrite, hrest⟩ | hrest | ⟨t', hrest⟩
    · rw [← hrest] at hret ⊢
      exact ih (by omega) (h.step (by omega) hread hwrite) hret
    · rw [hrest] at hret
      split at hret
      · exact absurd hret neg_eagain_ne_zero
      · exact absurd hret neg_eio_ne_zero
    · rw [hrest] at hret
      exact absurd hret neg_eio_ne_zero

/-- The loop returns `-EAGAIN` only from the read of its first turn. -/
theorem routeRowsMoveFrom_again
    (hret : (routeRowsMoveFrom handle dst src count runs left n t).1 = -EAGAIN) :
    n = 0 ∧ (routeRowsMoveFrom handle dst src count runs left n t).2 = t := by
  induction left generalizing n t with
  | zero => exact absurd hret (by simp [routeRowsMoveFrom, EAGAIN])
  | succ left ih =>
    rcases routeRowsMoveFrom_cases rfl with ⟨v, t', hread, hwrite, hrest⟩ | hrest | ⟨t', hrest⟩
    · rw [← hrest] at hret
      exact absurd (ih hret).1 (by simp)
    · rw [hrest] at hret ⊢
      refine ⟨?_, rfl⟩
      by_contra hn
      rw [if_neg hn] at hret
      exact absurd hret neg_eio_ne_again
    · rw [hrest] at hret
      exact absurd hret neg_eio_ne_again

/-- A loop over rows of the table whose accesses all go through comes to its end. -/
theorem routeRowsMoveFrom_complete (hreg : tableReg t.bound handle = true)
    (hruns : ∀ k, (runs k).read.Ok ∧ (runs k).write.Ok)
    (hdst : 0 ≤ dst.toInt ∧ dst.toInt + count.toInt ≤ prefixRouteRows)
    (hsrc : 0 ≤ src.toInt ∧ src.toInt + count.toInt ≤ prefixRouteRows)
    (hleft : n + left = count.toInt.toNat) :
    (routeRowsMoveFrom handle dst src count runs left n t).1 = 0 := by
  induction left generalizing n t with
  | zero => rfl
  | succ left ih =>
    have hn : (n : Int) < count.toInt := by omega
    have hturn := moveTurn_toInt dst src hn
    have hlt := turnOf_lt (src < dst) (show n < count.toInt.toNat by omega)
    have hadd : ∀ a : Int32, 0 ≤ a.toInt → a.toInt + count.toInt ≤ prefixRouteRows →
        ∃ row : Fin prefixRouteRows, (a + moveTurn dst src count n).toInt = (row : Int) := by
      intro a ha hfit
      have hrows : prefixRouteRows = 512 := rfl
      refine ⟨⟨(a.toInt + turnOf (src < dst) count.toInt.toNat n).toNat, by omega⟩, ?_⟩
      rw [Int32.toInt_add, hturn, Int.bmod_eq_of_le (by omega) (by omega)]
      simp only
      omega
    obtain ⟨s, hs⟩ := hadd src hsrc.1 hsrc.2
    obtain ⟨d, hd⟩ := hadd dst hdst.1 hdst.2
    unfold routeRowsMoveFrom
    dsimp only
    rw [hs, tableRead_of_ok hreg (hruns n).1]
    simp only [if_true]
    rw [hd, tableWrite_of_ok hreg (hruns n).2]
    simp only [ne_eq, not_true, if_false]
    exact ih hreg (by omega)

end Loop

/-- In whichever direction the copy ran. -/
theorem MovedSoFar.rowsMoved {dst src count : Int32} {before after : PrefixTable}
    (h : MovedSoFar dst src count before after count.toInt.toNat) :
    RowsMoved before after dst.toInt src.toInt count.toInt := by
  have hcells : Relocated before.cell after.cell (fun k => dst.toInt + (k : Nat))
      (fun k => src.toInt + (k : Nat)) count.toInt.toNat := by
    refine h.cells.reorder (turnOf (src < dst) count.toInt.toNat) (fun k hk => turnOf_lt _ hk)
      (fun k hk => turnOf_turnOf hk) ?_ ?_ <;>
    · intro k hk
      simp only [dstTurn, srcTurn, turnOf_turnOf hk]
  have hinside : ∀ k, k < count.toInt.toNat →
      (∃ d : Fin prefixRouteRows, (d : Int) = dst.toInt + k) ∧
        ∃ s : Fin prefixRouteRows, (s : Int) = src.toInt + k := by
    intro k hk
    have hk' := h.inside _ (turnOf_lt (src < dst) hk)
    simpa only [dstTurn, srcTurn, turnOf_turnOf hk] using hk'
  constructor
  · intro hpos
    obtain ⟨⟨d, hd⟩, s, hs⟩ := hinside 0 (by omega)
    obtain ⟨⟨d', hd'⟩, s', hs'⟩ := hinside (count.toInt.toNat - 1) (by omega)
    omega
  · intro k d s hk hd hs
    have hmoved := hcells.moved k (by omega)
    rw [← hd, ← hs, SwitchTable.cell_row, SwitchTable.cell_row] at hmoved
    exact Option.some.inj hmoved
  · intro r hr
    have hkept := hcells.kept r (by intro k hk; omega)
    rw [SwitchTable.cell_row, SwitchTable.cell_row] at hkept
    exact Option.some.inj hkept

/-- A move that returns 0 moved the rows, in either direction, and one that returns `-EAGAIN`
wrote none, whichever accesses fail. -/
theorem routeRowsMove_spec (t : PrefixTable) (dst src count : Int32) (runs : Nat → RowRun) :
    ((routeRowsMove t dst src count runs).1 = 0 →
      RowsMoved t (routeRowsMove t dst src count runs).2 dst.toInt src.toInt count.toInt) ∧
    ((routeRowsMove t dst src count runs).1 = -EAGAIN →
      (routeRowsMove t dst src count runs).2 = t) := by
  unfold routeRowsMove
  dsimp only
  split
  · exact ⟨fun h => absurd h neg_eagain_ne_zero, fun _ => rfl⟩
  · refine ⟨fun hret => ?_, fun hret => (routeRowsMoveFrom_again hret).2⟩
    exact (routeRowsMoveFrom_ok (by simp) .zero hret).rowsMoved

/-- A move inside the table that no access fails returns 0. -/
theorem routeRowsMove_complete {t : PrefixTable} {dst src count : Int32} {runs : Nat → RowRun}
    (hbound : t.bound = true) (hruns : ∀ k, (runs k).read.Ok ∧ (runs k).write.Ok)
    (hdst : 0 ≤ dst.toInt ∧ dst.toInt + count.toInt ≤ prefixRouteRows)
    (hsrc : 0 ≤ src.toInt ∧ src.toInt + count.toInt ≤ prefixRouteRows) :
    (routeRowsMove t dst src count runs).1 = 0 := by
  obtain ⟨hacquire, hreg⟩ := tableReg_acquire prefixRouteId (by decide)
  unfold routeRowsMove
  rw [hbound, hacquire]
  exact routeRowsMoveFrom_complete (hbound ▸ hreg) hruns hdst hsrc (by simp)

/-- A table whose rows hold their numbers. -/
def numberedRows : PrefixTable where
  bound := true
  rows := fun r => Vector.replicate prefixRouteWords (BitVec.ofNat 32 r)

/-- The block of rows 1 to 3 pushed up by one and nothing failing, and the same move when its
first read finds the engine busy. -/
theorem numberedRows_moved :
    RowsMoved numberedRows (routeRowsMove numberedRows 2 1 3 fun _ => {}).2 2 1 3 ∧
      (routeRowsMove numberedRows 2 1 3 fun _ => { read.exec.idle := -145 }).2 = numberedRows :=
  ⟨(routeRowsMove_spec numberedRows 2 1 3 fun _ => {}).1 (by decide),
    (routeRowsMove_spec numberedRows 2 1 3 fun _ => { read.exec.idle := -145 }).2 (by decide)⟩

end Lede.Otto
