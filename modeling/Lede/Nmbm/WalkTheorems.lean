/-
Lede.Nmbm.WalkTheorems — the walks over the good blocks, and the blocks that are reserved with them.

A walk finds the good block at a place of the list of good blocks (`goodBlocks`), on the way up from
the start of the list and on the way down from its end. The last block of the chip is the highest
limit there is, so a walk up never gets to it.

A count is a `u32` that the walk takes as an `int32_t`, which makes one of 2^31 or more negative.
-/
import Lede.Nmbm.UnmapTheorems

namespace Lede.Nmbm

open Lede.Lib

/-! ## Walks -/

/-- The good blocks of `lo ≤ ba < hi`, in order. -/
def goodBlocks (ni : NmbmInstance) (lo hi : Nat) : List Nat :=
  (List.range' lo (hi - lo)).filter (isGood ni)

section Walks

variable (ni : NmbmInstance)

theorem walkAscLoop_nth (n ba count : Nat) :
    walkAscLoop ni n ba count = ((List.range' ba n).filter (isGood ni))[count]? := by
  induction n generalizing ba count with
  | zero => simp [walkAscLoop]
  | succ n ih =>
    rw [walkAscLoop, List.range'_succ, List.filter_cons]
    cases hg : isGood ni ba with
    | false =>
      simp only [Bool.false_eq_true, if_false]
      rw [if_neg (by omega), ih]
    | true =>
      simp only [if_true]
      cases count with
      | zero => simp
      | succ count =>
        have hpred : ((count + 1 : Nat) : Int) - 1 = count := by omega
        rw [hpred, if_neg (by omega), ih, List.getElem?_cons_succ]

theorem walkDescLoop_nth (n lo count : Nat) :
    walkDescLoop ni n (lo + n) count =
      ((List.range' (lo + 1) n).filter (isGood ni)).reverse[count]? := by
  induction n generalizing count with
  | zero => simp [walkDescLoop]
  | succ n ih =>
    have hpos : lo + (n + 1) - 1 = lo + n := by omega
    have htop : lo + 1 + n = lo + (n + 1) := by omega
    rw [walkDescLoop, List.range'_1_concat, List.filter_append, List.reverse_append, hpos, htop,
      List.filter_cons, List.filter_nil]
    cases hg : isGood ni (lo + (n + 1)) with
    | false =>
      simp only [Bool.false_eq_true, if_false, List.reverse_nil, List.nil_append]
      rw [if_neg (by omega), ih]
    | true =>
      simp only [if_true, List.reverse_singleton, List.singleton_append]
      cases count with
      | zero => simp
      | succ count =>
        have hpred : ((count + 1 : Nat) : Int) - 1 = count := by omega
        rw [hpred, if_neg (by omega), ih, List.getElem?_cons_succ]

end Walks

variable {d : NmbmDesc} {ni : NmbmInstance}

/-- A walk up finds the good block behind `count` others, up to the last block of the chip. -/
theorem nmbmBlockWalkAsc_nth (ba count limit : Nat) :
    nmbmBlockWalkAsc d ni ba count limit =
      (goodBlocks ni ba (min limit (d.blockCount - 1)))[count]? := by
  have hmin : (if limit ≥ d.blockCount then d.blockCount - 1 else limit) =
      min limit (d.blockCount - 1) := by
    split <;> omega
  simp only [nmbmBlockWalkAsc, hmin]
  exact walkAscLoop_nth ni _ ba count

/-- A walk down finds the good block before `count` others. -/
theorem nmbmBlockWalkDesc_nth {ba : Nat} (hba : ba < d.blockCount) (count limit : Nat) :
    nmbmBlockWalkDesc d ni ba count limit =
      (goodBlocks ni (limit + 1) (ba + 1)).reverse[count]? := by
  have hlim : ba - (if limit ≥ d.blockCount then d.blockCount - 1 else limit) = ba - limit := by
    split <;> omega
  simp only [nmbmBlockWalkDesc, hlim]
  rw [goodBlocks, Nat.add_sub_add_right]
  by_cases hle : limit ≤ ba
  · have hsum : limit + (ba - limit) = ba := by omega
    have hloop := walkDescLoop_nth ni (ba - limit) limit count
    rwa [hsum] at hloop
  · have hzero : ba - limit = 0 := by omega
    simp [hzero, walkDescLoop]

/-! ## Reservations -/

/-- `nmbm_block_walk`; its count and its limit are `int32_t`. -/
def nmbmBlockWalk (d : NmbmDesc) (ni : NmbmInstance) (ascending : Bool) (ba : Nat) (count : Int)
    (limit : BitVec 32) : Option Nat :=
  if ascending then nmbmBlockWalkAsc d ni ba count limit.toNat
  else nmbmBlockWalkDesc d ni ba count limit.toNat

/-- `while (nblocks >= min_count)` of `nmbm_try_reserve_blocks`, with `n` counts left. -/
def reserveLoop (d : NmbmDesc) (ni : NmbmInstance) (ba : Nat) (limit : BitVec 32) :
    Nat → Int → Option Nat
  | 0, _ => none
  | n + 1, nblocks =>
    match nmbmBlockWalk d ni true ba nblocks limit with
    | some nba => some nba
    | none => reserveLoop d ni ba limit n (nblocks - 1)

/-- `nmbm_try_reserve_blocks`; its callers have a `min_count` of 0. -/
def tryReserveBlocks (d : NmbmDesc) (ni : NmbmInstance) (ba count : BitVec 32)
    (minCount limit : BitVec 32) : Option Nat :=
  reserveLoop d ni ba.toNat limit (count.toInt - minCount.toInt + 1).toNat count.toInt

/-- The first count that a walk succeeds with. -/
def Reserved (d : NmbmDesc) (ni : NmbmInstance) (ba : Nat) (limit : BitVec 32) (lo hi : Int) :
    Option Nat → Prop
  | some nba => ∃ n, lo ≤ n ∧ n ≤ hi ∧ nmbmBlockWalk d ni true ba n limit = some nba ∧
      ∀ m, n < m → m ≤ hi → nmbmBlockWalk d ni true ba m limit = none
  | none => ∀ n, lo ≤ n → n ≤ hi → nmbmBlockWalk d ni true ba n limit = none

theorem reserveLoop_reserved (ba : Nat) (limit : BitVec 32) (n : Nat) (nblocks : Int) :
    Reserved d ni ba limit (nblocks - n + 1) nblocks (reserveLoop d ni ba limit n nblocks) := by
  induction n generalizing nblocks with
  | zero =>
    intro m hlo hhi
    omega
  | succ n ih =>
    rw [reserveLoop]
    cases hw : nmbmBlockWalk d ni true ba nblocks limit with
    | some nba => exact ⟨nblocks, by omega, le_rfl, hw, fun m hm hle => by omega⟩
    | none =>
      have hrest := ih (nblocks - 1)
      have hcount : ∀ m : Int, m ≤ nblocks → m ≤ nblocks - 1 ∨ m = nblocks := fun m hm => by omega
      simp only
      generalize reserveLoop d ni ba limit n (nblocks - 1) = r at hrest ⊢
      cases r with
      | some nba =>
        obtain ⟨m, hlo, hhi, hm, hnone⟩ := hrest
        refine ⟨m, by omega, by omega, hm, fun m' hlt hle => ?_⟩
        obtain hle | rfl := hcount m' hle
        · exact hnone m' hlt hle
        · exact hw
      | none =>
        intro m hlo hhi
        obtain hle | rfl := hcount m hhi
        · exact hrest m (by omega) hle
        · exact hw

theorem tryReserveBlocks_reserved (ba count minCount limit : BitVec 32) :
    Reserved d ni ba.toNat limit minCount.toInt count.toInt
      (tryReserveBlocks d ni ba count minCount limit) := by
  have hloop : Reserved d ni ba.toNat limit _ count.toInt (tryReserveBlocks d ni ba count minCount
      limit) :=
    reserveLoop_reserved ba.toNat limit (count.toInt - minCount.toInt + 1).toNat count.toInt
  by_cases hle : minCount.toInt ≤ count.toInt + 1
  · have hlo : count.toInt - ((count.toInt - minCount.toInt + 1).toNat : Int) + 1 =
        minCount.toInt := by omega
    rwa [hlo] at hloop
  · have hzero : (count.toInt - minCount.toInt + 1).toNat = 0 := by omega
    rw [tryReserveBlocks, hzero]
    intro n hlo hhi
    omega

/-- With a `min_count` of 0 it is what the tables are placed with. -/
theorem tryReserveBlocks_zero (ba count limit : BitVec 32) (h : count.toNat < 2 ^ 31) :
    tryReserveBlocks d ni ba count 0 limit =
      nmbmTryReserveBlocks d ni ba.toNat count.toNat limit.toNat := by
  have hint : count.toInt = count.toNat := BitVec.toInt_eq_toNat_of_lt (by omega)
  have hfuel : (count.toInt - (0 : BitVec 32).toInt + 1).toNat = count.toNat + 1 := by
    have hzero : (0 : BitVec 32).toInt = 0 := by decide
    omega
  rw [tryReserveBlocks, hfuel, hint]
  generalize count.toNat = n
  induction n with
  | zero =>
    rw [reserveLoop, nmbmTryReserveBlocks]
    simp only [nmbmBlockWalk, if_true, reserveLoop, Nat.cast_zero]
    cases nmbmBlockWalkAsc d ni ba.toNat 0 limit.toNat <;> rfl
  | succ n ih =>
    have hpred : ((n + 1 : Nat) : Int) - 1 = n := by omega
    rw [reserveLoop, nmbmTryReserveBlocks, hpred, ih]
    rfl

/-- The walks count the good blocks strictly inside their limit, where a limit up is at most the
last block, and a reservation is the largest that a walk succeeds with. A `min_count` of -2^31 is
left out: no `int32_t` is less. -/
theorem goodBlockWalk (d : NmbmDesc) (ni : NmbmInstance) (ba count minCount limit : BitVec 32) :
    (count.toNat < 2 ^ 31 → nmbmBlockWalkAsc d ni ba.toNat count.toInt limit.toNat =
      (goodBlocks ni ba.toNat (min limit.toNat (d.blockCount - 1)))[count.toNat]?) ∧
    (count.toNat < 2 ^ 31 → ba.toNat < d.blockCount →
      nmbmBlockWalkDesc d ni ba.toNat count.toInt limit.toNat =
        (goodBlocks ni (limit.toNat + 1) (ba.toNat + 1)).reverse[count.toNat]?) ∧
    (-2 ^ 31 < minCount.toInt → Reserved d ni ba.toNat limit minCount.toInt count.toInt
      (tryReserveBlocks d ni ba count minCount limit)) := by
  have hint : count.toNat < 2 ^ 31 → count.toInt = count.toNat := fun h =>
    BitVec.toInt_eq_toNat_of_lt (by omega)
  refine ⟨fun h => ?_, fun h hba => ?_, fun _ => tryReserveBlocks_reserved ba count minCount limit⟩
  · rw [hint h]
    exact nmbmBlockWalkAsc_nth ba.toNat count.toNat limit.toNat
  · rw [hint h]
    exact nmbmBlockWalkDesc_nth hba count.toNat limit.toNat

/-- On a chip whose blocks are good. -/
theorem goodBlockWalk_sixteen :
    nmbmBlockWalkAsc oneBlockChip (nmbmInitStructure oneBlockChip) 3 2 10 = some 5 ∧
      nmbmBlockWalkDesc oneBlockChip (nmbmInitStructure oneBlockChip) 9 2 3 = some 7 ∧
      Reserved oneBlockChip (nmbmInitStructure oneBlockChip) 3 10 0 2
        (tryReserveBlocks oneBlockChip (nmbmInitStructure oneBlockChip) 3 2 0 10) := by
  obtain ⟨hasc, hdesc, hreserve⟩ :=
    goodBlockWalk oneBlockChip (nmbmInitStructure oneBlockChip) 3 2 0 10
  obtain ⟨-, hdown, -⟩ := goodBlockWalk oneBlockChip (nmbmInitStructure oneBlockChip) 9 2 0 3
  refine ⟨(hasc (by decide)).trans (by decide +kernel),
    (hdown (by decide) (by decide)).trans (by decide +kernel), hreserve (by decide)⟩

/-- A walk up stops before the last block whatever the limit is, one with a count that is negative
stops at its first block, bad or not, and one down from beyond the chip looks beyond the table. -/
theorem walk_not_nth :
    (nmbmBlockWalkAsc oneBlockChip (nmbmInitStructure oneBlockChip) 15 0 16 = none ∧
      isGood (nmbmInitStructure oneBlockChip) 15 = true) ∧
    (nmbmBlockWalkAsc oneBlockChip (setBlockState (nmbmInitStructure oneBlockChip) 3 blockStBad) 3
        (0xffffffff#32).toInt 10 = some 3 ∧
      isGood (setBlockState (nmbmInitStructure oneBlockChip) 3 blockStBad) 3 = false) ∧
    nmbmBlockWalkDesc oneBlockChip
      { nmbmInitStructure oneBlockChip with blockState := fun _ => -1 } 16 0 0 = some 16 := by
  decide +kernel

end Lede.Nmbm
