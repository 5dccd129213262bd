/-
Lede.Mtd.DumpTheorems — what `mtd_dump` leaves out.

The blocks are those from the part offset on, and the bad ones among them are to be left out. The
loop asks for the block as many blocks from the start of the device as it has read; and with the
last chunk it goes through a bad block in steps of the chunk. So the dump is right exactly where
the answers are the same, and where these steps end with the bad blocks (`mtdDump_iff`).
-/
import Lede.Mtd.Dump

namespace Lede.Mtd

/-! ## Good blocks -/

section Good

variable {c : Cfg} (ch : Chip c)

/-- The blocks from the part offset on. -/
def Chip.blocks : Nat := (ch.size - c.partOffset) / c.erasesize

/-- Block `i` of them is good. -/
def Chip.good (i : Nat) : Bool := !ch.isBad (c.partOffset + i * c.erasesize)

/-- The good ones among the first `i`. -/
def Chip.goodBelow (i : Nat) : Nat := (List.range i).countP ch.good

/-- The addresses of the good ones among `k` blocks from `i` on. -/
def Chip.goodFrom (i k : Nat) : List Nat :=
  ((List.range' i k).filter ch.good).flatMap fun j =>
    List.range' (c.partOffset + j * c.erasesize) c.erasesize

/-- Where a dump of `n` bytes is right. -/
structure Chip.DumpsRight (n : Nat) : Prop where
  /-- Every block that is asked for in the place of another one is as bad as that one. -/
  queries : ∀ i, ch.goodBelow i * c.erasesize < n →
    ch.isBad (i * c.erasesize) = ch.isBad (c.partOffset + i * c.erasesize)
  /-- The bad blocks in front of the last chunk are a number of chunks long. -/
  tail : n % c.erasesize ≠ 0 → ∀ first last, (∀ i < first, ch.goodBelow i < n / c.erasesize) →
    ch.goodBelow first = n / c.erasesize → ch.goodBelow last = n / c.erasesize →
    ch.good last = true → n % c.erasesize ∣ (last - first) * c.erasesize

variable {ch} {i j k : Nat}

theorem Chip.goodBelow_succ (i : Nat) :
    ch.goodBelow (i + 1) = ch.goodBelow i + if ch.good i = true then 1 else 0 := by
  simp [goodBelow, List.range_succ]

theorem Chip.goodBelow_le (h : i ≤ j) : ch.goodBelow i ≤ ch.goodBelow j := by
  induction h with
  | refl => exact Nat.le_refl _
  | step _ ih =>
    rw [goodBelow_succ]
    omega

/-- Bad blocks do not count. -/
theorem Chip.goodBelow_eq (h : i ≤ j) (hbad : ∀ l, i ≤ l → l < j → ch.good l = false) :
    ch.goodBelow j = ch.goodBelow i := by
  induction h with
  | refl => rfl
  | step hle ih =>
    rw [goodBelow_succ, hbad _ hle (Nat.lt_succ_self _),
      ih fun l hl hlt => hbad l hl (Nat.lt_succ_of_lt hlt)]
    rfl

theorem Chip.goodFrom_succ (i k : Nat) : ch.goodFrom i (k + 1) =
    (if ch.good i = true then List.range' (c.partOffset + i * c.erasesize) c.erasesize else []) ++
      ch.goodFrom (i + 1) k := by
  unfold goodFrom
  rw [List.range'_succ]
  by_cases hi : ch.good i = true <;> simp [hi]

theorem Chip.goodFrom_ge {p : Nat} (hp : p ∈ ch.goodFrom i k) :
    c.partOffset + i * c.erasesize ≤ p := by
  obtain ⟨j, hj, hp⟩ := List.mem_flatMap.mp hp
  have hij := (List.mem_range'_1.mp (List.mem_filter.mp hj).1).1
  have hmul := Nat.mul_le_mul_right c.erasesize hij
  have hp := (List.mem_range'_1.mp hp).1
  omega

theorem Chip.block_end (hj : j < ch.blocks) :
    c.partOffset + j * c.erasesize + c.erasesize ≤ ch.size := by
  have he := c.erasesize_pos
  have hmul := (Nat.le_div_iff_mul_le he).mp (Nat.succ_le_of_lt hj)
  rw [Nat.succ_mul] at hmul
  omega

/-- The first good block, and its first bytes. -/
theorem Chip.exists_good (hlt : ch.goodBelow i < ch.goodBelow (i + k)) :
    ∃ last, i ≤ last ∧ last < i + k ∧ ch.good last = true ∧
      (∀ j, i ≤ j → j < last → ch.good j = false) ∧
      ∀ r ≤ c.erasesize, (ch.goodFrom i k).take r =
        List.range' (c.partOffset + last * c.erasesize) r := by
  induction k generalizing i with
  | zero => exact absurd hlt (Nat.lt_irrefl _)
  | succ k ih =>
    cases hi : ch.good i with
    | true =>
      refine ⟨i, Nat.le_refl _, by omega, hi, fun j hj hji => by omega, fun r hr => ?_⟩
      rw [goodFrom_succ, if_pos hi, List.take_append_of_le_length (by simpa using hr),
        List.take_range'_of_length_ge hr]
    | false =>
      have hnext : ch.goodBelow (i + 1) = ch.goodBelow i := by
        rw [goodBelow_succ, hi]
        rfl
      have hsum : i + (k + 1) = i + 1 + k := by omega
      rw [← hnext, hsum] at hlt
      obtain ⟨last, hle, hlt, hgood, hbad, htake⟩ := ih hlt
      refine ⟨last, by omega, by omega, hgood, fun j hj hji => ?_, fun r hr => ?_⟩
      · rcases Nat.eq_or_lt_of_le hj with rfl | hj
        · exact hi
        · exact hbad j hj hji
      · rw [goodFrom_succ, hi]
        exact htake r hr

end Good

/-! ## The loop -/

section Loop

variable {c : Cfg} {ch : Chip c} {pos x y r size : Nat}

theorem Chip.blockIsBad_eq (h : x < ch.size) : ch.blockIsBad x = some (ch.isBad x) := by
  have hint := ch.size_lt
  unfold Device.blockIsBad Device.isBad
  by_cases hn : ch.nand = true
  · rw [if_pos hn, if_neg (by omega), hn, Bool.true_and]
  · rw [if_neg hn]
    simp [hn]

theorem Chip.isBad_block (x : Nat) :
    ch.isBad x = ch.isBad (x / c.erasesize * c.erasesize) := by
  unfold Device.isBad
  rw [ch.bad_block x]

/-- A chunk that is there: it is skipped or written. -/
theorem dumpLoop_step (hsize : 0 < size) (hx : x ≤ pos)
    (hend : pos + (if c.erasesize < size then c.erasesize else size) ≤ ch.size) :
    dumpLoop c ch.toDevice pos x size =
      let len := if c.erasesize < size then c.erasesize else size
      if ch.isBad x = true then dumpLoop c ch.toDevice (pos + len) (x + len) size
      else
        let rest := if 0 < size - len then
          dumpLoop c ch.toDevice (pos + len) (x + len) (size - len) else ([], true)
        (List.range' pos len ++ rest.1, rest.2) := by
  have he := c.erasesize_pos
  rw [dumpLoop]
  dsimp only
  generalize hlen : (if c.erasesize < size then c.erasesize else size) = len at hend ⊢
  have hpos : 0 < len := by
    rw [← hlen]
    split <;> omega
  rw [dif_neg (by omega), Chip.blockIsBad_eq (by omega)]
  cases ch.isBad x <;> rfl

theorem dumpLoop_end (hend : ch.size < pos + if c.erasesize < size then c.erasesize else size) :
    dumpLoop c ch.toDevice pos x size = ([], true) := by
  rw [dumpLoop]
  exact dif_pos (Or.inr hend)

/-- The loop returns, and writes nothing from in front of its position. -/
theorem dumpLoop_spec (hx : x ≤ pos) : (dumpLoop c ch.toDevice pos x size).2 = true ∧
    ∀ p ∈ (dumpLoop c ch.toDevice pos x size).1, pos ≤ p := by
  induction hn : ch.size - pos using Nat.strongRecOn generalizing pos x size with
  | _ n ih =>
    by_cases hsize : size = 0
    · rw [dumpLoop, dif_pos (Or.inl (by simp [hsize]))]
      simp
    have he := c.erasesize_pos
    by_cases hend : ch.size < pos + if c.erasesize < size then c.erasesize else size
    · rw [dumpLoop_end hend]
      simp
    · rw [dumpLoop_step (by omega) hx (by omega)]
      dsimp only
      generalize hlen : (if c.erasesize < size then c.erasesize else size) = len at hend ⊢
      have hpos : 0 < len := by
        rw [← hlen]
        split <;> omega
      have hrest : ∀ size, (dumpLoop c ch.toDevice (pos + len) (x + len) size).2 = true ∧
          ∀ p ∈ (dumpLoop c ch.toDevice (pos + len) (x + len) size).1, pos ≤ p := fun size => by
        obtain ⟨hret, hge⟩ := ih (ch.size - (pos + len)) (by omega)
          (Nat.add_le_add_right hx len) rfl
        exact ⟨hret, fun p hp => by have := hge p hp; omega⟩
      split
      · exact hrest size
      · have hwritten : ∀ p ∈ List.range' pos len, pos ≤ p :=
          fun p hp => (List.mem_range'_1.mp hp).1
        split
        · obtain ⟨hret, hge⟩ := hrest (size - len)
          refine ⟨hret, fun p hp => ?_⟩
          rcases List.mem_append.mp hp with hp | hp
          · exact hwritten p hp
          · exact hge p hp
        · exact ⟨rfl, fun p hp => hwritten p (by simpa using hp)⟩

end Loop

/-! ## The last chunk -/

section Tail

variable {c : Cfg} {ch : Chip c} {base x y r : Nat}

/-- In steps of `r` from `x` on, `y` is the first place that is not bad. -/
def Chip.StopsAt (ch : Chip c) (r x y : Nat) : Prop :=
  ∃ t, y = x + t * r ∧ (∀ t' < t, ch.isBad (x + t' * r) = true) ∧ ch.isBad y = false

theorem Chip.stopsAt_of_bad (hbad : ch.isBad x = true) :
    ch.StopsAt r x y ↔ ch.StopsAt r (x + r) y := by
  have hstep : ∀ t, x + r + t * r = x + (t + 1) * r := fun t => by
    rw [Nat.succ_mul]
    omega
  constructor
  · rintro ⟨t, rfl, hall, hgood⟩
    cases t with
    | zero =>
      rw [Nat.zero_mul, Nat.add_zero, hbad] at hgood
      cases hgood
    | succ t =>
      refine ⟨t, (hstep t).symm, fun t' ht' => ?_, hgood⟩
      rw [hstep]
      exact hall (t' + 1) (Nat.succ_lt_succ ht')
  · rintro ⟨t, rfl, hall, hgood⟩
    refine ⟨t + 1, hstep t, fun t' ht' => ?_, hgood⟩
    cases t' with
    | zero => rwa [Nat.zero_mul, Nat.add_zero]
    | succ t' =>
      rw [← hstep]
      exact hall t' (Nat.lt_of_succ_lt_succ ht')

theorem Chip.stopsAt_of_good (hgood : ch.isBad x = false) : ch.StopsAt r x y ↔ y = x := by
  constructor
  · rintro ⟨t, rfl, hall, -⟩
    cases t with
    | zero => rw [Nat.zero_mul, Nat.add_zero]
    | succ t =>
      have hbad := hall 0 (Nat.succ_pos t)
      rw [Nat.zero_mul, Nat.add_zero, hgood] at hbad
      cases hbad
  · rintro rfl
    exact ⟨0, by omega, fun _ h => absurd h (Nat.not_lt_zero _), hgood⟩

/-- The last chunk comes from the first place that is not bad. -/
theorem dumpLoop_tail (hpos : 0 < r) (hr : r ≤ c.erasesize) (hend : base + y + r ≤ ch.size) :
    (dumpLoop c ch.toDevice (base + x) x r).1 = List.range' (base + y) r ↔ ch.StopsAt r x y := by
  have hlen : (if c.erasesize < r then c.erasesize else r) = r := if_neg (by omega)
  have hne : ∀ a, List.range' a r ≠ [] := fun a h => by
    rw [List.range'_eq_nil_iff] at h
    omega
  induction hn : ch.size - x using Nat.strongRecOn generalizing x with
  | _ n ih =>
    by_cases hover : ch.size < base + x + r
    · -- there is no place behind `x` any more
      rw [dumpLoop_end (by rwa [hlen])]
      refine ⟨fun h => absurd h.symm (hne _), ?_⟩
      rintro ⟨t, rfl, -, -⟩
      omega
    · rw [dumpLoop_step hpos (by omega) (by rw [hlen]; omega)]
      dsimp only
      rw [hlen]
      cases hbad : ch.isBad x with
      | true =>
        rw [if_pos rfl, Chip.stopsAt_of_bad hbad, Nat.add_assoc]
        exact ih (ch.size - (x + r)) (by omega) rfl
      | false =>
        rw [if_neg Bool.false_ne_true, Chip.stopsAt_of_good hbad, Nat.sub_self,
          if_neg (Nat.lt_irrefl 0), List.append_nil]
        constructor
        · intro h
          have hhead := (List.range'_inj.mp h).2
          omega
        · rintro rfl
          rfl

/-- From a block on, the first place that is not bad is the start of a later block. -/
theorem Chip.stopsAt_block_iff {first last : Nat} (hpos : 0 < r) (hr : r ≤ c.erasesize)
    (hle : first ≤ last) : ch.StopsAt r (first * c.erasesize) (last * c.erasesize) ↔
      (∀ j, first ≤ j → j < last → ch.isBad (j * c.erasesize) = true) ∧
        ch.isBad (last * c.erasesize) = false ∧ r ∣ (last - first) * c.erasesize := by
  have he := c.erasesize_pos
  have hmul : last * c.erasesize = first * c.erasesize + (last - first) * c.erasesize := by
    rw [← Nat.add_mul, Nat.add_sub_cancel' hle]
  constructor
  · rintro ⟨t, ht, hall, hgood⟩
    have hlen : (last - first) * c.erasesize = t * r := by omega
    refine ⟨fun j hj hlt => ?_, hgood, ⟨t, by rw [hlen, Nat.mul_comm]⟩⟩
    -- the first step into block `j`
    have hj' : j * c.erasesize = first * c.erasesize + (j - first) * c.erasesize := by
      rw [← Nat.add_mul, Nat.add_sub_cancel' hj]
    have hnext : (j - first) * c.erasesize + c.erasesize ≤ t * r := by
      rw [← hlen, ← Nat.succ_mul]
      exact Nat.mul_le_mul_right _ (by omega)
    obtain ⟨t', hge, hlt'⟩ : ∃ t', (j - first) * c.erasesize ≤ t' * r ∧
        t' * r < (j - first) * c.erasesize + r := by
      refine ⟨((j - first) * c.erasesize + r - 1) / r, ?_, ?_⟩
      · have hmod := Nat.mod_lt ((j - first) * c.erasesize + r - 1) hpos
        have hdiv := Nat.div_add_mod' ((j - first) * c.erasesize + r - 1) r
        omega
      · have hdiv := Nat.div_mul_le_self ((j - first) * c.erasesize + r - 1) r
        omega
    have hbad := hall t' (Nat.lt_of_mul_lt_mul_right (a := r) (by omega))
    have hblock : (first * c.erasesize + t' * r) / c.erasesize = j := by
      rw [Nat.div_eq_iff he]
      omega
    rwa [ch.isBad_block, hblock] at hbad
  · rintro ⟨hall, hgood, t, ht⟩
    refine ⟨t, by rw [hmul, ht, Nat.mul_comm r], fun t' ht' => ?_, hgood⟩
    have hlt : t' * r < (last - first) * c.erasesize := by
      rw [ht, Nat.mul_comm r]
      exact Nat.mul_lt_mul_of_pos_right ht' hpos
    rw [ch.isBad_block]
    refine hall _ ?_ ?_
    · rw [Nat.le_div_iff_mul_le he]
      omega
    · rw [Nat.div_lt_iff_lt_mul he]
      omega

end Tail

/-! ## The dump -/

section Run

variable {c : Cfg} {ch : Chip c} {n i k : Nat}

/-- The answers that count from block `i` on, and the tail. -/
structure Chip.RightFrom (ch : Chip c) (n i : Nat) : Prop where
  queries : ∀ j, i ≤ j → ch.goodBelow j * c.erasesize < n →
    ch.isBad (j * c.erasesize) = ch.isBad (c.partOffset + j * c.erasesize)
  tail : n % c.erasesize ≠ 0 → ∀ first last, (∀ i < first, ch.goodBelow i < n / c.erasesize) →
    ch.goodBelow first = n / c.erasesize → ch.goodBelow last = n / c.erasesize →
    ch.good last = true → n % c.erasesize ∣ (last - first) * c.erasesize

theorem Chip.rightFrom_zero : ch.RightFrom n 0 ↔ ch.DumpsRight n :=
  ⟨fun h => ⟨fun i => h.queries i (Nat.zero_le i), h.tail⟩,
    fun h => ⟨fun i _ => h.queries i, h.tail⟩⟩

/-- A block is asked for rightly, or nothing behind it is right. -/
theorem Chip.rightFrom_step (hlt : ch.goodBelow i * c.erasesize < n) : ch.RightFrom n i ↔
    ch.isBad (i * c.erasesize) = ch.isBad (c.partOffset + i * c.erasesize) ∧
      ch.RightFrom n (i + 1) := by
  constructor
  · intro h
    exact ⟨h.queries i (Nat.le_refl i) hlt, fun j hj => h.queries j (by omega), h.tail⟩
  · rintro ⟨hi, h⟩
    refine ⟨fun j hj hjn => ?_, h.tail⟩
    rcases Nat.eq_or_lt_of_le hj with rfl | hj
    · exact hi
    · exact h.queries j hj hjn

/-- Nothing is left to be asked for. -/
theorem Chip.rightFrom_of_done (h : n = ch.goodBelow i * c.erasesize) : ch.RightFrom n i := by
  refine ⟨fun j hj hjn => ?_, fun hmod => ?_⟩
  · have hle := Nat.mul_le_mul_right c.erasesize (ch.goodBelow_le hj)
    omega
  · rw [h, Nat.mul_mod_left] at hmod
    exact absurd rfl hmod

/-- With the last chunk, the answers that count are those up to the block it is in. -/
theorem Chip.rightFrom_last_iff {last : Nat} (hfirst : ∀ j < i, ch.goodBelow j < n / c.erasesize)
    (hi : ch.goodBelow i = n / c.erasesize) (hmod : n % c.erasesize ≠ 0) (hle : i ≤ last)
    (hgood : ch.good last = true) (hbad : ∀ j, i ≤ j → j < last → ch.good j = false) :
    ch.RightFrom n i ↔
      ch.StopsAt (n % c.erasesize) (i * c.erasesize) (last * c.erasesize) := by
  have he := c.erasesize_pos
  have hdiv := Nat.div_add_mod' n c.erasesize
  have hmodlt := Nat.mod_lt n he
  have hsame : ∀ j, i ≤ j → j ≤ last → ch.goodBelow j = n / c.erasesize := fun j hj hjl => by
    rw [goodBelow_eq hj fun l hl hlj => hbad l hl (by omega), hi]
  have hbeyond : ∀ j, last < j → n / c.erasesize + 1 ≤ ch.goodBelow j := fun j hj => by
    have hsucc := ch.goodBelow_succ last
    rw [if_pos hgood, hsame last hle (Nat.le_refl _)] at hsucc
    rw [← hsucc]
    exact goodBelow_le hj
  have htrue : ∀ j, ch.isBad (c.partOffset + j * c.erasesize) = !ch.good j := fun j => by
    simp [good]
  rw [stopsAt_block_iff (by omega) (by omega) hle]
  constructor
  · intro h
    have hquery : ∀ j, i ≤ j → j ≤ last → ch.isBad (j * c.erasesize) = !ch.good j :=
      fun j hj hjl => by
        rw [h.queries j hj (by rw [hsame j hj hjl]; omega), htrue]
    refine ⟨fun j hj hlt => ?_, ?_, ?_⟩
    · rw [hquery j hj (by omega), hbad j hj hlt]
      rfl
    · rw [hquery last hle (Nat.le_refl _), hgood]
      rfl
    · exact h.tail hmod i last hfirst hi (hsame last hle (Nat.le_refl _)) hgood
  · rintro ⟨hall, hlast, hdvd⟩
    refine ⟨fun j hj hjn => ?_, fun _ first' last' hfirst' hi' hlast' hgood' => ?_⟩
    · rcases Nat.lt_trichotomy j last with hlt | rfl | hgt
      · rw [hall j hj hlt, htrue, hbad j hj hlt]
        rfl
      · rw [hlast, htrue, hgood]
        rfl
      · have hmul := Nat.mul_le_mul_right c.erasesize (hbeyond j hgt)
        rw [Nat.add_mul] at hmul
        omega
    · -- the first block and the last one are no others
      have hfeq : first' = i := by
        rcases Nat.lt_trichotomy first' i with hlt | heq | hgt
        · have := hfirst first' hlt
          omega
        · exact heq
        · have := hfirst' i hgt
          omega
      have hleq : last' = last := by
        rcases Nat.lt_trichotomy last' last with hlt | heq | hgt
        · by_cases hil : i ≤ last'
          · rw [hbad last' hil hlt] at hgood'
            cases hgood'
          · have := hfirst last' (by omega)
            omega
        · exact heq
        · have := hbeyond last' hgt
          omega
      rwa [hfeq, hleq]

/-- From every block on, the rest of the dump is right where the rest of the answers is. -/
theorem dumpLoop_right_iff (hsum : i + k = ch.blocks) (hlt : ch.goodBelow i * c.erasesize < n)
    (hfit : n ≤ ch.goodBelow ch.blocks * c.erasesize)
    (hfirst : ∀ j < i, ch.goodBelow j < n / c.erasesize) :
    (dumpLoop c ch.toDevice (c.partOffset + i * c.erasesize) (i * c.erasesize)
      (n - ch.goodBelow i * c.erasesize)).1 =
        (ch.goodFrom i k).take (n - ch.goodBelow i * c.erasesize) ↔ ch.RightFrom n i := by
  have he := c.erasesize_pos
  induction k generalizing i with
  | zero =>
    rw [← hsum] at hfit
    exact absurd (Nat.lt_of_lt_of_le hlt hfit) (Nat.lt_irrefl _)
  | succ k ih =>
    have hend := ch.block_end (j := i) (by omega)
    rcases Nat.lt_or_ge (ch.goodBelow i) (n / c.erasesize) with hfull | hlast
    · -- a whole block
      have hmul := (Nat.le_div_iff_mul_le he).mp (Nat.succ_le_of_lt hfull)
      rw [Nat.succ_mul] at hmul
      have hfirst' : ∀ j < i + 1, ch.goodBelow j < n / c.erasesize := fun j hj =>
        Nat.lt_of_le_of_lt (ch.goodBelow_le (Nat.le_of_lt_succ hj)) hfull
      have hnext : (i + 1) * c.erasesize = i * c.erasesize + c.erasesize := Nat.succ_mul _ _
      have hlen : (if c.erasesize < n - ch.goodBelow i * c.erasesize then c.erasesize
          else n - ch.goodBelow i * c.erasesize) = c.erasesize := by
        split <;> omega
      have hih := ih (i := i + 1) (by omega)
      rw [ch.rightFrom_step hlt, dumpLoop_step (by omega) (by omega) (by rw [hlen]; omega)]
      dsimp only
      rw [hlen, ch.goodFrom_succ, Nat.add_assoc, ← hnext]
      have htrue : ch.isBad (c.partOffset + i * c.erasesize) = !ch.good i := by
        simp [Chip.good]
      have hmem : c.partOffset + i * c.erasesize ∈
          List.range' (c.partOffset + i * c.erasesize) c.erasesize :=
        List.mem_range'_1.mpr (by omega)
      rw [htrue]
      cases hq : ch.isBad (i * c.erasesize) with
      | true =>
        rw [if_pos rfl]
        cases hg : ch.good i with
        | true =>
          -- a good block is left out
          rw [if_pos rfl, List.take_append]
          refine iff_of_false (fun h => ?_) (fun h => Bool.noConfusion h.1)
          have hge := (@dumpLoop_spec c ch (c.partOffset + (i + 1) * c.erasesize)
            ((i + 1) * c.erasesize) (n - ch.goodBelow i * c.erasesize) (Nat.le_add_left _ _)).2
          have hin : c.partOffset + i * c.erasesize ∈ _ :=
            h ▸ List.mem_append_left _ (by rwa [List.take_of_length_le (by simp; omega)])
          have := hge _ hin
          omega
        | false =>
          have hsucc : ch.goodBelow (i + 1) = ch.goodBelow i := by
            rw [ch.goodBelow_succ, hg]
            rfl
          rw [hsucc] at hih
          rw [if_neg Bool.false_ne_true, List.nil_append]
          exact (hih hlt hfirst').trans (by simp)
      | false =>
        rw [if_neg Bool.false_ne_true]
        cases hg : ch.good i with
        | true =>
          have hsucc : ch.goodBelow (i + 1) = ch.goodBelow i + 1 := by
            rw [ch.goodBelow_succ, hg]
            rfl
          rw [hsucc, Nat.succ_mul, Nat.sub_add_eq] at hih
          rw [if_pos rfl, List.take_append, List.take_of_length_le (by simp; omega),
            List.length_range', List.append_cancel_left_eq]
          by_cases hrest : 0 < n - ch.goodBelow i * c.erasesize - c.erasesize
          · rw [if_pos hrest]
            exact (hih (by omega) hfirst').trans (by simp)
          · have hdone : n = ch.goodBelow (i + 1) * c.erasesize := by
              rw [hsucc, Nat.succ_mul]
              omega
            have hzero : n - ch.goodBelow i * c.erasesize - c.erasesize = 0 := by omega
            rw [if_neg hrest, hzero, List.take_zero]
            exact iff_of_true rfl ⟨rfl, ch.rightFrom_of_done hdone⟩
        | false =>
          -- a bad block is written
          rw [if_neg Bool.false_ne_true, List.nil_append]
          refine iff_of_false (fun h => ?_) (fun h => Bool.noConfusion h.1)
          have hin : c.partOffset + i * c.erasesize ∈
              (ch.goodFrom (i + 1) k).take (n - ch.goodBelow i * c.erasesize) := by
            rw [← h]
            exact List.mem_append_left _ hmem
          have := ch.goodFrom_ge (List.mem_of_mem_take hin)
          omega
    · -- the last chunk
      have hdiv := Nat.div_add_mod' n c.erasesize
      have hmodlt := Nat.mod_lt n he
      have hi : ch.goodBelow i = n / c.erasesize :=
        Nat.le_antisymm ((Nat.le_div_iff_mul_le he).mpr (Nat.le_of_lt hlt)) hlast
      have hrest : n - ch.goodBelow i * c.erasesize = n % c.erasesize := by
        rw [hi]
        omega
      have hsome : ch.goodBelow i < ch.goodBelow (i + (k + 1)) := by
        rw [hsum]
        exact Nat.lt_of_mul_lt_mul_right (Nat.lt_of_lt_of_le hlt hfit)
      obtain ⟨last, hle, hlt', hgood, hbad, htake⟩ := ch.exists_good hsome
      rw [hrest, htake _ (Nat.le_of_lt hmodlt),
        ch.rightFrom_last_iff hfirst hi (by omega) hle hgood hbad]
      have hend' := ch.block_end (j := last) (by omega)
      exact dumpLoop_tail (by omega) (by omega) (by omega)

/-- What is the same for all contents is the addresses. -/
theorem eq_of_forall_map {l l' : List Nat} (h : ∀ f : Nat → UInt8, l.map f = l'.map f) : l = l' := by
  have hlen : l.length = l'.length := by simpa using congrArg List.length (h fun _ => 0)
  refine List.ext_getElem hlen fun i hi hi' => ?_
  have hat := List.getElem_of_eq (h fun p => if p = l[i] then 1 else 0)
    (i := i) (by simpa using hi)
  simp only [List.getElem_map, if_true] at hat
  by_cases heq : l'[i] = l[i]
  · exact heq.symm
  · rw [if_neg heq] at hat
    cases hat

/-- For every bad-block map, every part offset and every size that fits the good blocks behind it:
the dump is the first bytes of these blocks, whatever they hold, exactly where the bad blocks at
the start of the device are those behind the offset, as far as the dump goes, and those in front
of the last chunk are a number of chunks long. -/
theorem mtdDump_iff (ch : Chip c) {size : Nat}
    (hfit : ch.dumpSize size ≤ ch.goodBelow ch.blocks * c.erasesize) :
    (∀ data, mtdDump c ch.toDevice data size =
      (((ch.goodFrom 0 ch.blocks).take (ch.dumpSize size)).map data, true)) ↔
        ch.DumpsRight (ch.dumpSize size) := by
  unfold mtdDump
  dsimp only
  generalize ch.dumpSize size = n at hfit ⊢
  have hret := (@dumpLoop_spec c ch (ch.seekSet c.partOffset) 0 n (Nat.zero_le _)).1
  have haddr : (∀ data : Nat → UInt8, ((dumpLoop c ch.toDevice (ch.seekSet c.partOffset) 0 n).1.map
      data, (dumpLoop c ch.toDevice (ch.seekSet c.partOffset) 0 n).2) =
        (((ch.goodFrom 0 ch.blocks).take n).map data, true)) ↔
      (dumpLoop c ch.toDevice (ch.seekSet c.partOffset) 0 n).1 = (ch.goodFrom 0 ch.blocks).take n := by
    rw [hret]
    refine ⟨fun h => eq_of_forall_map fun f => congrArg Prod.fst (h f), fun h data => by rw [h]⟩
  rw [haddr, ← ch.rightFrom_zero]
  rcases Nat.eq_zero_or_pos n with rfl | hn
  · rw [dumpLoop, dif_pos (Or.inl (by simp))]
    exact iff_of_true rfl (ch.rightFrom_of_done (by simp [Chip.goodBelow]))
  · have hblocks : 0 < ch.blocks := by
      rcases Nat.eq_zero_or_pos ch.blocks with h0 | h0
      · rw [h0] at hfit
        simp [Chip.goodBelow] at hfit
        omega
      · exact h0
    have hend := ch.block_end hblocks
    have hseek : ch.seekSet c.partOffset = c.partOffset := if_pos (by omega)
    have hrun := dumpLoop_right_iff (n := n) (i := 0) (k := ch.blocks)
      (Nat.zero_add _) (by simpa [Chip.goodBelow] using hn) hfit
      (fun j hj => absurd hj (Nat.not_lt_zero j))
    rw [hseek]
    simpa [Chip.goodBelow] using hrun

end Run

/-- A NAND device of 16 bytes with the bad blocks given. -/
def markedChip (c : Cfg) (bad : List Nat) : Chip c where
  nand := true
  size := 16
  bad off := bad.contains (off / c.erasesize)
  eraseFails _ := false
  accepts _ len := len
  bad_block off := by rw [Nat.mul_div_cancel _ c.erasesize_pos]
  size_lt := by decide

/-- Blocks of 4 bytes, from some offset on. -/
def smallCfg (partOffset : Nat) : Cfg where
  erasesize := 4
  partOffset := partOffset

/-- The second block is bad and left out. -/
theorem mtdDump_markedChip :
    mtdDump (smallCfg 0) (markedChip (smallCfg 0) [1]).toDevice UInt8.ofNat 8 =
      ([0, 1, 2, 3, 8, 9, 10, 11], true) :=
  (mtdDump_iff (markedChip (smallCfg 0) [1]) (by decide)).mpr
    ⟨fun _ _ => by
      change Device.isBad _ _ = Device.isBad _ (0 + _)
      rw [Nat.zero_add], fun h => absurd rfl h⟩ UInt8.ofNat

/-- A bad block in front of the offset; and one the last chunk is shorter than. -/
theorem mtdDump_shifted :
    (mtdDump (smallCfg 4) (markedChip (smallCfg 4) [0]).toDevice UInt8.ofNat 4 =
        ([8, 9, 10, 11], true) ∧
      (((markedChip (smallCfg 4) [0]).goodFrom 0 3).take 4).map UInt8.ofNat = [4, 5, 6, 7]) ∧
    (mtdDump (smallCfg 0) (markedChip (smallCfg 0) [0]).toDevice UInt8.ofNat 3 =
        ([6, 7, 8], true) ∧
      (((markedChip (smallCfg 0) [0]).goodFrom 0 4).take 3).map UInt8.ofNat = [4, 5, 6]) := by
  have hoffset : dumpLoop (smallCfg 4) (markedChip (smallCfg 4) [0]).toDevice 4 0 4 =
      ([8, 9, 10, 11], true) := by
    rw [dumpLoop_step (by decide) (by decide) (by decide)]
    change dumpLoop _ _ 8 4 4 = _
    rw [dumpLoop_step (by decide) (by decide) (by decide)]
    rfl
  have hchunk : dumpLoop (smallCfg 0) (markedChip (smallCfg 0) [0]).toDevice 0 0 3 =
      ([6, 7, 8], true) := by
    rw [dumpLoop_step (by decide) (by decide) (by decide)]
    change dumpLoop _ _ 3 3 3 = _
    rw [dumpLoop_step (by decide) (by decide) (by decide)]
    change dumpLoop _ _ 6 6 3 = _
    rw [dumpLoop_step (by decide) (by decide) (by decide)]
    rfl
  refine ⟨⟨?_, by decide⟩, ?_, by decide⟩
  · change ((dumpLoop (smallCfg 4) _ 4 0 4).1.map _, (dumpLoop (smallCfg 4) _ 4 0 4).2) = _
    rw [hoffset]
    rfl
  · change ((dumpLoop (smallCfg 0) _ 0 0 3).1.map _, (dumpLoop (smallCfg 0) _ 0 0 3).2) = _
    rw [hchunk]
    rfl

end Lede.Mtd
