/-
Lede.RouterBoot.DynpartTheorems — when `routerboot_find_dynparts` comes to an end.

A read that fails is repeated at the same offset, so the scan hangs on a block that cannot be
read. An iteration whose read succeeds either finds a partition, of which there are as many as
are wanted, or moves the offset on by a block: that is the measure. In a `size_t` the offset
wraps in front of a device that is too large for it, and then only finding every partition ends
the scan (`scan_stops_iff`).
-/
import Mathlib.Data.List.Forall2
import Lede.Lib.Retry
import Lede.RouterBoot.PartitionTheorems

namespace Lede.RouterBoot

open Lede.Lib

/-! ## One pass over the partitions -/

/-- How many partitions are still to be found. -/
def unfound (ds : List Dynpart) : Nat := ds.countP (fun d => !d.found)

/-- What a word at `offset` makes of one partition. -/
def Dynpart.update (offset buf : Nat) (r : MtdRead) (d : Dynpart) : Dynpart :=
  if d.found ∨ d.magic ≠ buf then d
  else
    match d.fixup r with
    | none => { d with offset := offset }
    | some size => { d with offset := offset, size := size, found := true }

section Pass

variable {offset buf : Nat} {r : MtdRead} {ds : List Dynpart}

/-- A pass that moves the offset has found a partition. -/
theorem scanParts_skip : unfound (scanParts offset buf r ds).1 ≤ unfound ds ∧
    ((scanParts offset buf r ds).2.2 = 0 ∨ unfound (scanParts offset buf r ds).1 < unfound ds) ∧
    (scanParts offset buf r ds).2.2 % rbBlockSize = 0 := by
  induction ds with
  | nil => exact ⟨le_rfl, Or.inl rfl, rfl⟩
  | cons d ds ih =>
    rw [scanParts]
    cases hfound : d.found with
    | true => simpa [unfound, hfound] using ih
    | false =>
      simp only [Bool.false_eq_true, if_false]
      by_cases hmagic : d.magic = buf
      · rw [if_pos hmagic]
        split
        · simpa [unfound, hfound] using ih
        · refine ⟨?_, Or.inr ?_, ?_⟩
          · simp [unfound, hfound]
          · simp [unfound, hfound]
          · dsimp only
            split
            · exact Nat.mul_mod_left _ _
            · rfl
      · rw [if_neg hmagic]
        simpa [unfound, hfound] using ih

/-- The flag says whether every partition was found before. -/
theorem scanParts_allfound : (scanParts offset buf r ds).2.1 = ds.all (·.found) := by
  induction ds with
  | nil => rfl
  | cons d ds ih =>
    rw [scanParts, List.all_cons]
    cases hfound : d.found with
    | true => simpa using ih
    | false =>
      simp only [Bool.false_eq_true, if_false]
      split
      · split <;> rfl
      · rfl

theorem update_magic (d : Dynpart) : (d.update offset buf r).magic = d.magic := by
  unfold Dynpart.update
  split
  · rfl
  · split <;> rfl

/-- A partition without the magic is left as it is. -/
theorem map_update_eq (h : ∀ d ∈ ds, d.magic ≠ buf) : ds.map (·.update offset buf r) = ds := by
  induction ds with
  | nil => rfl
  | cons d ds ih =>
    obtain ⟨hd, hds⟩ := List.forall_mem_cons.mp h
    rw [List.map_cons, ih hds, Dynpart.update, if_pos (Or.inr hd)]

/-- Where the magics differ, leaving the pass at a find makes no difference. -/
theorem scanParts_map (h : (ds.map (·.magic)).Nodup) :
    (scanParts offset buf r ds).1 = ds.map (·.update offset buf r) := by
  induction ds with
  | nil => rfl
  | cons d ds ih =>
    obtain ⟨hnot, hnodup⟩ := List.nodup_cons.mp h
    have ih := ih hnodup
    have hnot : d.magic ∉ ds.map (·.magic) := hnot
    rw [scanParts, List.map_cons, Dynpart.update]
    cases hfound : d.found with
    | true => simp [ih]
    | false =>
      simp only [Bool.false_eq_true, if_false, false_or]
      by_cases hmagic : d.magic = buf
      · have hrest : ds.map (·.update offset buf r) = ds := by
          refine map_update_eq fun d' hd' heq => hnot ?_
          rw [hmagic, ← heq]
          exact List.mem_map_of_mem hd'
        rw [if_pos hmagic, if_neg (not_not_intro hmagic)]
        cases d.fixup r with
        | none => exact congrArg _ ih
        | some size => exact congrArg _ hrest.symm
      · rw [if_neg hmagic, if_pos hmagic]
        exact congrArg _ ih

end Pass

/-! ## The run -/

/-- A successful read of the magic, and a size function that succeeds. -/
def Finds (d : Dynpart) (o : MtdRead × MtdRead) : Prop :=
  o.1.err = false ∧ o.1.word = d.magic ∧ (d.fixup o.2).isSome

section Run

variable {m : Master} {parts : List Dynpart} {env : Nat → MtdRead × MtdRead} {n : Nat} {s : Scan}
  {o : MtdRead × MtdRead}

theorem scanStep_of_err (h : o.1.err = true) : m.scanStep s o = s := by
  unfold Master.scanStep
  rw [if_pos h, ite_self]

theorem scanStep_of_stopped (h : m.Stopped s) : m.scanStep s o = s := if_pos h

/-- An iteration whose read succeeds. -/
theorem scanStep_of_ok (hs : ¬ m.Stopped s) (ho : o.1.err = false) : m.scanStep s o =
    ⟨m.add (m.add s.offset (scanParts s.offset o.1.word o.2 s.parts).2.2) rbBlockSize,
      (scanParts s.offset o.1.word o.2 s.parts).1, s.parts.all (·.found)⟩ := by
  rw [Master.scanStep, if_neg hs, ho, ← scanParts_allfound]
  rfl

theorem Stopped.run (h : m.Stopped (m.scanRun parts env n)) {k : Nat} (hnk : n ≤ k) :
    m.Stopped (m.scanRun parts env k) := by
  induction k, hnk using Nat.le_induction with
  | base => exact h
  | succ k _ ih =>
    rw [Master.scanRun, scanStep_of_stopped ih]
    exact ih

/-- The offset is that of a block. -/
def Aligned (m : Master) (s : Scan) : Prop := s.offset % rbBlockSize = 0 ∧ s.offset < 2 ^ m.w

theorem blockSize_dvd (m : Master) : rbBlockSize ∣ 2 ^ m.w := by
  have hw := m.w_ge
  have hblock : rbBlockSize = 2 ^ 12 := rfl
  rw [hblock]
  exact Nat.pow_dvd_pow 2 (by omega)

theorem Aligned.step (h : Aligned m s) : Aligned m (m.scanStep s o) := by
  by_cases hs : m.Stopped s
  · rwa [scanStep_of_stopped hs]
  · cases ho : o.1.err with
    | true => rwa [scanStep_of_err ho]
    | false =>
      rw [scanStep_of_ok hs ho]
      obtain ⟨-, -, hskip⟩ := @scanParts_skip s.offset o.1.word o.2 s.parts
      refine ⟨?_, Nat.mod_lt _ (Nat.two_pow_pos _)⟩
      dsimp only [Master.add]
      rw [Nat.mod_mod_of_dvd _ (blockSize_dvd m), Nat.add_mod_right,
        Nat.mod_mod_of_dvd _ (blockSize_dvd m), Nat.add_mod, hskip, h.1, Nat.add_zero, Nat.zero_mod]

theorem aligned_run (n : Nat) : Aligned m (m.scanRun parts env n) := by
  induction n with
  | zero => exact ⟨rfl, Nat.two_pow_pos _⟩
  | succ n ih => exact ih.step

/-- What is left to be done: the partitions that are not found, each with a pass over the device, and
the blocks of this pass. -/
def measure (m : Master) (s : Scan) : Nat :=
  unfound s.parts * (2 ^ m.w / rbBlockSize + 1) + (2 ^ m.w - s.offset) / rbBlockSize

/-- A successful read makes it less, on a device that `size_t` covers. -/
theorem measure_step (hfit : m.size + rbBlockSize ≤ 2 ^ m.w) (ha : Aligned m s) (hs : ¬ m.Stopped s)
    (ho : o.1.err = false) : measure m (m.scanStep s o) < measure m s := by
  obtain ⟨hle, hskip, hmod⟩ := @scanParts_skip s.offset o.1.word o.2 s.parts
  obtain ⟨halign, hlt⟩ := ha.step (o := o)
  have hoff : s.offset < m.size := by
    by_contra h
    exact hs (Or.inr (Nat.le_of_not_lt h))
  obtain ⟨b, hb⟩ := blockSize_dvd m
  have hblock : rbBlockSize = 0x1000 := rfl
  rw [scanStep_of_ok hs ho] at halign hlt ⊢
  unfold measure
  dsimp only [Master.add] at halign hlt ⊢
  rw [hblock] at hfit halign hlt hb ⊢
  rw [hb] at hfit hlt ⊢
  rw [Nat.mul_div_cancel_left _ (by decide)]
  rcases hskip with hzero | hfound
  · have hofs : s.offset % (0x1000 * b) = s.offset := Nat.mod_eq_of_lt (by omega)
    have hnext : (s.offset + 0x1000) % (0x1000 * b) = s.offset + 0x1000 := Nat.mod_eq_of_lt (by omega)
    rw [hzero, Nat.add_zero s.offset, hofs, hnext]
    have hmul := Nat.mul_le_mul_right (b + 1) hle
    omega
  · have hmul := Nat.mul_le_mul_right (b + 1) hfound
    rw [Nat.succ_mul] at hmul
    omega

/-! ## What is found -/

theorem scanStep_parts (hs : ¬ m.Stopped s) (ho : o.1.err = false)
    (h : (s.parts.map (·.magic)).Nodup) :
    (m.scanStep s o).parts = s.parts.map (·.update s.offset o.1.word o.2) := by
  rw [scanStep_of_ok hs ho]
  exact scanParts_map h

/-- A partition as the run has it: the same magic and size function, and found if it was, or by one of
the outcomes. -/
structure Tracks (env : Nat → MtdRead × MtdRead) (n : Nat) (d d' : Dynpart) : Prop where
  magic : d'.magic = d.magic
  sizeFixup : d'.sizeFixup = d.sizeFixup
  found : d'.found = true ↔ d.found = true ∨ ∃ k < n, Finds d (env k)

theorem fixup_isSome {d d' : Dynpart} (h : d'.sizeFixup = d.sizeFixup) (r : MtdRead) :
    (d'.fixup r).isSome = (d.fixup r).isSome := by
  unfold Dynpart.fixup
  rw [h]
  cases d.sizeFixup <;> rfl

theorem finds_succ (d : Dynpart) : (∃ k < n + 1, Finds d (env k)) ↔
    (∃ k < n, Finds d (env k)) ∨ Finds d (env n) := by
  constructor
  · rintro ⟨k, hk, h⟩
    rcases Nat.lt_succ_iff_lt_or_eq.mp hk with hlt | rfl
    · exact Or.inl ⟨k, hlt, h⟩
    · exact Or.inr h
  · rintro (⟨k, hk, h⟩ | h)
    · exact ⟨k, Nat.lt_succ_of_lt hk, h⟩
    · exact ⟨n, Nat.lt_succ_self n, h⟩

theorem Tracks.stay {d d' : Dynpart} (h : Tracks env n d d') (hnot : ¬ Finds d (env n)) :
    Tracks env (n + 1) d d' :=
  ⟨h.magic, h.sizeFixup, by rw [finds_succ, or_iff_left hnot, h.found]⟩

theorem Tracks.update {d d' : Dynpart} (h : Tracks env n d d') (ho : (env n).1.err = false)
    (offset : Nat) : Tracks env (n + 1) d (d'.update offset (env n).1.word (env n).2) := by
  unfold Dynpart.update
  by_cases hfound : d'.found = true
  · rw [if_pos (Or.inl hfound)]
    refine ⟨h.magic, h.sizeFixup, iff_of_true hfound ?_⟩
    rw [finds_succ, ← or_assoc, ← h.found]
    exact Or.inl hfound
  · by_cases hmagic : d'.magic = (env n).1.word
    · rw [if_neg (by rintro (hf | hne); exacts [hfound hf, hne hmagic])]
      cases hfix : d'.fixup (env n).2 with
      | none =>
        have hnot : ¬ Finds d (env n) := fun hfinds => by
          have := hfinds.2.2
          rw [← fixup_isSome h.sizeFixup, hfix] at this
          cases this
        exact ⟨h.magic, h.sizeFixup, by rw [finds_succ, or_iff_left hnot]; exact h.found⟩
      | some size =>
        refine ⟨h.magic, h.sizeFixup, iff_of_true rfl ?_⟩
        rw [finds_succ]
        refine Or.inr (Or.inr ⟨ho, ?_, ?_⟩)
        · rw [← hmagic, h.magic]
        · rw [← fixup_isSome h.sizeFixup, hfix]
          rfl
    · rw [if_pos (Or.inr hmagic)]
      exact h.stay fun hfinds => hmagic (h.magic.trans hfinds.2.1.symm)

theorem run_nodup (hnodup : (parts.map (·.magic)).Nodup) (n : Nat) :
    ((m.scanRun parts env n).parts.map (·.magic)).Nodup := by
  induction n with
  | zero => exact hnodup
  | succ n ih =>
    rw [Master.scanRun]
    by_cases hs : m.Stopped (m.scanRun parts env n)
    · rwa [scanStep_of_stopped hs]
    · cases ho : (env n).1.err with
      | true => rwa [scanStep_of_err ho]
      | false =>
        rw [scanStep_parts hs ho ih, List.map_map]
        simpa [Function.comp_def, update_magic] using ih

/-- While the scan runs, exactly those partitions are found that an outcome finds. -/
theorem run_tracks (hnodup : (parts.map (·.magic)).Nodup)
    (hrun : ∀ k < n, ¬ m.Stopped (m.scanRun parts env k)) :
    List.Forall₂ (Tracks env n) parts (m.scanRun parts env n).parts := by
  induction n with
  | zero => exact List.forall₂_same.mpr fun d _ => ⟨rfl, rfl, by simp⟩
  | succ n ih =>
    have ih := ih fun k hk => hrun k (Nat.lt_succ_of_lt hk)
    have hs := hrun n (Nat.lt_succ_self n)
    rw [Master.scanRun]
    cases ho : (env n).1.err with
    | true =>
      rw [scanStep_of_err ho]
      refine ih.imp fun d d' h => h.stay fun hfinds => ?_
      rw [hfinds.1] at ho
      cases ho
    | false =>
      rw [scanStep_parts hs ho (run_nodup hnodup n), List.forall₂_map_right_iff]
      exact ih.imp fun d d' h => h.update ho _

end Run

/-! ## The end of the scan -/

/-- The wanted partitions: no two have the same magic. -/
structure Wanted where
  parts : List Dynpart
  magics : (parts.map (·.magic)).Nodup

/-- No read the scan makes fails however often it is repeated. -/
def Retried (m : Master) (parts : List Dynpart) (env : Nat → MtdRead × MtdRead) : Prop :=
  ∀ n, ¬ m.Stopped (m.scanRun parts env n) → ∃ k, n ≤ k ∧ (env k).1.err = false

/-- The offset behind the last block does not wrap, or every partition is found. -/
def Reaches (m : Master) (parts : List Dynpart) (env : Nat → MtdRead × MtdRead) : Prop :=
  m.size + rbBlockSize ≤ 2 ^ m.w ∨ ∀ d ∈ parts, d.found = true ∨ ∃ k, Finds d (env k)

section Ends

variable {m : Master} {wanted : Wanted} {env : Nat → MtdRead × MtdRead} {n : Nat}

theorem run_succ_of_err (h : ¬ (env n).1.err = false) :
    m.scanRun wanted.parts env (n + 1) = m.scanRun wanted.parts env n :=
  scanStep_of_err (by simpa using h)

/-- On a device that `size_t` does not cover only `allfound` ends the scan. -/
theorem stopped_iff_done (hbig : ¬ m.size + rbBlockSize ≤ 2 ^ m.w) :
    m.Stopped (m.scanRun wanted.parts env n) ↔ (m.scanRun wanted.parts env n).done = true := by
  refine or_iff_left fun hle => ?_
  obtain ⟨halign, hlt⟩ := @aligned_run m wanted.parts env n
  obtain ⟨b, hb⟩ := blockSize_dvd m
  have hblock : rbBlockSize = 0x1000 := rfl
  rw [hblock] at halign hb hbig
  omega

/-- Where the scan has stopped by `allfound`, every partition was found. -/
theorem found_of_done (h : (m.scanRun wanted.parts env n).done = true)
    (hrun : ∀ k < n, ¬ m.Stopped (m.scanRun wanted.parts env k)) :
    ∀ d ∈ wanted.parts, d.found = true ∨ ∃ k, Finds d (env k) := by
  intro d hd
  cases n with
  | zero => cases h
  | succ n =>
    have hs := hrun n (Nat.lt_succ_self n)
    have ho : (env n).1.err = false := by
      by_contra herr
      rw [run_succ_of_err herr] at h
      exact hs (Or.inl h)
    rw [Master.scanRun, scanStep_of_ok hs ho] at h
    have htracks := run_tracks wanted.magics fun k hk => hrun k (Nat.lt_succ_of_lt hk)
    obtain ⟨d', hd', ht⟩ := exists_of_forall₂ htracks.flip hd
    exact (ht.found.mp (List.all_eq_true.mp h d' hd')).imp_right fun ⟨k, _, hk⟩ => ⟨k, hk⟩

/-- A scan that finds every partition ends with the next read that succeeds. -/
theorem stops_of_found (hretry : Retried m wanted.parts env)
    (hfound : ∀ d ∈ wanted.parts, d.found = true ∨ ∃ k, Finds d (env k)) :
    ∃ n, m.Stopped (m.scanRun wanted.parts env n) := by
  by_contra hnone
  have hrun : ∀ n, ¬ m.Stopped (m.scanRun wanted.parts env n) := fun n h => hnone ⟨n, h⟩
  have hbound : ∀ l : List Dynpart, (∀ d ∈ l, d.found = true ∨ ∃ k, Finds d (env k)) →
      ∃ b, ∀ d ∈ l, d.found = true ∨ ∃ k < b, Finds d (env k) := by
    intro l
    induction l with
    | nil => exact fun _ => ⟨0, by simp⟩
    | cons d l ih =>
      intro h
      obtain ⟨hd, hl⟩ := List.forall_mem_cons.mp h
      obtain ⟨b, hb⟩ := ih hl
      rcases hd with hd | ⟨k, hk⟩
      · exact ⟨b, List.forall_mem_cons.mpr ⟨Or.inl hd, hb⟩⟩
      · refine ⟨max b (k + 1), List.forall_mem_cons.mpr ⟨Or.inr ⟨k, by omega, hk⟩, fun d' hd' => ?_⟩⟩
        exact (hb d' hd').imp_right fun ⟨j, hj, hfinds⟩ => ⟨j, by omega, hfinds⟩
  obtain ⟨b, hb⟩ := hbound wanted.parts hfound
  obtain ⟨k, hbk, hk⟩ := hretry b (hrun b)
  refine hrun (k + 1) (Or.inl ?_)
  rw [Master.scanRun, scanStep_of_ok (hrun k) hk, List.all_eq_true]
  intro d' hd'
  obtain ⟨d, hd, ht⟩ := exists_of_forall₂ (run_tracks wanted.magics fun j _ => hrun j) hd'
  exact ht.found.mpr ((hb d hd).imp_right fun ⟨j, hj, hfinds⟩ => ⟨j, by omega, hfinds⟩)

/-- For every device, every list of wanted partitions and every outcome of the reads and size functions:
the scan ends exactly if no read fails for ever, and the offset does not wrap in front of the end of
the device or every partition is found. -/
theorem scan_stops_iff (m : Master) (wanted : Wanted) (env : Nat → MtdRead × MtdRead) :
    (∃ n, m.Stopped (m.scanRun wanted.parts env n)) ↔
      Retried m wanted.parts env ∧ Reaches m wanted.parts env := by
  have hstay : ∀ n, ¬ (env n).1.err = false →
      m.scanRun wanted.parts env (n + 1) = m.scanRun wanted.parts env n := fun n => run_succ_of_err
  constructor
  · rintro ⟨t, ht⟩
    constructor
    · intro n hn
      by_contra hfail
      have hnot := Retry.not_stopped_of_fail hstay (fun k hk hok => hfail ⟨k, hk, hok⟩) hn
        (Nat.le_max_left n t)
      exact hnot (Stopped.run ht (Nat.le_max_right n t))
    · by_cases hfit : m.size + rbBlockSize ≤ 2 ^ m.w
      · exact Or.inl hfit
      · have hex : ∃ t, m.Stopped (m.scanRun wanted.parts env t) := ⟨t, ht⟩
        exact Or.inr (found_of_done ((stopped_iff_done hfit).mp (Nat.find_spec hex))
          fun k hk => Nat.find_min hex hk)
  · rintro ⟨hretry, hfit | hfound⟩
    · exact Retry.exists_stopped (measure m) hstay
        (fun n hs ho => Or.inr (measure_step hfit (aligned_run n) hs ho)) hretry
    · exact stops_of_found hretry hfound

end Ends

/-- The partitions of the driver. -/
def rbWanted : Wanted := ⟨rbDynparts, by decide⟩

/-- A flash whose first block cannot be read. -/
def deadEnv : Nat → MtdRead × MtdRead := fun _ => (⟨true, 0, 0⟩, ⟨true, 0, 0⟩)

theorem scan_hangs (n : Nat) :
    ¬ sampleMaster.Stopped (sampleMaster.scanRun rbWanted.parts deadEnv n) := by
  have hrun : sampleMaster.scanRun rbWanted.parts deadEnv n = ⟨0, rbWanted.parts, false⟩ := by
    induction n with
    | zero => rfl
    | succ n ih =>
      have herr : ¬ (deadEnv n).1.err = false := by simp [deadEnv]
      rw [run_succ_of_err herr, ih]
  rw [hrun]
  decide

/-- The scan reads it for ever. -/
theorem scan_hangs_deadEnv :
    ¬ ∃ n, sampleMaster.Stopped (sampleMaster.scanRun rbWanted.parts deadEnv n) :=
  fun ⟨n, h⟩ => scan_hangs n h

end Lede.RouterBoot
