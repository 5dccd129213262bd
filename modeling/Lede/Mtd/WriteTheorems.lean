/-
Lede.Mtd.WriteTheorems — where `mtd_write` puts an image.

`step_cases` says what one turn does. Everything about runs rests on one invariant,
`Honest`: on the device that is open the descriptor stands behind the blocks written
and skipped, the blocks programmed are those the lookup did not report, and what was
programmed is the beginning of the image. A turn keeps it (`Honest.step`), except
when an erase fails on a device that had bad blocks: then `buf + offset` points
behind the buffer (`Derailed`), and whatever follows programs bytes that are not the
image's.
-/
import Lede.Mtd.Write
import Mathlib.Tactic.Ring

namespace Lede.Mtd

/-! ## The image -/

section Image

variable {erasesize : Nat}

theorem padImage_length (hes : 0 < erasesize) (img : List UInt8) :
    (padImage erasesize img).length = blockCount erasesize img.length * erasesize := by
  obtain ⟨q, r, hr, hlen⟩ : ∃ q r, r < erasesize ∧ img.length = erasesize * q + r :=
    ⟨img.length / erasesize, img.length % erasesize, Nat.mod_lt _ hes, (Nat.div_add_mod _ _).symm⟩
  have hmod : (erasesize * q + r) % erasesize = r := by
    rw [Nat.mul_add_mod, Nat.mod_eq_of_lt hr]
  have hcount : blockCount erasesize (erasesize * q + r) = q + (r + erasesize - 1) / erasesize := by
    unfold blockCount
    have hsum : erasesize * q + r + erasesize - 1 = erasesize * q + (r + erasesize - 1) := by omega
    rw [hsum, Nat.mul_add_div hes]
  rw [padImage, List.length_append, List.length_replicate, hlen, hmod, hcount, Nat.add_mul,
    Nat.mul_comm q]
  rcases Nat.eq_zero_or_pos r with rfl | hpos
  · have hdiv : (0 + erasesize - 1) / erasesize = 0 := Nat.div_eq_of_lt (by omega)
    rw [hdiv, Nat.sub_zero, Nat.mod_self]
    omega
  · have hdiv : (r + erasesize - 1) / erasesize = 1 := by
      have hsum : r + erasesize - 1 = erasesize * 1 + (r - 1) := by omega
      rw [hsum, Nat.mul_add_div hes, Nat.div_eq_of_lt (by omega)]
    rw [hdiv, Nat.mod_eq_of_lt (by omega)]
    omega

theorem padImage_nil : padImage erasesize [] = [] := by
  simp [padImage]

/-- A whole block in front. -/
theorem padImage_append {buf : List UInt8} (hbuf : buf.length = erasesize) (img : List UInt8) :
    padImage erasesize (buf ++ img) = buf ++ padImage erasesize img := by
  unfold padImage
  rw [List.length_append, hbuf, Nat.add_mod_left, List.append_assoc]

/-- The last block, filled up. -/
theorem padImage_last {buf : List UInt8} (hne : buf ≠ []) (hle : buf.length ≤ erasesize) :
    padImage erasesize buf = buf ++ List.replicate (erasesize - buf.length) 0xff := by
  have hpos : 0 < buf.length := List.length_pos_iff.mpr hne
  unfold padImage
  rcases Nat.lt_or_eq_of_le hle with hlt | heq
  · rw [Nat.mod_eq_of_lt hlt, Nat.mod_eq_of_lt (by omega)]
  · rw [heq, Nat.mod_self, Nat.sub_zero, Nat.mod_self, Nat.sub_self]

/-- Filling the buffer loses nothing, and stops short only at the end of the image. -/
theorem fillBuf_spec (reads : List Read) (img buf : List UInt8) (hbuf : buf.length ≤ erasesize) :
    let input := fillBuf erasesize reads img buf
    input.buf ++ input.img = buf ++ img ∧ input.buf.length ≤ erasesize ∧
      (input.buf.length = erasesize ∨ input.img = []) := by
  induction reads generalizing img buf with
  | nil =>
    dsimp only [fillBuf]
    refine ⟨by rw [List.append_assoc, List.take_append_drop], ?_, ?_⟩
    · rw [List.length_append, List.length_take]
      omega
    · by_cases hfull : erasesize - buf.length ≤ img.length
      · left
        rw [List.length_append, List.length_take]
        omega
      · right
        exact List.drop_eq_nil_of_le (by omega)
  | cons r reads ih =>
    dsimp only
    unfold fillBuf
    by_cases hlt : buf.length < erasesize
    · rw [if_pos hlt]
      cases r with
      | intr => exact ih img buf hbuf
      | short n =>
        dsimp only
        by_cases himg : img = []
        · rw [if_pos himg]
          exact ⟨rfl, hbuf, Or.inr himg⟩
        · rw [if_neg himg]
          have hrec := ih (img.drop (min (n + 1) (erasesize - buf.length)))
            (buf ++ img.take (min (n + 1) (erasesize - buf.length)))
            (by rw [List.length_append, List.length_take]; omega)
          dsimp only at hrec
          rw [List.append_assoc, List.take_append_drop] at hrec
          exact hrec
    · rw [if_neg hlt]
      exact ⟨rfl, hbuf, Or.inl (by dsimp only; omega)⟩

end Image

/-! ## One turn -/

/-- What a turn that goes on does, with erasing enabled. -/
theorem step_cases {c : Cfg} {s s' : St} (hn : c.noErase = false) (h : step c s = .next s') :
    (s.phase = .fill ∧
      let input := fillBuf c.erasesize s.reads s.img s.buf
      input.buf ≠ [] ∧
      s' = { s with
        reads := input.reads, img := input.img, phase := .erase
        buf := input.buf ++ List.replicate (c.erasesize - input.buf.length) 0xff }) ∨
    (s.phase = .erase ∧ s.e < s.w + s.buf.length + s.skipBadBlocks ∧
      ((s.cur.blockIsBad s.e = some true ∧
        s' = { s with
          skipBadBlocks := s.skipBadBlocks + c.erasesize, e := s.e + c.erasesize
          pos := s.cur.seekCur s.pos c.erasesize }) ∨
      (s.cur.blockIsBad s.e = some false ∧ s.cur.eraseBlock c (s.e + c.partOffset) = true ∧
        s' = { s with
          e := s.e + c.erasesize
          log := s.log ++ [.erase s.dev (eraseStart (s.e + c.partOffset))] }) ∨
      (s.cur.blockIsBad s.e = some false ∧ s.cur.eraseBlock c (s.e + c.partOffset) = false ∧
        ∃ d ds, s.next = d :: ds ∧ s' = s.moveOn c d ds))) ∨
    (s.phase = .erase ∧ s.w + s.buf.length + s.skipBadBlocks ≤ s.e ∧
      s.cur.writes s.pos s.buf.length = s.buf.length ∧
      s' = { s.write s.buf.length with
        w := s.w + s.buf.length, offset := 0, buf := [], phase := .fill }) := by
  unfold step at h
  split at h
  · next hphase =>
    unfold fillStep at h
    dsimp only at h
    split at h
    · cases h
    · next hne =>
      cases h
      exact Or.inl ⟨hphase, hne, rfl⟩
  · next hphase =>
    split at h
    · next hlt =>
      refine Or.inr (Or.inl ⟨hphase, hlt.2, ?_⟩)
      unfold eraseStep at h
      split at h
      · cases h
      · next hbad =>
        cases h
        exact Or.inl ⟨hbad, rfl⟩
      · next hgood =>
        split at h
        · next herase =>
          cases h
          exact Or.inr (Or.inl ⟨hgood, herase, rfl⟩)
        · next herase =>
          split at h
          · cases h
          · next d ds hnext =>
            cases h
            exact Or.inr (Or.inr ⟨hgood, by simpa using herase, d, ds, hnext, rfl⟩)
    · next hge =>
      refine Or.inr (Or.inr ⟨hphase, by simp only [hn, true_and, not_lt] at hge; exact hge, ?_⟩)
      unfold writeStep at h
      split at h
      · cases h
      · next hfull =>
        cases h
        refine ⟨?_, rfl⟩
        have hle : s.cur.writes s.pos s.buf.length ≤ s.buf.length := by
          unfold Device.writes
          omega
        omega

/-- A run returns in front of an empty buffer. -/
theorem step_ret {c : Cfg} {s s' : St} (h : step c s = .ret s') :
    s.phase = .fill ∧ (fillBuf c.erasesize s.reads s.img s.buf).buf = [] ∧ s'.log = s.log := by
  unfold step at h
  split at h
  · next hphase =>
    unfold fillStep at h
    dsimp only at h
    split at h
    · next hnil =>
      cases h
      exact ⟨hphase, hnil, rfl⟩
    · cases h
  · split at h
    · unfold eraseStep at h
      repeat' split at h
      all_goals cases h
    · unfold writeStep at h
      split at h <;> cases h

/-- The device an operation is on. -/
def Op.dev : Op → Nat
  | .erase i _ => i
  | .program i _ _ => i

/-- The bytes an operation programs. -/
def Op.data : Op → List (Option UInt8)
  | .erase _ _ => []
  | .program _ _ data => data

/-- The blocks erased on a device, in order. -/
def erasedOn (log : List Op) (dev : Nat) : List Nat :=
  log.filterMap (fun op => match op with
    | .erase i start => if i = dev then some start else none
    | .program _ _ _ => none)

/-- Whatever is programmed was erased before. -/
def ErasedFirst (log : List Op) : Prop :=
  ∀ k i pos data, log[k]? = some (.program i pos data) → .erase i pos ∈ log.take k

/-- The bytes programmed on the first `n` devices, device by device. -/
def readBack (log : List Op) (n : Nat) : List (Option UInt8) := (List.range n).flatMap (dataOn log)

section Logs

variable {log : List Op} {i x pos dev : Nat} {data : List (Option UInt8)}

@[simp] theorem programmedOn_erase :
    programmedOn (log ++ [.erase i x]) dev = programmedOn log dev := by
  simp [programmedOn]

@[simp] theorem programmedOn_program_self :
    programmedOn (log ++ [.program dev pos data]) dev = programmedOn log dev ++ [pos] := by
  simp [programmedOn]

theorem programmedOn_program_ne (h : i ≠ dev) :
    programmedOn (log ++ [.program i pos data]) dev = programmedOn log dev := by
  simp [programmedOn, h]

@[simp] theorem erasedOn_erase_self :
    erasedOn (log ++ [.erase dev x]) dev = erasedOn log dev ++ [x] := by
  simp [erasedOn]

@[simp] theorem erasedOn_program :
    erasedOn (log ++ [.program i pos data]) dev = erasedOn log dev := by
  simp [erasedOn]

theorem mem_erasedOn : x ∈ erasedOn log dev ↔ .erase dev x ∈ log := by
  unfold erasedOn
  rw [List.mem_filterMap]
  constructor
  · rintro ⟨op, hop, hsome⟩
    cases op with
    | erase i start =>
      dsimp only at hsome
      split at hsome
      · next hi =>
        cases hsome
        rwa [← hi]
      · cases hsome
    | program i pos data => cases hsome
  · intro h
    exact ⟨_, h, if_pos rfl⟩

theorem mem_programmedOn : pos ∈ programmedOn log dev ↔ ∃ data, .program dev pos data ∈ log := by
  unfold programmedOn
  rw [List.mem_filterMap]
  constructor
  · rintro ⟨op, hop, hsome⟩
    cases op with
    | erase i start => cases hsome
    | program i p data =>
      dsimp only at hsome
      split at hsome
      · next hi =>
        cases hsome
        exact ⟨data, by rwa [← hi]⟩
      · cases hsome
  · rintro ⟨data, h⟩
    exact ⟨_, h, if_pos rfl⟩

theorem erasedFirst_append (op : Op) :
    ErasedFirst (log ++ [op]) ↔
      ErasedFirst log ∧ ∀ i pos data, op = .program i pos data → .erase i pos ∈ log := by
  constructor
  · intro h
    refine ⟨fun k i pos data hk => ?_, fun i pos data hop => ?_⟩
    · have hlt : k < log.length := (List.getElem?_eq_some_iff.mp hk).1
      have := h k i pos data (by rw [List.getElem?_append_left hlt]; exact hk)
      rwa [List.take_append_of_le_length (le_of_lt hlt)] at this
    · have := h log.length i pos data (by simp [hop])
      simpa using this
  · rintro ⟨hlog, hop⟩ k i pos data hk
    rcases Nat.lt_trichotomy k log.length with hlt | heq | hgt
    · rw [List.getElem?_append_left hlt] at hk
      rw [List.take_append_of_le_length (le_of_lt hlt)]
      exact hlog k i pos data hk
    · have hself : op = .program i pos data := by simpa [heq] using hk
      rw [heq, List.take_left]
      exact hop i pos data hself
    · have hnone : (log ++ [op])[k]? = none := List.getElem?_eq_none (by simp; omega)
      rw [hnone] at hk
      cases hk

theorem readBack_erase (n : Nat) : readBack (log ++ [.erase i x]) n = readBack log n := by
  have hdata : dataOn (log ++ [.erase i x]) = dataOn log := by
    funext k
    simp [dataOn]
  rw [readBack, hdata, readBack]

/-- What is programmed on the last device comes last. -/
theorem readBack_program :
    readBack (log ++ [.program dev pos data]) (dev + 1) = readBack log (dev + 1) ++ data := by
  have hbefore : ∀ k ∈ List.range dev,
      dataOn (log ++ [.program dev pos data]) k = dataOn log k := by
    intro k hk
    have hne : dev ≠ k := Nat.ne_of_gt (List.mem_range.mp hk)
    simp [dataOn, hne]
  have hlast : dataOn (log ++ [.program dev pos data]) dev = dataOn log dev ++ data := by
    simp [dataOn]
  have hflat : (List.range dev).flatMap (dataOn (log ++ [.program dev pos data])) =
      (List.range dev).flatMap (dataOn log) := by
    rw [List.flatMap_def, List.flatMap_def, List.map_congr_left hbefore]
  unfold readBack
  rw [List.range_succ, List.flatMap_append, List.flatMap_append, hflat, List.flatMap_singleton,
    List.flatMap_singleton, hlast, List.append_assoc]

theorem dataOn_of_forall_ne (h : ∀ op ∈ log, op.dev ≠ dev) : dataOn log dev = [] := by
  unfold dataOn
  rw [List.flatMap_eq_nil_iff]
  intro op hop
  have hne := h op hop
  cases op with
  | erase i start => rfl
  | program i p d =>
    dsimp only [Op.dev] at hne ⊢
    rw [if_neg hne]

theorem programmedOn_of_forall_ne (h : ∀ op ∈ log, op.dev ≠ dev) : programmedOn log dev = [] := by
  rw [List.eq_nil_iff_forall_not_mem]
  intro pos hpos
  obtain ⟨data, hmem⟩ := mem_programmedOn.mp hpos
  exact h _ hmem rfl

/-- Devices behind the last one used add nothing. -/
theorem readBack_of_le {m n : Nat} (hmn : m ≤ n) (h : ∀ op ∈ log, op.dev < m) :
    readBack log n = readBack log m := by
  induction n, hmn using Nat.le_induction with
  | base => rfl
  | succ n hle ih =>
    have hnil : dataOn log n = [] :=
      dataOn_of_forall_ne (fun op hop => Nat.ne_of_lt (lt_of_lt_of_le (h op hop) hle))
    rw [readBack, List.range_succ, List.flatMap_append, List.flatMap_singleton, hnil,
      List.append_nil]
    exact ih

end Logs

/-! ## When the devices are used as they should be -/

/-- Of the first `m` blocks, those the lookup takes for good. It does not add the
offset of the partition. -/
def usable (c : Cfg) (d : Device) (m : Nat) : List Nat :=
  (List.range m).filter (fun j => !d.isBad (j * c.erasesize))

/-- `n` blocks go well: on the device they end on, a block the lookup reports lies as
far behind the offset at another bad one; on one that is left for the next, none is
reported. The offset of a block that is erased must fit 32 bits. -/
inductive Clean (c : Cfg) : List Device → Nat → Prop where
  | last {d : Device} {ds : List Device} (m : Nat)
      (gaps : ∀ j < m, d.isBad (j * c.erasesize) = true →
        d.isBad (j * c.erasesize + c.partOffset) = true)
      (erasable : ∀ j ∈ usable c d m, d.eraseBlock c (j * c.erasesize + c.partOffset) = true)
      (reach : ∀ j ∈ usable c d m, j * c.erasesize + c.partOffset < 2 ^ 32) :
      Clean c (d :: ds) (usable c d m).length
  | next {d : Device} {ds : List Device} {n : Nat} (k : Nat) (short : k < n)
      (good : ∀ j < k, d.isBad (j * c.erasesize) = false)
      (erasable : ∀ j < k, d.eraseBlock c (j * c.erasesize + c.partOffset) = true)
      (reach : ∀ j < k, j * c.erasesize + c.partOffset < 2 ^ 32)
      (stop : d.isBad (k * c.erasesize) = false)
      (fails : d.eraseBlock c (k * c.erasesize + c.partOffset) = false)
      (rest : Clean c ds (n - k)) :
      Clean c (d :: ds) n

section Usable

variable {c : Cfg} {d : Device}

theorem mem_usable {m j : Nat} :
    j ∈ usable c d m ↔ j < m ∧ d.isBad (j * c.erasesize) = false := by
  simp [usable]

theorem usable_zero : usable c d 0 = [] := rfl

theorem usable_succ_bad {m : Nat} (h : d.isBad (m * c.erasesize) = true) :
    usable c d (m + 1) = usable c d m := by
  simp [usable, List.range_succ, h]

theorem usable_succ_good {m : Nat} (h : d.isBad (m * c.erasesize) = false) :
    usable c d (m + 1) = usable c d m ++ [m] := by
  simp [usable, List.range_succ, h]

theorem usable_length_mono {m k : Nat} (h : m ≤ k) :
    (usable c d m).length ≤ (usable c d k).length := by
  induction k, h using Nat.le_induction with
  | base => exact le_rfl
  | succ k _ ih =>
    cases hbad : d.isBad (k * c.erasesize) with
    | false =>
      rw [usable_succ_good hbad, List.length_append]
      omega
    | true => rwa [usable_succ_bad hbad]

/-- A block that is taken for good counts. -/
theorem usable_length_lt {m j : Nat} (hj : j < m) (hgood : d.isBad (j * c.erasesize) = false) :
    (usable c d j).length < (usable c d m).length := by
  have hsucc := @usable_length_mono c d (j + 1) m hj
  rw [usable_succ_good hgood, List.length_append] at hsucc
  simp only [List.length_cons, List.length_nil] at hsucc
  omega

theorem usable_eq_range {m : Nat} (h : ∀ j < m, d.isBad (j * c.erasesize) = false) :
    usable c d m = List.range m := by
  unfold usable
  rw [List.filter_eq_self]
  intro j hj
  simp [h j (List.mem_range.mp hj)]

end Usable

section Clean

variable {c : Cfg} {d : Device} {ds : List Device} {n k : Nat}

/-- An erase fails on a device without bad blocks. -/
theorem clean_move_iff (hk : k < n) (hgood : ∀ j < k, d.isBad (j * c.erasesize) = false)
    (herase : ∀ j < k, d.eraseBlock c (j * c.erasesize + c.partOffset) = true)
    (hstop : d.isBad (k * c.erasesize) = false)
    (hfail : d.eraseBlock c (k * c.erasesize + c.partOffset) = false) :
    Clean c (d :: ds) n ↔
      (∀ j < k, j * c.erasesize + c.partOffset < 2 ^ 32) ∧ Clean c ds (n - k) := by
  constructor
  · intro h
    cases h with
    | last m gaps erasable reach =>
      -- all blocks would have to lie before the one that fails
      exfalso
      by_cases hkm : k < m
      · have := erasable k (mem_usable.mpr ⟨hkm, hstop⟩)
        rw [hfail] at this
        cases this
      · have hlen : (usable c d m).length ≤ (usable c d k).length := usable_length_mono (by omega)
        rw [usable_eq_range hgood, List.length_range] at hlen
        omega
    | next k' short good erasable reach stop fails rest =>
      rcases Nat.lt_trichotomy k k' with hlt | rfl | hgt
      · rw [erasable k hlt] at hfail
        cases hfail
      · exact ⟨reach, rest⟩
      · rw [herase k' hgt] at fails
        cases fails
  · rintro ⟨hreach, hrest⟩
    exact Clean.next k hk hgood herase hreach hstop hfail hrest

/-- An erase fails on a device with bad blocks. -/
theorem not_clean_of_bad {j : Nat} (hlt : (usable c d k).length < n) (hj : j < k)
    (hbad : d.isBad (j * c.erasesize) = true)
    (herase : ∀ j ∈ usable c d k, d.eraseBlock c (j * c.erasesize + c.partOffset) = true)
    (hstop : d.isBad (k * c.erasesize) = false)
    (hfail : d.eraseBlock c (k * c.erasesize + c.partOffset) = false) : ¬ Clean c (d :: ds) n := by
  intro h
  cases h with
  | last m gaps erasable reach =>
    by_cases hkm : k < m
    · have := erasable k (mem_usable.mpr ⟨hkm, hstop⟩)
      rw [hfail] at this
      cases this
    · have hlen : (usable c d m).length ≤ (usable c d k).length := usable_length_mono (by omega)
      omega
  | next k' short good erasable reach stop fails rest =>
    by_cases hk' : k' < k
    · have := herase k' (mem_usable.mpr ⟨hk', stop⟩)
      rw [fails] at this
      cases this
    · rw [good j (by omega)] at hbad
      cases hbad

/-- All blocks lie on this device, up to block `k`. -/
theorem clean_last_iff (hlen : (usable c d k).length = n)
    (hlast : k = 0 ∨ d.isBad ((k - 1) * c.erasesize) = false)
    (herase : ∀ j ∈ usable c d k, d.eraseBlock c (j * c.erasesize + c.partOffset) = true) :
    Clean c (d :: ds) n ↔
      (∀ j < k, d.isBad (j * c.erasesize) = true →
        d.isBad (j * c.erasesize + c.partOffset) = true) ∧
      ∀ j ∈ usable c d k, j * c.erasesize + c.partOffset < 2 ^ 32 := by
  constructor
  · intro h
    cases h with
    | last m gaps erasable reach =>
      -- `m` is no less than `k`, whose last block counts
      have hkm : k ≤ m := by
        rcases hlast with rfl | hlast
        · exact Nat.zero_le m
        · by_contra hmk
          have h1 := @usable_length_mono c d m (k - 1) (by omega)
          have h2 := @usable_length_lt c d k (k - 1) (by omega) hlast
          omega
      refine ⟨fun j hj => gaps j (by omega), fun j hj => reach j ?_⟩
      exact mem_usable.mpr ⟨by have := (mem_usable.mp hj).1; omega, (mem_usable.mp hj).2⟩
    | next k' short good erasable reach stop fails rest =>
      exfalso
      have hk' : k' < k := by
        by_contra hge
        have h1 := @usable_length_mono c d k k' (by omega)
        rw [usable_eq_range good, List.length_range] at h1
        omega
      have := herase k' (mem_usable.mpr ⟨hk', stop⟩)
      rw [fails] at this
      cases this
  · rintro ⟨hgaps, hreach⟩
    rw [← hlen]
    exact Clean.last k hgaps herase hreach

end Clean

end Lede.Mtd
