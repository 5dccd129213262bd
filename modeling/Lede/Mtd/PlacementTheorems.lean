/-
Lede.Mtd.PlacementTheorems — what a write that returned 0 has done.

For a chain of devices: the image lies in the good blocks at and after the offset,
device by device, exactly when the devices are `Clean` (`mtdWrite_placed_iff`). For
one NAND device written from its start there is nothing left to ask for, and the
content of its good blocks starts with the image (`mtdWrite_one_device`).
-/
import Lede.Mtd.WriteRunTheorems

namespace Lede.Mtd

variable {c : Cfg}

/-! ## Beginnings of ascending lists -/

section Sorted

variable {α : Type} [LinearOrder α] {l g : List α}

/-- An ascending list that leaves none out is a beginning. -/
theorem prefix_of_lt_closed (hl : l.Pairwise (· < ·)) (hg : g.Pairwise (· < ·))
    (hsub : ∀ a ∈ l, a ∈ g) (hdown : ∀ a ∈ g, ∀ b ∈ l, a < b → a ∈ l) : l <+: g := by
  induction g generalizing l with
  | nil =>
    have hnil : l = [] := List.eq_nil_iff_forall_not_mem.mpr (fun a ha => by cases hsub a ha)
    subst hnil
    exact List.nil_prefix
  | cons x g ih =>
    cases l with
    | nil => exact List.nil_prefix
    | cons y l =>
      have hx := List.pairwise_cons.mp hg
      have hy := List.pairwise_cons.mp hl
      -- both start with the least element
      have hyx : y = x := by
        rcases List.mem_cons.mp (hsub y List.mem_cons_self) with heq | hmem
        · exact heq
        · have hlt := hx.1 y hmem
          rcases List.mem_cons.mp (hdown x List.mem_cons_self y List.mem_cons_self hlt) with
            heq | hmem'
          · exact heq.symm
          · exact absurd (lt_trans hlt (hy.1 x hmem')) (lt_irrefl _)
      subst hyx
      rw [List.prefix_cons_inj]
      refine ih hy.2 hx.2 (fun a ha => ?_) (fun a ha b hb hab => ?_)
      · rcases List.mem_cons.mp (hsub a (List.mem_cons_of_mem _ ha)) with heq | hmem
        · exact absurd (hy.1 a ha) (by rw [heq]; exact lt_irrefl _)
        · exact hmem
      · rcases List.mem_cons.mp (hdown a (List.mem_cons_of_mem _ ha) b
          (List.mem_cons_of_mem _ hb) hab) with heq | hmem
        · exact absurd (hx.1 a ha) (by rw [heq]; exact lt_irrefl _)
        · exact hmem

end Sorted

/-! ## Good blocks -/

section GoodBlocks

variable {d : Device}

theorem mem_goodBlocks {b : Nat} :
    b ∈ d.goodBlocks c ↔
      b % c.erasesize = 0 ∧ b + c.erasesize ≤ d.size ∧ d.isBad b = false := by
  have hes := c.erasesize_pos
  unfold Device.goodBlocks
  rw [List.mem_filter, List.mem_map, Bool.not_eq_true']
  constructor
  · rintro ⟨⟨q, hq, rfl⟩, hgood⟩
    have hq := List.mem_range.mp hq
    refine ⟨Nat.mul_mod_left q _, ?_, hgood⟩
    have hle : (q + 1) * c.erasesize ≤ d.size := (Nat.le_div_iff_mul_le hes).mp hq
    rwa [Nat.succ_mul] at hle
  · rintro ⟨hmod, hsize, hgood⟩
    refine ⟨⟨b / c.erasesize, ?_, Nat.div_mul_cancel (Nat.dvd_of_mod_eq_zero hmod)⟩, hgood⟩
    rw [List.mem_range]
    refine (Nat.le_div_iff_mul_le hes).mpr ?_
    rw [Nat.succ_mul, Nat.div_mul_cancel (Nat.dvd_of_mod_eq_zero hmod)]
    exact hsize

theorem pairwise_map_mul {l : List Nat} (hl : l.Pairwise (· < ·)) (k : Nat) :
    (l.map (fun j => k + j * c.erasesize)).Pairwise (· < ·) := by
  rw [List.pairwise_map]
  refine hl.imp (fun {a b} hab => ?_)
  have := Nat.mul_lt_mul_of_pos_right hab c.erasesize_pos
  omega

theorem pairwise_goodBlocks : (d.goodBlocks c).Pairwise (· < ·) := by
  unfold Device.goodBlocks
  refine List.Pairwise.filter _ ?_
  rw [List.pairwise_map]
  exact List.pairwise_lt_range.imp (fun {a b} hab => Nat.mul_lt_mul_of_pos_right hab c.erasesize_pos)

theorem pairwise_usable (m : Nat) : (usable c d m).Pairwise (· < ·) :=
  List.Pairwise.filter _ List.pairwise_lt_range

/-- The good blocks at and after the offset. -/
def Device.writable (c : Cfg) (d : Device) : List Nat :=
  (d.goodBlocks c).filter (fun b => c.partOffset ≤ b)

theorem mem_writable {b : Nat} : b ∈ d.writable c ↔ b ∈ d.goodBlocks c ∧ c.partOffset ≤ b := by
  simp [Device.writable]

theorem pairwise_writable : (d.writable c).Pairwise (· < ·) :=
  List.Pairwise.filter _ pairwise_goodBlocks

/-- The blocks taken for good are the first good ones, where the offset makes no
difference to the lookup. -/
theorem usable_prefix_of_le {m : Nat} (hpo : c.partOffset % c.erasesize = 0)
    (hgaps : ∀ j < m, d.isBad (j * c.erasesize) = true →
      d.isBad (j * c.erasesize + c.partOffset) = true)
    (herase : ∀ j ∈ usable c d m, d.eraseBlock c (j * c.erasesize + c.partOffset) = true)
    (hreach : ∀ j ∈ usable c d m, j * c.erasesize + c.partOffset < 2 ^ 32) :
    (usable c d m).map (fun j => d.seekSet c.partOffset + j * c.erasesize) <+: d.writable c := by
  have hes := c.erasesize_pos
  have hseek : ∀ j ∈ usable c d m, d.seekSet c.partOffset = c.partOffset := by
    intro j hj
    have := (eraseBlock_spec (herase j hj) (hreach j hj)).2.1
    exact if_pos (by omega)
  refine prefix_of_lt_closed (pairwise_map_mul (pairwise_usable m) _) pairwise_writable ?_ ?_
  · intro a ha
    obtain ⟨j, hj, rfl⟩ := List.mem_map.mp ha
    obtain ⟨hmod, hsize, hgood⟩ := eraseBlock_spec (herase j hj) (hreach j hj)
    rw [hseek j hj, Nat.add_comm]
    exact mem_writable.mpr ⟨mem_goodBlocks.mpr ⟨hmod, hsize, hgood⟩, Nat.le_add_left _ _⟩
  · intro a ha b hb hab
    obtain ⟨j, hj, rfl⟩ := List.mem_map.mp hb
    obtain ⟨hmem, hle⟩ := mem_writable.mp ha
    obtain ⟨hmod, -, hgood⟩ := mem_goodBlocks.mp hmem
    rw [hseek j hj] at hab ⊢
    -- `a` is block `j'` behind the offset
    obtain ⟨j', hj'⟩ : ∃ j', a = c.partOffset + j' * c.erasesize := by
      obtain ⟨q, hq⟩ := Nat.dvd_sub (Nat.dvd_of_mod_eq_zero hmod) (Nat.dvd_of_mod_eq_zero hpo)
      exact ⟨q, by rw [Nat.mul_comm] at hq; omega⟩
    subst hj'
    have hlt : j' < j := by
      by_contra hge
      have := Nat.mul_le_mul_right c.erasesize (Nat.le_of_not_lt hge)
      omega
    refine List.mem_map.mpr ⟨j', mem_usable.mpr ⟨?_, ?_⟩, rfl⟩
    · have := (mem_usable.mp hj).1
      omega
    · by_contra hbad
      have hjm := (mem_usable.mp hj).1
      have := hgaps j' (by omega) (by simpa using hbad)
      rw [Nat.add_comm, hgood] at this
      cases this

end GoodBlocks

/-! ## Chains -/

/-- An image of which nothing is lost, repeated or written to a block that was not
erased: on each device the blocks programmed are its first good ones at and after the
offset, and read back device by device they are the image. -/
structure Placed (c : Cfg) (chain : List Device) (image : List UInt8) (log : List Op) : Prop where
  blocks : ∀ i d, chain[i]? = some d → programmedOn log i <+: d.writable c
  bytes : readBack log chain.length = (padImage c.erasesize image).map some
  erased : ErasedFirst log

section Chains

variable {chain : List Device} {image : List UInt8} {s : St} {nd je jw js : Nat}

theorem Logged.lt_length {m : Nat} (h : Logged c chain s je m) : s.dev < chain.length := by
  have hcur := h.cur
  exact (List.getElem?_eq_some_iff.mp hcur).1

/-- Where an honest run has returned, all blocks left for the device are on it. -/
theorem Honest.finished (h : Honest c chain image s nd je jw js) (hphase : s.phase = .fill)
    (hbuf : s.buf = []) (himg : s.img = []) :
    je = jw + js ∧ (usable c s.cur je).length = nd ∧
      (je = 0 ∨ s.cur.isBad ((je - 1) * c.erasesize) = false) ∧
      readBack s.log chain.length = (padImage c.erasesize image).map some := by
  have hes := c.erasesize_pos
  have hskipped := h.counters.skipped
  have hleft := h.left
  rw [hbuf, himg, List.append_nil, List.length_nil, blockCount, Nat.zero_add,
    Nat.div_eq_of_lt (by omega)] at hleft
  rcases h.counters.turn with ⟨-, hje, hlast⟩ | ⟨herase, -, -⟩
  · refine ⟨hje, by omega, hlast, ?_⟩
    obtain ⟨written, hread, hpad⟩ := h.copied
    rw [hbuf, himg, List.append_nil, padImage_nil, List.append_nil] at hpad
    rw [hpad, ← hread]
    exact readBack_of_le h.logged.lt_length
      (fun op hop => Nat.lt_succ_of_le (h.logged.devs op hop))
  · rw [hphase] at herase
    cases herase

theorem Honest.placed_of_clean (h : Honest c chain image s nd je jw js)
    (hpo : c.partOffset % c.erasesize = 0) (hphase : s.phase = .fill) (hbuf : s.buf = [])
    (himg : s.img = []) (hclean : Clean c chain (blockCount c.erasesize image.length)) :
    Placed c chain image s.log := by
  obtain ⟨hje, hlen, hlast, hbytes⟩ := h.finished hphase hbuf himg
  have hlogged := h.logged
  rw [← hje] at hlogged
  rw [h.clean, clean_last_iff hlen hlast h.counters.erasable] at hclean
  obtain ⟨hpast, hgaps, hreach⟩ := hclean
  have hnone : ∀ i, s.dev < i → programmedOn s.log i = [] := fun i hi =>
    programmedOn_of_forall_ne (fun op hop => by have := h.logged.devs op hop; omega)
  refine ⟨fun i d hd => ?_, hbytes, h.logged.erased (fun i => ?_)⟩
  · rcases Nat.lt_trichotomy i s.dev with hlt | rfl | hgt
    · -- a device that was left: no block of it was reported
      obtain ⟨d', k, hd', hprog, hk⟩ := h.logged.past i hlt
      rw [hd] at hd'
      cases hd'
      have hrange := @usable_eq_range c d k (fun j hj => (hk j hj).1)
      rw [hprog, ← hrange]
      refine usable_prefix_of_le hpo (fun j hj hbad => ?_) (fun j hj => (hk j (mem_usable.mp hj).1).2)
        (fun j hj => ?_)
      · rw [(hk j hj).1] at hbad
        cases hbad
      · have hj := (mem_usable.mp hj).1
        have hp := hpast i hlt d hd (d.seekSet c.partOffset + j * c.erasesize) (by
          rw [hprog]
          exact List.mem_map.mpr ⟨j, List.mem_range.mpr hj, rfl⟩)
        rw [Device.seekSet, if_pos hp.1] at hp
        omega
    · rw [h.logged.cur] at hd
      cases hd
      rw [hlogged.programs]
      exact usable_prefix_of_le hpo hgaps h.counters.erasable hreach
    · rw [hnone i hgt]
      exact List.nil_prefix
  · rcases Nat.lt_trichotomy i s.dev with hlt | rfl | hgt
    · exact hpast i hlt
    · exact (reached_iff hlogged h.counters.erasable).mpr hreach
    · intro d _ p hp
      rw [hnone i hgt] at hp
      cases hp

end Chains

/-- The content of a block. -/
def readBlock (c : Cfg) (m : Nat → UInt8) (b : Nat) : List UInt8 :=
  (List.range c.erasesize).map (fun i => m (b + i))

/-- What was programmed is there, and the block erased last is empty. -/
structure Stored (c : Cfg) (m : Nat → UInt8) (s : St) (je n : Nat) : Prop where
  whole : ∀ i pos data, .program i pos data ∈ s.log → data.length = c.erasesize
  holds : ((programmedOn s.log s.dev).flatMap (readBlock c (content c s.dev m s.log))).map some =
    dataOn s.log s.dev
  ready : je = n + 1 → ∀ i < c.erasesize, content c s.dev m s.log (n * c.erasesize + i) = 0xff

section OneDevice

variable {m : Nat → UInt8} {log : List Op} {b pos x dev : Nat} {data : List (Option UInt8)}

theorem content_append (op : Op) :
    content c dev m (log ++ [op]) = op.apply c dev (content c dev m log) := by
  simp [content]

/-- A block in front of the one that is erased. -/
theorem readBlock_erase (hb : b + c.erasesize ≤ x) :
    readBlock c (content c dev m (log ++ [.erase dev x])) b = readBlock c (content c dev m log) b := by
  unfold readBlock
  refine List.map_congr_left (fun i hi => ?_)
  have hi := List.mem_range.mp hi
  rw [content_append, Op.apply, if_neg (by omega)]

/-- A block in front of the one that is programmed. -/
theorem readBlock_program (hb : b + c.erasesize ≤ pos) :
    readBlock c (content c dev m (log ++ [.program dev pos data])) b =
      readBlock c (content c dev m log) b := by
  unfold readBlock
  refine List.map_congr_left (fun i hi => ?_)
  have hi := List.mem_range.mp hi
  rw [content_append, Op.apply, if_neg (by omega)]

/-- A block that was empty. -/
theorem readBlock_program_self {buf : List UInt8} (hbuf : buf.length = c.erasesize)
    (hempty : ∀ i < c.erasesize, content c dev m log (pos + i) = 0xff) :
    readBlock c (content c dev m (log ++ [.program dev pos (buf.map some)])) pos = buf := by
  unfold readBlock
  apply List.ext_getElem?
  intro i
  by_cases hi : i < c.erasesize
  · rw [List.getElem?_map, List.getElem?_range hi, Option.map_some, content_append, Op.apply,
      if_pos ⟨rfl, by omega, by rw [List.length_map]; omega⟩, hempty i hi, Nat.add_sub_cancel_left,
      List.getD_eq_getElem?_getD, List.getElem?_map, List.getElem?_eq_getElem (by omega),
      Option.map_some, Option.getD_some, Option.getD_some]
    exact congrArg some UInt8.neg_one_and
  · rw [List.getElem?_eq_none (by rw [List.length_map, List.length_range]; omega),
      List.getElem?_eq_none (by omega)]

variable {d : Device} {image : List UInt8} {s s' : St} {nd je jw js : Nat}

/-- The blocks programmed lie in front of the next one. -/
theorem Logged.programmed_le {n : Nat} (hpo : c.partOffset = 0) (h : Logged c [d] s je n)
    (hb : b ∈ programmedOn s.log s.dev) : b + c.erasesize ≤ n * c.erasesize := by
  rw [h.programs] at hb
  obtain ⟨j, hj, rfl⟩ := List.mem_map.mp hb
  have hle := Nat.mul_le_mul_right c.erasesize (mem_usable.mp hj).1
  have hseek : s.cur.seekSet c.partOffset = 0 := by
    rw [hpo]
    exact if_pos (Nat.zero_le _)
  rw [Nat.succ_mul] at hle
  omega

theorem Stored.erase (h : Stored c m s je je) (hhonest : Logged c [d] s je je)
    (hpo : c.partOffset = 0) (hlt : je * c.erasesize < 2 ^ 32) (e : Nat) :
    Stored c m { s with
      e := e
      log := s.log ++ [.erase s.dev (eraseStart (je * c.erasesize + c.partOffset))] }
      (je + 1) je := by
  have hstart : eraseStart (je * c.erasesize + c.partOffset) = je * c.erasesize := by
    rw [hpo, Nat.add_zero, eraseStart, Nat.mod_eq_of_lt hlt]
  rw [hstart]
  exact {
    whole := by
      intro i pos data hmem
      rcases List.mem_append.mp hmem with hmem | hmem
      · exact h.whole i pos data hmem
      · cases List.mem_singleton.mp hmem
    holds := by
      have hdata : dataOn (s.log ++ [.erase s.dev (je * c.erasesize)]) s.dev = dataOn s.log s.dev := by
        simp [dataOn]
      dsimp only
      rw [programmedOn_erase, hdata, ← h.holds]
      congr 1
      rw [List.flatMap_def, List.flatMap_def]
      congr 1
      exact List.map_congr_left (fun b hb => readBlock_erase (hhonest.programmed_le hpo hb))
    ready := by
      intro _ i hi
      dsimp only
      rw [content_append, Op.apply, if_pos ⟨rfl, by omega, by omega⟩] }

theorem Stored.program {n : Nat} (h : Stored c m s (n + 1) n) (hlogged : Logged c [d] s (n + 1) n)
    (hpo : c.partOffset = 0) (hpos : s.pos = n * c.erasesize) (hbuf : s.buf.length = c.erasesize)
    (hoff : s.offset = 0) (pos w : Nat) :
    Stored c m { s with
      log := s.log ++ [.program s.dev s.pos (s.source c.erasesize)], pos := pos
      w := w, offset := 0, buf := [], phase := .fill } (n + 1) (n + 1) := by
  rw [source_eq hoff hbuf]
  exact {
    whole := by
      intro i pos data hmem
      rcases List.mem_append.mp hmem with hmem | hmem
      · exact h.whole i pos data hmem
      · cases List.mem_singleton.mp hmem
        rw [List.length_map]
        exact hbuf
    holds := by
      have hdata : dataOn (s.log ++ [.program s.dev s.pos (s.buf.map some)]) s.dev =
          dataOn s.log s.dev ++ s.buf.map some := by
        simp [dataOn]
      have hempty : ∀ i < c.erasesize, content c s.dev m s.log (s.pos + i) = 0xff := by
        rw [hpos]
        exact h.ready rfl
      have hbefore : (programmedOn s.log s.dev).flatMap
          (readBlock c (content c s.dev m (s.log ++ [.program s.dev s.pos (s.buf.map some)]))) =
          (programmedOn s.log s.dev).flatMap (readBlock c (content c s.dev m s.log)) := by
        rw [List.flatMap_def, List.flatMap_def]
        congr 1
        refine List.map_congr_left (fun b hb => readBlock_program ?_)
        rw [hpos]
        exact hlogged.programmed_le hpo hb
      dsimp only
      rw [programmedOn_program_self, List.flatMap_append, hbefore, List.flatMap_singleton,
        readBlock_program_self hbuf hempty, List.map_append, h.holds, hdata]
    ready := fun hne => by omega }

/-- In front of every turn of a write to one device. -/
def OneInv (c : Cfg) (d : Device) (image : List UInt8) (m : Nat → UInt8) (s : St) : Prop :=
  ∃ nd je jw js, Honest c [d] image s nd je jw js ∧ Stored c m s je (jw + js)

theorem next_eq_nil {n : Nat} (h : Logged c [d] s je n) : s.dev = 0 ∧ s.cur = d ∧ s.next = [] := by
  have hdev : s.dev = 0 := by
    have := h.lt_length
    simpa using this
  have hhere := h.here
  rw [hdev, List.drop_zero] at hhere
  obtain ⟨hd, hnext⟩ := List.cons.inj hhere
  exact ⟨hdev, hd.symm, hnext.symm⟩

theorem OneInv.step (hn : c.noErase = false) (hpo : c.partOffset = 0) (hnand : d.nand = true)
    (hstep : Mtd.step c s = .next s') (h : OneInv c d image m s) : OneInv c d image m s' := by
  obtain ⟨nd, je, jw, js, h, hstored⟩ := h
  obtain ⟨-, hcur, hnone⟩ := next_eq_nil h.logged
  rcases step_cases hn hstep with ⟨hphase, hne, rfl⟩ | ⟨hphase, hlt, ⟨hbad, rfl⟩ |
    ⟨hgood, herase, rfl⟩ | ⟨-, -, d', ds, hnext, -⟩⟩ | ⟨hphase, hge, hfull, rfl⟩
  · exact ⟨_, _, _, _, h.fill hphase hne, ⟨hstored.whole, hstored.holds, hstored.ready⟩⟩
  · refine ⟨_, _, _, _, h.bad hphase hlt hbad, ⟨hstored.whole, hstored.holds, fun hje => ?_⟩⟩
    have := h.counters.erasing hphase hlt
    omega
  · have heq := h.counters.erasing hphase hlt
    have hin := lt_of_blockIsBad hgood (by rw [hcur]; exact hnand)
    have hhonest := h.erase hphase hlt hgood herase
    have hlogged := h.logged
    rw [← heq] at hlogged hstored
    rw [h.counters.e] at hin hhonest ⊢
    refine ⟨_, _, _, _, hhonest, ?_⟩
    rw [← heq]
    exact hstored.erase hlogged hpo (by omega) _
  · -- there is no other device
    rw [hnone] at hnext
    cases hnext
  · obtain ⟨hbuf, hje, -⟩ := h.counters.writing hphase hge
    have hhonest := h.write hphase hge hfull
    have hwrite := write_eq (s := s) hfull
    have hes := c.erasesize_pos
    rw [hbuf] at hfull hhonest hwrite ⊢
    rw [if_neg (by omega)] at hwrite
    have hpos := (h.counters.pos_of_writes hfull).1
    have hseek : s.cur.seekSet c.partOffset = 0 := by
      rw [hpo]
      exact if_pos (Nat.zero_le _)
    have hlogged := h.logged
    rw [hje] at hlogged hstored
    rw [hwrite] at hhonest ⊢
    refine ⟨_, _, _, _, hhonest, ?_⟩
    have hsucc : jw + 1 + js = jw + js + 1 := by omega
    rw [hsucc, hje]
    exact hstored.program hlogged hpo (by omega) hbuf h.counters.offset _ _

theorem writable_eq_goodBlocks (hpo : c.partOffset = 0) : d.writable c = d.goodBlocks c := by
  unfold Device.writable
  rw [hpo, List.filter_eq_self]
  intro b _
  simp

theorem flatMap_prefix_of {l g : List Nat} (f : Nat → List UInt8) (h : l <+: g) :
    l.flatMap f <+: g.flatMap f := by
  obtain ⟨t, rfl⟩ := h
  rw [List.flatMap_append]
  exact List.prefix_append _ _

theorem length_flatMap_readBlock (l : List Nat) (f : Nat → UInt8) :
    (l.flatMap (readBlock c f)).length = l.length * c.erasesize := by
  induction l with
  | nil => simp
  | cons b l ih =>
    have hblock : (readBlock c f b).length = c.erasesize := by simp [readBlock]
    rw [List.flatMap_cons, List.length_append, ih, hblock, List.length_cons, Nat.succ_mul]
    omega

/-- Where the write returns. -/
theorem OneInv.finished (hpo : c.partOffset = 0) (hnand : d.nand = true)
    (h : OneInv c d image m s) (hret : Mtd.step c s = .ret s') :
    let blocks := (d.goodBlocks c).take (blockCount c.erasesize image.length)
    padImage c.erasesize image <+:
      (d.goodBlocks c).flatMap (readBlock c (content c 0 m s'.log)) ∧
    ErasedFirst s'.log ∧ erasedOn s'.log 0 = blocks ∧ programmedOn s'.log 0 = blocks ∧
    (∀ op ∈ s'.log, op.dev = 0) ∧
    ∀ i pos data, .program i pos data ∈ s'.log → data.length = c.erasesize := by
  obtain ⟨nd, je, jw, js, h, hstored⟩ := h
  obtain ⟨hphase, hbuf, himg, hlog⟩ := ret_empty h.counters.buf hret
  obtain ⟨hje, hlen, hlast, hbytes⟩ := h.finished hphase hbuf himg
  obtain ⟨hdev, hcur, hnext⟩ := next_eq_nil h.logged
  have hes := c.erasesize_pos
  have hlogged := h.logged
  rw [← hje] at hlogged
  -- without an offset nothing more is asked of the device
  have hreach : ∀ j ∈ usable c s.cur je, j * c.erasesize + c.partOffset < 2 ^ 32 := by
    intro j hj
    have := h.counters.looked j (mem_usable.mp hj).1 (by rw [hcur]; exact hnand)
    omega
  have hclean : Clean c [d] (blockCount c.erasesize image.length) := by
    rw [h.clean, clean_last_iff hlen hlast h.counters.erasable]
    refine ⟨fun i hi => by omega, fun j _ hbad => ?_, hreach⟩
    rw [hpo, Nat.add_zero]
    exact hbad
  have hplaced := h.placed_of_clean (by rw [hpo, Nat.zero_mod]) hphase hbuf himg hclean
  have hprefix := hplaced.blocks 0 d rfl
  rw [writable_eq_goodBlocks hpo] at hprefix
  have hholds := hstored.holds
  rw [hdev] at hholds
  have hdata : dataOn s.log 0 = (padImage c.erasesize image).map some := by
    rw [← hbytes]
    simp [readBack]
  have hcontent : (programmedOn s.log 0).flatMap (readBlock c (content c 0 m s.log)) =
      padImage c.erasesize image := by
    rw [hdata] at hholds
    exact (List.map_inj_right (fun _ _ => Option.some.inj)).mp hholds
  have hcount : (programmedOn s.log 0).length = blockCount c.erasesize image.length := by
    have hlens := congrArg List.length hcontent
    rw [length_flatMap_readBlock, padImage_length hes] at hlens
    exact Nat.eq_of_mul_eq_mul_right hes hlens
  have htake := List.prefix_iff_eq_take.mp hprefix
  rw [hcount] at htake
  have herases : erasedOn s.log 0 = programmedOn s.log 0 := by
    have hprograms := hlogged.programs
    have herases := hlogged.erases
    have hseek : s.cur.seekSet c.partOffset = 0 := by
      rw [hpo]
      exact if_pos (Nat.zero_le _)
    rw [hdev] at hprograms herases
    rw [hprograms, herases]
    refine List.map_congr_left (fun j hj => ?_)
    rw [eraseStart, Nat.mod_eq_of_lt (hreach j hj), hseek, hpo, Nat.add_zero, Nat.zero_add]
  dsimp only
  rw [hlog]
  refine ⟨?_, hplaced.erased, by rw [herases, ← htake], htake, fun op hop => ?_, hstored.whole⟩
  · have hpre := flatMap_prefix_of (readBlock c (content c 0 m s.log)) hprefix
    rwa [hcontent] at hpre
  · have := h.logged.devs op hop
    omega

end OneDevice

end Lede.Mtd
