/-
Lede.Mtd.WriteRunTheorems — runs of `mtd_write`.

The invariant of a run has two faces. `Honest`: the counters of the open device agree
(`Counters`), the log holds the image up to here (`Logged`), and whether the whole
write goes well is decided by the devices that are left (`clean`). `Derailed`:
`buf + offset` lies behind the buffer, or bytes from there have been programmed.
-/
import Lede.Mtd.WriteTheorems

namespace Lede.Mtd

variable {c : Cfg}

/-! ## The invariant -/

/-- On device `i` of the chain, nothing was programmed on blocks the offset of which
does not fit, or with the first seek refused. -/
def Reached (c : Cfg) (chain : List Device) (log : List Op) (i : Nat) : Prop :=
  ∀ d, chain[i]? = some d → ∀ p ∈ programmedOn log i, c.partOffset ≤ d.size ∧ p < 2 ^ 32

/-- The counters, as numbers of blocks: `je` looked up, `jw` written, `js` skipped. -/
structure Counters (c : Cfg) (s : St) (je jw js : Nat) : Prop where
  e : s.e = je * c.erasesize
  w : s.w = jw * c.erasesize
  skip : s.skipBadBlocks = js * c.erasesize
  offset : s.offset = 0
  buf : s.buf.length ≤ c.erasesize
  skipped : (usable c s.cur je).length + js = je
  erasable : ∀ j ∈ usable c s.cur je,
    s.cur.eraseBlock c (j * c.erasesize + c.partOffset) = true
  looked : ∀ j < je, s.cur.nand = true → j * c.erasesize < 2 ^ 31
  pos : s.pos = s.cur.seekSet c.partOffset + (jw + js) * c.erasesize ∨
    s.cur.size < s.pos + c.erasesize
  turn :
    (s.phase = .fill ∧ je = jw + js ∧
      (je = 0 ∨ s.cur.isBad ((je - 1) * c.erasesize) = false)) ∨
    (s.phase = .erase ∧ s.buf.length = c.erasesize ∧
      (je = jw + js ∨ (je = jw + js + 1 ∧ s.cur.isBad ((jw + js) * c.erasesize) = false)))

/-- The log against the chain. -/
structure Logged (c : Cfg) (chain : List Device) (s : St) (je m : Nat) : Prop where
  here : chain.drop s.dev = s.cur :: s.next
  devs : ∀ op ∈ s.log, op.dev ≤ s.dev
  starts : ∀ i x, .erase i x ∈ s.log → x < 2 ^ 32
  erases : erasedOn s.log s.dev =
    (usable c s.cur je).map (fun j => eraseStart (j * c.erasesize + c.partOffset))
  programs : programmedOn s.log s.dev =
    (usable c s.cur m).map (fun j => s.cur.seekSet c.partOffset + j * c.erasesize)
  past : ∀ i < s.dev, ∃ d k, chain[i]? = some d ∧
    programmedOn s.log i =
      (List.range k).map (fun j => d.seekSet c.partOffset + j * c.erasesize) ∧
    ∀ j < k, d.isBad (j * c.erasesize) = false ∧
      d.eraseBlock c (j * c.erasesize + c.partOffset) = true
  erased : (∀ i, Reached c chain s.log i) → ErasedFirst s.log

/-- The image against the log. -/
def Copied (c : Cfg) (image : List UInt8) (s : St) : Prop :=
  ∃ written : List UInt8, readBack s.log (s.dev + 1) = written.map some ∧
    padImage c.erasesize image = written ++ padImage c.erasesize (s.buf ++ s.img)

/-- Nothing has gone wrong so far; `nd` blocks were left when the device was opened. -/
structure Honest (c : Cfg) (chain : List Device) (image : List UInt8) (s : St)
    (nd je jw js : Nat) : Prop where
  counters : Counters c s je jw js
  logged : Logged c chain s je (jw + js)
  copied : Copied c image s
  left : nd = jw + blockCount c.erasesize (s.buf ++ s.img).length
  clean : Clean c chain (blockCount c.erasesize image.length) ↔
    (∀ i < s.dev, Reached c chain s.log i) ∧ Clean c (s.cur :: s.next) nd

/-- Bytes that are not the image's were programmed, or will be. -/
structure Derailed (c : Cfg) (chain : List Device) (s : St) : Prop where
  here : chain.drop s.dev = s.cur :: s.next
  devs : ∀ op ∈ s.log, op.dev ≤ s.dev
  foreign : (∃ op ∈ s.log, none ∈ op.data) ∨
    (s.buf.length = c.erasesize ∧ c.erasesize ≤ s.offset ∧ c.erasesize ∣ s.e ∧ c.erasesize ∣ s.w)

/-! ## Turns of the loops -/

section Turns

variable {s : St} {je jw js : Nat}

theorem isBad_of_blockIsBad {d : Device} {off : Nat} {b : Bool} (h : d.blockIsBad off = some b) :
    d.isBad off = b := by
  unfold Device.blockIsBad at h
  unfold Device.isBad
  split at h
  · next hnand =>
    split at h
    · cases h
    · cases h
      rw [hnand, Bool.true_and]
  · next hnand =>
    cases h
    simp [hnand]

theorem lt_of_blockIsBad {d : Device} {off : Nat} {b : Bool} (h : d.blockIsBad off = some b)
    (hnand : d.nand = true) : off < 2 ^ 31 := by
  unfold Device.blockIsBad at h
  rw [if_pos hnand] at h
  split at h
  · cases h
  · omega

/-- A block that was erased, where the offset fits. -/
theorem eraseBlock_spec {d : Device} {off : Nat} (h : d.eraseBlock c off = true)
    (hfit : off < 2 ^ 32) :
    off % c.erasesize = 0 ∧ off + c.erasesize ≤ d.size ∧ d.isBad off = false := by
  simp only [Device.eraseBlock, eraseStart, Nat.mod_eq_of_lt hfit, Bool.and_eq_true,
    decide_eq_true_eq, beq_iff_eq, Bool.not_eq_true'] at h
  exact ⟨h.1.1.1, h.1.1.2, h.1.2⟩

/-- In front of an erase, all that was looked up is written or skipped. -/
theorem Counters.erasing (h : Counters c s je jw js) (hphase : s.phase = .erase)
    (hlt : s.e < s.w + s.buf.length + s.skipBadBlocks) : je = jw + js := by
  rcases h.turn with ⟨hfill, -, -⟩ | ⟨-, hbuf, heq | ⟨hsucc, -⟩⟩
  · rw [hphase] at hfill
    cases hfill
  · exact heq
  · exfalso
    rw [h.e, h.w, h.skip, hbuf, hsucc] at hlt
    have hsum : (jw + js + 1) * c.erasesize =
        jw * c.erasesize + c.erasesize + js * c.erasesize := by ring
    omega

/-- In front of a write, one more block was looked up, and was good. -/
theorem Counters.writing (h : Counters c s je jw js) (hphase : s.phase = .erase)
    (hge : s.w + s.buf.length + s.skipBadBlocks ≤ s.e) :
    s.buf.length = c.erasesize ∧ je = jw + js + 1 ∧
      s.cur.isBad ((jw + js) * c.erasesize) = false := by
  rcases h.turn with ⟨hfill, -, -⟩ | ⟨-, hbuf, heq | ⟨hsucc, hgood⟩⟩
  · rw [hphase] at hfill
    cases hfill
  · exfalso
    have hpos := c.erasesize_pos
    rw [h.e, h.w, h.skip, hbuf, heq, Nat.add_mul] at hge
    omega
  · exact ⟨hbuf, hsucc, hgood⟩

theorem Counters.bad (h : Counters c s je jw js) (hphase : s.phase = .erase)
    (hlt : s.e < s.w + s.buf.length + s.skipBadBlocks)
    (hbad : s.cur.blockIsBad s.e = some true) :
    Counters c { s with
      skipBadBlocks := s.skipBadBlocks + c.erasesize, e := s.e + c.erasesize
      pos := s.cur.seekCur s.pos c.erasesize } (je + 1) jw (js + 1) := by
  have heq := h.erasing hphase hlt
  have hisbad := isBad_of_blockIsBad hbad
  have hin := lt_of_blockIsBad hbad
  rw [h.e] at hisbad hin
  have husable := @usable_succ_bad c s.cur je hisbad
  exact {
    e := by dsimp only; rw [h.e, Nat.succ_mul]
    w := h.w
    skip := by dsimp only; rw [h.skip, Nat.succ_mul]
    offset := h.offset
    buf := h.buf
    skipped := by
      dsimp only
      rw [husable, ← Nat.add_assoc, h.skipped]
    erasable := by
      dsimp only
      rw [husable]
      exact h.erasable
    looked := by
      intro j hj hnand
      rcases Nat.lt_succ_iff_lt_or_eq.mp hj with hj | rfl
      · exact h.looked j hj hnand
      · exact hin hnand
    pos := by
      dsimp only [Device.seekCur]
      split
      · next hfits =>
        rcases h.pos with hpos | hpos
        · left
          rw [hpos]
          ring
        · omega
      · next hfull =>
        right
        omega
    turn := by
      right
      refine ⟨hphase, ?_, Or.inl (by omega)⟩
      rcases h.turn with ⟨hfill, -, -⟩ | ⟨-, hbuf, -⟩
      · rw [hphase] at hfill
        cases hfill
      · exact hbuf }

theorem Counters.erased (h : Counters c s je jw js) (hphase : s.phase = .erase)
    (hlt : s.e < s.w + s.buf.length + s.skipBadBlocks)
    (hgood : s.cur.blockIsBad s.e = some false)
    (herase : s.cur.eraseBlock c (s.e + c.partOffset) = true) (log : List Op) :
    Counters c { s with e := s.e + c.erasesize, log := log } (je + 1) jw js := by
  have heq := h.erasing hphase hlt
  have hisgood := isBad_of_blockIsBad hgood
  have hin := lt_of_blockIsBad hgood
  rw [h.e] at hisgood herase hin
  have husable := @usable_succ_good c s.cur je hisgood
  exact {
    e := by dsimp only; rw [h.e, Nat.succ_mul]
    w := h.w
    skip := h.skip
    offset := h.offset
    buf := h.buf
    skipped := by
      have hskipped := h.skipped
      dsimp only
      rw [husable, List.length_append, List.length_singleton]
      omega
    erasable := by
      dsimp only
      rw [husable]
      intro j hj
      rcases List.mem_append.mp hj with hj | hj
      · exact h.erasable j hj
      · rw [List.mem_singleton.mp hj]
        exact herase
    looked := by
      intro j hj hnand
      rcases Nat.lt_succ_iff_lt_or_eq.mp hj with hj | rfl
      · exact h.looked j hj hnand
      · exact hin hnand
    pos := h.pos
    turn := by
      right
      refine ⟨hphase, ?_, Or.inr ⟨by omega, by rw [← heq]; exact hisgood⟩⟩
      rcases h.turn with ⟨hfill, -, -⟩ | ⟨-, hbuf, -⟩
      · rw [hphase] at hfill
        cases hfill
      · exact hbuf }

/-- A write of a whole block: the descriptor stands where it should, unless it was
never moved to the offset. -/
theorem Counters.pos_of_writes (h : Counters c s je jw js)
    (hfull : s.cur.writes s.pos c.erasesize = c.erasesize) :
    s.pos = s.cur.seekSet c.partOffset + (jw + js) * c.erasesize ∧
      s.pos + c.erasesize ≤ s.cur.size := by
  have hpos := c.erasesize_pos
  have hroom : s.pos + c.erasesize ≤ s.cur.size := by
    unfold Device.writes at hfull
    omega
  rcases h.pos with heq | hstuck
  · exact ⟨heq, hroom⟩
  · omega

theorem Counters.written (h : Counters c s je jw js) (hphase : s.phase = .erase)
    (hge : s.w + s.buf.length + s.skipBadBlocks ≤ s.e)
    (hfull : s.cur.writes s.pos s.buf.length = s.buf.length) :
    Counters c { s.write s.buf.length with
      w := s.w + s.buf.length, offset := 0, buf := [], phase := .fill } je (jw + 1) js := by
  obtain ⟨hbuf, hje, hgood⟩ := h.writing hphase hge
  have hpos := c.erasesize_pos
  rw [hbuf] at hfull ⊢
  have hn : ¬ s.cur.writes s.pos c.erasesize = 0 := by omega
  have hat := h.pos_of_writes hfull
  unfold St.write
  dsimp only
  rw [if_neg hn]
  exact {
    e := h.e
    w := by dsimp only; rw [h.w, Nat.succ_mul]
    skip := h.skip
    offset := rfl
    buf := Nat.zero_le _
    skipped := h.skipped
    erasable := h.erasable
    looked := h.looked
    pos := by
      left
      dsimp only
      rw [hfull, hat.1]
      ring
    turn := by
      left
      refine ⟨rfl, by omega, Or.inr ?_⟩
      rw [hje]
      exact hgood }

end Turns

/-! ## The log and the image -/

section LogTurns

variable {chain : List Device} {s : St} {je m : Nat}

theorem Logged.cur (h : Logged c chain s je m) : chain[s.dev]? = some s.cur := by
  have hzero : (chain.drop s.dev)[0]? = chain[s.dev]? := by
    rw [List.getElem?_drop, Nat.add_zero]
  rw [← hzero, h.here]
  rfl

/-- A block the lookup reports is neither erased nor programmed. -/
theorem Logged.bad (h : Logged c chain s je je)
    (hbad : s.cur.isBad (je * c.erasesize) = true) : Logged c chain s (je + 1) (je + 1) := by
  have husable := @usable_succ_bad c s.cur je hbad
  exact {
    here := h.here
    devs := h.devs
    starts := h.starts
    erases := by rw [husable]; exact h.erases
    programs := by rw [husable]; exact h.programs
    past := h.past
    erased := h.erased }

theorem Logged.erase (h : Logged c chain s je m)
    (hgood : s.cur.isBad (je * c.erasesize) = false) (e : Nat) :
    Logged c chain { s with
      e := e
      log := s.log ++ [.erase s.dev (eraseStart (je * c.erasesize + c.partOffset))] } (je + 1) m := by
  have husable := @usable_succ_good c s.cur je hgood
  exact {
    here := h.here
    devs := by
      intro op hop
      rcases List.mem_append.mp hop with hop | hop
      · exact h.devs op hop
      · rw [List.mem_singleton.mp hop]
        exact le_rfl
    starts := by
      intro i x hx
      rcases List.mem_append.mp hx with hx | hx
      · exact h.starts i x hx
      · cases List.mem_singleton.mp hx
        exact Nat.mod_lt _ (by decide)
    erases := by
      dsimp only
      rw [erasedOn_erase_self, h.erases, husable, List.map_append, List.map_singleton]
    programs := by
      dsimp only
      rw [programmedOn_erase]
      exact h.programs
    past := by
      intro i hi
      obtain ⟨d, k, hd, hprog, hk⟩ := h.past i hi
      exact ⟨d, k, hd, by dsimp only; rw [programmedOn_erase]; exact hprog, hk⟩
    erased := by
      intro hreach
      refine (erasedFirst_append _).mpr ⟨h.erased (fun i d hd p hp => ?_), ?_⟩
      · exact hreach i d hd p (by dsimp only; rw [programmedOn_erase]; exact hp)
      · intro i pos data hop
        cases hop }

theorem Logged.program (h : Logged c chain s (m + 1) m)
    (hgood : s.cur.isBad (m * c.erasesize) = false)
    (hpos : s.pos = s.cur.seekSet c.partOffset + m * c.erasesize)
    (data : List (Option UInt8)) (pos w : Nat) :
    Logged c chain { s with
      log := s.log ++ [.program s.dev s.pos data], pos := pos
      w := w, offset := 0, buf := [], phase := .fill } (m + 1) (m + 1) := by
  have husable := @usable_succ_good c s.cur m hgood
  exact {
    here := h.here
    devs := by
      intro op hop
      rcases List.mem_append.mp hop with hop | hop
      · exact h.devs op hop
      · rw [List.mem_singleton.mp hop]
        exact le_rfl
    starts := by
      intro i x hx
      rcases List.mem_append.mp hx with hx | hx
      · exact h.starts i x hx
      · cases List.mem_singleton.mp hx
    erases := by
      dsimp only
      rw [erasedOn_program]
      exact h.erases
    programs := by
      dsimp only
      rw [programmedOn_program_self, h.programs, husable, List.map_append, List.map_singleton, hpos]
    past := by
      intro i hi
      obtain ⟨d, k, hd, hprog, hk⟩ := h.past i hi
      refine ⟨d, k, hd, ?_, hk⟩
      dsimp only
      rw [programmedOn_program_ne (Nat.ne_of_gt hi)]
      exact hprog
    erased := by
      intro hreach
      -- the block is the one erased last, as its offset fits
      have hself := hreach s.dev s.cur h.cur s.pos (by simp)
      refine (erasedFirst_append _).mpr ⟨h.erased (fun i d hd p hp => ?_), ?_⟩
      · refine hreach i d hd p ?_
        obtain ⟨data', hmem⟩ := mem_programmedOn.mp hp
        exact mem_programmedOn.mpr ⟨data', List.mem_append_left _ hmem⟩
      · intro i pos data hop
        cases hop
        have hseek : s.cur.seekSet c.partOffset = c.partOffset := if_pos hself.1
        have hstart : eraseStart (m * c.erasesize + c.partOffset) = s.pos := by
          rw [hseek] at hpos
          rw [eraseStart, Nat.add_comm, ← hpos, Nat.mod_eq_of_lt hself.2]
        rw [← mem_erasedOn, h.erases, husable, ← hstart]
        exact List.mem_map.mpr ⟨m, by simp, rfl⟩ }

theorem Logged.resume (h : Logged c chain s je je) {d : Device} {ds : List Device}
    (hnext : s.next = d :: ds) (hgood : ∀ j < je, s.cur.isBad (j * c.erasesize) = false)
    (herase : ∀ j < je, s.cur.eraseBlock c (j * c.erasesize + c.partOffset) = true) :
    Logged c chain (s.resume c d ds) 0 0 := by
  have hnew : ∀ op ∈ s.log, op.dev ≠ s.dev + 1 := fun op hop => by
    have := h.devs op hop
    omega
  exact {
    here := by
      have hdrop : chain.drop (s.dev + 1) = (chain.drop s.dev).drop 1 := by
        rw [List.drop_drop]
      dsimp only [St.resume]
      rw [hdrop, h.here, List.drop_one, List.tail_cons, hnext]
    devs := fun op hop => le_trans (h.devs op hop) (Nat.le_succ _)
    starts := h.starts
    erases := by
      dsimp only [St.resume]
      rw [usable_zero, List.map_nil, List.eq_nil_iff_forall_not_mem]
      intro x hx
      exact hnew _ (mem_erasedOn.mp hx) rfl
    programs := by
      dsimp only [St.resume]
      rw [usable_zero, List.map_nil]
      exact programmedOn_of_forall_ne hnew
    past := by
      intro i hi
      dsimp only [St.resume] at hi ⊢
      rcases Nat.lt_succ_iff_lt_or_eq.mp hi with hi | rfl
      · exact h.past i hi
      · refine ⟨s.cur, je, h.cur, ?_, fun j hj => ⟨hgood j hj, herase j hj⟩⟩
        rw [h.programs, usable_eq_range hgood]
    erased := h.erased }

end LogTurns

section Images

variable {image : List UInt8} {s : St}

/-- The whole buffer is what is written of it. -/
theorem source_eq {n : Nat} (hoff : s.offset = 0) (hbuf : s.buf.length = n) :
    s.source n = s.buf.map some := by
  unfold St.source
  apply List.ext_getElem?
  intro i
  rw [List.getElem?_map, List.getElem?_map, hoff]
  by_cases hi : i < n
  · rw [List.getElem?_range hi, Option.map_some, Nat.zero_add,
      List.getElem?_eq_getElem (by omega), Option.map_some]
  · rw [List.getElem?_eq_none (by rw [List.length_range]; omega),
      List.getElem?_eq_none (by omega)]
    rfl

theorem Copied.program (h : Copied c image s) (hbuf : s.buf.length = c.erasesize)
    (hoff : s.offset = 0) (pos w : Nat) :
    Copied c image { s with
      log := s.log ++ [.program s.dev s.pos (s.source c.erasesize)], pos := pos
      w := w, offset := 0, buf := [], phase := .fill } := by
  obtain ⟨written, hread, hpad⟩ := h
  refine ⟨written ++ s.buf, ?_, ?_⟩
  · dsimp only
    rw [readBack_program, hread, source_eq hoff hbuf, List.map_append]
  · rw [hpad, padImage_append hbuf, List.append_assoc, List.nil_append]

theorem Copied.resume (h : Copied c image s) (hdevs : ∀ op ∈ s.log, op.dev ≤ s.dev) (d : Device)
    (ds : List Device) : Copied c image (s.resume c d ds) := by
  obtain ⟨written, hread, hpad⟩ := h
  refine ⟨written, ?_, hpad⟩
  have hskip : readBack s.log (s.dev + 1 + 1) = readBack s.log (s.dev + 1) :=
    readBack_of_le (Nat.le_succ _) (fun op hop => Nat.lt_succ_of_le (hdevs op hop))
  rw [← hread]
  exact hskip

/-- Filling and padding the buffer leaves what is to be written as it was. -/
theorem padImage_fill (reads : List Read) (img buf : List UInt8) (hbuf : buf.length ≤ c.erasesize)
    (hne : (fillBuf c.erasesize reads img buf).buf ≠ []) :
    let input := fillBuf c.erasesize reads img buf
    let full := input.buf ++ List.replicate (c.erasesize - input.buf.length) 0xff
    padImage c.erasesize (full ++ input.img) = padImage c.erasesize (buf ++ img) ∧
      full.length = c.erasesize := by
  have hspec := fillBuf_spec reads img buf hbuf
  dsimp only at hspec ⊢
  generalize fillBuf c.erasesize reads img buf = input at hne hspec
  obtain ⟨happ, hle, hend⟩ := hspec
  have hlen : (input.buf ++ List.replicate (c.erasesize - input.buf.length) (0xff : UInt8)).length =
      c.erasesize := by
    rw [List.length_append, List.length_replicate]
    omega
  refine ⟨?_, hlen⟩
  rcases hend with hfull | hnil
  · rw [hfull, Nat.sub_self, List.replicate_zero, List.append_nil, happ]
  · rw [hnil, padImage_append hlen, padImage_nil, List.append_nil, ← happ, hnil, List.append_nil,
      padImage_last hne hle]

theorem blockCount_eq_of_padImage {x y : List UInt8}
    (h : padImage c.erasesize x = padImage c.erasesize y) :
    blockCount c.erasesize x.length = blockCount c.erasesize y.length := by
  have hlen := congrArg List.length h
  rw [padImage_length c.erasesize_pos, padImage_length c.erasesize_pos] at hlen
  exact Nat.eq_of_mul_eq_mul_right c.erasesize_pos hlen

/-- The block in the buffer is one of those that are left. -/
theorem blockCount_append {buf : List UInt8} (hbuf : buf.length = c.erasesize) (img : List UInt8) :
    blockCount c.erasesize (buf ++ img).length = 1 + blockCount c.erasesize img.length := by
  have hlen := congrArg List.length (padImage_append hbuf img)
  rw [List.length_append, padImage_length c.erasesize_pos, padImage_length c.erasesize_pos,
    hbuf] at hlen
  refine Nat.eq_of_mul_eq_mul_right c.erasesize_pos ?_
  rw [hlen, Nat.add_mul, Nat.one_mul]

end Images

/-! ## One turn of an honest run -/

section HonestTurns

variable {chain : List Device} {image : List UInt8} {s s' : St} {nd je jw js : Nat}

theorem Honest.fill (h : Honest c chain image s nd je jw js) (hphase : s.phase = .fill)
    (hne : (fillBuf c.erasesize s.reads s.img s.buf).buf ≠ []) :
    let input := fillBuf c.erasesize s.reads s.img s.buf
    Honest c chain image { s with
      reads := input.reads, img := input.img, phase := .erase
      buf := input.buf ++ List.replicate (c.erasesize - input.buf.length) 0xff } nd je jw js := by
  have hfill := padImage_fill s.reads s.img s.buf h.counters.buf hne
  dsimp only at hfill ⊢
  generalize fillBuf c.erasesize s.reads s.img s.buf = input at hfill
  obtain ⟨hpad, hlen⟩ := hfill
  have hje : je = jw + js := by
    rcases h.counters.turn with ⟨-, hje, -⟩ | ⟨herase, -, -⟩
    · exact hje
    · rw [hphase] at herase
      cases herase
  exact {
    counters := { h.counters with
      buf := le_of_eq hlen
      turn := Or.inr ⟨rfl, hlen, Or.inl hje⟩ }
    logged := { h.logged with }
    copied := by
      obtain ⟨written, hread, hcopied⟩ := h.copied
      exact ⟨written, hread, by rw [hcopied, ← hpad]⟩
    left := by
      rw [h.left, blockCount_eq_of_padImage hpad]
    clean := h.clean }

theorem Honest.bad (h : Honest c chain image s nd je jw js) (hphase : s.phase = .erase)
    (hlt : s.e < s.w + s.buf.length + s.skipBadBlocks)
    (hbad : s.cur.blockIsBad s.e = some true) :
    Honest c chain image { s with
      skipBadBlocks := s.skipBadBlocks + c.erasesize, e := s.e + c.erasesize
      pos := s.cur.seekCur s.pos c.erasesize } nd (je + 1) jw (js + 1) := by
  have heq := h.counters.erasing hphase hlt
  have hisbad := isBad_of_blockIsBad hbad
  rw [h.counters.e] at hisbad
  have hlogged := h.logged
  rw [← heq] at hlogged
  exact {
    counters := h.counters.bad hphase hlt hbad
    logged := by
      have hm : jw + (js + 1) = je + 1 := by omega
      rw [hm]
      exact { hlogged.bad hisbad with }
    copied := h.copied
    left := h.left
    clean := h.clean }

theorem Honest.erase (h : Honest c chain image s nd je jw js) (hphase : s.phase = .erase)
    (hlt : s.e < s.w + s.buf.length + s.skipBadBlocks)
    (hgood : s.cur.blockIsBad s.e = some false)
    (herase : s.cur.eraseBlock c (s.e + c.partOffset) = true) :
    Honest c chain image { s with
      e := s.e + c.erasesize
      log := s.log ++ [.erase s.dev (eraseStart (s.e + c.partOffset))] } nd (je + 1) jw js := by
  have hisgood := isBad_of_blockIsBad hgood
  rw [h.counters.e] at hisgood
  exact {
    counters := h.counters.erased hphase hlt hgood herase _
    logged := by
      rw [h.counters.e]
      exact h.logged.erase hisgood _
    copied := by
      obtain ⟨written, hread, hcopied⟩ := h.copied
      exact ⟨written, by dsimp only; rw [readBack_erase]; exact hread, hcopied⟩
    left := h.left
    clean := by
      rw [h.clean]
      simp only [Reached, programmedOn_erase] }

theorem Honest.write (h : Honest c chain image s nd je jw js) (hphase : s.phase = .erase)
    (hge : s.w + s.buf.length + s.skipBadBlocks ≤ s.e)
    (hfull : s.cur.writes s.pos s.buf.length = s.buf.length) :
    Honest c chain image { s.write s.buf.length with
      w := s.w + s.buf.length, offset := 0, buf := [], phase := .fill } nd je (jw + 1) js := by
  have hcounters := h.counters.written hphase hge hfull
  obtain ⟨hbuf, hje, hgood⟩ := h.counters.writing hphase hge
  have hes := c.erasesize_pos
  rw [hbuf] at hfull hcounters ⊢
  have hn : ¬ s.cur.writes s.pos c.erasesize = 0 := by omega
  have hpos := (h.counters.pos_of_writes hfull).1
  have hwrite : s.write c.erasesize = { s with
      log := s.log ++ [.program s.dev s.pos (s.source c.erasesize)]
      pos := s.pos + c.erasesize } := by
    unfold St.write
    dsimp only
    rw [if_neg hn, hfull]
  have hlogged := h.logged
  rw [hje] at hlogged
  have hsucc : jw + 1 + js = jw + js + 1 := by omega
  rw [hwrite] at hcounters ⊢
  exact {
    counters := hcounters
    logged := by
      rw [hsucc, hje]
      exact hlogged.program hgood hpos _ _ _
    copied := h.copied.program hbuf h.counters.offset _ _
    left := by
      dsimp only
      rw [h.left, blockCount_append hbuf, List.nil_append]
      omega
    clean := by
      rw [h.clean]
      have hreach : ∀ i < s.dev, Reached c chain (s.log ++
          [.program s.dev s.pos (s.source c.erasesize)]) i ↔ Reached c chain s.log i := by
        intro i hi
        simp only [Reached, programmedOn_program_ne (Nat.ne_of_gt hi)]
      constructor
      · rintro ⟨hall, hrest⟩
        exact ⟨fun i hi => (hreach i hi).mpr (hall i hi), hrest⟩
      · rintro ⟨hall, hrest⟩
        exact ⟨fun i hi => (hreach i hi).mp (hall i hi), hrest⟩ }

/-- Where the offsets fit, the first seek was not refused. -/
theorem reached_iff (h : Logged c chain s je je)
    (herase : ∀ j ∈ usable c s.cur je,
      s.cur.eraseBlock c (j * c.erasesize + c.partOffset) = true) :
    Reached c chain s.log s.dev ↔
      ∀ j ∈ usable c s.cur je, j * c.erasesize + c.partOffset < 2 ^ 32 := by
  constructor
  · intro hreach j hj
    have hmem : s.cur.seekSet c.partOffset + j * c.erasesize ∈ programmedOn s.log s.dev := by
      rw [h.programs]
      exact List.mem_map.mpr ⟨j, hj, rfl⟩
    obtain ⟨hsize, hlt⟩ := hreach s.cur h.cur _ hmem
    rw [Device.seekSet, if_pos hsize] at hlt
    omega
  · intro hfit d hd p hp
    rw [h.cur] at hd
    cases hd
    rw [h.programs] at hp
    obtain ⟨j, hj, rfl⟩ := List.mem_map.mp hp
    have hsize := (eraseBlock_spec (herase j hj) (hfit j hj)).2.1
    have hlt := hfit j hj
    rw [Device.seekSet, if_pos (by omega)]
    exact ⟨by omega, by omega⟩

theorem Honest.moveOn (h : Honest c chain image s nd je jw js) (hphase : s.phase = .erase)
    (hlt : s.e < s.w + s.buf.length + s.skipBadBlocks)
    (hgood : s.cur.blockIsBad s.e = some false)
    (hfail : s.cur.eraseBlock c (s.e + c.partOffset) = false) {d : Device} {ds : List Device}
    (hnext : s.next = d :: ds) (hjs : js = 0) :
    Honest c chain image (s.moveOn c d ds) (nd - jw) 0 0 0 := by
  subst hjs
  have heq : je = jw := h.counters.erasing hphase hlt
  subst heq
  have hbuf : s.buf.length = c.erasesize := by
    rcases h.counters.turn with ⟨hfill, -, -⟩ | ⟨-, hbuf, -⟩
    · rw [hphase] at hfill
      cases hfill
    · exact hbuf
  have hlen : (usable c s.cur je).length = je := h.counters.skipped
  -- no block of the device was reported bad
  have hall : ∀ j < je, s.cur.isBad (j * c.erasesize) = false := by
    have hself := List.length_filter_eq_length_iff.mp (by rw [List.length_range]; exact hlen)
    intro j hj
    simpa using hself j (List.mem_range.mpr hj)
  have herase : ∀ j < je, s.cur.eraseBlock c (j * c.erasesize + c.partOffset) = true :=
    fun j hj => h.counters.erasable j (mem_usable.mpr ⟨hj, hall j hj⟩)
  have hstop := isBad_of_blockIsBad hgood
  rw [h.counters.e] at hstop hfail
  have hmove : s.moveOn c d ds = s.resume c d ds := by
    unfold St.moveOn
    rw [h.counters.e, h.counters.w, if_neg (lt_irrefl _)]
  have hes := c.erasesize_pos
  have hnd : je < nd := by
    have := h.left
    rw [blockCount_append hbuf] at this
    omega
  rw [hmove]
  exact {
    counters := {
      e := (Nat.zero_mul _).symm
      w := (Nat.zero_mul _).symm
      skip := h.counters.skip
      offset := h.counters.offset
      buf := h.counters.buf
      skipped := rfl
      erasable := fun j hj => by cases hj
      looked := fun j hj => absurd hj (Nat.not_lt_zero j)
      pos := by
        left
        dsimp only [St.resume]
        omega
      turn := Or.inl ⟨rfl, rfl, Or.inl rfl⟩ }
    logged := h.logged.resume hnext hall herase
    copied := h.copied.resume h.logged.devs d ds
    left := by
      have := h.left
      dsimp only [St.resume]
      omega
    clean := by
      dsimp only [St.resume]
      have hreach := reached_iff h.logged h.counters.erasable
      simp only [usable_eq_range hall, List.mem_range] at hreach
      rw [h.clean, hnext, clean_move_iff hnd hall herase hstop hfail, ← hreach]
      constructor
      · rintro ⟨hpast, hself, hrest⟩
        refine ⟨fun i hi => ?_, hrest⟩
        rcases Nat.lt_succ_iff_lt_or_eq.mp hi with hi | rfl
        · exact hpast i hi
        · exact hself
      · rintro ⟨hpast, hrest⟩
        exact ⟨fun i hi => hpast i (by omega), hpast s.dev (by omega), hrest⟩ }

end HonestTurns

/-! ## Runs that leave the buffer -/

section DerailedTurns

variable {chain : List Device} {image : List UInt8} {s s' : St} {nd je jw js : Nat}

theorem drop_succ_eq {d : Device} {ds : List Device} {i : Nat} {cur : Device} {next : List Device}
    (h : chain.drop i = cur :: next) (hnext : next = d :: ds) : chain.drop (i + 1) = d :: ds := by
  have hdrop : chain.drop (i + 1) = (chain.drop i).drop 1 := by
    rw [List.drop_drop]
  rw [hdrop, h, List.drop_one, List.tail_cons, hnext]

/-- Leaving a device keeps the buffer and at most adds to the log. -/
theorem moveOn_eq (s : St) (d : Device) (ds : List Device) :
    (s.moveOn c d ds).buf = s.buf ∧ (s.moveOn c d ds).dev = s.dev + 1 ∧
      (s.moveOn c d ds).cur = d ∧ (s.moveOn c d ds).next = ds ∧
      (s.moveOn c d ds).e = 0 ∧ (s.moveOn c d ds).w = 0 ∧
      (s.moveOn c d ds).offset = (if s.w < s.e then s.e - s.w else s.offset) ∧
      ∃ more, (s.moveOn c d ds).log = s.log ++ more ∧ ∀ op ∈ more, op.dev = s.dev := by
  unfold St.moveOn
  split
  · dsimp only [St.resume, St.write]
    split
    · exact ⟨rfl, rfl, rfl, rfl, rfl, rfl, rfl, [], by simp, by simp⟩
    · exact ⟨rfl, rfl, rfl, rfl, rfl, rfl, rfl, _, rfl, by simp [Op.dev]⟩
  · exact ⟨rfl, rfl, rfl, rfl, rfl, rfl, rfl, [], by simp [St.resume], by simp⟩

/-- A write that is taken as a whole. -/
theorem write_eq (hfull : s.cur.writes s.pos s.buf.length = s.buf.length) :
    s.write s.buf.length = if s.buf.length = 0 then s else { s with
      log := s.log ++ [.program s.dev s.pos (s.source s.buf.length)]
      pos := s.pos + s.buf.length } := by
  unfold St.write
  dsimp only
  rw [hfull]

/-- An erase fails behind a bad block: the rest of the write reads behind the buffer. -/
theorem Honest.derail (h : Honest c chain image s nd je jw js) (hphase : s.phase = .erase)
    (hlt : s.e < s.w + s.buf.length + s.skipBadBlocks)
    (hgood : s.cur.blockIsBad s.e = some false)
    (hfail : s.cur.eraseBlock c (s.e + c.partOffset) = false) {d : Device} {ds : List Device}
    (hnext : s.next = d :: ds) (hjs : 0 < js) :
    Derailed c chain (s.moveOn c d ds) ∧
      ¬ Clean c chain (blockCount c.erasesize image.length) := by
  have heq := h.counters.erasing hphase hlt
  have hbuf : s.buf.length = c.erasesize := by
    rcases h.counters.turn with ⟨hfill, -, -⟩ | ⟨-, hbuf, -⟩
    · rw [hphase] at hfill
      cases hfill
    · exact hbuf
  have hskipped := h.counters.skipped
  obtain ⟨hmbuf, hmdev, hmcur, hmnext, hme, hmw, hmoff, more, hmlog, hmore⟩ := moveOn_eq (c := c) s d ds
  constructor
  · have hle : c.erasesize ≤ js * c.erasesize := Nat.le_mul_of_pos_left _ hjs
    have hes := c.erasesize_pos
    have he : s.e = s.w + js * c.erasesize := by
      rw [h.counters.e, h.counters.w, heq, Nat.add_mul]
    exact {
      here := by
        rw [hmdev, hmcur, hmnext]
        exact drop_succ_eq h.logged.here hnext
      devs := by
        intro op hop
        rw [hmlog] at hop
        rw [hmdev]
        rcases List.mem_append.mp hop with hop | hop
        · have := h.logged.devs op hop
          omega
        · have := hmore op hop
          omega
      foreign := by
        right
        rw [hmbuf, hmoff, hme, hmw, if_pos (by omega)]
        exact ⟨hbuf, by omega, dvd_zero _, dvd_zero _⟩ }
  · -- one of the blocks looked up was reported
    have hstop := isBad_of_blockIsBad hgood
    rw [h.counters.e] at hstop hfail
    have hbad : ∃ j < je, s.cur.isBad (j * c.erasesize) = true := by
      by_contra hnone
      have hall : ∀ j < je, s.cur.isBad (j * c.erasesize) = false := by
        intro j hj
        by_contra hj'
        exact hnone ⟨j, hj, by simpa using hj'⟩
      rw [usable_eq_range hall, List.length_range] at hskipped
      omega
    obtain ⟨j, hj, hjbad⟩ := hbad
    have hleft := h.left
    rw [blockCount_append hbuf] at hleft
    have hnot := @not_clean_of_bad c s.cur s.next nd je j (by omega) hj hjbad h.counters.erasable
      hstop hfail
    rw [h.clean]
    exact fun hclean => hnot hclean.2

theorem Derailed.step (h : Derailed c chain s) (hn : c.noErase = false)
    (hstep : step c s = .next s') : Derailed c chain s' := by
  have hes := c.erasesize_pos
  rcases step_cases hn hstep with ⟨-, hne, rfl⟩ | ⟨-, -, ⟨-, rfl⟩ | ⟨-, -, rfl⟩ |
    ⟨-, -, d, ds, hnext, rfl⟩⟩ | ⟨-, -, hfull, rfl⟩
  · -- a full buffer stays as it is
    refine ⟨h.here, h.devs, ?_⟩
    rcases h.foreign with hforeign | ⟨hbuf, hoff, he, hw⟩
    · exact Or.inl hforeign
    · exact Or.inr ⟨(padImage_fill s.reads s.img s.buf (le_of_eq hbuf) hne).2, hoff, he, hw⟩
  · refine ⟨h.here, h.devs, ?_⟩
    rcases h.foreign with hforeign | ⟨hbuf, hoff, he, hw⟩
    · exact Or.inl hforeign
    · exact Or.inr ⟨hbuf, hoff, Nat.dvd_add he (dvd_refl _), hw⟩
  · refine ⟨h.here, ?_, ?_⟩
    · intro op hop
      rcases List.mem_append.mp hop with hop | hop
      · exact h.devs op hop
      · rw [List.mem_singleton.mp hop]
        exact le_rfl
    · rcases h.foreign with ⟨op, hop, hnone⟩ | ⟨hbuf, hoff, he, hw⟩
      · exact Or.inl ⟨op, List.mem_append_left _ hop, hnone⟩
      · exact Or.inr ⟨hbuf, hoff, Nat.dvd_add he (dvd_refl _), hw⟩
  · obtain ⟨hmbuf, hmdev, hmcur, hmnext, hme, hmw, hmoff, more, hmlog, hmore⟩ :=
      moveOn_eq (c := c) s d ds
    refine ⟨?_, ?_, ?_⟩
    · rw [hmdev, hmcur, hmnext]
      exact drop_succ_eq h.here hnext
    · intro op hop
      rw [hmlog] at hop
      rw [hmdev]
      rcases List.mem_append.mp hop with hop | hop
      · have := h.devs op hop
        omega
      · have := hmore op hop
        omega
    · rcases h.foreign with ⟨op, hop, hnone⟩ | ⟨hbuf, hoff, he, hw⟩
      · exact Or.inl ⟨op, by rw [hmlog]; exact List.mem_append_left _ hop, hnone⟩
      · right
        rw [hmbuf, hmoff, hme, hmw]
        refine ⟨hbuf, ?_, dvd_zero _, dvd_zero _⟩
        split
        · exact Nat.le_of_dvd (by omega) (Nat.dvd_sub he hw)
        · exact hoff
  · have hwrite := write_eq (s := s) hfull
    have hlog : ∀ op ∈ s.log, op ∈ (s.write s.buf.length).log := by
      intro op hop
      rw [hwrite]
      split
      · exact hop
      · exact List.mem_append_left _ hop
    refine ⟨?_, ?_, ?_⟩
    · rw [hwrite]
      split <;> exact h.here
    · rw [hwrite]
      split
      · exact h.devs
      · intro op hop
        rcases List.mem_append.mp hop with hop | hop
        · exact h.devs op hop
        · rw [List.mem_singleton.mp hop]
          exact le_rfl
    · left
      rcases h.foreign with ⟨op, hop, hnone⟩ | ⟨hbuf, hoff, -, -⟩
      · exact ⟨op, hlog op hop, hnone⟩
      · rw [hwrite, if_neg (by omega)]
        refine ⟨_, List.mem_append_right _ (List.mem_singleton.mpr rfl), ?_⟩
        refine List.mem_map.mpr ⟨0, List.mem_range.mpr (by omega), ?_⟩
        exact List.getElem?_eq_none (by omega)

end DerailedTurns

/-! ## Whole runs -/

section Runs

variable {chain : List Device} {image : List UInt8} {s s' : St}

/-- What holds in front of every turn. -/
def Inv (c : Cfg) (chain : List Device) (image : List UInt8) (s : St) : Prop :=
  (∃ nd je jw js, Honest c chain image s nd je jw js) ∨
    (Derailed c chain s ∧ ¬ Clean c chain (blockCount c.erasesize image.length))

theorem Inv.step (hn : c.noErase = false) (hstep : Mtd.step c s = .next s')
    (h : Inv c chain image s) : Inv c chain image s' := by
  rcases h with ⟨nd, je, jw, js, h⟩ | ⟨h, hnot⟩
  · rcases step_cases hn hstep with ⟨hphase, hne, rfl⟩ | ⟨hphase, hlt, ⟨hbad, rfl⟩ |
      ⟨hgood, herase, rfl⟩ | ⟨hgood, hfail, d, ds, hnext, rfl⟩⟩ | ⟨hphase, hge, hfull, rfl⟩
    · exact Or.inl ⟨_, _, _, _, h.fill hphase hne⟩
    · exact Or.inl ⟨_, _, _, _, h.bad hphase hlt hbad⟩
    · exact Or.inl ⟨_, _, _, _, h.erase hphase hlt hgood herase⟩
    · rcases Nat.eq_zero_or_pos js with hjs | hjs
      · exact Or.inl ⟨_, _, _, _, h.moveOn hphase hlt hgood hfail hnext hjs⟩
      · exact Or.inr (h.derail hphase hlt hgood hfail hnext hjs)
    · exact Or.inl ⟨_, _, _, _, h.write hphase hge hfull⟩
  · exact Or.inr ⟨h.step hn hstep, hnot⟩

/-- Where a run returns, the image is used up. -/
theorem ret_empty (hbuf : s.buf.length ≤ c.erasesize) (h : Mtd.step c s = .ret s') :
    s.phase = .fill ∧ s.buf = [] ∧ s.img = [] ∧ s'.log = s.log := by
  obtain ⟨hphase, hnil, hlog⟩ := step_ret h
  have hspec := fillBuf_spec s.reads s.img s.buf hbuf
  dsimp only at hspec
  obtain ⟨happ, -, hend⟩ := hspec
  have hes := c.erasesize_pos
  rw [hnil] at happ hend
  have himg : (fillBuf c.erasesize s.reads s.img s.buf).img = [] := by
    rcases hend with hlen | himg
    · rw [List.length_nil] at hlen
      omega
    · exact himg
  rw [himg, List.nil_append] at happ
  have hboth := List.append_eq_nil_iff.mp happ.symm
  exact ⟨hphase, hboth.1, hboth.2, hlog⟩

end Runs

end Lede.Mtd
