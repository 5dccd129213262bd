/-
Lede.Otto.PieCodecTheorems — what the reader of a PIE entry gives back (`pie.c`).

The actions stand beside the words of a rule (`ruleRegs_words`), so the fields of an entry are
those of `PieTheorems`. Fixed fields come back when they fit (`fixedBack_iff`), and the fields of
a template when their readers do not lose them (`templatedBack_iff`): a field that is read on its
own is the one that was written (`fieldAs_readTemplated`), and for the source ports and the
addresses the loop is followed word by word (`foldl_view`).
-/
import Lede.Lib.Packed
import Lede.Otto.PieCodec
import Lede.Otto.PieTheorems

namespace Lede.Otto

open Lede.Lib.BitField Lede.Lib.Packed Lede.Lib.Ternary

/-! ## The words that the actions leave alone -/

section Words

variable {f : PieFamily} {pr : PieRule} {a : PieActs} {fields : List TemplateField} {r : Regs}

/-- The bits of `r[13]` that the actions of the RTL839x are in. -/
theorem writeAction839x_high (r : Regs) (a : PieActs) {i : Nat} (hi : 12 ≤ i) :
    (writeAction839x r a 13).getLsbD i = (r 13).getLsbD i := by
  have hact : (a.fwdAct.setWidth 32).getLsbD i = false := by
    rw [BitVec.getLsbD_setWidth, BitVec.getLsbD_of_ge a.fwdAct i (by omega), Bool.and_false]
  have h9 : ((0x9 : BitVec 32) ||| 0x8).getLsbD i = false := by
    rw [show ((0x9 : BitVec 32) ||| 0x8) = 0x9 from rfl]
    exact getLsbD_eq_false (w := 4) (by decide) i (by omega)
  have hne : ∀ k, k < 12 → i ≠ k := by omega
  simp only [writeAction839x, Function.update_apply, if_neg (show (13 : Nat) ≠ 16 by decide),
    if_neg (show (13 : Nat) ≠ 15 by decide), if_neg (show (13 : Nat) ≠ 14 by decide), if_true,
    BitVec.getLsbD_or, getLsbD_flag, hne 11 (by decide), hne 10 (by decide), hne 9 (by decide),
    hne 8 (by decide), hne 7 (by decide), hne 6 (by decide), hne 5 (by decide), hne 4 (by decide),
    decide_false, Bool.and_false, Bool.false_and, Bool.or_false]
  split
  · rw [h9, Bool.or_false]
  · rw [BitVec.getLsbD_or, getLsbD_flag, hact]
    simp [hne 3 (by decide)]

/-- The words of the match and of its masks are those of the rule. -/
theorem ruleRegs_words (h : ruleRegs f pr a fields = some r) {k : Nat} (hk : k < 13) :
    r k = ruleWords f pr fields k := by
  cases f with
  | rtl838x =>
    simp only [ruleRegs, writeAction838x, Option.map_eq_some_iff] at h
    obtain ⟨used, -, rfl⟩ := h
    simp [writeSelectors838x, show k ≠ 15 by omega, show k ≠ 16 by omega,
      show k ≠ 14 by omega, show k ≠ 17 by omega]
  | rtl839x =>
    simp only [ruleRegs, Option.some.injEq] at h
    subst h
    simp [writeAction839x, show k ≠ 15 by omega, show k ≠ 16 by omega,
      show k ≠ 14 by omega, show k ≠ 13 by omega]

theorem ruleRegs_r13 (h : ruleRegs .rtl838x pr a fields = some r) :
    r 13 = ruleWords .rtl838x pr fields 13 ∧
      r 14 = ruleWords .rtl838x pr fields 14 ||| flag 27 a.ivalid := by
  simp only [ruleRegs, writeAction838x, Option.map_eq_some_iff] at h
  obtain ⟨used, -, rfl⟩ := h
  exact ⟨by simp [writeSelectors838x],
    by simp [writeSelectors838x]⟩

/-- An entry has the fields of its rule. -/
theorem entryField_ruleRegs (h : ruleRegs f pr a fields = some r) (hv : pr.valid = true)
    (hl : fields.length = 12) (i : Nat) (hi : i < fields.length) :
    entryField f r i = fieldData pr fields[i] := by
  rw [← entryField_ruleWords hv hl i hi]
  have hm : maskWord f r (i / 2) = maskWord f (ruleWords f pr fields) (i / 2) := by
    cases f with
    | rtl838x => exact ruleRegs_words h (by omega)
    | rtl839x =>
      rw [maskWord, maskWord, ruleRegs_words h (show 11 - i / 2 < 13 by omega),
        ruleRegs_words h (show 12 - i / 2 < 13 by omega)]
  rw [entryField, entryField, hm, matchWord, matchWord, ruleRegs_words h (by omega)]

/-- And its fixed fields. -/
theorem entryFixed_ruleRegs (h : ruleRegs f pr a fields = some r) (hv : pr.valid = true)
    (hl : fields.length = 12) :
    entryFixed f r = { data := fixedData pr, mask := fixedMask pr } := by
  rw [← entryFixed_ruleWords (f := f) hv hl]
  cases f with
  | rtl838x =>
    simp only [entryFixed, ruleRegs_words h (show 6 < 13 by decide), (ruleRegs_r13 h).1]
  | rtl839x =>
    have h13 : r 13 >>> 16 = ruleWords .rtl839x pr fields 13 >>> 16 := by
      simp only [ruleRegs, Option.some.injEq] at h
      subst h
      apply BitVec.eq_of_getLsbD_eq
      intro i hi
      rw [BitVec.getLsbD_ushiftRight, BitVec.getLsbD_ushiftRight,
        writeAction839x_high _ _ (by omega)]
    simp only [entryFixed, ruleRegs_words h (show 6 < 13 by decide),
      ruleRegs_words h (show 12 < 13 by decide), h13]

end Words

/-! ## Fixed fields -/

section Fixed

/-- The fields of `fixedWord`. -/
def fixedParts (tid frameTypeL2 : BitVec 8) (itagExist otagExist itagFmt otagFmt : BitVec 1)
    (frameType frameTypeL4 : BitVec 8) (notFirstFrag dmacHitSw mgntVlan : BitVec 1)
    (spn spmmaskFix : BitVec 8) : List (Part 32) :=
  [⟨22, 2, spmmaskFix.setWidth 32⟩, ⟨16, 6, spn.setWidth 32⟩, flagPart 15 (mgntVlan != 0),
    flagPart 14 (dmacHitSw != 0), flagPart 13 (notFirstFrag != 0), ⟨10, 3, frameTypeL4.setWidth 32⟩,
    ⟨8, 2, frameType.setWidth 32⟩, flagPart 7 (otagFmt != 0), flagPart 6 (itagFmt != 0),
    flagPart 5 (otagExist != 0), flagPart 4 (itagExist != 0), ⟨2, 2, frameTypeL2.setWidth 32⟩,
    ⟨0, 2, tid.setWidth 32⟩]

variable (tid frameTypeL2 : BitVec 8) (itagExist otagExist itagFmt otagFmt : BitVec 1)
  (frameType frameTypeL4 : BitVec 8) (notFirstFrag dmacHitSw mgntVlan : BitVec 1)
  (spn spmmaskFix : BitVec 8)

theorem fixedWord_eq_pack :
    fixedWord tid frameTypeL2 itagExist otagExist itagFmt otagFmt frameType frameTypeL4
        notFirstFrag dmacHitSw mgntVlan spn spmmaskFix =
      pack (fixedParts tid frameTypeL2 itagExist otagExist itagFmt otagFmt frameType frameTypeL4
        notFirstFrag dmacHitSw mgntVlan spn spmmaskFix) := by
  have h3 : (0x3 : BitVec 32) = low 2 := rfl
  have h7 : (0x7 : BitVec 32) = low 3 := rfl
  have h63 : (0x3f : BitVec 32) = low 6 := rfl
  simp [fixedWord, h3, h7, h63, pack, fixedParts, flagPart_word, word_mk]

theorem fixedParts_laid :
    Laid (fixedParts tid frameTypeL2 itagExist otagExist itagFmt otagFmt frameType frameTypeL4
      notFirstFrag dmacHitSw mgntVlan spn spmmaskFix) :=
  of_decide_eq_true rfl

/-- The fields of the match of a rule. -/
def dataParts (pr : PieRule) : List (Part 32) :=
  fixedParts pr.tid.data pr.frameTypeL2.data pr.itagExist.data pr.otagExist.data pr.itagFmt.data
    pr.otagFmt.data pr.frameType.data pr.frameTypeL4.data pr.notFirstFrag.data pr.dmacHitSw.data
    pr.mgntVlan.data pr.spn.data pr.spmmaskFix.data

/-- And of its mask. -/
def maskParts (pr : PieRule) : List (Part 32) :=
  fixedParts pr.tid.mask pr.frameTypeL2.mask pr.itagExist.mask pr.otagExist.mask pr.itagFmt.mask
    pr.otagFmt.mask pr.frameType.mask pr.frameTypeL4.mask pr.notFirstFrag.mask pr.dmacHitSw.mask
    pr.mgntVlan.mask pr.spn.mask pr.spmmaskFix.mask

theorem fixedData_eq_pack (pr : PieRule) : fixedData pr = pack (dataParts pr) := fixedWord_eq_pack ..

theorem fixedMask_eq_pack (pr : PieRule) : fixedMask pr = pack (maskParts pr) := fixedWord_eq_pack ..

theorem dataParts_laid (pr : PieRule) : Laid (dataParts pr) := fixedParts_laid ..

theorem maskParts_laid (pr : PieRule) : Laid (maskParts pr) := fixedParts_laid ..

/-- A byte is read back, cut to its field. -/
theorem byte_back {xs : List (Part 32)} (h : Laid xs) {p w : Nat} {x : BitVec 8}
    (hm : ⟨p, w, x.setWidth 32⟩ ∈ xs) :
    ((pack xs >>> p) &&& low w).setWidth 8 = x &&& low w := by
  rw [read_pack h hm]
  apply BitVec.eq_of_getLsbD_eq
  intro i hi
  simp only [BitVec.getLsbD_setWidth, BitVec.getLsbD_and, getLsbD_low, hi, decide_true,
    Bool.true_and, show i < 32 by omega]

/-- And a bit. -/
theorem bit_back {xs : List (Part 32)} (h : Laid xs) {p : Nat} {b : BitVec 1}
    (hm : flagPart p (b != 0) ∈ xs) : (pack xs >>> p).setWidth 1 = b := by
  have hbit : ∀ b : BitVec 1, (b != 0) = b.getLsbD 0 := by decide
  have hb := getLsbD_pack_flag h hm
  apply BitVec.eq_of_getLsbD_eq
  intro i hi
  obtain rfl : i = 0 := by omega
  rw [BitVec.getLsbD_setWidth, BitVec.getLsbD_ushiftRight, Nat.add_zero, hb, hbit]
  simp

end Fixed

/-- A field of the rule with its data and its mask in `w` bits. -/
def Within (w : Nat) (x : Field 8) : Prop := x.data.toNat < 2 ^ w ∧ x.mask.toNat < 2 ^ w

theorem cut_eq_iff {w : Nat} {x : Field 8} :
    (⟨x.data &&& low w, x.mask &&& low w⟩ : Field 8) = x ↔ Within w x := by
  obtain ⟨d, m⟩ := x
  simp only [Field.mk.injEq, Within, and_low_eq_iff]

/-- The fixed fields of the rule come back. -/
structure FixedBack (pr back : PieRule) : Prop where
  spmmaskFix : back.spmmaskFix = pr.spmmaskFix
  spn : back.spn = pr.spn
  mgntVlan : back.mgntVlan = pr.mgntVlan
  dmacHitSw : back.dmacHitSw = pr.dmacHitSw
  notFirstFrag : back.notFirstFrag = pr.notFirstFrag
  frameTypeL4 : back.frameTypeL4 = pr.frameTypeL4
  frameType : back.frameType = pr.frameType
  otagFmt : back.otagFmt = pr.otagFmt
  itagFmt : back.itagFmt = pr.itagFmt
  otagExist : back.otagExist = pr.otagExist
  itagExist : back.itagExist = pr.itagExist
  frameTypeL2 : back.frameTypeL2 = pr.frameTypeL2
  tid : back.tid = pr.tid
  valid : back.valid = pr.valid
  condNot : back.condNot = pr.condNot
  condAnd1 : back.condAnd1 = pr.condAnd1
  condAnd2 : back.condAnd2 = pr.condAnd2

/-- The numbers of the fixed fields fit their bits. -/
structure FixedFits (pr : PieRule) : Prop where
  spmmaskFix : Within 2 pr.spmmaskFix
  spn : Within 6 pr.spn
  frameTypeL4 : Within 3 pr.frameTypeL4
  frameType : Within 2 pr.frameType
  frameTypeL2 : Within 2 pr.frameTypeL2
  tid : Within 2 pr.tid

section ReadFixed

variable {f : PieFamily} {pr : PieRule} {a : PieActs} {fields : List TemplateField} {r : Regs}

/-- The four conditions are in the bits that are read. -/
theorem conds_ruleRegs (h : ruleRegs f pr a fields = some r) (hv : pr.valid = true)
    (hl : fields.length = 12) :
    (readFixedFields f r).valid = pr.valid ∧ (readFixedFields f r).condNot = pr.condNot ∧
      (readFixedFields f r).condAnd1 = pr.condAnd1 ∧
      (readFixedFields f r).condAnd2 = pr.condAnd2 := by
  obtain ⟨a₀, a₁, a₂, a₃, a₄, a₅, a₆, a₇, a₈, a₉, a₁₀, a₁₁, rfl⟩ := exists_twelve hl
  cases f with
  | rtl838x =>
    simp only [readFixedFields, (ruleRegs_r13 h).2, ruleWords, hv, if_true, writeTemplated_twelve]
    simp [writePair_rtl838x, writeFixedFields, conditions, hv]
  | rtl839x =>
    simp only [ruleRegs, Option.some.injEq] at h
    subst h
    simp only [readFixedFields, BitVec.getLsbD_ushiftRight]
    rw [writeAction839x_high _ _ (show 12 ≤ 12 + 3 by decide),
      writeAction839x_high _ _ (show 12 ≤ 12 + 2 by decide),
      writeAction839x_high _ _ (show 12 ≤ 12 + 1 by decide),
      writeAction839x_high _ _ (show 12 ≤ 12 + 0 by decide)]
    simp only [ruleWords, hv, if_true, writeTemplated_twelve]
    simp [writePair_rtl839x, writeFixedFields, conditions, hv]

/-- What is read of a field is its value, cut to its bits. -/
theorem fixedBack_iff (h : ruleRegs f pr a fields = some r) (hv : pr.valid = true)
    (hl : fields.length = 12) : FixedBack pr (readFixedFields f r) ↔ FixedFits pr := by
  obtain ⟨hvalid, hnot, hand1, hand2⟩ := conds_ruleRegs h hv hl
  have hfixed := entryFixed_ruleRegs h hv hl
  have hd : (entryFixed f r).data = pack (dataParts pr) := by rw [hfixed, fixedData_eq_pack]
  have hm : (entryFixed f r).mask = pack (maskParts pr) := by rw [hfixed, fixedMask_eq_pack]
  have hcut : ∀ p w x, ⟨p, w, x.data.setWidth 32⟩ ∈ dataParts pr →
      ⟨p, w, x.mask.setWidth 32⟩ ∈ maskParts pr →
      ((⟨(((entryFixed f r).data >>> p) &&& low w).setWidth 8,
        (((entryFixed f r).mask >>> p) &&& low w).setWidth 8⟩ : Field 8) = x ↔ Within w x) := by
    intro p w x hx hy
    rw [hd, hm, byte_back (dataParts_laid pr) hx, byte_back (maskParts_laid pr) hy, cut_eq_iff]
  have hbit : ∀ p x, flagPart p (x.data != 0) ∈ dataParts pr →
      flagPart p (x.mask != 0) ∈ maskParts pr →
      (⟨((entryFixed f r).data >>> p).setWidth 1, ((entryFixed f r).mask >>> p).setWidth 1⟩ :
        Field 1) = x := by
    intro p x hx hy
    rw [hd, hm, bit_back (dataParts_laid pr) hx, bit_back (maskParts_laid pr) hy]
  have hspmmask := hcut 22 2 pr.spmmaskFix (by simp [dataParts, fixedParts])
    (by simp [maskParts, fixedParts])
  have hspn := hcut 16 6 pr.spn (by simp [dataParts, fixedParts]) (by simp [maskParts, fixedParts])
  have hl4 := hcut 10 3 pr.frameTypeL4 (by simp [dataParts, fixedParts])
    (by simp [maskParts, fixedParts])
  have hft := hcut 8 2 pr.frameType (by simp [dataParts, fixedParts])
    (by simp [maskParts, fixedParts])
  have hl2 := hcut 2 2 pr.frameTypeL2 (by simp [dataParts, fixedParts])
    (by simp [maskParts, fixedParts])
  have htid := hcut 0 2 pr.tid (by simp [dataParts, fixedParts]) (by simp [maskParts, fixedParts])
  rw [BitVec.ushiftRight_zero, BitVec.ushiftRight_zero] at htid
  constructor
  · intro hb
    exact
      { spmmaskFix := hspmmask.1 hb.spmmaskFix
        spn := hspn.1 hb.spn
        frameTypeL4 := hl4.1 hb.frameTypeL4
        frameType := hft.1 hb.frameType
        frameTypeL2 := hl2.1 hb.frameTypeL2
        tid := htid.1 hb.tid }
  · intro hfits
    exact
      { spmmaskFix := hspmmask.2 hfits.spmmaskFix
        spn := hspn.2 hfits.spn
        mgntVlan := hbit 15 pr.mgntVlan (by simp [dataParts, fixedParts])
          (by simp [maskParts, fixedParts])
        dmacHitSw := hbit 14 pr.dmacHitSw (by simp [dataParts, fixedParts])
          (by simp [maskParts, fixedParts])
        notFirstFrag := hbit 13 pr.notFirstFrag (by simp [dataParts, fixedParts])
          (by simp [maskParts, fixedParts])
        frameTypeL4 := hl4.2 hfits.frameTypeL4
        frameType := hft.2 hfits.frameType
        otagFmt := hbit 7 pr.otagFmt (by simp [dataParts, fixedParts])
          (by simp [maskParts, fixedParts])
        itagFmt := hbit 6 pr.itagFmt (by simp [dataParts, fixedParts])
          (by simp [maskParts, fixedParts])
        otagExist := hbit 5 pr.otagExist (by simp [dataParts, fixedParts])
          (by simp [maskParts, fixedParts])
        itagExist := hbit 4 pr.itagExist (by simp [dataParts, fixedParts])
          (by simp [maskParts, fixedParts])
        frameTypeL2 := hl2.2 hfits.frameTypeL2
        tid := htid.2 hfits.tid
        valid := hvalid
        condNot := hnot
        condAnd1 := hand1
        condAnd2 := hand2 }

end ReadFixed

/-! ## Fields of a template -/

section SetChunk

variable {w : Nat}

/-- The word that was replaced is the new one, and the others stay. -/
theorem chunk_setChunk {j k : Nat} (x : BitVec w) (v : BitVec 16) (hj : 16 * (j + 1) ≤ w)
    (hk : 16 * (k + 1) ≤ w) : chunk j (setChunk k x v) = if j = k then v else chunk j x := by
  apply BitVec.eq_of_getLsbD_eq
  intro i hi
  have hji : 16 * j + i < w := by omega
  rw [getLsbD_chunk]
  simp only [setChunk, BitVec.getLsbD_setWidth, BitVec.getLsbD_or, BitVec.getLsbD_and,
    BitVec.getLsbD_not, BitVec.getLsbD_shiftLeft, getLsbD_low]
  by_cases h : j = k
  · subst h
    have hiw : i < w := by omega
    simp [hi, hji, hiw]
  · have hne : 16 * j + i < 16 * k ∨ 16 ≤ 16 * j + i - 16 * k := by omega
    rw [if_neg h, getLsbD_chunk]
    rcases hne with hlt | hge
    · simp [hi, hji, hlt]
    · simp [hi, hji, hge, Nat.not_lt.2 hge]

/-- One word alone has no others. -/
theorem chunk_setWidth_of_pos {k : Nat} (x : BitVec 16) (hk : 0 < k) :
    chunk k (x.setWidth w) = 0 := by
  apply BitVec.eq_of_getLsbD_eq
  intro i hi
  rw [getLsbD_chunk, BitVec.getLsbD_setWidth, BitVec.getLsbD_of_ge x _ (by omega)]
  simp

/-- The words of two values side by side. -/
theorem chunk_append {u : Nat} (x : BitVec u) (y : BitVec 32) (k : Nat) :
    chunk k (x ++ y) = if k < 2 then chunk k y else chunk (k - 2) x := by
  apply BitVec.eq_of_getLsbD_eq
  intro i hi
  rw [getLsbD_chunk, BitVec.getLsbD_append]
  by_cases hk : k < 2
  · rw [if_pos hk, getLsbD_chunk, if_pos (by omega)]
  · rw [if_neg hk, getLsbD_chunk, if_neg (by omega),
      show 16 * k + i - 32 = 16 * (k - 2) + i by omega]

@[simp] theorem chunk_zero_shift (x : BitVec 32) (a : BitVec 16) :
    chunk 0 (x <<< 16 ||| a.setWidth 32) = a := by
  apply BitVec.eq_of_getLsbD_eq
  intro i hi
  simp [chunk, hi]

@[simp] theorem chunk_one_shift (x : BitVec 32) (a : BitVec 16) :
    chunk 1 (x <<< 16 ||| a.setWidth 32) = chunk 0 x := by
  apply BitVec.eq_of_getLsbD_eq
  intro i hi
  rw [getLsbD_chunk, getLsbD_chunk]
  simp [hi, show 16 + i < 32 by omega, show i < 32 by omega]

@[simp] theorem chunk_zero_setWidth (hw : 16 ≤ w) (a : BitVec 16) : chunk 0 (a.setWidth w) = a := by
  apply BitVec.eq_of_getLsbD_eq
  intro i hi
  rw [getLsbD_chunk]
  simp [hi, show i < w by omega]

theorem fieldChunk_setChunk {j k : Nat} (t : Field w) (v m : BitVec 16) (hj : 16 * (j + 1) ≤ w)
    (hk : 16 * (k + 1) ≤ w) :
    (⟨setChunk k t.data v, setChunk k t.mask m⟩ : Field w).chunk j =
      if k = j then ⟨v, m⟩ else t.chunk j := by
  simp only [Field.chunk, chunk_setChunk _ _ hj hk, eq_comm (a := k)]
  split <;> rfl

end SetChunk

/-- The field of a rule for its version of IP. -/
def fieldAs (isIpv6 : Bool) (pr : PieRule) (field : TemplateField) : Field 16 :=
  fieldData { pr with isIpv6 := isIpv6 } field

/-- The fields whose words are read one by one. -/
def Direct (f : PieFamily) : TemplateField → Prop
  | .spm _ => False
  | .sip _ => False
  | .dip _ => f = .rtl839x
  | _ => True

/-- What is read of the word of such a field. -/
def fieldBack (field : TemplateField) (x : Field 16) : Field 16 :=
  match field with
  | .smac _ => ⟨x.data, x.data⟩
  | .dmac _ => ⟨x.data, x.data⟩
  | _ => x

/-- One turn of the loop sets its own field and no other one. -/
theorem fieldAs_readField {f : PieFamily} {field field' : TemplateField} (r : Regs)
    (pr : PieRule) (i : Nat) (isIpv6 : Bool) (hd : Direct f field)
    (hr : field.inRange = true) (hr' : field'.inRange = true) :
    fieldAs isIpv6 (readField f r pr i field') field =
      if field' = field then fieldBack field (entryField f r i) else fieldAs isIpv6 pr field := by
  unfold fieldAs
  cases field' with
  | spm k =>
    cases field <;> simp only [Direct] at hd <;> match k with
      | 0 => rfl
      | 1 => rfl
      | k + 2 => rfl
  | smac k =>
    have hk : 16 * (k + 1) ≤ 48 := by simp [TemplateField.inRange] at hr'; omega
    cases field with
    | smac j =>
      have hj : 16 * (j + 1) ≤ 48 := by simp [TemplateField.inRange] at hr; omega
      simp only [readField, fieldData, fieldBack, fieldChunk_setChunk _ _ _ hj hk,
        TemplateField.smac.injEq]
    | _ => simp [readField, fieldData]
  | dmac k =>
    have hk : 16 * (k + 1) ≤ 48 := by simp [TemplateField.inRange] at hr'; omega
    cases field with
    | dmac j =>
      have hj : 16 * (j + 1) ≤ 48 := by simp [TemplateField.inRange] at hr; omega
      simp only [readField, fieldData, fieldBack, fieldChunk_setChunk _ _ _ hj hk,
        TemplateField.dmac.injEq]
    | _ => simp [readField, fieldData]
  | sip k => cases field <;> simp [readField, fieldData, Direct] at hd ⊢
  | dip k =>
    cases f with
    | rtl838x => cases field <;> simp [readField, fieldData, Direct] at hd ⊢
    | rtl839x =>
      have hk : k < 8 := by simpa [TemplateField.inRange] using hr'
      simp only [readField, readDip839x]
      cases field with
      | spm j => cases hd
      | sip j => cases hd
      | dip j =>
        have hj : j < 8 := by simpa [TemplateField.inRange] using hr
        have h6 := fieldChunk_setChunk pr.dip6 (entryField .rtl839x r i).data
          (entryField .rtl839x r i).mask (show 16 * (j + 1) ≤ 128 by omega)
          (show 16 * (k + 1) ≤ 128 by omega)
        by_cases hk2 : k < 2
        · by_cases hj2 : isIpv6 ∨ 2 ≤ j
          · simp only [fieldData, fieldBack, if_pos hk2, if_pos hj2, h6, TemplateField.dip.injEq]
          · have h4 := fieldChunk_setChunk pr.dip (entryField .rtl839x r i).data
              (entryField .rtl839x r i).mask (show 16 * (j + 1) ≤ 32 by omega)
              (show 16 * (k + 1) ≤ 32 by omega)
            simp only [fieldData, fieldBack, if_pos hk2, if_neg hj2, h4, TemplateField.dip.injEq]
        · by_cases hj2 : isIpv6 ∨ 2 ≤ j
          · simp only [fieldData, fieldBack, if_neg hk2, if_pos hj2, h6, TemplateField.dip.injEq]
          · have hne : k ≠ j := by omega
            simp only [fieldData, if_neg hk2, if_neg hj2, TemplateField.dip.injEq, if_neg hne]
      | _ => split <;> rfl
  | _ => cases field <;> simp [readField, fieldData, Direct, fieldBack] at hd ⊢

/-- A loop whose turns set a part of the state to one value or leave it alone. -/
theorem foldl_set {α β γ : Type} (step : β → α → β) (view : β → γ) {q : α → Prop}
    [DecidablePred q] {c : γ} {l : List α}
    (h : ∀ b, ∀ a ∈ l, view (step b a) = if q a then c else view b) (b : β) :
    view (l.foldl step b) = if ∃ a ∈ l, q a then c else view b := by
  induction l generalizing b with
  | nil => simp
  | cons a l ih =>
    rw [List.foldl_cons, ih (fun b x hx => h b x (List.mem_cons_of_mem a hx)),
      h b a List.mem_cons_self]
    by_cases hl : ∃ x ∈ l, q x
    · simp [hl]
    · by_cases ha : q a
      · simp [hl, ha]
      · simp [hl, ha]

section Templated

variable {f : PieFamily} {r : Regs} {pr pr₀ : PieRule} {fields : List TemplateField}

/-- The fields that are read one by one come back as `fieldBack` has them. -/
theorem fieldAs_readTemplated {field : TemplateField} (isIpv6 : Bool)
    (he : ∀ x ∈ fields.zipIdx, entryField f r x.2 = fieldData pr x.1)
    (hr : ∀ field ∈ fields, field.inRange = true) (hd : Direct f field) (hf : field ∈ fields) :
    fieldAs isIpv6 (readTemplated f r pr₀ fields) field = fieldBack field (fieldData pr field) := by
  have hstep : ∀ pr', ∀ x ∈ fields.zipIdx, fieldAs isIpv6 (readField f r pr' x.2 x.1) field =
      if x.1 = field then fieldBack field (fieldData pr field) else fieldAs isIpv6 pr' field := by
    intro pr' x hx
    rw [fieldAs_readField r pr' x.2 isIpv6 hd (hr _ hf)
      (hr _ (List.fst_mem_of_mem_zipIdx hx)), he x hx]
    split
    · rename_i h
      rw [h]
    · rfl
  have hx : ∃ x ∈ fields.zipIdx, x.1 = field := by
    obtain ⟨i, hi⟩ := List.getElem?_of_mem hf
    exact ⟨(field, i), List.mk_mem_zipIdx_iff_getElem?.2 hi, rfl⟩
  rw [readTemplated, foldl_set _ (fieldAs isIpv6 · field) hstep, if_pos hx]

end Templated

section Slots

/-- Where the words of a field are: the number of the word and the one of the field. -/
def wordSlots (index : TemplateField → Option Nat) (fields : List TemplateField) :
    List (Nat × Nat) :=
  fields.zipIdx.filterMap fun x => (index x.1).map (·, x.2)

variable {index : TemplateField → Option Nat} {word : Nat → TemplateField}
  {fields : List TemplateField}

theorem mem_wordSlots (hi : ∀ x k, index x = some k ↔ x = word k) {k i : Nat} :
    (k, i) ∈ wordSlots index fields ↔ fields[i]? = some (word k) := by
  simp only [wordSlots, List.mem_filterMap, Option.map_eq_some_iff, Prod.mk.injEq, Prod.exists,
    List.mk_mem_zipIdx_iff_getElem?]
  constructor
  · rintro ⟨x, i', hx, k', hk, rfl, rfl⟩
    rw [hx, (hi x k').1 hk]
  · intro h
    exact ⟨word k, i, h, k, (hi _ k).2 rfl, rfl, rfl⟩

/-- The words of the field that the fields have are those with a place. -/
theorem forall_word_iff (hi : ∀ x k, index x = some k ↔ x = word k) {P : Nat → Prop} :
    (∀ k, word k ∈ fields → P k) ↔ ∀ s ∈ wordSlots index fields, P s.1 := by
  constructor
  · rintro h ⟨k, i⟩ hs
    exact h k (List.mem_of_getElem? ((mem_wordSlots hi).1 hs))
  · intro h k hk
    obtain ⟨i, hi'⟩ := List.getElem?_of_mem hk
    exact h (k, i) ((mem_wordSlots hi).2 hi')

end Slots

section Address

/-- The word `k` of an address, for the index `k` that a field has in it. -/
def readWord (f : PieFamily) (r : Regs) (v : Field 32 × Field 128) (s : Nat × Nat) :
    Field 32 × Field 128 :=
  (readAddress r s.2 s.1 (entryField f r s.2) false v.1 v.2).2

def sipIndex : TemplateField → Option Nat
  | .sip k => some k
  | _ => none

def dipIndex : TemplateField → Option Nat
  | .dip k => some k
  | _ => none

def spmIndex : TemplateField → Option Nat
  | .spm k => some k
  | _ => none

variable {f : PieFamily} {r : Regs} {pr₀ : PieRule} {fields : List TemplateField}

theorem readAddress_snd (r : Regs) (i k : Nat) (x : Field 16) (isIpv6 : Bool) (v4 : Field 32)
    (v6 : Field 128) :
    (readAddress r i k x isIpv6 v4 v6).2 = (readAddress r i k x false v4 v6).2 := by
  match k with
  | 0 => rfl
  | 1 => rfl
  | 2 => rfl
  | k + 3 => rfl

theorem foldl_view {α β γ δ : Type} (step : β → α → β) (view : β → γ) (g : γ → δ → γ)
    (sel : α → Option δ)
    (h : ∀ b a, view (step b a) = ((sel a).map (g (view b))).getD (view b)) (l : List α) (b : β) :
    view (l.foldl step b) = (l.filterMap sel).foldl g (view b) := by
  induction l generalizing b with
  | nil => rfl
  | cons a l ih =>
    rw [List.foldl_cons, ih, h b a, List.filterMap_cons]
    cases sel a <;> rfl

/-- The source address of the loop. -/
theorem sip_readTemplated (f : PieFamily) (r : Regs) (pr₀ : PieRule)
    (fields : List TemplateField) :
    ((readTemplated f r pr₀ fields).sip, (readTemplated f r pr₀ fields).sip6) =
      (wordSlots sipIndex fields).foldl (readWord f r) (pr₀.sip, pr₀.sip6) := by
  have hstep : ∀ (pr : PieRule) (x : TemplateField × Nat),
      ((readField f r pr x.2 x.1).sip, (readField f r pr x.2 x.1).sip6) =
        (((sipIndex x.1).map (·, x.2)).map (readWord f r (pr.sip, pr.sip6))).getD
          (pr.sip, pr.sip6) := by
    rintro pr ⟨field, i⟩
    cases field with
    | spm k => match k with
      | 0 => rfl
      | 1 => rfl
      | k + 2 => rfl
    | sip k =>
      simp only [readField, sipIndex, Option.map_some, Option.getD_some, readWord]
      exact readAddress_snd ..
    | dip k =>
      cases f with
      | rtl838x => rfl
      | rtl839x =>
        simp only [readField, readDip839x, sipIndex, Option.map_none, Option.getD_none]
        split <;> rfl
    | _ => rfl
  exact foldl_view (fun pr x => readField f r pr x.2 x.1) (fun pr => (pr.sip, pr.sip6))
    (readWord f r) (fun x => (sipIndex x.1).map (·, x.2)) hstep fields.zipIdx pr₀

/-- The destination address on the RTL838x. -/
theorem dip_readTemplated (r : Regs) (pr₀ : PieRule) (fields : List TemplateField) :
    ((readTemplated .rtl838x r pr₀ fields).dip, (readTemplated .rtl838x r pr₀ fields).dip6) =
      (wordSlots dipIndex fields).foldl (readWord .rtl838x r) (pr₀.dip, pr₀.dip6) := by
  have hstep : ∀ (pr : PieRule) (x : TemplateField × Nat),
      ((readField .rtl838x r pr x.2 x.1).dip, (readField .rtl838x r pr x.2 x.1).dip6) =
        (((dipIndex x.1).map (·, x.2)).map (readWord .rtl838x r (pr.dip, pr.dip6))).getD
          (pr.dip, pr.dip6) := by
    rintro pr ⟨field, i⟩
    cases field with
    | spm k => match k with
      | 0 => rfl
      | 1 => rfl
      | k + 2 => rfl
    | dip k =>
      simp only [readField, dipIndex, Option.map_some, Option.getD_some, readWord]
      exact readAddress_snd ..
    | _ => rfl
  exact foldl_view (fun pr x => readField .rtl838x r pr x.2 x.1) (fun pr => (pr.dip, pr.dip6))
    (readWord .rtl838x r) (fun x => (dipIndex x.1).map (·, x.2)) hstep fields.zipIdx pr₀

/-- The words of an address stand together, the long one at the start of the template. -/
theorem addressSlots_fixedTemplate (f : PieFamily) {t : Nat} (ht : t < 5)
    {index : TemplateField → Option Nat} (hi : index = sipIndex ∨ index = dipIndex) :
    wordSlots index (fixedTemplate f t) = [] ∨
      (∃ i < 12, wordSlots index (fixedTemplate f t) = [(0, i), (1, i + 1)]) ∨
      wordSlots index (fixedTemplate f t) = (List.range 8).map fun k => (k, k) := by
  have h : ∀ t < 5, (wordSlots sipIndex (fixedTemplate f t) = [] ∨
      (∃ i < 12, wordSlots sipIndex (fixedTemplate f t) = [(0, i), (1, i + 1)]) ∨
      wordSlots sipIndex (fixedTemplate f t) = (List.range 8).map fun k => (k, k)) ∧
      (wordSlots dipIndex (fixedTemplate f t) = [] ∨
      (∃ i < 12, wordSlots dipIndex (fixedTemplate f t) = [(0, i), (1, i + 1)]) ∨
      wordSlots dipIndex (fixedTemplate f t) = (List.range 8).map fun k => (k, k)) := by
    cases f <;> decide +kernel
  rcases hi with rfl | rfl
  · exact (h t ht).1
  · exact (h t ht).2

/-- The words of the source ports, all of them or the first two. -/
theorem spmSlots_fixedTemplate (f : PieFamily) {t : Nat} (ht : t < 5) :
    wordSlots spmIndex (fixedTemplate f t) = [] ∨ ∃ i < 12, ∃ rest ∈ [[], [(2, i + 2), (3, i + 3)],
      [(2, 10), (3, 11)]], wordSlots spmIndex (fixedTemplate f t) = (0, i) :: (1, i + 1) :: rest := by
  have h : ∀ t < 5, wordSlots spmIndex (fixedTemplate f t) = [] ∨ ∃ i < 12, ∃ rest ∈
      [[], [(2, i + 2), (3, i + 3)], [(2, 10), (3, 11)]],
      wordSlots spmIndex (fixedTemplate f t) = (0, i) :: (1, i + 1) :: rest := by
    cases f <;> decide +kernel
  exact h t ht

/-- What the loop makes of a word of the source ports. -/
def readPorts (f : PieFamily) (r : Regs) (v : Field 8 × Field 64) (s : Nat × Nat) :
    Field 8 × Field 64 :=
  let x := entryField f r s.2
  match s.1 with
  | 0 =>
    let spn : BitVec 64 := v.1.data.setWidth 64 <<< 16
    (v.1, ⟨spn ||| x.data.setWidth 64, spn ||| x.mask.setWidth 64⟩)
  | 1 => (v.1, ⟨x.data.setWidth 64, x.mask.setWidth 64⟩)
  | _ => v

theorem spm_readTemplated (f : PieFamily) (r : Regs) (pr₀ : PieRule)
    (fields : List TemplateField) :
    ((readTemplated f r pr₀ fields).spn, (readTemplated f r pr₀ fields).spm) =
      (wordSlots spmIndex fields).foldl (readPorts f r) (pr₀.spn, pr₀.spm) := by
  have hstep : ∀ (pr : PieRule) (x : TemplateField × Nat),
      ((readField f r pr x.2 x.1).spn, (readField f r pr x.2 x.1).spm) =
        (((spmIndex x.1).map (·, x.2)).map (readPorts f r (pr.spn, pr.spm))).getD
          (pr.spn, pr.spm) := by
    rintro pr ⟨field, i⟩
    cases field with
    | spm k => match k with
      | 0 => rfl
      | 1 => rfl
      | k + 2 => rfl
    | dip k =>
      cases f with
      | rtl838x => rfl
      | rtl839x =>
        simp only [readField, readDip839x, spmIndex, Option.map_none, Option.getD_none]
        split <;> rfl
    | _ => rfl
  exact foldl_view (fun pr x => readField f r pr x.2 x.1) (fun pr => (pr.spn, pr.spm))
    (readPorts f r) (fun x => (spmIndex x.1).map (·, x.2)) hstep fields.zipIdx pr₀

/-- The source ports come back when there are none. -/
theorem spmBack_iff {pr : PieRule} {t : Nat} (ht : t < 5) (pr₀ : PieRule) (isIpv6 : Bool)
    (he : ∀ x ∈ (fixedTemplate f t).zipIdx, entryField f r x.2 = fieldData pr x.1) :
    (∀ k, .spm k ∈ fixedTemplate f t →
        fieldAs isIpv6 (readTemplated f r pr₀ (fixedTemplate f t)) (.spm k) =
          fieldData pr (.spm k)) ↔
      ∀ k, .spm k ∈ fixedTemplate f t → fieldData pr (.spm k) = {} := by
  have hi : ∀ x k, spmIndex x = some k ↔ x = .spm k := by
    intro x k
    cases x <;> simp [spmIndex]
  have hback := spm_readTemplated f r pr₀ (fixedTemplate f t)
  have hslot : ∀ s ∈ wordSlots spmIndex (fixedTemplate f t),
      entryField f r s.2 = fieldData pr (.spm s.1) := fun s hs =>
    he (.spm s.1, s.2) (List.mk_mem_zipIdx_iff_getElem?.2 ((mem_wordSlots hi).1 hs))
  rw [forall_word_iff hi, forall_word_iff hi]
  rcases spmSlots_fixedTemplate f ht with hnil | ⟨i, -, rest, hrest, hcons⟩
  · simp [hnil]
  · have hspm : (readTemplated f r pr₀ (fixedTemplate f t)).spm =
        ⟨(entryField f r (i + 1)).data.setWidth 64, (entryField f r (i + 1)).mask.setWidth 64⟩ := by
      rw [hcons] at hback
      simp only [List.mem_cons, List.not_mem_nil, or_false] at hrest
      rcases hrest with rfl | rfl | rfl <;> exact congrArg Prod.snd hback
    have h0 := hslot (0, i) (by simp [hcons])
    have h1 := hslot (1, i + 1) (by simp [hcons])
    have hword : ∀ k, fieldAs isIpv6 (readTemplated f r pr₀ (fixedTemplate f t)) (.spm k) =
        if k = 0 then fieldData pr (.spm 1) else {} := by
      intro k
      simp only [fieldAs, fieldData, hspm, h1]
      split
      · rename_i hk
        subst hk
        simp [Field.chunk, chunk]
      · rename_i hk
        rw [Field.chunk, chunk_setWidth_of_pos _ (Nat.pos_of_ne_zero hk),
          chunk_setWidth_of_pos _ (Nat.pos_of_ne_zero hk)]
    simp only [hword]
    constructor
    · intro h
      have hone : fieldData pr (.spm 1) = {} := (h (1, i + 1) (by simp [hcons])).symm
      intro s hs
      rw [← h s hs, hone]
      exact ite_self _
    · intro h s hs
      rw [h s hs, h (1, i + 1) (by simp [hcons])]
      exact ite_self _

/-- An address of a template is read back: its words are swapped in pairs, and the masks of the
long one are its data. -/
def AddressReadable (fields : List TemplateField) (word : Nat → TemplateField) (pr : PieRule) :
    Prop :=
  let p (k : Nat) : Field 16 := fieldData pr (word k)
  word 0 ∈ fields →
    if word 2 ∈ fields then
      (∀ k < 8, (p k).mask = (p k).data) ∧ p 1 = p 0 ∧ p 6 = p 0 ∧ p 7 = p 0 ∧ p 4 = p 2 ∧ p 5 = p 3
    else if pr.isIpv6 then p 0 = {} ∧ p 1 = {}
    else p 1 = p 0 ∧ (p 0).mask = (p 0).data

/-- The data of a word with the data of another one as their mask. -/
theorem readShort (v : Field 32 × Field 128) (i : Nat) :
    let v' := [(0, i), (1, i + 1)].foldl (readWord f r) v
    v'.2 = v.2 ∧ v'.1.chunk 0 = entryField f r (i + 1) ∧
      v'.1.chunk 1 = ⟨(entryField f r i).data, (entryField f r (i + 1)).data⟩ := by
  simp [readWord, readAddress, Field.chunk]

/-- What the loop makes of a long address. -/
theorem readLong (v : Field 32 × Field 128) :
    let v' := ((List.range 8).map fun k => (k, k)).foldl (readWord f r) v
    let x k := entryField f r k
    v'.1.chunk 0 = x 1 ∧ v'.1.chunk 1 = ⟨(x 0).data, (x 1).data⟩ ∧
      v'.2.chunk 0 = ⟨(x 6).data, (x 6).data⟩ ∧ v'.2.chunk 1 = ⟨(x 7).data, (x 7).data⟩ ∧
      v'.2.chunk 2 = ⟨(x 4).data, (x 4).data⟩ ∧ v'.2.chunk 3 = ⟨(x 5).data, (x 5).data⟩ ∧
      v'.2.chunk 4 = ⟨(x 2).data, (x 2).data⟩ ∧ v'.2.chunk 5 = ⟨(x 3).data, (x 3).data⟩ ∧
      v'.2.chunk 6 = x 1 ∧ v'.2.chunk 7 = ⟨(x 0).data, (x 1).data⟩ := by
  simp only [show List.range 8 = [0, 1, 2, 3, 4, 5, 6, 7] from rfl, List.map_cons, List.map_nil,
    List.foldl_cons, List.foldl_nil, readWord, readAddress, Field.chunk, chunk_append]
  simp [entryField, matchWord]

/-- The words of an address that come back, and what the rule has to have for it. -/
theorem addressBack_iff {index : TemplateField → Option Nat} (word : Nat → TemplateField)
    {pr : PieRule} {t : Nat} {v v₀ : Field 32 × Field 128} (ht : t < 5)
    (hindex : index = sipIndex ∨ index = dipIndex) (hi : ∀ x k, index x = some k ↔ x = word k)
    (hv : v = (wordSlots index (fixedTemplate f t)).foldl (readWord f r) v₀) (hv₀ : v₀.2 = {})
    (he : ∀ x ∈ (fixedTemplate f t).zipIdx, entryField f r x.2 = fieldData pr x.1) :
    (∀ k, word k ∈ fixedTemplate f t →
        (if pr.isIpv6 = true ∨ 2 ≤ k then v.2.chunk k else v.1.chunk k) = fieldData pr (word k)) ↔
      AddressReadable (fixedTemplate f t) word pr := by
  have hslot : ∀ k i, (k, i) ∈ wordSlots index (fixedTemplate f t) →
      entryField f r i = fieldData pr (word k) := fun k i hs =>
    he (word k, i) (List.mk_mem_zipIdx_iff_getElem?.2 ((mem_wordSlots hi).1 hs))
  have hmem : ∀ k, word k ∈ fixedTemplate f t ↔
      ∃ i, (k, i) ∈ wordSlots index (fixedTemplate f t) := by
    intro k
    simp only [mem_wordSlots hi, List.mem_iff_getElem?]
  rw [forall_word_iff hi]
  unfold AddressReadable
  rcases addressSlots_fixedTemplate f ht hindex with hnil | ⟨i, -, hshort⟩ | hlong
  · have hnot : word 0 ∉ fixedTemplate f t := by simp [hmem, hnil]
    simp [hnil, hnot]
  · have hword0 : word 0 ∈ fixedTemplate f t := (hmem 0).2 ⟨i, by simp [hshort]⟩
    have hword2 : word 2 ∉ fixedTemplate f t := by simp [hmem, hshort]
    obtain ⟨h2, hc0, hc1⟩ := readShort (f := f) (r := r) v₀ i
    rw [← hshort, ← hv] at h2 hc0 hc1
    rw [hslot 0 i (by simp [hshort]), hslot 1 (i + 1) (by simp [hshort])] at hc1
    rw [hslot 1 (i + 1) (by simp [hshort])] at hc0
    have hz : ∀ k, v.2.chunk k = {} := by
      intro k
      rw [h2, hv₀]
      simp [Field.chunk, chunk]
    simp only [hshort, List.forall_mem_cons, hz, hc0, hc1, hword0, hword2, if_false, forall_const]
    generalize fieldData pr (word 0) = p0, fieldData pr (word 1) = p1
    obtain ⟨d0, m0⟩ := p0
    obtain ⟨d1, m1⟩ := p1
    cases pr.isIpv6 with
    | true =>
      simp
      grind
    | false =>
      simp
      grind
  · have hword0 : word 0 ∈ fixedTemplate f t := (hmem 0).2 ⟨0, by simp [hlong]⟩
    have hword2 : word 2 ∈ fixedTemplate f t := (hmem 2).2 ⟨2, by simp [hlong]⟩
    obtain ⟨h0, h1, h2, h3, h4, h5, h6, h7, h8, h9⟩ := readLong (f := f) (r := r) v₀
    rw [← hlong, ← hv] at h0 h1 h2 h3 h4 h5 h6 h7 h8 h9
    have hx : ∀ k < 8, entryField f r k = fieldData pr (word k) := fun k hk =>
      hslot k k (by simp [hlong, hk])
    simp only [hx 0 (by decide), hx 1 (by decide), hx 2 (by decide), hx 3 (by decide),
      hx 4 (by decide), hx 5 (by decide), hx 6 (by decide), hx 7 (by decide)]
      at h0 h1 h2 h3 h4 h5 h6 h7 h8 h9
    have hall : ∀ Q : Nat → Prop, (∀ k < 8, Q k) ↔
        Q 0 ∧ Q 1 ∧ Q 2 ∧ Q 3 ∧ Q 4 ∧ Q 5 ∧ Q 6 ∧ Q 7 := by
      intro Q
      constructor
      · intro h
        exact ⟨h 0 (by decide), h 1 (by decide), h 2 (by decide), h 3 (by decide),
          h 4 (by decide), h 5 (by decide), h 6 (by decide), h 7 (by decide)⟩
      · rintro ⟨q0, q1, q2, q3, q4, q5, q6, q7⟩ k hk
        interval_cases k <;> assumption
    simp only [hlong, show List.range 8 = [0, 1, 2, 3, 4, 5, 6, 7] from rfl, List.map_cons,
      List.map_nil, List.forall_mem_cons, h0, h1, h2, h3, h4, h5, h6, h7, h8, h9, hword0, hword2,
      if_true, forall_const, hall]
    generalize fieldData pr (word 0) = p0, fieldData pr (word 1) = p1,
      fieldData pr (word 2) = p2, fieldData pr (word 3) = p3, fieldData pr (word 4) = p4,
      fieldData pr (word 5) = p5, fieldData pr (word 6) = p6, fieldData pr (word 7) = p7
    obtain ⟨d0, m0⟩ := p0
    obtain ⟨d1, m1⟩ := p1
    obtain ⟨d2, m2⟩ := p2
    obtain ⟨d3, m3⟩ := p3
    obtain ⟨d4, m4⟩ := p4
    obtain ⟨d5, m5⟩ := p5
    obtain ⟨d6, m6⟩ := p6
    obtain ⟨d7, m7⟩ := p7
    cases pr.isIpv6 with
    | true =>
      simp
      grind
    | false =>
      simp
      grind

/-- What the reader of templates needs of a rule: it drops the words of the source ports, takes the
data of a MAC address for its mask, and mixes the words of an address up. -/
structure TemplatedReadable (f : PieFamily) (fields : List TemplateField) (pr : PieRule) :
    Prop where
  spm : ∀ k, .spm k ∈ fields → fieldData pr (.spm k) = {}
  smac : ∀ k, .smac k ∈ fields → (fieldData pr (.smac k)).mask = (fieldData pr (.smac k)).data
  dmac : ∀ k, .dmac k ∈ fields → (fieldData pr (.dmac k)).mask = (fieldData pr (.dmac k)).data
  sip : AddressReadable fields .sip pr
  dip : f = .rtl838x → AddressReadable fields .dip pr

theorem twice_eq_iff {x : Field 16} : (⟨x.data, x.data⟩ : Field 16) = x ↔ x.mask = x.data := by
  obtain ⟨d, m⟩ := x
  simp [eq_comm]

/-- The fields of a template come back exactly when the rule is readable. -/
theorem templatedBack_iff {pr : PieRule} {t : Nat} (pr₀ : PieRule) (ht : t < 5)
    (hsip : pr₀.sip6 = {}) (hdip : pr₀.dip6 = {})
    (he : ∀ x ∈ (fixedTemplate f t).zipIdx, entryField f r x.2 = fieldData pr x.1) :
    (∀ x ∈ fixedTemplate f t,
        fieldAs pr.isIpv6 (readTemplated f r pr₀ (fixedTemplate f t)) x = fieldData pr x) ↔
      TemplatedReadable f (fixedTemplate f t) pr := by
  have hdirect : ∀ x ∈ fixedTemplate f t, Direct f x →
      fieldAs pr.isIpv6 (readTemplated f r pr₀ (fixedTemplate f t)) x =
        fieldBack x (fieldData pr x) := fun x hx hd =>
    fieldAs_readTemplated pr.isIpv6 he (fun _ => inRange_of_mem ht) hd hx
  have hspm := spmBack_iff ht pr₀ pr.isIpv6 he
  have hsipBack := addressBack_iff .sip ht (Or.inl rfl)
    (by intro x k; cases x <;> simp [sipIndex]) (sip_readTemplated f r pr₀ _) hsip he
  constructor
  · intro h
    exact
      { spm := hspm.1 fun k hk => h _ hk
        smac := fun k hk => twice_eq_iff.1 ((hdirect _ hk trivial).symm.trans (h _ hk))
        dmac := fun k hk => twice_eq_iff.1 ((hdirect _ hk trivial).symm.trans (h _ hk))
        sip := hsipBack.1 fun k hk => h _ hk
        dip := by
          rintro rfl
          exact (addressBack_iff .dip ht (Or.inr rfl) (by intro x k; cases x <;> simp [dipIndex])
            (dip_readTemplated r pr₀ _) hdip he).1 fun k hk => h _ hk }
  · intro h x hx
    cases x with
    | spm k => exact hspm.2 h.spm k hx
    | smac k => exact (hdirect _ hx trivial).trans (twice_eq_iff.2 (h.smac k hx))
    | dmac k => exact (hdirect _ hx trivial).trans (twice_eq_iff.2 (h.dmac k hx))
    | sip k => exact hsipBack.2 h.sip k hx
    | dip k =>
      cases f with
      | rtl838x =>
        exact (addressBack_iff .dip ht (Or.inr rfl) (by intro x k; cases x <;> simp [dipIndex])
          (dip_readTemplated r pr₀ _) hdip he).2 (h.dip rfl) k hx
      | rtl839x => exact hdirect _ hx rfl
    | _ => exact hdirect _ hx trivial

/-- The fixed fields of a rule alone. -/
def PieRule.fixedPart (pr : PieRule) : PieRule :=
  { spmmaskFix := pr.spmmaskFix, spn := pr.spn, mgntVlan := pr.mgntVlan, dmacHitSw := pr.dmacHitSw
    notFirstFrag := pr.notFirstFrag, frameTypeL4 := pr.frameTypeL4, frameType := pr.frameType
    otagFmt := pr.otagFmt, itagFmt := pr.itagFmt, otagExist := pr.otagExist
    itagExist := pr.itagExist, frameTypeL2 := pr.frameTypeL2, tid := pr.tid, valid := pr.valid
    condNot := pr.condNot, condAnd1 := pr.condAnd1, condAnd2 := pr.condAnd2 }

theorem fixedBack_congr {pr back back' : PieRule} (h : back.fixedPart = back'.fixedPart) :
    FixedBack pr back → FixedBack pr back' := by
  intro hb
  simp only [PieRule.fixedPart, PieRule.mk.injEq, true_and, and_true] at h
  obtain ⟨h1, h2, h3, h4, h5, h6, h7, h8, h9, h10, h11, h12, h13, h14, h15, h16, h17⟩ := h
  exact
    { spmmaskFix := h1 ▸ hb.spmmaskFix
      spn := h2 ▸ hb.spn
      mgntVlan := h3 ▸ hb.mgntVlan
      dmacHitSw := h4 ▸ hb.dmacHitSw
      notFirstFrag := h5 ▸ hb.notFirstFrag
      frameTypeL4 := h6 ▸ hb.frameTypeL4
      frameType := h7 ▸ hb.frameType
      otagFmt := h8 ▸ hb.otagFmt
      itagFmt := h9 ▸ hb.itagFmt
      otagExist := h10 ▸ hb.otagExist
      itagExist := h11 ▸ hb.itagExist
      frameTypeL2 := h12 ▸ hb.frameTypeL2
      tid := h13 ▸ hb.tid
      valid := h14 ▸ hb.valid
      condNot := h15 ▸ hb.condNot
      condAnd1 := h16 ▸ hb.condAnd1
      condAnd2 := h17 ▸ hb.condAnd2 }

/-- The loop leaves the fixed fields alone. -/
theorem fixedPart_readTemplated (f : PieFamily) (r : Regs) (pr₀ : PieRule)
    (fields : List TemplateField) : (readTemplated f r pr₀ fields).fixedPart = pr₀.fixedPart := by
  have hstep : ∀ (pr : PieRule) (x : TemplateField × Nat),
      (readField f r pr x.2 x.1).fixedPart = pr.fixedPart := by
    rintro pr ⟨field, i⟩
    cases field with
    | spm k => match k with
      | 0 => rfl
      | 1 => rfl
      | k + 2 => rfl
    | dip k =>
      cases f with
      | rtl838x => rfl
      | rtl839x =>
        simp only [readField, readDip839x]
        split <;> rfl
    | _ => rfl
  unfold readTemplated
  induction fields.zipIdx generalizing pr₀ with
  | nil => rfl
  | cons x l ih => rw [List.foldl_cons, ih, hstep]

end Address

end Lede.Otto
