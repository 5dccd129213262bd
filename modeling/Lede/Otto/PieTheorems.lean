/-
Lede.Otto.PieTheorems — what an entry of the packet inspection engine compares.

The words of an entry hold the fields of its template and the fixed fields (`entryField_ruleWords`,
`entryFixed_ruleWords`), also on the RTL839x, where the masks are not aligned. A template that
fits has every field of the rule but the EtherType (`fields_agree_iff`), so an entry matches by the
criteria of its rule (`ruleAdd_ok`).
-/
import Lede.Otto.Pie
import Mathlib.Tactic.IntervalCases

namespace Lede.Otto

open Lede.Lib.BitField Lede.Lib.Ternary

/-! ## Words of an entry -/

/-- Two fields in a word, the first one in the low half. -/
def pairWord (a b : BitVec 16) : BitVec 32 := a.setWidth 32 ||| b.setWidth 32 <<< 16

@[simp] theorem chunk_pairWord_zero (a b : BitVec 16) : chunk 0 (pairWord a b) = a := by
  apply BitVec.eq_of_getLsbD_eq
  intro i hi
  simp [pairWord, chunk]

@[simp] theorem chunk_pairWord_one (a b : BitVec 16) : chunk 1 (pairWord a b) = b := by
  apply BitVec.eq_of_getLsbD_eq
  intro i hi
  simp [pairWord, chunk]
  grind

/-- What the loop of `write_templated` makes of one word of data and its masks. -/
def writePair (f : PieFamily) (pr : PieRule) (r : Regs) (h : Nat) (a b : TemplateField) : Regs :=
  writeField f pr (writeField f pr r (2 * h) a) (2 * h + 1) b

theorem writePair_rtl838x (pr : PieRule) (r : Regs) (h : Nat) (hh : h < 6) (a b : TemplateField)
    (k : Nat) :
    writePair .rtl838x pr r h a b k =
      if k = 12 - h then pairWord (fieldData pr a).mask (fieldData pr b).mask
      else if k = 5 - h then pairWord (fieldData pr a).data (fieldData pr b).data
      else r k := by
  have h1 : (2 * h + 1) / 2 = h := by omega
  have h2 : 5 - h ≠ 12 - h := by omega
  simp only [writePair, writeField, Nat.mul_mod_right, Nat.mul_div_cancel_left h (Nat.two_pos), h1,
    Nat.mul_add_mod, if_true, Function.update_apply, pairWord, Nat.one_mod, one_ne_zero, if_false,
    h2]
  by_cases hm : k = 12 - h
  · simp only [hm, if_true]
  · by_cases hd : k = 5 - h
    · simp only [hd, h2, if_true, if_false]
    · simp only [hm, hd, if_false]

theorem writePair_rtl839x (pr : PieRule) (r : Regs) (h : Nat) (hh : h < 6) (a b : TemplateField)
    (k : Nat) :
    writePair .rtl839x pr r h a b k =
      if k = 11 - h then r k ||| (fieldData pr b).mask.setWidth 32 >>> 8
      else if k = 12 - h then r k ||| pairWord (fieldData pr a).mask (fieldData pr b).mask <<< 8
      else if k = 5 - h then pairWord (fieldData pr a).data (fieldData pr b).data
      else r k := by
  have h1 : (2 * h + 1) / 2 = h := by omega
  have h2 : 5 - h ≠ 12 - h := by omega
  have h3 : 11 - h ≠ 5 - h := by omega
  have h4 : 11 - h ≠ 12 - h := by omega
  have hshift : ∀ x y : BitVec 16,
      pairWord x y <<< 8 = x.setWidth 32 <<< 8 ||| y.setWidth 32 <<< 24 := by
    intro x y
    simp only [pairWord, BitVec.shiftLeft_or_distrib, ← BitVec.shiftLeft_add]
  simp only [writePair, writeField, Nat.mul_mod_right, Nat.mul_div_cancel_left h (Nat.two_pos), h1,
    Nat.mul_add_mod, if_true, Function.update_apply, hshift, Nat.one_mod, one_ne_zero, if_false,
    h2, h2.symm, h3, h4]
  by_cases hp : k = 11 - h
  · simp only [hp, if_true]
  · by_cases hm : k = 12 - h
    · simp only [hm, h4.symm, if_true, if_false, BitVec.or_assoc]
    · by_cases hd : k = 5 - h
      · simp only [hd, h2, h3.symm, if_true, if_false, pairWord]
      · simp only [hp, hm, hd, if_false]

/-- The upper byte of a field. -/
theorem highByte_shift (a : BitVec 16) : a.setWidth 32 >>> 8 >>> 8 = 0 := by
  apply BitVec.eq_of_getLsbD_eq
  intro i hi
  simp

section

variable {tid frameTypeL2 : BitVec 8} {itagExist otagExist itagFmt otagFmt : BitVec 1}
  {frameType frameTypeL4 : BitVec 8} {notFirstFrag dmacHitSw mgntVlan : BitVec 1}
  {spn spmmaskFix : BitVec 8}

/-- The bits of the fixed fields. -/
theorem getLsbD_fixedWord {i : Nat} (hi : i < 24) :
    (fixedWord tid frameTypeL2 itagExist otagExist itagFmt otagFmt frameType frameTypeL4
      notFirstFrag dmacHitSw mgntVlan spn spmmaskFix).getLsbD i =
      if i < 2 then tid.getLsbD i
      else if i < 4 then frameTypeL2.getLsbD (i - 2)
      else if i < 5 then itagExist != 0
      else if i < 6 then otagExist != 0
      else if i < 7 then itagFmt != 0
      else if i < 8 then otagFmt != 0
      else if i < 10 then frameType.getLsbD (i - 8)
      else if i < 13 then frameTypeL4.getLsbD (i - 10)
      else if i < 14 then notFirstFrag != 0
      else if i < 15 then dmacHitSw != 0
      else if i < 16 then mgntVlan != 0
      else if i < 22 then spn.getLsbD (i - 16)
      else spmmaskFix.getLsbD (i - 22) := by
  have h3 : (0x3 : BitVec 32) = low 2 := rfl
  have h7 : (0x7 : BitVec 32) = low 3 := rfl
  have h63 : (0x3f : BitVec 32) = low 6 := rfl
  simp only [fixedWord, h3, h7, h63, BitVec.getLsbD_or, BitVec.getLsbD_shiftLeft,
    BitVec.getLsbD_and, BitVec.getLsbD_setWidth, getLsbD_flag, getLsbD_low]
  interval_cases i <;>
    simp only [Nat.reduceLT, Nat.reduceEqDiff, Nat.reduceSub, decide_true, decide_false,
      Bool.true_and, Bool.false_and, Bool.not_true, Bool.not_false, Bool.and_false, Bool.and_true,
      Bool.or_false, Bool.false_or, if_true, if_false]

/-- The bits that a rule compares. -/
theorem fixedWord_tid {i : Nat} (hi : i < 2) :
    (fixedWord tid frameTypeL2 itagExist otagExist itagFmt otagFmt frameType frameTypeL4
      notFirstFrag dmacHitSw mgntVlan spn spmmaskFix).getLsbD i = tid.getLsbD i := by
  rw [getLsbD_fixedWord (by omega), if_pos hi]

theorem fixedWord_frameType {i : Nat} (hi : i < 2) :
    (fixedWord tid frameTypeL2 itagExist otagExist itagFmt otagFmt frameType frameTypeL4
      notFirstFrag dmacHitSw mgntVlan spn spmmaskFix).getLsbD (8 + i) = frameType.getLsbD i := by
  rw [getLsbD_fixedWord (by omega)]
  simp (disch := omega) only [if_neg, if_pos, Nat.add_sub_cancel_left]

theorem fixedWord_frameTypeL4 {i : Nat} (hi : i < 3) :
    (fixedWord tid frameTypeL2 itagExist otagExist itagFmt otagFmt frameType frameTypeL4
      notFirstFrag dmacHitSw mgntVlan spn spmmaskFix).getLsbD (10 + i) = frameTypeL4.getLsbD i := by
  rw [getLsbD_fixedWord (by omega)]
  simp (disch := omega) only [if_neg, if_pos, Nat.add_sub_cancel_left]

theorem fixedWord_spn {i : Nat} (hi : i < 6) :
    (fixedWord tid frameTypeL2 itagExist otagExist itagFmt otagFmt frameType frameTypeL4
      notFirstFrag dmacHitSw mgntVlan spn spmmaskFix).getLsbD (16 + i) = spn.getLsbD i := by
  rw [getLsbD_fixedWord (by omega)]
  simp (disch := omega) only [if_neg, if_pos, Nat.add_sub_cancel_left]

/-- They are 24 bits. -/
theorem getLsbD_fixedWord_of_ge {i : Nat} (hi : 24 ≤ i) :
    (fixedWord tid frameTypeL2 itagExist otagExist itagFmt otagFmt frameType frameTypeL4
      notFirstFrag dmacHitSw mgntVlan spn spmmaskFix).getLsbD i = false := by
  have h3 : (0x3 : BitVec 32) = low 2 := rfl
  have h7 : (0x7 : BitVec 32) = low 3 := rfl
  have h63 : (0x3f : BitVec 32) = low 6 := rfl
  simp only [fixedWord, h3, h7, h63, BitVec.getLsbD_or, BitVec.getLsbD_shiftLeft,
    BitVec.getLsbD_and, BitVec.getLsbD_setWidth, getLsbD_flag, getLsbD_low]
  grind

end

theorem fixedMask_shift (pr : PieRule) : fixedMask pr >>> 16 >>> 8 = 0 := by
  apply BitVec.eq_of_getLsbD_eq
  intro i hi
  simp [fixedMask, getLsbD_fixedWord_of_ge]

/-- A word of masks that are not aligned, put together from its two words. -/
theorem unaligned_pairWord (a b : BitVec 16) (x y : BitVec 32) (hy : y >>> 8 = 0) :
    (b.setWidth 32 >>> 8 ||| x <<< 8) <<< 24 ||| (y ||| pairWord a b <<< 8) >>> 8 =
      pairWord a b := by
  apply BitVec.eq_of_getLsbD_eq
  intro i hi
  have hy' : y.getLsbD (8 + i) = false := by
    have := congrArg (fun z => BitVec.getLsbD z i) hy
    simpa using this
  simp [pairWord, hy']
  grind

theorem writeTemplated_twelve (f : PieFamily) (r : Regs) (pr : PieRule)
    (a₀ a₁ a₂ a₃ a₄ a₅ a₆ a₇ a₈ a₉ a₁₀ a₁₁ : TemplateField) :
    writeTemplated f r pr [a₀, a₁, a₂, a₃, a₄, a₅, a₆, a₇, a₈, a₉, a₁₀, a₁₁] =
      writePair f pr (writePair f pr (writePair f pr (writePair f pr (writePair f pr
        (writePair f pr r 0 a₀ a₁) 1 a₂ a₃) 2 a₄ a₅) 3 a₆ a₇) 4 a₈ a₉) 5 a₁₀ a₁₁ := rfl

/-- The list has twelve fields. -/
theorem exists_twelve {α : Type} {l : List α} (h : l.length = 12) :
    ∃ a₀ a₁ a₂ a₃ a₄ a₅ a₆ a₇ a₈ a₉ a₁₀ a₁₁,
      l = [a₀, a₁, a₂, a₃, a₄, a₅, a₆, a₇, a₈, a₉, a₁₀, a₁₁] := by
  match l, h with
  | [a₀, a₁, a₂, a₃, a₄, a₅, a₆, a₇, a₈, a₉, a₁₀, a₁₁], _ =>
    exact ⟨a₀, a₁, a₂, a₃, a₄, a₅, a₆, a₇, a₈, a₉, a₁₀, a₁₁, rfl⟩

section

variable {f : PieFamily} {pr : PieRule} {fields : List TemplateField}

/-- The data of two fields are in one word. -/
theorem matchWord_ruleWords (hv : pr.valid = true) (hl : fields.length = 12) (h : Nat)
    (hh : h < 6) :
    matchWord (ruleWords f pr fields) h =
      pairWord (fieldData pr fields[2 * h]).data (fieldData pr fields[2 * h + 1]).data := by
  obtain ⟨a₀, a₁, a₂, a₃, a₄, a₅, a₆, a₇, a₈, a₉, a₁₀, a₁₁, rfl⟩ := exists_twelve hl
  simp only [matchWord, ruleWords, hv, if_true, writeTemplated_twelve]
  cases f <;> interval_cases h <;>
    simp [writePair_rtl838x, writePair_rtl839x]

/-- So are their masks. -/
theorem maskWord_ruleWords (hv : pr.valid = true) (hl : fields.length = 12) (h : Nat)
    (hh : h < 6) :
    maskWord f (ruleWords f pr fields) h =
      pairWord (fieldData pr fields[2 * h]).mask (fieldData pr fields[2 * h + 1]).mask := by
  obtain ⟨a₀, a₁, a₂, a₃, a₄, a₅, a₆, a₇, a₈, a₉, a₁₀, a₁₁, rfl⟩ := exists_twelve hl
  simp only [maskWord, ruleWords, hv, if_true, writeTemplated_twelve]
  cases f with
  | rtl838x => interval_cases h <;> simp [writePair_rtl838x]
  | rtl839x =>
    have hx : ∀ (b : BitVec 16) (x y : BitVec 32),
        (x <<< 8 ||| b.setWidth 32 >>> 8) <<< 24 ||| y =
          (b.setWidth 32 >>> 8 ||| x <<< 8) <<< 24 ||| y :=
      fun b x y => by rw [BitVec.or_comm (x <<< 8)]
    interval_cases h <;>
      simp [writePair_rtl839x, writeFixedFields, hx, unaligned_pairWord, fixedMask_shift,
        highByte_shift]

/-- An entry holds the fields of its template. -/
theorem entryField_ruleWords (hv : pr.valid = true) (hl : fields.length = 12) (i : Nat)
    (hi : i < fields.length) :
    entryField f (ruleWords f pr fields) i = fieldData pr fields[i] := by
  have hh : i / 2 < 6 := by omega
  simp only [entryField, matchWord_ruleWords hv hl (i / 2) hh, maskWord_ruleWords hv hl (i / 2) hh]
  obtain h | h : i % 2 = 0 ∨ i % 2 = 1 := by omega
  · have hi2 : 2 * (i / 2) = i := by omega
    simp [h, hi2]
  · have hi2 : 2 * (i / 2) + 1 = i := by omega
    simp [h, hi2]

/-- And the fixed fields. -/
theorem entryFixed_ruleWords (hv : pr.valid = true) (hl : fields.length = 12) :
    entryFixed f (ruleWords f pr fields) = { data := fixedData pr, mask := fixedMask pr } := by
  obtain ⟨a₀, a₁, a₂, a₃, a₄, a₅, a₆, a₇, a₈, a₉, a₁₀, a₁₁, rfl⟩ := exists_twelve hl
  simp only [entryFixed, ruleWords, hv, if_true, writeTemplated_twelve]
  cases f with
  | rtl838x => simp [writePair_rtl838x, writeFixedFields]
  | rtl839x =>
    simp [writePair_rtl839x, writeFixedFields]
    constructor
    · apply BitVec.eq_of_getLsbD_eq
      intro i hi
      have hge : 24 ≤ i → (fixedData pr).getLsbD i = false := getLsbD_fixedWord_of_ge
      simp
      grind
    · apply BitVec.eq_of_getLsbD_eq
      intro i hi
      have hge : 24 ≤ i → (fixedMask pr).getLsbD i = false := getLsbD_fixedWord_of_ge
      have hlow : (16777215#32 : BitVec 32) = low 24 := rfl
      simp [hlow, conditions]
      grind

/-- It is valid. -/
theorem valid_ruleWords (hv : pr.valid = true) (hl : fields.length = 12) :
    (ruleWords f pr fields (match f with | .rtl838x => 14 | .rtl839x => 13)).getLsbD
      (match f with | .rtl838x => 31 | .rtl839x => 15) = true := by
  obtain ⟨a₀, a₁, a₂, a₃, a₄, a₅, a₆, a₇, a₈, a₉, a₁₀, a₁₁, rfl⟩ := exists_twelve hl
  simp only [ruleWords, hv, if_true, writeTemplated_twelve]
  cases f with
  | rtl838x => simp [writePair_rtl838x, writeFixedFields, conditions, hv]
  | rtl839x => simp [writePair_rtl839x, writeFixedFields, conditions, hv]

end

/-! ## Matching -/

/-- The fixed fields that a rule compares: the port, the frame types and the template. -/
structure PieRule.Fixed (pr : PieRule) (port : BitVec 6) (j : Nat) : Prop where
  spn : pr.spn = ⟨port.setWidth 8, 0x7f⟩
  tid : pr.tid = ⟨BitVec.ofNat 8 j, 0x3⟩
  frameType : ∀ i, 2 ≤ i → pr.frameType.mask.getLsbD i = false
  frameTypeL4 : ∀ i, 3 ≤ i → pr.frameTypeL4.mask.getLsbD i = false
  others : pr.spmmaskFix.mask = 0 ∧ pr.mgntVlan.mask = 0 ∧ pr.dmacHitSw.mask = 0 ∧
    pr.notFirstFrag.mask = 0 ∧ pr.otagFmt.mask = 0 ∧ pr.itagFmt.mask = 0 ∧
    pr.otagExist.mask = 0 ∧ pr.itagExist.mask = 0 ∧ pr.frameTypeL2.mask = 0

/-- The bits that the mask of such a rule has. -/
theorem fixedMask_bit {pr : PieRule} {port : BitVec 6} {j : Nat} (h : pr.Fixed port j) {i : Nat}
    (hi : (fixedMask pr).getLsbD i = true) :
    i < 2 ∨ (8 ≤ i ∧ i < 10 ∧ pr.frameType.mask.getLsbD (i - 8) = true) ∨
      (10 ≤ i ∧ i < 13 ∧ pr.frameTypeL4.mask.getLsbD (i - 10) = true) ∨ (16 ≤ i ∧ i < 22) := by
  obtain ⟨hspn, htid, hft, hl4, h1, h2, h3, h4, h5, h6, h7, h8, h9⟩ := h
  have h24 : i < 24 := by
    by_contra hge
    rw [fixedMask, getLsbD_fixedWord_of_ge (by omega)] at hi
    cases hi
  simp only [fixedMask, getLsbD_fixedWord h24, h1, h2, h3, h4, h5, h6, h7, h8, h9,
    BitVec.ofNat_eq_ofNat, BitVec.getLsbD_zero, bne_self_eq_false] at hi
  by_cases c1 : i < 2
  · exact .inl c1
  by_cases c2 : i < 8
  · simp only [c1, c2, if_true, if_false, ite_self] at hi
    cases hi
  by_cases c3 : i < 10
  · simp (disch := omega) only [if_neg, if_pos] at hi
    exact .inr (.inl ⟨by omega, c3, hi⟩)
  by_cases c4 : i < 13
  · simp (disch := omega) only [if_neg, if_pos] at hi
    exact .inr (.inr (.inl ⟨by omega, c4, hi⟩))
  by_cases c5 : 16 ≤ i ∧ i < 22
  · exact .inr (.inr (.inr c5))
  · have c6 : i < 22 → i < 16 := by omega
    simp (disch := omega) only [if_neg] at hi
    split_ifs at hi with c7 c8 c9

/-- They agree when each of them does. -/
theorem fixed_agrees_iff {pr : PieRule} {port : BitVec 6} {j : Nat} (h : pr.Fixed port j)
    (fr : Frame) :
    ({ data := fixedData pr, mask := fixedMask pr } : Lib.Ternary.Field 32).Agrees (fr.fixed j) ↔
      fr.port = port ∧ pr.frameType.Agrees fr.payload.frameType ∧
        pr.frameTypeL4.Agrees fr.payload.frameTypeL4 := by
  simp only [agrees_iff]
  constructor
  · intro hall
    refine ⟨?_, ?_, ?_⟩
    · apply BitVec.eq_of_getLsbD_eq
      intro i hi
      have hbit := hall (16 + i) (by omega)
      simp only [fixedMask, fixedData, Frame.fixed, fixedWord_spn hi, h.spn] at hbit
      have hi8 : i < 8 := by omega
      have hone : (0x7f : BitVec 8).getLsbD i = true := by
        have hlow : (0x7f : BitVec 8) = low 7 := rfl
        have hi7 : i < 7 := by omega
        simp only [hlow, getLsbD_low, hi8, hi7, decide_true, Bool.and_self]
      simpa [hi8] using hbit hone
    · intro i hi hm
      have hi2 : i < 2 := by
        by_contra hge
        rw [h.frameType i (by omega)] at hm
        cases hm
      have hbit := hall (8 + i) (by omega)
      simp only [fixedMask, fixedData, Frame.fixed, fixedWord_frameType hi2] at hbit
      exact hbit hm
    · intro i hi hm
      have hi3 : i < 3 := by
        by_contra hge
        rw [h.frameTypeL4 i (by omega)] at hm
        cases hm
      have hbit := hall (10 + i) (by omega)
      simp only [fixedMask, fixedData, Frame.fixed, fixedWord_frameTypeL4 hi3] at hbit
      exact hbit hm
  · rintro ⟨hport, hft, hl4⟩ i hi hm
    obtain htid | ⟨hge, hlt, hm⟩ | ⟨hge, hlt, hm⟩ | ⟨hge, hlt⟩ := fixedMask_bit h hm
    · simp only [fixedData, Frame.fixed, fixedWord_tid htid, h.tid]
    · obtain ⟨k, rfl⟩ := Nat.exists_eq_add_of_le hge
      have hk : k < 2 := by omega
      simp only [Nat.add_sub_cancel_left] at hm
      simp only [fixedData, Frame.fixed, fixedWord_frameType hk, hft k (by omega) hm]
    · obtain ⟨k, rfl⟩ := Nat.exists_eq_add_of_le hge
      have hk : k < 3 := by omega
      simp only [Nat.add_sub_cancel_left] at hm
      simp only [fixedData, Frame.fixed, fixedWord_frameTypeL4 hk, hl4 k (by omega) hm]
    · obtain ⟨k, rfl⟩ := Nat.exists_eq_add_of_le hge
      have hk : k < 6 := by omega
      simp only [fixedData, Frame.fixed, fixedWord_spn hk, h.spn, hport]

/-- The templates that the blocks name are the five fixed ones. -/
theorem blockTemplate_lt (f : PieFamily) {block j : Nat} (hb : block < f.ingressBlocks)
    (hj : j < f.templates) : blockTemplate f block j < 5 := by
  have h : ∀ f : PieFamily, ∀ block < 12, ∀ j < 3, blockTemplate f block j < 5 := by
    intro f
    cases f <;> decide
  refine h f block ?_ j ?_
  · cases f <;> simp only [PieFamily.ingressBlocks] at hb <;> omega
  · cases f <;> simp only [PieFamily.templates] at hj <;> omega

theorem length_fixedTemplate (f : PieFamily) {t : Nat} (ht : t < 5) :
    (fixedTemplate f t).length = 12 := by
  have h : ∀ f : PieFamily, ∀ t < 5, (fixedTemplate f t).length = 12 := by
    intro f
    cases f <;> decide
  exact h f t ht

theorem templHas_iff {f : PieFamily} {t : Nat} {field : TemplateField} :
    templHas f t field = true ↔ field ∈ fixedTemplate f t := by
  simp [templHas]

/-- The first index of a range that gives something. -/
theorem exists_of_findSome?_range {β : Type} {n : Nat} {g : Nat → Option β} {b : β}
    (h : (List.range n).findSome? g = some b) :
    ∃ i < n, g i = some b ∧ ∀ i' < i, g i' = none := by
  induction n with
  | zero => simp at h
  | succ n ih =>
    rw [List.range_succ, List.findSome?_append] at h
    cases hn : (List.range n).findSome? g with
    | some c =>
      rw [hn] at h
      obtain ⟨i, hi, hgi, hlt⟩ := ih (by rw [hn]; exact h)
      exact ⟨i, by omega, hgi, hlt⟩
    | none =>
      rw [hn] at h
      have hn' : ∀ i' < n, g i' = none := by simpa using hn
      exact ⟨n, by omega, by simpa using h, hn'⟩

theorem verifyTemplate_eq_some {f : PieFamily} {used : Nat → Bool} {pr : PieRule}
    {t block idx : Nat} (h : verifyTemplate f used pr t block = some idx) :
    templateFits f pr t = true ∧ used idx = false ∧ idx / pieBlockSize = block ∧
      ∀ t', templateFits f pr t' = true → verifyTemplate f used pr t' block ≠ none := by
  simp only [verifyTemplate] at h
  split at h
  · rename_i hfits
    obtain ⟨i, hi, rfl⟩ := Option.map_eq_some_iff.1 h
    have hfree := List.find?_some hi
    have hlt : i < pieBlockSize := List.mem_range.1 (List.mem_of_find?_eq_some hi)
    refine ⟨hfits, by simpa using hfree, ?_, ?_⟩
    · rw [Nat.mul_add_div (by decide), Nat.div_eq_of_lt hlt, Nat.add_zero]
    · intro t' ht'
      simp [verifyTemplate, ht', hi]
  · cases h

/-- Where `rule_add` finds an entry: it is free, and the template is the first of its block that
fits. -/
theorem findTemplate_eq_some {f : PieFamily} {used : Nat → Bool} {pr : PieRule}
    {block j idx : Nat} (h : findTemplate f used pr = some (block, j, idx)) :
    block < f.ingressBlocks ∧ j < f.templates ∧ idx / pieBlockSize = block ∧
      used idx = false ∧ templateFits f pr (blockTemplate f block j) = true ∧
      ∀ j' < j, templateFits f pr (blockTemplate f block j') = false := by
  obtain ⟨block', hblock, h, -⟩ := exists_of_findSome?_range h
  obtain ⟨j', hj, h, hlt⟩ := exists_of_findSome?_range h
  obtain ⟨idx', hidx, heq⟩ := Option.map_eq_some_iff.1 h
  obtain ⟨rfl, rfl, rfl⟩ : block' = block ∧ j' = j ∧ idx' = idx := by simpa using heq
  obtain ⟨hfits, hfree, hdiv, hall⟩ := verifyTemplate_eq_some hidx
  refine ⟨hblock, hj, hdiv, hfree, hfits, ?_⟩
  intro i hi
  cases hfit : templateFits f pr (blockTemplate f block' i) with
  | false => rfl
  | true =>
    have hnone := hlt i hi
    rw [Option.map_eq_none_iff] at hnone
    exact absurd hnone (hall _ hfit)

/-- With the word `k` of an address, the fields have all its first `n` words. -/
def Complete (fields : List TemplateField) (word : Nat → TemplateField) (k n : Nat) : Prop :=
  word k ∈ fields → ∀ i < n, word i ∈ fields

instance (fields : List TemplateField) (word : Nat → TemplateField) (k n : Nat) :
    Decidable (Complete fields word k n) :=
  inferInstanceAs (Decidable (_ → _))

/-- The word of an address that `verify_template` asks for comes with the others. -/
theorem fixedTemplate_complete (f : PieFamily) {t : Nat} (ht : t < 5) :
    (Complete (fixedTemplate f t) .smac 0 3 ∧ Complete (fixedTemplate f t) .dmac 0 3) ∧
      (Complete (fixedTemplate f t) .sip 0 2 ∧ Complete (fixedTemplate f t) .dip 0 2) ∧
      Complete (fixedTemplate f t) .sip 2 8 ∧ Complete (fixedTemplate f t) .dip 2 8 := by
  have h : ∀ t < 5,
      (Complete (fixedTemplate f t) .smac 0 3 ∧ Complete (fixedTemplate f t) .dmac 0 3) ∧
        (Complete (fixedTemplate f t) .sip 0 2 ∧ Complete (fixedTemplate f t) .dip 0 2) ∧
        Complete (fixedTemplate f t) .sip 2 8 ∧ Complete (fixedTemplate f t) .dip 2 8 := by
    cases f <;> decide
  exact h t ht

/-- The words of a field that there are. -/
def TemplateField.inRange : TemplateField → Bool
  | .smac k => k < 3
  | .dmac k => k < 3
  | .sip k => k < 8
  | .dip k => k < 8
  | _ => true

theorem inRange_of_mem {f : PieFamily} {t : Nat} (ht : t < 5) {field : TemplateField}
    (h : field ∈ fixedTemplate f t) : field.inRange = true := by
  have hall : ∀ t < 5, ∀ field ∈ fixedTemplate f t, field.inRange = true := by
    cases f <;> decide
  exact hall t ht field h

/-- A rule that compares nothing but what a flower rule can. -/
structure PieRule.OfFlower (pr : PieRule) : Prop where
  spm : pr.spm.mask = 0
  otag : pr.otag.mask = 0
  fieldRangeCheck : pr.fieldRangeCheck.mask = 0
  tosProto : pr.tosProto.mask = 0
  icmpIgmp : pr.icmpIgmp.mask = 0
  v4 : pr.isIpv6 = false → pr.sip6.mask = 0 ∧ pr.dip6.mask = 0

/-- An address of 32 or of 128 bits, compared with what the engine reads. -/
def addressAgrees (isIpv6 : Bool) (v4 : Lib.Ternary.Field 32) (v6 : Lib.Ternary.Field 128)
    (v : BitVec 128) : Prop :=
  if isIpv6 then v6.Agrees v else v4.Agrees (v.setWidth 32)

/-- The words of an address agree when the address does. -/
theorem address_agrees_iff {fields : List TemplateField} {word : Nat → TemplateField}
    {isIpv6 : Bool} {v4 : Lib.Ternary.Field 32} {v6 : Lib.Ternary.Field 128} (v : BitVec 128)
    (h2 : Complete fields word 0 2) (h8 : Complete fields word 2 8)
    (hlt : ∀ k, word k ∈ fields → k < 8)
    (hv6 : isIpv6 = false → v6.mask = 0)
    (hfits4 : isIpv6 = false → v4.mask ≠ 0 → word 0 ∈ fields)
    (hfits6 : isIpv6 = true → v6.mask ≠ 0 → word 2 ∈ fields) :
    (∀ k, word k ∈ fields →
        (if isIpv6 = true ∨ 2 ≤ k then v6.chunk k else v4.chunk k).Agrees (chunk k v)) ↔
      addressAgrees isIpv6 v4 v6 v := by
  cases isIpv6 with
  | true =>
    simp only [true_or, if_true, addressAgrees]
    exact agrees_iff_words (n := 8) rfl (fun hm => h8 (hfits6 rfl hm)) hlt
  | false =>
    have hzero : ∀ k, (v6.chunk k).mask = 0 := by
      intro k
      simp [Field.chunk, chunk, hv6 rfl]
    have hall : v4.mask ≠ 0 → ∀ k < 2, word k ∈ fields ∧ k < 2 :=
      fun hm k hk => ⟨h2 (hfits4 rfl hm) k hk, hk⟩
    have hiff := agrees_iff_words (n := 2) rfl (v := v.setWidth 32) hall (fun k h => h.2)
    simp only [Bool.false_eq_true, false_or, addressAgrees, if_false]
    rw [← hiff]
    constructor
    · intro h k hk
      have := h k hk.1
      rw [if_neg (by omega)] at this
      rw [show v.setWidth 32 = v.setWidth (16 * 2) from rfl, chunk_setWidth hk.2]
      exact this
    · intro h k hk
      split
      · exact agrees_of_mask (hzero k) _
      · have hlt : k < 2 := by omega
        have := h k ⟨hk, hlt⟩
        rwa [show v.setWidth 32 = v.setWidth (16 * 2) from rfl, chunk_setWidth hlt] at this

/-- What `verify_template` asks of a template. -/
structure Fits (pr : PieRule) (fields : List TemplateField) : Prop where
  sip : pr.isIpv6 = false → pr.sip.mask ≠ 0 → .sip 0 ∈ fields
  dip : pr.isIpv6 = false → pr.dip.mask ≠ 0 → .dip 0 ∈ fields
  sip6 : pr.isIpv6 = true → pr.sip6.mask ≠ 0 → .sip 2 ∈ fields
  dip6 : pr.isIpv6 = true → pr.dip6.mask ≠ 0 → .dip 2 ∈ fields
  smac : pr.smac.mask ≠ 0 → .smac 0 ∈ fields
  dmac : pr.dmac.mask ≠ 0 → .dmac 0 ∈ fields
  itag : pr.itag.mask ≠ 0 → .itag ∈ fields
  sport : pr.sport.mask ≠ 0 → .l4Sport ∈ fields
  dport : pr.dport.mask ≠ 0 → .l4Dport ∈ fields

/-- One check of `verify_template`. -/
theorem asks_iff {f : PieFamily} {t w : Nat} {m : BitVec w} {field : TemplateField} :
    (!(m != 0 && !templHas f t field)) = true ↔ (m ≠ 0 → field ∈ fixedTemplate f t) := by
  rw [← templHas_iff]
  by_cases hm : m = 0
  · simp [hm]
  · have hb : (m != 0) = true := bne_iff_ne.2 hm
    simp only [hb, Bool.true_and, Bool.not_not, ne_eq, hm, not_false_eq_true, true_implies]

/-- One check of the addresses. -/
theorem asksOf_iff {f : PieFamily} {t w : Nat} {v : Bool} {m : BitVec w} {field : TemplateField} :
    (!(v && m != 0 && !templHas f t field)) = true ↔
      (v = true → m ≠ 0 → field ∈ fixedTemplate f t) := by
  cases v with
  | false => simp
  | true => simpa using asks_iff (m := m)

theorem templateFits_iff {f : PieFamily} {pr : PieRule} {t : Nat} :
    templateFits f pr t = true ↔ Fits pr (fixedTemplate f t) := by
  simp only [templateFits, Bool.and_eq_true, asks_iff, asksOf_iff, and_assoc]
  simp only [Bool.not_eq_true']
  constructor
  · rintro ⟨h1, h2, h3, h4, h5, h6, h7, h8, h9⟩
    exact ⟨h1, h2, h3, h4, h5, h6, h7, h8, h9⟩
  · rintro ⟨h1, h2, h3, h4, h5, h6, h7, h8, h9⟩
    exact ⟨h1, h2, h3, h4, h5, h6, h7, h8, h9⟩

/-- The fields of a template that fits agree when the criteria of the rule do. -/
theorem fields_agree_iff {f : PieFamily} {pr : PieRule} {t : Nat} (ht : t < 5)
    (hpr : pr.OfFlower) (hfits : Fits pr (fixedTemplate f t)) (fr : Frame) :
    (∀ field ∈ fixedTemplate f t, (fieldData pr field).Agrees (fr.field field)) ↔
      (pr.smac.Agrees fr.smac ∧ pr.dmac.Agrees fr.dmac) ∧ pr.itag.Agrees (fr.itag.getD 0) ∧
        (pr.sport.Agrees fr.payload.ports.1 ∧ pr.dport.Agrees fr.payload.ports.2) ∧
        (addressAgrees pr.isIpv6 pr.sip pr.sip6 fr.payload.sip ∧
          addressAgrees pr.isIpv6 pr.dip pr.dip6 fr.payload.dip) ∧
        (.ethertype ∈ fixedTemplate f t → pr.ethertype.Agrees fr.payload.ethertype) := by
  obtain ⟨⟨hsmac, hdmac⟩, ⟨hsip, hdip⟩, hsip6, hdip6⟩ := fixedTemplate_complete f ht
  have hrange : ∀ field ∈ fixedTemplate f t, field.inRange = true := fun _ => inRange_of_mem ht
  have hs := agrees_iff_words (n := 3) rfl (v := fr.smac) (fun hm => hsmac (hfits.smac hm))
    (fun k hk => by simpa [TemplateField.inRange] using hrange _ hk)
  have hd := agrees_iff_words (n := 3) rfl (v := fr.dmac) (fun hm => hdmac (hfits.dmac hm))
    (fun k hk => by simpa [TemplateField.inRange] using hrange _ hk)
  have hsa := address_agrees_iff fr.payload.sip hsip hsip6
    (fun k hk => by simpa [TemplateField.inRange] using hrange _ hk)
    (fun h => (hpr.v4 h).1) hfits.sip hfits.sip6
  have hda := address_agrees_iff fr.payload.dip hdip hdip6
    (fun k hk => by simpa [TemplateField.inRange] using hrange _ hk)
    (fun h => (hpr.v4 h).2) hfits.dip hfits.dip6
  rw [← hs, ← hd, ← hsa, ← hda]
  constructor
  · intro h
    refine ⟨⟨fun k hk => h _ hk, fun k hk => h _ hk⟩, ?_, ⟨?_, ?_⟩,
      ⟨fun k hk => h _ hk, fun k hk => h _ hk⟩, fun hk => h _ hk⟩
    · by_cases hm : pr.itag.mask = 0
      · exact agrees_of_mask hm _
      · exact h _ (hfits.itag hm)
    · by_cases hm : pr.sport.mask = 0
      · exact agrees_of_mask hm _
      · exact h _ (hfits.sport hm)
    · by_cases hm : pr.dport.mask = 0
      · exact agrees_of_mask hm _
      · exact h _ (hfits.dport hm)
  · rintro ⟨⟨h1, h2⟩, h3, ⟨h4, h5⟩, ⟨h6, h7⟩, h8⟩ field hfield
    cases field with
    | spm k => exact agrees_of_mask (by simp [fieldData, Field.chunk, chunk, hpr.spm]) _
    | otag => exact agrees_of_mask hpr.otag _
    | smac k => exact h1 k hfield
    | dmac k => exact h2 k hfield
    | ethertype => exact h8 hfield
    | itag => exact h3
    | rangeChk => exact agrees_of_mask hpr.fieldRangeCheck _
    | sip k => exact h6 k hfield
    | dip k => exact h7 k hfield
    | ipTosProto => exact agrees_of_mask hpr.tosProto _
    | l4Sport => exact h4
    | l4Dport => exact h5
    | icmpIgmp => exact agrees_of_mask hpr.icmpIgmp _

/-- An entry compares the fixed fields and the fields of its template. -/
theorem entryMatches_iff {f : PieFamily} (pr : PieRule) {entry : PieEntry}
    (hv : pr.valid = true) (hl : entry.fields.length = 12)
    (hw : entry.words = ruleWords f pr entry.fields) (fr : Frame) :
    entryMatches f entry fr ↔
      ({ data := fixedData pr, mask := fixedMask pr } : Lib.Ternary.Field 32).Agrees
          (fr.fixed entry.tid) ∧
        ∀ field ∈ entry.fields, (fieldData pr field).Agrees (fr.field field) := by
  unfold entryMatches
  rw [hw, entryFixed_ruleWords hv hl]
  have hvalid := valid_ruleWords (f := f) hv hl
  constructor
  · rintro ⟨-, hfixed, hall⟩
    refine ⟨hfixed, fun field hfield => ?_⟩
    obtain ⟨i, hi, rfl⟩ := List.getElem_of_mem hfield
    have := hall (entry.fields[i], i) (by simp [List.mem_zipIdx_iff_getElem?, hi])
    rwa [entryField_ruleWords hv hl i hi] at this
  · rintro ⟨hfixed, hall⟩
    refine ⟨hvalid, hfixed, fun x hx => ?_⟩
    obtain ⟨hi, hx1⟩ := List.getElem?_eq_some_iff.1 (List.mem_zipIdx_iff_getElem?.1 hx)
    rw [entryField_ruleWords hv hl x.2 hi, hx1]
    exact hall _ (hx1 ▸ List.getElem_mem hi)

/-- An entry matches a frame when the criteria of its rule do; the EtherType is one of them if
the template has it. -/
theorem ruleAdd_ok {f : PieFamily} {used : Nat → Bool} {pr : PieRule} {port : BitVec 6}
    {entry : PieEntry} (hpr : pr.OfFlower) (hspn : pr.spn = ⟨port.setWidth 8, 0x7f⟩)
    (hft : ∀ i, 2 ≤ i → pr.frameType.mask.getLsbD i = false)
    (hl4 : ∀ i, 3 ≤ i → pr.frameTypeL4.mask.getLsbD i = false)
    (hothers : pr.spmmaskFix.mask = 0 ∧ pr.mgntVlan.mask = 0 ∧ pr.dmacHitSw.mask = 0 ∧
      pr.notFirstFrag.mask = 0 ∧ pr.otagFmt.mask = 0 ∧ pr.itagFmt.mask = 0 ∧
      pr.otagExist.mask = 0 ∧ pr.itagExist.mask = 0 ∧ pr.frameTypeL2.mask = 0)
    (h : ruleAdd f used pr = .ok entry) :
    ∃ block j idx, findTemplate f used pr = some (block, j, idx) ∧
      ∀ fr : Frame, entryMatches f entry fr ↔
        (fr.port = port ∧ pr.frameType.Agrees fr.payload.frameType ∧
          pr.frameTypeL4.Agrees fr.payload.frameTypeL4) ∧
        (pr.smac.Agrees fr.smac ∧ pr.dmac.Agrees fr.dmac) ∧ pr.itag.Agrees (fr.itag.getD 0) ∧
        (pr.sport.Agrees fr.payload.ports.1 ∧ pr.dport.Agrees fr.payload.ports.2) ∧
        (addressAgrees pr.isIpv6 pr.sip pr.sip6 fr.payload.sip ∧
          addressAgrees pr.isIpv6 pr.dip pr.dip6 fr.payload.dip) ∧
        (.ethertype ∈ fixedTemplate f (blockTemplate f block j) →
          pr.ethertype.Agrees fr.payload.ethertype) := by
  unfold ruleAdd at h
  cases hfind : findTemplate f used pr with
  | none => simp [hfind] at h
  | some x =>
    obtain ⟨block, j, idx⟩ := x
    simp only [hfind, Except.ok.injEq] at h
    obtain ⟨hblock, hj, hdiv, -, hfits, -⟩ := findTemplate_eq_some hfind
    have ht := blockTemplate_lt f hblock hj
    have hlen := length_fixedTemplate f ht
    refine ⟨block, j, idx, rfl, fun fr => ?_⟩
    rw [hdiv] at h
    subst h
    have hfixed : PieRule.Fixed { pr with valid := true, tid := ⟨BitVec.ofNat 8 j, 0x3⟩ } port j :=
      ⟨hspn, rfl, hft, hl4, hothers⟩
    rw [entryMatches_iff { pr with valid := true, tid := ⟨BitVec.ofNat 8 j, 0x3⟩ } rfl hlen rfl,
      fixed_agrees_iff hfixed,
      ← fields_agree_iff ht hpr (templateFits_iff.1 hfits)]
    exact and_congr_right fun _ => Iff.rfl

end Lede.Otto
