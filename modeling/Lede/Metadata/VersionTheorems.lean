/-
Lede.Metadata.VersionTheorems — which version filters do what their operator says.

The packed number of a version is read back as four fields (`fields`): bits of a
component beyond its eight go into the field on the left, and a fifth component
is lost. Packed numbers compare as the fields do (`compare_packed`), so a filter
is right when the fields compare as the versions do and are not all zero.
-/
import Lede.Metadata.Version
import Mathlib.Order.Compare

namespace Lede.Metadata

open Lede.Lib

/-- A dotted decimal version, two or more components of any size. -/
structure Version where
  parts : List Text
  number : ∀ p ∈ parts, isNumber p = true
  two : 2 ≤ parts.length

namespace Version

def text (v : Version) : Text := ['.'].intercalate v.parts

def components (v : Version) : List Nat := v.parts.map (Nat.ofDigitChars 10 · 0)

end Version

/-- The order of versions: by component, missing ones are 0. -/
def cmpVersions : List Nat → List Nat → Ordering
  | [], w => w.foldr (fun b o => (compare 0 b).then o) .eq
  | a :: v, w => (compare a (w.headD 0)).then (cmpVersions v w.tail)

theorem cmpVersions_step (v w : List Nat) :
    cmpVersions v w = (compare (v.headD 0) (w.headD 0)).then (cmpVersions v.tail w.tail) := by
  cases v with
  | nil => cases w <;> simp [cmpVersions]
  | cons a v => rfl

theorem cmpVersions_drop (v w : List Nat) (i : Nat) :
    cmpVersions (v.drop i) (w.drop i) =
      (compare (v.getD i 0) (w.getD i 0)).then
        (cmpVersions (v.drop (i + 1)) (w.drop (i + 1))) := by
  have head : ∀ u : List Nat, (u.drop i).headD 0 = u.getD i 0 := by
    intro u
    rw [List.headD_eq_head?_getD, List.head?_drop, List.getD_eq_getElem?_getD]
  rw [cmpVersions_step, head, head, List.tail_drop, List.tail_drop]

/-- What the operator says of two versions. -/
def Op.holds (op : Op) (o : Ordering) : Bool :=
  match op with
  | lt => o.isLT
  | le => o.isLE
  | gt => o.isGT
  | ge => o.isGE
  | eq => o.isEq
  | ne => !o.isEq

/-- A component as `<<` reads it. -/
def component (v : List Nat) (i : Nat) : Nat := min (v.getD i 0) (2 ^ 64 - 1)

/-- The four fields that packing leaves of a version: the first of 40 bits, the
others of 8. -/
def fields (v : List Nat) : List Nat :=
  let n := component v
  [(n 0 ||| n 1 / 2 ^ 8 ||| n 2 / 2 ^ 16 ||| n 3 / 2 ^ 24) % 2 ^ 40,
   (n 1 ||| n 2 / 2 ^ 8 ||| n 3 / 2 ^ 16) % 2 ^ 8,
   (n 2 ||| n 3 / 2 ^ 8) % 2 ^ 8,
   n 3 % 2 ^ 8]

/-! ## Packing -/

theorem compare_pack {a b c d k : Nat} (hb : b < k) (hd : d < k) :
    compare (k * a + b) (k * c + d) = (compare a c).then (compare b d) := by
  have mul : ∀ {x y : Nat}, x < y → k * x + k ≤ k * y := fun h => by
    rw [← Nat.mul_succ]
    exact Nat.mul_le_mul_left k h
  rcases Nat.lt_trichotomy a c with h | rfl | h
  · have := mul h
    rw [Nat.compare_eq_lt.2 h, Nat.compare_eq_lt.2 (by omega)]
    rfl
  · rw [Nat.compare_eq_eq.2 (rfl : a = a)]
    rcases Nat.lt_trichotomy b d with h | rfl | h
    · rw [Nat.compare_eq_lt.2 h, Nat.compare_eq_lt.2 (by omega)]
      rfl
    · simp
    · rw [Nat.compare_eq_gt.2 h, Nat.compare_eq_gt.2 (by omega)]
      rfl
  · have := mul h
    rw [Nat.compare_eq_gt.2 h, Nat.compare_eq_gt.2 (by omega)]
    rfl

/-- The packed number is its four fields. -/
theorem or_shifts {a b c d : Nat} (hd : d < 2 ^ 64) :
    (a * 2 ^ 24 % 2 ^ 64) ||| (b * 2 ^ 16 % 2 ^ 64) ||| (c * 2 ^ 8 % 2 ^ 64) ||| d =
      2 ^ 8 * (2 ^ 8 * (2 ^ 8 * ((a ||| b / 2 ^ 8 ||| c / 2 ^ 16 ||| d / 2 ^ 24) % 2 ^ 40) +
        (b ||| c / 2 ^ 8 ||| d / 2 ^ 16) % 2 ^ 8) + (c ||| d / 2 ^ 8) % 2 ^ 8) + d % 2 ^ 8 := by
  -- where the bits of each shifted component are
  have ha0 : a * 2 ^ 24 % 2 ^ 64 / 2 ^ 24 = a % 2 ^ 40 := by clear * -; omega
  have ha1 : a * 2 ^ 24 % 2 ^ 64 / 2 ^ 16 % 2 ^ 8 = 0 := by clear * -; omega
  have ha2 : a * 2 ^ 24 % 2 ^ 64 / 2 ^ 8 % 2 ^ 8 = 0 := by clear * -; omega
  have ha3 : a * 2 ^ 24 % 2 ^ 64 % 2 ^ 8 = 0 := by clear * -; omega
  have hb0 : b * 2 ^ 16 % 2 ^ 64 / 2 ^ 24 = b / 2 ^ 8 % 2 ^ 40 := by clear * -; omega
  have hb1 : b * 2 ^ 16 % 2 ^ 64 / 2 ^ 16 % 2 ^ 8 = b % 2 ^ 8 := by clear * -; omega
  have hb2 : b * 2 ^ 16 % 2 ^ 64 / 2 ^ 8 % 2 ^ 8 = 0 := by clear * -; omega
  have hb3 : b * 2 ^ 16 % 2 ^ 64 % 2 ^ 8 = 0 := by clear * -; omega
  have hc0 : c * 2 ^ 8 % 2 ^ 64 / 2 ^ 24 = c / 2 ^ 16 % 2 ^ 40 := by clear * -; omega
  have hc1 : c * 2 ^ 8 % 2 ^ 64 / 2 ^ 16 % 2 ^ 8 = c / 2 ^ 8 % 2 ^ 8 := by clear * -; omega
  have hc2 : c * 2 ^ 8 % 2 ^ 64 / 2 ^ 8 % 2 ^ 8 = c % 2 ^ 8 := by clear * -; omega
  have hc3 : c * 2 ^ 8 % 2 ^ 64 % 2 ^ 8 = 0 := by clear * -; omega
  have hd0 : d / 2 ^ 24 = d / 2 ^ 24 % 2 ^ 40 := by clear * - hd; omega
  have split : ∀ n : Nat, n = 2 ^ 8 * (2 ^ 8 * (2 ^ 8 * (n / 2 ^ 24) + n / 2 ^ 16 % 2 ^ 8) +
      n / 2 ^ 8 % 2 ^ 8) + n % 2 ^ 8 := by clear * -; omega
  rw [split (_ ||| d)]
  simp only [Nat.or_div_two_pow, Nat.or_mod_two_pow, ha0, ha1, ha2, ha3, hb0, hb1, hb2, hb3, hc0,
    hc1, hc2, hc3, Nat.zero_or]
  rw [← hd0]

/-- The number made of four fields. -/
def packed (v : List Nat) : Nat :=
  2 ^ 8 * (2 ^ 8 * (2 ^ 8 * (fields v).getD 0 0 + (fields v).getD 1 0) + (fields v).getD 2 0) +
    (fields v).getD 3 0

/-- Packed numbers compare as their fields do. -/
theorem compare_packed (v w : List Nat) :
    compare (packed v) (packed w) = cmpVersions (fields v) (fields w) := by
  have low : ∀ (v : List Nat) (i : Nat), (fields v).getD (i + 1) 0 < 2 ^ 8 := by
    intro v i
    match i with
    | 0 => exact Nat.mod_lt _ (by decide)
    | 1 => exact Nat.mod_lt _ (by decide)
    | 2 => exact Nat.mod_lt _ (by decide)
    | i + 3 => simp [fields]
  have list : ∀ v : List Nat, fields v = [(fields v).getD 0 0, (fields v).getD 1 0,
      (fields v).getD 2 0, (fields v).getD 3 0] := fun _ => rfl
  unfold packed
  rw [compare_pack (low v 2) (low w 2), compare_pack (low v 1) (low w 1),
    compare_pack (low v 0) (low w 0), list v, list w]
  simp [cmpVersions, Ordering.then_assoc]

theorem packed_eq_zero (v : List Nat) : packed v = 0 ↔ ∀ f ∈ fields v, f = 0 := by
  have list : fields v = [(fields v).getD 0 0, (fields v).getD 1 0,
      (fields v).getD 2 0, (fields v).getD 3 0] := rfl
  unfold packed
  constructor
  · intro h f hf
    rw [list] at hf
    simp only [List.mem_cons, List.not_mem_nil, or_false] at hf
    obtain rfl | rfl | rfl | rfl := hf <;> omega
  · intro h
    have get : ∀ i < 4, (fields v).getD i 0 = 0 := by
      intro i hi
      have hlen : i < (fields v).length := hi
      rw [List.getD_eq_getElem?_getD, List.getElem?_eq_getElem hlen, Option.getD_some]
      exact h _ (List.getElem_mem _)
    have h0 := get 0 (by decide)
    have h1 := get 1 (by decide)
    have h2 := get 2 (by decide)
    have h3 := get 3 (by decide)
    omega

/-! ## Texts -/

namespace Version

variable (v : Version)

theorem part_ne_nil {p : Text} (hp : p ∈ v.parts) : p ≠ [] := by
  have := v.number p hp
  simp only [isNumber, Bool.and_eq_true, decide_eq_true_eq] at this
  exact this.1

theorem isDigit_of_mem {p : Text} (hp : p ∈ v.parts) {c : Char} (hc : c ∈ p) :
    c.isDigit = true := by
  have := v.number p hp
  simp only [isNumber, Bool.and_eq_true, decide_eq_true_eq] at this
  exact List.all_eq_true.1 this.2 c hc

theorem splitOn_text : v.text.splitOn '.' = v.parts := by
  refine List.splitOn_intercalate '.' ?_ ?_
  · intro p hp hdot
    exact absurd (v.isDigit_of_mem hp hdot) (by decide)
  · intro h
    have := v.two
    simp [h] at this

theorem mem_intercalate {c : Char} : ∀ (ps : List Text), c ∈ ['.'].intercalate ps →
    c = '.' ∨ ∃ p ∈ ps, c ∈ p
  | [], h => by simp at h
  | [p], h => by
      rw [List.intercalate_singleton] at h
      exact Or.inr ⟨p, List.mem_singleton.2 rfl, h⟩
  | p :: q :: ps, h => by
      rw [List.intercalate_cons_cons] at h
      obtain h | h := List.mem_append.1 h
      · obtain h | h := List.mem_append.1 h
        · exact Or.inr ⟨p, List.mem_cons_self .., h⟩
        · exact Or.inl (List.mem_singleton.1 h)
      · obtain h | ⟨r, hr, hc⟩ := mem_intercalate (q :: ps) h
        · exact Or.inl h
        · exact Or.inr ⟨r, List.mem_cons_of_mem p hr, hc⟩

theorem mem_text {c : Char} (h : c ∈ v.text) : (c.isDigit || c == '.') = true := by
  obtain rfl | ⟨p, hp, hc⟩ := mem_intercalate v.parts h
  · rfl
  · rw [v.isDigit_of_mem hp hc]
    rfl

theorem isVersion_text : isVersion v.text = true := by
  have hlast : v.text.getLast? ≠ some '\n' := by
    intro h
    exact absurd (v.mem_text (List.mem_of_getLast? h)) (by decide)
  unfold isVersion
  rw [if_neg hlast, v.splitOn_text]
  simpa [v.two] using v.number

theorem uv_part (i : Nat) (hi : i < 4) :
    (uv ((v.parts ++ [['0'], ['0'], ['0'], ['0']]).getD i [])).toNat =
      component v.components i := by
  have hval : Nat.ofDigitChars 10 ((v.parts ++ [['0'], ['0'], ['0'], ['0']]).getD i []) 0 =
      v.components.getD i 0 := by
    rw [components, List.getD_eq_getElem?_getD, List.getD_eq_getElem?_getD, List.getElem?_map,
      List.getElem?_append]
    by_cases hlt : i < v.parts.length
    · rw [if_pos hlt, List.getElem?_eq_getElem hlt]
      rfl
    · rw [if_neg hlt, List.getElem?_eq_none (Nat.le_of_not_lt hlt)]
      have hzero : ∀ j < 4, ([['0'], ['0'], ['0'], ['0']] : List Text)[j]? = some ['0'] := by decide
      rw [hzero _ (by omega)]
      rfl
  unfold uv component
  rw [hval, BitVec.toNat_ofNat, Nat.mod_eq_of_lt]
  omega

theorem version_to_num_text : (version_to_num v.text).toNat = packed v.components := by
  have hshift : ∀ (x : BitVec 64) (k : Nat), (x <<< k).toNat = x.toNat * 2 ^ k % 2 ^ 64 := by
    intro x k
    rw [BitVec.toNat_shiftLeft, Nat.shiftLeft_eq]
  have hlt : component v.components 3 < 2 ^ 64 := by
    unfold component
    omega
  rw [version_to_num, if_pos v.isVersion_text]
  dsimp only
  rw [v.splitOn_text, BitVec.toNat_or, BitVec.toNat_or, BitVec.toNat_or, hshift, hshift, hshift,
    v.uv_part 0 (by decide), v.uv_part 1 (by decide), v.uv_part 2 (by decide),
    v.uv_part 3 (by decide), or_shifts hlt]
  rfl

/-! ## Filters -/

theorem takeVersion_text : takeVersion v.text = some (v.text, []) := by
  have hrun : v.text.takeWhile (fun c => c.isDigit || c == '.') = v.text := by
    rw [← List.append_nil v.text, List.takeWhile_append_of_pos fun c hc => v.mem_text hc]
    simp
  have hgroups : v.parts.takeWhile (· != []) = v.parts := by
    rw [← List.append_nil v.parts, List.takeWhile_append_of_pos fun p hp =>
      bne_iff_ne.2 (v.part_ne_nil hp)]
    simp
  have htwo : ¬ v.parts.length < 2 := Nat.not_lt.2 v.two
  unfold takeVersion
  simp only [hrun, v.splitOn_text, hgroups, List.drop_length, Bool.false_eq_true, and_false,
    if_false, if_neg htwo]
  rw [← text, List.drop_length]

theorem matchFilter_text (op : Op) : matchFilter (op.text ++ v.text) = some (op, v.text, []) := by
  have hfind : Op.all.find? (fun o => o.text.isPrefixOf (op.text ++ v.text)) = some op := by
    cases op <;> simp [Op.all, Op.text]
  have hdrop : (op.text ++ v.text).drop 2 = v.text := by cases op <;> rfl
  rw [matchFilter, hfind]
  simp only [hdrop, v.takeVersion_text, Option.map_some]

theorem stripFilter_text (op : Op) : ∀ (item : Text), '@' ∉ item →
    stripFilter (item ++ '@' :: (op.text ++ v.text)) = some (item, op, v.text)
  | [], _ => by
      rw [List.nil_append, stripFilter, if_pos rfl, v.matchFilter_text]
  | c :: item, h => by
      simp only [List.mem_cons, not_or] at h
      rw [List.cons_append, stripFilter, if_neg (Ne.symm h.1), stripFilter_text op item h.2]
      rfl

end Version

/-- An operator tests packed numbers as it tests their order. -/
theorem Op.test_eq (op : Op) (x y : BitVec 64) :
    op.test x y = op.holds (compare x.toNat y.toNat) := by
  rcases Nat.lt_trichotomy x.toNat y.toNat with h | h | h
  · rw [Nat.compare_eq_lt.2 h]
    have hne : x ≠ y := by
      rintro rfl
      omega
    cases op <;> simp [test, holds, BitVec.lt_def, BitVec.le_def, hne] <;> omega
  · obtain rfl := BitVec.eq_of_toNat_eq h
    rw [Nat.compare_eq_eq.2 rfl]
    cases op <;> simp [test, holds]
  · rw [Nat.compare_eq_gt.2 h]
    have hne : x ≠ y := by
      rintro rfl
      omega
    cases op <;> simp [test, holds, BitVec.lt_def, BitVec.le_def, hne] <;> omega

/-- What becomes of an item with a filter. -/
theorem version_filter_item (v w : Version) (op : Op) {item : Text} (h : '@' ∉ item) :
    version_filter_list v.text [item ++ '@' :: (op.text ++ w.text)] =
      if packed v.components ≠ 0 ∧ packed w.components ≠ 0 ∧
          op.holds (cmpVersions (fields v.components) (fields w.components)) = false then []
      else [item] := by
  have hpos : ∀ u : Version, 0 < version_to_num u.text ↔ packed u.components ≠ 0 := by
    intro u
    rw [BitVec.lt_def, u.version_to_num_text]
    exact Nat.pos_iff_ne_zero
  have htest : op.test (version_to_num v.text) (version_to_num w.text) =
      op.holds (cmpVersions (fields v.components) (fields w.components)) := by
    rw [Op.test_eq, v.version_to_num_text, w.version_to_num_text, compare_packed]
  unfold version_filter_list filterItem
  simp only [List.filterMap_cons, w.stripFilter_text op item h, hpos, htest]
  by_cases hv : packed v.components = 0 <;> by_cases hw : packed w.components = 0 <;>
    cases op.holds (cmpVersions (fields v.components) (fields w.components)) <;> simp [hv, hw]

theorem Op.holds_inj {o o' : Ordering} (h : ∀ op : Op, op.holds o = op.holds o') : o = o' := by
  have hlt := h .lt
  have hgt := h .gt
  cases o <;> cases o' <;> simp_all [holds]

/-- The filters on a version do what their operators say exactly when neither
version packs to 0 and the packed fields compare as the versions do. -/
theorem version_filter_iff (v w : Version) :
    (∀ (op : Op) (item : Text), '@' ∉ item →
      version_filter_list v.text [item ++ '@' :: (op.text ++ w.text)] =
        if op.holds (cmpVersions v.components w.components) then [item] else []) ↔
      (∃ f ∈ fields v.components, f ≠ 0) ∧ (∃ f ∈ fields w.components, f ≠ 0) ∧
        cmpVersions (fields v.components) (fields w.components) =
          cmpVersions v.components w.components := by
  have hzero : ∀ u : Version, (∃ f ∈ fields u.components, f ≠ 0) ↔ packed u.components ≠ 0 := by
    intro u
    rw [ne_eq, packed_eq_zero]
    simp
  rw [hzero, hzero]
  constructor
  · intro h
    have item : ∀ op : Op, (if packed v.components ≠ 0 ∧ packed w.components ≠ 0 ∧
          op.holds (cmpVersions (fields v.components) (fields w.components)) = false then []
        else [([] : Text)]) =
        if op.holds (cmpVersions v.components w.components) then [[]] else [] := fun op =>
      (version_filter_item v w op List.not_mem_nil).symm.trans (h op [] List.not_mem_nil)
    -- a filter that is not looked at keeps an item for both `lt` and `gt`
    have both : packed v.components ≠ 0 ∧ packed w.components ≠ 0 := by
      by_contra hcon
      have hkeep : ∀ op : Op, op.holds (cmpVersions v.components w.components) = true := by
        intro op
        have := item op
        rw [if_neg fun hc => hcon ⟨hc.1, hc.2.1⟩] at this
        by_contra hop
        simp [hop] at this
      have hlt : cmpVersions v.components w.components = .lt := by
        simpa [Op.holds] using hkeep .lt
      have hgt : cmpVersions v.components w.components = .gt := by
        simpa [Op.holds] using hkeep .gt
      exact absurd (hlt.symm.trans hgt) (by decide)
    refine ⟨both.1, both.2, Op.holds_inj fun op => ?_⟩
    have := item op
    simp only [both.1, both.2, ne_eq, not_false_eq_true, true_and] at this
    cases hf : op.holds (cmpVersions (fields v.components) (fields w.components)) <;>
      cases hc : op.holds (cmpVersions v.components w.components) <;> simp_all
  · rintro ⟨hv, hw, hcmp⟩ op item hitem
    rw [version_filter_item v w op hitem, hcmp]
    cases op.holds (cmpVersions v.components w.components) <;> simp [hv, hw]

/-- `4.9.256` packs as `4.9.0`. -/
def patch256 : Version := ⟨[['4'], ['9'], ['2', '5', '6']], by decide, by decide⟩

def patch1 : Version := ⟨[['4'], ['9'], ['1']], by decide, by decide⟩

theorem version_filter_patch256 :
    ¬ ∀ (op : Op) (item : Text), '@' ∉ item →
      version_filter_list patch256.text [item ++ '@' :: (op.text ++ patch1.text)] =
        if op.holds (cmpVersions patch256.components patch1.components) then [item] else [] := by
  intro h
  have hgt := h .gt ['X'] (by decide)
  revert hgt
  decide +kernel

/-! ## Versions that fit -/

/-- At most four components, of eight bits but for the first. -/
structure Fits (v : List Nat) : Prop where
  length : v.length ≤ 4
  first : v.getD 0 0 < 2 ^ 40
  rest : ∀ i, 0 < i → v.getD i 0 < 2 ^ 8

theorem Fits.fields_eq {v : List Nat} (h : Fits v) :
    fields v = [v.getD 0 0, v.getD 1 0, v.getD 2 0, v.getD 3 0] := by
  have h0 := h.first
  have h1 := h.rest 1 (by decide)
  have h2 := h.rest 2 (by decide)
  have h3 := h.rest 3 (by decide)
  have hcomp : ∀ i, component v i = v.getD i 0 := by
    intro i
    unfold component
    cases i with
    | zero => omega
    | succ i =>
      have := h.rest (i + 1) (Nat.succ_pos i)
      omega
  have hhigh : ∀ {x k : Nat}, x < 2 ^ 8 → 8 ≤ k → x / 2 ^ k = 0 := by
    intro x k hx hk
    exact Nat.div_eq_of_lt (Nat.lt_of_lt_of_le hx (Nat.pow_le_pow_right (by decide) hk))
  simp only [fields, hcomp, hhigh h1 (Nat.le_refl 8), hhigh h2 (Nat.le_refl 8),
    hhigh h3 (Nat.le_refl 8), hhigh h2 (by decide : 8 ≤ 16), hhigh h3 (by decide : 8 ≤ 16),
    hhigh h3 (by decide : 8 ≤ 24), Nat.or_zero, Nat.mod_eq_of_lt h0, Nat.mod_eq_of_lt h1,
    Nat.mod_eq_of_lt h2, Nat.mod_eq_of_lt h3]

theorem cmpVersions_padded {v w : List Nat} (hv : v.length ≤ 4) (hw : w.length ≤ 4) :
    cmpVersions [v.getD 0 0, v.getD 1 0, v.getD 2 0, v.getD 3 0]
      [w.getD 0 0, w.getD 1 0, w.getD 2 0, w.getD 3 0] = cmpVersions v w := by
  have hnil : cmpVersions (v.drop 4) (w.drop 4) = .eq := by
    rw [List.drop_eq_nil_of_le hv, List.drop_eq_nil_of_le hw]
    rfl
  calc cmpVersions [v.getD 0 0, v.getD 1 0, v.getD 2 0, v.getD 3 0]
        [w.getD 0 0, w.getD 1 0, w.getD 2 0, w.getD 3 0]
      = cmpVersions (v.drop 0) (w.drop 0) := by
        rw [cmpVersions_drop, cmpVersions_drop, cmpVersions_drop, cmpVersions_drop, hnil]
        rfl
    _ = cmpVersions v w := by rw [List.drop_zero, List.drop_zero]

/-- Versions that fit and are not all zeros are filtered as they should. -/
theorem version_filter_of_fits {v w : Version} (hv : Fits v.components) (hw : Fits w.components)
    (hv0 : ∃ i < 4, v.components.getD i 0 ≠ 0) (hw0 : ∃ i < 4, w.components.getD i 0 ≠ 0)
    (op : Op) {item : Text} (hitem : '@' ∉ item) :
    version_filter_list v.text [item ++ '@' :: (op.text ++ w.text)] =
      if op.holds (cmpVersions v.components w.components) then [item] else [] := by
  have hfields : ∀ {u : List Nat}, Fits u → (∃ i < 4, u.getD i 0 ≠ 0) → ∃ f ∈ fields u, f ≠ 0 := by
    rintro u hu ⟨i, hi, hne⟩
    refine ⟨u.getD i 0, ?_, hne⟩
    rw [hu.fields_eq]
    match i with
    | 0 | 1 | 2 | 3 => simp
  refine (version_filter_iff v w).2 ⟨hfields hv hv0, hfields hw hw0, ?_⟩ op item hitem
  rw [hv.fields_eq, hw.fields_eq, cmpVersions_padded hv.length hw.length]

end Lede.Metadata
