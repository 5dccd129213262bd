/-
Lede.BaseFiles.Ipv4Theorems — what texts the IPv4 helpers accept and that they
undo each other.

Each helper is described by one equivalence over all texts (`str2ip_iff`,
`ip2str_iff`, `prefix2netmask_iff`, `netmask2prefix_iff`); the agreement of two
helpers then says nothing about the shell any more.
-/
import Lede.BaseFiles.Ipv4

namespace Lede.BaseFiles

open Lede.Lib

/-- A dotted quad, each number in its shortest form. -/
def quad (a b c d : Nat) : Text :=
  Nat.toDigits 10 a ++ '.' :: (Nat.toDigits 10 b ++ '.' :: (Nat.toDigits 10 c ++
    '.' :: Nat.toDigits 10 d))

/-- The mask of a prefix length, as a number. -/
def mask (p : Nat) : Nat := 2 ^ 32 - 2 ^ (32 - p)

section Arithmetic

variable {sh : Shell} {n : Text} {v : Nat}

theorem arithText_of_lt {x : BitVec 64} (h : x.toNat < 2 ^ 63) :
    arithText x = Nat.toDigits 10 x.toNat := by
  have hx : ¬ x.toInt < 0 := by
    rw [BitVec.toInt_eq_toNat_of_lt (by omega)]
    omega
  rw [arithText, if_neg hx]

/-- Text of digits only comes from a number that is not negative. -/
theorem eq_of_arithText {x : BitVec 64} (hd : ∀ c ∈ n, c.isDigit = true)
    (h : arithText x = n) : n = Nat.toDigits 10 x.toNat ∧ x.toNat < 2 ^ 63 := by
  unfold arithText at h
  split at h
  · next hneg =>
    subst h
    exact absurd (hd '-' (List.mem_cons_self ..)) (by decide)
  · next hpos =>
    refine ⟨h.symm, ?_⟩
    rw [BitVec.toInt_eq_toNat_bmod, Int.bmod_def] at hpos
    have := x.isLt
    split at hpos <;> omega

theorem constant_toDigits (hv : v < 2 ^ 64) :
    constant sh (Nat.toDigits 10 v) = some (BitVec.ofNat 64 v) := by
  have hzero : ¬ ((Nat.toDigits 10 v).head? = some '0' ∧ 1 < (Nat.toDigits 10 v).length) := by
    rintro ⟨h0, h1⟩
    have : v = 0 := by
      by_contra hne
      exact toDigits_head (by omega) h0
    subst this
    simp at h1
  rw [constant, if_neg hzero, Nat.ofDigitChars_toDigits (by decide) (by decide), if_pos hv]

theorem testGt_toDigits {m : Nat} (hv : v < 2 ^ 63) :
    testGt (Nat.toDigits 10 v) m = true ↔ m < v := by
  simp only [testGt, Nat.ofDigitChars_toDigits (by decide : 1 < 10) (Nat.le_refl 10),
    Bool.and_eq_true, decide_eq_true_eq]
  exact and_iff_right hv

theorem filter_digits_eq_nil :
    n.filter (fun c => !c.isDigit) = [] ↔ ∀ c ∈ n, c.isDigit = true := by
  simp [List.filter_eq_nil_iff]

/-- The check accepts the text of each 32-bit number, in its shortest form, and
nothing else, whatever the shell makes of octal and oversized constants. -/
theorem assert_uint32_iff {x : BitVec 64} :
    assert_uint32 sh n = some x ↔
      ∃ v, v < 2 ^ 32 ∧ n = Nat.toDigits 10 v ∧ x = BitVec.ofNat 64 v := by
  constructor
  · intro h
    unfold assert_uint32 at h
    split at h
    · exact absurd h (by simp)
    · next hdig =>
      rw [not_or, not_not, filter_digits_eq_nil] at hdig
      split at h
      · exact absurd h (by simp)
      · next hgt =>
        split at h
        · exact absurd h (by simp)
        · next y hy =>
          split at h
          · exact absurd h (by simp)
          · next htext =>
            rw [not_not, BitVec.add_zero] at htext
            obtain ⟨hn, hlt⟩ := eq_of_arithText hdig.2 htext
            obtain rfl : y = x := Option.some.inj h
            rw [hn, testGt_toDigits hlt] at hgt
            have hmax : uint_max.toNat = 2 ^ 32 - 1 := by decide
            exact ⟨y.toNat, by omega, hn, (BitVec.eq_of_toNat_eq (by simp)).symm⟩
  · rintro ⟨v, hv, rfl, rfl⟩
    have hdig : ¬ (Nat.toDigits 10 v = [] ∨
        (Nat.toDigits 10 v).filter (fun c => !c.isDigit) ≠ []) := by
      rw [not_or, not_not, filter_digits_eq_nil]
      exact ⟨Nat.toDigits_ne_nil, fun c hc => isDigit_of_mem hc⟩
    have hgt : ¬ testGt (Nat.toDigits 10 v) uint_max.toNat = true := by
      rw [testGt_toDigits (by omega)]
      have hmax : uint_max.toNat = 2 ^ 32 - 1 := by decide
      omega
    have htext : arithText (BitVec.ofNat 64 v) = Nat.toDigits 10 v := by
      rw [arithText_of_lt] <;> rw [BitVec.toNat_ofNat, Nat.mod_eq_of_lt] <;> omega
    rw [assert_uint32, if_neg hdig, if_neg hgt, constant_toDigits (by omega)]
    simp [htext]

/-- What a helper sees of an argument it accepts. -/
theorem bind_assert_uint32 {f : BitVec 64 → Option Text} {t : Text} :
    (assert_uint32 sh n).bind f = some t ↔
      ∃ v, v < 2 ^ 32 ∧ n = Nat.toDigits 10 v ∧ f (BitVec.ofNat 64 v) = some t := by
  rw [Option.bind_eq_some_iff]
  constructor
  · rintro ⟨x, hx, ht⟩
    obtain ⟨v, hv, hn, rfl⟩ := assert_uint32_iff.1 hx
    exact ⟨v, hv, hn, ht⟩
  · rintro ⟨v, hv, hn, ht⟩
    exact ⟨_, assert_uint32_iff.2 ⟨v, hv, hn, rfl⟩, ht⟩

theorem toDigits_inj {a b : Nat} (h : Nat.toDigits 10 a = Nat.toDigits 10 b) : a = b := by
  have := congrArg (Nat.ofDigitChars 10 · 0) h
  simpa [Nat.ofDigitChars_toDigits] using this

end Arithmetic

/-! ## Octets -/

section Octets

variable {n ip rest : Text} {p : List (Char → Bool)} {v : Nat}

theorem glob_length (h : glob p n = true) : n.length = p.length := by
  induction p generalizing n with
  | nil => cases n <;> simp_all [glob]
  | cons q p ih =>
    cases n with
    | nil => simp [glob] at h
    | cons c cs =>
      simp only [glob, Bool.and_eq_true] at h
      simp [ih h.2]

theorem bracket_dot {c : Char} : bracket '.' '.' c = true ↔ c = '.' := by
  constructor
  · intro h
    simp only [bracket, Bool.and_eq_true, decide_eq_true_eq] at h
    exact Char.toNat_inj.1 (Nat.le_antisymm h.2 h.1)
  · rintro rfl
    decide

theorem globStar_dot :
    globStar (p ++ dot) ip = true ↔
      ∃ n rest, ip = n ++ '.' :: rest ∧ glob p n = true := by
  induction p generalizing ip with
  | nil =>
    cases ip with
    | nil => simp [dot, globStar]
    | cons c cs =>
      simp only [List.nil_append, dot, globStar, Bool.and_true, bracket_dot]
      constructor
      · rintro rfl
        exact ⟨[], cs, rfl, rfl⟩
      · rintro ⟨n, rest, hn, hg⟩
        obtain rfl : n = [] := List.eq_nil_of_length_eq_zero (glob_length hg)
        exact (List.cons.inj hn).1
  | cons q p ih =>
    cases ip with
    | nil => simp [globStar]
    | cons c cs =>
      simp only [List.cons_append, globStar, Bool.and_eq_true, ih]
      constructor
      · rintro ⟨hc, n, rest, rfl, hg⟩
        exact ⟨c :: n, rest, rfl, by simp [glob, hc, hg]⟩
      · rintro ⟨n, rest, hn, hg⟩
        cases n with
        | nil => simp [glob] at hg
        | cons c' n =>
          obtain ⟨rfl, rfl⟩ := List.cons.inj hn
          simp only [glob, Bool.and_eq_true] at hg
          exact ⟨hg.1, n, rest, rfl, hg.2⟩

/-- The text matches one of the five patterns for an octet. -/
def IsOctet (n : Text) : Prop :=
  glob digit1 n = true ∨ glob digit2 n = true ∨ digit3.any (fun p => glob p n) = true

/-- The five patterns are the numbers up to 255, without leading zeros. -/
theorem isOctet_iff : IsOctet n ↔ ∃ v, v < 256 ∧ n = Nat.toDigits 10 v := by
  constructor
  · rintro (h | h | h)
    · match n, glob_length h with
      | [c], _ =>
        simp [glob, digit1, bracket] at h
        refine ⟨c.toNat - 48, by omega, ?_⟩
        rw [Nat.toDigits_of_lt_base (by omega), digitChar_toNat_sub h.1 h.2]
    · match n, glob_length h with
      | [c, d], _ =>
        simp [glob, digit2, bracket] at h
        refine ⟨10 * (c.toNat - 48) + (d.toNat - 48), by omega, ?_⟩
        rw [toDigits_two (by omega) (by omega) (by omega),
          digitChar_toNat_sub (by omega) (by omega), digitChar_toNat_sub h.2.1 h.2.2]
    · have hlen : n.length = 3 := by
        obtain ⟨p, hp, hg⟩ := List.any_eq_true.1 h
        have hall : ∀ p ∈ digit3, p.length = 3 := by simp [digit3]
        rw [glob_length hg, hall p hp]
      match n, hlen with
      | [c, d, e], _ =>
        simp [glob, digit3, bracket] at h
        refine ⟨100 * (c.toNat - 48) + 10 * (d.toNat - 48) + (e.toNat - 48), by omega, ?_⟩
        rw [toDigits_three (by omega) (by omega) (by omega) (by omega),
          digitChar_toNat_sub (by omega) (by omega), digitChar_toNat_sub (by omega) (by omega),
          digitChar_toNat_sub (by omega) (by omega)]
  · rintro ⟨v, hv, rfl⟩
    by_cases h10 : v < 10
    · left
      rw [Nat.toDigits_of_lt_base h10]
      simp [glob, digit1, bracket, Nat.toNat_digitChar_of_lt_ten h10]
      omega
    · by_cases h100 : v < 100
      · right; left
        have hv' : v = 10 * (v / 10) + v % 10 := by omega
        rw [hv', toDigits_two (by omega) (by omega) (by omega)]
        have ha : v / 10 < 10 := by omega
        have hb : v % 10 < 10 := by omega
        simp [glob, digit2, bracket, Nat.toNat_digitChar_of_lt_ten ha,
          Nat.toNat_digitChar_of_lt_ten hb]
        omega
      · right; right
        have hv' : v = 100 * (v / 100) + 10 * (v / 10 % 10) + v % 10 := by omega
        rw [hv', toDigits_three (by omega) (by omega) (by omega) (by omega)]
        have ha : v / 100 < 10 := by omega
        have hb : v / 10 % 10 < 10 := by omega
        have hc : v % 10 < 10 := by omega
        simp [glob, digit3, bracket, Nat.toNat_digitChar_of_lt_ten ha,
          Nat.toNat_digitChar_of_lt_ten hb, Nat.toNat_digitChar_of_lt_ten hc]
        omega

theorem not_dot_mem_toDigits (v : Nat) : '.' ∉ Nat.toDigits 10 v := fun h =>
  absurd (isDigit_of_mem h) (by decide)

/-- The number before the first dot is determined by the text. -/
theorem append_dot_inj {m r r' : Text} (hn : '.' ∉ n) (hm : '.' ∉ m)
    (h : n ++ '.' :: r = m ++ '.' :: r') : n = m ∧ r = r' := by
  induction n generalizing m with
  | nil =>
    cases m with
    | nil => exact ⟨rfl, (List.cons.inj h).2⟩
    | cons c m =>
      obtain ⟨rfl, -⟩ := List.cons.inj h
      exact absurd (List.mem_cons_self ..) hm
  | cons c n ih =>
    cases m with
    | nil =>
      obtain ⟨rfl, -⟩ := List.cons.inj h
      exact absurd (List.mem_cons_self ..) hn
    | cons c' m =>
      obtain ⟨rfl, h'⟩ := List.cons.inj h
      obtain ⟨rfl, rfl⟩ := ih (fun hc => hn (List.mem_cons_of_mem _ hc))
        (fun hc => hm (List.mem_cons_of_mem _ hc)) h'
      exact ⟨rfl, rfl⟩

theorem IsOctet.not_dot (h : IsOctet n) : '.' ∉ n := by
  obtain ⟨v, -, rfl⟩ := isOctet_iff.1 h
  exact not_dot_mem_toDigits v

theorem take_drop_dot (n rest : Text) {k : Nat} (hk : n.length = k) :
    (n ++ '.' :: rest).take k = n ∧ (n ++ '.' :: rest).drop (k + 1) = rest := by
  subst hk
  simp

/-- One of the first three blocks takes a number up to 255 and the dot after it. -/
theorem octetDot_iff :
    octetDot ip = some (n, rest) ↔
      ∃ v, v < 256 ∧ n = Nat.toDigits 10 v ∧ ip = n ++ '.' :: rest := by
  -- what a matching pattern of `k` brackets makes of the text
  have taken : ∀ {p : List (Char → Bool)} {k : Nat}, p.length = k →
      (∀ m, glob p m = true → IsOctet m) → globStar (p ++ dot) ip = true →
      some (ip.take k, ip.drop (k + 1)) = some (n, rest) →
      IsOctet n ∧ ip = n ++ '.' :: rest := by
    intro p k hk hoct hstar h
    obtain ⟨m, r, rfl, hg⟩ := globStar_dot.1 hstar
    obtain ⟨ht, hd⟩ := take_drop_dot m r ((glob_length hg).trans hk)
    rw [ht, hd] at h
    obtain ⟨rfl, rfl⟩ := Prod.mk.inj (Option.some.inj h)
    exact ⟨hoct m hg, rfl⟩
  constructor
  · intro h
    have hoct : IsOctet n ∧ ip = n ++ '.' :: rest := by
      unfold octetDot at h
      split at h
      · next hs => exact taken rfl (fun _ => Or.inl) hs h
      · split at h
        · next hs => exact taken rfl (fun _ hg => Or.inr (Or.inl hg)) hs h
        · split at h
          · next hs =>
            obtain ⟨p, hp, hs⟩ := List.any_eq_true.1 hs
            have hlen : ∀ p ∈ digit3, p.length = 3 := by simp [digit3]
            exact taken (hlen p hp)
              (fun _ hg => Or.inr (Or.inr (List.any_eq_true.2 ⟨p, hp, hg⟩))) hs h
          · exact absurd h (by simp)
    obtain ⟨v, hv, hn⟩ := isOctet_iff.1 hoct.1
    exact ⟨v, hv, hn, hoct.2⟩
  · rintro ⟨v, hv, rfl, rfl⟩
    have hoct := isOctet_iff.2 ⟨v, hv, rfl⟩
    -- a pattern that matches takes the same number
    have same : ∀ {p : List (Char → Bool)} {k : Nat}, p.length = k →
        (∀ m, glob p m = true → IsOctet m) →
        globStar (p ++ dot) (Nat.toDigits 10 v ++ '.' :: rest) = true →
        some ((Nat.toDigits 10 v ++ '.' :: rest).take k,
          (Nat.toDigits 10 v ++ '.' :: rest).drop (k + 1)) = some (Nat.toDigits 10 v, rest) := by
      intro p k hk hp hstar
      obtain ⟨m, r, hm, hg⟩ := globStar_dot.1 hstar
      obtain ⟨rfl, rfl⟩ := append_dot_inj hoct.not_dot (hp m hg).not_dot hm
      obtain ⟨ht, hd⟩ := take_drop_dot (Nat.toDigits 10 v) rest ((glob_length hg).trans hk)
      rw [ht, hd]
    unfold octetDot
    split
    · next hs => exact same rfl (fun _ => Or.inl) hs
    · next h1 =>
      split
      · next hs => exact same rfl (fun _ hg => Or.inr (Or.inl hg)) hs
      · next h2 =>
        split
        · next hs =>
          obtain ⟨p, hp, hs⟩ := List.any_eq_true.1 hs
          have hlen : ∀ p ∈ digit3, p.length = 3 := by simp [digit3]
          exact same (hlen p hp)
            (fun _ hg => Or.inr (Or.inr (List.any_eq_true.2 ⟨p, hp, hg⟩))) hs
        · next h3 =>
          exfalso
          obtain hg | hg | hg := hoct
          · exact h1 (globStar_dot.2 ⟨_, _, rfl, hg⟩)
          · exact h2 (globStar_dot.2 ⟨_, _, rfl, hg⟩)
          · obtain ⟨p, hp, hg⟩ := List.any_eq_true.1 hg
            exact h3 (List.any_eq_true.2 ⟨p, hp, globStar_dot.2 ⟨_, _, rfl, hg⟩⟩)

/-- The last block takes a number up to 255 that ends the text. -/
theorem octetEnd_iff :
    octetEnd ip = some (n, rest) ↔ ∃ v, v < 256 ∧ n = Nat.toDigits 10 v ∧ ip = n ∧ rest = [] := by
  have taken : ∀ {k : Nat}, ip.length = k →
      some (ip.take k, ip.drop k) = some (ip, ([] : Text)) := by
    rintro k rfl
    simp
  constructor
  · intro h
    have hoct : IsOctet ip ∧ some (ip, ([] : Text)) = some (n, rest) := by
      unfold octetEnd at h
      split at h
      · next hg => exact ⟨Or.inl hg, (taken (glob_length hg)).symm.trans h⟩
      · split at h
        · next hg => exact ⟨Or.inr (Or.inl hg), (taken (glob_length hg)).symm.trans h⟩
        · split at h
          · next hs =>
            obtain ⟨p, hp, hg⟩ := List.any_eq_true.1 hs
            have hlen : ∀ p ∈ digit3, p.length = 3 := by simp [digit3]
            exact ⟨Or.inr (Or.inr hs), (taken ((glob_length hg).trans (hlen p hp))).symm.trans h⟩
          · exact absurd h (by simp)
    obtain ⟨v, hv, hn⟩ := isOctet_iff.1 hoct.1
    obtain ⟨rfl, rfl⟩ := Prod.mk.inj (Option.some.inj hoct.2)
    exact ⟨v, hv, hn, rfl, rfl⟩
  · rintro ⟨v, hv, hn, rfl, rfl⟩
    have hoct := isOctet_iff.2 ⟨v, hv, hn⟩
    unfold octetEnd
    split
    · next hg => exact taken (glob_length hg)
    · next h1 =>
      split
      · next hg => exact taken (glob_length hg)
      · next h2 =>
        split
        · next hs =>
          obtain ⟨p, hp, hg⟩ := List.any_eq_true.1 hs
          have hlen : ∀ p ∈ digit3, p.length = 3 := by simp [digit3]
          exact taken ((glob_length hg).trans (hlen p hp))
        · next h3 => exact absurd hoct (by rintro (h | h | h) <;> contradiction)

end Octets

/-! ## Addresses -/

section Addresses

variable {sh : Shell} {s t : Text}

/-- `str2ip` accepts the dotted quads in shortest form, and gives the number. -/
theorem str2ip_iff :
    str2ip sh s = some t ↔ ∃ a b c d, a < 256 ∧ b < 256 ∧ c < 256 ∧ d < 256 ∧
      s = quad a b c d ∧
      t = Nat.toDigits 10 (2 ^ 24 * a + 2 ^ 16 * b + 2 ^ 8 * c + d) := by
  have hval : ∀ {a b c d : Nat}, a < 256 → b < 256 → c < 256 → d < 256 →
      arithText (BitVec.ofNat 64 a <<< 24 + BitVec.ofNat 64 b <<< 16 + BitVec.ofNat 64 c <<< 8 +
        BitVec.ofNat 64 d) = Nat.toDigits 10 (2 ^ 24 * a + 2 ^ 16 * b + 2 ^ 8 * c + d) := by
    intro a b c d ha hb hc hd
    have hnat : (BitVec.ofNat 64 a <<< 24 + BitVec.ofNat 64 b <<< 16 + BitVec.ofNat 64 c <<< 8 +
        BitVec.ofNat 64 d).toNat = 2 ^ 24 * a + 2 ^ 16 * b + 2 ^ 8 * c + d := by
      simp only [BitVec.toNat_add, BitVec.toNat_shiftLeft, BitVec.toNat_ofNat, Nat.shiftLeft_eq]
      omega
    rw [arithText_of_lt] <;> rw [hnat]
    omega
  unfold str2ip
  simp only [Option.bind_eq_bind, Option.bind_eq_some_iff, Prod.exists]
  constructor
  · rintro ⟨n₁, r₁, h₁, x₁, hx₁, n₂, r₂, h₂, x₂, hx₂, n₃, r₃, h₃, x₃, hx₃, n₄, r₄, h₄, x₄, hx₄, ht⟩
    obtain ⟨a, ha, rfl, rfl⟩ := octetDot_iff.1 h₁
    obtain ⟨b, hb, rfl, rfl⟩ := octetDot_iff.1 h₂
    obtain ⟨c, hc, rfl, rfl⟩ := octetDot_iff.1 h₃
    obtain ⟨d, hd, rfl, rfl, rfl⟩ := octetEnd_iff.1 h₄
    rw [constant_toDigits (by omega)] at hx₁ hx₂ hx₃ hx₄
    cases hx₁; cases hx₂; cases hx₃; cases hx₄
    rw [if_neg (by simp), hval ha hb hc hd] at ht
    exact ⟨a, b, c, d, ha, hb, hc, hd, rfl, (Option.some.inj ht).symm⟩
  · rintro ⟨a, b, c, d, ha, hb, hc, hd, rfl, rfl⟩
    refine ⟨_, _, octetDot_iff.2 ⟨a, ha, rfl, rfl⟩, _, constant_toDigits (by omega),
      _, _, octetDot_iff.2 ⟨b, hb, rfl, rfl⟩, _, constant_toDigits (by omega),
      _, _, octetDot_iff.2 ⟨c, hc, rfl, rfl⟩, _, constant_toDigits (by omega),
      _, _, octetEnd_iff.2 ⟨d, hd, rfl, rfl, rfl⟩, _, constant_toDigits (by omega), ?_⟩
    rw [if_neg (by simp), hval ha hb hc hd]

/-- `ip2str` writes the four bytes of a 32-bit number. -/
theorem ip2str_iff :
    ip2str sh t = some s ↔ ∃ v, v < 2 ^ 32 ∧ t = Nat.toDigits 10 v ∧
      s = quad (v / 2 ^ 24) (v / 2 ^ 16 % 2 ^ 8) (v / 2 ^ 8 % 2 ^ 8) (v % 2 ^ 8) := by
  have hbyte : ∀ {v k : Nat}, v < 2 ^ 32 →
      ((BitVec.ofNat 64 v).sshiftRight k).toNat = v / 2 ^ k := by
    intro v k hv
    have hmsb : (BitVec.ofNat 64 v).msb = false := by
      rw [BitVec.msb_eq_false_iff_two_mul_lt, BitVec.toNat_ofNat]
      omega
    rw [BitVec.sshiftRight_eq_of_msb_false hmsb, BitVec.toNat_ushiftRight, BitVec.toNat_ofNat,
      Nat.mod_eq_of_lt (by omega), Nat.shiftRight_eq_div_pow]
  have hlow : ∀ x : BitVec 64, arithText (x &&& 255#64) = Nat.toDigits 10 (x.toNat % 2 ^ 8) := by
    intro x
    have hand : (x &&& 255#64).toNat = x.toNat % 2 ^ 8 := by
      rw [BitVec.toNat_and]
      exact Nat.and_two_pow_sub_one_eq_mod x.toNat 8
    rw [arithText_of_lt (by rw [hand]; omega), hand]
  unfold ip2str
  rw [Option.bind_eq_bind, bind_assert_uint32]
  constructor
  · rintro ⟨v, hv, ht, hs⟩
    refine ⟨v, hv, ht, ?_⟩
    rw [hlow, hlow, hlow, arithText_of_lt (by rw [hbyte hv]; omega), hbyte hv, hbyte hv, hbyte hv,
      BitVec.toNat_ofNat, Nat.mod_eq_of_lt (by omega : v < 2 ^ 64)] at hs
    rw [← Option.some.inj hs]
    simp [quad]
  · rintro ⟨v, hv, ht, rfl⟩
    refine ⟨v, hv, ht, ?_⟩
    rw [hlow, hlow, hlow, arithText_of_lt (by rw [hbyte hv]; omega), hbyte hv, hbyte hv, hbyte hv,
      BitVec.toNat_ofNat, Nat.mod_eq_of_lt (by omega : v < 2 ^ 64)]
    simp [quad]

theorem str2ip_eq_ip2str : str2ip sh s = some t ↔ ip2str sh t = some s := by
  rw [str2ip_iff, ip2str_iff]
  constructor
  · rintro ⟨a, b, c, d, ha, hb, hc, hd, rfl, rfl⟩
    refine ⟨_, by omega, rfl, ?_⟩
    congr 1 <;> omega
  · rintro ⟨v, hv, rfl, rfl⟩
    refine ⟨v / 2 ^ 24, v / 2 ^ 16 % 2 ^ 8, v / 2 ^ 8 % 2 ^ 8, v % 2 ^ 8, by omega, by omega,
      by omega, by omega, rfl, ?_⟩
    congr 1
    omega

end Addresses

/-! ## Masks -/

section Masks

variable {sh : Shell} {s t : Text}

theorem prefix2netmask_iff :
    prefix2netmask sh t = some s ↔
      ∃ p, p ≤ 32 ∧ t = Nat.toDigits 10 p ∧ s = Nat.toDigits 10 (mask p) := by
  have hmask : ∀ p < 33, arithText ((~~~(uint_max.sshiftRight p)) &&& uint_max) =
      Nat.toDigits 10 (mask p) := by decide
  unfold prefix2netmask
  rw [Option.bind_eq_bind, bind_assert_uint32]
  constructor
  · rintro ⟨v, hv, rfl, hs⟩
    rw [BitVec.toNat_ofNat, Nat.mod_eq_of_lt (by omega)] at hs
    split at hs
    · exact absurd hs (by simp)
    · next hgt =>
      rw [testGt_toDigits (by omega)] at hgt
      rw [hmask v (by omega)] at hs
      exact ⟨v, by omega, rfl, (Option.some.inj hs).symm⟩
  · rintro ⟨p, hp, rfl, rfl⟩
    refine ⟨p, by omega, rfl, ?_⟩
    have hgt : ¬ testGt (Nat.toDigits 10 p) 32 = true := by
      rw [testGt_toDigits (by omega)]
      omega
    rw [if_neg hgt, BitVec.toNat_ofNat, Nat.mod_eq_of_lt (by omega), hmask p (by omega)]

/-- The test of `is_contiguous` on a 32-bit number. -/
theorem contiguous_iff {v : Nat} (hv : v < 2 ^ 32) :
    (((~~~BitVec.ofNat 64 v &&& uint_max) + 1#64) &&& uint_max) &&&
        (~~~BitVec.ofNat 64 v &&& uint_max) = 0#64 ↔ ∃ p, p ≤ 32 ∧ v = mask p := by
  have hmax : ∀ x : BitVec 64, (x &&& uint_max).toNat = x.toNat % 2 ^ 32 := by
    intro x
    rw [BitVec.toNat_and]
    exact Nat.and_two_pow_sub_one_eq_mod x.toNat 32
  have hy : (~~~BitVec.ofNat 64 v &&& uint_max).toNat = 2 ^ 32 - 1 - v := by
    rw [hmax, BitVec.toNat_not, BitVec.toNat_ofNat]
    omega
  rw [← BitVec.toNat_inj, BitVec.toNat_and, hmax, BitVec.toNat_add, hy]
  have hone : (1#64).toNat = 1 := rfl
  rw [hone, BitVec.toNat_ofNat, Nat.zero_mod]
  obtain ⟨y, hvy⟩ : ∃ y, y = 2 ^ 32 - 1 - v := ⟨_, rfl⟩
  rw [← hvy]
  by_cases hfull : v = 0
  · have hz : (y + 1) % 2 ^ 64 % 2 ^ 32 = 0 := by omega
    rw [hz, Nat.zero_and]
    exact ⟨fun _ => ⟨0, by omega, by rw [hfull]; rfl⟩, fun _ => rfl⟩
  · have hz : (y + 1) % 2 ^ 64 % 2 ^ 32 = y + 1 := by omega
    have hpow := Nat.and_sub_one_eq_zero_iff_isPowerOfTwo (Nat.succ_ne_zero y)
    rw [Nat.succ_eq_add_one, Nat.add_sub_cancel] at hpow
    rw [hz, hpow]
    constructor
    · rintro ⟨k, hk⟩
      have hk32 : k < 32 := (Nat.pow_lt_pow_iff_right (by decide)).1
        (show 2 ^ k < 2 ^ 32 by omega)
      refine ⟨32 - k, by omega, ?_⟩
      have hsub : 32 - (32 - k) = k := by omega
      rw [mask, hsub]
      omega
    · rintro ⟨p, hp, hpv⟩
      have hle : 2 ^ (32 - p) ≤ 2 ^ 32 := Nat.pow_le_pow_right (by decide) (by omega)
      have hpos : 0 < 2 ^ (32 - p) := Nat.two_pow_pos _
      rw [mask] at hpv
      exact ⟨32 - p, by omega⟩

theorem is_contiguous_iff :
    is_contiguous sh s = some t ↔ ∃ v, v < 2 ^ 32 ∧ s = Nat.toDigits 10 v ∧
      (((∃ p, p ≤ 32 ∧ v = mask p) ∧ t = ['1']) ∨
        (¬ (∃ p, p ≤ 32 ∧ v = mask p) ∧ t = ['0'])) := by
  unfold is_contiguous
  rw [Option.bind_eq_bind, bind_assert_uint32]
  refine exists_congr fun v => and_congr_right fun hv => and_congr_right fun _ => ?_
  rw [← contiguous_iff hv]
  dsimp only
  split
  · next h => simp [h, eq_comm]
  · next h => simp [h, eq_comm]

theorem mask_lt {p : Nat} : mask p < 2 ^ 32 := by
  have hpos : 0 < 2 ^ (32 - p) := Nat.two_pow_pos _
  unfold mask
  omega

theorem netmask2prefix_iff :
    netmask2prefix sh s = some t ↔
      ∃ p, p ≤ 32 ∧ s = Nat.toDigits 10 (mask p) ∧ t = Nat.toDigits 10 p := by
  have hbits : ∀ p < 33, arithText (bitSums (BitVec.ofNat 64 (mask p))) = Nat.toDigits 10 p := by
    decide
  unfold netmask2prefix bitcount
  rw [Option.bind_eq_bind, bind_assert_uint32]
  constructor
  · rintro ⟨v, hv, rfl, h⟩
    rw [Option.bind_eq_bind, Option.bind_eq_some_iff] at h
    obtain ⟨cont, hcont, h⟩ := h
    obtain ⟨w, hw, hvw, ⟨⟨p, hp, rfl⟩, rfl⟩ | ⟨-, rfl⟩⟩ := is_contiguous_iff.1 hcont
    · rw [if_neg (by decide), bind_assert_uint32] at h
      obtain ⟨u, hu, huv, ht⟩ := h
      obtain rfl := toDigits_inj (huv.symm.trans hvw)
      exact ⟨p, hp, hvw, by rw [← Option.some.inj ht, hbits p (by omega)]⟩
    · exact absurd h (by simp)
  · rintro ⟨p, hp, rfl, rfl⟩
    refine ⟨mask p, mask_lt, rfl, ?_⟩
    rw [Option.bind_eq_bind, Option.bind_eq_some_iff]
    refine ⟨['1'], is_contiguous_iff.2 ⟨_, mask_lt, rfl, Or.inl ⟨⟨p, hp, rfl⟩, rfl⟩⟩, ?_⟩
    rw [if_neg (by decide), bind_assert_uint32]
    exact ⟨mask p, mask_lt, rfl, by rw [hbits p (by omega)]⟩

end Masks

/-- The helpers agree on every text, in every shell: `str2ip` accepts exactly
the dotted quads, `ip2str` exactly the 32-bit numbers and each undoes the other;
`netmask2prefix` undoes `prefix2netmask` and accepts nothing else, as does
`is_contiguous`. -/
theorem ipv4_agree (sh : Shell) (s t : Text) :
    ((∃ t, str2ip sh s = some t) ↔
      ∃ a b c d, a < 256 ∧ b < 256 ∧ c < 256 ∧ d < 256 ∧ s = quad a b c d) ∧
    ((∃ s, ip2str sh t = some s) ↔ ∃ v, v < 2 ^ 32 ∧ t = Nat.toDigits 10 v) ∧
    (str2ip sh s = some t ↔ ip2str sh t = some s) ∧
    ((∃ s, prefix2netmask sh t = some s) ↔ ∃ p, p ≤ 32 ∧ t = Nat.toDigits 10 p) ∧
    ( netmask2prefix sh s = some t ↔ prefix2netmask sh t = some s) ∧
    (is_contiguous sh s = some ['1'] ↔ ∃ t, prefix2netmask sh t = some s) := by
  refine ⟨?_, ?_, str2ip_eq_ip2str, ?_, ?_, ?_⟩
  · simp only [str2ip_iff]
    constructor
    · rintro ⟨t, a, b, c, d, ha, hb, hc, hd, hs, -⟩
      exact ⟨a, b, c, d, ha, hb, hc, hd, hs⟩
    · rintro ⟨a, b, c, d, ha, hb, hc, hd, hs⟩
      exact ⟨_, a, b, c, d, ha, hb, hc, hd, hs, rfl⟩
  · simp only [ip2str_iff]
    constructor
    · rintro ⟨s, v, hv, ht, -⟩
      exact ⟨v, hv, ht⟩
    · rintro ⟨v, hv, ht⟩
      exact ⟨_, v, hv, ht, rfl⟩
  · simp only [prefix2netmask_iff]
    constructor
    · rintro ⟨s, p, hp, ht, -⟩
      exact ⟨p, hp, ht⟩
    · rintro ⟨p, hp, ht⟩
      exact ⟨_, p, hp, ht, rfl⟩
  · rw [netmask2prefix_iff, prefix2netmask_iff]
    exact exists_congr fun p => and_congr_right fun _ => and_comm
  · simp only [prefix2netmask_iff, is_contiguous_iff]
    constructor
    · rintro ⟨v, hv, rfl, ⟨⟨p, hp, rfl⟩, -⟩ | ⟨-, h⟩⟩
      · exact ⟨_, p, hp, rfl, rfl⟩
      · exact absurd h (by decide)
    · rintro ⟨t, p, hp, rfl, rfl⟩
      exact ⟨mask p, mask_lt, rfl, Or.inl ⟨⟨p, hp, rfl⟩, trivial⟩⟩

example (sh : Shell) : str2ip sh "192.168.1.1".toList = some "3232235777".toList :=
  str2ip_iff.2 ⟨192, 168, 1, 1, by decide⟩

end Lede.BaseFiles
