/-
Lede.BaseFiles.IpcalcTheorems — the range that `ipcalc.sh` prints lies inside
the network, keeps clear of the router and is refused only when it is empty.

What the two clamps and the two nudges do to an end of the range is said once
for each end (`start_bounds`, `last_bounds`, `le_last`); the masks only matter
through `network ≤ offset`.
-/
import Lede.BaseFiles.Ipcalc
import Lede.BaseFiles.Ipv4Theorems

namespace Lede.BaseFiles

/-- The address of the first argument, before the slash if there is one. -/
def router (awk : Awk) (argv : List Text) : Nat :=
  ip2int awk ((arg argv 1).takeWhile (· ≠ '/'))

section Arguments

variable {awk : Awk} {s : Text}

theorem index_eq_zero {c : Char} : index s c = 0 ↔ c ∉ s := by
  simp [index]

theorem take_idxOf (s : Text) (c : Char) : s.take (s.idxOf c) = s.takeWhile (· ≠ c) := by
  induction s with
  | nil => rfl
  | cons d s ih =>
    by_cases hd : d = c
    · simp [hd]
    · have hdc : (d == c) = false := by simpa using hd
      rw [List.idxOf_cons, hdc, cond_false, List.take_succ_cons, ih,
        List.takeWhile_cons_of_pos (by simpa using hd)]

theorem takeWhile_of_not_mem {c : Char} (h : c ∉ s) : s.takeWhile (· ≠ c) = s := by
  rw [← take_idxOf, List.idxOf_eq_length h, List.take_length]

/-- Both forms of the arguments name the same address. -/
theorem subnet_ipaddr (hsub : ∀ t n, awk.substr t 0 n = t.take n.toNat) (argv : List Text) :
    (subnet awk argv).ipaddr = router awk argv := by
  by_cases hs : '/' ∈ arg argv 1
  · simp [subnet, router, index, hs, hsub, take_idxOf]
  · have h0 : index (arg argv 1) '/' = 0 := index_eq_zero.2 hs
    rw [router, takeWhile_of_not_mem hs]
    simp [subnet, h0]

end Arguments

section Octets

theorem int2ip_eq_quad (ip : Nat) :
    int2ip ip = quad (ip / 16777216 % 256) (ip / 65536 % 256) (ip / 256 % 256) (ip % 256) := by
  have h255 : ∀ x, x &&& 255 = x % 256 := fun x => Nat.and_two_pow_sub_one_eq_mod x 8
  have h8 : ∀ x, x >>> 8 = x / 256 := fun x => Nat.shiftRight_eq_div_pow x 8
  simp only [int2ip, octets, h255, h8, Nat.div_div_eq_div_mul, Nat.reduceMul, quad]

theorem quad_inj {a b c d a' b' c' d' : Nat} (h : quad a b c d = quad a' b' c' d') :
    a = a' ∧ b = b' ∧ c = c' ∧ d = d' := by
  obtain ⟨ha, h⟩ := append_dot_inj (not_dot_mem_toDigits _) (not_dot_mem_toDigits _) h
  obtain ⟨hb, h⟩ := append_dot_inj (not_dot_mem_toDigits _) (not_dot_mem_toDigits _) h
  obtain ⟨hc, hd⟩ := append_dot_inj (not_dot_mem_toDigits _) (not_dot_mem_toDigits _) h
  exact ⟨toDigits_inj ha, toDigits_inj hb, toDigits_inj hc, toDigits_inj hd⟩

/-- An address is told by its text. -/
theorem int2ip_inj {a b : Nat} (ha : a < 2 ^ 32) (hb : b < 2 ^ 32) (h : int2ip a = int2ip b) :
    a = b := by
  rw [int2ip_eq_quad, int2ip_eq_quad] at h
  obtain ⟨h1, h2, h3, h4⟩ := quad_inj h
  omega

end Octets

section Ends

variable (awk : Awk) (s : Subnet)

theorem network_le_offset : s.network ≤ s.offset awk := Nat.left_le_or

/-- The start is above the network address and is not the router. -/
theorem start_bounds :
    (s.network : Int) < s.start awk ∧ s.start awk ≠ s.ipaddr := by
  have ho : (s.network : Int) ≤ s.offset awk := by exact_mod_cast network_le_offset awk s
  simp only [Subnet.start]
  split_ifs <;> omega

/-- The end is below the broadcast address, not the router, and at most the
count away from the start. -/
theorem last_bounds :
    s.last awk < s.broadcast ∧ s.last awk ≠ s.ipaddr ∧
      s.last awk ≤ s.start awk + awk.number s.num := by
  simp only [Subnet.last, Subnet.broadcast]
  split_ifs <;> omega

/-- A start that needs no correction is kept. -/
theorem start_of_inside (hn : s.network < s.offset awk) (hi : s.offset awk ≠ s.ipaddr) :
    s.start awk = s.offset awk := by
  have hl : ¬ (s.offset awk : Int) < s.network + 1 := by omega
  have hr : ¬ (s.offset awk : Int) = s.ipaddr := by exact_mod_cast hi
  simp only [Subnet.start, if_neg hl, if_neg hr]

/-- The end is the largest that keeps the bounds. -/
theorem le_last {e : Int} (hb : e < s.broadcast) (hi : e ≠ s.ipaddr)
    (hc : e ≤ s.start awk + awk.number s.num) : e ≤ s.last awk := by
  simp only [Subnet.last]
  rw [Subnet.broadcast] at hb
  split_ifs <;> omega

end Ends

/-- What `ipcalc.sh` promises of the range `start`..`last`. -/
structure InSubnet (awk : Awk) (argv : List Text) (start last : Int) : Prop where
  above : ((subnet awk argv).network : Int) < start
  ordered : start ≤ last
  below : last < (subnet awk argv).broadcast
  start_ne : start ≠ router awk argv
  last_ne : last ≠ router awk argv
  count : last - start ≤ awk.number (subnet awk argv).num

section Range

variable {awk : Awk} {argv : List Text}

/-- A range that is found keeps the bounds. -/
theorem range_printed (hsub : ∀ t n, awk.substr t 0 n = t.take n.toNat) {start last : Int}
    (h : range awk argv = .printed start last) : InSubnet awk argv start last := by
  have hip := subnet_ipaddr hsub argv
  obtain ⟨hs, hsr⟩ := start_bounds awk (subnet awk argv)
  obtain ⟨hl, hlr, hc⟩ := last_bounds awk (subnet awk argv)
  simp only [range] at h
  split_ifs at h with h3 hse
  injection h with h1 h2
  subst h1 h2
  exact ⟨hs, by omega, hl, hip ▸ hsr, hip ▸ hlr, by omega⟩

/-- A start that leaves room for some range is not refused. -/
theorem range_ne_tooSmall (hsub : ∀ t n, awk.substr t 0 n = t.take n.toNat) {last : Int}
    (hin : InSubnet awk argv ((subnet awk argv).offset awk) last) :
    range awk argv ≠ .tooSmall := by
  intro h
  have hip := subnet_ipaddr hsub argv
  have hst := start_of_inside awk (subnet awk argv) (by exact_mod_cast hin.above)
    (by rw [hip]; exact_mod_cast hin.start_ne)
  have hle := le_last awk (subnet awk argv) hin.below (hip ▸ hin.last_ne)
    (by have := hin.count; omega)
  have ho := hin.ordered
  simp only [range] at h
  split_ifs at h with h3 hse
  omega

/-- On an address the lines of a range are not the line of the router. -/
theorem InSubnet.text_ne {start last : Int} (hin : InSubnet awk argv start last)
    (hip : (subnet awk argv).ipaddr = router awk argv) (ha : router awk argv < 2 ^ 32)
    (hm : (subnet awk argv).netmask < 2 ^ 32) :
    int2ip start.toNat ≠ int2ip (router awk argv) ∧
      int2ip last.toNat ≠ int2ip (router awk argv) := by
  have hn : (subnet awk argv).network < 2 ^ 32 :=
    Nat.lt_of_le_of_lt Nat.and_le_left (hip ▸ ha)
  have hb : (subnet awk argv).broadcast < 2 ^ 32 :=
    Nat.or_lt_two_pow hn (Nat.xor_lt_two_pow hm (by decide))
  obtain ⟨h1, h2, h3, h4, h5, -⟩ := hin
  constructor
  · intro h
    have := int2ip_inj (by omega) ha h
    omega
  · intro h
    have := int2ip_inj (by omega) ha h
    omega

/-- The line that starts with `START=` is there exactly when a range was found. -/
theorem start_mem_lines {t : Text} (h : "START=".toList ++ t ∈ (ipcalc awk argv).1) :
    ∃ start last, range awk argv = .printed start last ∧ t = int2ip start.toNat ∧
      "END=".toList ++ int2ip last.toNat ∈ (ipcalc awk argv).1 := by
  simp only [ipcalc] at h ⊢
  cases hr : range awk argv with
  | unasked => simp [hr] at h
  | tooSmall => simp [hr] at h
  | printed start last => exact ⟨start, last, rfl, by simpa [hr] using h, by simp⟩

theorem status_eq_one (h : (ipcalc awk argv).2 = 1) : range awk argv = .tooSmall := by
  simp only [ipcalc] at h
  cases hr : range awk argv with
  | unasked => simp [hr] at h
  | tooSmall => rfl
  | printed start last => simp [hr] at h

end Range

/-- A printed range keeps the bounds, and when some range from the requested
start keeps them the script does not stop with "too small". The text before the
slash is taken whole although `substr` is asked to start at position 0. -/
theorem ipcalc_range (awk : Awk) (hsub : ∀ t n, awk.substr t 0 n = t.take n.toNat)
    (argv : List Text) :
    (∀ t, "START=".toList ++ t ∈ (ipcalc awk argv).1 →
      ∃ start last : Int, t = int2ip start.toNat ∧
        "END=".toList ++ int2ip last.toNat ∈ (ipcalc awk argv).1 ∧
        InSubnet awk argv start last ∧
        (router awk argv < 2 ^ 32 → (subnet awk argv).netmask < 2 ^ 32 →
          t ≠ int2ip (router awk argv) ∧ int2ip last.toNat ≠ int2ip (router awk argv))) ∧
      ((∃ last, InSubnet awk argv ((subnet awk argv).offset awk) last) →
        (ipcalc awk argv).2 ≠ 1) := by
  constructor
  · intro t ht
    obtain ⟨start, last, hr, hts, hend⟩ := start_mem_lines ht
    have hin := range_printed hsub hr
    exact ⟨start, last, hts, hend, hin, fun ha hm =>
      hts ▸ hin.text_ne (subnet_ipaddr hsub argv) ha hm⟩
  · rintro ⟨last, hin⟩ h1
    exact range_ne_tooSmall hsub hin (status_eq_one h1)

/-- The interpreter on a machine with words of 32 bits. -/
def awk32 : Awk where
  number t := Nat.ofDigitChars 10 (t.takeWhile Char.isDigit) 0
  substr t i n := (t.drop (i - 1).toNat).take n.toNat
  long := 32

/-- A router at the front of a `/29` and a count that runs past the end. -/
theorem ipcalc_range_small :
    let argv := ["10.0.0.1/29".toList, "1".toList, "9".toList]
    (ipcalc awk32 argv).1.drop 5 = ["START=10.0.0.2".toList, "END=10.0.0.6".toList] ∧
      ∃ start last, InSubnet awk32 argv start last := by
  intro argv
  have h : (ipcalc awk32 argv).1.drop 5 = ["START=10.0.0.2".toList, "END=10.0.0.6".toList] := by
    decide +kernel
  have hmem : "START=".toList ++ "10.0.0.2".toList ∈ (ipcalc awk32 argv).1 :=
    List.mem_of_mem_drop (h ▸ List.mem_cons_self ..)
  obtain ⟨start, last, -, -, hin, -⟩ :=
    (ipcalc_range awk32 (fun _ _ => rfl) argv).1 "10.0.0.2".toList hmem
  exact ⟨h, start, last, hin⟩

end Lede.BaseFiles
