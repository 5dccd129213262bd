/-
Lede.Nvram.Access — which bytes of the mapping `nvram_open`, `_nvram_rehash` and `do_info`
touch, for a partition of any size and content.

The accesses are listed in order. One that leaves the partition ends the list: what it meets
there is not the partition's to say. The partition of `Store` is large enough for the search;
here it need not be.

The scan stays inside exactly if one of the strings behind the header ends in the partition
and has no '=' (`Stops`); that is also when `parse` is not a fault (`parse_isSome_iff`).
-/
import Lede.Lib.Access
import Lede.Nvram.ImageTheorems

namespace Lede.Nvram

open Lede.Lib

/-! ## The accesses -/

/-- The mapping of a partition, below 2 GiB. -/
structure Mapping where
  bytes : List UInt8
  pos : 0 < bytes.length
  lt : bytes.length < 2 ^ 31

/-- A string without its NUL: the scan runs off the end, in the name or behind its '='. -/
def runawayUse (p : Nat) (l : List UInt8) : List Access :=
  let name := l.takeWhile (· ≠ eqSign)
  if name.length = l.length then [⟨p, l.length + 1⟩]
  else
    let eq := p + name.length
    [⟨p, name.length + 1⟩, ⟨eq, 1⟩, ⟨eq + 1, l.length - name.length⟩]

/-- The loop of `_nvram_rehash`, at `p` with `l` still to come: the search for '=', the NUL
written there, the value, and the '=' written back. -/
def scanUse (p : Nat) (l : List UInt8) : List Access :=
  match _h : CStr.read l with
  | none => runawayUse p l
  | some (s, rest) =>
    if s.bytes = [] then [⟨p, 1⟩]
    else
      match CStr.cut eqSign s.bytes s.nul_free with
      | none => [⟨p, s.length + 1⟩]
      | some (name, value) =>
        let eq := p + name.length
        [⟨p, name.length + 1⟩, ⟨eq, 1⟩, ⟨eq + 1, value.length + 1⟩, ⟨eq, 1⟩] ++
          scanUse (p + s.length + 1) rest
termination_by l.length
decreasing_by exact CStr.read_length ‹_›

namespace Mapping

variable (m : Mapping)

def size : Nat := m.bytes.length

/-- A word of the mapping. -/
def word (o : Nat) : Nat := get32 (fun i => m.bytes.getD i 0) o

/-- The search of `nvram_open`, `fuel` words before its end: its reads, and where the magic is. -/
def searchUse : Nat → Nat → List Access × Option Nat
  | 0, _ => ([], none)
  | fuel + 1, i =>
    if m.size < 4 * i + 4 then ([⟨4 * i, 4⟩], none)
    else if m.word (4 * i) = magic then ([⟨4 * i, 4⟩], some (4 * i))
    else
      let r := searchUse fuel (i + 1)
      (⟨4 * i, 4⟩ :: r.1, r.2)

/-- The bound of the search, an unsigned difference. -/
def searchBound : Nat := (m.size + 2 ^ 32 - minSpace) % 2 ^ 32 / 4

/-- The table after the variables of the partition are set. -/
def loaded (o : Nat) (vars : List (CStr × CStr)) : Table CStr CStr :=
  vars.foldl (fun t v => if m.size - o < v.2.length + 1 then t else t.set bucket v.1 v.2) (fun _ => [])

/-- The words of the header that are read: those of the parameters that are not set. Setting one
does not set another. -/
def sdramUse (o : Nat) (t : Table CStr CStr) : List Access :=
  ([(sdramInit, 8), (sdramConfig, 12), (sdramRefresh, 12), (sdramNcdl, 16)].filter
    (fun v => (t.get bucket v.1).isNone)).map (fun v => ⟨o + v.2, 4⟩)

/-- `_nvram_rehash`, for the header at `o`. -/
def rehashUse (o : Nat) : List Access :=
  let l := m.bytes.drop (o + hdrSize)
  scanUse (o + hdrSize) l ++
    match parse l with
    | none => []
    | some vars => sdramUse o (m.loaded o vars)

/-- Whether the header at `o` is accepted. -/
def accepts (rdonly : Bool) (o : Nat) : Bool := rdonly || m.word (o + 4) < m.size - o

/-- The part of `nvram_open` behind the search. -/
def openAtUse (rdonly : Bool) (o : Nat) : List Access :=
  ⟨o, 4⟩ :: (if rdonly then [] else [⟨o + 4, 4⟩]) ++ if m.accepts rdonly o then m.rehashUse o else []

/-- `nvram_open`. -/
def nvramOpenUse (rdonly : Bool) : List Access :=
  let r := m.searchUse (m.searchBound + 1) 0
  r.1 ++ match r.2 with
    | none => []
    | some o => m.openAtUse rdonly o

/-- `do_info`, for the header at `o`. -/
def doInfoUse (o : Nat) : List Access :=
  [⟨o + 4, 4⟩, ⟨o + 9, (m.word (o + 4) + 2 ^ 32 - 9) % 2 ^ 32⟩, ⟨o, 4⟩, ⟨o + 8, 4⟩, ⟨o + 12, 4⟩,
    ⟨o + 16, 4⟩]

/-- The `info` command of the cli: it opens, and looks at what it has opened. -/
def infoUse (rdonly : Bool) : List Access :=
  m.nvramOpenUse rdonly ++ match (m.searchUse (m.searchBound + 1) 0).2 with
    | none => []
    | some o => if m.accepts rdonly o then m.doInfoUse o else []

end Mapping

/-! ## When they stay inside -/

/-- One of the strings of `l` ends and has no '='. -/
def Stops (l : List UInt8) : Prop :=
  ∃ before s rest, l = before ++ (s ++ 0 :: rest) ∧ (before = [] ∨ before.getLast? = some 0) ∧
    eqSign ∉ s

/-- The first magic is at `o`. -/
structure MagicAt (m : Mapping) (o : Nat) : Prop where
  aligned : o % 4 = 0
  inside : o + 4 ≤ m.size
  space : minSpace ≤ m.size → o + minSpace ≤ m.size
  word : m.word o = magic
  first : ∀ j, 4 * j < o → m.word (4 * j) ≠ magic

/-- There is a magic to stop at, or the partition is not smaller than `NVRAM_MIN_SPACE`; the length
is in the partition where it is looked at; and the strings behind an accepted header stop. -/
structure OpenFits (m : Mapping) (rdonly : Bool) : Prop where
  search : minSpace ≤ m.size ∨ ∃ j, 4 * j + 4 ≤ m.size ∧ m.word (4 * j) = magic
  header : ∀ o, MagicAt m o → rdonly = false → o + 8 ≤ m.size
  scan : ∀ o, MagicAt m o → (rdonly = true ∨ m.word (o + 4) < m.size - o) →
    Stops (m.bytes.drop (o + hdrSize))

/-- The length of an accepted header covers what the CRC skips, and ends in the partition. -/
def InfoFits (m : Mapping) (rdonly : Bool) : Prop :=
  ∀ o, MagicAt m o → (rdonly = true ∨ m.word (o + 4) < m.size - o) →
    9 ≤ m.word (o + 4) ∧ o + m.word (o + 4) ≤ m.size

/-! ## The scan -/

section Scan

variable {l rest : List UInt8} {s : CStr}

theorem CStr.read_eq_none_iff : CStr.read l = none ↔ (0 : UInt8) ∉ l := by
  induction l with
  | nil => simp [CStr.read]
  | cons b l ih =>
    rw [CStr.read]
    split
    · next h => simp [h]
    · next h =>
      rw [Option.map_eq_none_iff, ih, List.mem_cons, not_or]
      exact ⟨fun hl => ⟨Ne.symm h, hl⟩, fun hl => hl.2⟩

theorem CStr.read_eq_some (h : CStr.read l = some (s, rest)) : l = s.bytes ++ 0 :: rest := by
  induction l generalizing s with
  | nil => cases h
  | cons b l ih =>
    rw [CStr.read] at h
    split at h
    · next hb =>
      cases h
      rw [hb]
      rfl
    · obtain ⟨r, hr, heq⟩ := Option.map_eq_some_iff.mp h
      cases heq
      rw [ih hr]
      rfl

theorem CStr.cut_eq_none {c : UInt8} {h : (0 : UInt8) ∉ l} (hcut : CStr.cut c l h = none) : c ∉ l := by
  induction l with
  | nil => exact List.not_mem_nil
  | cons b l ih =>
    rw [CStr.cut] at hcut
    split at hcut
    · cases hcut
    · next hb =>
      rw [Option.map_eq_none_iff] at hcut
      exact fun hmem => (List.mem_cons.mp hmem).elim (fun h => hb h.symm) (ih hcut)

theorem CStr.cut_eq_some {c : UInt8} {h : (0 : UInt8) ∉ l} {v : CStr × CStr}
    (hcut : CStr.cut c l h = some v) : l = v.1.bytes ++ c :: v.2.bytes := by
  induction l generalizing v with
  | nil => cases hcut
  | cons b l ih =>
    rw [CStr.cut] at hcut
    split at hcut
    · next hb =>
      cases hcut
      exact congrArg (· :: l) hb
    · obtain ⟨r, hr, rfl⟩ := Option.map_eq_some_iff.mp hcut
      exact congrArg (b :: ·) (ih hr)

theorem not_stops (h : (0 : UInt8) ∉ l) : ¬ Stops l := by
  rintro ⟨before, s, rest, rfl, -, -⟩
  exact h (by simp)

theorem stops_of_not_mem (hs : eqSign ∉ s.bytes) : Stops (s.bytes ++ 0 :: rest) :=
  ⟨[], s.bytes, rest, rfl, Or.inl rfl, hs⟩

/-- A string with '=' does not stop the scan: what is behind it does. -/
theorem stops_append (hs : eqSign ∈ s.bytes) : Stops (s.bytes ++ 0 :: rest) ↔ Stops rest := by
  constructor
  · rintro ⟨before, t, rest', heq, hbefore, ht⟩
    rcases List.append_eq_append_iff.mp heq with ⟨u, rfl, hu⟩ | ⟨u, hu, htail⟩
    · cases u with
      | nil =>
        -- `before` is the whole string, which has no NUL to end in
        rw [List.append_nil] at hbefore
        rcases hbefore with hnil | hlast
        · rw [hnil] at hs
          exact absurd hs List.not_mem_nil
        · exact absurd (List.mem_of_getLast? hlast) s.nul_free
      | cons b u =>
        obtain ⟨rfl, rfl⟩ := List.cons.inj hu
        refine ⟨u, t, rest', rfl, ?_, ht⟩
        cases u with
        | nil => exact Or.inl rfl
        | cons c u =>
          rw [List.getLast?_append_cons, List.getLast?_cons_cons] at hbefore
          exact Or.inr (hbefore.resolve_left (by simp))
    · -- `before` is in the string: it is empty, and the NUL behind `t` is that of the string
      have hnil : before = [] := hbefore.resolve_right fun hlast =>
        s.nul_free (hu ▸ List.mem_append_left u (List.mem_of_getLast? hlast))
      rw [hnil, List.nil_append] at hu
      subst hu
      rcases List.append_eq_append_iff.mp htail with ⟨v, hv, hrest⟩ | ⟨v, hv, -⟩
      · cases v with
        | nil =>
          rw [List.append_nil] at hv
          rw [hv] at hs
          exact absurd hs ht
        | cons b v =>
          obtain ⟨rfl, -⟩ := List.cons.inj hrest
          exact absurd (hv ▸ List.mem_append_right t List.mem_cons_self) s.nul_free
      · rw [hv] at ht
        exact absurd (List.mem_append_left v hs) ht
  · rintro ⟨before, t, rest', rfl, hbefore, ht⟩
    refine ⟨s.bytes ++ 0 :: before, t, rest', by simp, Or.inr ?_, ht⟩
    rcases hbefore with rfl | hlast
    · simp
    · simp [List.getLast?_append, List.getLast?_cons, hlast]

/-- A string without NUL: the scan leaves the partition. -/
theorem not_within_runawayUse (p : Nat) (l : List UInt8) :
    ¬ Within (p + l.length) (runawayUse p l) := by
  have hle := (List.takeWhile_prefix (p := (· ≠ eqSign)) (l := l)).length_le
  unfold runawayUse
  dsimp only
  split
  · simp
  · simp
    omega

/-- The scan stays inside exactly if it has a string to stop at. -/
theorem within_scanUse {p n : Nat} (h : p + l.length = n) : Within n (scanUse p l) ↔ Stops l := by
  induction hn : l.length using Nat.strong_induction_on generalizing p l with
  | _ k ih =>
    rw [scanUse]
    split
    · next hread =>
      subst h
      exact iff_of_false (not_within_runawayUse p l) (not_stops (CStr.read_eq_none_iff.mp hread))
    · next s rest hread =>
      have hl := CStr.read_eq_some hread
      have hlen : l.length = s.length + (rest.length + 1) := by
        rw [hl, List.length_append, List.length_cons, CStr.length]
      rw [hl]
      split
      · next hempty =>
        refine iff_of_true ?_ (stops_of_not_mem (by rw [hempty]; exact List.not_mem_nil))
        simp
        omega
      · split
        · next hcut =>
          refine iff_of_true ?_ (stops_of_not_mem (CStr.cut_eq_none hcut))
          simp
          omega
        · next name value hcut =>
          have hs := CStr.cut_eq_some hcut
          have hslen : s.length = name.length + (value.length + 1) := by
            rw [CStr.length, hs, List.length_append, List.length_cons, CStr.length, CStr.length]
          have hrest := @ih rest.length (by omega) rest (p + s.length + 1) (by omega) rfl
          rw [stops_append (by rw [hs]; simp), ← hrest, within_append]
          refine and_iff_right ?_
          simp
          omega

/-- `parse` is a fault exactly if there is no string to stop at. -/
theorem parse_isSome_iff : (parse l).isSome ↔ Stops l := by
  induction hn : l.length using Nat.strong_induction_on generalizing l with
  | _ k ih =>
    rw [parse]
    split
    · next hread =>
      exact iff_of_false (by simp) (not_stops (CStr.read_eq_none_iff.mp hread))
    · next s rest hread =>
      have hlt := CStr.read_length hread
      rw [CStr.read_eq_some hread]
      split
      · next hempty =>
        exact iff_of_true rfl (stops_of_not_mem (by rw [hempty]; exact List.not_mem_nil))
      · split
        · next hcut => exact iff_of_true rfl (stops_of_not_mem (CStr.cut_eq_none hcut))
        · next v hcut =>
          rw [Option.isSome_map, ih rest.length (by omega) rfl,
            stops_append (by rw [CStr.cut_eq_some hcut]; simp)]

/-- A handle is filled again unless the scan runs off the end of the partition. -/
theorem rehash_isSome_iff (h : Handle) : h.rehash.isSome ↔ Stops h.area := by
  rw [Handle.rehash, Option.isSome_map, parse_isSome_iff]

end Scan

/-! ## Opening -/

section Opening

variable {m : Mapping} {rdonly : Bool} {o : Nat}

/-- The search stays inside if its end does or if there is a magic before that. -/
theorem within_searchUse {fuel i : Nat} : Within m.size (m.searchUse fuel i).1 ↔
    (0 < fuel → 4 * (i + fuel) ≤ m.size) ∨
      ∃ j, i ≤ j ∧ j < i + fuel ∧ 4 * j + 4 ≤ m.size ∧ m.word (4 * j) = magic := by
  induction fuel generalizing i with
  | zero => simp [Mapping.searchUse]
  | succ fuel ih =>
    rw [Mapping.searchUse]
    by_cases hout : m.size < 4 * i + 4
    · rw [if_pos hout]
      simp
      omega
    · rw [if_neg hout]
      by_cases hword : m.word (4 * i) = magic
      · rw [if_pos hword]
        refine iff_of_true (by simp; omega) (Or.inr ⟨i, le_rfl, by omega, by omega, hword⟩)
      · rw [if_neg hword]
        dsimp only
        rw [within_cons, ih, and_iff_right (by dsimp only; omega)]
        refine or_congr (by omega) (exists_congr fun j => ?_)
        constructor
        · rintro ⟨hij, hj, hin, hw⟩
          exact ⟨by omega, by omega, hin, hw⟩
        · rintro ⟨hij, hj, hin, hw⟩
          have hne : i ≠ j := fun heq => hword (heq ▸ hw)
          exact ⟨by omega, by omega, hin, hw⟩

theorem searchUse_eq_some {fuel i : Nat} : (m.searchUse fuel i).2 = some o ↔
    ∃ j, o = 4 * j ∧ i ≤ j ∧ j < i + fuel ∧ 4 * j + 4 ≤ m.size ∧ m.word (4 * j) = magic ∧
      ∀ x, i ≤ x → x < j → m.word (4 * x) ≠ magic := by
  induction fuel generalizing i with
  | zero =>
    simp [Mapping.searchUse]
    omega
  | succ fuel ih =>
    rw [Mapping.searchUse]
    by_cases hout : m.size < 4 * i + 4
    · rw [if_pos hout]
      refine iff_of_false (by simp) ?_
      rintro ⟨j, -, hij, -, hin, -⟩
      omega
    · rw [if_neg hout]
      by_cases hword : m.word (4 * i) = magic
      · rw [if_pos hword, Option.some.injEq]
        constructor
        · rintro rfl
          exact ⟨i, rfl, le_rfl, by omega, by omega, hword, fun x hx hlt => absurd hlt (by omega)⟩
        · rintro ⟨j, rfl, hij, -, -, -, hfirst⟩
          by_contra hne
          exact hfirst i le_rfl (by omega) hword
      · rw [if_neg hword]
        dsimp only
        rw [ih]
        refine exists_congr fun j => and_congr_right fun _ => ?_
        constructor
        · rintro ⟨hij, hj, hin, hw, hfirst⟩
          refine ⟨by omega, by omega, hin, hw, fun x hx hlt => ?_⟩
          rcases Nat.eq_or_lt_of_le hx with rfl | hgt
          · exact hword
          · exact hfirst x hgt hlt
        · rintro ⟨hij, hj, hin, hw, hfirst⟩
          have hne : i ≠ j := fun heq => hword (heq ▸ hw)
          exact ⟨by omega, by omega, hin, hw, fun x hx hlt => hfirst x (by omega) hlt⟩

/-- The bound for a partition that is not too small, and what it wraps to for one that is. -/
theorem searchBound_eq (m : Mapping) : (minSpace ≤ m.size ∧ m.searchBound = (m.size - minSpace) / 4) ∨
    (m.size < minSpace ∧ m.size < 4 * m.searchBound) := by
  have hlt := m.lt
  unfold Mapping.searchBound Mapping.size minSpace
  omega

theorem within_search : Within m.size (m.searchUse (m.searchBound + 1) 0).1 ↔
    minSpace ≤ m.size ∨ ∃ j, 4 * j + 4 ≤ m.size ∧ m.word (4 * j) = magic := by
  rw [within_searchUse]
  have hmin : minSpace = 0x8000 := rfl
  rcases searchBound_eq m with ⟨hle, hbound⟩ | ⟨hlt, hbound⟩
  · exact iff_of_true (Or.inl fun _ => by omega) (Or.inl hle)
  · refine or_congr (by omega) (exists_congr fun j => ?_)
    constructor
    · exact fun h => h.2.2
    · exact fun h => ⟨Nat.zero_le j, by omega, h⟩

theorem search_eq_some : (m.searchUse (m.searchBound + 1) 0).2 = some o ↔ MagicAt m o := by
  rw [searchUse_eq_some]
  have hmin : minSpace = 0x8000 := rfl
  have hbound := searchBound_eq m
  constructor
  · rintro ⟨j, rfl, -, hj, hin, hw, hfirst⟩
    exact ⟨by omega, hin, by omega, hw, fun x hx => hfirst x (Nat.zero_le x) (by omega)⟩
  · intro h
    have haligned := h.aligned
    have hin := h.inside
    have hspace := h.space
    obtain ⟨j, rfl⟩ : ∃ j, o = 4 * j := ⟨o / 4, by omega⟩
    exact ⟨j, rfl, Nat.zero_le j, by omega, hin, h.word, fun x _ hlt => h.first x (by omega)⟩

theorem accepts_iff : m.accepts rdonly o = true ↔
    (rdonly = true ∨ m.word (o + 4) < m.size - o) := by
  simp [Mapping.accepts]

theorem within_rehashUse : Within m.size (m.rehashUse o) ↔ Stops (m.bytes.drop (o + hdrSize)) := by
  have hsize : m.bytes.length = m.size := rfl
  unfold Mapping.rehashUse
  dsimp only
  rw [within_append]
  by_cases hin : o + hdrSize < m.size
  · rw [within_scanUse (by rw [List.length_drop]; omega)]
    refine and_iff_left ?_
    split
    · exact within_nil
    · intro a ha
      obtain ⟨v, hv, rfl⟩ := List.mem_map.mp ha
      have hv' := List.mem_of_mem_filter hv
      unfold hdrSize at hin
      simp at hv'
      rcases hv' with rfl | rfl | rfl | rfl <;> dsimp only <;> omega
  · have hnil : m.bytes.drop (o + hdrSize) = [] := List.drop_eq_nil_of_le (by omega)
    rw [hnil]
    refine iff_of_false (fun h => ?_) (not_stops List.not_mem_nil)
    have hscan := h.1
    rw [scanUse] at hscan
    simp [CStr.read, runawayUse] at hscan
    omega

theorem within_openAtUse (h : MagicAt m o) : Within m.size (m.openAtUse rdonly o) ↔
    (rdonly = false → o + 8 ≤ m.size) ∧
      ((rdonly = true ∨ m.word (o + 4) < m.size - o) → Stops (m.bytes.drop (o + hdrSize))) := by
  have hin := h.inside
  unfold Mapping.openAtUse
  rw [List.cons_append, within_cons, and_iff_right hin, within_append]
  refine and_congr ?_ ?_
  · cases rdonly <;> simp
  · rw [← accepts_iff]
    cases m.accepts rdonly o with
    | false => simp
    | true => simp [within_rehashUse]

theorem within_nvramOpenUse : Within m.size (m.nvramOpenUse rdonly) ↔ OpenFits m rdonly := by
  unfold Mapping.nvramOpenUse
  dsimp only
  rw [within_append, within_search]
  cases hfound : (m.searchUse (m.searchBound + 1) 0).2 with
  | none =>
    have hnone : ∀ o, ¬ MagicAt m o := fun o h => by
      rw [← search_eq_some, hfound] at h
      cases h
    dsimp only
    rw [and_iff_left within_nil]
    exact ⟨fun h => ⟨h, fun o ho => absurd ho (hnone o), fun o ho => absurd ho (hnone o)⟩,
      fun h => h.search⟩
  | some o =>
    have hat := search_eq_some.mp hfound
    have honly : ∀ o', MagicAt m o' → o' = o := fun o' h => by
      rw [← search_eq_some, hfound] at h
      exact (Option.some.inj h).symm
    dsimp only
    rw [within_openAtUse hat]
    constructor
    · rintro ⟨hsearch, hheader, hscan⟩
      refine ⟨hsearch, fun o' h => ?_, fun o' h => ?_⟩
      · rw [honly o' h]
        exact hheader
      · rw [honly o' h]
        exact hscan
    · exact fun h => ⟨h.search, h.header o hat, h.scan o hat⟩

end Opening

/-! ## The info command -/

section Info

variable {m : Mapping} {rdonly : Bool} {o : Nat}

theorem within_doInfoUse (h : o + hdrSize ≤ m.size) : Within m.size (m.doInfoUse o) ↔
    9 ≤ m.word (o + 4) ∧ o + m.word (o + 4) ≤ m.size := by
  have hlen : m.word (o + 4) < 2 ^ 32 := get32_lt _ _
  have hlt : m.size < 2 ^ 31 := m.lt
  unfold hdrSize at h
  simp only [Mapping.doInfoUse, within_cons, within_nil, and_true]
  omega

theorem OpenFits.hdr_le (h : OpenFits m rdonly) (hat : MagicAt m o)
    (hacc : rdonly = true ∨ m.word (o + 4) < m.size - o) : o + hdrSize ≤ m.size := by
  have hstops := h.scan o hat hacc
  by_contra hout
  have hsize : m.bytes.length = m.size := rfl
  rw [List.drop_eq_nil_of_le (by omega)] at hstops
  exact not_stops List.not_mem_nil hstops

theorem within_infoUse :
    Within m.size (m.infoUse rdonly) ↔ OpenFits m rdonly ∧ InfoFits m rdonly := by
  unfold Mapping.infoUse
  rw [within_append, within_nvramOpenUse]
  refine and_congr_right fun hopen => ?_
  cases hfound : (m.searchUse (m.searchBound + 1) 0).2 with
  | none =>
    refine iff_of_true within_nil fun o h => ?_
    rw [← search_eq_some, hfound] at h
    cases h
  | some o =>
    have hat := search_eq_some.mp hfound
    have honly : ∀ o', MagicAt m o' → o' = o := fun o' h => by
      rw [← search_eq_some, hfound] at h
      exact (Option.some.inj h).symm
    dsimp only
    by_cases hacc : rdonly = true ∨ m.word (o + 4) < m.size - o
    · rw [if_pos (accepts_iff.mpr hacc), within_doInfoUse (hopen.hdr_le hat hacc)]
      refine ⟨fun h o' hat' _ => ?_, fun h => h o hat hacc⟩
      rw [honly o' hat']
      exact h
    · rw [if_neg (fun h => hacc (accepts_iff.mp h))]
      refine iff_of_true within_nil fun o' hat' hacc' => ?_
      rw [honly o' hat'] at hacc'
      exact absurd hacc' hacc

end Info

/-- For a partition of any size and content: when opening it, filling the table from any offset, and
the info command touch only bytes of the mapping. -/
theorem within_mapping_iff (m : Mapping) (rdonly : Bool) :
    (Within m.size (m.nvramOpenUse rdonly) ↔ OpenFits m rdonly) ∧
    (∀ o, Within m.size (m.rehashUse o) ↔ Stops (m.bytes.drop (o + hdrSize))) ∧
    (Within m.size (m.infoUse rdonly) ↔ OpenFits m rdonly ∧ InfoFits m rdonly) :=
  ⟨within_nvramOpenUse, fun _ => within_rehashUse, within_infoUse⟩

/-- The smallest partition, erased behind its magic. -/
def erasedBytes : List UInt8 := le32 magic ++ List.replicate 0x7ffc 0xff

theorem length_erasedBytes : erasedBytes.length = 0x8000 := by
  rw [erasedBytes, List.length_append, List.length_replicate]
  rfl

def erasedMapping : Mapping := ⟨erasedBytes, by rw [length_erasedBytes]; decide,
  by rw [length_erasedBytes]; decide⟩

theorem magicAt_erasedMapping : MagicAt erasedMapping 0 where
  aligned := rfl
  inside := by
    rw [Mapping.size, erasedMapping, length_erasedBytes]
    decide
  space := fun h => by omega
  word := @get32_le32 [] (List.replicate 0x7ffc 0xff) magic (by decide)
  first := fun j hj => absurd hj (Nat.not_lt_zero _)

/-- It is opened read only, and the scan runs off its end. -/
theorem not_within_erasedMapping :
    ¬ Within erasedMapping.size (erasedMapping.nvramOpenUse true) := by
  rw [within_nvramOpenUse]
  intro h
  have hstops := h.scan 0 magicAt_erasedMapping (Or.inl rfl)
  have hnil : (le32 magic).drop (0 + hdrSize) = [] := rfl
  have hbytes : erasedMapping.bytes = le32 magic ++ List.replicate 0x7ffc 0xff := rfl
  rw [hbytes, List.drop_append, hnil, List.nil_append] at hstops
  refine not_stops (fun hmem => ?_) hstops
  exact absurd (List.eq_of_mem_replicate (List.mem_of_mem_drop hmem)) (by decide)

end Lede.Nvram
