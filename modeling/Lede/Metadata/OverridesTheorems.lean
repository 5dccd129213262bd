/-
Lede.Metadata.OverridesTheorems — when the order of the packages does not matter
for the kernel symbols.

The value of one symbol is a fold over the requests for it: `y` stays, another
value of an enabled package replaces what was there, and a plain request of a
disabled package only sets what is not true (`symStep`). What a whole section
does to a symbol is its last value or one default (`sectionStep`).
-/
import Lede.Metadata.Overrides

namespace Lede.Metadata

open Lede.Lib

/-- A `Package:` line and the lines up to the next. -/
structure Section where
  header : Text
  body : List Text
  package : Text
  names : linePackage header = some package
  plain : ∀ l ∈ body, linePackage l = none

namespace Section

def lines (s : Section) : List Text := s.header :: s.body

def requests (s : Section) (patchver : Text) : List Request :=
  s.lines.flatMap (lineRequests patchver)

end Section

def metadataOf (ss : List Section) : List Text := ss.flatMap Section.lines

/-! ## One symbol -/

/-- What a request does to the value of its symbol. -/
def symStep (on : Bool) (r : Request) (v : Option Text) : Option Text :=
  if on ∧ r.config ≠ ['n'] then if v = some ['y'] then v else some r.val
  else if ¬ r.override ∧ ¬ truthy v then some ['n']
  else v

theorem lookup_addRequest (on : Bool) (k : Hash Text) (r : Request) (x : Text) :
    (addRequest on k r).lookup x =
      if x = r.config then symStep on r (k.lookup r.config) else k.lookup x := by
  unfold addRequest symStep
  by_cases h : on = true ∧ r.config ≠ ['n']
  · rw [if_pos h, if_pos h, ← ite_not, lookup_insert_if, ite_not]
  · rw [if_neg h, if_neg h, lookup_insert_if]

/-- The requests for a symbol. -/
def forSymbol (x : Text) (rs : List Request) : List Request := rs.filter (·.config = x)

theorem lookup_foldl_addRequest (on : Bool) (x : Text) : ∀ (rs : List Request) (k : Hash Text),
    (rs.foldl (addRequest on) k).lookup x =
      (forSymbol x rs).foldl (fun v r => symStep on r v) (k.lookup x)
  | [], _ => rfl
  | r :: rs, k => by
      rw [List.foldl_cons, lookup_foldl_addRequest on x rs, lookup_addRequest]
      by_cases h : r.config = x
      · subst h
        simp [forSymbol]
      · simp [forSymbol, h, Ne.symm h]

/-- What a section makes of the value of a symbol. -/
def sectionStep (cfg : List Text) (patchver x : Text) (v : Option Text) (s : Section) :
    Option Text :=
  (forSymbol x (s.requests patchver)).foldl (fun v r => symStep (enabled cfg s.package) r v) v

/-- The value of a symbol after all sections. -/
def finalValue (cfg : List Text) (patchver : Text) (ss : List Section) (x : Text) : Option Text :=
  ss.foldl (sectionStep cfg patchver x) none

section Values

variable {cfg : List Text} {patchver x : Text}

theorem foldl_body (package : Text) : ∀ (ls : List Text) (k : Hash Text),
    (∀ l ∈ ls, linePackage l = none) →
      ls.foldl (overrideLine cfg patchver) (some package, k) =
        (some package,
          (ls.flatMap (lineRequests patchver)).foldl (addRequest (enabled cfg package)) k)
  | [], _, _ => rfl
  | l :: ls, k, h => by
      have hl : overrideLine cfg patchver (some package, k) l = (some package,
          (lineRequests patchver l).foldl (addRequest (enabled cfg package)) k) := by
        rw [overrideLine, h l (List.mem_cons_self ..)]
        rfl
      rw [List.foldl_cons, hl, foldl_body package ls _ fun m hm => h m (List.mem_cons_of_mem l hm),
        List.flatMap_cons, List.foldl_append]

theorem foldl_lines (s : Section) (p : Option Text) (k : Hash Text) :
    s.lines.foldl (overrideLine cfg patchver) (p, k) = (some s.package,
      (s.requests patchver).foldl (addRequest (enabled cfg s.package)) k) := by
  have hheader : overrideLine cfg patchver (p, k) s.header = (some s.package,
      (lineRequests patchver s.header).foldl (addRequest (enabled cfg s.package)) k) := by
    rw [overrideLine, s.names]
    rfl
  rw [Section.lines, List.foldl_cons, hheader, foldl_body _ _ _ s.plain, Section.requests,
    Section.lines, List.flatMap_cons, List.foldl_append]

theorem lookup_foldl_metadata : ∀ (ss : List Section) (p : Option Text) (k : Hash Text),
    ((metadataOf ss).foldl (overrideLine cfg patchver) (p, k)).2.lookup x =
      ss.foldl (sectionStep cfg patchver x) (k.lookup x)
  | [], _, _ => rfl
  | s :: ss, p, k => by
      rw [metadataOf, List.flatMap_cons, List.foldl_append, foldl_lines]
      refine (lookup_foldl_metadata ss _ _).trans ?_
      rw [lookup_foldl_addRequest]
      rfl

/-- What is printed. -/
theorem mem_overrides {ss : List Section} {l : Line} :
    l ∈ gen_kconfig_overrides cfg patchver (metadataOf ss) ↔
      ∃ x v, finalValue cfg patchver ss x = some v ∧ l = kconfigLine x v := by
  have hlookup : ∀ x, ((metadataOf ss).foldl (overrideLine cfg patchver) (none, ∅)).2.lookup x =
      finalValue cfg patchver ss x := fun x => by
    rw [lookup_foldl_metadata, AList.lookup_empty]
    rfl
  unfold gen_kconfig_overrides
  simp only [List.mem_map, (List.mergeSort_perm _ _).mem_iff]
  constructor
  · rintro ⟨⟨x, v⟩, hmem, rfl⟩
    exact ⟨x, v, (hlookup x).symm.trans (AList.mem_lookup_iff.2 hmem), rfl⟩
  · rintro ⟨x, v, hv, rfl⟩
    exact ⟨⟨x, v⟩, AList.mem_lookup_iff.1 ((hlookup x).trans hv), rfl⟩

theorem notSet_mem {ss : List Section} :
    .notSet x ∈ gen_kconfig_overrides cfg patchver (metadataOf ss) ↔
      finalValue cfg patchver ss x = some ['n'] := by
  rw [mem_overrides]
  constructor
  · rintro ⟨y, v, hv, hl⟩
    unfold kconfigLine at hl
    split at hl
    · next hn =>
      cases hl
      rw [hv, hn]
    · cases hl
  · exact fun h => ⟨x, ['n'], h, rfl⟩

theorem set_mem {ss : List Section} {v : Text} :
    .set x v ∈ gen_kconfig_overrides cfg patchver (metadataOf ss) ↔
      finalValue cfg patchver ss x = some v ∧ v ≠ ['n'] := by
  rw [mem_overrides]
  constructor
  · rintro ⟨y, w, hw, hl⟩
    unfold kconfigLine at hl
    split at hl
    · cases hl
    · next hn =>
      cases hl
      exact ⟨hw, hn⟩
  · exact fun h => ⟨x, v, h.1, by rw [kconfigLine, if_neg h.2]⟩

/-- Printing the same lines is giving each symbol the same value. -/
theorem same_lines {ss ss' : List Section} :
    (∀ l, l ∈ gen_kconfig_overrides cfg patchver (metadataOf ss') ↔
        l ∈ gen_kconfig_overrides cfg patchver (metadataOf ss)) ↔
      ∀ x, finalValue cfg patchver ss' x = finalValue cfg patchver ss x := by
  constructor
  · intro h x
    -- a value of one shows in its line
    have shows : ∀ {ss ss' : List Section},
        (∀ l, l ∈ gen_kconfig_overrides cfg patchver (metadataOf ss) →
          l ∈ gen_kconfig_overrides cfg patchver (metadataOf ss')) →
        ∀ v, finalValue cfg patchver ss x = some v → finalValue cfg patchver ss' x = some v := by
      intro ss ss' hsub v hv
      by_cases hn : v = ['n']
      · subst hn
        exact notSet_mem.1 (hsub _ (notSet_mem.2 hv))
      · exact (set_mem.1 (hsub _ (set_mem.2 ⟨hv, hn⟩))).1
    cases hv : finalValue cfg patchver ss x with
    | some v => exact shows (fun l => (h l).2) v hv
    | none =>
      cases hv' : finalValue cfg patchver ss' x with
      | none => rfl
      | some v => exact hv ▸ (shows (fun l => (h l).1) v hv').symm
  · intro h l
    simp only [mem_overrides, h]

end Values

/-! ## One section -/

/-- The values that a section asks for, in order. -/
def vals (patchver x : Text) (s : Section) : List Text :=
  (forSymbol x (s.requests patchver)).map Request.val

/-- The section has a request without a value. -/
def Plain (patchver x : Text) (s : Section) : Prop :=
  ∃ r ∈ s.requests patchver, r.config = x ∧ r.override = false

/-- The requests of the section count as those of an enabled package. -/
def Active (cfg : List Text) (x : Text) (s : Section) : Prop :=
  enabled cfg s.package = true ∧ x ≠ ['n']

section Sections

variable {cfg : List Text} {patchver x : Text} {s : Section} {v : Option Text}

theorem foldl_active (on : Bool) (hon : on = true) (hx : x ≠ ['n']) :
    ∀ (rs : List Request) (v : Option Text), (∀ r ∈ rs, r.config = x) →
      rs.foldl (fun v r => symStep on r v) v =
        if v = some ['y'] ∨ ['y'] ∈ rs.map Request.val then some ['y']
        else ((rs.map Request.val).getLast?).or v
  | [], v, _ => by by_cases hv : v = some ['y'] <;> simp [hv]
  | r :: rs, v, h => by
      have hr : r.config ≠ ['n'] := h r (List.mem_cons_self ..) ▸ hx
      have hstep : symStep on r v = if v = some ['y'] then v else some r.val :=
        if_pos ⟨hon, hr⟩
      rw [List.foldl_cons, foldl_active on hon hx rs _ fun q hq => h q (List.mem_cons_of_mem r hq),
        hstep]
      by_cases hv : v = some ['y']
      · simp [hv]
      · by_cases hy : r.val = ['y']
        · simp [hv, hy]
        · by_cases hrest : ['y'] ∈ rs.map Request.val
          · simp [hv, hrest]
          · have hfirst : ¬ (some r.val = some ['y'] ∨ ['y'] ∈ rs.map Request.val) := by
              rintro (h | h)
              · exact hy (Option.some.inj h)
              · exact hrest h
            have hall : ¬ (v = some ['y'] ∨ ['y'] ∈ (r :: rs).map Request.val) := by
              rintro (h | h)
              · exact hv h
              · obtain h | h := List.mem_cons.1 h
                · exact hy h.symm
                · exact hrest h
            rw [if_neg hv, if_neg hfirst, if_neg hall, List.map_cons, List.getLast?_cons]
            cases (rs.map Request.val).getLast? <;> rfl

theorem foldl_inactive (on : Bool) (hoff : ¬ (on = true ∧ x ≠ ['n'])) :
    ∀ (rs : List Request) (v : Option Text), (∀ r ∈ rs, r.config = x) →
      rs.foldl (fun v r => symStep on r v) v =
        if (∃ r ∈ rs, r.override = false) ∧ ¬ truthy v = true then some ['n'] else v
  | [], v, _ => by simp
  | r :: rs, v, h => by
      have hr : ¬ (on = true ∧ r.config ≠ ['n']) := h r (List.mem_cons_self ..) ▸ hoff
      rw [List.foldl_cons, foldl_inactive on hoff rs _ fun q hq => h q (List.mem_cons_of_mem r hq),
        symStep, if_neg hr]
      have hn : truthy (some ['n']) = true := by decide
      by_cases ht : truthy v = true
      · simp [ht]
      · cases ho : r.override <;> simp [ht, ho, hn]

theorem mem_forSymbol {rs : List Request} {r : Request} :
    r ∈ forSymbol x rs ↔ r ∈ rs ∧ r.config = x := by
  simp [forSymbol]

theorem sectionStep_active (h : Active cfg x s) :
    sectionStep cfg patchver x v s =
      if v = some ['y'] ∨ ['y'] ∈ vals patchver x s then some ['y']
      else ((vals patchver x s).getLast?).or v :=
  foldl_active _ h.1 h.2 _ v fun _ hr => (mem_forSymbol.1 hr).2

theorem sectionStep_inactive (h : ¬ Active cfg x s) :
    (Plain patchver x s ∧ ¬ truthy v = true → sectionStep cfg patchver x v s = some ['n']) ∧
      (¬ (Plain patchver x s ∧ ¬ truthy v = true) → sectionStep cfg patchver x v s = v) := by
  have hplain : (∃ r ∈ forSymbol x (s.requests patchver), r.override = false) ↔
      Plain patchver x s := by
    simp only [mem_forSymbol, Plain, and_assoc]
  have hstep := foldl_inactive (enabled cfg s.package) h (forSymbol x (s.requests patchver)) v
    fun _ hr => (mem_forSymbol.1 hr).2
  exact ⟨fun hp => hstep.trans (if_pos ⟨hplain.2 hp.1, hp.2⟩),
    fun hp => hstep.trans (if_neg fun hc => hp ⟨hplain.1 hc.1, hc.2⟩)⟩

/-- `y` stays. -/
theorem sectionStep_y : sectionStep cfg patchver x (some ['y']) s = some ['y'] := by
  by_cases h : Active cfg x s
  · rw [sectionStep_active h, if_pos (Or.inl rfl)]
  · exact (sectionStep_inactive h).2 fun hp => hp.2 (by decide)

theorem request_val_ne_nil (item : Text) : (request item).val ≠ [] := by
  unfold request
  split
  · simp
  · split <;> simp

theorem ne_nil_of_mem_vals {w : Text} (h : w ∈ vals patchver x s) : w ≠ [] := by
  obtain ⟨r, hr, rfl⟩ := List.mem_map.1 h
  obtain ⟨l, -, hl⟩ := List.mem_flatMap.1 (mem_forSymbol.1 hr).1
  unfold lineRequests at hl
  split at hl
  · cases hl
  · obtain ⟨item, -, rfl⟩ := List.mem_map.1 hl
    exact request_val_ne_nil item

end Sections
/-! ## All sections -/

section Runs

variable {cfg : List Text} {patchver x : Text} {ss : List Section}

theorem foldl_y : ∀ (ss : List Section),
    ss.foldl (sectionStep cfg patchver x) (some ['y']) = some ['y']
  | [] => rfl
  | s :: ss => by rw [List.foldl_cons, sectionStep_y, foldl_y ss]

/-- An enabled package that asks for `y` gets it. -/
theorem finalValue_y {s : Section} (hs : s ∈ ss) (ha : Active cfg x s)
    (hy : ['y'] ∈ vals patchver x s) : finalValue cfg patchver ss x = some ['y'] := by
  obtain ⟨l₁, l₂, rfl⟩ := List.append_of_mem hs
  rw [finalValue, List.foldl_append, List.foldl_cons, sectionStep_active ha, if_pos (Or.inr hy),
    foldl_y]

/-- Without such a package no value is `y`. -/
theorem foldl_ne_y : ∀ (ss : List Section) (v : Option Text), v ≠ some ['y'] →
    (∀ s ∈ ss, Active cfg x s → ['y'] ∉ vals patchver x s) →
      ss.foldl (sectionStep cfg patchver x) v ≠ some ['y']
  | [], _, hv, _ => hv
  | s :: ss, v, hv, h => by
      refine foldl_ne_y ss _ ?_ fun t ht => h t (List.mem_cons_of_mem s ht)
      have hs := h s (List.mem_cons_self ..)
      by_cases ha : Active cfg x s
      · rw [sectionStep_active ha, if_neg (not_or.2 ⟨hv, hs ha⟩)]
        intro hor
        cases hl : (vals patchver x s).getLast? with
        | none => exact hv (by simpa [hl] using hor)
        | some w =>
          rw [hl] at hor
          obtain rfl := Option.some.inj hor
          exact hs ha (List.mem_of_getLast? hl)
      · by_cases hp : Plain patchver x s ∧ ¬ truthy v = true
        · rw [(sectionStep_inactive ha).1 hp]
          decide
        · rwa [(sectionStep_inactive ha).2 hp]

/-- Sections that no enabled package asks in. -/
theorem foldl_default : ∀ (ss : List Section),
    (∀ s ∈ ss, Active cfg x s → vals patchver x s = []) →
      (∀ s ∈ ss, ¬ Active cfg x s → ¬ Plain patchver x s) ∧
          ss.foldl (sectionStep cfg patchver x) none = none ∨
        (∃ s ∈ ss, ¬ Active cfg x s ∧ Plain patchver x s) ∧
          ss.foldl (sectionStep cfg patchver x) none = some ['n'] := by
  intro ss
  -- once the default is there it stays
  have stays : ∀ ss : List Section, (∀ s ∈ ss, Active cfg x s → vals patchver x s = []) →
      ss.foldl (sectionStep cfg patchver x) (some ['n']) = some ['n'] := by
    intro ss
    induction ss with
    | nil => exact fun _ => rfl
    | cons s ss ih =>
      intro h
      have hstep : sectionStep cfg patchver x (some ['n']) s = some ['n'] := by
        by_cases ha : Active cfg x s
        · rw [sectionStep_active ha, h s (List.mem_cons_self ..) ha]
          rfl
        · exact (sectionStep_inactive ha).2 fun hp => hp.2 (by decide)
      rw [List.foldl_cons, hstep]
      exact ih fun t ht => h t (List.mem_cons_of_mem s ht)
  induction ss with
  | nil => exact fun _ => Or.inl ⟨fun s hs => absurd hs List.not_mem_nil, rfl⟩
  | cons s ss ih =>
    intro h
    have hrest := fun t ht => h t (List.mem_cons_of_mem s ht)
    by_cases hp : ¬ Active cfg x s ∧ Plain patchver x s
    · refine Or.inr ⟨⟨s, List.mem_cons_self .., hp⟩, ?_⟩
      rw [List.foldl_cons, (sectionStep_inactive hp.1).1 ⟨hp.2, by decide⟩]
      exact stays ss hrest
    · have hstep : sectionStep cfg patchver x none s = none := by
        by_cases ha : Active cfg x s
        · rw [sectionStep_active ha, h s (List.mem_cons_self ..) ha]
          rfl
        · exact (sectionStep_inactive ha).2 fun hc => hp ⟨ha, hc.1⟩
      rw [List.foldl_cons, hstep]
      obtain ⟨hno, hnone⟩ | ⟨⟨t, ht, hex⟩, hn⟩ := ih hrest
      · refine Or.inl ⟨fun t ht => ?_, hnone⟩
        obtain rfl | ht := List.mem_cons.1 ht
        · exact fun ha hpl => hp ⟨ha, hpl⟩
        · exact hno t ht
      · exact Or.inr ⟨⟨t, List.mem_cons_of_mem s ht, hex⟩, hn⟩

/-- Where the last value of every enabled package is `w`, and no default can
replace it, it stays. -/
theorem foldl_stays {w : Text} (hw : w ≠ []) : ∀ (ss : List Section),
    (∀ s ∈ ss, Active cfg x s → ['y'] ∉ vals patchver x s ∧
      ∀ u, (vals patchver x s).getLast? = some u → u = w) →
    (w = ['0'] → ∀ s ∈ ss, ¬ Active cfg x s → ¬ Plain patchver x s) →
      ss.foldl (sectionStep cfg patchver x) (some w) = some w
  | [], _, _ => rfl
  | s :: ss, h, hzero => by
      have hs := h s (List.mem_cons_self ..)
      have hstep : sectionStep cfg patchver x (some w) s = some w := by
        by_cases ha : Active cfg x s
        · by_cases hwy : w = ['y']
          · rw [hwy, sectionStep_y]
          · rw [sectionStep_active ha, if_neg (not_or.2 ⟨by simpa using hwy, (hs ha).1⟩)]
            cases hl : (vals patchver x s).getLast? with
            | none => rfl
            | some u => rw [(hs ha).2 u hl]; rfl
        · refine (sectionStep_inactive ha).2 fun hp => ?_
          by_cases h0 : w = ['0']
          · exact hzero h0 s (List.mem_cons_self ..) ha hp.1
          · exact hp.2 ((truthy_some w).2 ⟨hw, h0⟩)
      rw [List.foldl_cons, hstep]
      exact foldl_stays hw ss (fun t ht => h t (List.mem_cons_of_mem s ht))
        fun h0 t ht => hzero h0 t (List.mem_cons_of_mem s ht)

/-- The order of the sections cannot matter for a symbol, and it is not unset
against an enabled package. Where an enabled package asks for `y` the first part
asks nothing. -/
structure Settled (cfg : List Text) (patchver : Text) (ss : List Section) (x : Text) : Prop where
  agree : (∀ s ∈ ss, Active cfg x s → ['y'] ∉ vals patchver x s) →
    (∀ s ∈ ss, ∀ t ∈ ss, Active cfg x s → Active cfg x t → ∀ v w,
      (vals patchver x s).getLast? = some v → (vals patchver x t).getLast? = some w → v = w) ∧
    (∀ s ∈ ss, Active cfg x s → (vals patchver x s).getLast? = some ['0'] →
      ∀ t ∈ ss, ¬ Active cfg x t → ¬ Plain patchver x t) ∧
    (∀ s ∈ ss, Active cfg x s → (vals patchver x s).getLast? = some ['n'] →
      ∀ t ∈ ss, Active cfg x t → ['m'] ∉ vals patchver x t)
  n : x = ['n'] → ∀ s ∈ ss, enabled cfg s.package = true →
    (['y'] ∈ vals patchver x s ∨ ['m'] ∈ vals patchver x s) → ∀ t ∈ ss, ¬ Plain patchver x t

/-- The value of a symbol that is asked for, where the sections agree. -/
theorem Settled.finalValue_eq (h : Settled cfg patchver ss x)
    (hy : ∀ s ∈ ss, Active cfg x s → ['y'] ∉ vals patchver x s) {s : Section} (hs : s ∈ ss)
    (ha : Active cfg x s) {w : Text} (hw : (vals patchver x s).getLast? = some w) :
    finalValue cfg patchver ss x = some w := by
  obtain ⟨hagree, hzero, -⟩ := h.agree hy
  have hne : w ≠ [] := ne_nil_of_mem_vals (List.mem_of_getLast? hw)
  have hlast : ∀ t ∈ ss, Active cfg x t → ['y'] ∉ vals patchver x t ∧
      ∀ u, (vals patchver x t).getLast? = some u → u = w :=
    fun t ht hat => ⟨hy t ht hat, fun u hu => hagree t ht s hs hat ha u w hu hw⟩
  have hfree : w = ['0'] → ∀ t ∈ ss, ¬ Active cfg x t → ¬ Plain patchver x t :=
    fun h0 => hzero s hs ha (h0 ▸ hw)
  obtain ⟨l₁, l₂, rfl⟩ := List.append_of_mem hs
  have hbefore := foldl_ne_y l₁ none (by simp) fun t ht => hy t (List.mem_append_left _ ht)
  have hmem : ∀ t ∈ l₂, t ∈ l₁ ++ s :: l₂ := fun t ht =>
    List.mem_append_right _ (List.mem_cons_of_mem s ht)
  rw [finalValue, List.foldl_append, List.foldl_cons, sectionStep_active ha,
    if_neg (not_or.2 ⟨hbefore, hy s hs ha⟩), hw, Option.some_or]
  exact foldl_stays hne l₂ (fun t ht => hlast t (hmem t ht))
    fun h0 t ht => hfree h0 t (hmem t ht)

/-- A settled symbol has one value in all orders. -/
theorem Settled.perm {ss' : List Section} (h : Settled cfg patchver ss x) (hp : ss'.Perm ss) :
    finalValue cfg patchver ss' x = finalValue cfg patchver ss x := by
  have hmem : ∀ {s}, s ∈ ss' ↔ s ∈ ss := fun {s} => hp.mem_iff
  have h' : Settled cfg patchver ss' x := by
    refine ⟨fun hy => ?_, fun hx s hs => ?_⟩
    · simp only [hmem] at hy ⊢
      exact h.agree hy
    · simp only [hmem] at hs ⊢
      exact h.n hx s hs
  by_cases hy : ∃ s ∈ ss, Active cfg x s ∧ ['y'] ∈ vals patchver x s
  · obtain ⟨s, hs, ha, hys⟩ := hy
    rw [finalValue_y hs ha hys, finalValue_y (hmem.2 hs) ha hys]
  · have hno : ∀ s ∈ ss, Active cfg x s → ['y'] ∉ vals patchver x s :=
      fun s hs ha hys => hy ⟨s, hs, ha, hys⟩
    by_cases hask : ∃ s ∈ ss, Active cfg x s ∧ vals patchver x s ≠ []
    · obtain ⟨s, hs, ha, hne⟩ := hask
      have hw := List.getLast?_eq_some_getLast hne
      rw [h.finalValue_eq hno hs ha hw,
        h'.finalValue_eq (fun t ht => hno t (hmem.1 ht)) (hmem.2 hs) ha hw]
    · have hnil : ∀ s ∈ ss, Active cfg x s → vals patchver x s = [] :=
        fun s hs ha => by_contra fun hne => hask ⟨s, hs, ha, hne⟩
      unfold finalValue
      obtain ⟨hp, hv⟩ | ⟨⟨t, ht, hpt⟩, hv⟩ := foldl_default ss hnil <;>
        obtain ⟨hp', hv'⟩ | ⟨⟨t', ht', hpt'⟩, hv'⟩ :=
          foldl_default ss' fun s hs => hnil s (hmem.1 hs)
      · rw [hv, hv']
      · exact absurd hpt'.2 (hp t' (hmem.1 ht') hpt'.1)
      · exact absurd hpt.2 (hp' t (hmem.2 ht) hpt.1)
      · rw [hv, hv']

/-- A section can be moved to the end. -/
theorem exists_perm_last {s : Section} (hs : s ∈ ss) : ∃ l, (l ++ [s]).Perm ss := by
  obtain ⟨l₁, l₂, rfl⟩ := List.append_of_mem hs
  refine ⟨l₁ ++ l₂, ?_⟩
  rw [List.append_assoc]
  exact (List.perm_append_comm.append_left l₁ : (l₁ ++ (l₂ ++ [s])).Perm (l₁ ++ ([s] ++ l₂)))

theorem finalValue_last (l : List Section) (s : Section) :
    finalValue cfg patchver (l ++ [s]) x =
      sectionStep cfg patchver x (finalValue cfg patchver l x) s := by
  simp [finalValue]

/-- Where all orders give a symbol one value, it is the last of any section. -/
theorem finalValue_of_perm (hperm : ∀ ss', ss'.Perm ss →
      finalValue cfg patchver ss' x = finalValue cfg patchver ss x)
    (hy : ∀ s ∈ ss, Active cfg x s → ['y'] ∉ vals patchver x s) {s : Section} (hs : s ∈ ss)
    (ha : Active cfg x s) {w : Text} (hw : (vals patchver x s).getLast? = some w) :
    finalValue cfg patchver ss x = some w := by
  obtain ⟨l, hl⟩ := exists_perm_last hs
  have hbefore : finalValue cfg patchver l x ≠ some ['y'] :=
    foldl_ne_y l none (by simp) fun t ht => hy t (hl.mem_iff.1 (List.mem_append_left _ ht))
  rw [← hperm _ hl, finalValue_last, sectionStep_active ha,
    if_neg (not_or.2 ⟨hbefore, hy s hs ha⟩), hw, Option.some_or]

end Runs

/-- The printed lines do not depend on the order of the sections, and no symbol
that an enabled package asks for as `y` or `m` is unset, exactly when every
symbol is settled. -/
theorem overrides_iff (cfg : List Text) (patchver : Text) (ss : List Section) :
    ((∀ ss', ss'.Perm ss → ∀ l, l ∈ gen_kconfig_overrides cfg patchver (metadataOf ss') ↔
          l ∈ gen_kconfig_overrides cfg patchver (metadataOf ss)) ∧
        ∀ s ∈ ss, enabled cfg s.package = true → ∀ r ∈ s.requests patchver,
          r.val = ['y'] ∨ r.val = ['m'] →
            .notSet r.config ∉ gen_kconfig_overrides cfg patchver (metadataOf ss)) ↔
      ∀ x, Settled cfg patchver ss x := by
  have hvals : ∀ {x v : Text} {s : Section}, v ∈ vals patchver x s ↔
      ∃ r ∈ s.requests patchver, r.config = x ∧ r.val = v := by
    intro x v s
    simp only [vals, List.mem_map, mem_forSymbol, and_assoc]
  have hinactive : ∀ {s : Section}, ¬ Active cfg ['n'] s := fun h => h.2 rfl
  constructor
  · rintro ⟨horder, hset⟩ x
    have hperm : ∀ ss', ss'.Perm ss →
        finalValue cfg patchver ss' x = finalValue cfg patchver ss x :=
      fun ss' hp => same_lines.1 (horder ss' hp) x
    have hnot : ∀ {v : Text}, v = ['y'] ∨ v = ['m'] → ∀ s ∈ ss, enabled cfg s.package = true →
        v ∈ vals patchver x s → finalValue cfg patchver ss x ≠ some ['n'] := by
      intro v hv s hs hon hmem hn
      obtain ⟨r, hr, rfl, rfl⟩ := hvals.1 hmem
      exact hset s hs hon r hr hv (notSet_mem.2 hn)
    refine ⟨fun hy => ⟨?_, ?_, ?_⟩, ?_⟩
    · intro s hs t ht ha hat v w hv hw
      have := (finalValue_of_perm hperm hy hs ha hv).symm.trans
        (finalValue_of_perm hperm hy ht hat hw)
      exact Option.some.inj this
    · intro s hs ha hv t ht hat hp
      -- with the disabled section last the value is true
      have hzero := finalValue_of_perm hperm hy hs ha hv
      obtain ⟨l, hl⟩ := exists_perm_last ht
      have hlast := hperm _ hl
      rw [finalValue_last, hzero] at hlast
      by_cases htr : truthy (finalValue cfg patchver l x) = true
      · rw [(sectionStep_inactive hat).2 fun hc => hc.2 htr] at hlast
        rw [hlast] at htr
        exact absurd htr (by decide)
      · rw [(sectionStep_inactive hat).1 ⟨hp, htr⟩] at hlast
        exact absurd hlast (by decide)
    · intro s hs ha hv t ht hat hm
      exact hnot (Or.inr rfl) t ht hat.1 hm (finalValue_of_perm hperm hy hs ha hv)
    · rintro rfl s hs hon hask t ht hp
      have hn : finalValue cfg patchver ss ['n'] = some ['n'] := by
        obtain ⟨hno, -⟩ | ⟨-, hv⟩ := foldl_default ss fun s _ ha => absurd ha hinactive
        · exact absurd hp (hno t ht hinactive)
        · exact hv
      obtain hm | hm := hask
      · exact hnot (Or.inl rfl) s hs hon hm hn
      · exact hnot (Or.inr rfl) s hs hon hm hn
  · intro h
    refine ⟨fun ss' hp => same_lines.2 fun x => (h x).perm hp, ?_⟩
    intro s hs hon r hr hval hmem
    have hn := notSet_mem.1 hmem
    have hin : r.val ∈ vals patchver r.config s := hvals.2 ⟨r, hr, rfl, rfl⟩
    by_cases hx : r.config = ['n']
    · rw [hx] at hn hin
      have hask : ['y'] ∈ vals patchver ['n'] s ∨ ['m'] ∈ vals patchver ['n'] s := by
        obtain hv | hv := hval <;> rw [hv] at hin
        · exact Or.inl hin
        · exact Or.inr hin
      have hnil : ∀ s ∈ ss, Active cfg ['n'] s → vals patchver ['n'] s = [] :=
        fun s _ ha => absurd ha hinactive
      obtain ⟨-, hv⟩ | ⟨⟨t, ht, -, hp⟩, -⟩ := foldl_default ss hnil
      · exact absurd (hv.symm.trans hn) (by decide)
      · exact (h ['n']).n rfl s hs hon hask t ht hp
    · have ha : Active cfg r.config s := ⟨hon, hx⟩
      by_cases hy : ∃ t ∈ ss, Active cfg r.config t ∧ ['y'] ∈ vals patchver r.config t
      · obtain ⟨t, ht, hat, hyt⟩ := hy
        rw [finalValue_y ht hat hyt] at hn
        exact absurd hn (by decide)
      · have hno : ∀ t ∈ ss, Active cfg r.config t → ['y'] ∉ vals patchver r.config t :=
          fun t ht hat hyt => hy ⟨t, ht, hat, hyt⟩
        have hm : ['m'] ∈ vals patchver r.config s := by
          obtain hv | hv := hval <;> rw [hv] at hin
          · exact absurd hin (hno s hs ha)
          · exact hin
        have hw := List.getLast?_eq_some_getLast (List.ne_nil_of_mem hm)
        have hv := (h r.config).finalValue_eq hno hs ha hw
        rw [hn] at hv
        rw [← hv] at hw
        exact ((h r.config).agree hno).2.2 s hs ha hw s hs ha hm

/-- Two enabled packages, one with a symbol as a module and one without it. -/
def askModule : Section where
  header := "Package: a".toList
  body := ["Kernel-Config: X".toList]
  package := ['a']
  names := by decide +kernel
  plain := by decide +kernel

def askNot : Section where
  header := "Package: b".toList
  body := ["Kernel-Config: X=n".toList]
  package := ['b']
  names := by decide +kernel
  plain := by decide +kernel

def bothEnabled : List Text := ["CONFIG_PACKAGE_a=y".toList, "CONFIG_PACKAGE_b=y".toList]

/-- The second package unsets what the first asks for, if it comes second. -/
theorem overrides_askNot :
    ¬ (∀ ss', ss'.Perm [askModule, askNot] → ∀ l,
        l ∈ gen_kconfig_overrides bothEnabled [] (metadataOf ss') ↔
          l ∈ gen_kconfig_overrides bothEnabled [] (metadataOf [askModule, askNot])) ∧
      ¬ ∀ s ∈ [askModule, askNot], enabled bothEnabled s.package = true →
        ∀ r ∈ s.requests [], r.val = ['y'] ∨ r.val = ['m'] → .notSet r.config ∉
          gen_kconfig_overrides bothEnabled [] (metadataOf [askModule, askNot]) := by
  constructor
  · intro h
    have hsame := same_lines.1 (h [askNot, askModule] (List.Perm.swap ..)) ['X']
    revert hsame
    decide +kernel
  · intro h
    refine h askModule (List.mem_cons_self ..) (by decide +kernel) ⟨['X'], ['m'], false⟩ ?_
      (Or.inr rfl) (notSet_mem.2 (by decide +kernel))
    have hreq : (askModule.requests []) = [⟨['X'], ['m'], false⟩] := by rfl
    rw [hreq]
    exact List.mem_singleton.2 rfl

end Lede.Metadata
