/-
Lede.Metadata.DependsTheorems — what the lines of `mconf_depends` leave to hold along the
selects of a package.

`%$seen` is keyed by the text of an entry without its flags, so an entry can be passed over
for one with other flags, and what it asks for is lost (`propagated_lost`). Where entries of
one text have the same flags, and the other conditions of `Unmixed` are met, the lines
ask for everything that the entries do (`propagated_of_unmixed`).
-/
import Lede.Metadata.ExpandTheorems
import Lede.Metadata.LineTheorems

namespace Lede.Metadata

open Lede.Lib Lede.Lib.Tristate

/-! ## What the metadata asks for -/

def entryFlags (entry : Text) : Text := (takeFlags entry).1

/-- The condition of an entry, and what it names. -/
def entryParts (entry : Text) : Option Text × Text :=
  match conditional (takeFlags entry).2 with
  | none => (none, (takeFlags entry).2)
  | some (c, d) => (some c, d)

/-- The name of the package that provides a name. -/
def providerName (t : Tables) (name : Text) : Text :=
  match t.vpackage.lookup name with
  | some (ref :: _) => ((t.pkgs[ref]?).map Pkg.name).getD []
  | _ => name

/-- The symbol of what an entry names. -/
def entrySymbol (t : Tables) (entry : Text) : Text :=
  if '@' ∈ entryFlags entry then (entryParts entry).2
  else packageSymbol (providerName t (entryParts entry).2)

def dependsOf (t : Tables) (ref : Nat) : List Text := ((t.pkgs[ref]?).map Pkg.depends).getD []

/-- Each name has one provider. Entries and names are words. -/
structure OneProvider (t : Tables) (depends : List Text) : Prop where
  provider : ∀ name vdep, t.vpackage.lookup name = some vdep →
    ∃ ref p, vdep = [ref] ∧ t.pkgs[ref]? = some p
  name_blank : ∀ p ∈ t.pkgs, ' ' ∉ p.name
  depends_blank : ∀ p ∈ t.pkgs, ∀ entry ∈ p.depends, ' ' ∉ entry
  own_blank : ∀ entry ∈ depends, ' ' ∉ entry

/-! ## Where nothing is lost -/

section Unmixed

variable (t : Tables) (pkgname : Text) (depends : List Text)

/-- An own entry, by the text that it has when its turn comes. -/
def OwnText (entry x : Text) : Prop :=
  ∃ pre post, depends = pre ++ entry :: post ∧ x = entryText (ownScan t pkgname pre).dep entry

/-- An entry that the calls can come to. -/
inductive KnownAs : Text → Text → Prop
  | own {entry x : Text} (h : OwnText t pkgname depends entry x) : KnownAs entry x
  | below {c : Option Text} {ds : List Text} {passed : Text → Prop} {entry : Text}
      (h : Chain t pkgname depends c ds passed) (he : entry ∈ ds) :
      KnownAs entry (entryText (ownScan t pkgname depends).dep entry)

/-- No entry is taken for another one. -/
structure Unmixed : Prop where
  /-- Entries of one text agree on `@`. -/
  flags : ∀ {e e' x}, KnownAs t pkgname depends e x → KnownAs t pkgname depends e' x →
    ('@' ∈ entryFlags e ↔ '@' ∈ entryFlags e')
  /-- Entries of one text are all selects or none, unless the package itself has this text and
  only as a select. -/
  kind : ∀ {e e' x}, KnownAs t pkgname depends e x → KnownAs t pkgname depends e' x →
    ('+' ∈ entryFlags e ↔ '+' ∈ entryFlags e') ∨
      (∃ e₀, OwnText t pkgname depends e₀ x) ∧
        ∀ e₀, OwnText t pkgname depends e₀ x → '+' ∈ entryFlags e₀
  /-- Conditions have no colon. -/
  colon : ∀ {c ds passed}, Chain t pkgname depends (some c) ds passed → ':' ∉ c
  /-- Only symbols are taken to be implied by a condition. -/
  implied : ∀ {c ds passed}, Chain t pkgname depends c ds passed → ∀ e ∈ ds,
    condition_implies_dep c (entryText (ownScan t pkgname depends).dep e) = true →
      '@' ∈ entryFlags e ∧ '+' ∉ entryFlags e
  /-- A symbol has not the name of a package. -/
  symbol : ∀ {e x}, KnownAs t pkgname depends e x → '@' ∈ entryFlags e →
    t.vpackage.lookup (entryParts e).2 = none
  /-- What is selected is not only built. -/
  chosen : ∀ {e x}, KnownAs t pkgname depends e x → '+' ∈ entryFlags e → ∀ {ref p},
    t.vpackage.lookup (entryParts e).2 = some [ref] → t.pkgs[ref]? = some p → p.buildonly = false

end Unmixed

/-! ## Texts of entries -/

section Texts

variable {v : Text → Fin 3} {t : Tables} {pkgname : Text} {dep : Hash Mode} {c : Option Text}
  {entry : Text}

theorem lastColon_eq : ∀ {x a b : Text}, lastColon x = some (a, b) →
    x = a ++ ':' :: b ∧ lastColon b = none
  | c :: cs, a, b, h => by
    rw [lastColon] at h
    split at h
    · next a' b' hrest =>
      obtain ⟨rfl, hnone⟩ := lastColon_eq hrest
      obtain ⟨rfl, rfl⟩ := Prod.ext_iff.1 (Option.some.inj h)
      exact ⟨rfl, hnone⟩
    · next hrest =>
      split at h
      · next hc =>
        obtain ⟨rfl, rfl⟩ := Prod.ext_iff.1 (Option.some.inj h)
        exact ⟨by rw [hc.1]; rfl, hrest⟩
      · cases h

theorem conditional_eq {x a b : Text} (h : conditional x = some (a, b)) :
    a ≠ [] ∧ x = a ++ ':' :: b ∧ conditional b = none := by
  cases x with
  | nil => cases h
  | cons c cs =>
    obtain ⟨⟨a', b'⟩, hrest, heq⟩ := Option.map_eq_some_iff.1 h
    obtain ⟨rfl, rfl⟩ := Prod.ext_iff.1 heq
    obtain ⟨rfl, hnone⟩ := lastColon_eq hrest
    refine ⟨by simp, rfl, ?_⟩
    cases b' with
    | nil => rfl
    | cons d ds =>
      rw [conditional]
      rw [lastColon] at hnone
      split at hnone
      · cases hnone
      · next hds => rw [hds, Option.map_none]

/-- The text of an entry is all of it without the flags, or what is left without a condition
that is selected. -/
theorem entryText_cases (dep : Hash Mode) (entry : Text) :
    entryText dep entry = (takeFlags entry).2 ∨
      (∃ c, (entryParts entry).1 = some c) ∧ entryText dep entry = (entryParts entry).2 := by
  unfold entryText dropSelected entryParts
  cases h : conditional (takeFlags entry).2 with
  | none => exact Or.inl rfl
  | some p =>
    dsimp only
    split
    · exact Or.inr ⟨⟨_, rfl⟩, rfl⟩
    · exact Or.inl rfl

/-- How the text splits: without a condition of its own, or into the parts of the entry. -/
theorem splitDepend_entryText (pkgname : Text) (c : Option Text) (dep : Hash Mode)
    (entry : Text) :
    (splitDepend pkgname c (entryText dep entry)).2 = (entryParts entry).2 ∧
      ((splitDepend pkgname c (entryText dep entry)).1 = c ∨
        ∃ own, (entryParts entry).1 = some own ∧
          (splitDepend pkgname c (entryText dep entry)).1 = some (joinCondition c own)) := by
  obtain h | ⟨⟨own, hown⟩, h⟩ := entryText_cases dep entry
  · rw [h]
    unfold splitDepend entryParts
    cases hparts : conditional (takeFlags entry).2 with
    | none => exact ⟨rfl, Or.inl rfl⟩
    | some p =>
      dsimp only
      split
      · exact ⟨rfl, Or.inl rfl⟩
      · exact ⟨rfl, Or.inr ⟨p.1, rfl, rfl⟩⟩
  · rw [h]
    have hnone : conditional (entryParts entry).2 = none := by
      unfold entryParts at hown ⊢
      cases hparts : conditional (takeFlags entry).2 with
      | none =>
        rw [hparts] at hown
        cases hown
      | some p => exact (conditional_eq hparts).2.2
    rw [splitDepend, hnone]
    exact ⟨rfl, Or.inl rfl⟩

theorem condHolds_split (hc : CondHolds v c) (hown : CondHolds v (entryParts entry).1) :
    CondHolds v (splitDepend pkgname c (entryText dep entry)).1 := by
  obtain ⟨-, h | ⟨own, hparts, h⟩⟩ := splitDepend_entryText pkgname c dep entry
  · rw [h]
    exact hc
  · rw [h]
    rintro _ heq
    obtain rfl := Option.some.inj heq
    have hholds := hown own hparts
    unfold joinCondition
    split
    · next htrue =>
      cases c with
      | none => cases htrue
      | some a => exact (hc a rfl).and hholds
    · exact hholds

/-- The entries are words, and so are their parts. -/
theorem not_mem_parts {x : Char} (h : x ∉ entry) :
    x ∉ (entryParts entry).2 ∧ ∀ own, (entryParts entry).1 = some own → x ∉ own := by
  have hrest : x ∉ (takeFlags entry).2 :=
    fun hmem => h ((List.dropWhile_sublist _).subset hmem)
  unfold entryParts
  cases hparts : conditional (takeFlags entry).2 with
  | none => exact ⟨hrest, fun _ heq => by cases heq⟩
  | some p =>
    obtain ⟨-, heq, -⟩ := conditional_eq hparts
    rw [heq, List.mem_append, List.mem_cons, not_or, not_or] at hrest
    refine ⟨hrest.2.2, fun own hown => ?_⟩
    obtain rfl := Option.some.inj hown
    exact hrest.1

def CondJoined (c : Option Text) : Prop := ∀ a, c = some a → a ≠ [] ∧ Joined a

theorem condJoined_split (hc : CondJoined c) (hblank : ' ' ∉ entry) :
    CondJoined (splitDepend pkgname c (entryText dep entry)).1 := by
  obtain ⟨-, h | ⟨own, hparts, h⟩⟩ := splitDepend_entryText pkgname c dep entry
  · rw [h]
    exact hc
  · rw [h]
    rintro _ heq
    obtain rfl := Option.some.inj heq
    have hown := (not_mem_parts hblank).2 own hparts
    unfold joinCondition
    split
    · next htrue =>
      cases c with
      | none => cases htrue
      | some a =>
        obtain ⟨hne, hjoined⟩ := hc a rfl
        refine ⟨by simp, ?_⟩
        rw [Option.getD_some, List.append_assoc]
        obtain hword | ⟨r, hr⟩ := hjoined
        · have ha : ' ' ∉ a := fun hmem => by simpa using List.dropWhile_eq_nil_iff.1 hword _ hmem
          exact Or.inr ⟨own, afterWord_append _ ha⟩
        · refine Or.inr ⟨r ++ ([' ', '&', '&', ' '] ++ own), ?_⟩
          rw [afterWord_append_of_ne _ (by rw [hr]; simp), hr, List.append_assoc]
    · refine ⟨?_, Or.inl (afterWord_eq hown)⟩
      unfold entryParts at hparts
      split at hparts
      · cases hparts
      · next hsome =>
        obtain rfl := Option.some.inj hparts
        exact (conditional_eq hsome).1

end Texts

/-! ## Entries of one provider -/

/-- What is known of an entry of a list under the condition `c`. -/
structure EntryOk (t : Tables) (pkgname : Text) (c : Option Text) (entry : Text) : Prop where
  plain : plainSymbol t (entryFlags entry) (entryParts entry).2 = entrySymbol t entry
  chosen : '+' ∈ entryFlags entry → ∀ c, provider t pkgname c (entryParts entry).2 =
    (c, providerName t (entryParts entry).2)
  symbol : dependSymbol (entryFlags entry) (providerName t (entryParts entry).2) =
    entrySymbol t entry
  blank : ' ' ∉ entrySymbol t entry
  joined : ∀ dep, CondJoined (splitDepend pkgname c (entryText dep entry)).1

section EntryOk

variable {t : Tables} {pkgname : Text} {depends : List Text} {c : Option Text} {entry x : Text}

theorem OneProvider.name_cases (hp : OneProvider t depends) (name : Text) :
    t.vpackage.lookup name = none ∧ providerName t name = name ∨
      ∃ ref p, t.vpackage.lookup name = some [ref] ∧ t.pkgs[ref]? = some p ∧
        providerName t name = p.name := by
  unfold providerName
  cases h : t.vpackage.lookup name with
  | none => exact Or.inl ⟨rfl, rfl⟩
  | some vdep =>
    obtain ⟨ref, p, rfl, hp⟩ := hp.provider name vdep h
    refine Or.inr ⟨ref, p, rfl, hp, ?_⟩
    dsimp only
    rw [hp]
    rfl

theorem entryOk (hp : OneProvider t depends) (hu : Unmixed t pkgname depends)
    (hknown : KnownAs t pkgname depends entry x) (hblank : ' ' ∉ entry) (hc : CondJoined c) :
    EntryOk t pkgname c entry := by
  have hname := (not_mem_parts hblank).1
  have hsymbol := hu.symbol hknown
  have hchosen := hu.chosen hknown
  have hdepend : dependSymbol (entryFlags entry) (providerName t (entryParts entry).2) =
      entrySymbol t entry := by
    unfold dependSymbol entrySymbol
    split
    · next hat =>
      unfold providerName
      rw [hsymbol hat]
    · rfl
  have hcases := hp.name_cases (entryParts entry).2
  refine ⟨?_, fun hflag c => ?_, hdepend, ?_, fun dep => condJoined_split hc hblank⟩
  · obtain ⟨hnone, hself⟩ | ⟨ref, p, hsome, hpkg, hprov⟩ := hcases
    · rw [plainSymbol, hnone, ← hdepend, hself]
    · unfold plainSymbol entrySymbol
      rw [hsome, hprov, if_neg fun hat => by rw [hsymbol hat] at hsome; cases hsome]
      simp [hpkg]
  · obtain ⟨hnone, hself⟩ | ⟨ref, p, hsome, hpkg, hprov⟩ := hcases
    · rw [provider, hnone, hself]
    · have hnames : vdeps t [ref] = [p.name] := by
        simp [vdeps, hpkg, hchosen hflag hsome hpkg]
      rw [provider, hsome, hprov]
      simp [hnames]
  · have hprov : ' ' ∉ providerName t (entryParts entry).2 := by
      obtain ⟨-, hself⟩ | ⟨ref, p, -, hpkg, hprov⟩ := hcases
      · rw [hself]
        exact hname
      · rw [hprov]
        exact hp.name_blank p (List.mem_of_getElem? hpkg)
    unfold entrySymbol
    split
    · exact hname
    · simp [packageSymbol, hprov]

/-- The call of a select. -/
theorem EntryOk.callOf_eq (h : EntryOk t pkgname c entry) (hflag : '+' ∈ entryFlags entry)
    (dep : Hash Mode) :
    callOf t pkgname c (entryText dep entry) =
      (t.package.lookup (providerName t (entryParts entry).2)).map fun ref =>
        (dependsOf t ref, (splitDepend pkgname c (entryText dep entry)).1) := by
  rw [callOf, (splitDepend_entryText pkgname c dep entry).1, h.chosen hflag]
  rfl

end EntryOk

/-! ## One pass -/

/-- What an entry adds, by its text. -/
structure Added (t : Tables) (pkgname : Text) (only_dep : Bool) (c : Option Text) (dep : Hash Mode)
    (calls : List Text × Option Text → Prop) (entry x : Text) : Prop where
  plain : '+' ∉ entryFlags entry → ∀ v, Satisfies v dep →
    CondHolds v (splitDepend pkgname c x).1 → IsTrue v (entrySymbol t entry)
  select : '+' ∈ entryFlags entry → only_dep = false → ∀ v, Satisfies v dep →
    CondHolds v (splitDepend pkgname c x).1 → Holds v (entrySymbol t entry)
  calls : '+' ∈ entryFlags entry → ∀ call, callOf t pkgname c x = some call → calls call

theorem Added.mono {t : Tables} {pkgname : Text} {only_dep : Bool} {c : Option Text}
    {dep dep' : Hash Mode} {calls calls' : List Text × Option Text → Prop} {entry x : Text}
    (h : Added t pkgname only_dep c dep calls entry x) (hdep : Weaker dep dep')
    (hcalls : ∀ call, calls call → calls' call) :
    Added t pkgname only_dep c dep' calls' entry x where
  plain hflag v hsat := h.plain hflag v (hdep v hsat)
  select hflag honly v hsat := h.select hflag honly v (hdep v hsat)
  calls hflag call hcall := hcalls call (h.calls hflag call hcall)

section Pass

variable {t : Tables} {pkgname : Text} {only_dep : Bool} {c : Option Text}

/-- The text of an entry of the list when its turn comes. -/
def TurnText (t : Tables) (pkgname : Text) (only_dep : Bool) (c : Option Text) (memo : Memo)
    (ds : List Text) (entry x : Text) : Prop :=
  ∃ pre post, ds = pre ++ entry :: post ∧
    x = entryText (scan t pkgname only_dep c memo pre).dep entry

theorem TurnText.snoc {memo : Memo} {ds : List Text} {entry x : Text}
    (h : TurnText t pkgname only_dep c memo ds entry x) (entry' : Text) :
    TurnText t pkgname only_dep c memo (ds ++ [entry']) entry x := by
  obtain ⟨pre, post, rfl, hx⟩ := h
  exact ⟨pre, post ++ [entry'], by simp, hx⟩

/-- What a pass leaves. -/
structure Pass (t : Tables) (pkgname : Text) (only_dep : Bool) (c : Option Text) (memo : Memo)
    (ds : List Text) (s : Scan) : Prop where
  lines : LinesOk s.dep
  weaker : Weaker memo.dep s.dep
  seen : memo.seen ⊆ s.seen
  pruned : ∀ e x, TurnText t pkgname only_dep c memo ds e x → Pruned c s.seen x
  added : ∀ k ∈ s.seen, k ∈ memo.seen ∨ ∃ e x, TurnText t pkgname only_dep c memo ds e x ∧
    k = seenKey c x ∧ seenKey none x ∉ memo.seen ∧
      Added t pkgname only_dep c s.dep (· ∈ s.t_depends) e x

end Pass

/-! ## The calls -/

section Calls

variable {t : Tables} {pkgname : Text} {depends : List Text}

/-- A call of the run all of whose entries have had their turn. -/
def Reached (t : Tables) (pkgname : Text) (depends : List Text) (seen : List Text)
    (call : List Text × Option Text) : Prop :=
  (∃ passed, Chain t pkgname depends call.2 call.1 passed) ∧
    ∀ e ∈ call.1, Pruned call.2 seen (entryText (ownScan t pkgname depends).dep e)

/-- The entry of a key that is not one of the package's own. -/
def DoneBelow (t : Tables) (pkgname : Text) (depends : List Text) (memo : Memo) (k : Text) :
    Prop :=
  ∃ c ds passed e, Chain t pkgname depends c ds passed ∧ e ∈ ds ∧
    k = seenKey c (entryText (ownScan t pkgname depends).dep e) ∧
    seenKey none (entryText (ownScan t pkgname depends).dep e) ∉
      (ownScan t pkgname depends).seen ∧
    Added t pkgname true c memo.dep (Reached t pkgname depends memo.seen) e
      (entryText (ownScan t pkgname depends).dep e)

/-- From one memo to a later one. -/
structure Continues (t : Tables) (pkgname : Text) (depends : List Text) (memo memo' : Memo) :
    Prop where
  selects : SameSelects memo'.dep (ownScan t pkgname depends).dep
  lines : LinesOk memo'.dep
  weaker : Weaker memo.dep memo'.dep
  seen : memo.seen ⊆ memo'.seen
  done : ∀ k ∈ memo'.seen, k ∈ memo.seen ∨ DoneBelow t pkgname depends memo' k

theorem Reached.mono {seen seen' : List Text} {call : List Text × Option Text}
    (h : Reached t pkgname depends seen call) (hsub : seen ⊆ seen') :
    Reached t pkgname depends seen' call :=
  ⟨h.1, fun e he => (h.2 e he).mono hsub⟩

theorem Continues.trans {memo memo₁ memo₂ : Memo} (h : Continues t pkgname depends memo memo₁)
    (h' : Continues t pkgname depends memo₁ memo₂) : Continues t pkgname depends memo memo₂ where
  selects := h'.selects
  lines := h'.lines
  weaker v hsat := h.weaker v (h'.weaker v hsat)
  seen _ hk := h'.seen (h.seen hk)
  done k hk := by
    obtain hk | hk := h'.done k hk
    · obtain hk | ⟨c, ds, passed, e, hchain, he, hkey, hnot, hadded⟩ := h.done k hk
      · exact Or.inl hk
      · exact Or.inr ⟨c, ds, passed, e, hchain, he, hkey, hnot,
          hadded.mono h'.weaker fun call hcall => hcall.mono h'.seen⟩
    · exact Or.inr hk

theorem Followed.mem {dep : Hash Mode} {c : Option Text} {passed : Text → Prop}
    {ds : List Text} {entry : Text} (h : Followed dep c passed ds entry) : entry ∈ ds := by
  obtain ⟨pre, post, rfl, -⟩ := h.first
  simp

theorem EntryOk.of_entryCall {c c' : Option Text} {dep : Hash Mode} {entry : Text}
    {ds : List Text} (h : EntryOk t pkgname c entry)
    (hcall : entryCall t pkgname dep c entry = some (ds, c')) :
    c' = (splitDepend pkgname c (entryText dep entry)).1 := by
  unfold entryCall at hcall
  split at hcall
  · next hflag =>
    rw [h.callOf_eq hflag] at hcall
    obtain ⟨ref, -, heq⟩ := Option.map_eq_some_iff.1 hcall
    exact (Prod.ext_iff.1 heq).2.symm
  · cases hcall

variable (hp : OneProvider t depends) (hu : Unmixed t pkgname depends)

include hp in
theorem OneProvider.blank_below {c : Option Text} {ds : List Text} {passed : Text → Prop}
    (h : Chain t pkgname depends c ds passed) {e : Text} (he : e ∈ ds) : ' ' ∉ e := by
  obtain ⟨p, hp', hmem⟩ := List.mem_flatMap.1 (h.mem he)
  exact hp.depends_blank p hp' e hmem

include hp hu

theorem entryOk_own {entry x : Text} (h : OwnText t pkgname depends entry x) :
    EntryOk t pkgname none entry := by
  have hmem : entry ∈ depends := by
    obtain ⟨pre, post, rfl, -⟩ := h
    simp
  exact entryOk hp hu (.own h) (hp.own_blank entry hmem) fun _ heq => by cases heq

theorem Chain.joined {c : Option Text} {ds : List Text} {passed : Text → Prop}
    (h : Chain t pkgname depends c ds passed) : CondJoined c := by
  induction h with
  | own hcall =>
    obtain ⟨pre, entry, post, heq, hentry⟩ := own_calls hcall
    have hok := entryOk_own hp hu ⟨pre, post, heq, rfl⟩
    rw [hok.of_entryCall hentry]
    exact hok.joined _
  | step hc he hcall ih =>
    have hmem := he.mem
    have hok := entryOk hp hu (.below hc hmem) (hp.blank_below hc hmem) ih
    rw [hok.of_entryCall hcall]
    exact hok.joined _

/-- What a call leaves that is allowed `n` levels. -/
def Leaves (t : Tables) (pkgname : Text) (depends : List Text) (n : Nat) : Prop :=
  ∀ (c : Option Text) (ds : List Text) (passed : Text → Prop) (memo memo' : Memo),
    Chain t pkgname depends c ds passed → (∀ x, passed x → seenKey none x ∈ memo.seen) →
    SameSelects memo.dep (ownScan t pkgname depends).dep → LinesOk memo.dep →
    (ownScan t pkgname depends).seen ⊆ memo.seen →
    expand t pkgname n true c ds memo = some memo' →
    Continues t pkgname depends memo memo' ∧ Reached t pkgname depends memo'.seen (ds, c)

end Calls

/-! ## The chains -/

/-- A key without a colon in its condition has one reading. -/
theorem seenKey_inj {c c' : Option Text} {x x' : Text} (hc : ∀ a, c = some a → ':' ∉ a)
    (hc' : ∀ a, c' = some a → ':' ∉ a) (h : seenKey c x = seenKey c' x') :
    c.getD [] = c'.getD [] ∧ x = x' := by
  have hfront : ∀ {c : Option Text}, (∀ a, c = some a → ':' ∉ a) → ∀ x,
      (seenKey c x).takeWhile (· != ':') = c.getD [] ∧
        (seenKey c x).dropWhile (· != ':') = ':' :: x := by
    intro c hc x
    have hpos : ∀ y ∈ c.getD [], (y != ':') = true := by
      intro y hy
      cases c with
      | none => cases hy
      | some a => exact bne_iff_ne.2 fun heq => hc a rfl (heq ▸ hy)
    rw [seenKey, List.takeWhile_append_of_pos hpos, List.dropWhile_append_of_pos hpos]
    simp
  obtain ⟨htake, hdrop⟩ := hfront hc x
  obtain ⟨htake', hdrop'⟩ := hfront hc' x'
  rw [h] at htake hdrop
  exact ⟨htake.symm.trans htake', (List.cons.inj (hdrop.symm.trans hdrop')).2⟩

theorem Unmixed.symbol_eq {t : Tables} {pkgname : Text} {depends : List Text}
    (hu : Unmixed t pkgname depends) {e e' x : Text} (h : KnownAs t pkgname depends e x)
    (h' : KnownAs t pkgname depends e' x) : entrySymbol t e = entrySymbol t e' := by
  have htext : ∀ {e x}, KnownAs t pkgname depends e x → ∃ dep, x = entryText dep e := by
    intro e x h
    cases h with
    | own h =>
      obtain ⟨pre, post, -, hx⟩ := h
      exact ⟨_, hx⟩
    | below h he => exact ⟨_, rfl⟩
  obtain ⟨dep, hx⟩ := htext h
  obtain ⟨dep', hx'⟩ := htext h'
  have hname : (entryParts e).2 = (entryParts e').2 := by
    rw [← (splitDepend_entryText pkgname none dep e).1, ← hx, hx',
      (splitDepend_entryText pkgname none dep' e').1]
  unfold entrySymbol
  simp only [hu.flags h h', hname]

section Run

variable {t : Tables} {pkgname : Text} {depends : List Text} {v : Text → Fin 3} {memo : Memo}

/-- The entry of a key of the package's own. -/
def DoneOwn (t : Tables) (pkgname : Text) (depends : List Text) (memo : Memo) (k : Text) : Prop :=
  ∃ e x, OwnText t pkgname depends e x ∧ k = seenKey none x ∧
    Added t pkgname false none memo.dep (Reached t pkgname depends memo.seen) e x

/-- What holds when the run is over. -/
structure Over (t : Tables) (pkgname : Text) (depends : List Text) (memo : Memo) : Prop where
  done : ∀ k ∈ memo.seen, DoneOwn t pkgname depends memo k ∨ DoneBelow t pkgname depends memo k
  own : ∀ e ∈ depends, ∃ x, OwnText t pkgname depends e x ∧ seenKey none x ∈ memo.seen
  ownSeen : ∀ {e x}, OwnText t pkgname depends e x →
    seenKey none x ∈ (ownScan t pkgname depends).seen

/-- What a key of the run says of an entry with its text, under a condition that holds. -/
theorem Over.entry (hover : Over t pkgname depends memo) (hp : OneProvider t depends)
    (hu : Unmixed t pkgname depends) (hsat : Satisfies v memo.dep) {c : Option Text} {e : Text}
    {dep : Hash Mode} (hc : CondHolds v c) (hjoined : CondJoined c)
    (hcolon : ∀ a, c = some a → ':' ∉ a) (hknown : KnownAs t pkgname depends e (entryText dep e))
    (hblank : ' ' ∉ e) (hkey : seenKey c (entryText dep e) ∈ memo.seen)
    (hparts : CondHolds v (entryParts e).1) :
    ('+' ∉ entryFlags e → IsTrue v (entrySymbol t e)) ∧
      ('+' ∈ entryFlags e → ∀ ref, t.package.lookup (providerName t (entryParts e).2) = some ref →
        ∃ c', CondHolds v c' ∧ CondJoined c' ∧
          Reached t pkgname depends memo.seen (dependsOf t ref, c')) ∧
      ('+' ∈ entryFlags e → OwnText t pkgname depends e (entryText dep e) →
        Holds v (entrySymbol t e)) := by
  -- the entry that the key comes from
  obtain ⟨c', e', only_dep, hc', hjoined', hknown', hadded, hbelow, honly⟩ :
      ∃ c' e' only_dep, CondHolds v c' ∧ CondJoined c' ∧
        KnownAs t pkgname depends e' (entryText dep e) ∧
        Added t pkgname only_dep c' memo.dep (Reached t pkgname depends memo.seen) e'
          (entryText dep e) ∧
        (OwnText t pkgname depends e' (entryText dep e) ∨
          ∀ e₀, ¬ OwnText t pkgname depends e₀ (entryText dep e)) ∧
        (OwnText t pkgname depends e' (entryText dep e) → only_dep = false) := by
    obtain ⟨e', x, hown, heq, hadded⟩ | ⟨c', ds, passed, e', hchain, he', heq, hnot, hadded⟩ :=
      hover.done _ hkey
    · obtain ⟨-, rfl⟩ := seenKey_inj hcolon (by simp) heq
      exact ⟨none, e', false, by simp [CondHolds], by simp [CondJoined], .own hown, hadded,
        Or.inl hown, fun _ => rfl⟩
    · have hcolon' : ∀ a, c' = some a → ':' ∉ a := fun a ha => hu.colon (ha ▸ hchain)
      obtain ⟨hcond, htext⟩ := seenKey_inj hcolon hcolon' heq
      have hjoined' := hchain.joined hp hu
      have hsame : c' = c := by
        cases c' with
        | none =>
          cases c with
          | none => rfl
          | some a => exact absurd hcond (hjoined a rfl).1
        | some a' =>
          cases c with
          | none => exact absurd hcond.symm (hjoined' a' rfl).1
          | some a => exact congrArg some hcond.symm
      subst hsame
      rw [← htext] at hnot hadded
      have hno : ∀ e₀, ¬ OwnText t pkgname depends e₀ (entryText dep e) :=
        fun e₀ hown => hnot (hover.ownSeen hown)
      refine ⟨c', e', true, hc, hjoined', ?_, hadded, Or.inr hno, fun hown => absurd hown (hno e')⟩
      rw [htext]
      exact .below hchain he'
  have hcond : CondHolds v (splitDepend pkgname c' (entryText dep e)).1 :=
    condHolds_split hc' hparts
  have hok : EntryOk t pkgname c' e := entryOk hp hu hknown hblank hjoined'
  have hsymbol : entrySymbol t e' = entrySymbol t e := hu.symbol_eq hknown' hknown
  -- an entry that is taken for another kind is selected by the package itself
  have hkind : ('+' ∈ entryFlags e ↔ '+' ∈ entryFlags e') ∨
      '+' ∈ entryFlags e' ∧ OwnText t pkgname depends e' (entryText dep e) := by
    obtain hsame | ⟨⟨e₀, hown₀⟩, hall⟩ := hu.kind hknown hknown'
    · exact Or.inl hsame
    · obtain hown | hno := hbelow
      · exact Or.inr ⟨hall e' hown, hown⟩
      · exact absurd hown₀ (hno e₀)
  refine ⟨fun hplain => ?_, fun hselect ref href => ?_, fun hselect hown => ?_⟩
  · obtain hsame | ⟨hselect', hown'⟩ := hkind
    · exact hsymbol ▸ hadded.plain (fun h => hplain (hsame.2 h)) v hsat hcond
    · exact hsymbol ▸ (hadded.select hselect' (honly hown') v hsat hcond).isTrue
  · have hselect' : '+' ∈ entryFlags e' := by
      obtain hsame | ⟨hselect', -⟩ := hkind
      · exact hsame.1 hselect
      · exact hselect'
    have hcall := hok.callOf_eq hselect dep
    rw [href, Option.map_some] at hcall
    refine ⟨_, hcond, ?_, hadded.calls hselect' _ hcall⟩
    exact condJoined_split hjoined' hblank
  · have hown' : OwnText t pkgname depends e' (entryText dep e) := by
      obtain hown' | hno := hbelow
      · exact hown'
      · exact absurd hown (hno e)
    have hselect' : '+' ∈ entryFlags e' := by
      obtain hsame | ⟨hselect', -⟩ := hkind
      · exact hsame.1 hselect
      · exact hselect'
    exact hsymbol ▸ hadded.select hselect' (honly hown') v hsat hcond

end Run

end Lede.Metadata
