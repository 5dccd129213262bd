/-
Lede.Metadata.ClearTheorems — when a second file is parsed as if it were the first.

`clear_packages` leaves `%userids` and `%groupids` alone. The parser touches the
accounts only through the calls of `Require-User:` lines, so a run is a list of
events (`events`), and the run after clearing follows the run from nothing call
by call (`Follows`) until a call names an id that was left to another name.
-/
import Lede.Metadata.Package
import Lede.Lib.Decimal

namespace Lede.Metadata

open Lede.Lib

/-! ## One call -/

/-- The id of a spec is one that the parser takes. -/
def ValidId (id : Option Text) : Prop :=
  ∀ digits, id = some digits → isPositive digits = true ∧ idValue id < 65536

/-- The name that an id is taken by. -/
def idName (ids : Kind → Hash Taken) (k : Kind) (digits : Text) : Option Text :=
  ((ids k).lookup digits).map Taken.name

/-- The name in a spec and its id. -/
def Call.parsed (c : Call) : Option (Text × Option Text) := parseSpec c.spec

/-- The call finds neither its id taken by another name nor its name with
another id. -/
structure Accepts (acc : Accounts) (c : Call) (name : Text) (id : Option Text) : Prop where
  parsed : c.parsed = some (name, id)
  valid : ValidId id
  ids : ∀ digits taken, id = some digits → idName acc.ids c.kind digits = some taken → taken = name
  names : ∀ named, (acc.names c.kind).lookup name = some named → named.id = idValue id

section Calls

variable {makefile : Option Text} {ids : Hash Taken} {names : Hash Named} {name : Text}
  {id : Option Text} {acc : Accounts} {c : Call}

/-- What the part about ids can do. -/
theorem takeId_cases (makefile : Option Text) (ids : Hash Taken) (name : Text)
    (id : Option Text) :
    (id = none ∧ takeId makefile ids name id = (true, ids)) ∨
    (¬ ValidId id ∧ takeId makefile ids name id = (false, ids)) ∨
    (∃ digits, id = some digits ∧ ValidId id ∧ ids.lookup digits = none ∧
      takeId makefile ids name id = (true, ids.insert digits ⟨name, makefile⟩)) ∨
    (∃ digits taken, id = some digits ∧ ValidId id ∧ ids.lookup digits = some taken ∧
      takeId makefile ids name id = (decide (taken.name = name), ids)) := by
  cases id with
  | none => exact Or.inl ⟨rfl, rfl⟩
  | some digits =>
    right
    by_cases hpos : isPositive digits = true
    · by_cases hbig : 65536 ≤ idValue (some digits)
      · refine Or.inl ⟨fun h => ?_, by rw [takeId, if_pos hpos, if_pos hbig]⟩
        have := (h digits rfl).2
        omega
      · have hvalid : ValidId (some digits) := by
          rintro d hd
          cases hd
          exact ⟨hpos, by omega⟩
        right
        cases hl : ids.lookup digits with
        | none =>
          exact Or.inl ⟨digits, rfl, hvalid, hl,
            by simp only [takeId, if_pos hpos, if_neg hbig, hl]⟩
        | some taken =>
          exact Or.inr ⟨digits, taken, rfl, hvalid, hl,
            by simp only [takeId, if_pos hpos, if_neg hbig, hl]⟩
    · exact Or.inl ⟨fun h => hpos (h digits rfl).1, by rw [takeId, if_neg hpos]⟩

theorem takeName_iff :
    (takeName makefile names name id).1 = true ↔
      ∀ named, names.lookup name = some named → named.id = idValue id := by
  unfold takeName
  cases names.lookup name <;> simp

/-- A name that was given an id keeps it. -/
theorem lookup_takeName (n : Text) :
    (takeName makefile names name id).2.lookup n =
      if n = name ∧ names.lookup name = none then some ⟨idValue id, makefile⟩
      else names.lookup n := by
  cases hl : names.lookup name with
  | none => by_cases hn : n = name <;> simp [takeName, hl, lookup_insert, hn]
  | some named => simp [takeName, hl]

theorem takeName_of_not (h : ¬ (takeName makefile names name id).1 = true) :
    (takeName makefile names name id).2 = names := by
  unfold takeName at h ⊢
  cases hl : names.lookup name <;> simp_all

theorem usergroup_of_spec {spec : Text} (hspec : parseSpec spec = some (name, id)) :
    parse_package_metadata_usergroup makefile spec names ids =
      if (takeId makefile ids name id).1 = true then
        ((takeName makefile names name id).1, (takeName makefile names name id).2,
          (takeId makefile ids name id).2)
      else (false, names, (takeId makefile ids name id).2) := by
  unfold parse_package_metadata_usergroup
  rw [hspec]
  rcases ht : takeId makefile ids name id with ⟨_ | _, ids'⟩ <;> simp [ht]

/-- What an accepted call leaves. -/
structure Left (acc acc' : Accounts) (c : Call) (name : Text) (id : Option Text) : Prop where
  names : acc'.names =
    Function.update acc.names c.kind (takeName c.makefile (acc.names c.kind) name id).2
  ids : ∀ k digits, idName acc'.ids k digits =
    if k = c.kind ∧ id = some digits then some name else idName acc.ids k digits

theorem check_of_accepts (h : Accepts acc c name id) :
    ∃ acc', c.check acc = (true, acc') ∧ Left acc acc' c name id := by
  have hname : (takeName c.makefile (acc.names c.kind) name id).1 = true :=
    takeName_iff.2 h.names
  -- the ids are those from before, or have a new entry
  have done : ∀ ids, takeId c.makefile (acc.ids c.kind) name id = (true, ids) →
      (∀ digits, (ids.lookup digits).map Taken.name =
        if id = some digits then some name else ((acc.ids c.kind).lookup digits).map Taken.name) →
      ∃ acc', c.check acc = (true, acc') ∧ Left acc acc' c name id := by
    intro ids htake hids
    refine ⟨⟨Function.update acc.names c.kind (takeName c.makefile (acc.names c.kind) name id).2,
      Function.update acc.ids c.kind ids⟩, ?_, rfl, fun k digits => ?_⟩
    · rw [Call.check, usergroup_of_spec h.parsed, htake, if_pos rfl, hname]
    · by_cases hk : k = c.kind
      · subst hk
        simp [idName, hids]
      · simp [idName, hk]
  obtain ⟨hid, ht⟩ | ⟨hbad, -⟩ | ⟨digits, hid, -, hl, ht⟩ | ⟨digits, taken, hid, -, hl, ht⟩ :=
    takeId_cases c.makefile (acc.ids c.kind) name id
  · exact done _ ht fun digits => by simp [hid]
  · exact absurd h.valid hbad
  · refine done _ ht fun d => ?_
    by_cases hd : d = digits
    · subst hd
      simp [hid]
    · simp [hid, hd, Ne.symm hd]
  · have hn : taken.name = name := h.ids digits _ hid (by simp [idName, hl])
    refine done (acc.ids c.kind) (by rw [ht, decide_eq_true hn]) fun d => ?_
    by_cases hd : d = digits
    · subst hd
      simp [hid, hl, hn]
    · simp [hid, Ne.symm hd]

theorem check_of_not_accepts (h : ∀ name id, ¬ Accepts acc c name id) :
    ∃ acc', c.check acc = (false, acc') ∧ acc'.names = acc.names := by
  have miss : ∃ ids, parse_package_metadata_usergroup c.makefile c.spec (acc.names c.kind)
      (acc.ids c.kind) = (false, acc.names c.kind, ids) := by
    cases hspec : parseSpec c.spec with
    | none => exact ⟨_, by rw [parse_package_metadata_usergroup, hspec]⟩
    | some p =>
      obtain ⟨name, id⟩ := p
      rw [usergroup_of_spec hspec]
      split
      · next htake =>
        have hfail : ¬ (takeName c.makefile (acc.names c.kind) name id).1 = true := by
          intro hok
          refine h name id ⟨hspec, ?_, ?_, takeName_iff.1 hok⟩
          · obtain ⟨hid, -⟩ | ⟨-, ht⟩ | ⟨_, -, hv, -⟩ | ⟨_, _, -, hv, -⟩ :=
              takeId_cases c.makefile (acc.ids c.kind) name id
            · simp [ValidId, hid]
            · simp [ht] at htake
            · exact hv
            · exact hv
          · intro digits t hd hname
            obtain ⟨hid, -⟩ | ⟨-, ht⟩ | ⟨d, hid, -, hl, -⟩ | ⟨d, t', hid, -, hl, ht⟩ :=
              takeId_cases c.makefile (acc.ids c.kind) name id
            · simp [hid] at hd
            · simp [ht] at htake
            · obtain rfl : d = digits := Option.some.inj (hid.symm.trans hd)
              simp [idName, hl] at hname
            · obtain rfl : d = digits := Option.some.inj (hid.symm.trans hd)
              have hn : t'.name = name := by simpa [ht] using htake
              simpa [idName, hl, hn] using hname.symm
        rw [Bool.eq_false_iff.2 hfail, takeName_of_not hfail]
        exact ⟨_, rfl⟩
      · exact ⟨_, rfl⟩
  obtain ⟨ids, hmiss⟩ := miss
  rw [Call.check, hmiss]
  exact ⟨_, rfl, Function.update_eq_self ..⟩

end Calls

/-! ## A list of calls -/

/-- The calls are well formed, and names and ids belong to each other. -/
structure Consistent (l : List Call) : Prop where
  valid : ∀ c ∈ l, ∃ name id, c.parsed = some (name, id) ∧ ValidId id
  ids : ∀ c ∈ l, ∀ d ∈ l, c.kind = d.kind → ∀ name name' digits,
    c.parsed = some (name, some digits) → d.parsed = some (name', some digits) → name = name'
  names : ∀ c ∈ l, ∀ d ∈ l, c.kind = d.kind → ∀ name id id',
    c.parsed = some (name, id) → d.parsed = some (name, id') → id = id'

theorem Consistent.of_append {l l' : List Call} (h : Consistent (l ++ l')) : Consistent l where
  valid c hc := h.valid c (List.mem_append_left l' hc)
  ids c hc d hd := h.ids c (List.mem_append_left l' hc) d (List.mem_append_left l' hd)
  names c hc d hd := h.names c (List.mem_append_left l' hc) d (List.mem_append_left l' hd)

/-- The accounts that a list of calls leaves, where there were none. -/
structure After (l : List Call) (acc : Accounts) : Prop where
  names : ∀ k name named, (acc.names k).lookup name = some named →
    ∃ c ∈ l, c.kind = k ∧ ∃ id, c.parsed = some (name, id) ∧ named.id = idValue id
  names_of_mem : ∀ c ∈ l, ∀ name id, c.parsed = some (name, id) →
    ∃ named, (acc.names c.kind).lookup name = some named
  ids : ∀ k digits name, idName acc.ids k digits = some name →
    ∃ c ∈ l, c.kind = k ∧ c.parsed = some (name, some digits)
  ids_of_mem : ∀ c ∈ l, ∀ name digits, c.parsed = some (name, some digits) →
    idName acc.ids c.kind digits = some name

/-- The digits in a spec are not empty. -/
theorem digits_of_parsed {c : Call} {name digits : Text} (h : c.parsed = some (name, some digits)) :
    digits ≠ [] ∧ ∀ d ∈ digits, d.isDigit = true := by
  unfold Call.parsed parseSpec at h
  dsimp only at h
  split at h
  · cases h
  · split at h
    · split at h
      · next hok =>
        cases h
        exact ⟨by simp, List.all_eq_true.1 hok.2⟩
      · cases h
    · cases h

/-- Ids that the parser takes are equal when their numbers are. -/
theorem idValue_inj {c d : Call} {name name' : Text} {id id' : Option Text}
    (hc : c.parsed = some (name, id)) (hd : d.parsed = some (name', id')) (hv : ValidId id)
    (hv' : ValidId id') (h : idValue id = idValue id') : id = id' := by
  have text : ∀ {e : Call} {name digits : Text}, e.parsed = some (name, some digits) →
      ValidId (some digits) → Nat.toDigits 10 (Nat.ofDigitChars 10 digits 0) = digits := by
    intro e name digits he hvalid
    have hdig := digits_of_parsed he
    have hpos := (hvalid digits rfl).1
    exact toDigits_ofDigitChars hdig.1 hdig.2 (bne_iff_ne.1 hpos)
  cases id with
  | none =>
    cases id' with
    | none => rfl
    | some digits => simp [idValue] at h
  | some digits =>
    cases id' with
    | none => simp [idValue] at h
    | some digits' =>
      have hval : Nat.ofDigitChars 10 digits 0 = Nat.ofDigitChars 10 digits' 0 :=
        Int.ofNat_inj.1 h
      rw [← text hc hv, hval, text hd hv']

/-- After consistent calls, the next is accepted when it is consistent with them. -/
theorem accepts_iff {l : List Call} {acc : Accounts} (hl : Consistent l) (h : After l acc)
    (c : Call) : (∃ name id, Accepts acc c name id) ↔ Consistent (l ++ [c]) := by
  constructor
  · rintro ⟨name, id, ha⟩
    have old : ∀ d ∈ l, d.kind = c.kind → ∀ {name' id'}, d.parsed = some (name', id') →
        (∀ digits, id = some digits → id' = some digits → name' = name) ∧
        (name' = name → id' = id) := by
      intro d hd hk name' id' hpd
      constructor
      · rintro digits hid rfl
        have := h.ids_of_mem d hd name' digits hpd
        rw [hk] at this
        exact ha.ids digits name' hid this
      · rintro rfl
        obtain ⟨named, hn⟩ := h.names_of_mem d hd name' id' hpd
        obtain ⟨e, he, hek, id'', hpe, hval⟩ := h.names _ _ _ hn
        obtain rfl := hl.names d hd e he hek.symm _ _ _ hpd hpe
        rw [hk] at hn
        obtain ⟨_, _, hp, hv⟩ := hl.valid d hd
        obtain ⟨rfl, rfl⟩ := Prod.mk.inj (Option.some.inj (hpd.symm.trans hp))
        exact idValue_inj hpd ha.parsed hv ha.valid (hval.symm.trans (ha.names named hn))
    have same : ∀ {name' id'}, c.parsed = some (name', id') → name = name' ∧ id = id' :=
      fun hp => Prod.mk.inj (Option.some.inj (ha.parsed.symm.trans hp))
    refine ⟨?_, ?_, ?_⟩
    · intro d hd
      obtain hd | hd := List.mem_append.1 hd
      · exact hl.valid d hd
      · obtain rfl := List.mem_singleton.1 hd
        exact ⟨name, id, ha.parsed, ha.valid⟩
    · intro d hd e he hk n n' digits hpd hpe
      rcases List.mem_append.1 hd with hd' | hd' <;> rcases List.mem_append.1 he with he' | he'
      · exact hl.ids d hd' e he' hk n n' digits hpd hpe
      · obtain rfl := List.mem_singleton.1 he'
        obtain ⟨rfl, rfl⟩ := same hpe
        exact (old d hd' hk hpd).1 digits rfl rfl
      · obtain rfl := List.mem_singleton.1 hd'
        obtain ⟨rfl, rfl⟩ := same hpd
        exact ((old e he' hk.symm hpe).1 digits rfl rfl).symm
      · obtain rfl := List.mem_singleton.1 hd'
        obtain rfl := List.mem_singleton.1 he'
        exact (same hpd).1.symm.trans (same hpe).1
    · intro d hd e he hk n i i' hpd hpe
      rcases List.mem_append.1 hd with hd' | hd' <;> rcases List.mem_append.1 he with he' | he'
      · exact hl.names d hd' e he' hk n i i' hpd hpe
      · obtain rfl := List.mem_singleton.1 he'
        obtain ⟨rfl, rfl⟩ := same hpe
        exact (old d hd' hk hpd).2 rfl
      · obtain rfl := List.mem_singleton.1 hd'
        obtain ⟨rfl, rfl⟩ := same hpd
        exact ((old e he' hk.symm hpe).2 rfl).symm
      · obtain rfl := List.mem_singleton.1 hd'
        obtain rfl := List.mem_singleton.1 he'
        exact (same hpd).2.symm.trans (same hpe).2
  · intro hcon
    have hc : c ∈ l ++ [c] := List.mem_append_right l (List.mem_singleton.2 rfl)
    obtain ⟨name, id, hp, hv⟩ := hcon.valid c hc
    refine ⟨name, id, hp, hv, ?_, ?_⟩
    · rintro digits taken rfl hname
      obtain ⟨d, hd, hk, hpd⟩ := h.ids _ _ _ hname
      exact hcon.ids d (List.mem_append_left _ hd) c hc hk _ _ _ hpd hp
    · intro named hn
      obtain ⟨d, hd, hk, id', hpd, hval⟩ := h.names _ _ _ hn
      obtain rfl := hcon.names d (List.mem_append_left _ hd) c hc hk _ _ _ hpd hp
      exact hval

/-- The accounts after one more call. -/
theorem After.snoc {l : List Call} {acc acc' : Accounts} {c : Call} {name : Text}
    {id : Option Text} (h : After l acc) (ha : Accepts acc c name id)
    (hleft : Left acc acc' c name id) : After (l ++ [c]) acc' := by
  have hmem : ∀ d ∈ l, d ∈ l ++ [c] := fun d hd => List.mem_append_left _ hd
  have hc : c ∈ l ++ [c] := List.mem_append_right l (List.mem_singleton.2 rfl)
  have hnames : ∀ k n, (acc'.names k).lookup n =
      if k = c.kind ∧ n = name ∧ (acc.names c.kind).lookup name = none then
        some ⟨idValue id, c.makefile⟩
      else (acc.names k).lookup n := by
    intro k n
    rw [hleft.names]
    by_cases hk : k = c.kind
    · subst hk
      rw [Function.update_self, lookup_takeName]
      simp
    · rw [Function.update_of_ne hk, if_neg fun h => hk h.1]
  refine ⟨?_, ?_, ?_, ?_⟩
  · intro k n named hn
    rw [hnames] at hn
    split at hn
    · next hnew =>
      obtain ⟨rfl, rfl, -⟩ := hnew
      cases hn
      exact ⟨c, hc, rfl, id, ha.parsed, rfl⟩
    · obtain ⟨d, hd, hrest⟩ := h.names k n named hn
      exact ⟨d, hmem d hd, hrest⟩
  · intro d hd n i hp
    rw [hnames]
    split
    · exact ⟨_, rfl⟩
    · next hold =>
      obtain hd | hd := List.mem_append.1 hd
      · exact h.names_of_mem d hd n i hp
      · obtain rfl := List.mem_singleton.1 hd
        obtain ⟨rfl, rfl⟩ := Prod.mk.inj (Option.some.inj (ha.parsed.symm.trans hp))
        exact Option.ne_none_iff_exists'.1 fun hnone => hold ⟨rfl, rfl, hnone⟩
  · intro k digits n hn
    rw [hleft.ids] at hn
    split at hn
    · next hnew =>
      obtain ⟨rfl, rfl⟩ := hnew
      cases hn
      exact ⟨c, hc, rfl, ha.parsed⟩
    · obtain ⟨d, hd, hrest⟩ := h.ids k digits n hn
      exact ⟨d, hmem d hd, hrest⟩
  · intro d hd n digits hp
    rw [hleft.ids]
    obtain hd | hd := List.mem_append.1 hd
    · have hold := h.ids_of_mem d hd n digits hp
      split
      · next hnew =>
        rw [hnew.1] at hold
        rw [ha.ids digits n hnew.2 hold]
      · exact hold
    · obtain rfl := List.mem_singleton.1 hd
      obtain ⟨rfl, rfl⟩ := Prod.mk.inj (Option.some.inj (ha.parsed.symm.trans hp))
      rw [if_pos ⟨rfl, rfl⟩]

/-! ## A run as a list of events -/

/-- A line leaves its tables, then makes its calls. -/
inductive Event where
  | tables (s : Parser)
  | call (c : Call)

def events (ignore : List Text) : Nat → Parser → List Text → List Event
  | _, _, [] => []
  | skip + 1, s, _ :: ls => events ignore skip s ls
  | 0, s, l :: ls =>
    let (s, skip, calls) := parse_line ignore s (chomp l) ls
    .tables s :: calls.map .call ++ events ignore skip s ls

def runEvents : Parser → Accounts → List Event → Bool × Parser × Accounts
  | s, acc, [] => (true, s, acc)
  | _, acc, .tables s :: es => runEvents s acc es
  | s, acc, .call c :: es =>
    match c.check acc with
    | (false, acc) => (false, s, acc)
    | (true, acc) => runEvents s acc es

theorem runEvents_calls (s : Parser) (es : List Event) : ∀ (calls : List Call) (acc : Accounts),
    runEvents s acc (calls.map .call ++ es) =
      if (checkAll calls acc).1 = true then runEvents s (checkAll calls acc).2 es
      else (false, s, (checkAll calls acc).2)
  | [], acc => by simp [checkAll]
  | c :: calls, acc => by
      rcases hc : c.check acc with ⟨_ | _, acc'⟩
      · simp [runEvents, checkAll, hc]
      · simpa [runEvents, checkAll, hc] using runEvents_calls s es calls acc'

theorem parse_lines_eq (ignore : List Text) :
    ∀ (ls : List Text) (skip : Nat) (s : Parser) (acc : Accounts),
      parse_lines ignore skip s acc ls = runEvents s acc (events ignore skip s ls)
  | [], _, _, _ => by simp [parse_lines, events, runEvents]
  | _ :: ls, skip + 1, s, acc => by
      rw [parse_lines, events]
      exact parse_lines_eq ignore ls skip s acc
  | l :: ls, 0, s, acc => by
      rw [parse_lines, events]
      rcases parse_line ignore s (chomp l) ls with ⟨s', skip, calls⟩
      dsimp only
      rw [List.cons_append, runEvents, runEvents_calls]
      rcases hc : checkAll calls acc with ⟨_ | _, acc'⟩
      · simp
      · simpa using parse_lines_eq ignore ls skip s' acc'

def eventCalls (es : List Event) : List Call :=
  es.filterMap fun e => match e with
    | .tables _ => none
    | .call c => some c

/-- A name in the accounts stays there. -/
theorem runEvents_names (k : Kind) (name : Text) :
    ∀ (es : List Event) (s : Parser) (acc : Accounts), (acc.names k).lookup name ≠ none →
      ((runEvents s acc es).2.2.names k).lookup name ≠ none
  | [], _, _, h => h
  | .tables s :: es, _, acc, h => runEvents_names k name es s acc h
  | .call c :: es, s, acc, h => by
      unfold runEvents
      by_cases ha : ∃ name id, Accepts acc c name id
      · obtain ⟨n, id, ha⟩ := ha
        obtain ⟨acc', hc, hleft⟩ := check_of_accepts ha
        rw [hc]
        refine runEvents_names k name es s acc' ?_
        rw [hleft.names]
        by_cases hk : k = c.kind
        · subst hk
          rw [Function.update_self, lookup_takeName]
          split
          · exact Option.some_ne_none _
          · exact h
        · rwa [Function.update_of_ne hk]
      · obtain ⟨acc', hc, hn⟩ := check_of_not_accepts fun n id hacc => ha ⟨n, id, hacc⟩
        rw [hc]
        exact hn ▸ h

/-! ## Two runs -/

/-- The returned values and the tables, but for the ids, are the same. -/
def Same (r r' : Bool × Globals) : Prop :=
  r.1 = r'.1 ∧ r.2.tables = r'.2.tables ∧ r.2.accounts.names = r'.2.accounts.names

/-- The call does not name an id that was left to another name. -/
def Compatible (left : Kind → Hash Taken) (c : Call) : Prop :=
  ∀ name digits taken, c.parsed = some (name, some digits) →
    idName left c.kind digits = some taken → taken = name

/-- The run with the ids `left` over follows the run without them. -/
structure Follows (left : Kind → Hash Taken) (acc acc' : Accounts) : Prop where
  names : acc'.names = acc.names
  ids : ∀ k digits, idName acc'.ids k digits = (idName left k digits).or (idName acc.ids k digits)
  agree : ∀ k digits name name', idName left k digits = some name →
    idName acc.ids k digits = some name' → name = name'

section TwoRuns

variable {left : Kind → Hash Taken} {acc acc' : Accounts} {c : Call} {name : Text}
  {id : Option Text}

theorem Follows.accepts (h : Follows left acc acc') :
    Accepts acc' c name id ↔ Accepts acc c name id ∧ Compatible left c := by
  constructor
  · intro ha
    refine ⟨⟨ha.parsed, ha.valid, ?_, ?_⟩, ?_⟩
    · intro digits taken hid hold
      cases hleft : idName left c.kind digits with
      | none => exact ha.ids digits taken hid (by rw [h.ids, hleft, hold]; rfl)
      | some n =>
        obtain rfl := h.agree _ _ _ _ hleft hold
        exact ha.ids digits n hid (by rw [h.ids, hleft]; rfl)
    · rw [← h.names]
      exact ha.names
    · intro n digits taken hp hleft
      obtain ⟨rfl, rfl⟩ := Prod.mk.inj (Option.some.inj (ha.parsed.symm.trans hp))
      exact ha.ids digits taken rfl (by rw [h.ids, hleft]; rfl)
  · rintro ⟨ha, hc⟩
    refine ⟨ha.parsed, ha.valid, ?_, ?_⟩
    · intro digits taken hid hold
      rw [h.ids] at hold
      cases hleft : idName left c.kind digits with
      | none =>
        rw [hleft] at hold
        exact ha.ids digits taken hid hold
      | some n =>
        rw [hleft] at hold
        obtain rfl := Option.some.inj hold
        exact hc name digits n (hid ▸ ha.parsed) hleft
    · rw [h.names]
      exact ha.names

theorem Follows.step {acc₁ acc₁' : Accounts} (h : Follows left acc acc')
    (hc : Compatible left c) (ha : Accepts acc c name id) (h₁ : Left acc acc₁ c name id)
    (h₁' : Left acc' acc₁' c name id) : Follows left acc₁ acc₁' := by
  refine ⟨by rw [h₁.names, h₁'.names, h.names], ?_, ?_⟩
  · intro k digits
    rw [h₁.ids, h₁'.ids, h.ids]
    split
    · next hnew =>
      cases hleft : idName left k digits with
      | none => rfl
      | some n =>
        rw [hnew.1] at hleft
        rw [hc name digits n (hnew.2 ▸ ha.parsed) hleft]
        rfl
    · rfl
  · intro k digits n n' hleft hold
    rw [h₁.ids] at hold
    split at hold
    · next hnew =>
      obtain rfl := Option.some.inj hold
      rw [hnew.1] at hleft
      exact hc name digits n (hnew.2 ▸ ha.parsed) hleft
    · exact h.agree k digits n n' hleft hold

/-- A name that an incompatible call gives an id is new. -/
theorem Follows.fresh {l : List Call} (hl : Consistent l) (hafter : After l acc)
    (h : Follows left acc acc') (ha : Accepts acc c name id) (hc : ¬ Compatible left c) :
    (acc.names c.kind).lookup name = none := by
  by_contra hnone
  obtain ⟨named, hn⟩ := Option.ne_none_iff_exists'.1 hnone
  obtain ⟨d, hd, hk, id', hp, hval⟩ := hafter.names _ _ _ hn
  obtain ⟨_, _, hp', hv⟩ := hl.valid d hd
  obtain ⟨rfl, rfl⟩ := Prod.mk.inj (Option.some.inj (hp.symm.trans hp'))
  obtain rfl := idValue_inj hp ha.parsed hv ha.valid (hval.symm.trans (ha.names named hn))
  refine hc fun n digits taken hpc hleft => ?_
  obtain ⟨rfl, rfl⟩ := Prod.mk.inj (Option.some.inj (ha.parsed.symm.trans hpc))
  have hold := hafter.ids_of_mem d hd name digits hp
  rw [hk] at hold
  exact h.agree _ _ _ _ hleft hold

/-- From states that follow each other the runs end the same, unless some call
that is consistent with those before it is incompatible. -/
theorem same_runEvents :
    ∀ (es : List Event) (l : List Call) (s : Parser) (acc acc' : Accounts),
      Consistent l → After l acc → Follows left acc acc' →
      (((runEvents s acc' es).1 = (runEvents s acc es).1 ∧
          (runEvents s acc' es).2.1.tables = (runEvents s acc es).2.1.tables ∧
          (runEvents s acc' es).2.2.names = (runEvents s acc es).2.2.names) ↔
        ∀ l₁ c l₂, eventCalls es = l₁ ++ c :: l₂ → Consistent (l ++ l₁ ++ [c]) →
          Compatible left c)
  | [], l, s, acc, acc', _, _, hf => by
      simp [runEvents, eventCalls, hf.names]
  | .tables s :: es, l, _, acc, acc', hl, ha, hf =>
      same_runEvents es l s acc acc' hl ha hf
  | .call c :: es, l, s, acc, acc', hl, ha, hf => by
      have hcalls : eventCalls (.call c :: es) = c :: eventCalls es := rfl
      rw [hcalls]
      -- what is asked of the calls after this one
      have later : (∀ l₁ d l₂, c :: eventCalls es = l₁ ++ d :: l₂ → Consistent (l ++ l₁ ++ [d]) →
          Compatible left d) ↔ (Consistent (l ++ [c]) → Compatible left c) ∧
          ∀ l₁ d l₂, eventCalls es = l₁ ++ d :: l₂ → Consistent (l ++ [c] ++ l₁ ++ [d]) →
            Compatible left d := by
        constructor
        · intro h
          refine ⟨fun hcon => h [] c _ rfl (by simpa using hcon), fun l₁ d l₂ he hcon => ?_⟩
          exact h (c :: l₁) d l₂ (by rw [he]; rfl) (by simpa using hcon)
        · rintro ⟨hfirst, hrest⟩ l₁ d l₂ he hcon
          cases l₁ with
          | nil =>
            obtain ⟨rfl, -⟩ := List.cons.inj he
            exact hfirst (by simpa using hcon)
          | cons e l₁ =>
            obtain ⟨rfl, htail⟩ := List.cons.inj he
            exact hrest l₁ d l₂ htail (by simpa using hcon)
      rw [later]
      unfold runEvents
      by_cases hacc : ∃ name id, Accepts acc c name id
      · have hcon := (accepts_iff hl ha c).1 hacc
        obtain ⟨name, id, hacc⟩ := hacc
        obtain ⟨acc₁, hcheck, hleft₁⟩ := check_of_accepts hacc
        rw [hcheck]
        by_cases hcomp : Compatible left c
        · obtain ⟨acc₁', hcheck', hleft₁'⟩ := check_of_accepts (hf.accepts.2 ⟨hacc, hcomp⟩)
          rw [hcheck', and_iff_right fun _ => hcomp]
          exact same_runEvents es (l ++ [c]) s acc₁ acc₁' hcon (ha.snoc hacc hleft₁)
            (hf.step hcomp hacc hleft₁ hleft₁')
        · have hno : ∀ n i, ¬ Accepts acc' c n i := fun n i h => hcomp (hf.accepts.1 h).2
          obtain ⟨acc₁', hcheck', hnames⟩ := check_of_not_accepts hno
          rw [hcheck']
          refine ⟨fun h => ?_, fun h => absurd (h.1 hcon) hcomp⟩
          -- the name is in the one table and not in the other
          have hnew : (acc₁.names c.kind).lookup name ≠ none := by
            rw [hleft₁.names, Function.update_self, lookup_takeName,
              if_pos ⟨rfl, hf.fresh hl ha hacc hcomp⟩]
            exact Option.some_ne_none _
          refine absurd ?_ (runEvents_names c.kind name es s acc₁ hnew)
          have heq : acc₁'.names = (runEvents s acc₁ es).2.2.names := h.2.2
          rw [← heq, hnames, hf.names]
          exact hf.fresh hl ha hacc hcomp
      · have hcon : ¬ Consistent (l ++ [c]) := fun h => hacc ((accepts_iff hl ha c).2 h)
        obtain ⟨acc₁, hcheck, hn₁⟩ := check_of_not_accepts fun n i h => hacc ⟨n, i, h⟩
        have hno : ∀ n i, ¬ Accepts acc' c n i := fun n i h => hacc ⟨n, i, (hf.accepts.1 h).1⟩
        obtain ⟨acc₁', hcheck', hn₁'⟩ := check_of_not_accepts hno
        rw [hcheck, hcheck']
        refine ⟨fun _ => ⟨fun h => absurd h hcon, fun l₁ d l₂ _ h => ?_⟩,
          fun _ => ⟨rfl, rfl, by rw [hn₁, hn₁', hf.names]⟩⟩
        rw [List.append_assoc] at h
        exact absurd h.of_append hcon

end TwoRuns

/-! ## Clearing -/

/-- The user and group specs of a file, in the order in which a parse of the
whole file checks them. -/
def fileCalls (ignore : List Text) (file : List Text) : List Call :=
  eventCalls (events ignore 0 ⟨.empty, none, none, none⟩ file)

/-- Parsing `A`, clearing and parsing `B` is parsing `B`, unless `B` has a spec,
consistent with the specs before it, with an id that `A` left to another name. -/
theorem clear_packages_iff (ignore : List Text) (A B : List Text) :
    Same
        (parse_package_metadata ignore
          (clear_packages (parse_package_metadata ignore .empty A).2) B)
        (parse_package_metadata ignore .empty B) ↔
      ∀ l₁ c l₂, fileCalls ignore B = l₁ ++ c :: l₂ → Consistent (l₁ ++ [c]) →
        Compatible (parse_package_metadata ignore .empty A).2.accounts.ids c := by
  have hempty : Consistent [] := ⟨by simp, by simp, by simp⟩
  have hafter : After [] Globals.empty.accounts := by
    refine ⟨?_, by simp, ?_, by simp⟩ <;> simp [Globals.empty, idName]
  generalize (parse_package_metadata ignore .empty A).2 = g
  have hfollows : Follows g.accounts.ids Globals.empty.accounts (clear_packages g).accounts := by
    refine ⟨rfl, ?_, ?_⟩
    · intro k digits
      simp [clear_packages, Globals.empty, idName]
    · simp [Globals.empty, idName]
  have hrun := same_runEvents (events ignore 0 ⟨.empty, none, none, none⟩ B) []
    ⟨.empty, none, none, none⟩ _ _ hempty hafter hfollows
  have hparse : ∀ acc, parse_package_metadata ignore ⟨.empty, acc⟩ B =
      ((runEvents ⟨.empty, none, none, none⟩ acc
          (events ignore 0 ⟨.empty, none, none, none⟩ B)).1,
        ⟨(runEvents ⟨.empty, none, none, none⟩ acc
          (events ignore 0 ⟨.empty, none, none, none⟩ B)).2.1.tables,
        (runEvents ⟨.empty, none, none, none⟩ acc
          (events ignore 0 ⟨.empty, none, none, none⟩ B)).2.2⟩) := by
    intro acc
    rw [parse_package_metadata, parse_lines_eq]
  rw [Same, clear_packages, Globals.empty, hparse, hparse]
  simpa [fileCalls, clear_packages, Globals.empty] using hrun

/-- One user under two names. -/
def fileOf (user : String) : List Text :=
  ["Source-Makefile: package/a/Makefile\n".toList, "Package: a\n".toList,
    ("Require-User: " ++ user ++ "=100\n").toList]

theorem clear_packages_twoFiles :
    ¬ Same
        (parse_package_metadata []
          (clear_packages (parse_package_metadata [] .empty (fileOf "foo")).2) (fileOf "bar"))
        (parse_package_metadata [] .empty (fileOf "bar")) := by
  intro h
  have hret := h.1
  revert hret
  decide +kernel

end Lede.Metadata
