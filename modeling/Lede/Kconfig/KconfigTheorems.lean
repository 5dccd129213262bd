/-
Lede.Kconfig.KconfigTheorems — what the operators of the configuration
calculator make of each symbol, and when the laws between them hold.

Every operator is a loop over a hash whose body touches one symbol, so each is
described by the value it gives a symbol (`lookup_and`, `lookup_add`,
`lookup_diff`). The laws fail for one value only: `0`, which is set but not true.
-/
import Lede.Kconfig.Kconfig

namespace Lede.Kconfig

open Lede.Lib

/-- A name that a line of a file can carry. -/
def IsSymbol (x : Text) : Prop := x ≠ [] ∧ ∀ c ∈ x, c ≠ '=' ∧ c ≠ ' ' ∧ c ≠ '\n'

/-- A map from symbols to values of one line, or unset. -/
structure Configuration where
  tbl : Config
  symbol : ∀ {x v}, tbl.lookup x = some v → IsSymbol x
  value : ∀ {x v}, tbl.lookup x = some v → v ≠ [] ∧ '\n' ∉ v

/-- The value that a file gives back for a printed one. -/
def normal (v : Text) : Text := if v = n then undef else v

def zero : Text := ['0']

/-! ## Lines -/

section Lines

variable {pre : Prefix} {x v : Text}

theorem drop_isPrefixOf (p l : Text) : p.isPrefixOf (p ++ l) = true := by
  simp

theorem matchSet_eq_none {line : Text} (h : '=' ∉ line) : matchSet pre line = none := by
  unfold matchSet
  split
  · cases hd : line.drop pre.text.length with
    | nil => rfl
    | cons c cs =>
      have hcs : '=' ∉ cs := fun hmem =>
        h (List.mem_of_mem_drop (hd ▸ List.mem_cons_of_mem c hmem))
      have hall : ∀ d ∈ cs, (d != '=') = true := by
        intro d hmem
        exact bne_iff_ne.2 fun heq => hcs (heq ▸ hmem)
      have hnil : cs.dropWhile (· != '=') = [] := by
        rw [← List.append_nil cs, List.dropWhile_append_of_pos hall]
        rfl
      simp only [hnil]
  · rfl

theorem matchSet_line (hx : IsSymbol x) (hv : v ≠ []) :
    matchSet pre (pre.text ++ x ++ '=' :: v) = some (x, v) := by
  obtain ⟨c, cs, rfl⟩ := List.exists_cons_of_ne_nil hx.1
  obtain ⟨w, ws, rfl⟩ := List.exists_cons_of_ne_nil hv
  have hall : ∀ d ∈ cs, (d != '=') = true := fun d hd =>
    bne_iff_ne.2 (hx.2 d (List.mem_cons_of_mem c hd)).1
  have hdrop : (cs ++ '=' :: w :: ws).dropWhile (· != '=') = '=' :: w :: ws := by
    rw [List.dropWhile_append_of_pos hall]
    simp
  have htake : (cs ++ '=' :: w :: ws).takeWhile (· != '=') = cs := by
    rw [List.takeWhile_append_of_pos hall]
    simp
  simp [matchSet, hdrop, htake]

theorem beforeNotSet_append : ∀ (cs : Text), (∀ c ∈ cs, c ≠ ' ') →
    beforeNotSet (cs ++ notSet) = some cs
  | [], _ => rfl
  | c :: cs, h => by
      have hc : ¬ notSet.isPrefixOf (c :: (cs ++ notSet)) = true := by
        simp only [notSet, List.isPrefixOf_iff_prefix]
        intro hp
        obtain ⟨t, ht⟩ := hp
        exact h c (List.mem_cons_self ..) (List.cons.inj ht).1.symm
      rw [List.cons_append, beforeNotSet, if_neg hc,
        beforeNotSet_append cs fun d hd => h d (List.mem_cons_of_mem c hd)]
      rfl

theorem matchUnset_line (hx : IsSymbol x) :
    matchUnset pre ('#' :: ' ' :: (pre.text ++ x ++ notSet)) = some x := by
  obtain ⟨c, cs, rfl⟩ := List.exists_cons_of_ne_nil hx.1
  have hcs := beforeNotSet_append cs fun d hd => (hx.2 d (List.mem_cons_of_mem c hd)).2.1
  simp [matchUnset, hcs]

theorem eq_not_mem_notSet : '=' ∉ notSet := by decide

/-- Reading the line printed for a symbol sets the symbol. -/
theorem load_line_print (hx : IsSymbol x) (hv : v ≠ []) (mod_plus : Bool) (cfg : Config) :
    load_line pre mod_plus cfg (print_cfgline pre x v) = set_config cfg x (normal v) mod_plus := by
  unfold print_cfgline normal
  by_cases hun : v = undef ∨ v = n
  · have hpre : '=' ∉ pre.text := fun h => absurd (List.all_eq_true.1 pre.word '=' h) (by decide)
    have hsym : '=' ∉ x := fun h => (hx.2 '=' h).1 rfl
    have hline : '=' ∉ '#' :: ' ' :: (pre.text ++ x ++ notSet) := by
      simp [hpre, hsym, eq_not_mem_notSet]
    rw [if_pos hun, load_line, matchSet_eq_none hline]
    have hval : (if v = n then undef else v) = undef := by
      obtain rfl | rfl := hun <;> simp [undef, n]
    simp only [matchUnset_line hx, hval]
  · rw [not_or] at hun
    rw [if_neg (not_or.2 hun), if_neg hun.2, load_line, matchSet_line hx hv]

theorem newline_not_mem_print (hx : IsSymbol x) (hv : '\n' ∉ v) :
    '\n' ∉ print_cfgline pre x v := by
  have hpre : '\n' ∉ pre.text := fun h => absurd (List.all_eq_true.1 pre.word '\n' h) (by decide)
  have hsym : '\n' ∉ x := fun h => (hx.2 '\n' h).2.2 rfl
  have hns : '\n' ∉ notSet := by decide
  unfold print_cfgline
  split <;> simp [hpre, hsym, hns, hv]

end Lines

/-! ## Loading a dump -/

/-- A dumped configuration reads back, with `n` as unset. -/
theorem load_dump (pre : Prefix) (a : Configuration) (mod_plus : Bool) (x : Text) :
    (load_config pre (dump_config pre a.tbl) mod_plus).lookup x = (a.tbl.lookup x).map normal := by
  have hperm := List.mergeSort_perm a.tbl.entries fun p q => p.1 ≤ q.1
  have hmem : ∀ p ∈ a.tbl.entries.mergeSort fun p q => p.1 ≤ q.1, a.tbl.lookup p.1 = some p.2 :=
    fun p hp => AList.mem_lookup_iff.2 (hperm.mem_iff.1 hp)
  have hnodup := (List.perm_nodupKeys hperm).2 a.tbl.nodupKeys
  unfold load_config dump_config
  rw [fileLines_flatMap _ fun p hp =>
    newline_not_mem_print (a.symbol (hmem p hp)) (a.value (hmem p hp)).2, List.foldl_map,
    List.foldl_ext _ (fun cfg p => set_config cfg p.1 (normal p.2) mod_plus) ∅ fun cfg p hp =>
      load_line_print (a.symbol (hmem p hp)) (a.value (hmem p hp)).1 mod_plus cfg,
    lookup_foldl_entries (f := fun cfg k v => set_config cfg k (normal v) mod_plus)
      (g := fun _ v o =>
        if o = none ∨ mod_plus = false ∨ o = some undef ∨ normal v = y then some (normal v) else o)
      (fun cfg k v x => lookup_insert_if _ cfg k x (normal v)) _ hnodup]
  have hlookup : (a.tbl.entries.mergeSort fun p q => p.1 ≤ q.1).dlookup x = a.tbl.lookup x :=
    List.perm_dlookup x hnodup hperm
  cases hx : a.tbl.lookup x <;> simp [hlookup, hx]

/-! ## Operators -/

section Operators

variable {a b : Config} {x v : Text}

theorem lookup_and (a b : Config) (x : Text) :
    (config_and a b).lookup x =
      match a.lookup x with
      | some v => if truthy (b.lookup x) ∧ b.lookup x = some v then some v else none
      | none => none := by
  unfold config_and
  rw [lookup_foldl (g := fun k v o =>
    if truthy (b.lookup k) ∧ b.lookup k = some v then some v else o)]
  · cases a.lookup x <;> simp
  · exact fun h k v x => lookup_insert_if _ h k x v

theorem lookup_add_key (mod_plus : Bool) (cfg : Config) (k v x : Text) :
    (add_key mod_plus cfg k v).lookup x =
      if x = k then
        if mod_plus ∧ truthy (cfg.lookup k) ∧ (cfg.lookup k = some y ∨ v = undef) then cfg.lookup k
        else some v
      else cfg.lookup x := by
  unfold add_key
  rw [← ite_not, lookup_insert_if, ite_not]

theorem lookup_add (a b : Config) (mod_plus : Bool) (x : Text) :
    (config_add a b mod_plus).lookup x =
      match b.lookup x with
      | some v =>
        if mod_plus ∧ truthy (a.lookup x) ∧ (a.lookup x = some y ∨ v = undef) then a.lookup x
        else some v
      | none => a.lookup x := by
  have rule := lookup_foldl (f := add_key mod_plus) (g := fun _ v o =>
    if mod_plus ∧ truthy o ∧ (o = some y ∨ v = undef) then o else some v)
    (lookup_add_key mod_plus)
  have hfirst : (a.foldl (add_key mod_plus) ∅).lookup x = a.lookup x := by
    rw [rule]
    cases a.lookup x <;> simp
  have hsecond := rule b (a.foldl (add_key mod_plus) ∅) x
  rw [hfirst] at hsecond
  refine hsecond.trans ?_
  cases b.lookup x <;> rfl

theorem lookup_diff (a b : Config) (new_only : Bool) (x : Text) :
    (config_diff a b new_only).lookup x =
      match b.lookup x with
      | some v =>
        if a.lookup x ≠ some v ∧ ¬ (new_only ∧ a.lookup x = none ∧ v = undef) then some v else none
      | none => none := by
  unfold config_diff
  rw [lookup_foldl (g := fun k v o =>
    if a.lookup k ≠ some v ∧ ¬ (new_only ∧ a.lookup k = none ∧ v = undef) then some v else o)]
  · cases b.lookup x <;> simp
  · exact fun h k v x => lookup_insert_if _ h k x v

/-- Refreshing: what `+` adds of `b` to `a` is in the difference. -/
theorem lookup_add_diff (a b : Config) (x : Text) :
    (config_add a (config_diff a b false) false).lookup x = (config_add a b false).lookup x := by
  rw [lookup_add, lookup_add, lookup_diff]
  cases b.lookup x with
  | none => rfl
  | some v => by_cases h : a.lookup x = some v <;> simp [h]

theorem and_eq_some :
    (config_and a b).lookup x = some v ↔
      a.lookup x = some v ∧ b.lookup x = some v ∧ truthy (some v) = true := by
  rw [lookup_and]
  constructor
  · intro h
    cases ha : a.lookup x with
    | none => simp [ha] at h
    | some w =>
      simp only [ha] at h
      split at h
      · next hw =>
        obtain rfl := Option.some.inj h
        exact ⟨rfl, hw.2, hw.2 ▸ hw.1⟩
      · exact absurd h (by simp)
  · rintro ⟨ha, hb, ht⟩
    rw [ha, hb]
    exact if_pos ⟨ht, rfl⟩

end Operators

/-! ## Expressions -/

inductive Op where
  | and | add | addMod | diff | diffNew | sub

namespace Op

def word : Op → Text
  | and => ['&']
  | add => ['+']
  | addMod => ['m', '+']
  | diff => ['>']
  | diffNew => ['>', '+']
  | sub => ['-']

/-- Whether the second operand, if it is a file, is loaded with `mod_plus`. -/
def flag : Op → Bool
  | addMod => true
  | _ => false

def apply (regex : Text → Text → Bool) : Op → Config → Config → Config
  | and => config_and
  | add => (config_add · · false)
  | addMod => (config_add · · true)
  | diff => (config_diff · · false)
  | diffNew => (config_diff · · true)
  | sub => config_sub regex

end Op

/-- A word that is no operator. -/
structure FileName where
  text : Text
  truthy : truthy (some text) = true
  plain : text ≠ ['&'] ∧ text ≠ ['>'] ∧ text ≠ ['>', '+'] ∧ text ≠ ['-'] ∧
    ¬ ['+'].isPrefixOf text = true ∧ ¬ ['m', '+'].isPrefixOf text = true

inductive Expr where
  | file (name : FileName)
  | op (o : Op) (a b : Expr)

namespace Expr

def args : Expr → List Text
  | file name => [name.text]
  | op o a b => o.word :: (a.args ++ b.args)

def depth : Expr → Nat
  | file _ => 1
  | op _ a b => max a.depth b.depth + 1

def eval (pre : Prefix) (regex : Text → Text → Bool) (files : Text → Option Text) :
    Expr → Bool → Option Config
  | file name, mod_plus => (files name.text).map (load_config pre · mod_plus)
  | op o a b, _ => do
    let arg1 ← a.eval pre regex files false
    let arg2 ← b.eval pre regex files o.flag
    some (o.apply regex arg1 arg2)

/-- An operator is read before its two arguments. -/
theorem parse_op (pre : Prefix) (regex : Text → Text → Bool) (files : Text → Option Text) (o : Op)
    (fuel : Nat) (mod_plus : Bool) (args : List Text) :
    parse_expr pre regex files (fuel + 1) mod_plus (o.word :: args) = (do
      let (arg1, args) ← parse_expr pre regex files fuel false args
      let (arg2, args) ← parse_expr pre regex files fuel o.flag args
      some (o.apply regex arg1 arg2, args)) := by
  cases o <;> rfl

/-- The words of an expression are read as that expression, whatever follows. -/
theorem parse_args (pre : Prefix) (regex : Text → Text → Bool) (files : Text → Option Text) :
    ∀ (e : Expr) (fuel : Nat) (mod_plus : Bool) (rest : List Text), e.depth ≤ fuel →
      parse_expr pre regex files fuel mod_plus (e.args ++ rest) =
        (e.eval pre regex files mod_plus).map fun cfg => (cfg, rest)
  | file name, fuel + 1, mod_plus, rest, _ => by
      obtain ⟨h1, h2, h3, h4, h5, h6⟩ := name.plain
      simp only [args, List.cons_append, List.nil_append, parse_expr, eval, name.truthy, h1, h2, h3,
        h4, h5, h6, not_true_eq_false, if_false]
      cases files name.text <;> simp
  | op o a b, fuel + 1, mod_plus, rest, hd => by
      have ha : a.depth ≤ fuel := by simp only [depth] at hd; omega
      have hb : b.depth ≤ fuel := by simp only [depth] at hd; omega
      rw [args, List.cons_append, parse_op, List.append_assoc,
        parse_args pre regex files a fuel false _ ha, eval]
      cases a.eval pre regex files false with
      | none => rfl
      | some arg1 =>
        have hbind := parse_args pre regex files b fuel o.flag rest hb
        simp only [Option.map_some, Option.bind_eq_bind, Option.bind_some, hbind]
        cases b.eval pre regex files o.flag <;> rfl
  | file _, 0, _, _, hd => by simp [depth] at hd
  | op _ _ _, 0, _, _, hd => by simp [depth] at hd

end Expr

/-! ## The laws -/

/-- The laws of two configurations. A set value is any value but `#undef`. -/
structure Laws (pre : Prefix) (a b : Config) : Prop where
  load_dump : ∀ mod_plus x,
    (load_config pre (dump_config pre a) mod_plus).lookup x = (a.lookup x).map normal
  refresh : ∀ x,
    (config_add a (config_diff a b false) false).lookup x = (config_add a b false).lookup x
  and_iff : ∀ x v, (config_and a b).lookup x = some v ↔ a.lookup x = some v ∧ b.lookup x = some v
  keeps_set : ∀ x v, a.lookup x = some v → v ≠ undef →
    ∃ w, (config_add a b true).lookup x = some w ∧ w ≠ undef
  keeps_y : ∀ x, a.lookup x = some y → (config_add a b true).lookup x = some y

/-- The laws hold unless `a` sets a symbol to `0` that `b` sets to `0` as well,
which `&` drops, or has as unset, which `m+` then takes. -/
theorem laws_iff (pre : Prefix) (a b : Configuration) :
    Laws pre a.tbl b.tbl ↔
      ∀ x, a.tbl.lookup x = some zero →
        b.tbl.lookup x ≠ some zero ∧ b.tbl.lookup x ≠ some undef := by
  constructor
  · intro h x ha
    constructor
    · intro hb
      have := (and_eq_some.1 ((h.and_iff x zero).2 ⟨ha, hb⟩)).2.2
      exact absurd this (by decide)
    · intro hb
      obtain ⟨w, hw, hne⟩ := h.keeps_set x zero ha (by decide)
      rw [lookup_add, hb, ha] at hw
      have hzero : ¬ truthy (some zero) = true := by decide
      dsimp only at hw
      rw [if_neg fun hc => hzero hc.2.1] at hw
      exact hne (Option.some.inj hw).symm
  · intro h
    refine ⟨load_dump pre a, lookup_add_diff a.tbl b.tbl, ?_, ?_, ?_⟩
    · intro x v
      rw [and_eq_some]
      refine ⟨fun hv => ⟨hv.1, hv.2.1⟩, fun hv => ⟨hv.1, hv.2, ?_⟩⟩
      refine (truthy_some v).2 ⟨(a.value hv.1).1, ?_⟩
      rintro rfl
      exact (h x hv.1).1 hv.2
    · intro x v ha hv
      rw [lookup_add, ha]
      cases hb : b.tbl.lookup x with
      | none => exact ⟨v, rfl, hv⟩
      | some w =>
        by_cases hkeep : truthy (some v) = true ∧ (some v = some y ∨ w = undef)
        · exact ⟨v, if_pos ⟨rfl, hkeep⟩, hv⟩
        · refine ⟨w, if_neg fun hc => hkeep hc.2, ?_⟩
          rintro rfl
          refine hkeep ⟨(truthy_some v).2 ⟨(a.value ha).1, ?_⟩, Or.inr rfl⟩
          rintro rfl
          exact (h x ha).2 hb
    · intro x ha
      rw [lookup_add, ha]
      have hy : truthy (some y) = true := by decide
      cases hb : b.tbl.lookup x <;> simp [hy]

/-- `CONFIG_PANIC_TIMEOUT=0` -/
def panicTimeout : Config := AList.singleton "PANIC_TIMEOUT".toList zero

theorem laws_panicTimeout :
    ¬ Laws ⟨['C', 'O', 'N', 'F', 'I', 'G', '_'], rfl⟩ panicTimeout panicTimeout := by
  intro h
  have := (h.and_iff "PANIC_TIMEOUT".toList zero).2
    ⟨AList.lookup_insert ∅, AList.lookup_insert ∅⟩
  exact absurd (and_eq_some.1 this).2.2 (by decide)

end Lede.Kconfig
