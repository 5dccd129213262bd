/-
Lede.Metadata.Depends — the dependencies of a package as Kconfig lines
(`mconf_depends` of `scripts/package-metadata.pl`).

`expand` has a bound on the depth of the calls, and no result when that is not enough.
The memos `%$dep` and `%$seen` are passed on from call to call. A reference to the
entries of a package is the list of them.
-/
import Lede.Metadata.Condition

namespace Lede.Metadata

open Lede.Lib

/-! ## Entries -/

/-- `s/^([@\+]+)//`: the flags and what is left. -/
def takeFlags (depend : Text) : Text × Text :=
  (depend.takeWhile fun c => c = '@' || c = '+', depend.dropWhile fun c => c = '@' || c = '+')

/-- What is around the last colon that has something behind it. -/
def lastColon : Text → Option (Text × Text)
  | [] => none
  | c :: cs =>
    match lastColon cs with
    | some (a, b) => some (c :: a, b)
    | none => if c = ':' ∧ cs ≠ [] then some ([], cs) else none

/-- `/^(.+):(.+)$/` -/
def conditional : Text → Option (Text × Text)
  | [] => none
  | c :: cs => (lastColon cs).map fun p => (c :: p.1, p.2)

example : conditional ['a', ':', 'b', ':', 'c'] = some (['a', ':', 'b'], ['c']) := by decide

inductive Mode where
  | select | depends_on
  deriving DecidableEq

/-- `PACKAGE_` and a name. -/
def packageSymbol (name : Text) : Text := ['P', 'A', 'C', 'K', 'A', 'G', 'E', '_'] ++ name

/-- `"$parent_condition:$depend"` -/
def seenKey (parent_condition : Option Text) (depend : Text) : Text :=
  parent_condition.getD [] ++ ':' :: depend

/-- A condition that is selected is left out. -/
def dropSelected (dep : Hash Mode) (depend : Text) : Text :=
  match conditional depend with
  | some (c, d) => if dep.lookup c = some .select then d else depend
  | none => depend

def joinCondition (condition : Option Text) (text : Text) : Text :=
  if truthy condition then condition.getD [] ++ [' ', '&', '&', ' '] ++ text else text

/-- The condition and what depends on it. -/
def splitDepend (pkgname : Text) (condition : Option Text) (depend : Text) : Option Text × Text :=
  match conditional depend with
  | none => (condition, depend)
  | some (c, d) =>
    if c = packageSymbol pkgname then (condition, d) else (some (joinCondition condition c), d)

/-! ## Packages -/

/-- The names of the providers that can be chosen; a default variant goes to the front. -/
def vdeps (t : Tables) (vdep : List Nat) : List Text :=
  vdep.foldl (fun names ref =>
    match t.pkgs[ref]? with
    | none => names
    | some v =>
      if v.buildonly then names
      else if v.variant_default then v.name :: names
      else names ++ [v.name]) []

/-- The provider that is selected, when no other one is. -/
def provider (t : Tables) (pkgname : Text) (condition : Option Text) (depend : Text) :
    Option Text × Text :=
  match t.vpackage.lookup depend with
  | none => (condition, depend)
  | some vdep =>
    let names := vdeps t vdep
    let others := names.tail.map fun name =>
      packageSymbol name ++ '<' :: packageSymbol pkgname
    (if others = [] then condition
      else some (joinCondition condition (['&', '&'].intercalate others)), names.headD [])

/-- What is depended on, as Kconfig has it. -/
def dependSymbol (flags depend : Text) : Text :=
  if '@' ∈ flags then depend else packageSymbol depend

def plainSymbol (t : Tables) (flags depend : Text) : Text :=
  match t.vpackage.lookup depend with
  | some (v :: vdep) =>
    ['|', '|'].intercalate ((v :: vdep).map fun ref =>
      packageSymbol (((t.pkgs[ref]?).map Pkg.name).getD []))
  | _ => dependSymbol flags depend

/-! ## The lines -/

/-- `%$dep` and the keys of `%$seen`. -/
structure Memo where
  dep : Hash Mode
  seen : List Text

/-- A call at work; `t_depends` are the entries and conditions of the calls to come. -/
structure Scan extends Memo where
  t_depends : List (List Text × Option Text)

/-- `$dep->{$depend} =~ /select/ or $dep->{$depend} = $m` -/
def setMode (dep : Hash Mode) (depend : Text) (m : Mode) : Hash Mode :=
  if dep.lookup depend = some .select then dep else dep.insert depend m

/-- The end of the loop body. -/
def addDep (m : Mode) (condition : Option Text) (depend : Text) (dep : Hash Mode) : Hash Mode :=
  if truthy condition then
    let condition := condition.getD []
    let underCondition := depend ++ ([' ', 'i', 'f', ' '] ++ condition)
    match m with
    | .select => if depend = condition then dep else setMode dep underCondition m
    | .depends_on =>
      if (dep.lookup underCondition).isSome then dep
      else if dep.lookup condition = some .select then setMode dep depend m
      else setMode dep ('!' :: '(' :: (condition ++ ([')', ' ', '|', '|', ' '] ++ depend))) m
  else setMode dep depend m

/-- The loop body, for an entry that has not been seen. -/
def addEntry (t : Tables) (pkgname : Text) (only_dep : Bool) (condition : Option Text)
    (flags depend : Text) (s : Scan) : Scan :=
  let (condition, depend) := splitDepend pkgname condition depend
  if '+' ∈ flags then
    let (condition, depend) := provider t pkgname condition depend
    -- what FOO depends on is not checked for `select FOO`
    let s := match t.package.lookup depend with
      | none => s
      | some ref =>
        let depends := ((t.pkgs[ref]?).map Pkg.depends).getD []
        { s with t_depends := s.t_depends ++ [(depends, condition)] }
    if only_dep then s
    else { s with dep := addDep .select condition (dependSymbol flags depend) s.dep }
  else { s with dep := addDep .depends_on condition (plainSymbol t flags depend) s.dep }

def scanEntry (t : Tables) (pkgname : Text) (only_dep : Bool) (parent_condition : Option Text)
    (s : Scan) (entry : Text) : Scan :=
  let (flags, depend) := takeFlags entry
  let depend := dropSelected s.dep depend
  if condition_implies_dep parent_condition depend then s
  else if seenKey parent_condition depend ∈ s.seen then s
  else if seenKey none depend ∈ s.seen then s
  else
    addEntry t pkgname only_dep parent_condition flags depend
      { s with seen := seenKey parent_condition depend :: s.seen }

/-- The loop over the entries. -/
def scan (t : Tables) (pkgname : Text) (only_dep : Bool) (parent_condition : Option Text)
    (memo : Memo) (depends : List Text) : Scan :=
  depends.foldl (scanEntry t pkgname only_dep parent_condition) ⟨memo, []⟩

/-- The calls of `mconf_depends` down to a depth, with the memos that they leave. -/
def expand (t : Tables) (pkgname : Text) :
    Nat → Bool → Option Text → List Text → Memo → Option Memo
  | 0, _, _, _, _ => none
  | depth + 1, only_dep, parent_condition, depends, memo =>
    let s := scan t pkgname only_dep parent_condition memo depends
    s.t_depends.foldlM (fun memo tdep => expand t pkgname depth true tdep.2 tdep.1 memo) s.toMemo

def Mode.text : Mode → Text
  | select => "select".toList
  | depends_on => "depends on".toList

/-- `sort keys %$dep` -/
def lines (dep : Hash Mode) : List (Text × Mode) :=
  (dep.entries.mergeSort fun p q => p.1 ≤ q.1).map fun p => (p.1, p.2)

end Lede.Metadata
