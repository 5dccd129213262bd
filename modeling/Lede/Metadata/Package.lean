/-
Lede.Metadata.Package — the parser of the package metadata
(`scripts/metadata.pm`).

The tables are hashes of references to source and package records; a reference
is the record's place in `srcs` or `pkgs`, and clearing the tables drops the
records with the last references to them. A file is the list of its lines with
their ends. Warnings are not modelled.
-/
import Lede.Lib.Perl

namespace Lede.Metadata

open Lede.Lib

/-! ## Regular expressions -/

/-- `\s` -/
def isSpace (c : Char) : Bool := c = ' ' || (9 ≤ c.toNat && c.toNat ≤ 13)

/-- `\d` -/
def isDigit (c : Char) : Bool := c.isDigit

/-- `\w` -/
def isWord (c : Char) : Bool := c.isAlphanum || c = '_'

def chomp (l : Text) : Text := if l.getLast? = some '\n' then l.dropLast else l

/-- The text after `^key`. -/
def after (key : String) (line : Text) : Option Text :=
  if key.toList.isPrefixOf line then some (line.drop key.toList.length) else none

def trimRight (r : Text) : Text := (r.reverse.dropWhile isSpace).reverse

/-- `\s*(.+)\s*$`; of blanks alone the last one is captured. -/
def greedy (r : Text) : Option Text :=
  match r.dropWhile isSpace with
  | [] => r.getLast?.map fun c => [c]
  | t => some t

/-- `\s*(.+?)\s*$` -/
def shortest (r : Text) : Option Text := (greedy r).map fun t =>
  match trimRight t with
  | [] => t
  | t => t

def hasInfix (p : Text) : Text → Bool
  | [] => p = []
  | c :: cs => p.isPrefixOf (c :: cs) || hasInfix p cs

/-- `((?:.+\/)?([^\/]+))` -/
def lastPart (p : Text) : Option Text :=
  let name := (p.reverse.takeWhile (· != '/')).reverse
  if name = [] ∨ p = '/' :: name then none else some name

/-- `((?:package\/)?((?:.+\/)?([^\/]+))\/Makefile)\s*$` -/
def makefileOf (t : Text) : Option (Text × Text × Text) :=
  let t := trimRight t
  if "/Makefile".toList.isSuffixOf t then
    let p := t.take (t.length - "/Makefile".toList.length)
    let stripped := p.drop "package/".toList.length
    match (if "package/".toList.isPrefixOf p then lastPart stripped else none) with
    | some name => some (t, stripped, name)
    | none => (lastPart p).map fun name => (t, p, name)
  else none

/-- `/^Source-Makefile: \s*(…)\s*$/`: where all blanks taken by `\s*` leave no
match, it gives back the last one. -/
def sourceMakefile (line : Text) : Option (Text × Text × Text) := do
  let r ← after "Source-Makefile: " line
  let blanks := r.takeWhile isSpace
  match makefileOf (r.dropWhile isSpace) with
  | some m => some m
  | none => do makefileOf ((← blanks.getLast?) :: r.dropWhile isSpace)

/-- `split` at runs of characters: a first empty field stays, last ones go. -/
def splitRuns (sep : Char → Bool) (r : Text) : List Text :=
  let rec go (cur : Text) : Text → List Text
    | [] => [cur.reverse]
    | [c] => if sep c then [cur.reverse, []] else [(c :: cur).reverse]
    | c :: d :: cs =>
      if sep c then if sep d then go cur (d :: cs) else cur.reverse :: go [] (d :: cs)
      else go (c :: cur) (d :: cs)
  ((go [] r).reverse.dropWhile (· = [])).reverse

/-- `split /\s+/` -/
def words (r : Text) : List Text := splitRuns isSpace r

/-- `split` at one character, at most `limit` fields. -/
def splitLimit (sep : Char) : Nat → Text → List Text
  | 0, r => [r]
  | limit + 1, r =>
    match r.dropWhile (· != sep) with
    | [] => [r]
    | _ :: rest => r.takeWhile (· != sep) :: splitLimit sep limit rest

/-- `split /,/`: last empty fields go. -/
def splitAll (sep : Char) (r : Text) : List Text :=
  ((splitLimit sep r.length r).reverse.dropWhile (· = [])).reverse

/-- `split /, /` -/
def splitNames : Text → Text → List Text
  | cur, [] => [cur.reverse]
  | cur, [c] => [(c :: cur).reverse]
  | cur, c :: d :: cs =>
    if c = ',' ∧ d = ' ' then cur.reverse :: splitNames [] cs else splitNames (c :: cur) (d :: cs)

/-! ## Users and groups -/

inductive Kind where
  | user | group
  deriving DecidableEq

/-- An entry of `%usernames` or `%groupnames`; `-1` stands for no id. -/
structure Named where
  id : Int
  makefile : Option Text

/-- An entry of `%userids` or `%groupids`. -/
structure Taken where
  name : Text
  makefile : Option Text

/-- `%usernames` and `%groupnames`, `%userids` and `%groupids`. -/
structure Accounts where
  names : Kind → Hash Named
  ids : Kind → Hash Taken

/-- `[a-z_][a-z0-9_-]*\$?` -/
def isName : Text → Bool
  | [] => false
  | c :: cs =>
    let rest := cs.dropWhile fun d => d.isLower || d.isDigit || d = '_' || d = '-'
    (c.isLower || c = '_') && (rest = [] || rest = ['$'])

/-- The name and the digits of the id, if there is one. -/
def parseSpec (spec : Text) : Option (Text × Option Text) :=
  let name := spec.takeWhile (· != '=')
  if isName spec then some (spec, none)
  else match spec.dropWhile (· != '=') with
    | _ :: d :: ds =>
      if isName name ∧ (d :: ds).all isDigit then some (name, some (d :: ds)) else none
    | _ => none

/-- `/^[1-9]\d*$/`, of digits -/
def isPositive (digits : Text) : Bool := digits.head? != some '0'

/-- `$id` as a number -/
def idValue : Option Text → Int
  | none => -1
  | some digits => Nat.ofDigitChars 10 digits 0

/-- The part about `$ids`: whether it lets the name through, and the ids then. -/
def takeId (makefile : Option Text) (ids : Hash Taken) (name : Text) (id : Option Text) :
    Bool × Hash Taken :=
  match id with
  | none => (true, ids)
  | some digits =>
    if isPositive digits then
      if 65536 ≤ idValue id then (false, ids)
      else match ids.lookup digits with
        | none => (true, ids.insert digits ⟨name, makefile⟩)
        | some taken => (taken.name = name, ids)
    else (false, ids)

/-- The part about `$names`. -/
def takeName (makefile : Option Text) (names : Hash Named) (name : Text) (id : Option Text) :
    Bool × Hash Named :=
  match names.lookup name with
  | none => (true, names.insert name ⟨idValue id, makefile⟩)
  | some named => (named.id = idValue id, names)

def parse_package_metadata_usergroup (makefile : Option Text) (spec : Text) (names : Hash Named)
    (ids : Hash Taken) : Bool × Hash Named × Hash Taken :=
  match parseSpec spec with
  | none => (false, names, ids)
  | some (name, id) =>
    match takeId makefile ids name id with
    | (false, ids) => (false, names, ids)
    | (true, ids) =>
      match takeName makefile names name id with
      | (ok, names) => (ok, names, ids)

/-- A call of `parse_package_metadata_usergroup`. -/
structure Call where
  kind : Kind
  makefile : Option Text
  spec : Text

def Call.check (c : Call) (acc : Accounts) : Bool × Accounts :=
  match parse_package_metadata_usergroup c.makefile c.spec (acc.names c.kind) (acc.ids c.kind) with
  | (ok, names, ids) =>
    (ok, ⟨Function.update acc.names c.kind names, Function.update acc.ids c.kind ids⟩)

/-- The calls of a list, up to the first that fails. -/
def checkAll : List Call → Accounts → Bool × Accounts
  | [], acc => (true, acc)
  | c :: cs, acc =>
    match c.check acc with
    | (false, acc) => (false, acc)
    | (true, acc) => checkAll cs acc

/-! ## Records -/

structure Src where
  makefile : Option Text
  path : Option Text
  name : Option Text
  ignore : Bool
  packages : List Nat
  buildtypes : List Text
  builddepends : List Text
  builddependsOf : Hash (List Text)

/-- What a record reached through an undefined reference starts as. -/
def Src.empty : Src := ⟨none, none, none, false, [], [], [], ∅⟩

structure Pkg where
  src : Nat
  name : Text
  title : Text
  depends : List Text
  mdepends : List Text
  provides : List Text
  tristate : Bool
  override : Option Text
  conflicts : List Text := []
  version : Option Text := none
  menu : Option Text := none
  submenu : Option Text := none
  submenudep : Option Text := none
  source : Option Text := none
  license : Option Text := none
  licensefiles : Option Text := none
  default : Option Text := none
  hidden : Bool := false
  variant : Option Text := none
  variant_default : Bool := false
  buildonly : Bool := false
  repository : Option Text := none
  category : Option Text := none
  description : Option Text := none
  type : List Text := []
  config : Option Text := none
  prereq : Bool := false
  maintainer : List Text := []

/-- The global tables but those of users and groups, with the records they
refer to. -/
structure Tables where
  srcs : List Src
  pkgs : List Pkg
  package : Hash Nat
  vpackage : Hash (List Nat)
  srcpackage : Hash Nat
  category : Hash (Hash (List Nat))
  overrides : Hash Nat

def Tables.empty : Tables := ⟨[], [], ∅, ∅, ∅, ∅, ∅⟩

/-- The tables and the locals of `parse_package_metadata`. -/
structure Parser where
  tables : Tables
  src : Option Nat
  pkg : Option Nat
  override : Option Text

def Tables.setSrc (t : Tables) (ref : Nat) (f : Src → Src) : Tables :=
  { t with srcs := t.srcs.modify ref f }

def Tables.setPkg (t : Tables) (ref : Nat) (f : Pkg → Pkg) : Tables :=
  { t with pkgs := t.pkgs.modify ref f }

def Tables.srcAt (t : Tables) (ref : Nat) : Src := t.srcs.getD ref .empty

/-- A list in a hash that is created when it is first used. -/
def autoList (h : Hash (List Nat)) (k : Text) : List Nat := (h.lookup k).getD []

/-! ## Lines -/

/-- The lines up to the one that starts with `@@`, each after the prefix, and
how many lines were read. -/
def get_multiline (pre : Text) : List Text → Text × Nat
  | [] => ([], 0)
  | l :: ls =>
    if ['@', '@'].isPrefixOf l then ([], 1)
    else
      let (str, n) := get_multiline pre ls
      ((if truthy (some l) then pre ++ l else l) ++ str, n + 1)

/-- `return $str ? $str : ""` -/
def multiline (pre : Text) (ls : List Text) : Text × Nat :=
  let (str, n) := get_multiline pre ls
  (if truthy (some str) then str else [], n)

/-- The fields of a package that keep the captured text. -/
def textFields : List (String × (Text → Pkg → Pkg)) :=
  [("Version: ", fun v p => { p with version := some v }),
   ("Title: ", fun v p => { p with title := v }),
   ("Menu: ", fun v p => { p with menu := some v }),
   ("Submenu: ", fun v p => { p with submenu := some v }),
   ("Submenu-Depends: ", fun v p => { p with submenudep := some v }),
   ("Source: ", fun v p => { p with source := some v }),
   ("License: ", fun v p => { p with license := some v }),
   ("LicenseFiles: ", fun v p => { p with licensefiles := some v }),
   ("Default: ", fun v p => { p with default := some v }),
   ("Menu-Depends: ", fun v p => { p with mdepends := words v }),
   ("Depends: ", fun v p => { p with depends := words v }),
   ("Conflicts: ", fun v p => { p with conflicts := words v }),
   ("Hidden: ", fun _ p => { p with hidden := true }),
   ("Build-Only: ", fun _ p => { p with buildonly := true }),
   ("Type: ", fun v p => { p with
      type := words v
      tristate := (words v).any (hasInfix "ipkg".toList) }),
   ("Maintainer: ", fun v p => { p with
      maintainer := ((splitNames [] v).reverse.dropWhile (· = [])).reverse })]

def setTextField (line : Text) (p : Pkg) : Pkg :=
  textFields.foldl (fun p field =>
    match after field.1 line >>= greedy with
    | some v => field.2 v p
    | none => p) p

/-- The specs of one word of `Require-User:`. -/
def userCalls (makefile : Option Text) (ugspec : Text) : List Call :=
  let field (i : Nat) := (splitLimit ':' 2 ugspec)[i]?
  let one (kind : Kind) (i : Nat) :=
    if truthy (field i) then [Call.mk kind makefile ((field i).getD [])] else []
  one .user 0 ++ one .group 1 ++
    if truthy (field 2) then
      (splitAll ',' ((field 2).getD [])).map fun g => Call.mk .group makefile g
    else []

/-- `Source-Makefile:` and `Override:`, which need no record. -/
def headLine (ignore : List Text) (s : Parser) (line : Text) : Parser :=
  let s := match sourceMakefile line with
    | none => s
    | some (makefile, path, name) =>
      let ref := s.tables.srcs.length
      { tables := { s.tables with
          srcs := s.tables.srcs ++ [⟨some makefile, some path, some name, ignore.contains name,
            [], [], [], ∅⟩]
          srcpackage := s.tables.srcpackage.insert name ref }
        src := some ref
        pkg := none
        override := some [] }
  match after "Override: " line >>= shortest with
  | none => s
  | some override =>
    -- `$src->{name}` makes a record where there is none
    let (tables, ref) := match s.src with
      | some ref => (s.tables, ref)
      | none => ({ s.tables with srcs := s.tables.srcs ++ [Src.empty] }, s.tables.srcs.length)
    { s with
      tables := { tables with
        overrides := tables.overrides.insert ((tables.srcAt ref).name.getD []) 1 }
      src := some ref
      override := some override }

/-- `Package:` and the fields of the source, for a source `ref`. -/
def srcLine (s : Parser) (ref : Nat) (line : Text) : Parser :=
  let s := match after "Package:" line >>= shortest with
    | none => s
    | some name =>
      let pkg := s.tables.pkgs.length
      let tables := s.tables.setSrc ref fun src => { src with packages := src.packages ++ [pkg] }
      { s with
        tables := { tables with
          pkgs := tables.pkgs ++ [{
            src := ref, name := name, title := [], depends := [], mdepends := []
            provides := [name], tristate := true, override := s.override }]
          package := tables.package.insert name pkg
          vpackage := tables.vpackage.insert name (pkg :: autoList tables.vpackage name) }
        pkg := some pkg }
  let set (f : Src → Src) := { s with tables := s.tables.setSrc ref f }
  match after "Build-Depends: " line >>= greedy with
  | some v => set fun src => { src with builddepends := words v }
  | none =>
  match after "Build-Types:" line >>= greedy with
  | some v => set fun src => { src with buildtypes := words v }
  | none =>
  match after "Build-Depends/" line with
  | none => s
  | some r =>
    let variant := r.takeWhile isWord
    match after ": " (r.dropWhile isWord) >>= greedy with
    | some v =>
      if variant = [] then s
      else set fun src => { src with builddependsOf := src.builddependsOf.insert variant (words v) }
    | none => s

/-- The fields of a package `pkg` of source `ref`; with the lines read and the
calls that `Require-User:` makes. -/
def pkgLine (s : Parser) (ref pkg : Nat) (line : Text) (ls : List Text) :
    Parser × Nat × List Call :=
  let t := s.tables.setPkg pkg (setTextField line)
  let s := { s with tables := t }
  let set (f : Pkg → Pkg) : Parser := { s with tables := t.setPkg pkg f }
  let name := ((t.pkgs[pkg]?).map Pkg.name).getD []
  match after "Provides: " line >>= greedy with
  | some v =>
    let vpkgs := (words v).map fun w => if w.head? = some '@' then w.tail else w
    let vpackage := (vpkgs.filter (· ≠ name)).foldl (fun h vpkg =>
      h.insert vpkg (autoList h vpkg ++ [pkg])) t.vpackage
    ({ s with tables := { t.setPkg pkg fun p => { p with provides := name :: vpkgs } with
        vpackage := vpackage } }, 0, [])
  | none =>
  match after "Build-Variant: " line with
  | some r =>
    let variant := (r.dropWhile isSpace).takeWhile fun c => isWord c || c = '-'
    (if variant = [] then s else set fun p => { p with variant := some variant }, 0, [])
  | none =>
  match after "Default-Variant: " line with
  | some _ => (set fun p => { p with variant_default := true }, 0, [])
  | none =>
  match after "Prereq-Check:" line with
  | some _ => (set fun p => { p with prereq := true }, 0, [])
  | none =>
  match after "Repository:" line >>= shortest with
  | some v => (set fun p => { p with repository := some v }, 0, [])
  | none =>
  match after "Category: " line >>= greedy with
  | some v =>
    let sources := (t.category.lookup v).getD ∅
    let source := (t.srcAt ref).name.getD []
    ({ s with tables := { t.setPkg pkg fun p => { p with category := some v } with
        category := t.category.insert v
          (sources.insert source (autoList sources source ++ [pkg])) } }, 0, [])
  | none =>
  match after "Description: " line with
  | some r =>
    let (str, n) := multiline ['\t', '\t', ' '] ls
    (set fun p => { p with
      description := some (['\t', '\t', ' '] ++ r.dropWhile isSpace ++ '\n' :: str) }, n, [])
  | none =>
  match after "Config:" line with
  | some r =>
    let (str, n) := multiline ['\t'] ls
    (set fun p => { p with config := some (r.dropWhile isSpace ++ '\n' :: str) }, n, [])
  | none =>
  match after "Require-User:" line with
  | some r => (s, 0, (words (trimRight (r.dropWhile isSpace))).flatMap
      (userCalls (t.srcAt ref).makefile))
  | none => (s, 0, [])

/-- What a line does, but for the calls it makes; with the number of lines that
it reads after it. -/
def parse_line (ignore : List Text) (s : Parser) (line : Text) (ls : List Text) :
    Parser × Nat × List Call :=
  let s := headLine ignore s line
  match s.src with
  | none => (s, 0, [])
  | some ref =>
    let s := srcLine s ref line
    match s.pkg with
    | none => (s, 0, [])
    | some pkg => pkgLine s ref pkg line ls

/-- The loop of `parse_package_metadata`; `skip` lines were read by a field of
several lines. -/
def parse_lines (ignore : List Text) : Nat → Parser → Accounts → List Text →
    Bool × Parser × Accounts
  | _, s, acc, [] => (true, s, acc)
  | skip + 1, s, acc, _ :: ls => parse_lines ignore skip s acc ls
  | 0, s, acc, l :: ls =>
    let (s, skip, calls) := parse_line ignore s (chomp l) ls
    match checkAll calls acc with
    | (false, acc) => (false, s, acc)
    | (true, acc) => parse_lines ignore skip s acc ls

/-! ## The global state -/

structure Globals where
  tables : Tables
  accounts : Accounts

def Globals.empty : Globals := ⟨.empty, ⟨fun _ => ∅, fun _ => ∅⟩⟩

def clear_packages (g : Globals) : Globals :=
  ⟨.empty, { g.accounts with names := fun _ => ∅ }⟩

/-- The returned value and the state after it. -/
def parse_package_metadata (ignore : List Text) (g : Globals) (file : List Text) : Bool × Globals :=
  match parse_lines ignore 0 ⟨g.tables, none, none, none⟩ g.accounts file with
  | (ok, s, acc) => (ok, ⟨s.tables, acc⟩)

end Lede.Metadata
