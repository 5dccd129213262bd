/-
Lede.Kconfig.Kconfig — the kernel configuration calculator
(`scripts/kconfig.pl`).

A configuration is a hash from symbol to value, where the value `#undef` says
that a file names the symbol as not set. Operators are prefix words on the
command line, their last operands are files.
-/
import Lede.Lib.Perl

namespace Lede.Kconfig

open Lede.Lib

abbrev Config := Hash Text

/-- `$PREFIX`. It stands in regular expressions, so only word characters stand
for themselves. -/
structure Prefix where
  text : Text
  word : text.all (fun c => c.isAlphanum || c == '_') = true

def undef : Text := ['#', 'u', 'n', 'd', 'e', 'f']

def y : Text := ['y']

def n : Text := ['n']

/-! ## Reading -/

def set_config (config : Config) (idx newval : Text) (mod_plus : Bool) : Config :=
  if config.lookup idx = none ∨ mod_plus = false ∨ config.lookup idx = some undef ∨ newval = y then
    config.insert idx newval
  else config

/-- `/^$PREFIX(.+?)=(.+)/` -/
def matchSet (pre : Prefix) (line : Text) : Option (Text × Text) :=
  if pre.text.isPrefixOf line then
    match line.drop pre.text.length with
    | [] => none
    | c :: cs =>
      match cs.dropWhile (· != '=') with
      | _ :: v :: vs => some (c :: cs.takeWhile (· != '='), v :: vs)
      | _ => none
  else none

def notSet : Text := [' ', 'i', 's', ' ', 'n', 'o', 't', ' ', 's', 'e', 't']

/-- The text before the first ` is not set`. -/
def beforeNotSet : Text → Option Text
  | [] => none
  | c :: cs =>
    if notSet.isPrefixOf (c :: cs) then some []
    else (beforeNotSet cs).map (c :: ·)

/-- `/^# $PREFIX(.+?) is not set/` -/
def matchUnset (pre : Prefix) (line : Text) : Option Text :=
  if ('#' :: ' ' :: pre.text).isPrefixOf line then
    match line.drop (pre.text.length + 2) with
    | [] => none
    | c :: cs => (beforeNotSet cs).map (c :: ·)
  else none

/-- One round of the loop of `load_config`. Other lines are comments, or get a
warning. -/
def load_line (pre : Prefix) (mod_plus : Bool) (config : Config) (line : Text) : Config :=
  match matchSet pre line with
  | some (idx, val) => set_config config idx val mod_plus
  | none =>
    match matchUnset pre line with
    | some idx => set_config config idx undef mod_plus
    | none => config

def load_config (pre : Prefix) (file : Text) (mod_plus : Bool) : Config :=
  (fileLines file).foldl (load_line pre mod_plus) ∅

/-! ## Operators -/

def config_and (cfg1 cfg2 : Config) : Config :=
  cfg1.foldl (fun config k val1 =>
    let val2 := cfg2.lookup k
    if truthy val2 ∧ val2 = some val1 then config.insert k val1 else config) ∅

/-- The body of the loop of `config_add`. -/
def add_key (mod_plus : Bool) (config : Config) (k v : Text) : Config :=
  if mod_plus ∧ truthy (config.lookup k) ∧ (config.lookup k = some y ∨ v = undef) then config
  else config.insert k v

def config_add (cfg1 cfg2 : Config) (mod_plus : Bool) : Config :=
  cfg2.foldl (add_key mod_plus) (cfg1.foldl (add_key mod_plus) ∅)

def config_diff (cfg1 cfg2 : Config) (new_only : Bool) : Config :=
  cfg2.foldl (fun config k v =>
    if cfg1.lookup k ≠ some v ∧ ¬ (new_only ∧ cfg1.lookup k = none ∧ v = undef) then
      config.insert k v
    else config) ∅

/-- `regex` is the match of a whole name against an expression. -/
def config_sub (regex : Text → Text → Bool) (cfg1 cfg2 : Config) : Config :=
  let keys := cfg2.keys.flatMap fun expr =>
    if expr.any (fun c => c = '?' || c = '.' || c = '*') then cfg1.keys.filter (regex expr)
    else [expr]
  keys.foldl (fun config k => config.erase k) cfg1

/-! ## Writing -/

/-- The line printed for a symbol, without its end. -/
def print_cfgline (pre : Prefix) (name val : Text) : Text :=
  if val = undef ∨ val = n then '#' :: ' ' :: (pre.text ++ name ++ notSet)
  else pre.text ++ name ++ '=' :: val

def dump_config (pre : Prefix) (cfg : Config) : Text :=
  (cfg.entries.mergeSort fun p q => p.1 ≤ q.1).flatMap fun p =>
    print_cfgline pre p.1 p.2 ++ ['\n']

/-! ## Expressions -/

section Expressions

variable (pre : Prefix) (regex : Text → Text → Bool) (files : Text → Option Text)

/-- `parse_expr` on the arguments from `$pos` on, with what is left of them.
`none` is a `die`; each call reads an argument, so that `fuel` bounds the depth. -/
def parse_expr : Nat → Bool → List Text → Option (Config × List Text)
  | 0, _, _ => none
  | _ + 1, _, [] => none
  | fuel + 1, mod_plus, arg :: args =>
    let operands (op : Config → Config → Config) (flag : Bool) := do
      let (arg1, args) ← parse_expr fuel false args
      let (arg2, args) ← parse_expr fuel flag args
      some (op arg1 arg2, args)
    if ¬ truthy (some arg) then none
    else if arg = ['&'] then operands config_and false
    else if ['+'].isPrefixOf arg then operands (config_add · · false) false
    else if ['m', '+'].isPrefixOf arg then operands (config_add · · true) true
    else if arg = ['>'] then operands (config_diff · · false) false
    else if arg = ['>', '+'] then operands (config_diff · · true) false
    else if arg = ['-'] then operands (config_sub regex) false
    else (files arg).map fun file => (load_config pre file mod_plus, args)

end Expressions
end Lede.Kconfig
