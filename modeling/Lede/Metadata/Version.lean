/-
Lede.Metadata.Version — kernel version filters on metadata items
(`version_to_num` and `version_filter_list` of `scripts/package-metadata.pl`).

A number of Perl is an unsigned one of 64 bits where it is shifted; a text of
digits that needs more is read as the largest.
-/
import Lede.Lib.Perl
import Mathlib.Algebra.Group.Nat.Defs

namespace Lede.Metadata

open Lede.Lib

/-- A text of digits, as an operand of `<<` or `|`. -/
def uv (digits : Text) : BitVec 64 :=
  BitVec.ofNat 64 (min (Nat.ofDigitChars 10 digits 0) (2 ^ 64 - 1))

def isNumber (part : Text) : Bool := part ≠ [] && part.all Char.isDigit

/-- `/^\d+(?:\.\d+)+$/`, where `$` looks past the end of a line. -/
def isVersion (str : Text) : Bool :=
  let parts := (if str.getLast? = some '\n' then str.dropLast else str).splitOn '.'
  2 ≤ parts.length && parts.all isNumber

def version_to_num (str : Text) : BitVec 64 :=
  if isVersion str then
    let n := str.splitOn '.' ++ [['0'], ['0'], ['0'], ['0']]
    (uv (n.getD 0 []) <<< 24) ||| (uv (n.getD 1 []) <<< 16) ||| (uv (n.getD 2 []) <<< 8) |||
      uv (n.getD 3 [])
  else 0

inductive Op where
  | lt | le | gt | ge | eq | ne
  deriving DecidableEq

namespace Op

def text : Op → Text
  | lt => ['l', 't']
  | le => ['l', 'e']
  | gt => ['g', 't']
  | ge => ['g', 'e']
  | eq => ['e', 'q']
  | ne => ['n', 'e']

def all : List Op := [lt, le, gt, ge, eq, ne]

def test (op : Op) (cmpver symver : BitVec 64) : Bool :=
  match op with
  | lt => cmpver < symver
  | le => cmpver ≤ symver
  | gt => symver < cmpver
  | ge => symver ≤ cmpver
  | eq => cmpver = symver
  | ne => cmpver ≠ symver

end Op

/-- `(\d+(?:\.\d+)+)\b` at the start of a text, and what follows. A letter right
after the digits leaves the last group out of the match. -/
def takeVersion (r : Text) : Option (Text × Text) :=
  let run := r.takeWhile fun c => c.isDigit || c == '.'
  let parts := run.splitOn '.'
  let groups := parts.takeWhile (· != [])
  let word : Bool := match r.drop run.length with
    | [] => false
    | c :: _ => c.isAlphanum || c == '_'
  let groups := if groups.length = parts.length ∧ word then groups.dropLast else groups
  if groups.length < 2 then none
  else
    let ver := ['.'].intercalate groups
    some (ver, r.drop ver.length)

/-- `(lt|le|gt|ge|eq|ne)(\d+(?:\.\d+)+)\b` at the start of a text. -/
def matchFilter (r : Text) : Option (Op × Text × Text) :=
  match Op.all.find? fun op => op.text.isPrefixOf r with
  | none => none
  | some op => (takeVersion (r.drop 2)).map fun p => (op, p.1, p.2)

/-- `s/@(lt|le|gt|ge|eq|ne)(\d+(?:\.\d+)+)\b//`: the item without the first
filter, and the filter. -/
def stripFilter : Text → Option (Text × Op × Text)
  | [] => none
  | c :: cs =>
    match (if c = '@' then matchFilter cs else none) with
    | some (op, ver, rest) => some (rest, op, ver)
    | none => (stripFilter cs).map fun p => (c :: p.1, p.2)

/-- What becomes of an item. -/
def filterItem (cmpver : BitVec 64) (item : Text) : Option Text :=
  match stripFilter item with
  | none => some item
  | some (item, op, ver) =>
    let symver := version_to_num ver
    if 0 < symver ∧ 0 < cmpver ∧ ¬ op.test cmpver symver then none else some item

def version_filter_list (patchver : Text) (items : List Text) : List Text :=
  items.filterMap (filterItem (version_to_num patchver))

end Lede.Metadata
