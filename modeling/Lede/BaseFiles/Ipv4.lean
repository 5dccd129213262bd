/-
Lede.BaseFiles.Ipv4 — the IPv4 helpers of the shell library
(`package/base-files/files/lib/functions/ipv4.sh`).

Shell variables hold text. A helper takes its argument as text and either
returns 1 (`none`) or exports the text it leaves in the result variable. The
shell computes in 64 bits; `octal` and `wide` are what `$((…))` makes of a
constant that starts with a zero or that needs more than 64 bits, which shells
do not agree on.
-/
import Lede.Lib.Decimal

namespace Lede.BaseFiles

abbrev Text := List Char

/-- The two readings of a digit string that differ between shells. `none` is a
constant the shell refuses. -/
structure Shell where
  octal : Text → Option (BitVec 64)
  wide : Text → BitVec 64

def uint_max : BitVec 64 := 4294967295#64

/-! ## Shell arithmetic -/

/-- The text of `$((x))`. -/
def arithText (x : BitVec 64) : Text :=
  if x.toInt < 0 then '-' :: Nat.toDigits 10 x.toInt.natAbs else Nat.toDigits 10 x.toNat

/-- The value of a variable that holds digits, inside `$((…))`. -/
def constant (sh : Shell) (n : Text) : Option (BitVec 64) :=
  if n.head? = some '0' ∧ 1 < n.length then sh.octal n
  else if Nat.ofDigitChars 10 n 0 < 2 ^ 64 then some (BitVec.ofNat 64 (Nat.ofDigitChars 10 n 0))
  else some (sh.wide n)

/-- `[ n -gt m ]`: an error, which is not true, when `n` does not fit. -/
def testGt (n : Text) (m : Nat) : Bool :=
  let v := Nat.ofDigitChars 10 n 0
  v < 2 ^ 63 && m < v

/-- The value of `$1` when the check returns 0. -/
def assert_uint32 (sh : Shell) (n : Text) : Option (BitVec 64) :=
  if n = [] ∨ n.filter (fun c => !c.isDigit) ≠ [] then none
  else if testGt n uint_max.toNat then none
  else match constant sh n with
    | none => none
    | some v => if arithText (v + 0#64) ≠ n then none else some v

/-- The sums of neighbouring fields of 1, 2, 4, 8 and 16 bits. -/
def bitSums (c : BitVec 64) : BitVec 64 :=
  let c := ((c >>> 1) &&& 0x55555555#64) + (c &&& 0x55555555#64)
  let c := ((c >>> 2) &&& 0x33333333#64) + (c &&& 0x33333333#64)
  let c := ((c >>> 4) &&& 0x0f0f0f0f#64) + (c &&& 0x0f0f0f0f#64)
  let c := ((c >>> 8) &&& 0x00ff00ff#64) + (c &&& 0x00ff00ff#64)
  ((c >>> 16) &&& 0x0000ffff#64) + (c &&& 0x0000ffff#64)

/-- return a count of the number of bits set in $1 -/
def bitcount (sh : Shell) (c : Text) : Option Text := do
  let c ← assert_uint32 sh c
  some (arithText (bitSums c))

/-! ## Dotted quads -/

/-- A bracket expression `[lo-hi]`, or a plain character. -/
def bracket (lo hi c : Char) : Bool := lo.toNat ≤ c.toNat && c.toNat ≤ hi.toNat

/-- The text matches the pattern, character by character. -/
def glob : List (Char → Bool) → Text → Bool
  | [], [] => true
  | p :: ps, c :: cs => p c && glob ps cs
  | _, _ => false

/-- The text matches the pattern followed by `*`. -/
def globStar : List (Char → Bool) → Text → Bool
  | [], _ => true
  | p :: ps, c :: cs => p c && globStar ps cs
  | _ :: _, [] => false

def digit1 : List (Char → Bool) := [bracket '0' '9']

def digit2 : List (Char → Bool) := [bracket '1' '9', bracket '0' '9']

def digit3 : List (List (Char → Bool)) :=
  [[bracket '1' '1', bracket '0' '9', bracket '0' '9'],
   [bracket '2' '2', bracket '0' '4', bracket '0' '9'],
   [bracket '2' '2', bracket '5' '5', bracket '0' '5']]

def dot : List (Char → Bool) := [bracket '.' '.']

/-- One of the first three `case` blocks of `str2ip`: the number and the rest. -/
def octetDot (ip : Text) : Option (Text × Text) :=
  if globStar (digit1 ++ dot) ip then some (ip.take 1, ip.drop 2)
  else if globStar (digit2 ++ dot) ip then some (ip.take 2, ip.drop 3)
  else if digit3.any (fun p => globStar (p ++ dot) ip) then some (ip.take 3, ip.drop 4)
  else none

/-- The last `case` block: nothing may follow the number. -/
def octetEnd (ip : Text) : Option (Text × Text) :=
  if glob digit1 ip then some (ip.take 1, ip.drop 1)
  else if glob digit2 ip then some (ip.take 2, ip.drop 2)
  else if digit3.any (fun p => glob p ip) then some (ip.take 3, ip.drop 3)
  else none

def str2ip (sh : Shell) (ip : Text) : Option Text := do
  let (n, ip) ← octetDot ip
  let val := (← constant sh n) <<< 24
  let (n, ip) ← octetDot ip
  let val := val + ((← constant sh n) <<< 16)
  let (n, ip) ← octetDot ip
  let val := val + ((← constant sh n) <<< 8)
  let (n, ip) ← octetEnd ip
  let val := val + (← constant sh n)
  if ip ≠ [] then none else some (arithText val)

/-- convert back from an integer to dotted-quad. -/
def ip2str (sh : Shell) (n : Text) : Option Text := do
  let n ← assert_uint32 sh n
  some (arithText (n.sshiftRight 24) ++ '.' :: arithText ((n.sshiftRight 16) &&& 255#64) ++
    '.' :: arithText ((n.sshiftRight 8) &&& 255#64) ++ '.' :: arithText (n &&& 255#64))

/-! ## Masks -/

/-- convert prefix into an integer bitmask -/
def prefix2netmask (sh : Shell) (n : Text) : Option Text := do
  let v ← assert_uint32 sh n
  if testGt n 32 then none
  else some (arithText ((~~~(uint_max.sshiftRight v.toNat)) &&& uint_max))

/-- check argument as being contiguous upper bits -/
def is_contiguous (sh : Shell) (x : Text) : Option Text := do
  let x ← assert_uint32 sh x
  let y := ~~~x &&& uint_max
  let z := (y + 1#64) &&& uint_max
  some (if z &&& y = 0#64 then ['1'] else ['0'])

/-- convert mask to prefix, validating that it's a conventional
(contiguous) netmask. -/
def netmask2prefix (sh : Shell) (n : Text) : Option Text := do
  let _ ← assert_uint32 sh n
  let cont ← is_contiguous sh n
  if cont = ['0'] then none else bitcount sh n

end Lede.BaseFiles
