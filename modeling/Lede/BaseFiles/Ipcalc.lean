/-
Lede.BaseFiles.Ipcalc — the subnet calculator
(`package/base-files/files/bin/ipcalc.sh`), an awk script.

An awk number that the bit functions produce is a natural number here; `start`
and `end` are integers, because the limit below the broadcast address can be
`-1`. `substr` with a position before the text and the value of a text in an
expression are not the same in every awk, and the words of the bit functions
have the width of the machine's `long`.
-/
import Lede.BaseFiles.Ipv4

namespace Lede.BaseFiles

/-- What the script takes from its interpreter. -/
structure Awk where
  number : Text → Nat
  substr : Text → Int → Int → Text
  long : Nat

/-! ## The bit functions -/

def lshift (awk : Awk) (v k : Nat) : Nat := (v <<< k) % 2 ^ awk.long

def compl32 (v : Nat) : Nat := v ^^^ 0xffffffff

/-- `bitcount` of the script: the sums of neighbouring fields. -/
def popcount (c : Nat) : Nat :=
  let c := ((c >>> 1) &&& 0x55555555) + (c &&& 0x55555555)
  let c := ((c >>> 2) &&& 0x33333333) + (c &&& 0x33333333)
  let c := ((c >>> 4) &&& 0x0f0f0f0f) + (c &&& 0x0f0f0f0f)
  let c := ((c >>> 8) &&& 0x00ff00ff) + (c &&& 0x00ff00ff)
  ((c >>> 16) &&& 0x0000ffff) + (c &&& 0x0000ffff)

/-- `split(ip,a,"\\.")`; the empty text has no fields. -/
def splitDots (ip : Text) : List Text := if ip = [] then [] else ip.splitOn '.'

def ip2int (awk : Awk) (ip : Text) : Nat :=
  (splitDots ip).foldl (fun ret a => lshift awk ret 8 ||| awk.number a) 0

/-- The loop of `int2ip`: `n` more octets in front of `ret`. -/
def octets : Nat → Nat → Text → Text
  | 0, _, ret => ret
  | n + 1, ip, ret => octets n (ip >>> 8) (Nat.toDigits 10 (ip &&& 255) ++ '.' :: ret)

def int2ip (ip : Nat) : Text := octets 3 (ip >>> 8) (Nat.toDigits 10 (ip &&& 255))

/-! ## The arguments -/

/-- `index(s,c)`: the position counted from 1, or 0. -/
def index (s : Text) (c : Char) : Nat := if c ∈ s then s.idxOf c + 1 else 0

/-- `ARGV[i]`; an element that is not there is the empty text. -/
def arg (argv : List Text) (i : Nat) : Text := argv.getD (i - 1) []

/-- `compl32(2**(32-int(len))-1)`. A length above 32 leaves a number between -1
and 0, of which the bit functions take the integer part. -/
def lenMask (awk : Awk) (len : Text) : Nat := compl32 (2 ^ (32 - awk.number len) - 1)

/-- What the first part of `BEGIN` leaves: the two numbers and `ARGV[3]`,
`ARGV[4]`, which move up when the mask came behind a slash. -/
structure Subnet where
  ipaddr : Nat
  netmask : Nat
  first : Text
  num : Text

def subnet (awk : Awk) (argv : List Text) : Subnet :=
  let slpos := index (arg argv 1) '/'
  if slpos = 0 then
    { ipaddr := ip2int awk (arg argv 1)
      netmask := if index (arg argv 2) '.' = 0 then lenMask awk (arg argv 2)
        else ip2int awk (arg argv 2)
      first := arg argv 3
      num := arg argv 4 }
  else
    { ipaddr := ip2int awk (awk.substr (arg argv 1) 0 (slpos - 1))
      netmask := lenMask awk ((arg argv 1).drop slpos)
      first := arg argv 2
      num := arg argv 3 }

namespace Subnet

def network (s : Subnet) : Nat := s.ipaddr &&& s.netmask

def prefixLen (s : Subnet) : Int := 32 - popcount (compl32 s.netmask)

def broadcast (s : Subnet) : Nat := s.network ||| compl32 s.netmask

end Subnet

/-! ## The DHCP range -/

inductive Range where
  /-- too few arguments: `exit(0)` before the range -/
  | unasked
  /-- "network … too small", `exit(1)` -/
  | tooSmall
  | printed (start last : Int)

/-- `or(network,and(ip2int(ARGV[3]),compl32(netmask)))` -/
def Subnet.offset (awk : Awk) (s : Subnet) : Nat :=
  s.network ||| (ip2int awk s.first &&& compl32 s.netmask)

def Subnet.start (awk : Awk) (s : Subnet) : Int :=
  let start : Int := s.offset awk
  let limit : Int := s.network + 1
  let start := if start < limit then limit else start
  if start = s.ipaddr then (s.ipaddr : Int) + 1 else start

def Subnet.last (awk : Awk) (s : Subnet) : Int :=
  let last := s.start awk + awk.number s.num
  let limit : Int := (s.network ||| compl32 s.netmask : Nat) - 1
  let last := if last > limit then limit else last
  if last = s.ipaddr then (s.ipaddr : Int) - 1 else last

/-- `ARGC` counts the name of the program as well. -/
def range (awk : Awk) (argv : List Text) : Range :=
  let s := subnet awk argv
  if argv.length + 1 ≤ 3 then .unasked
  else if s.start awk > s.last awk then .tooSmall
  else .printed (s.start awk) (s.last awk)

/-- The lines on the standard output and the exit status. -/
def ipcalc (awk : Awk) (argv : List Text) : List Text × Nat :=
  let s := subnet awk argv
  let lines := ["IP=".toList ++ int2ip s.ipaddr, "NETMASK=".toList ++ int2ip s.netmask,
    "BROADCAST=".toList ++ int2ip s.broadcast, "NETWORK=".toList ++ int2ip s.network,
    "PREFIX=".toList ++ (toString s.prefixLen).toList]
  match range awk argv with
  | .unasked => (lines, 0)
  | .tooSmall => (lines, 1)
  | .printed start last =>
    (lines ++ ["START=".toList ++ int2ip start.toNat, "END=".toList ++ int2ip last.toNat], 0)

end Lede.BaseFiles
