/-
Lede.Map.Mapcalc — `mapcalc.c`: the parameters of a MAP or lw4o6 rule.

A rule is a list of options (`RuleOpt`); what `strtoul` and `inet_pton` make of
their values is part of an option. The delegated prefix is given by the rule or
looked up among the prefixes of the interfaces. From it and the rule come the IPv4
address, the PSID and the IPv6 address (`evalRule`).

Addresses are byte memories. A shift of the IPv4 address by 32 is undefined in C;
it happens with a prefix of 32 bits, where no EA bits are left for the address, and
the value shifted is 0.
-/
import Lede.Lib.BigEndian

namespace Lede.Map

open Lede.Lib

/-! ## Bits in memory -/

/-- `!bmemcmp(a, b, bits)`. -/
def bmemcmpEq (a b : Nat → UInt8) (bits : Nat) : Bool :=
  (List.range (bits / 8)).all (fun i => a i == b i) &&
    (bits % 8 == 0 ||
      (a (bits / 8)).toNat / 2 ^ (8 - bits % 8) == (b (bits / 8)).toNat / 2 ^ (8 - bits % 8))

/-- `bmemcpy`. -/
def bmemcpy (a b : Nat → UInt8) (bits : Nat) : Nat → UInt8 := fun i =>
  if i < bits / 8 then b i
  else if i = bits / 8 ∧ 0 < bits % 8 then
    let mask := UInt8.ofNat (2 ^ (8 - bits % 8) - 1)
    (a i &&& mask) ||| (~~~mask &&& b i)
  else a i

/-- `bmemcpys64`. -/
def bmemcpys64 (a b : Nat → UInt8) (frombits nbits : Nat) : Nat → UInt8 :=
  let frombyte := frombits / 8
  let tobyte := (frombits + nbits) / 8
  let buf : Nat → UInt8 := fun i => if i < tobyte - frombyte + 1 then b (frombyte + i) else 0
  bmemcpy a (beBytes 8 (beNat buf 8 * 2 ^ (frombits % 8) % 2 ^ 64)) nbits

/-! ## Rules -/

/-- An option of a rule. A number is what `strtoul` returns, as an `int`, and `none`
with `errno` set; an address is `none` when `inet_pton` refuses it. -/
inductive RuleOpt where
  | type (lw4o6 : Bool)
  | fmr
  | ealen (v : Option Int)
  | prefix4len (v : Option Int)
  | prefix6len (v : Option Int)
  | ipv6Prefix (v : Option (Nat → UInt8))
  | ipv4Prefix (v : Option (Nat → UInt8))
  | offset (v : Option Int)
  | psidlen (v : Option Int)
  | psid (v : Option Int)
  | pd (v : Option (Nat → UInt8))
  | pdlen (v : Option Int)

/-- The variables the options set. -/
structure Rule where
  lw4o6 : Bool := false
  fmr : Bool := false
  ealen : Int := -1
  prefix4len : Int := 32
  prefix6len : Int := -1
  pdlen : Int := -1
  ipv4Prefix : Nat → UInt8 := fun _ => 0
  ipv6Prefix : Nat → UInt8 := fun _ => 0
  pd : Nat → UInt8 := fun _ => 0
  offset : Int := -1
  psidlen : Int := -1
  psid : Int := -1

/-- `(intval = strtoul(value, NULL, 0)) <= bound && !errno`. -/
def accept (v : Option Int) (bound old : Int) : Int :=
  match v with
  | none => old
  | some n => if n ≤ bound then n else old

/-- One option. -/
def Rule.set (r : Rule) : RuleOpt → Rule
  | .type lw4o6 => { r with lw4o6 := lw4o6 }
  | .fmr => { r with fmr := true }
  | .ealen v => { r with ealen := accept v 48 r.ealen }
  | .prefix4len v => { r with prefix4len := accept v 32 r.prefix4len }
  | .prefix6len v => { r with prefix6len := accept v 128 r.prefix6len }
  | .ipv6Prefix v => { r with ipv6Prefix := v.getD r.ipv6Prefix }
  | .ipv4Prefix v => { r with ipv4Prefix := v.getD r.ipv4Prefix }
  | .offset v => { r with offset := accept v 16 r.offset }
  | .psidlen v => { r with psidlen := accept v 16 r.psidlen }
  | .psid v => { r with psid := accept v 65535 r.psid }
  | .pd v => { r with pd := v.getD r.pd }
  | .pdlen v => { r with pdlen := accept v 128 r.pdlen }

/-- The options of a rule. -/
def parseRule (opts : List RuleOpt) : Rule := opts.foldl Rule.set {}

/-! ## The delegated prefix -/

/-- An interface of the ubus dump, with the addresses and masks of its "ipv6-prefix"
and "ipv6-address" lists. -/
structure Iface where
  name : String
  prefixes : List ((Nat → UInt8) × Int)
  addresses : List ((Nat → UInt8) × Int)

/-- `pdlen` and `pd`. -/
abbrev Delegated := Int × (Nat → UInt8)

/-- One entry of the list `match_prefix` goes through. -/
def matchEntry (r : Rule) (cur : Delegated) (entry : (Nat → UInt8) × Int) : Delegated :=
  let mask := if r.lw4o6 ∧ entry.2 = 128 then 64 else entry.2
  if cur.1 < mask ∧ r.prefix6len ≤ mask ∧ bmemcmpEq entry.1 r.ipv6Prefix r.prefix6len.toNat then
    (mask, bmemcpy cur.2 entry.1 mask.toNat)
  else if r.lw4o6 ∧ cur.1 < r.prefix6len ∧ mask < r.prefix6len ∧
      bmemcmpEq entry.1 r.ipv6Prefix mask.toNat then
    (r.prefix6len, bmemcpy cur.2 r.ipv6Prefix r.prefix6len.toNat)
  else cur

/-- `match_prefix`. -/
def matchPrefix (r : Rule) (cur : Delegated) (entries : List ((Nat → UInt8) × Int)) : Delegated :=
  entries.foldl (matchEntry r) cur

/-- "Find PD", over the interfaces that are left. -/
def findPd (iface : String) (r : Rule) : List Iface → Delegated → Delegated
  | [], cur => cur
  | c :: rest, cur =>
    if iface ≠ "*" ∧ iface ≠ c.name then findPd iface r rest cur
    else
      let cur := matchPrefix r cur c.prefixes
      let cur := if r.lw4o6 then matchPrefix r cur c.addresses else cur
      if 0 ≤ cur.1 then cur else findPd iface r rest cur

/-! ## The result -/

/-- What is printed for a rule. -/
structure Mapped where
  fmr : Bool
  ealen : Int
  psidlen : Int
  offset : Int
  prefix4len : Int
  prefix6len : Int
  pdlen : Int
  pd : Nat → UInt8
  psid : Int
  psid16 : Nat → UInt8
  ipv4addr : Nat → UInt8
  addr4len : Int
  ipv6addr : Nat → UInt8

/-- `psid` and `psid16`: the PSID of the rule or of the delegated prefix, to the left
in the one and to the right in the other. -/
def derivePsid (pd : Delegated) (prefix6len ealen psidlen psid : Int) : Int × (Nat → UInt8) :=
  let (psid, psid16) : Int × (Nat → UInt8) :=
    if psid < 0 ∧ 0 ≤ psidlen ∧ 0 ≤ pd.1 then
      let psid16 := bmemcpys64 (fun _ => 0) pd.2 (prefix6len + ealen - psidlen).toNat psidlen.toNat
      ((beNat psid16 2 : Int), psid16)
    else (psid, fun _ => 0)
  if 0 < psidlen then
    let right := psid / 2 ^ (16 - psidlen).toNat
    (right * 2 ^ (16 - psidlen).toNat, beBytes 2 (right % 2 ^ 16).toNat)
  else (psid, psid16)

/-- `ipv4addr`: EA bits of the delegated prefix, shifted behind the IPv4 prefix. -/
def deriveIpv4 (pd ipv4Prefix : Nat → UInt8) (prefix4len prefix6len eabits : Nat) : Nat → UInt8 :=
  let ea := bmemcpys64 (fun _ => 0) pd prefix6len eabits
  bmemcpy (beBytes 4 (beNat ea 4 / 2 ^ prefix4len)) ipv4Prefix prefix4len

/-- `ipv6addr`. -/
def deriveIpv6 (legacy : Bool) (pd ipv4addr psid16 : Nat → UInt8) (pdlen : Nat) : Nat → UInt8 :=
  let v4offset := if legacy then 9 else 10
  let addr : Nat → UInt8 := fun i =>
    if v4offset ≤ i ∧ i < v4offset + 4 then ipv4addr (i - v4offset)
    else if v4offset + 4 ≤ i ∧ i < v4offset + 6 then psid16 (i - (v4offset + 4))
    else 0
  bmemcpy addr pd pdlen

/-- "LW4over6 doesn't have an EALEN and has no psid-autodetect". -/
def Rule.adjust (r : Rule) : Rule :=
  if r.lw4o6 then
    let psidlen := if r.psidlen < 0 then 0 else r.psidlen
    { r with psidlen := psidlen, ealen := psidlen }
  else r

/-- The loop of `main` for one rule; `none` when it is skipped. -/
def evalRule (legacy : Bool) (iface : String) (dump : List Iface) (r : Rule) : Option Mapped :=
  let offset := if r.offset < 0 then (if r.lw4o6 then 0 else if legacy then 4 else 6) else r.offset
  let r := r.adjust
  let pd : Delegated := if r.pdlen < 0 then findPd iface r dump (r.pdlen, r.pd) else (r.pdlen, r.pd)
  let ealen := if r.ealen < 0 ∧ 0 ≤ pd.1 then pd.1 - r.prefix6len else r.ealen
  let psidlen := if r.psidlen ≤ 0 then max (ealen - (32 - r.prefix4len)) 0 else r.psidlen
  let psid := if r.psidlen ≤ 0 then -1 else r.psid
  if r.prefix4len < 0 ∨ r.prefix6len < 0 ∨ ealen < 0 ∨ 16 < psidlen ∨ ealen < psidlen then none
  else
    let (psid, psid16) := derivePsid pd r.prefix6len ealen psidlen psid
    let derived := 0 ≤ pd.1 ∨ ealen = psidlen
    let ipv4addr :=
      if derived then
        deriveIpv4 pd.2 r.ipv4Prefix r.prefix4len.toNat r.prefix6len.toNat (ealen - psidlen).toNat
      else fun _ => 0
    if pd.1 < 0 ∧ !r.fmr then none
    else
      some {
        fmr := r.fmr
        ealen := ealen
        psidlen := psidlen
        offset := offset
        prefix4len := r.prefix4len
        prefix6len := r.prefix6len
        pdlen := pd.1
        pd := pd.2
        psid := psid
        psid16 := psid16
        ipv4addr := ipv4addr
        addr4len := if derived ∧ r.prefix4len + ealen < 32 then r.prefix4len + ealen else 32
        ipv6addr := if 0 ≤ pd.1 then deriveIpv6 legacy pd.2 ipv4addr psid16 pd.1.toNat else fun _ => 0 }

end Lede.Map
