/-
Lede.Otto.L3Route — the route tables of the RTL930x (`rtl83xx/l3.c`).

A host route has five words and a prefix route eleven. An address or a mask in
network order is taken as the number it stands for, which is what the machine
of these switches, a big-endian one, reads.
-/
import Lede.Otto.L2Entry

namespace Lede.Otto

open Lede.Lib.BitField

/-! ## Addresses -/

/-- `struct in6_addr`, as `s6_addr32`. -/
structure In6Addr where
  w0 : BitVec 32
  w1 : BitVec 32
  w2 : BitVec 32
  w3 : BitVec 32
deriving DecidableEq, Repr

/-- The address whose `s6_addr` holds these bytes. -/
def In6Addr.ofBytes (b : Nat → BitVec 8) : In6Addr :=
  ⟨b 0 ++ b 1 ++ b 2 ++ b 3, b 4 ++ b 5 ++ b 6 ++ b 7, b 8 ++ b 9 ++ b 10 ++ b 11,
    b 12 ++ b 13 ++ b 14 ++ b 15⟩

/-- The number of the highest set bit counted from 1, 0 for no bit. -/
def fls (x : BitVec 32) : Nat :=
  match (List.range 32).reverse.find? (fun i => x.getLsbD i) with
  | some i => i + 1
  | none => 0

/-- The number of the lowest clear bit counted from 0. -/
def ffz (x : BitVec 32) : Nat :=
  match (List.range 32).find? (fun i => !x.getLsbD i) with
  | some i => i
  | none => 32

def inetMakeMask (logmask : Nat) : BitVec 32 :=
  if logmask ≠ 0 then ~~~((1#32 <<< (32 - logmask)) - 1) else 0

def inetMaskLen (mask : BitVec 32) : Nat := if mask = 0 then 0 else 32 - ffz (~~~mask)

/-- The loop of `otto_l3_930x_mask6_len` over the words that are left. -/
def mask6LenFrom : Nat → List (BitVec 32) → Nat
  | len, [] => len
  | len, word :: words =>
    if word = 0xffffffff then mask6LenFrom (len + 32) words else len + 32 - fls (~~~word)

def mask6Len (mask : In6Addr) : Nat := mask6LenFrom 0 [mask.w0, mask.w1, mask.w2, mask.w3]

def net6Mask (prefixLen : Nat) : In6Addr :=
  let o := prefixLen >>> 3
  let b := prefixLen &&& 7
  .ofBytes fun k =>
    if k < o then 0xff else if k = o ∧ b ≠ 0 then (0xff00#32 >>> b).setWidth 8 else 0

/-! ## Routes -/

/-- `ROUTE_TYPE_*` -/
inductive RouteType where
  | ip4uc
  | ip4mc
  | ip6uc
  | ip6mc
deriving DecidableEq, Repr

def RouteType.code : RouteType → BitVec 32
  | .ip4uc => 0
  | .ip4mc => 1
  | .ip6uc => 2
  | .ip6mc => 3

def RouteType.ofCode (v : BitVec 32) : RouteType :=
  if v = 0 then .ip4uc else if v = 1 then .ip4mc else if v = 2 then .ip6uc else .ip6mc

def ROUTE_ACT_FORWARD : BitVec 8 := 0
def ROUTE_ACT_TRAP2CPU : BitVec 8 := 1

/-- `struct otto_l3_route_attr` -/
structure RouteAttr where
  valid : Bool := false
  hit : Bool := false
  ttlDec : Bool := false
  ttlCheck : Bool := false
  dstNull : Bool := false
  qosAs : Bool := false
  qosPrio : BitVec 8 := 0
  type : RouteType := .ip4uc
  action : BitVec 8 := 0
deriving DecidableEq, Repr

/-- `struct otto_l3_route`, as far as a row of a route table holds it. -/
structure L3Route where
  dstIp : BitVec 32 := 0
  dstIp6 : In6Addr := ⟨0, 0, 0, 0⟩
  prefixLen : Int := 0
  nhId : BitVec 16 := 0
  attr : RouteAttr := {}
deriving DecidableEq, Repr

/-! ## Host routes -/

/-- The fields of `otto_l3_930x_host_route_decode` after the destination. -/
def hostFields (v : BitVec 32) (rt : L3Route) : L3Route :=
  { rt with
    nhId := (bits v 6 11).setWidth 16
    attr.hit := v.getLsbD 20
    attr.dstNull := v.getLsbD 19
    attr.action := (bits v 17 2).setWidth 8
    attr.ttlDec := v.getLsbD 5
    attr.ttlCheck := v.getLsbD 4
    attr.qosAs := v.getLsbD 3
    attr.qosPrio := (bits v 0 3).setWidth 8 }

/-- `otto_l3_930x_host_route_decode`: whether it is a valid unicast entry, and what was read. -/
def hostRouteDecode (data : Vector (BitVec 32) 5) (rt : L3Route) : Bool × L3Route :=
  let v := data[0]
  let rt := { rt with attr.valid := v.getLsbD 31 }
  if !rt.attr.valid then (false, rt)
  else
    let rt := { rt with attr.type := .ofCode (bits v 29 2) }
    match rt.attr.type with
    | .ip4uc => (true, hostFields v { rt with dstIp := data[4] })
    | .ip6uc => (true, hostFields v { rt with dstIp6 := ⟨data[1], data[2], data[3], data[4]⟩ })
    | .ip4mc => (false, rt)
    | .ip6mc => (false, rt)

/-- The first word of a host row. -/
def hostRouteWord (rt : L3Route) : BitVec 32 :=
  flag 31 rt.attr.valid ||| (rt.attr.type.code &&& low 2) <<< 29 |||
    flag 20 rt.attr.hit ||| flag 19 rt.attr.dstNull |||
    (rt.attr.action.setWidth 32 &&& low 2) <<< 17 ||| (rt.nhId.setWidth 32 &&& low 11) <<< 6 |||
    flag 5 rt.attr.ttlDec ||| flag 4 rt.attr.ttlCheck ||| flag 3 rt.attr.qosAs |||
    rt.attr.qosPrio.setWidth 32 &&& low 3

/-- The words of `otto_l3_930x_host_route_write`; a multicast route has none. -/
def hostRouteWrite (rt : L3Route) : Option (Vector (BitVec 32) 5) :=
  match rt.attr.type with
  | .ip4uc => some #v[hostRouteWord rt, 0, 0, 0, rt.dstIp]
  | .ip6uc =>
    some #v[hostRouteWord rt, rt.dstIp6.w0, rt.dstIp6.w1, rt.dstIp6.w2, rt.dstIp6.w3]
  | .ip4mc => none
  | .ip6mc => none

/-! ## Prefix routes -/

/-- The length of `otto_l3_930x_route_decode`: two flags stand for the ends. -/
def decodeLen (v : BitVec 32) (host : Int) (maskLen : Nat) : Int :=
  if v.getLsbD 21 then host else if v.getLsbD 20 then 0 else maskLen

/-- The fields of `otto_l3_930x_route_decode` after the prefix. -/
def attrFields (v : BitVec 32) (rt : L3Route) : L3Route :=
  { rt with
    nhId := (bits v 7 11).setWidth 16
    attr.hit := v.getLsbD 22
    attr.action := (bits v 18 2).setWidth 8
    attr.ttlDec := v.getLsbD 6
    attr.ttlCheck := v.getLsbD 5
    attr.dstNull := v.getLsbD 4
    attr.qosAs := v.getLsbD 3
    attr.qosPrio := (bits v 0 3).setWidth 8 }

/-- `otto_l3_930x_route_decode` -/
def routeDecode (data : Vector (BitVec 32) 11) (rt : L3Route) : Bool × L3Route :=
  let rt := { rt with attr.valid := data[0].getLsbD 31 }
  if !rt.attr.valid then (false, rt)
  else
    let v := data[10]
    let rt := { rt with attr.type := .ofCode (bits data[0] 29 2), prefixLen := -1 }
    match rt.attr.type with
    | .ip4uc =>
      (true, attrFields v { rt with
        dstIp := data[4]
        prefixLen := decodeLen v 32 (inetMaskLen data[9]) })
    | .ip6uc =>
      (true, attrFields v { rt with
        dstIp6 := ⟨data[1], data[2], data[3], data[4]⟩
        prefixLen := decodeLen v 128 (mask6Len ⟨data[6], data[7], data[8], data[9]⟩) })
    | .ip4mc => (false, rt)
    | .ip6mc => (false, rt)

/-- The first word of a prefix row. -/
def typeWord (rt : L3Route) : BitVec 32 :=
  flag 31 rt.attr.valid ||| (rt.attr.type.code &&& low 2) <<< 29

/-- The last word of a prefix row, in which a flag marks a prefix of length `host`. -/
def attrWord (rt : L3Route) (host : Int) : BitVec 32 :=
  flag 22 rt.attr.hit ||| (rt.attr.action.setWidth 32 &&& low 2) <<< 18 |||
    (rt.nhId.setWidth 32 &&& low 11) <<< 7 ||| flag 6 rt.attr.ttlDec |||
    flag 5 rt.attr.ttlCheck ||| flag 4 rt.attr.dstNull ||| flag 3 rt.attr.qosAs |||
    rt.attr.qosPrio.setWidth 32 &&& low 3 ||| flag 20 (rt.prefixLen = 0) |||
    flag 21 (rt.prefixLen = host)

/-- The words of `otto_l3_930x_route_write`. -/
def routeWrite (rt : L3Route) : Option (Vector (BitVec 32) 11) :=
  let d5 := 3#32 <<< 29
  match rt.attr.type with
  | .ip4uc => some #v[typeWord rt, 0, 0, 0, rt.dstIp, d5, 0, 0, 0, inetMakeMask rt.prefixLen.toNat,
      attrWord rt 32]
  | .ip6uc =>
    let m := net6Mask rt.prefixLen.toNat
    some #v[typeWord rt, rt.dstIp6.w0, rt.dstIp6.w1, rt.dstIp6.w2, rt.dstIp6.w3, d5,
      m.w0, m.w1, m.w2, m.w3, attrWord rt 128]
  | .ip4mc => none
  | .ip6mc => none

/-- `otto_l3_930x_route_matches`; `entry` is what its entry holds before it is
filled, and a row that cannot be read is the error. -/
def routeMatches (data : Except Int (Vector (BitVec 32) 11)) (rt entry : L3Route) : Int :=
  match data with
  | .error err => err
  | .ok data =>
    let (unicast, entry) := routeDecode data entry
    if !unicast || entry.attr.type ≠ rt.attr.type || entry.prefixLen ≠ rt.prefixLen ||
        entry.nhId ≠ rt.nhId then 0
    else if rt.attr.type = .ip6uc then if entry.dstIp6 = rt.dstIp6 then 1 else 0
    else if entry.dstIp = rt.dstIp then 1 else 0

end Lede.Otto
