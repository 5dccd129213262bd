/-
Lede.Otto.Fib6 — the IPv6 routes of the FIB and the rows that the driver keeps for them
(`rtl83xx/l3.c`).

A route that the switch cannot carry has a row that traps. One such row stands for all routes of a
destination: it counts the members of the route without a source, and those of each source apart.

The kernel keeps the routes of a destination in nodes, one without a source and one for each source.
A node lists its entries by metric, and an entry the siblings of a multipath route; what becomes
of the first entry is all that is notified. `Res` says what the driver can get hold of in an event.
-/
import Mathlib.Logic.Function.Basic
import Lede.Otto.L3Route

namespace Lede.Otto

/-! ## Routes of the kernel -/

/-- `RTN_UNICAST`, `RTN_LOCAL`, … -/
inductive Fib6Type where
  | unicast
  | loc
  | anycast
  | multicast
  | other
deriving DecidableEq, Repr

/-- `struct rt6key` -/
structure Rt6Key where
  addr : In6Addr
  plen : Nat
deriving DecidableEq, Repr

/-- The table and the destination of a route. -/
structure RouteKey where
  tbId : Nat
  dst : Rt6Key
deriving DecidableEq, Repr

/-- `struct fib6_info`, with the flags and the next hop that the driver looks at; `port` is set when
the device of the next hop is over a port of the switch. -/
structure Fib6Info where
  key : RouteKey
  src : Rt6Key
  type : Fib6Type := .unicast
  nh : Bool := false
  reject : Bool := false
  addrconf : Bool := false
  gwFamily6 : Bool := false
  gw6 : In6Addr
  lws : Bool := false
  port : Bool := false
deriving DecidableEq, Repr

def in6addrAny : In6Addr := ⟨0, 0, 0, 0⟩

/-- `ipv6_addr_any` -/
def In6Addr.isAny (a : In6Addr) : Bool := a == in6addrAny

/-- `ipv6_addr_loopback` -/
def In6Addr.isLoopback (a : In6Addr) : Bool := a == ⟨0, 0, 0, 1⟩

/-- The route is for an address of the switch itself. -/
def Fib6Info.isLocal (rt : Fib6Info) : Bool := rt.type == .loc || rt.type == .anycast

/-! ## Rows -/

/-- `FIRST_PREFIX_ROW` -/
def firstPrefixRow : Nat := 1

/-- `struct otto_l3_route_src` -/
structure RouteSrc where
  key : Rt6Key
  members : Nat
deriving DecidableEq, Repr

/-- `struct otto_l3_route` of an IPv6 route; a row of -1 is none. -/
structure Route6 where
  gwIp : In6Addr
  action : BitVec 8
  row : Option Nat
  members : Nat := 0
  srcs : List RouteSrc := []
  srcsIncomplete : Bool := false
deriving DecidableEq, Repr

/-- The IPv6 part of `routes_list`. A handler adds a route only where it has found none for the
destination, so `otto_l3_route_find` is a lookup. -/
abbrev Routes6 := RouteKey → Option Route6

/-- What the driver can get hold of: an id, a row, a router MAC and an egress interface, memory for
a source; and whether the gateway has answered already, so that the switch forwards. -/
structure Res where
  alloc : Bool := true
  row : Option Nat := some firstPrefixRow
  intf : Bool := true
  mem : Bool := true
  answered : Bool := false

/-- `otto_l3_route_teardown` -/
def teardown (s : Routes6) (key : RouteKey) : Routes6 := Function.update s key none

/-- A change of the route that was found. -/
def setRoute (s : Routes6) (key : RouteKey) (r : Route6) : Routes6 :=
  Function.update s key (some r)

/-- The part of `otto_l3_fib_trap_v6` that adds a row. -/
def newTrap (res : Res) (s : Routes6) (rt : Fib6Info) (members : Nat) : Bool × Routes6 :=
  if !res.alloc then (false, s)
  else
    match res.row with
    | none => (false, s)
    | some row =>
      if row < firstPrefixRow then (false, s)
      else
        (true, setRoute s rt.key
          { gwIp := in6addrAny, action := ROUTE_ACT_TRAP2CPU, row := some row, members := members })

/-- `otto_l3_fib_trap_v6`; the first part is false where it returns an error. -/
def fibTrapV6 (res : Res) (s : Routes6) (rt : Fib6Info) (members : Nat) : Bool × Routes6 :=
  match s rt.key with
  | some route =>
    if route.gwIp.isAny then (true, setRoute s rt.key { route with members := members })
    else newTrap res (teardown s rt.key) rt members
  | none => newTrap res s rt members

/-- `otto_l3_fib_add_v6_local` -/
def fibAddV6Local (res : Res) (s : Routes6) (rt : Fib6Info) : Bool × Routes6 :=
  if rt.nh || rt.key.dst.addr.isLoopback then (true, s) else fibTrapV6 res s rt 1

/-- `otto_l3_fib_del_v6_local` -/
def fibDelV6Local (s : Routes6) (rt : Fib6Info) : Routes6 :=
  match s rt.key with
  | some _ => teardown s rt.key
  | none => s

/-- `otto_l3_route_src_find` -/
def routeSrcFind (r : Route6) (src : Rt6Key) : Option RouteSrc := r.srcs.find? (·.key = src)

/-- `otto_l3_route_has_srcs` -/
def routeHasSrcs (r : Route6) : Bool := !r.srcs.isEmpty || r.srcsIncomplete

/-- The members of a source of a route. -/
def setSrc (r : Route6) (src : Rt6Key) (members : Nat) : Route6 :=
  { r with srcs := r.srcs.map fun s => if s.key = src then { s with members := members } else s }

/-- The end of `otto_l3_fib_add_v6_src`, for the row that traps. -/
def addSrc (res : Res) (s : Routes6) (rt : Fib6Info) (members : Nat) : Bool × Routes6 :=
  match s rt.key with
  | none => (false, s)
  | some route =>
    match routeSrcFind route rt.src with
    | some _ => (true, setRoute s rt.key (setSrc route rt.src members))
    | none =>
      if !res.mem then (false, setRoute s rt.key { route with srcsIncomplete := true })
      else (true, setRoute s rt.key { route with srcs := route.srcs ++ [⟨rt.src, members⟩] })

/-- `otto_l3_fib_add_v6_src` -/
def fibAddV6Src (res : Res) (s : Routes6) (rt : Fib6Info) (members : Nat) : Bool × Routes6 :=
  if rt.key.dst.plen = 0 ∨ rt.type = .multicast then (true, s)
  else
    match s rt.key with
    | some route =>
      if route.gwIp.isAny then addSrc res s rt members
      else
        match fibTrapV6 res (teardown s rt.key) rt 1 with
        | (true, s) => addSrc res s rt members
        | (false, s) => (false, s)
    | none =>
      match fibTrapV6 res s rt 0 with
      | (true, s) => addSrc res s rt members
      | (false, s) => (false, s)

/-- `otto_l3_fib_del_v6_src` -/
def fibDelV6Src (s : Routes6) (rt : Fib6Info) (members : Nat) : Routes6 :=
  match s rt.key with
  | none => s
  | some route =>
    if !route.gwIp.isAny then s
    else
      match routeSrcFind route rt.src with
      | none => s
      | some src =>
        if members < src.members then
          setRoute s rt.key (setSrc route rt.src (src.members - members))
        else
          let route := { route with srcs := route.srcs.erase src }
          if !routeHasSrcs route && route.members == 0 then teardown s rt.key
          else setRoute s rt.key route

/-- `otto_l3_fib_check_v6`; true where it returns 0. -/
def fibCheckV6 (rt : Fib6Info) (members : Nat) : Bool :=
  !rt.nh && !(rt.src.plen ≠ 0 || 1 < members) && !(rt.type ≠ .unicast || rt.reject) &&
    !rt.addrconf && !(rt.key.dst.addr.isAny || rt.key.dst.addr.isLoopback) && rt.gwFamily6 &&
    !rt.lws

/-- The part of `otto_l3_fib_add_v6` after the route that was there is gone. -/
def addPlain (res : Res) (s : Routes6) (rt : Fib6Info) (members : Nat) : Bool × Routes6 :=
  if fibCheckV6 rt members && rt.port then
    if !res.alloc || !res.intf then (false, s)
    else
      (true, setRoute s rt.key
        { gwIp := rt.gw6
          action := if res.answered then ROUTE_ACT_FORWARD else ROUTE_ACT_TRAP2CPU
          row := res.row })
  else if rt.key.dst.plen ≠ 0 ∧ rt.type ≠ .multicast then fibTrapV6 res s rt members
  else (true, s)

/-- `otto_l3_fib_add_v6` -/
def fibAddV6 (res : Res) (s : Routes6) (rt : Fib6Info) (members : Nat) : Bool × Routes6 :=
  if rt.isLocal then fibAddV6Local res s rt
  else if rt.src.plen ≠ 0 then fibAddV6Src res s rt members
  else
    match s rt.key with
    | some route =>
      if routeHasSrcs route then (true, setRoute s rt.key { route with members := members })
      else addPlain res (teardown s rt.key) rt members
    | none => addPlain res s rt members

/-- `otto_l3_fib_del_v6` -/
def fibDelV6 (s : Routes6) (rt : Fib6Info) (members : Nat) : Routes6 :=
  if rt.isLocal then fibDelV6Local s rt
  else if rt.src.plen ≠ 0 then fibDelV6Src s rt members
  else
    match s rt.key with
    | none => s
    | some route =>
      if route.gwIp.isAny then
        if members < route.members then
          setRoute s rt.key { route with members := route.members - members }
        else if routeHasSrcs route then setRoute s rt.key { route with members := 0 }
        else teardown s rt.key
      else if !fibCheckV6 rt members then s
      else if route.gwIp ≠ rt.gw6 then s
      else teardown s rt.key

/-- A gateway that answers or is lost: the switch forwards, or the CPU does. -/
def gatewayUpdate (s : Routes6) (key : RouteKey) (answered : Bool) : Routes6 :=
  match s key with
  | none => s
  | some route =>
    if route.gwIp.isAny then s
    else
      setRoute s key { route with
        action := if answered then ROUTE_ACT_FORWARD else ROUTE_ACT_TRAP2CPU }

/-! ## Events -/

/-- What `otto_l3_fib_notifier` queues; `members` are counted there. -/
inductive Fib6Event where
  /-- `FIB_EVENT_ENTRY_REPLACE`, `FIB_EVENT_ENTRY_APPEND` -/
  | add (rt : Fib6Info) (members : Nat)
  | del (rt : Fib6Info) (members : Nat)
deriving DecidableEq, Repr

/-- `otto_l3_fib6_event_work_do` -/
def fib6EventWork (res : Res) (s : Routes6) : Fib6Event → Routes6
  | .add rt members => (fibAddV6 res s rt members).2
  | .del rt members => fibDelV6 s rt members

/-- A node of the kernel: the entries, the one of the lowest metric first, with their siblings. -/
abbrev Node6 := List (List Fib6Info)

/-- What the kernel does to a node; `x` is the route that an event about it names. -/
inductive NodeOp where
  | insert (i : Nat) (e : List Fib6Info) (x : Fib6Info)
  | replace (i : Nat) (e : List Fib6Info) (x : Fib6Info)
  | append (i : Nat) (xs : List Fib6Info) (x : Fib6Info)
  /-- The siblings but `rest` are deleted. -/
  | delete (i : Nat) (rest : List Fib6Info) (x : Fib6Info)

def NodeOp.apply (n : Node6) : NodeOp → Node6
  | .insert i e _ => n.insertIdx i e
  | .replace i e _ => n.set i e
  | .append i xs _ => n.modify i (· ++ xs)
  | .delete i rest _ => if rest = [] then n.eraseIdx i else n.set i rest

/-- An event names the first entry: one that comes to be the first replaces the one before it, and a
delete counts the siblings that leave. -/
def NodeOp.event : Node6 → NodeOp → Option Fib6Event
  | _, .insert 0 e x => some (.add x e.length)
  | _, .replace 0 e x => some (.add x e.length)
  | e :: _, .append 0 xs x => some (.add x (e.length + xs.length))
  | [e], .delete 0 rest x => some (.del x (e.length - rest.length))
  | e :: next :: _, .delete 0 rest x =>
    if rest = [] then next.head?.map (.add · next.length)
    else some (.del x (e.length - rest.length))
  | _, _ => none

/-- The routes of a destination, without a source and by source. -/
structure Kernel6 where
  plain : Node6
  src : Rt6Key → Node6

/-- The node of a source, or the one without. -/
def Kernel6.node (k : Kernel6) : Option Rt6Key → Node6
  | none => k.plain
  | some src => k.src src

def Kernel6.setNode (k : Kernel6) (n : Node6) : Option Rt6Key → Kernel6
  | none => { k with plain := n }
  | some src => { k with src := Function.update k.src src n }

/-- The kernel holds a route for the destination. -/
def Kernel6.Held (k : Kernel6) : Prop := k.plain ≠ [] ∨ ∃ src, k.src src ≠ []

/-! ## Runs -/

inductive Fib6Act where
  /-- The kernel changes a node of the destination, and the driver does the work of the event. -/
  | fib (node : Option Rt6Key) (op : NodeOp) (res : Res)
  /-- The gateway of a route answers, or is lost. -/
  | neigh (answered : Bool)

def Fib6Act.run (key : RouteKey) : Kernel6 × Routes6 → Fib6Act → Kernel6 × Routes6
  | (k, s), .fib node op res =>
    (k.setNode (op.apply (k.node node)) node,
      match op.event (k.node node) with
      | some ev => fib6EventWork res s ev
      | none => s)
  | (k, s), .neigh answered => (k, gatewayUpdate s key answered)

/-- An entry of a node. Its routes have the destination and the source of the node, a gateway is an
address, and the siblings of a multipath route have gateways; the routes of a source are none of
the addresses of the switch. -/
structure EntryOk (key : RouteKey) (node : Option Rt6Key) (e : List Fib6Info) : Prop where
  ne : e ≠ []
  key : ∀ x ∈ e, x.key = key
  src : ∀ x ∈ e, node.elim (x.src.plen = 0)
    fun src => x.src = src ∧ src.plen ≠ 0 ∧ x.isLocal = false
  gw : ∀ x ∈ e, x.gwFamily6 = true → x.gw6.isAny = false
  sibling : 1 < e.length → ∀ x ∈ e, x.isLocal = false

/-- An operation that the kernel can do. -/
def NodeOp.Valid (key : RouteKey) (node : Option Rt6Key) (n : Node6) : NodeOp → Prop
  | .insert i e x => i ≤ n.length ∧ EntryOk key node e ∧ x ∈ e
  | .replace i e x => i < n.length ∧ EntryOk key node e ∧ x ∈ e
  | .append i xs x => xs ≠ [] ∧ ∃ e, n[i]? = some e ∧ EntryOk key node (e ++ xs) ∧ x ∈ e ++ xs
  | .delete i rest x => ∃ e, n[i]? = some e ∧ rest.Sublist e ∧ rest.length < e.length ∧ x ∈ e

/-- The driver gets hold of everything. -/
def Res.Available (res : Res) : Prop :=
  res.alloc = true ∧ res.intf = true ∧ res.mem = true ∧ ∃ row ≥ firstPrefixRow, res.row = some row

/-- What the kernel and the resources allow. -/
def Fib6Act.Enabled (key : RouteKey) (k : Kernel6) : Fib6Act → Prop
  | .fib node op res => op.Valid key node (k.node node) ∧ res.Available
  | .neigh _ => True

/-- The routes of a destination from the start on, as long as every step meets `P`. -/
inductive Fib6Reach (key : RouteKey) (P : Kernel6 → Fib6Act → Prop) : Kernel6 × Routes6 → Prop where
  | start (s : Routes6) (hs : s key = none) : Fib6Reach key P (⟨[], fun _ => []⟩, s)
  | step {st : Kernel6 × Routes6} (a : Fib6Act) (h : Fib6Reach key P st)
      (he : a.Enabled key st.1) (hp : P st.1 a) : Fib6Reach key P (a.run key st)

end Lede.Otto
