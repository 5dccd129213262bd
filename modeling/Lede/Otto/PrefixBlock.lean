/-
Lede.Otto.PrefixBlock — where the prefix routes are put (`rtl83xx/l3.c`).

The routes of a family fill one block of the prefix table, the longest prefix first: the switch
answers with the lowest row that matches. IPv4 rows run upwards from row 1, IPv6 rows downwards
from the other end, over slots. A route that comes opens a row in its block and one that goes
closes it; the rows that move are moved in the table first and renamed in the list of routes when
that went through. After a move that may have stopped half way nothing is placed any more
(`prefixRowsStale`).

The family is a parameter (`PrefixConfig`, of `struct otto_l3_config`). `E` is what one call of it
is answered by the hardware, and each operation takes the answers to its calls in turn. The list
is the one of the prefix routes: a host route has no row, and every loop here skips it.
-/
import Lede.Otto.EgressIntf
import Lede.Otto.PolicyRules
import Lede.Otto.PrefixRows
import Lede.Otto.RouteRule

namespace Lede.Otto

/-- `FIRST_PREFIX_ROW` -/
def firstPrefix : Int := 1

/-- `V6_MOVE_ROWS` -/
def v6MoveRows : Int := 1

/-- `ETIMEDOUT` -/
def ETIMEDOUT : Int := 145

/-- `struct otto_l3_route` of a prefix route: what its row says, and which row it has. -/
structure PrefixRoute extends PieRoute where
  id : Nat := 0
  tbId : Nat := 0
  row : Int := -1
  rowReserved : Bool := false
deriving DecidableEq, Repr

/-- A route whose row is to be cleared. -/
def PrefixRoute.cleared (r : PrefixRoute) : PrefixRoute := { r with attr.valid := false }

/-- The calls of `struct otto_l3_config` that a family with prefix rows has. -/
structure PrefixConfig (T E : Type) where
  routeWrite : T → Int → PrefixRoute → E → Int × T
  routeRowsMove : T → List PrefixRoute → (dst src count : Int) → E → Int × T
  routeMatches : T → Int → PrefixRoute → E → Int
  routeLookupHw : Option (T → PrefixRoute → E → Int)
  v6SlotToRow : Int → Int
  v6RowToSlot : Int → Int

/-- `struct otto_l3_ctrl`, of the prefix routes. -/
structure PrefixCtrl (T : Type) where
  table : T
  routes : List PrefixRoute := []
  routeUseBm : Nat → Bool := fun id => id = 0
  prefixRowsStale : Bool := false

variable {T E : Type}

/-! ## The list of routes -/

/-- The route with the id of `r` becomes `r`. -/
def putRoute (routes : List PrefixRoute) (r : PrefixRoute) : List PrefixRoute :=
  routes.map fun q => if q.id = r.id then r else q

def PrefixCtrl.put (s : PrefixCtrl T) (r : PrefixRoute) : PrefixCtrl T :=
  { s with routes := putRoute s.routes r }

/-- The routes that `cond` holds of are renamed to other rows. -/
def renameRows (routes : List PrefixRoute) (cond : PrefixRoute → Bool) (f : Int → Int) :
    List PrefixRoute :=
  routes.map fun q => if cond q then { q with row := f q.row } else q

/-- `otto_l3_prefix_rows` -/
def prefixRows (routes : List PrefixRoute) (type : RouteType) (atLeast : Int) : Nat :=
  routes.countP fun q => 0 ≤ q.row && q.attr.type = type && atLeast ≤ q.prefixLen

/-- `otto_l3_rows_stale` -/
def rowsStale (s : PrefixCtrl T) : PrefixCtrl T := { s with prefixRowsStale := true }

/-- The first zero bit of `route_use_bm`. -/
def freeRouteId (useBm : Nat → Bool) : Option Nat :=
  (List.range maxRoutes).find? fun id => !useBm id

/-- `otto_l3_route_alloc` of a prefix route; `new` has what its caller fills in. -/
def prefixRouteAlloc (s : PrefixCtrl T) (new : PrefixRoute) : Option (PrefixRoute × PrefixCtrl T) :=
  match freeRouteId s.routeUseBm with
  | none => none
  | some id =>
    let r := { new with id := id, row := -1, rowReserved := false }
    some (r, { s with
      routes := s.routes ++ [r]
      routeUseBm := Function.update s.routeUseBm id true })

/-- `otto_l3_route_free` -/
def routeFree (s : PrefixCtrl T) (r : PrefixRoute) : PrefixCtrl T :=
  { s with
    routes := s.routes.filter (·.id ≠ r.id)
    routeUseBm := if s.prefixRowsStale then s.routeUseBm
      else Function.update s.routeUseBm r.id false }

section Config

variable (hw : PrefixConfig T E)

/-! ## Opening a row -/

/-- IPv6 slots that are moved one after another, from turn `n` on: what the last move returned, and
its turn. -/
def moveSlots (routes : List PrefixRoute) (dst src : Nat → Int) (io : Nat → E) :
    (left n : Nat) → T → (Int × Nat) × T
  | 0, n, t => ((0, n), t)
  | left + 1, n, t =>
    let (err, t) :=
      hw.routeRowsMove t routes (hw.v6SlotToRow (dst n)) (hw.v6SlotToRow (src n)) v6MoveRows (io n)
    if err ≠ 0 then ((err, n), t) else moveSlots routes dst src io left (n + 1) t

/-- `otto_l3_route_place`, IPv6 -/
def placeV6 (s : PrefixCtrl T) (below rows : Nat) (io : Nat → E) : Int × PrefixCtrl T :=
  let v4Rows := prefixRows s.routes .ip4uc 0
  if hw.v6SlotToRow rows < firstPrefix + v4Rows then (-1, s)
  else
    -- the deepest slot first
    let ((err, n), t) :=
      moveSlots hw s.routes (fun n => rows - 1 - n + 1) (fun n => rows - 1 - n) io below 0 s.table
    let s := { s with table := t }
    if err ≠ 0 then
      (-1, if err = - EIO ∨ (rows - 1 - n : Int) < rows - 1 then rowsStale s else s)
    else
      let row := hw.v6SlotToRow (rows - below)
      (row, { s with
        routes := renameRows s.routes
          (fun q => q.attr.type = .ip6uc && firstPrefix ≤ q.row && q.row ≤ row)
          (fun row => hw.v6SlotToRow (hw.v6RowToSlot row + 1)) })

/-- `otto_l3_route_place`, IPv4 -/
def placeV4 (s : PrefixCtrl T) (type : RouteType) (below rows : Nat) (io : Nat → E) :
    Int × PrefixCtrl T :=
  let v6Rows := prefixRows s.routes .ip6uc 0
  let row := firstPrefix + below
  let last := firstPrefix + rows
  if maxRoutes ≤ last ∨ (v6Rows ≠ 0 ∧ hw.v6SlotToRow (v6Rows - 1) ≤ last) then (-1, s)
  else if row < last then
    let (err, t) := hw.routeRowsMove s.table s.routes (row + 1) row (last - row) (io 0)
    let s := { s with table := t }
    if err ≠ 0 then (-1, if err = - EIO then rowsStale s else s)
    else
      (row, { s with
        routes := renameRows s.routes (fun q => q.attr.type = type && row ≤ q.row) (· + 1) })
  else (row, s)

/-- `otto_l3_route_place`: the row that was opened, or -1. -/
def routePlace (s : PrefixCtrl T) (r : PrefixRoute) (io : Nat → E) : Int × PrefixCtrl T :=
  if s.prefixRowsStale then (-1, s)
  else
    -- the local table is looked up before main
    let below := prefixRows s.routes r.attr.type
      (r.prefixLen + if r.tbId = RT_TABLE_LOCAL then 1 else 0)
    let rows := prefixRows s.routes r.attr.type 0
    if r.attr.type = .ip6uc then placeV6 hw s below rows io
    else placeV4 hw s r.attr.type below rows io

/-! ## Closing a row -/

/-- The end of `otto_l3_route_compact`: the last row holds a copy of the one above it. -/
def clearLast (s : PrefixCtrl T) (r : PrefixRoute) (last : Int) (io : E) : PrefixCtrl T :=
  let (err, t) := hw.routeWrite s.table last r.cleared io
  let s := { s with table := t }.put r.cleared
  if err ≠ 0 then rowsStale s else s

/-- `otto_l3_route_compact`; the first answer is the one to the last write. -/
def routeCompact (s : PrefixCtrl T) (r : PrefixRoute) (io : Nat → E) : PrefixCtrl T :=
  if r.row < firstPrefix ∨ s.prefixRowsStale then s
  else
    let rows := prefixRows s.routes r.attr.type 0
    if r.attr.type = .ip6uc then
      let slot := hw.v6RowToSlot r.row
      if rows - 1 ≤ slot then s
      else
        let ((err, _), t) := moveSlots hw s.routes (fun n => slot + 1 + n - 1)
          (fun n => slot + 1 + n) (fun n => io (n + 1)) (rows - 1 - slot).toNat 0 s.table
        let s := { s with table := t }
        if err ≠ 0 then rowsStale s
        else
          clearLast hw { s with
            routes := renameRows s.routes
              (fun q => q.attr.type = .ip6uc && firstPrefix ≤ q.row && q.row < r.row)
              (fun row => hw.v6SlotToRow (hw.v6RowToSlot row - 1)) }
            r (hw.v6SlotToRow (rows - 1)) (io 0)
    else
      let last := firstPrefix + rows - 1
      if last ≤ r.row then s
      else
        let (err, t) :=
          hw.routeRowsMove s.table s.routes r.row (r.row + 1) (last - r.row) (io 1)
        let s := { s with table := t }
        if err ≠ 0 then rowsStale s
        else
          clearLast hw { s with
            routes := renameRows s.routes
              (fun q => q.attr.type = r.attr.type && r.row < q.row) (· - 1) }
            r last (io 0)

/-! ## Rows of one route -/

/-- `otto_l3_route_matches` -/
def rowMatches (t : T) (row : Int) (r : PrefixRoute) (io : E) : Int :=
  if row < firstPrefix then 0 else hw.routeMatches t row r io

/-- `otto_l3_row_frozen` -/
def rowFrozen (s : PrefixCtrl T) (r : PrefixRoute) (io : E) : Bool :=
  s.prefixRowsStale && firstPrefix ≤ r.row && rowMatches hw s.table r.row r io ≠ 1

/-- The end of `otto_l3_route_install`, for a route that has a row. -/
def writeInstalled (s : PrefixCtrl T) (r : PrefixRoute) (io : E) :
    (Int × PrefixRoute) × PrefixCtrl T :=
  let (err, t) := hw.routeWrite s.table r.row r io
  let s := { s with table := t }
  if err ≠ 0 then ((err, r), s)
  else
    let r := { r with rowReserved := false }
    ((0, r), s.put r)

/-- `otto_l3_route_install` of a prefix route: what it returns, and the route as it leaves it. The
first answer is the one to the write of the row. -/
def routeInstall (s : PrefixCtrl T) (r : PrefixRoute) (io : Nat → E) :
    (Int × PrefixRoute) × PrefixCtrl T :=
  if r.row < 0 then
    let (row, s) := routePlace hw s r (fun n => io (n + 1))
    let r := { r with row := row, rowReserved := firstPrefix ≤ row }
    let s := s.put r
    if row < 0 then ((- ENOSPC, r), s) else writeInstalled hw s r (io 0)
  else writeInstalled hw s r (io 0)

/-- `otto_l3_route_rewrite` of a prefix route -/
def routeRewrite (s : PrefixCtrl T) (r : PrefixRoute) (io : E) : PrefixCtrl T :=
  if firstPrefix ≤ r.row then { s with table := (hw.routeWrite s.table r.row r io).2 } else s

/-- A route says from now on that it traps. -/
def PrefixRoute.trapping (r : PrefixRoute) : PrefixRoute :=
  { r with
    attr.action := ROUTE_ACT_TRAP2CPU
    attr.ttlDec := false
    attr.ttlCheck := false }

/-- `otto_l3_route_trap_sw`, `otto_l3_route_trap_hw` of a prefix route -/
def routeTrap (s : PrefixCtrl T) (r : PrefixRoute) (io : Nat → E) : PrefixCtrl T :=
  if r.attr.action = ROUTE_ACT_TRAP2CPU || rowFrozen hw s r (io 1) then s
  else routeRewrite hw (s.put r.trapping) r.trapping (io 0)

/-- What a gateway's answer makes of a route: `moved` when the MAC is another one than before,
`trap` when the route cannot forward, and the L2 entry and the counter it has now. -/
structure NexthopUpdate where
  moved : Bool := false
  trap : Bool := false
  l2Id : BitVec 16 := 0
  packetCntr : Int := -1

/-- What `otto_l3_route_update_hw` makes of the route before it is installed. -/
def PrefixRoute.updated (r : PrefixRoute) (u : NexthopUpdate) : PrefixRoute :=
  { r with
    nhId := BitVec.ofNat 16 r.id
    l2Id := u.l2Id
    packetCntr := u.packetCntr
    attr.valid := true
    attr.action := if u.trap then ROUTE_ACT_TRAP2CPU else ROUTE_ACT_FORWARD
    attr.hit := false
    attr.ttlDec := !u.trap
    attr.ttlCheck := !u.trap }

/-- `otto_l3_route_update_hw`, what it writes in the prefix table. -/
def routeUpdateHw (s : PrefixCtrl T) (r : PrefixRoute) (u : NexthopUpdate) (io : Nat → E) :
    PrefixCtrl T :=
  if rowFrozen hw s r (io 0) then s
  else
    -- it traps while its next hop moves over
    let leaving := u.moved && r.attr.action = ROUTE_ACT_FORWARD
    let s := if leaving then routeRewrite hw (s.put r.trapping) r.trapping (io 1) else s
    (routeInstall hw (s.put (r.updated u)) (r.updated u) (fun n => io (n + 2))).2

/-! ## Routes that go -/

/-- Where `otto_l3_route_remove` finds the row of a route, and what comparing it said; the answers
are those to the comparison, the lookup and the comparison of what it found. -/
def findRow (s : PrefixCtrl T) (r : PrefixRoute) (io : Nat → E) : Int × Int :=
  let found := rowMatches hw s.table r.row r (io 0)
  let (id, found) :=
    match hw.routeLookupHw with
    | none => (r.row, found)
    | some lookup =>
      if found ≠ 0 then (r.row, found)
      else
        let id := lookup s.table r (io 1)
        (id, if id ≠ -ETIMEDOUT then rowMatches hw s.table id r (io 2) else found)
  if found = 0 ∧ firstPrefix ≤ id then (-1, found) else (id, found)

/-- `otto_l3_route_remove` of a prefix route; the first answer is the one to the write that clears
its row. -/
def routeRemove (s : PrefixCtrl T) (r : PrefixRoute) (io : Nat → E) : PrefixCtrl T :=
  if r.row < firstPrefix then s
  else if r.rowReserved && !s.prefixRowsStale then
    let (err, t) := hw.routeWrite s.table r.row r.cleared (io 0)
    let s := { s with table := t }
    if err ≠ 0 then rowsStale (s.put r.cleared)
    else
      let r := { r.cleared with rowReserved := false }
      routeCompact hw (s.put r) r (fun n => io (n + 1))
  else
    let (id, found) := findRow hw s r (fun n => io (n + 1))
    let s :=
      if 0 < found then { s with table := (hw.routeWrite s.table id r.cleared (io 0)).2 }
      else if id = -ETIMEDOUT ∨ found < 0 then rowsStale s
      else s
    let r := { (if 0 < found then r.cleared else r) with row := id }
    routeCompact hw (s.put r) r (fun n => io (n + 4))

/-- `otto_l3_route_teardown`, of the prefix table and the list -/
def routeTeardown (s : PrefixCtrl T) (r : PrefixRoute) (io : Nat → E) : PrefixCtrl T :=
  routeFree (routeRemove hw s r io) r

/-! ## Routes that come -/

/-- A route that `otto_l3_fib_trap_v4` or `otto_l3_fib_trap_v6` fills in. -/
def PrefixRoute.trapNew (new : PrefixRoute) : PrefixRoute :=
  { new with attr.action := ROUTE_ACT_TRAP2CPU, attr.valid := true }

/-- What is done with a route that was allocated, nothing when no id is left. -/
def withNew (s : PrefixCtrl T) (new : PrefixRoute)
    (f : PrefixRoute → PrefixCtrl T → PrefixCtrl T) : PrefixCtrl T :=
  match prefixRouteAlloc s new.trapNew with
  | none => s
  | some (r, s) => f r s

/-- `otto_l3_fib_trap_v4` of a prefix route -/
def prefixFibTrapV4 (s : PrefixCtrl T) (new : PrefixRoute) (io : Nat → E) : PrefixCtrl T :=
  withNew s new fun r s =>
    let ((err, r), s) := routeInstall hw s r io
    -- a row that was reserved stays in the count until the route is removed
    if err ≠ 0 ∧ r.row < firstPrefix then routeFree s r else s

/-- `otto_l3_fib_add_v4` of a prefix route, from its allocation to `otto_l3_route_trap_new` -/
def prefixFibAddV4 (s : PrefixCtrl T) (new : PrefixRoute) (io : Nat → E) : PrefixCtrl T :=
  withNew s new fun r s => (routeInstall hw s r io).2

/-- What `otto_l3_fib_trap_v6`, `otto_l3_add_catch_all` and `otto_l3_fib_add_v6` do with a route
they allocated: what the write returned, and the route as it is left, without a row when there was
none. The first answer is the one to the write. -/
def placeAndWrite (s : PrefixCtrl T) (r : PrefixRoute) (io : Nat → E) :
    (Int × PrefixRoute) × PrefixCtrl T :=
  let (row, s) := routePlace hw s r (fun n => io (n + 1))
  let r := { r with row := row }
  let s := s.put r
  if row < firstPrefix then ((0, r), s)
  else
    let (err, t) := hw.routeWrite s.table row r (io 0)
    ((err, r), { s with table := t })

/-- `otto_l3_fib_trap_v6`, from the allocation on -/
def prefixFibTrapV6 (s : PrefixCtrl T) (new : PrefixRoute) (io : Nat → E) : PrefixCtrl T :=
  withNew s new fun r s =>
    let ((_, r), s) := placeAndWrite hw s r io
    if r.row < firstPrefix then routeTeardown hw s r io else s

/-- `otto_l3_fib_add_v6`, from the allocation on; a route without a row stays in the list. -/
def prefixFibAddV6 (s : PrefixCtrl T) (new : PrefixRoute) (io : Nat → E) : PrefixCtrl T :=
  withNew s new fun r s => (placeAndWrite hw s r io).2

/-- `otto_l3_add_catch_all`; `down` is what a teardown is answered. -/
def addCatchAll (s : PrefixCtrl T) (type : RouteType) (io down : Nat → E) : PrefixCtrl T :=
  withNew s { attr.type := type } fun r s =>
    let ((err, r), s) := placeAndWrite hw s r io
    if r.row < firstPrefix ∨ err ≠ 0 then routeTeardown hw s r down else s

/-! ## Runs -/

inductive PrefixEvent (E : Type) where
  | trapV4 (new : PrefixRoute) (io : Nat → E)
  | addV4 (new : PrefixRoute) (io : Nat → E)
  | trapV6 (new : PrefixRoute) (io : Nat → E)
  | addV6 (new : PrefixRoute) (io : Nat → E)
  | catchAll (type : RouteType) (io down : Nat → E)
  | updateHw (id : Nat) (u : NexthopUpdate) (io : Nat → E)
  | trap (id : Nat) (io : Nat → E)
  | teardown (id : Nat) (io : Nat → E)

/-- What is done to the route with an id, nothing when there is none. -/
def PrefixCtrl.atRoute (s : PrefixCtrl T) (id : Nat) (f : PrefixRoute → PrefixCtrl T) :
    PrefixCtrl T :=
  match s.routes.find? (·.id = id) with
  | none => s
  | some r => f r

def prefixStep (s : PrefixCtrl T) : PrefixEvent E → PrefixCtrl T
  | .trapV4 new io => prefixFibTrapV4 hw s new io
  | .addV4 new io => prefixFibAddV4 hw s new io
  | .trapV6 new io => prefixFibTrapV6 hw s new io
  | .addV6 new io => prefixFibAddV6 hw s new io
  | .catchAll type io down => addCatchAll hw s type io down
  | .updateHw id u io => s.atRoute id fun r => routeUpdateHw hw s r u io
  | .trap id io => s.atRoute id fun r => routeTrap hw s r io
  | .teardown id io => s.atRoute id fun r => routeTeardown hw s r io

end Config

end Lede.Otto
