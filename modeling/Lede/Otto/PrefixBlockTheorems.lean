/-
Lede.Otto.PrefixBlockTheorems — the blocks of prefix routes.

What a family has to do with its rows is `PrefixConfig.Lawful`, against what a cell of its table
is (`RowSem`). The blocks are lists of ids, in the order of their positions: a route that is placed
enters the list of its family (`Layout.opens`), one that goes leaves it (`Layout.closes`), and the
rows that the list of routes names are those of the positions. `Contents` is about the table.
-/
import Lede.Lib.Positions
import Lede.Otto.L3RouteTheorems
import Lede.Otto.PrefixBlock

namespace Lede.Otto

open Lede.Lib.Positions

variable {T E C D : Type}

/-! ## Families -/

/-- The values of a route fit its row. -/
structure PieRoute.RowFits (rt : PieRoute) : Prop where
  unicast : rt.Unicast
  len : rt.LenFits
  l2Id : rt.l2Id.toNat < 2 ^ 14

theorem PieRoute.RowFits.cleared {r : PrefixRoute} (h : r.RowFits) : r.cleared.RowFits :=
  ⟨⟨h.unicast.unicast, h.unicast.nhId, h.unicast.action, h.unicast.qosPrio⟩, h.len, h.l2Id⟩

/-- What the cells of a family's table stand for; `Ok` says that a write is answered without a
failure. -/
structure RowSem (T E C D : Type) where
  cell : T → Int → C
  Holds : C → PieRoute → Prop
  Invalid : C → Prop
  Answers : C → D → Prop
  Covers : PieRoute → D → Prop
  Ok : E → Prop

/-- The routes of a list have rows of their own. -/
def RowsDistinct (routes : List PrefixRoute) : Prop :=
  ∀ q ∈ routes, ∀ q' ∈ routes, 0 ≤ q.row → q.row = q'.row → q = q'

/-- The routes that were in the rows `src` are in the rows `dst`, and no other row changed. -/
structure Copied (sem : RowSem T E C D) (routes : List PrefixRoute) (t t' : T) (I : Nat → Prop)
    (dst src : Nat → Int) : Prop where
  held : ∀ k, I k → ∀ q ∈ routes, q.row = src k → sem.Holds (sem.cell t (src k)) q.toPieRoute →
    sem.Holds (sem.cell t' (dst k)) q.toPieRoute
  kept : ∀ row, (∀ k, I k → dst k ≠ row) → sem.cell t' row = sem.cell t row

def InTable (row : Int) : Prop := firstPrefix ≤ row ∧ row < maxRoutes

/-- `count` rows from `row` on. -/
def Span (row count : Int) : Prop := 0 ≤ row ∧ 0 ≤ count ∧ row + count ≤ maxRoutes

structure PrefixConfig.Lawful (hw : PrefixConfig T E) (sem : RowSem T E C D) : Prop where
  write_ok : ∀ {t t' row r e}, InTable row → r.RowFits → hw.routeWrite t row r e = (0, t') →
    if r.attr.valid then sem.Holds (sem.cell t' row) r.toPieRoute
    else sem.Invalid (sem.cell t' row)
  write_kept : ∀ {t t' err row r e row'}, InTable row → hw.routeWrite t row r e = (err, t') →
    row' ≠ row → sem.cell t' row' = sem.cell t row'
  write_go : ∀ {t row r e}, InTable row → r.RowFits → sem.Ok e → (hw.routeWrite t row r e).1 = 0
  move_ok : ∀ {t t' routes dst src count e}, (∀ q ∈ routes, q.RowFits) → RowsDistinct routes →
    Span dst count → Span src count → hw.routeRowsMove t routes dst src count e = (0, t') →
    Copied sem routes t t' (fun k => (k : Int) < count) (fun k => dst + k) (fun k => src + k)
  move_err : ∀ {t t' routes dst src count e err},
    hw.routeRowsMove t routes dst src count e = (err, t') → err ≠ 0 →
    err = - EIO ∨ err = -EAGAIN ∧ t' = t
  matches_holds : ∀ {t row r e}, InTable row → r.RowFits →
    sem.Holds (sem.cell t row) r.toPieRoute →
    hw.routeMatches t row r e = 1 ∨ hw.routeMatches t row r e < 0
  slot_row : ∀ s : Nat, 0 ≤ hw.v6SlotToRow s → hw.v6RowToSlot (hw.v6SlotToRow s) = s
  slot_succ : ∀ s : Nat, hw.v6SlotToRow ((s + 1 : Nat) : Int) < hw.v6SlotToRow s
  slot_zero : hw.v6SlotToRow ((0 : Nat) : Int) < maxRoutes
  answers : ∀ {c r d}, r.RowFits → sem.Holds c r → (sem.Answers c d ↔ sem.Covers r d)
  invalid : ∀ {c d}, sem.Invalid c → ¬sem.Answers c d
  covers_type : ∀ {r r' d}, r.RowFits → r'.RowFits → sem.Covers r d → sem.Covers r' d →
    r.attr.type = r'.attr.type

/-! ## Positions -/

/-- The row at a position of a block: the position is the slot of an IPv6 row. -/
def rowAt (hw : PrefixConfig T E) (type : RouteType) (p : Nat) : Int :=
  if type = .ip6uc then hw.v6SlotToRow p else firstPrefix + p

def posOf (hw : PrefixConfig T E) (q : PrefixRoute) : Nat :=
  (if q.attr.type = .ip6uc then hw.v6RowToSlot q.row else q.row - firstPrefix).toNat

/-- The switch looks at the first position before the second. -/
def Before (type : RouteType) (p p' : Nat) : Prop := if type = .ip6uc then p' < p else p < p'

section Rows

variable {hw : PrefixConfig T E} {sem : RowSem T E C D} {type : RouteType} {p p' : Nat}
  {q : PrefixRoute}

theorem PrefixConfig.Lawful.slot_lt (H : hw.Lawful sem) (h : p < p') :
    hw.v6SlotToRow p' < hw.v6SlotToRow p := by
  induction p' with
  | zero => omega
  | succ n ih =>
    have hn := H.slot_succ n
    rcases Nat.lt_succ_iff_lt_or_eq.1 h with hlt | rfl
    · have := ih hlt
      omega
    · exact hn

theorem PrefixConfig.Lawful.rowAt_lt (H : hw.Lawful sem) :
    rowAt hw type p < rowAt hw type p' ↔ Before type p p' := by
  by_cases h6 : type = .ip6uc
  · simp only [rowAt, Before, if_pos h6]
    constructor
    · intro hlt
      by_contra hge
      rcases Nat.lt_or_eq_of_le (Nat.not_lt.1 hge) with hlt' | rfl
      · have := H.slot_lt hlt'
        omega
      · omega
    · exact H.slot_lt
  · simp only [rowAt, Before, if_neg h6]
    omega

theorem PrefixConfig.Lawful.rowAt_inj (H : hw.Lawful sem) (h : rowAt hw type p = rowAt hw type p') :
    p = p' := by
  have h1 : rowAt hw type p < rowAt hw type p' ↔ Before type p p' := H.rowAt_lt
  have h2 : rowAt hw type p' < rowAt hw type p ↔ Before type p' p := H.rowAt_lt
  by_cases h6 : type = .ip6uc
  · simp only [Before, if_pos h6] at h1 h2
    omega
  · simp only [Before, if_neg h6] at h1 h2
    omega

theorem PrefixConfig.Lawful.posOf_row (H : hw.Lawful sem) (h : q.row = rowAt hw q.attr.type p)
    (h0 : 0 ≤ q.row) : posOf hw q = p := by
  unfold posOf
  unfold rowAt at h
  by_cases h6 : q.attr.type = .ip6uc
  · rw [if_pos h6] at h ⊢
    rw [h, H.slot_row p (h ▸ h0), Int.toNat_natCast]
  · rw [if_neg h6] at h ⊢
    omega

end Rows

/-! ## Lists of routes -/

section Routes

variable {routes : List PrefixRoute} {q r r' : PrefixRoute}

theorem id_inj (hids : (routes.map (·.id)).Nodup) (hq : q ∈ routes) (hr : r ∈ routes)
    (h : q.id = r.id) : q = r := List.inj_on_of_nodup_map hids hq hr h

theorem ids_map {f : PrefixRoute → PrefixRoute} (hf : ∀ q, (f q).id = q.id) :
    (routes.map f).map (·.id) = routes.map (·.id) := by
  rw [List.map_map]
  exact List.map_congr_left fun q _ => hf q

theorem ids_putRoute : (putRoute routes r').map (·.id) = routes.map (·.id) := by
  refine ids_map fun q => ?_
  split
  · rename_i h
    exact h.symm
  · rfl

theorem mem_putRoute (hr : r ∈ routes) (h : r'.id = r.id) : r' ∈ putRoute routes r' :=
  List.mem_map.2 ⟨r, hr, if_pos h.symm⟩

theorem mem_putRoute_iff (hr : r ∈ routes) (h : r'.id = r.id) :
    q ∈ putRoute routes r' ↔ q = r' ∨ q ∈ routes ∧ q.id ≠ r.id := by
  rw [putRoute, List.mem_map, ← h]
  constructor
  · rintro ⟨x, hx, rfl⟩
    split
    · exact .inl rfl
    · rename_i hne
      exact .inr ⟨hx, hne⟩
  · rintro (rfl | ⟨hq, hne⟩)
    · exact ⟨r, hr, if_pos h.symm⟩
    · exact ⟨q, hq, if_neg hne⟩

end Routes

/-! ## The rows that the list names -/

/-- The order of a block: the longer prefix first, and the local table before main. -/
def PrefixRoute.rank (r : PrefixRoute) : Int :=
  2 * r.prefixLen + if r.tbId = RT_TABLE_LOCAL then 1 else 0

/-- The two blocks fit in the table without meeting. -/
def Room (hw : PrefixConfig T E) (b : RouteType → List Nat) : Prop :=
  firstPrefix + (b .ip4uc).length ≤ maxRoutes ∧ ((b .ip6uc).length ≠ 0 →
    firstPrefix + (b .ip4uc).length ≤ hw.v6SlotToRow ((b .ip6uc).length - 1 : Nat))

/-- The ids of the blocks are those of the routes that name a row. -/
structure Layout (hw : PrefixConfig T E) (routes : List PrefixRoute) (b : RouteType → List Nat) :
    Prop where
  ids : (routes.map (·.id)).Nodup
  fits : ∀ q ∈ routes, q.RowFits
  row : ∀ q ∈ routes, 0 ≤ q.row → q.row = rowAt hw q.attr.type (posOf hw q) ∧
    (b q.attr.type)[posOf hw q]? = some q.id
  seat : ∀ {type : RouteType} {p id : Nat}, (b type)[p]? = some id →
    ∃ q ∈ routes, q.id = id ∧ q.attr.type = type ∧ q.row = rowAt hw type p
  sorted : ∀ q ∈ routes, ∀ q' ∈ routes, 0 ≤ q.row → q.row < q'.row →
    q.attr.type = q'.attr.type → q'.rank ≤ q.rank
  room : Room hw b

section Room

variable {hw : PrefixConfig T E} {sem : RowSem T E C D} {b c : RouteType → List Nat}
  {type type' : RouteType} {p p' : Nat}

/-- The IPv6 rows are above the IPv4 block, and in the table. -/
theorem Room.v6_bounds (h : Room hw b) (H : hw.Lawful sem) (hp : p < (b .ip6uc).length) :
    firstPrefix + (b .ip4uc).length ≤ hw.v6SlotToRow p ∧ hw.v6SlotToRow p < maxRoutes := by
  have hapart := h.2 (by omega)
  constructor
  · rcases Nat.lt_or_ge p ((b .ip6uc).length - 1) with hlt | hge
    · have := H.slot_lt hlt
      omega
    · obtain rfl : p = (b .ip6uc).length - 1 := by omega
      exact hapart
  · have hzero := H.slot_zero
    rcases Nat.eq_zero_or_pos p with rfl | hpos
    · exact hzero
    · have := H.slot_lt hpos
      omega

/-- Smaller blocks have room. -/
theorem Room.mono (h : Room hw b) (H : hw.Lawful sem) (hle : ∀ type, (c type).length ≤ (b type).length) :
    Room hw c := by
  have h₄ := hle .ip4uc
  have h₆ := hle .ip6uc
  refine ⟨by have := h.1; omega, fun hm => ?_⟩
  have := (h.v6_bounds H (p := (c .ip6uc).length - 1) (by omega)).1
  omega

theorem Room.in_table (h : Room hw b) (H : hw.Lawful sem)
    (ht : type = .ip4uc ∨ type = .ip6uc) (hp : p < (b type).length) : InTable (rowAt hw type p) := by
  have hmax := h.1
  rcases ht with rfl | rfl
  · rw [rowAt, if_neg (by decide)]
    exact ⟨by omega, by omega⟩
  · have hb := h.v6_bounds H hp
    rw [rowAt, if_pos rfl]
    exact ⟨by omega, hb.2⟩

/-- A row is one of one position, of whichever family. -/
theorem Room.inj (h : Room hw b) (H : hw.Lawful sem) (ht : type = .ip4uc ∨ type = .ip6uc)
    (ht' : type' = .ip4uc ∨ type' = .ip6uc) (hp : p < (b type).length) (hp' : p' < (b type').length)
    (heq : rowAt hw type p = rowAt hw type' p') : type = type' ∧ p = p' := by
  have hcross : ∀ {p p'}, p < (b .ip4uc).length → p' < (b .ip6uc).length →
      rowAt hw .ip4uc p ≠ rowAt hw .ip6uc p' := by
    intro p p' hp hp'
    have hb := (h.v6_bounds H hp').1
    simp only [rowAt, reduceCtorEq, if_false, if_true]
    omega
  rcases ht with rfl | rfl <;> rcases ht' with rfl | rfl
  · exact ⟨rfl, H.rowAt_inj heq⟩
  · exact absurd heq (hcross hp hp')
  · exact absurd heq.symm (hcross hp' hp)
  · exact ⟨rfl, H.rowAt_inj heq⟩

end Room

namespace Layout

variable {hw : PrefixConfig T E} {sem : RowSem T E C D} {routes : List PrefixRoute}
  {b : RouteType → List Nat} {q q' r r' : PrefixRoute} {type : RouteType} {p : Nat}

theorem type_cases (h : Layout hw routes b) (hq : q ∈ routes) :
    q.attr.type = .ip4uc ∨ q.attr.type = .ip6uc := (h.fits q hq).unicast.unicast

theorem pos_lt (h : Layout hw routes b) (hq : q ∈ routes) (h0 : 0 ≤ q.row) :
    posOf hw q < (b q.attr.type).length :=
  (List.getElem?_eq_some_iff.1 (h.row q hq h0).2).1

theorem in_table (h : Layout hw routes b) (H : hw.Lawful sem) (hq : q ∈ routes)
    (h0 : 0 ≤ q.row) : InTable q.row := by
  rw [(h.row q hq h0).1]
  exact h.room.in_table H (h.type_cases hq) (h.pos_lt hq h0)

/-- The route that has a position. -/
theorem seat_eq (h : Layout hw routes b) (H : hw.Lawful sem) (hq : q ∈ routes)
    (hp : (b type)[p]? = some q.id) :
    q.attr.type = type ∧ q.row = rowAt hw type p ∧ posOf hw q = p := by
  obtain ⟨x, hx, hid, rfl, hrow⟩ := h.seat hp
  obtain rfl := id_inj h.ids hx hq hid
  have hin := h.room.in_table H (h.type_cases hx) (List.getElem?_eq_some_iff.1 hp).1
  rw [← hrow] at hin
  have hfirst : firstPrefix = 1 := rfl
  have h0 := hin.1
  exact ⟨rfl, hrow, H.posOf_row hrow (by omega)⟩

theorem not_seated (h : Layout hw routes b) (H : hw.Lawful sem) (hr : r ∈ routes)
    (hneg : r.row < 0) : ¬(b type)[p]? = some r.id := by
  intro hp
  obtain ⟨ht, hrow, -⟩ := h.seat_eq H hr hp
  have h0 := (h.room.in_table H (ht ▸ h.type_cases hr) (List.getElem?_eq_some_iff.1 hp).1).1
  have hfirst : firstPrefix = 1 := rfl
  omega

/-- No position is free. -/
theorem occupied (h : Layout hw routes b) (hp : p < (b type).length) :
    ∃ q ∈ routes, (b type)[p]? = some q.id ∧ q.attr.type = type ∧ q.row = rowAt hw type p := by
  obtain ⟨q, hq, hid, ht, hrow⟩ := h.seat (List.getElem?_eq_getElem hp)
  exact ⟨q, hq, hid ▸ List.getElem?_eq_getElem hp, ht, hrow⟩

/-- No two routes name one row, of whichever families they are. -/
theorem distinct (h : Layout hw routes b) (H : hw.Lawful sem) : RowsDistinct routes := by
  intro q hq q' hq' h0 heq
  have h0' : 0 ≤ q'.row := heq ▸ h0
  obtain ⟨hrow, hid⟩ := h.row q hq h0
  obtain ⟨hrow', hid'⟩ := h.row q' hq' h0'
  obtain ⟨ht, hpos⟩ := h.room.inj H (h.type_cases hq) (h.type_cases hq') (h.pos_lt hq h0)
    (h.pos_lt hq' h0') (hrow.symm.trans (heq.trans hrow'))
  rw [ht, hpos, hid'] at hid
  exact id_inj h.ids hq hq' (Option.some.inj hid).symm

/-! ## One route -/

/-- What the blocks look at. -/
structure SameKey (r r' : PrefixRoute) : Prop where
  id : r'.id = r.id
  row : r'.row = r.row ∨ r.row < 0 ∧ r'.row < 0
  type : r'.attr.type = r.attr.type
  prefixLen : r'.prefixLen = r.prefixLen
  tbId : r'.tbId = r.tbId

/-- A route that says something else in the row it has. -/
theorem put (h : Layout hw routes b) (H : hw.Lawful sem) (hr : r ∈ routes) (hk : SameKey r r')
    (hfits : r'.RowFits) : Layout hw (putRoute routes r') b := by
  have hmem := fun q => mem_putRoute_iff (q := q) hr hk.id
  -- every route was there under its key
  have hold : ∀ q ∈ putRoute routes r', ∃ x ∈ routes, SameKey x q := by
    intro q hq
    rcases (hmem q).1 hq with rfl | ⟨hq, -⟩
    · exact ⟨r, hr, hk⟩
    · exact ⟨q, hq, rfl, .inl rfl, rfl, rfl, rfl⟩
  have hrank : ∀ {x q : PrefixRoute}, SameKey x q → q.rank = x.rank := fun hk => by
    simp only [PrefixRoute.rank, hk.prefixLen, hk.tbId]
  exact {
    ids := by
      rw [ids_putRoute]
      exact h.ids
    fits := by
      intro q hq
      rcases (hmem q).1 hq with rfl | ⟨hq, -⟩
      · exact hfits
      · exact h.fits q hq
    row := by
      intro q hq h0
      obtain ⟨x, hx, hk⟩ := hold q hq
      have hrow : q.row = x.row := hk.row.resolve_right fun hneg => by omega
      have hpos : posOf hw q = posOf hw x := by
        simp only [posOf, hk.type, hrow]
      rw [hrow, hk.type, hpos, hk.id]
      exact h.row x hx (hrow ▸ h0)
    seat := by
      intro type p id hp
      obtain ⟨x, hx, hid, ht, hrow⟩ := h.seat hp
      by_cases hxr : x.id = r.id
      · obtain rfl := id_inj h.ids hx hr hxr
        have hin := h.room.in_table H (ht ▸ h.type_cases hx) (List.getElem?_eq_some_iff.1 hp).1
        have hfirst : firstPrefix = 1 := rfl
        have h0 := hin.1
        exact ⟨r', mem_putRoute hr hk.id, hk.id.trans hid, hk.type.trans ht,
          (hk.row.resolve_right fun hneg => by omega).trans hrow⟩
      · exact ⟨x, (hmem x).2 (.inr ⟨hx, hxr⟩), hid, ht, hrow⟩
    sorted := by
      intro q hq q' hq' h0 hlt ht
      obtain ⟨x, hx, hk⟩ := hold q hq
      obtain ⟨x', hx', hk'⟩ := hold q' hq'
      have hrow : q.row = x.row := hk.row.resolve_right fun hneg => by omega
      have hrow' : q'.row = x'.row := hk'.row.resolve_right fun hneg => by omega
      rw [hrank hk, hrank hk']
      exact h.sorted x hx x' hx' (hrow ▸ h0) (hrow ▸ hrow' ▸ hlt)
        (hk.type ▸ hk'.type ▸ ht)
    room := h.room }

/-- A route without a row. -/
theorem add (h : Layout hw routes b) (hrow : r.row < 0) (hfits : r.RowFits)
    (hid : ∀ q ∈ routes, q.id ≠ r.id) : Layout hw (routes ++ [r]) b where
  ids := by
    rw [List.map_append, List.nodup_append]
    refine ⟨h.ids, by simp, ?_⟩
    simpa using hid
  fits := List.forall_mem_append.2 ⟨h.fits, by simpa using hfits⟩
  row := List.forall_mem_append.2 ⟨h.row, by simp only [List.mem_singleton]; rintro _ rfl; omega⟩
  seat := by
    intro type p id hp
    obtain ⟨q, hq, hseat⟩ := h.seat hp
    exact ⟨q, List.mem_append_left _ hq, hseat⟩
  sorted := by
    intro q hq q' hq' h0 hlt
    rcases List.mem_append.1 hq with hq | hq
    · rcases List.mem_append.1 hq' with hq' | hq'
      · exact h.sorted q hq q' hq' h0 hlt
      · rw [List.mem_singleton.1 hq'] at hlt
        omega
    · rw [List.mem_singleton.1 hq] at h0
      omega
  room := h.room

theorem free (h : Layout hw routes b) (H : hw.Lawful sem) (hr : r ∈ routes) (hrow : r.row < 0) :
    Layout hw (routes.filter (·.id ≠ r.id)) b := by
  have hmem : ∀ {q}, q ∈ routes.filter (·.id ≠ r.id) → q ∈ routes := fun hq =>
    (List.mem_filter.1 hq).1
  exact {
    ids := h.ids.sublist (List.filter_sublist.map _)
    fits := fun q hq => h.fits q (hmem hq)
    row := fun q hq => h.row q (hmem hq)
    seat := by
      intro type p id hp
      obtain ⟨q, hq, hseat⟩ := h.seat hp
      refine ⟨q, List.mem_filter.2 ⟨hq, ?_⟩, hseat⟩
      rw [decide_eq_true_eq]
      intro heq
      obtain rfl := id_inj h.ids hq hr heq
      have hfirst : firstPrefix = 1 := rfl
      have h0 := (h.room.in_table H (hseat.2.1 ▸ h.type_cases hq)
        (List.getElem?_eq_some_iff.1 hp).1).1
      omega
    sorted := fun q hq q' hq' => h.sorted q (hmem hq) q' (hmem hq')
    room := h.room }

end Layout

/-! ## The sizes of the blocks -/

/-- The routes of a family that have a row. -/
def members (type : RouteType) (routes : List PrefixRoute) : List PrefixRoute :=
  routes.filter fun q => 0 ≤ q.row && q.attr.type = type

section Members

variable {hw : PrefixConfig T E} {sem : RowSem T E C D} {routes : List PrefixRoute}
  {b : RouteType → List Nat} {type : RouteType} {q : PrefixRoute}

theorem mem_members : q ∈ members type routes ↔ q ∈ routes ∧ 0 ≤ q.row ∧ q.attr.type = type := by
  simp [members]

theorem prefixRows_eq (atLeast : Int) : prefixRows routes type atLeast =
    (members type routes).countP fun q => atLeast ≤ q.prefixLen := by
  rw [prefixRows, members, List.countP_filter]
  refine List.countP_congr fun q _ => ?_
  simp only [Bool.and_eq_true, decide_eq_true_eq]
  tauto

/-- A block has the ids of the members, each once. -/
theorem Layout.perm_members (h : Layout hw routes b) (H : hw.Lawful sem) :
    ((members type routes).map (·.id)).Perm (b type) := by
  refine (List.perm_ext_iff_of_nodup (h.ids.sublist (List.filter_sublist.map _)) ?_).2 fun id => ?_
  · refine List.nodup_iff_getElem?_ne_getElem?.2 fun i j hij hj heq => ?_
    obtain ⟨q, hq, hqj, -⟩ := h.occupied hj
    have hpos := (h.seat_eq H hq hqj).2.2
    rw [(h.seat_eq H hq (heq.trans hqj)).2.2] at hpos
    omega
  · rw [List.mem_map, List.mem_iff_getElem?]
    constructor
    · rintro ⟨q, hq, rfl⟩
      obtain ⟨hm, h0, rfl⟩ := mem_members.1 hq
      exact ⟨posOf hw q, (h.row q hm h0).2⟩
    · rintro ⟨p, hp⟩
      obtain ⟨q, hq, rfl, ht, hrow⟩ := h.seat hp
      have hin := (h.room.in_table H (ht ▸ h.type_cases hq) (List.getElem?_eq_some_iff.1 hp).1).1
      have hfirst : firstPrefix = 1 := rfl
      exact ⟨q, mem_members.2 ⟨hq, by omega, ht⟩, rfl⟩

theorem Layout.prefixRows_le (h : Layout hw routes b) (H : hw.Lawful sem) (atLeast : Int) :
    prefixRows routes type atLeast ≤ (b type).length := by
  rw [prefixRows_eq, ← (h.perm_members H).length_eq, List.length_map]
  exact List.countP_le_length

/-- A prefix length is not negative, so every member is counted. -/
theorem Layout.prefixRows_zero (h : Layout hw routes b) (H : hw.Lawful sem) :
    prefixRows routes type 0 = (b type).length := by
  rw [prefixRows_eq, List.countP_eq_length.2, ← (h.perm_members H).length_eq, List.length_map]
  intro q hq
  exact decide_eq_true (h.fits q (mem_members.1 hq).1).len.1

/-- The prefix of `q` is longer than that of `r`, or as long and `r` is not in the local table. -/
def Longer (r q : PrefixRoute) : Prop :=
  r.prefixLen + (if r.tbId = RT_TABLE_LOCAL then 1 else 0) ≤ q.prefixLen

theorem Longer.mono {r q' : PrefixRoute} (h : Longer r q) (hle : q.rank ≤ q'.rank) :
    Longer r q' := by
  unfold Longer PrefixRoute.rank at *
  split_ifs at * <;> omega

theorem Longer.rank_le {r : PrefixRoute} (h : Longer r q) : r.rank ≤ q.rank := by
  unfold Longer PrefixRoute.rank at *
  split_ifs at * <;> omega

theorem rank_le_of_not_longer {r : PrefixRoute} (h : ¬Longer r q) : q.rank ≤ r.rank := by
  unfold Longer PrefixRoute.rank at *
  split_ifs at * <;> omega

/-- The positions that the switch looks at before a new one at `i`. -/
def Ahead (type : RouteType) (i p : Nat) : Prop := if type = .ip6uc then i ≤ p else p < i

/-- A route belongs at a position, by its order. -/
def Ranked (hw : PrefixConfig T E) (routes : List PrefixRoute) (r : PrefixRoute) (i : Nat) : Prop :=
  ∀ q ∈ routes, 0 ≤ q.row → q.attr.type = r.attr.type →
    (Ahead r.attr.type i (posOf hw q) → r.rank ≤ q.rank) ∧
    (¬Ahead r.attr.type i (posOf hw q) → q.rank ≤ r.rank)

/-- Where a route belongs in its block: behind the ones that are longer. -/
theorem Layout.longer_iff (h : Layout hw routes b) (H : hw.Lawful sem) {r : PrefixRoute}
    (hq : q ∈ routes) (h0 : 0 ≤ q.row) (ht : q.attr.type = r.attr.type) {below : Nat}
    (hbelow : prefixRows routes r.attr.type
      (r.prefixLen + if r.tbId = RT_TABLE_LOCAL then 1 else 0) = below) :
    Longer r q ↔ Ahead r.attr.type (if r.attr.type = .ip6uc then
      (b r.attr.type).length - below else below) (posOf hw q) := by
  let P : Nat → Bool := fun id => routes.any fun q => q.id = id &&
    r.prefixLen + (if r.tbId = RT_TABLE_LOCAL then 1 else 0) ≤ q.prefixLen
  have hP : ∀ q ∈ routes, P q.id = true ↔ Longer r q := by
    intro q hq
    simp only [P, List.any_eq_true, Bool.and_eq_true, decide_eq_true_eq]
    constructor
    · rintro ⟨x, hx, hid, hlong⟩
      rwa [id_inj h.ids hq hx hid.symm]
    · exact fun hlong => ⟨q, hq, rfl, hlong⟩
  have hcount : (b r.attr.type).countP P = below := by
    rw [← hbelow, prefixRows_eq, ← (h.perm_members H).countP_eq, List.countP_map]
    refine List.countP_congr fun q hq => ?_
    rw [Function.comp_apply, hP q (mem_members.1 hq).1, decide_eq_true_eq, Longer]
  have hp := (h.row q hq h0).2
  rw [ht] at hp
  -- the routes of two positions, the first of which the switch looks at first
  have hmono : ∀ {j k x y : Nat}, (b r.attr.type)[j]? = some x → (b r.attr.type)[k]? = some y →
      Before r.attr.type j k → P y = true → P x = true := by
    intro j k x y hj hk hlt hy
    obtain ⟨q, hq, rfl, hqt, hqrow⟩ := h.seat hj
    obtain ⟨q', hq', rfl, hqt', hqrow'⟩ := h.seat hk
    have h0 := (h.room.in_table H (hqt ▸ h.type_cases hq) (List.getElem?_eq_some_iff.1 hj).1).1
    have hfirst : firstPrefix = 1 := rfl
    rw [hP _ hq'] at hy
    rw [hP _ hq]
    refine hy.mono (h.sorted q hq q' hq' (by omega) ?_ (hqt.trans hqt'.symm))
    rw [hqrow, hqrow', H.rowAt_lt]
    exact hlt
  rw [← hP q hq, ← hcount]
  by_cases h6 : r.attr.type = .ip6uc
  · rw [Ahead, if_pos h6, if_pos h6]
    refine InFront.back_iff (fun j k x y hj hk hlt hy => ?_) hp
    rw [Bool.not_eq_true'] at hy ⊢
    rw [← Bool.not_eq_true] at hy ⊢
    exact fun hx => hy (hmono hk hj (by rwa [Before, if_pos h6]) hx)
  · rw [Ahead, if_neg h6, if_neg h6]
    exact InFront.iff (fun j k x y hj hk hlt => hmono hj hk (by rwa [Before, if_neg h6])) hp

end Members

/-! ## Blocks that a route enters or leaves -/

/-- The routes of a family take other positions. -/
def reseat (hw : PrefixConfig T E) (type : RouteType) (σ : Nat → Nat) (q : PrefixRoute) :
    PrefixRoute :=
  if 0 ≤ q.row ∧ q.attr.type = type then { q with row := rowAt hw type (σ (posOf hw q)) } else q

/-- The position of a route afterwards. -/
def movedTo (hw : PrefixConfig T E) (type : RouteType) (σ : Nat → Nat) (q : PrefixRoute) : Nat :=
  if q.attr.type = type then σ (posOf hw q) else posOf hw q

/-- The blocks after all ids but one of a family took other positions, in the same order. -/
structure Reseats (hw : PrefixConfig T E) (b b' : RouteType → List Nat) (type : RouteType)
    (id : Nat) (σ : Nat → Nat) : Prop where
  other : ∀ {type'}, type' ≠ type → b' type' = b type'
  sent : ∀ {p x : Nat}, (b type)[p]? = some x → x ≠ id → (b' type)[σ p]? = some x
  back : ∀ {p x : Nat}, (b' type)[p]? = some x → x ≠ id → ∃ k, p = σ k ∧ (b type)[k]? = some x
  own : ∀ {p : Nat}, (b type)[p]? = some id → σ p = p
  order : ∀ {p p' : Nat}, σ p < σ p' → p < p'
  room : Room hw b'

/-- The rows of a family of `n` routes are copied to where they go. -/
def Resettled (hw : PrefixConfig T E) (sem : RowSem T E C D) (type : RouteType) (σ : Nat → Nat)
    (n : Nat) (routes : List PrefixRoute) (t t' : T) : Prop :=
  Copied sem routes t t' (fun k => k < n ∧ σ k ≠ k) (fun k => rowAt hw type (σ k)) (rowAt hw type)

section Reseat

variable {hw : PrefixConfig T E} {sem : RowSem T E C D} {type : RouteType} {σ : Nat → Nat}
  {q q' r r' : PrefixRoute} {routes : List PrefixRoute} {b b' : RouteType → List Nat}
  {i id p p' : Nat} {t t' t₁ : T}

@[simp] theorem reseat_id : (reseat hw type σ q).id = q.id := by
  unfold reseat
  split <;> rfl

@[simp] theorem reseat_toPieRoute : (reseat hw type σ q).toPieRoute = q.toPieRoute := by
  unfold reseat
  split <;> rfl

@[simp] theorem reseat_reserved : (reseat hw type σ q).rowReserved = q.rowReserved := by
  unfold reseat
  split <;> rfl

@[simp] theorem reseat_rank : (reseat hw type σ q).rank = q.rank := by
  unfold reseat
  split <;> rfl

theorem reseat_of_not (h : ¬(0 ≤ q.row ∧ q.attr.type = type)) : reseat hw type σ q = q := if_neg h

theorem placed_of_reseat (h : 0 ≤ (reseat hw type σ q).row) : 0 ≤ q.row := by
  by_contra hneg
  rw [reseat_of_not fun hm => hneg hm.1] at h
  exact hneg h

/-- The switch looks at the first position before the second, before and after. -/
theorem Before.of_order (hσ : ∀ {p p' : Nat}, σ p < σ p' → p < p')
    (h : Before type (σ p) (σ p')) : Before type p p' := by
  unfold Before at h ⊢
  split at h
  · rw [if_pos ‹_›]
    exact hσ h
  · rw [if_neg ‹_›]
    exact hσ h

namespace Layout

/-- Where a route is afterwards. -/
theorem reseat_seat (h : Layout hw routes b) (H : hw.Lawful sem) (hs : Reseats hw b b' type id σ)
    (hq : q ∈ routes) (hid : q.id ≠ id) (h0 : 0 ≤ q.row) :
    (reseat hw type σ q).row = rowAt hw q.attr.type (movedTo hw type σ q) ∧
      posOf hw (reseat hw type σ q) = movedTo hw type σ q ∧
      (b' q.attr.type)[movedTo hw type σ q]? = some q.id := by
  obtain ⟨hrow, hp⟩ := h.row q hq h0
  have hrow' : (reseat hw type σ q).row = rowAt hw q.attr.type (movedTo hw type σ q) := by
    by_cases ht : q.attr.type = type
    · rw [reseat, if_pos ⟨h0, ht⟩, movedTo, if_pos ht, ht]
    · rw [reseat_of_not fun hm => ht hm.2, movedTo, if_neg ht, ← hrow]
  have hp' : (b' q.attr.type)[movedTo hw type σ q]? = some q.id := by
    by_cases ht : q.attr.type = type
    · rw [movedTo, if_pos ht, ht]
      exact hs.sent (ht ▸ hp) hid
    · rw [movedTo, if_neg ht, hs.other ht]
      exact hp
  have hin := (hs.room.in_table H (h.type_cases hq) (List.getElem?_eq_some_iff.1 hp').1).1
  have hfirst : firstPrefix = 1 := rfl
  have htype : (reseat hw type σ q).attr.type = q.attr.type := by rw [reseat_toPieRoute]
  exact ⟨hrow', H.posOf_row (htype ▸ hrow') (by omega), hp'⟩

theorem reseat_row (h : Layout hw routes b) (H : hw.Lawful sem) (hs : Reseats hw b b' type id σ)
    (hq : q ∈ routes) (hid : q.id ≠ id) (h0 : 0 ≤ (reseat hw type σ q).row) :
    (reseat hw type σ q).row =
      rowAt hw (reseat hw type σ q).attr.type (posOf hw (reseat hw type σ q)) ∧
    (b' (reseat hw type σ q).attr.type)[posOf hw (reseat hw type σ q)]? =
      some (reseat hw type σ q).id := by
  obtain ⟨hrow, hpos, hp⟩ := h.reseat_seat H hs hq hid (placed_of_reseat h0)
  rw [hpos, reseat_toPieRoute, reseat_id]
  exact ⟨hrow, hp⟩

/-- A position that another id has afterwards is one that it was sent to. -/
theorem reseat_back (h : Layout hw routes b) (H : hw.Lawful sem) (hs : Reseats hw b b' type id σ)
    {type' : RouteType} {x : Nat} (hp : (b' type')[p]? = some x) (hx : x ≠ id) :
    ∃ q ∈ routes, q.id = x ∧ q.attr.type = type' ∧ (reseat hw type σ q).row = rowAt hw type' p := by
  have hold : ∃ k, (b type')[k]? = some x ∧ p = if type' = type then σ k else k := by
    by_cases ht : type' = type
    · subst ht
      obtain ⟨k, hk, hkx⟩ := hs.back hp hx
      exact ⟨k, hkx, by rw [if_pos rfl, hk]⟩
    · exact ⟨p, hs.other ht ▸ hp, (if_neg ht).symm⟩
  obtain ⟨k, hk, hpk⟩ := hold
  obtain ⟨q, hq, rfl, -, -⟩ := h.seat hk
  obtain ⟨ht, hrow, hpos⟩ := h.seat_eq H hq hk
  have hin := (h.room.in_table H (ht ▸ h.type_cases hq) (List.getElem?_eq_some_iff.1 hk).1).1
  have hfirst : firstPrefix = 1 := rfl
  refine ⟨q, hq, rfl, ht, ?_⟩
  rw [(h.reseat_seat H hs hq hx (by omega)).1, movedTo, hpos, ht, hpk]

theorem reseat_sorted (h : Layout hw routes b) (H : hw.Lawful sem)
    (hs : Reseats hw b b' type id σ) (hq : q ∈ routes) (hq' : q' ∈ routes) (hid : q.id ≠ id)
    (hid' : q'.id ≠ id) (h0 : 0 ≤ (reseat hw type σ q).row)
    (hlt : (reseat hw type σ q).row < (reseat hw type σ q').row)
    (ht : q.attr.type = q'.attr.type) : q'.rank ≤ q.rank := by
  have hq0 := placed_of_reseat h0
  have hq0' : 0 ≤ q'.row := placed_of_reseat (h0.trans hlt.le)
  rw [(h.reseat_seat H hs hq hid hq0).1, (h.reseat_seat H hs hq' hid' hq0').1, ← ht,
    H.rowAt_lt] at hlt
  refine h.sorted q hq q' hq' hq0 ?_ ht
  rw [(h.row q hq hq0).1, (h.row q' hq' hq0').1, ← ht, H.rowAt_lt]
  unfold movedTo at hlt
  rw [← ht] at hlt
  split at hlt
  · exact hlt.of_order hs.order
  · exact hlt

end Layout

/-! ### A route enters -/

theorem before_opened : Before type (opened i p) i ↔ Ahead type i p := by
  unfold Before Ahead opened
  split <;> split <;> omega

theorem opened_before : Before type i (opened i p) ↔ ¬Ahead type i p := by
  unfold Before Ahead opened
  split <;> split <;> omega

/-- The blocks after an id entered the one of a family. -/
def entered (b : RouteType → List Nat) (type : RouteType) (i id : Nat) : RouteType → List Nat :=
  Function.update b type ((b type).insertIdx i id)

theorem entered_self : entered b type i id type = (b type).insertIdx i id := Function.update_self ..

theorem length_le_entered (type' : RouteType) :
    (b type').length ≤ (entered b type i id type').length := by
  by_cases ht : type' = type
  · rw [ht, entered_self]
    exact List.length_le_length_insertIdx ..
  · rw [entered, Function.update_of_ne ht]

theorem reseats_opened (hi : i ≤ (b type).length) (hnot : ∀ p : Nat, ¬(b type)[p]? = some id)
    (hroom : Room hw (entered b type i id)) :
    Reseats hw b (entered b type i id) type id (opened i) where
  other := fun h => Function.update_of_ne h ..
  sent := by
    intro p x hp _
    rw [entered_self, getElem?_insertIdx_opened]
    exact hp
  back := by
    intro p x hp hx
    rw [entered_self] at hp
    exact (getElem?_insertIdx hi hp).resolve_left fun h => hx h.2
  own := fun hp => absurd hp (hnot _)
  order := lt_of_opened
  room := hroom

/-- The routes after one was placed and the others were moved. -/
theorem mem_putRoute_opened (hr : r ∈ routes) (hneg : r.row < 0) (hid : r'.id = r.id) :
    q ∈ putRoute (routes.map (reseat hw r.attr.type (opened i))) r' ↔
      q = r' ∨ ∃ x ∈ routes, x.id ≠ r.id ∧ reseat hw r.attr.type (opened i) x = q := by
  have hrmap : r ∈ routes.map (reseat hw r.attr.type (opened i)) :=
    List.mem_map.2 ⟨r, hr, reseat_of_not (by omega)⟩
  rw [mem_putRoute_iff hrmap hid, List.mem_map]
  refine or_congr_right ⟨?_, ?_⟩
  · rintro ⟨⟨x, hx, rfl⟩, hne⟩
    exact ⟨x, hx, by rwa [reseat_id] at hne, rfl⟩
  · rintro ⟨x, hx, hne, rfl⟩
    exact ⟨⟨x, hx, rfl⟩, by rwa [reseat_id]⟩

/-- A route takes the row that was opened for it. -/
theorem Layout.opens (h : Layout hw routes b) (H : hw.Lawful sem) (hr : r ∈ routes)
    (hneg : r.row < 0) (hi : i ≤ (b r.attr.type).length)
    (hroom : Room hw (entered b r.attr.type i r.id)) (hrank : Ranked hw routes r i)
    (reserved : Bool) :
    Layout hw (putRoute (routes.map (reseat hw r.attr.type (opened i)))
      { r with row := rowAt hw r.attr.type i, rowReserved := reserved })
      (entered b r.attr.type i r.id) := by
  have hnot : ∀ (type : RouteType) (p : Nat), ¬(b type)[p]? = some r.id := fun _ _ =>
    h.not_seated H hr hneg
  have hs := reseats_opened hi (hnot _) hroom
  generalize hr' : ({ r with row := rowAt hw r.attr.type i, rowReserved := reserved } :
    PrefixRoute) = r'
  have hid' : r'.id = r.id := by rw [← hr']
  have hrow' : r'.row = rowAt hw r.attr.type i := by rw [← hr']
  have htype' : r'.attr.type = r.attr.type := by rw [← hr']
  have hseat : (entered b r.attr.type i r.id r.attr.type)[i]? = some r.id := by
    rw [entered_self, List.getElem?_insertIdx_self, if_pos hi]
  have hin := (hroom.in_table H (h.type_cases hr) (List.getElem?_eq_some_iff.1 hseat).1).1
  have hfirst : firstPrefix = 1 := rfl
  have hpos' : posOf hw r' = i := H.posOf_row (by rw [hrow', htype']) (by omega)
  have hrank' : r'.rank = r.rank := by
    rw [← hr']
    rfl
  have hold : ∀ {x}, x ∈ routes → x.id ≠ r.id →
      0 ≤ (reseat hw r.attr.type (opened i) x).row → x.attr.type = r.attr.type →
      0 ≤ x.row ∧ x.attr.type = r.attr.type ∧ (reseat hw r.attr.type (opened i) x).row =
        rowAt hw r.attr.type (opened i (posOf hw x)) := by
    intro x hx hne h0 ht
    have hx0 := placed_of_reseat h0
    refine ⟨hx0, ht, ?_⟩
    rw [(h.reseat_seat H hs hx hne hx0).1, movedTo, if_pos ht, ht]
  have hmem : ∀ q, q ∈ putRoute (routes.map (reseat hw r.attr.type (opened i))) r' ↔
      q = r' ∨ ∃ x ∈ routes, x.id ≠ r.id ∧ reseat hw r.attr.type (opened i) x = q :=
    fun q => mem_putRoute_opened hr hneg hid'
  exact {
    ids := by
      rw [ids_putRoute, ids_map fun _ => reseat_id]
      exact h.ids
    fits := by
      intro q hq
      rcases (hmem q).1 hq with rfl | ⟨x, hx, -, rfl⟩
      · rw [← hr']
        exact h.fits r hr
      · rw [reseat_toPieRoute]
        exact h.fits x hx
    row := by
      intro q hq h0
      rcases (hmem q).1 hq with rfl | ⟨x, hx, hne, rfl⟩
      · rw [hpos', htype', hid']
        exact ⟨hrow', hseat⟩
      · exact h.reseat_row H hs hx hne h0
    seat := by
      intro type p x hp
      by_cases hx : x = r.id
      · subst hx
        have hat : p = i ∧ type = r.attr.type := by
          by_cases ht : type = r.attr.type
          · subst ht
            rw [entered_self] at hp
            rcases getElem?_insertIdx hi hp with ⟨hpi, -⟩ | ⟨k, -, hk⟩
            · exact ⟨hpi, rfl⟩
            · exact absurd hk (hnot _ _)
          · rw [hs.other ht] at hp
            exact absurd hp (hnot _ _)
        obtain ⟨rfl, rfl⟩ := hat
        exact ⟨r', (hmem r').2 (.inl rfl), hid', htype', hrow'⟩
      · obtain ⟨q, hq, hqx, ht, hrow⟩ := h.reseat_back H hs hp hx
        exact ⟨_, (hmem _).2 (.inr ⟨q, hq, hqx ▸ hx, rfl⟩), reseat_id.trans hqx,
          by rw [reseat_toPieRoute, ht], hrow⟩
    sorted := by
      intro q hq q' hq' h0 hlt ht
      rcases (hmem q).1 hq with rfl | ⟨x, hx, hne, rfl⟩
      · rcases (hmem q').1 hq' with rfl | ⟨x', hx', hne', rfl⟩
        · omega
        · obtain ⟨hx0, hxt, hxrow⟩ := hold hx' hne' (by omega) (by
            rw [← htype', ht, reseat_toPieRoute])
          rw [hrow', hxrow, H.rowAt_lt, opened_before] at hlt
          rw [reseat_rank, hrank']
          exact (hrank x' hx' hx0 hxt).2 hlt
      · rcases (hmem q').1 hq' with rfl | ⟨x', hx', hne', rfl⟩
        · obtain ⟨hx0, hxt, hxrow⟩ := hold hx hne h0 (by rw [← htype', ← ht, reseat_toPieRoute])
          rw [hrow', hxrow, H.rowAt_lt, before_opened] at hlt
          rw [reseat_rank, hrank']
          exact (hrank x hx hx0 hxt).1 hlt
        · rw [reseat_rank, reseat_rank]
          rw [reseat_toPieRoute, reseat_toPieRoute] at ht
          exact h.reseat_sorted H hs hx hx' hne hne' h0 hlt ht
    room := hroom }

/-! ### A route leaves -/

/-- The blocks after the id at a position left the one of a family. -/
def departed (b : RouteType → List Nat) (type : RouteType) (i : Nat) : RouteType → List Nat :=
  Function.update b type ((b type).eraseIdx i)

theorem departed_self : departed b type i type = (b type).eraseIdx i := Function.update_self ..

theorem departed_length_le (type' : RouteType) : (departed b type i type').length ≤ (b type').length := by
  by_cases ht : type' = type
  · rw [ht, departed_self]
    exact List.length_eraseIdx_le _ _
  · rw [departed, Function.update_of_ne ht]

theorem reseats_closed (h : Layout hw routes b) (H : hw.Lawful sem)
    (hi : (b type)[i]? = some id) : Reseats hw b (departed b type i) type id (closed i) where
  other := fun h => Function.update_of_ne h ..
  sent := by
    intro p x hp hx
    rw [departed_self, getElem?_eraseIdx_closed]
    · exact hp
    · rintro rfl
      exact hx (Option.some.inj (hp.symm.trans hi))
  back := by
    intro p x hp _
    rw [departed_self] at hp
    obtain ⟨k, hk, -, hkx⟩ := getElem?_eraseIdx hp
    exact ⟨k, hk, hkx⟩
  own := by
    intro p hp
    obtain ⟨q, hq, rfl, -, -⟩ := h.seat hi
    obtain rfl := (h.seat_eq H hq hp).2.2.symm.trans (h.seat_eq H hq hi).2.2
    exact if_neg (Nat.lt_irrefl p)
  order := lt_of_closed
  room := h.room.mono H departed_length_le

/-- A route leaves, and the rows behind it close up. -/
theorem Layout.closes (h : Layout hw routes b) (H : hw.Lawful sem) (hr : r ∈ routes)
    (h0 : 0 ≤ r.row) {L : List PrefixRoute} (hids : (L.map (·.id)).Nodup)
    (hL : ∀ q, q ∈ L ↔ ∃ x ∈ routes, x.id ≠ r.id ∧
      reseat hw r.attr.type (closed (posOf hw r)) x = q) :
    Layout hw L (departed b r.attr.type (posOf hw r)) := by
  have hs := reseats_closed h H (h.row r hr h0).2
  exact {
    ids := hids
    fits := by
      intro q hq
      obtain ⟨x, hx, -, rfl⟩ := (hL q).1 hq
      rw [reseat_toPieRoute]
      exact h.fits x hx
    row := by
      intro q hq hq0
      obtain ⟨x, hx, hne, rfl⟩ := (hL q).1 hq
      exact h.reseat_row H hs hx hne hq0
    seat := by
      intro type p x hp
      have hne : x ≠ r.id := by
        rintro rfl
        by_cases ht : type = r.attr.type
        · subst ht
          rw [departed_self] at hp
          obtain ⟨k, -, hk, hkr⟩ := getElem?_eraseIdx hp
          exact hk (h.seat_eq H hr hkr).2.2.symm
        · rw [hs.other ht] at hp
          exact ht (h.seat_eq H hr hp).1.symm
      obtain ⟨q, hq, hqx, ht, hrow⟩ := h.reseat_back H hs hp hne
      exact ⟨_, (hL _).2 ⟨q, hq, hqx ▸ hne, rfl⟩, reseat_id.trans hqx,
        by rw [reseat_toPieRoute, ht], hrow⟩
    sorted := by
      intro q hq q' hq' h0 hlt ht
      obtain ⟨x, hx, hne, rfl⟩ := (hL q).1 hq
      obtain ⟨x', hx', hne', rfl⟩ := (hL q').1 hq'
      rw [reseat_rank, reseat_rank]
      rw [reseat_toPieRoute, reseat_toPieRoute] at ht
      exact h.reseat_sorted H hs hx hx' hne hne' h0 hlt ht
    room := hs.room }

end Reseat

/-! ## What the table holds -/

/-- A route whose write was seen to go through is in its row, and a row that no route has is
invalid. -/
structure Contents (sem : RowSem T E C D) (routes : List PrefixRoute) (t : T) : Prop where
  holds : ∀ q ∈ routes, 0 ≤ q.row → q.rowReserved = false →
    sem.Holds (sem.cell t q.row) q.toPieRoute
  empty : ∀ row : Nat, row < maxRoutes → (∀ q ∈ routes, q.row ≠ row) →
    sem.Invalid (sem.cell t row)

section Contents

variable {hw : PrefixConfig T E} {sem : RowSem T E C D} {type : RouteType} {σ : Nat → Nat}
  {q r r' : PrefixRoute} {routes L : List PrefixRoute} {b b' : RouteType → List Nat} {i id : Nat}
  {t t' t₁ : T}

/-- A row that nothing is copied to. -/
theorem Resettled.kept_of_free (hc : Resettled hw sem type σ (b type).length routes t t')
    (h : Layout hw routes b) (hs : Reseats hw b b' type id σ) (hL : Layout hw L b') {row : Int}
    (hfree : ∀ q ∈ L, q.row ≠ row) : sem.cell t' row = sem.cell t row := by
  refine hc.kept row fun k hk heq => ?_
  obtain ⟨x, -, hxk, -⟩ := h.occupied hk.1
  obtain ⟨q, hq, -, -, hrow⟩ := hL.seat (hs.sent hxk fun hx => hk.2 (hs.own (hx ▸ hxk)))
  exact hfree q hq (hrow.trans heq)

/-- A route is where it was moved to. -/
theorem Resettled.holds (hc : Resettled hw sem type σ (b type).length routes t t')
    (h : Layout hw routes b) (H : hw.Lawful sem) (hs : Reseats hw b b' type id σ)
    (hq : q ∈ routes) (hid : q.id ≠ id) (h0 : 0 ≤ q.row)
    (hh : sem.Holds (sem.cell t q.row) q.toPieRoute) :
    sem.Holds (sem.cell t' (reseat hw type σ q).row) q.toPieRoute := by
  obtain ⟨hrow, hp⟩ := h.row q hq h0
  obtain ⟨hrow', -, hp'⟩ := h.reseat_seat H hs hq hid h0
  by_cases hm : q.attr.type = type ∧ σ (posOf hw q) ≠ posOf hw q
  · obtain ⟨rfl, hσ⟩ := hm
    rw [hrow', movedTo, if_pos rfl]
    exact hc.held _ ⟨h.pos_lt hq h0, hσ⟩ q hq hrow (hrow ▸ hh)
  · have hstay : movedTo hw type σ q = posOf hw q := by
      unfold movedTo
      split
      · rename_i ht
        exact not_not.1 fun hσ => hm ⟨ht, hσ⟩
      · rfl
    rw [hrow', hstay, ← hrow, hc.kept]
    · exact hh
    intro k hk heq
    obtain ⟨x, hx, hxk, rfl, -⟩ := h.occupied hk.1
    have hsent := hs.sent hxk fun h => hk.2 (hs.own (h ▸ hxk))
    rw [hstay] at hp'
    obtain ⟨ht, hpos⟩ := hs.room.inj H (h.type_cases hx) (h.type_cases hq)
      (List.getElem?_eq_some_iff.1 hsent).1 (List.getElem?_eq_some_iff.1 hp').1 (heq.trans hrow)
    rw [ht, hpos, hp'] at hsent
    obtain rfl := id_inj h.ids hq hx (Option.some.inj hsent)
    rw [(h.seat_eq H hx hxk).2.2] at hm
    exact hm ⟨rfl, hk.2⟩

/-- The table after the row of a route was opened: whatever is in that row is not of the route
yet. -/
theorem Contents.opens (h : Contents sem routes t) (hl : Layout hw routes b) (H : hw.Lawful sem)
    (hr : r ∈ routes) (hneg : r.row < 0)
    (hs : Reseats hw b (entered b r.attr.type i r.id) r.attr.type r.id (opened i))
    (hid : r'.id = r.id) (hres : r'.rowReserved = true)
    (hl' : Layout hw (putRoute (routes.map (reseat hw r.attr.type (opened i))) r')
      (entered b r.attr.type i r.id))
    (hc : Resettled hw sem r.attr.type (opened i) (b r.attr.type).length routes t t') :
    Contents sem (putRoute (routes.map (reseat hw r.attr.type (opened i))) r') t' := by
  constructor
  · intro q hq h0 hun
    rcases (mem_putRoute_opened hr hneg hid).1 hq with rfl | ⟨x, hx, hne, rfl⟩
    · rw [hres] at hun
      cases hun
    · rw [reseat_reserved] at hun
      rw [reseat_toPieRoute]
      have hx0 := placed_of_reseat h0
      exact hc.holds hl H hs hx hne hx0 (h.holds x hx hx0 hun)
  · intro row hlt hfree
    rw [hc.kept_of_free hl hs hl' hfree]
    refine h.empty row hlt fun q hq heq => ?_
    have hq0 : 0 ≤ q.row := by omega
    obtain ⟨x, hx, -, -, hrow⟩ :=
      hl'.occupied ((hl.pos_lt hq hq0).trans_le (length_le_entered _))
    exact hfree x hx (by rw [hrow, ← (hl.row q hq hq0).1, heq])

/-- The table after the rows behind a route closed up and the last one was cleared. -/
theorem Contents.closes (hl : Layout hw routes b) (H : hw.Lawful sem) (hr : r ∈ routes)
    (h0 : 0 ≤ r.row) (hl' : Layout hw L (departed b r.attr.type (posOf hw r)))
    (hL : ∀ q, q ∈ L ↔ ∃ x ∈ routes, x.id ≠ r.id ∧
      reseat hw r.attr.type (closed (posOf hw r)) x = q)
    (hholds : ∀ q ∈ routes, q.id ≠ r.id → 0 ≤ q.row → q.rowReserved = false →
      sem.Holds (sem.cell t q.row) q.toPieRoute)
    (hempty : ∀ row : Nat, row < maxRoutes → (∀ q ∈ routes, q.row ≠ row) →
      sem.Invalid (sem.cell t row))
    (hc : Resettled hw sem r.attr.type (closed (posOf hw r)) (b r.attr.type).length routes t t₁)
    (hlast : sem.Invalid (sem.cell t' (rowAt hw r.attr.type ((b r.attr.type).length - 1))))
    (hkept : ∀ row, row ≠ rowAt hw r.attr.type ((b r.attr.type).length - 1) →
      sem.cell t' row = sem.cell t₁ row) : Contents sem L t' := by
  have hrp := (hl.row r hr h0).2
  have hs := reseats_closed hl H hrp
  have hlen : (departed b r.attr.type (posOf hw r) r.attr.type).length =
      (b r.attr.type).length - 1 := by
    rw [departed_self, List.length_eraseIdx_of_lt (hl.pos_lt hr h0)]
  constructor
  · intro q hq hq0 hun
    obtain ⟨x, hx, hne, rfl⟩ := (hL q).1 hq
    have hx0 := placed_of_reseat hq0
    rw [reseat_reserved] at hun
    rw [reseat_toPieRoute, hkept]
    · exact hc.holds hl H hs hx hne hx0 (hholds x hx hne hx0 hun)
    -- no route is in the last row any more
    intro heq
    obtain ⟨hrow, -, hp⟩ := hl.reseat_seat H hs hx hne hx0
    have hlt := (List.getElem?_eq_some_iff.1 hp).1
    have hpos := hl.pos_lt hr h0
    obtain ⟨ht, hlastp⟩ := hl.room.inj H (hl.type_cases hx) (hl.type_cases hr)
      (hlt.trans_le (departed_length_le _)) (by omega) (hrow.symm.trans heq)
    rw [hlastp, ht, hlen] at hlt
    exact Nat.lt_irrefl _ hlt
  · intro row hlt hfree
    by_cases hrow : (row : Int) = rowAt hw r.attr.type ((b r.attr.type).length - 1)
    · rw [hrow]
      exact hlast
    rw [hkept row hrow, hc.kept_of_free hl hs hl' hfree]
    refine hempty row hlt fun q hq heq => ?_
    have hq0 : 0 ≤ q.row := by omega
    have hpos := hl.pos_lt hq hq0
    by_cases hin : posOf hw q < (departed b r.attr.type (posOf hw r) q.attr.type).length
    · obtain ⟨x, hx, -, -, hxrow⟩ := hl'.occupied hin
      exact hfree x hx (by rw [hxrow, ← (hl.row q hq hq0).1, heq])
    · have ht : q.attr.type = r.attr.type := by
        by_contra ht
        rw [hs.other ht] at hin
        exact hin hpos
      rw [ht] at hin hpos
      rw [hlen] at hin
      apply hrow
      rw [← heq, (hl.row q hq hq0).1, ht]
      congr 1
      omega

end Contents

end Lede.Otto
