/-
Lede.Otto.PrefixRunTheorems — runs of route events keep the blocks of prefix routes.

Every event keeps `RowsInv` or leaves the rows stale (`prefixStep_inv`). The writes whose answer
the driver does not look at have to go through (`PrefixEvent.Goes`): they are those to a row that a
route already has, and the first one of an IPv6 route.
-/
import Lede.Otto.PrefixPlaceTheorems

namespace Lede.Otto

open Lede.Lib.Positions Layout

variable {T E C D : Type} {hw : PrefixConfig T E} {sem : RowSem T E C D}

structure RowsInv (hw : PrefixConfig T E) (sem : RowSem T E C D) (s : PrefixCtrl T)
    (b : RouteType → List Nat) : Prop where
  layout : Layout hw s.routes b
  contents : Contents sem s.routes s.table
  sound : ∀ q ∈ s.routes, q.attr.valid = true ∧ q.id < maxRoutes ∧ s.routeUseBm q.id = true

attribute [local irreducible] freeRouteId

/-! ## The rows stay stale -/

section Stale

variable {s s' : PrefixCtrl T} {r : PrefixRoute} {io : Nat → E} {e : E} {ev : PrefixEvent E}

theorem routePlace_stale (h : s.prefixRowsStale = true) : routePlace hw s r io = (-1, s) :=
  if_pos h

theorem routeCompact_stale (h : s.prefixRowsStale = true) : routeCompact hw s r io = s :=
  if_pos (.inr h)

theorem writeInstalled_stale {res : Int × PrefixRoute} (hi : writeInstalled hw s r e = (res, s'))
    (h : s.prefixRowsStale = true) : s'.prefixRowsStale = true := by
  grind [writeInstalled, PrefixCtrl.put]

theorem routeInstall_stale (h : s.prefixRowsStale = true) :
    (routeInstall hw s r io).2.prefixRowsStale = true := by
  grind [routeInstall, routePlace_stale, writeInstalled_stale, PrefixCtrl.put]

theorem routeRewrite_stale : (routeRewrite hw s r e).prefixRowsStale = s.prefixRowsStale := by
  grind [routeRewrite]

theorem routeTeardown_stale (h : s.prefixRowsStale = true) :
    (routeTeardown hw s r io).prefixRowsStale = true := by
  grind [routeTeardown, routeFree, routeRemove, routeCompact_stale, rowsStale, PrefixCtrl.put]

theorem placeAndWrite_stale (h : s.prefixRowsStale = true) :
    (placeAndWrite hw s r io).2.prefixRowsStale = true := by
  grind [placeAndWrite, routePlace_stale, PrefixCtrl.put]

theorem withNew_stale {new : PrefixRoute} {f : PrefixRoute → PrefixCtrl T → PrefixCtrl T}
    (h : s.prefixRowsStale = true)
    (hf : ∀ r s', s'.prefixRowsStale = true → (f r s').prefixRowsStale = true) :
    (withNew s new f).prefixRowsStale = true := by
  unfold withNew prefixRouteAlloc
  cases freeRouteId s.routeUseBm with
  | none => exact h
  | some id => exact hf _ _ h

/-- Nothing makes the rows known again. -/
theorem prefixStep_stale (h : s.prefixRowsStale = true) :
    (prefixStep hw s ev).prefixRowsStale = true := by
  cases ev with
  | trapV4 new io => exact withNew_stale h (by grind [routeInstall_stale, routeFree])
  | addV4 new io => exact withNew_stale h (by grind [routeInstall_stale])
  | trapV6 new io => exact withNew_stale h (by grind [placeAndWrite_stale, routeTeardown_stale])
  | addV6 new io => exact withNew_stale h (by grind [placeAndWrite_stale])
  | catchAll type io down =>
    exact withNew_stale h (by grind [placeAndWrite_stale, routeTeardown_stale])
  | updateHw id u io =>
    grind [prefixStep, PrefixCtrl.atRoute, routeUpdateHw, routeRewrite_stale, routeInstall_stale,
      PrefixCtrl.put]
  | trap id io =>
    grind [prefixStep, PrefixCtrl.atRoute, routeTrap, routeRewrite_stale, PrefixCtrl.put]
  | teardown id io => grind [prefixStep, PrefixCtrl.atRoute, routeTeardown_stale]

end Stale

/-! ## A route in its row -/

section Route

variable {s s' : PrefixCtrl T} {b b' : RouteType → List Nat} {r r' q : PrefixRoute} {t t' : T}
  {e : E} {io : Nat → E} {err : Int}

/-- `r'` may stand for `r` in the list. -/
structure Restates (r r' : PrefixRoute) : Prop extends SameKey r r' where
  fits : r'.RowFits
  valid : r'.attr.valid = true

theorem RowsInv.restates (h : RowsInv hw sem s b) (hr : r ∈ s.routes) : Restates r r :=
  ⟨⟨rfl, .inl rfl, rfl, rfl, rfl⟩, h.layout.fits r hr, (h.sound r hr).1⟩

/-- A route says something else, and no row but its own changes. -/
theorem RowsInv.change (h : RowsInv hw sem s b) (H : hw.Lawful sem) (hr : r ∈ s.routes)
    (hk : Restates r r') (hkept : ∀ row, row ≠ r.row → sem.cell t row = sem.cell s.table row)
    (hheld : 0 ≤ r'.row → r'.rowReserved = false →
      sem.Holds (sem.cell t r'.row) r'.toPieRoute) :
    RowsInv hw sem ({ s with table := t }.put r') b := by
  have hl := h.layout.put H hr hk.toSameKey hk.fits
  have hmem := fun q => mem_putRoute_iff (q := q) hr hk.id
  have hr' := mem_putRoute hr hk.id
  have hrow' : 0 ≤ r.row ∨ 0 ≤ r'.row → r'.row = r.row := fun h0 =>
    hk.row.resolve_right fun hneg => by omega
  refine ⟨hl, ⟨fun q hq h0 hun => ?_, fun row hlt hfree => ?_⟩, fun q hq => ?_⟩
  · rcases (hmem q).1 hq with rfl | ⟨hqs, hne⟩
    · exact hheld h0 hun
    · refine (congrArg (sem.Holds · _) (hkept q.row fun heq => hne ?_)).mpr
        (h.contents.holds q hqs h0 hun)
      rw [h.layout.distinct H q hqs r hr h0 heq]
  · have hne : (row : Int) ≠ r.row := fun heq =>
      hfree r' hr' ((hrow' (.inl (by omega))).trans heq.symm)
    refine (congrArg sem.Invalid (hkept row hne)).mpr (h.contents.empty row hlt fun q hq heq => ?_)
    by_cases hid : q.id = r.id
    · exact hne (by rw [← heq, id_inj h.layout.ids hq hr hid])
    · exact hfree q ((hmem q).2 (.inr ⟨hq, hid⟩)) heq
  · rcases (hmem q).1 hq with rfl | ⟨hqs, -⟩
    · exact ⟨hk.valid, hk.id ▸ (h.sound r hr).2⟩
    · exact h.sound q hqs

/-- A route without a row, or with a row nobody wrote yet, may say anything. -/
theorem RowsInv.unwritten (h : RowsInv hw sem s b) (H : hw.Lawful sem) (hr : r ∈ s.routes)
    (hk : Restates r r') (hun : r'.row < 0 ∨ r'.rowReserved = true) :
    RowsInv hw sem (s.put r') b :=
  h.change H hr hk (fun _ _ => rfl) fun h0 hres => by
    rcases hun with hneg | hres'
    · omega
    · rw [hres] at hres'
      cases hres'

/-- The row of a route is written with what the route says now. -/
theorem RowsInv.write (h : RowsInv hw sem s b) (H : hw.Lawful sem) (hr : r ∈ s.routes)
    (h0 : 0 ≤ r.row) (hk : Restates r r') (hq : q.toPieRoute = r'.toPieRoute)
    (hw' : hw.routeWrite s.table r.row q e = (err, t)) (hfail : err ≠ 0 → r'.rowReserved = true) :
    RowsInv hw sem ({ s with table := t }.put r') b := by
  have hin := h.layout.in_table H hr h0
  have hrow : r'.row = r.row := hk.row.resolve_right fun hneg => by omega
  refine h.change H hr hk (fun row hne => H.write_kept hin hw' hne) fun _ hres => ?_
  obtain rfl : err = 0 := by
    by_contra herr
    rw [hfail herr] at hres
    cases hres
  have hok := H.write_ok hin (hq ▸ hk.fits) hw'
  rwa [hq, if_pos hk.valid, ← hrow] at hok

/-- A route that has a row says something else there; a failure is one of a row that was not
written before. -/
theorem RowsInv.restate (h : RowsInv hw sem s b) (H : hw.Lawful sem) (hr : r ∈ s.routes)
    (h0 : 0 ≤ r.row) (hk : Restates r r') (hres : r'.rowReserved = r.rowReserved)
    (hok : r.rowReserved = false → sem.Ok e) (hw' : hw.routeWrite s.table r.row r' e = (err, t)) :
    RowsInv hw sem { s.put r' with table := t } b := by
  refine h.write H hr h0 hk rfl hw' fun herr => ?_
  by_contra hun
  have hun' : r.rowReserved = false := hres ▸ Bool.eq_false_of_not_eq_true hun
  have hgo := H.write_go (t := s.table) (h.layout.in_table H hr h0) hk.fits (hok hun')
  rw [hw'] at hgo
  exact herr hgo

theorem RowsInv.routeRewrite (h : RowsInv hw sem s b) (H : hw.Lawful sem) (hr : r ∈ s.routes)
    (hk : Restates r r') (hres : r'.rowReserved = r.rowReserved)
    (hok : 0 ≤ r.row → r.rowReserved = false → sem.Ok e) :
    RowsInv hw sem (Otto.routeRewrite hw (s.put r') r' e) b := by
  have hfirst : firstPrefix = 1 := rfl
  unfold Otto.routeRewrite
  by_cases h0 : 0 ≤ r.row
  · have hrow : r'.row = r.row := hk.row.resolve_right fun hneg => by omega
    rw [if_pos (hrow ▸ (h.layout.in_table H hr h0).1), hrow]
    exact h.restate H hr h0 hk hres (hok h0) rfl
  · have hneg : r'.row < 0 := by
      rcases hk.row with heq | hneg
      · omega
      · exact hneg.2
    rw [if_neg (by omega)]
    exact h.unwritten H hr hk (.inl hneg)

theorem RowsInv.free (h : RowsInv hw sem s b) (H : hw.Lawful sem) (hr : r ∈ s.routes)
    (hrow : r.row < 0) : RowsInv hw sem (routeFree s r) b := by
  have hmem : ∀ {q}, q ∈ (routeFree s r).routes ↔ q ∈ s.routes ∧ q.id ≠ r.id := fun {q} => by
    simp [routeFree]
  refine ⟨h.layout.free H hr hrow, ⟨fun q hq => h.contents.holds q (hmem.1 hq).1,
    fun row hlt hfree => h.contents.empty row hlt fun q hq heq => ?_⟩, fun q hq => ?_⟩
  · refine hfree q (hmem.2 ⟨hq, fun hid => ?_⟩) heq
    rw [id_inj h.layout.ids hq hr hid] at heq
    omega
  · obtain ⟨hqs, hne⟩ := hmem.1 hq
    obtain ⟨hv, hlt, hbm⟩ := h.sound q hqs
    refine ⟨hv, hlt, ?_⟩
    unfold routeFree
    dsimp only
    split
    · exact hbm
    · rwa [Function.update_of_ne hne]

/-! ## A route that comes -/

theorem freeRouteId_spec {bm : Nat → Bool} {id : Nat} (h : freeRouteId bm = some id) :
    id < maxRoutes ∧ bm id = false := by
  unfold freeRouteId at h
  generalize maxRoutes = n at h ⊢
  have hp := List.find?_some h
  have hmem : id ∈ List.range n := List.mem_of_find?_eq_some h
  exact ⟨List.mem_range.1 hmem, by simpa using hp⟩

/-- The rows are in order, or known not to be. -/
def RowsKept (hw : PrefixConfig T E) (sem : RowSem T E C D) (s : PrefixCtrl T) : Prop :=
  s.prefixRowsStale = true ∨ ∃ b, RowsInv hw sem s b

theorem RowsInv.withNew (h : RowsInv hw sem s b) {new : PrefixRoute}
    {f : PrefixRoute → PrefixCtrl T → PrefixCtrl T} (hfits : new.trapNew.RowFits)
    (hf : ∀ r s', RowsInv hw sem s' b → r ∈ s'.routes → r.row < 0 →
      s'.prefixRowsStale = s.prefixRowsStale → RowsKept hw sem (f r s')) :
    RowsKept hw sem (Otto.withNew s new f) := by
  unfold Otto.withNew prefixRouteAlloc
  cases hid : freeRouteId s.routeUseBm with
  | none => exact .inr ⟨b, h⟩
  | some id =>
    obtain ⟨hlt, hfree⟩ := freeRouteId_spec hid
    have hne : ∀ q ∈ s.routes, q.id ≠ id := by
      rintro q hq rfl
      have hbm := (h.sound q hq).2.2
      rw [hfree] at hbm
      cases hbm
    have hneg : (-1 : Int) < 0 := by decide
    refine hf _ _ ⟨h.layout.add hneg hfits hne, ⟨?_, fun row hrow hfree => ?_⟩, ?_⟩
      (List.mem_append_right _ (List.mem_singleton.2 rfl)) hneg rfl
    · refine List.forall_mem_append.2 ⟨h.contents.holds, List.forall_mem_singleton.2 fun h0 => ?_⟩
      exact absurd h0 (not_le_of_gt hneg)
    · exact h.contents.empty row hrow fun q hq => hfree q (List.mem_append_left _ hq)
    · refine List.forall_mem_append.2 ⟨fun q hq => ?_, List.forall_mem_singleton.2 ?_⟩
      · obtain ⟨hv, hlt, hbm⟩ := h.sound q hq
        exact ⟨hv, hlt, (Function.update_of_ne (hne q hq) ..).trans hbm⟩
      · exact ⟨rfl, hlt, Function.update_self _ _ _⟩

/-- What placing a route comes to while the rows are not stale: it has a row of its own in the
blocks, or nothing changed. -/
theorem RowsInv.place (h : RowsInv hw sem s b) (H : hw.Lawful sem) (hr : r ∈ s.routes)
    (hneg : r.row < 0) (hstale : s.prefixRowsStale = false) {row : Int}
    (hplace : routePlace hw s r io = (row, s')) :
    s'.prefixRowsStale = true ∨ (row = -1 ∧ s' = s) ∨ ∃ b',
      firstPrefix ≤ row ∧ r ∈ s'.routes ∧ s'.prefixRowsStale = false ∧
        RowsInv hw sem (s'.put { r with row := row, rowReserved := true }) b' := by
  rcases routePlace_cases H h.layout hr hstale hplace with hs | hs | ⟨i, ho, hrank⟩
  · exact .inl hs
  · exact .inr (.inl hs)
  have hstay : reseat hw r.attr.type (opened i) r = r := reseat_of_not (by omega)
  have hr' : r ∈ s'.routes := ho.routes ▸ List.mem_map.2 ⟨r, hr, hstay⟩
  have hl := h.layout.opens H hr hneg ho.le ho.room hrank true
  have hc := h.contents.opens h.layout H hr hneg
    (reseats_opened ho.le (fun p => h.layout.not_seated H hr hneg) ho.room) (by rfl) (by rfl) hl
    ho.cells
  rw [← ho.row, ← ho.routes] at hl hc
  have hin := h.layout.type_cases hr
  refine .inr (.inr ⟨_, ?_, hr', ho.stale, hl, hc, fun q hq => ?_⟩)
  · rw [ho.row]
    refine (ho.room.in_table H hin ?_).1
    rw [entered_length _ ho.le]
    exact Nat.lt_succ_of_le ho.le
  · change _ ∧ _ ∧ s'.routeUseBm q.id = true
    rw [ho.useBm]
    rcases (mem_putRoute_iff hr' (by rfl)).1 hq with rfl | ⟨hq, -⟩
    · exact h.sound r hr
    · rw [ho.routes] at hq
      obtain ⟨x, hx, rfl⟩ := List.mem_map.1 hq
      rw [reseat_toPieRoute, reseat_id]
      exact h.sound x hx

theorem mem_put (hr : r ∈ s.routes) (r' : PrefixRoute) (hid : r'.id = r.id) :
    r' ∈ (s.put r').routes := mem_putRoute hr hid

theorem PrefixCtrl.put_put (hid : r'.id = r.id) : (s.put r).put r' = s.put r' := by
  unfold PrefixCtrl.put putRoute
  congr 1
  rw [List.map_map]
  refine List.map_congr_left fun q _ => ?_
  simp only [Function.comp_apply, hid]
  by_cases hq : q.id = r.id
  · simp [hq]
  · simp [hq]

/-- The route as an operation leaves it is in the list, in its row of the table or without one. -/
structure Left (hw : PrefixConfig T E) (sem : RowSem T E C D) (r : PrefixRoute)
    (s : PrefixCtrl T) : Prop where
  inv : ∃ b, RowsInv hw sem s b
  mem : r ∈ s.routes
  row : firstPrefix ≤ r.row ∨ r.row < 0

theorem RowsInv.writeInstalled (h : RowsInv hw sem s b) (H : hw.Lawful sem) (hr : r ∈ s.routes)
    (h0 : 0 ≤ r.row) (hk : Restates r r') (hres : r'.rowReserved = r.rowReserved)
    (hok : r.rowReserved = false → sem.Ok e) {res : Int × PrefixRoute}
    (hi : Otto.writeInstalled hw (s.put r') r' e = (res, s')) : Left hw sem res.2 s' := by
  have hrow : r'.row = r.row := hk.row.resolve_right fun hneg => by omega
  have hin : firstPrefix ≤ r'.row := hrow ▸ (h.layout.in_table H hr h0).1
  unfold Otto.writeInstalled at hi
  cases hw' : hw.routeWrite s.table r'.row r' e with
  | mk err t =>
    rw [show (s.put r').table = s.table from rfl, hw'] at hi
    rw [hrow] at hw'
    by_cases herr : err = 0
    · subst herr
      simp only [ne_eq, not_true, if_false] at hi
      obtain ⟨rfl, rfl⟩ := Prod.mk.inj hi
      have hk' : Restates r { r' with rowReserved := false } :=
        ⟨⟨hk.id, hk.row, hk.type, hk.prefixLen, hk.tbId⟩, hk.fits, hk.valid⟩
      have hwrite := h.write (q := r') H hr h0 hk' rfl hw' fun herr => absurd rfl herr
      have hput := PrefixCtrl.put_put (s := { s with table := t })
        (show ({ r' with rowReserved := false } : PrefixRoute).id = r'.id from rfl)
      rw [← hput] at hwrite
      exact ⟨⟨b, hwrite⟩, mem_putRoute (mem_putRoute hr hk.id) rfl, .inl hin⟩
    · simp only [ne_eq, herr, not_false_eq_true, if_true] at hi
      obtain ⟨rfl, rfl⟩ := Prod.mk.inj hi
      exact ⟨⟨b, h.restate H hr h0 hk hres hok hw'⟩, mem_putRoute hr hk.id, .inl hin⟩

/-- `otto_l3_route_install` of a route that may have a row already. -/
theorem RowsInv.install (h : RowsInv hw sem s b) (H : hw.Lawful sem) (hr : r ∈ s.routes)
    (hk : Restates r r') (hrow : r'.row = r.row) (hres : r'.rowReserved = r.rowReserved)
    (hstale : s.prefixRowsStale = false)
    (hok : 0 ≤ r.row → r.rowReserved = false → sem.Ok (io 0)) :
    (routeInstall hw (s.put r') r' io).2.prefixRowsStale = true ∨
      Left hw sem (routeInstall hw (s.put r') r' io).1.2 (routeInstall hw (s.put r') r' io).2 := by
  obtain ⟨⟨res, s'⟩, hi⟩ : ∃ p, routeInstall hw (s.put r') r' io = p := ⟨_, rfl⟩
  rw [hi]
  unfold routeInstall at hi
  rw [hrow] at hi
  by_cases h0 : 0 ≤ r.row
  · rw [if_neg (by omega)] at hi
    exact .inr (h.writeInstalled H hr h0 hk hres (hok h0) hi)
  have hneg : r'.row < 0 := by omega
  rw [if_pos (hrow ▸ hneg)] at hi
  have hput := h.unwritten H hr hk (.inl hneg)
  have hr' : r' ∈ (s.put r').routes := mem_putRoute hr hk.id
  cases hplace : routePlace hw (s.put r') r' (fun n => io (n + 1)) with
  | mk row s₁ =>
    rw [hplace] at hi
    rcases hput.place H hr' hneg hstale hplace with hs | ⟨rfl, rfl⟩ | ⟨b', hin, hmem, -, hs⟩
    · left
      dsimp only at hi
      split at hi
      · obtain ⟨-, rfl⟩ := Prod.mk.inj hi
        exact hs
      · exact writeInstalled_stale hi hs
    · obtain ⟨rfl, rfl⟩ := Prod.mk.inj hi
      have hk' : Restates r' { r' with row := -1, rowReserved := false } :=
        ⟨⟨rfl, .inr ⟨hneg, Int.negSucc_lt_zero 0⟩, rfl, rfl, rfl⟩, hk.fits, hk.valid⟩
      exact .inr ⟨⟨b, hput.unwritten H hr' hk' (.inl (Int.negSucc_lt_zero 0))⟩,
        mem_putRoute hr' rfl, .inr (Int.negSucc_lt_zero 0)⟩
    · have hfirst : firstPrefix = 1 := rfl
      have hreserved : decide (firstPrefix ≤ row) = true := decide_eq_true hin
      simp only [hreserved] at hi
      rw [if_neg (by omega)] at hi
      have hmem' := mem_put hmem { r' with row := row, rowReserved := true } rfl
      refine .inr (hs.writeInstalled (e := io 0) H hmem' ?_ (hs.restates hmem') rfl
        (fun h => by cases h) ?_)
      · change 0 ≤ row
        omega
      · rw [PrefixCtrl.put_put rfl]
        exact hi

theorem placeAndWrite_of_placed {row : Int}
    (hplace : routePlace hw s r (fun n => io (n + 1)) = (row, s')) (hrow : firstPrefix ≤ row)
    (hw' : hw.routeWrite s'.table row { r with row := row } (io 0) = (err, t)) :
    Otto.placeAndWrite hw s r io =
      ((err, { r with row := row }), { s'.put { r with row := row } with table := t }) := by
  rw [Otto.placeAndWrite, hplace]
  refine (if_neg (not_lt_of_ge hrow)).trans ?_
  rw [show (s'.put { r with row := row }).table = s'.table from rfl, hw']

theorem RowsInv.placeAndWrite (h : RowsInv hw sem s b) (H : hw.Lawful sem) (hr : r ∈ s.routes)
    (hneg : r.row < 0) (hstale : s.prefixRowsStale = false) (hok : sem.Ok (io 0))
    {res : Int × PrefixRoute} (hi : Otto.placeAndWrite hw s r io = (res, s')) :
    s'.prefixRowsStale = true ∨
      Left hw sem res.2 s' ∧ s'.prefixRowsStale = false ∧ res.1 = 0 := by
  cases hplace : routePlace hw s r (fun n => io (n + 1)) with
  | mk row s₁ =>
    rcases h.place H hr hneg hstale hplace with hs | ⟨rfl, rfl⟩ | ⟨b', hin, hmem, hst, hs⟩
    · left
      rw [Otto.placeAndWrite, hplace] at hi
      dsimp only at hi
      split at hi
      · obtain ⟨-, rfl⟩ := Prod.mk.inj hi
        exact hs
      · obtain ⟨-, rfl⟩ := Prod.mk.inj hi
        exact hs
    · rw [Otto.placeAndWrite, hplace] at hi
      obtain ⟨rfl, rfl⟩ := Prod.mk.inj hi
      have hr' := h.restates hr
      have hk : Restates r { r with row := -1 } :=
        ⟨⟨rfl, .inr ⟨hneg, Int.negSucc_lt_zero 0⟩, rfl, rfl, rfl⟩, hr'.fits, hr'.valid⟩
      exact .inr ⟨⟨⟨b, h.unwritten H hr hk (.inl (Int.negSucc_lt_zero 0))⟩, mem_putRoute hr rfl,
        .inr (Int.negSucc_lt_zero 0)⟩, hstale, rfl⟩
    · have hfirst : firstPrefix = 1 := rfl
      have hmem' := mem_put hmem { r with row := row, rowReserved := true } rfl
      have hr' := hs.restates hmem'
      have hk : Restates { r with row := row, rowReserved := true } { r with row := row } :=
        ⟨⟨rfl, .inl rfl, rfl, rfl, rfl⟩, hr'.fits, hr'.valid⟩
      have h0 : (0 : Int) ≤ row := by omega
      have hgo := H.write_go (t := s₁.table) (r := { r with row := row })
        (hs.layout.in_table H hmem' h0) hr'.fits hok
      cases hw' : hw.routeWrite s₁.table row { r with row := row } (io 0) with
      | mk err t =>
        rw [hw'] at hgo
        obtain rfl : err = 0 := hgo
        rw [placeAndWrite_of_placed hplace hin hw'] at hi
        obtain ⟨rfl, rfl⟩ := Prod.mk.inj hi
        have hone := hs.write (q := { r with row := row }) H hmem' h0 hk rfl hw' fun herr => absurd rfl herr
        have hput := PrefixCtrl.put_put (s := { s₁ with table := t })
          (show ({ r with row := row } : PrefixRoute).id =
            ({ r with row := row, rowReserved := true } : PrefixRoute).id from rfl)
        rw [show (({ s₁.put { r with row := row, rowReserved := true } with table := t } :
            PrefixCtrl T).put { r with row := row }) = _ from hput] at hone
        exact .inr ⟨⟨⟨b', hone⟩, mem_putRoute hmem rfl, .inl hin⟩, hst, rfl⟩

/-! ## A route that goes -/

/-- The rest of a teardown, when the row of the route was cleared. -/
theorem RowsInv.closes (h : RowsInv hw sem s b) (H : hw.Lawful sem) (r' : PrefixRoute)
    (io : Nat → E) (hr : r ∈ s.routes) (h0 : 0 ≤ r.row) (hstale : s.prefixRowsStale = false) (hk : SameKey r r')
    (hrow : r'.row = r.row) (hfits : r'.RowFits) (hinv : sem.Invalid (sem.cell t r.row))
    (hkept : ∀ row, row ≠ r.row → sem.cell t row = sem.cell s.table row) :
    RowsKept hw sem (routeFree (routeCompact hw ({ s with table := t }.put r') r' io) r) := by
  have hmem := fun q => mem_putRoute_iff (q := q) hr hk.id
  have hr' := mem_putRoute hr hk.id
  have hl := h.layout.put H hr hk hfits
  have h0' : 0 ≤ r'.row := hrow ▸ h0
  generalize hs₁ : ({ s with table := t } : PrefixCtrl T).put r' = s₁
  have hroutes : s₁.routes = putRoute s.routes r' := by rw [← hs₁]; rfl
  have htable : s₁.table = t := by rw [← hs₁]; rfl
  rw [← hroutes] at hl hr' hmem
  obtain ⟨s₂, hs₂⟩ : ∃ s₂, routeCompact hw s₁ r' io = s₂ := ⟨_, rfl⟩
  rw [hs₂]
  rcases routeCompact_cases H hl hr' h0' (by rw [← hs₁]; exact hstale)
    (by rw [htable, hrow]; exact hinv) hs₂ with hst | hclosed
  · exact .inl hst
  obtain ⟨t₁, hcells, hlast, hclear⟩ := hclosed.cells
  rw [htable] at hcells
  have hL : ∀ q, q ∈ (routeFree s₂ r).routes ↔ ∃ x ∈ s₁.routes, x.id ≠ r'.id ∧
      reseat hw r'.attr.type (closed (posOf hw r')) x = q := by
    intro q
    have hfree : q ∈ (routeFree s₂ r).routes ↔ q ∈ s₂.routes ∧ q.id ≠ r'.id := by
      simp [routeFree, hk.id]
    rw [hfree]
    constructor
    · rintro ⟨hq, hne⟩
      obtain ⟨x, hx, rfl⟩ := (hclosed.mem q hne).1 hq
      exact ⟨x, hx, by rwa [reseat_id] at hne, rfl⟩
    · rintro ⟨x, hx, hne, rfl⟩
      rw [← reseat_id] at hne
      exact ⟨(hclosed.mem _ hne).2 ⟨x, hx, rfl⟩, hne⟩
  have hids : ((routeFree s₂ r).routes.map (·.id)).Nodup :=
    (hclosed.ids ▸ hl.ids).sublist (List.filter_sublist.map _)
  have hlL := hl.closes H hr' h0' hids hL
  have hold : ∀ q ∈ s₁.routes, q.id ≠ r'.id → q ∈ s.routes ∧ q.id ≠ r.id := fun q hq hne =>
    ((hmem q).1 hq).resolve_left fun heq => hne (heq ▸ rfl)
  refine .inr ⟨_, hlL, Contents.closes hl H hr' h0' hlL hL (fun q hq hne hq0 hun => ?_)
    (fun row hlt hfree => ?_) hcells hlast hclear, fun q hq => ?_⟩
  · obtain ⟨hqs, hqr⟩ := hold q hq hne
    rw [hkept _ fun heq => hqr (by rw [h.layout.distinct H q hqs r hr hq0 heq])]
    exact h.contents.holds q hqs hq0 hun
  · have hne : (row : Int) ≠ r.row := hrow ▸ (hfree r' hr').symm
    rw [hkept _ hne]
    refine h.contents.empty row hlt fun q hq heq => ?_
    by_cases hid : q.id = r.id
    · exact hne (by rw [← heq, id_inj h.layout.ids hq hr hid])
    · exact hfree q ((hmem q).2 (.inr ⟨hq, hid⟩)) heq
  · obtain ⟨x, hx, hne, rfl⟩ := (hL q).1 hq
    obtain ⟨hxs, hxr⟩ := hold x hx hne
    obtain ⟨hv, hlt, hbm⟩ := h.sound x hxs
    rw [reseat_toPieRoute, reseat_id]
    refine ⟨hv, hlt, ?_⟩
    unfold routeFree
    rw [hclosed.stale, if_neg Bool.false_ne_true, hclosed.useBm, ← hs₁]
    exact (Function.update_of_ne hxr ..).trans hbm

/-- A route that is in its row is found there, unless it cannot be read. -/
theorem findRow_of_found (io : Nat → E) {found : Int} (hrow : firstPrefix ≤ r.row)
    (hf : hw.routeMatches s.table r.row r (io 0) = found) (hne : found ≠ 0) :
    findRow hw s r io = (r.row, found) := by
  have hfound : rowMatches hw s.table r.row r (io 0) = found := by
    rw [rowMatches, if_neg (by omega), hf]
  unfold findRow
  rw [hfound]
  cases hw.routeLookupHw with
  | none => exact if_neg fun h => hne h.1
  | some lookup =>
    dsimp only
    rw [if_pos hne]
    exact if_neg fun h => hne h.1

theorem RowsInv.teardown (h : RowsInv hw sem s b) (H : hw.Lawful sem) (hr : r ∈ s.routes)
    (hstale : s.prefixRowsStale = false)
    (hok : 0 ≤ r.row → r.rowReserved = false → sem.Ok (io 0)) :
    RowsKept hw sem (routeTeardown hw s r io) := by
  have hfirst : firstPrefix = 1 := rfl
  by_cases h0 : 0 ≤ r.row
  swap
  · right
    rw [routeTeardown, routeRemove, if_pos (by omega)]
    exact ⟨b, h.free H hr (by omega)⟩
  have hin := h.layout.in_table H hr h0
  have hfits := h.layout.fits r hr
  have hnot : ¬r.row < firstPrefix := not_lt_of_ge hin.1
  cases hw' : hw.routeWrite s.table r.row r.cleared (io 0) with
  | mk err t =>
    have hinv : err = 0 → sem.Invalid (sem.cell t r.row) := by
      rintro rfl
      exact H.write_ok (r := r.cleared) hin hfits.cleared hw'
    have hkept : ∀ row, row ≠ r.row → sem.cell t row = sem.cell s.table row :=
      fun row hne => H.write_kept hin hw' hne
    cases hres : r.rowReserved with
    | true =>
      rw [routeTeardown, routeRemove, if_neg hnot, if_pos (by simp [hres, hstale]), hw']
      by_cases herr : err = 0
      · rw [herr]
        exact h.closes H { r.cleared with rowReserved := false } (fun n => io (n + 1)) hr h0 hstale
          ⟨rfl, .inl rfl, rfl, rfl, rfl⟩ rfl hfits.cleared (hinv herr) hkept
      · left
        simp only [ne_eq, herr, not_false_eq_true, if_true]
        rfl
    | false =>
      rw [routeTeardown, routeRemove, if_neg hnot, if_neg (by simp [hres])]
      rcases H.matches_holds (e := io 1) hin hfits (h.contents.holds r hr h0 hres) with hone | hneg
      · obtain rfl : err = 0 := by
          have hgo := H.write_go (t := s.table) hin hfits.cleared (hok h0 hres)
          rwa [hw'] at hgo
        rw [findRow_of_found (fun n => io (n + 1)) hin.1 hone one_ne_zero]
        dsimp only
        rw [if_pos Int.one_pos, if_pos Int.one_pos,
          show (hw.routeWrite s.table r.row r.cleared (io 0)).2 = t by rw [hw']]
        exact h.closes H { r.cleared with row := r.row } (fun n => io (n + 4)) hr h0 hstale
          ⟨rfl, .inl rfl, rfl, rfl, rfl⟩ rfl hfits.cleared (hinv rfl) hkept
      · left
        rw [findRow_of_found (fun n => io (n + 1)) hin.1 rfl (ne_of_lt hneg)]
        dsimp only
        rw [if_neg (not_lt_of_gt hneg), if_neg (not_lt_of_gt hneg), if_pos (.inr hneg),
          routeCompact_stale rfl]
        rfl

end Route

/-! ## Events -/

section Events

variable {s s' : PrefixCtrl T} {b : RouteType → List Nat} {r new : PrefixRoute}
  {io down : Nat → E} {u : NexthopUpdate}

theorem PieRoute.RowFits.trapNew (h : new.RowFits) : new.trapNew.RowFits :=
  ⟨⟨h.unicast.unicast, h.unicast.nhId, (by decide : ROUTE_ACT_TRAP2CPU.toNat < 2 ^ 2),
    h.unicast.qosPrio⟩, h.len, h.l2Id⟩

theorem Restates.trapping (h : Restates r r) : Restates r r.trapping :=
  ⟨⟨rfl, .inl rfl, rfl, rfl, rfl⟩, ⟨⟨h.fits.unicast.unicast, h.fits.unicast.nhId,
    (by decide : ROUTE_ACT_TRAP2CPU.toNat < 2 ^ 2), h.fits.unicast.qosPrio⟩, h.fits.len,
    h.fits.l2Id⟩, h.valid⟩

theorem Restates.updated (h : Restates r r) (hid : r.id < maxRoutes)
    (hu : u.l2Id.toNat < 2 ^ 14) : Restates r (r.updated u) := by
  refine ⟨⟨rfl, .inl rfl, rfl, rfl, rfl⟩, ⟨⟨h.fits.unicast.unicast, ?_, ?_,
    h.fits.unicast.qosPrio⟩, h.fits.len, hu⟩, rfl⟩
  · change (BitVec.ofNat 16 r.id).toNat < 2 ^ 11
    unfold maxRoutes at hid
    rw [BitVec.toNat_ofNat]
    omega
  · change (if u.trap then ROUTE_ACT_TRAP2CPU else ROUTE_ACT_FORWARD).toNat < 2 ^ 2
    split <;> decide

/-- A route with this id was written to its row. -/
def Written (s : PrefixCtrl T) (id : Nat) : Prop :=
  ∃ r ∈ s.routes, r.id = id ∧ 0 ≤ r.row ∧ r.rowReserved = false

/-- What an event brings fits the rows. -/
def PrefixEvent.Fits : PrefixEvent E → Prop
  | .trapV4 new _ | .addV4 new _ | .trapV6 new _ | .addV6 new _ => new.RowFits
  | .catchAll type _ _ => type = .ip4uc ∨ type = .ip6uc
  | .updateHw _ u _ => u.l2Id.toNat < 2 ^ 14
  | .trap _ _ | .teardown _ _ => True

/-- The writes that nobody looks at go through. -/
def PrefixEvent.Goes (sem : RowSem T E C D) (s : PrefixCtrl T) : PrefixEvent E → Prop
  | .trapV4 _ _ | .addV4 _ _ => True
  | .trapV6 _ io | .addV6 _ io | .catchAll _ io _ => sem.Ok (io 0)
  | .updateHw id _ io => Written s id → sem.Ok (io 1) ∧ sem.Ok (io 2)
  | .trap id io | .teardown id io => Written s id → sem.Ok (io 0)

theorem RowsInv.atRoute (h : RowsInv hw sem s b) {id : Nat} {f : PrefixRoute → PrefixCtrl T}
    (hf : ∀ r ∈ s.routes, r.id = id → RowsKept hw sem (f r)) : RowsKept hw sem (s.atRoute id f) := by
  unfold PrefixCtrl.atRoute
  cases hfind : s.routes.find? (·.id = id) with
  | none => exact .inr ⟨b, h⟩
  | some r =>
    exact hf r (List.mem_of_find?_eq_some hfind) (by simpa using List.find?_some hfind)

/-- A route that was allocated is installed. -/
theorem RowsInv.installNew (h : RowsInv hw sem s b) (io : Nat → E) (H : hw.Lawful sem) (hr : r ∈ s.routes)
    (hneg : r.row < 0) (hstale : s.prefixRowsStale = false) :
    (routeInstall hw s r io).2.prefixRowsStale = true ∨
      Left hw sem (routeInstall hw s r io).1.2 (routeInstall hw s r io).2 := by
  have hself : s.put r = s := by
    refine (congrArg (fun l => ({ s with routes := l } : PrefixCtrl T))
      ((List.map_congr_left fun q hq => ?_).trans (List.map_id _))).trans rfl
    by_cases hid : q.id = r.id
    · rw [if_pos hid, id_inj h.layout.ids hq hr hid]
      rfl
    · exact if_neg hid
  have hinst := h.install H hr (h.restates hr) rfl rfl hstale
    (fun h0 => by omega : 0 ≤ r.row → r.rowReserved = false → sem.Ok (io 0))
  rwa [hself] at hinst

theorem RowsInv.fibTrapV4 (h : RowsInv hw sem s b) (H : hw.Lawful sem) (hfits : new.RowFits)
    (hstale : s.prefixRowsStale = false) : RowsKept hw sem (prefixFibTrapV4 hw s new io) := by
  refine h.withNew hfits.trapNew fun r s₁ h₁ hr hneg hst => ?_
  have hinst := h₁.installNew io H hr hneg (hst.trans hstale)
  dsimp only
  split
  · rename_i hc
    refine hinst.imp id fun hl => ?_
    obtain ⟨b', hinv⟩ := hl.inv
    exact ⟨b', hinv.free H hl.mem (hl.row.resolve_left (not_le_of_gt hc.2))⟩
  · exact hinst.imp_right Left.inv

/-- A route without a row is taken out again. -/
theorem Left.teardown (h : Left hw sem r s) (H : hw.Lawful sem) (hstale : s.prefixRowsStale = false)
    (hrow : r.row < firstPrefix) : RowsKept hw sem (routeTeardown hw s r io) := by
  obtain ⟨b, hinv⟩ := h.inv
  exact hinv.teardown H h.mem hstale fun h0 => absurd (h.row.resolve_left (not_le_of_gt hrow))
    (not_lt_of_ge h0)

/-- A route that was allocated is placed and written; it goes again when there is no row. -/
theorem RowsInv.placeOrDrop (h : RowsInv hw sem s b) (H : hw.Lawful sem) (hr : r ∈ s.routes)
    (hneg : r.row < 0) (hstale : s.prefixRowsStale = false) (hok : sem.Ok (io 0))
    (drop : Int × PrefixRoute → Prop) [DecidablePred drop]
    (hdrop : ∀ res, res.1 = 0 → drop res → res.2.row < firstPrefix) :
    RowsKept hw sem (if drop (Otto.placeAndWrite hw s r io).1 then
      routeTeardown hw (Otto.placeAndWrite hw s r io).2 (Otto.placeAndWrite hw s r io).1.2 down
      else (Otto.placeAndWrite hw s r io).2) := by
  cases hp : Otto.placeAndWrite hw s r io with
  | mk res s' =>
    dsimp only
    rcases h.placeAndWrite H hr hneg hstale hok hp with hs | ⟨hl, hst, hret⟩
    · left
      split
      · exact routeTeardown_stale hs
      · exact hs
    · split
      · rename_i hd
        exact hl.teardown H hst (hdrop res hret hd)
      · exact .inr hl.inv

theorem RowsInv.fibTrapV6 (h : RowsInv hw sem s b) (H : hw.Lawful sem) (hfits : new.RowFits)
    (hstale : s.prefixRowsStale = false) (hok : sem.Ok (io 0)) :
    RowsKept hw sem (prefixFibTrapV6 hw s new io) :=
  h.withNew hfits.trapNew fun _ _ h₁ hr hneg hst =>
    h₁.placeOrDrop H hr hneg (hst.trans hstale) hok (fun res => res.2.row < firstPrefix)
      fun _ _ hd => hd

theorem RowsInv.fibAddV6 (h : RowsInv hw sem s b) (H : hw.Lawful sem) (hfits : new.RowFits)
    (hstale : s.prefixRowsStale = false) (hok : sem.Ok (io 0)) :
    RowsKept hw sem (prefixFibAddV6 hw s new io) :=
  h.withNew hfits.trapNew fun _ _ h₁ hr hneg hst =>
    (h₁.placeAndWrite H hr hneg (hst.trans hstale) hok rfl).imp_right fun hl => hl.1.inv

theorem RowsInv.addCatchAll (h : RowsInv hw sem s b) (H : hw.Lawful sem) {type : RouteType}
    (htype : type = .ip4uc ∨ type = .ip6uc) (hstale : s.prefixRowsStale = false)
    (hok : sem.Ok (io 0)) : RowsKept hw sem (Otto.addCatchAll hw s type io down) := by
  have hfits : ({ attr.type := type } : PrefixRoute).RowFits := by
    refine ⟨⟨htype, (by decide : (0#16).toNat < 2 ^ 11), (by decide : (0#8).toNat < 2 ^ 2),
      (by decide : (0#8).toNat < 2 ^ 3)⟩, ⟨le_rfl, ?_⟩, (by decide : (0#16).toNat < 2 ^ 14)⟩
    change (0 : Int) ≤ if type = .ip6uc then 128 else 32
    split <;> decide
  exact h.withNew hfits.trapNew fun _ _ h₁ hr hneg hst =>
    h₁.placeOrDrop H hr hneg (hst.trans hstale) hok
      (fun res => res.2.row < firstPrefix ∨ res.1 ≠ 0)
      fun _ hret hd => hd.resolve_right fun hne => hne hret

theorem RowsInv.routeTrap (h : RowsInv hw sem s b) (H : hw.Lawful sem) (hr : r ∈ s.routes)
    (hok : Written s r.id → sem.Ok (io 0)) : RowsInv hw sem (Otto.routeTrap hw s r io) b := by
  unfold Otto.routeTrap
  split
  · exact h
  · exact h.routeRewrite H hr (h.restates hr).trapping rfl
      fun h0 hres => hok ⟨r, hr, rfl, h0, hres⟩

theorem RowsInv.routeUpdateHw (h : RowsInv hw sem s b) (H : hw.Lawful sem) (hr : r ∈ s.routes)
    (hstale : s.prefixRowsStale = false) (hu : u.l2Id.toNat < 2 ^ 14)
    (hok : Written s r.id → sem.Ok (io 1) ∧ sem.Ok (io 2)) :
    RowsKept hw sem (Otto.routeUpdateHw hw s r u io) := by
  have hself := h.restates hr
  have hup := hself.updated (h.sound r hr).2.1 hu
  have hgo : 0 ≤ r.row → r.rowReserved = false → sem.Ok (io 1) ∧ sem.Ok (io 2) :=
    fun h0 hres => hok ⟨r, hr, rfl, h0, hres⟩
  unfold Otto.routeUpdateHw
  rw [if_neg (by simp [rowFrozen, hstale])]
  dsimp only
  split
  · -- the route traps before it forwards to another MAC
    have h₁ := h.routeRewrite (e := io 1) H hr hself.trapping rfl fun h0 hres => (hgo h0 hres).1
    have hmem : r.trapping ∈
        (Otto.routeRewrite hw (s.put r.trapping) r.trapping (io 1)).routes := by
      unfold Otto.routeRewrite
      split <;> exact mem_putRoute hr rfl
    have hre : Restates r.trapping (r.updated u) :=
      ⟨⟨rfl, .inl rfl, rfl, rfl, rfl⟩, hup.fits, hup.valid⟩
    exact (h₁.install H hmem hre rfl rfl (routeRewrite_stale.trans hstale)
      fun h0 hres => (hgo h0 hres).2).imp_right Left.inv
  · exact (h.install H hr hup rfl rfl hstale fun h0 hres => (hgo h0 hres).2).imp_right Left.inv

end Events

/-! ## Runs -/

section Run

variable {s : PrefixCtrl T} {ev : PrefixEvent E}

/-- What one event preserves. -/
theorem prefixStep_inv (H : hw.Lawful sem) (h : RowsKept hw sem s) (hfits : ev.Fits)
    (hgoes : ev.Goes sem s) : RowsKept hw sem (prefixStep hw s ev) := by
  cases hst : s.prefixRowsStale with
  | true => exact .inl (prefixStep_stale hst)
  | false =>
    obtain ⟨b, hinv⟩ := h.resolve_left (by simp [hst])
    cases ev with
    | trapV4 new io => exact hinv.fibTrapV4 H hfits hst
    | addV4 new io =>
      exact hinv.withNew (PieRoute.RowFits.trapNew hfits) fun r s₁ h₁ hr hneg hs =>
        (h₁.installNew io H hr hneg (hs.trans hst)).imp_right Left.inv
    | trapV6 new io => exact hinv.fibTrapV6 H hfits hst hgoes
    | addV6 new io => exact hinv.fibAddV6 H hfits hst hgoes
    | catchAll type io down => exact hinv.addCatchAll H hfits hst hgoes
    | updateHw id u io =>
      exact hinv.atRoute fun r hr hid => hinv.routeUpdateHw H hr hst hfits (hid ▸ hgoes)
    | trap id io =>
      exact hinv.atRoute fun r hr hid => .inr ⟨b, hinv.routeTrap H hr (hid ▸ hgoes)⟩
    | teardown id io =>
      exact hinv.atRoute fun r hr hid =>
        hinv.teardown H hr hst fun h0 hres => hgoes ⟨r, hr, hid, h0, hres⟩

/-- The states after any run of events, from an empty table on. -/
inductive PrefixReach (hw : PrefixConfig T E) (sem : RowSem T E C D) : PrefixCtrl T → Prop where
  | init (t : T) (h : ∀ row : Nat, row < maxRoutes → sem.Invalid (sem.cell t row)) :
    PrefixReach hw sem { table := t }
  | step {s : PrefixCtrl T} (h : PrefixReach hw sem s) (ev : PrefixEvent E) (hfits : ev.Fits)
    (hgoes : ev.Goes sem s) : PrefixReach hw sem (prefixStep hw s ev)

theorem RowsInv.init {t : T} (h : ∀ row : Nat, row < maxRoutes → sem.Invalid (sem.cell t row)) :
    RowsInv hw sem { table := t } fun _ => [] where
  layout := {
    ids := List.nodup_nil
    fits := by simp
    row := by simp
    seat := by simp
    sorted := by simp
    room := ⟨(by decide : firstPrefix + ((0 : Nat) : Int) ≤ maxRoutes), fun h => absurd rfl h⟩ }
  contents := ⟨by simp, fun row hlt _ => h row hlt⟩
  sound := by simp

theorem PrefixReach.kept (h : PrefixReach hw sem s) (H : hw.Lawful sem) : RowsKept hw sem s := by
  induction h with
  | init t h => exact .inr ⟨_, .init h⟩
  | step h ev hfits hgoes ih => exact prefixStep_inv H ih hfits hgoes

end Run

/-! ## Lookups -/

section Lookup

variable {s : PrefixCtrl T} {b : RouteType → List Nat} {d : D} {q : PrefixRoute}

/-- The positions of a family that have a row are the first ones. -/
theorem RowsInv.row_iff (h : RowsInv hw sem s b) (H : hw.Lawful sem) {type : RouteType} {p : Nat} :
    (∃ q ∈ members type s.routes, q.row = rowAt hw type p) ↔ p < prefixRows s.routes type 0 := by
  rw [h.layout.prefixRows_zero H]
  constructor
  · rintro ⟨q, hq, hrow⟩
    obtain ⟨hm, h0, rfl⟩ := mem_members.1 hq
    exact H.posOf_row hrow h0 ▸ h.layout.pos_lt hm h0
  · intro hp
    obtain ⟨q, hq, -, ht, hrow⟩ := h.layout.occupied hp
    have hin := (h.layout.room.in_table H (ht ▸ h.layout.type_cases hq) hp).1
    have hfirst : firstPrefix = 1 := rfl
    exact ⟨q, mem_members.2 ⟨hq, by omega, ht⟩, hrow⟩

/-- A placed route answers for what it covers. -/
theorem RowsInv.answers_iff (h : RowsInv hw sem s b) (H : hw.Lawful sem) (hq : q ∈ s.routes)
    (h0 : 0 ≤ q.row) (hres : q.rowReserved = false) :
    sem.Answers (sem.cell s.table q.row) d ↔ sem.Covers q.toPieRoute d :=
  H.answers (h.layout.fits q hq) (h.contents.holds q hq h0 hres)

/-- The first row that answers is that of a longest prefix. -/
theorem RowsInv.longest (h : RowsInv hw sem s b) (H : hw.Lawful sem)
    (hres : ∀ q ∈ s.routes, q.rowReserved = false) {row : Nat} (hlt : row < maxRoutes)
    (ha : sem.Answers (sem.cell s.table row) d)
    (hfirst : ∀ row' : Nat, row' < row → ¬sem.Answers (sem.cell s.table row') d) :
    ∃ q ∈ s.routes, q.row = row ∧ sem.Covers q.toPieRoute d ∧
      ∀ q' ∈ s.routes, 0 ≤ q'.row → sem.Covers q'.toPieRoute d → q'.rank ≤ q.rank := by
  obtain ⟨q, hq, hrow⟩ : ∃ q ∈ s.routes, q.row = row := by
    by_contra hnone
    exact H.invalid (h.contents.empty row hlt fun q hq hrow => hnone ⟨q, hq, hrow⟩) ha
  have h0 : 0 ≤ q.row := by omega
  rw [← hrow] at ha
  have hcov := (h.answers_iff H hq h0 (hres q hq)).1 ha
  refine ⟨q, hq, hrow, hcov, fun q' hq' h0' hcov' => ?_⟩
  have ha' := (h.answers_iff H hq' h0' (hres q' hq')).2 hcov'
  obtain ⟨row', hrow'⟩ := Int.eq_ofNat_of_zero_le h0'
  have hge : q.row ≤ q'.row := by
    by_contra hbehind
    exact hfirst row' (by omega) (hrow' ▸ ha')
  rcases Int.lt_or_eq_of_le hge with hlt | heq
  · exact h.layout.sorted q hq q' hq' h0 hlt
      (H.covers_type (h.layout.fits q hq) (h.layout.fits q' hq') hcov hcov')
  · rw [h.layout.distinct H q hq q' hq' h0 heq]

end Lookup

end Lede.Otto
