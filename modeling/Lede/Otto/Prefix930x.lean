/-
Lede.Otto.Prefix930x — the prefix routes of the RTL930x (`rtl83xx/l3.c`).

The family keeps the rows of a route table: `otto_l3_930x_route_write` writes one,
`otto_l3_930x_route_rows_move` copies them as they are, and an IPv6 row is matched over three rows
of which only some can be the first. With every access answered in whatever way, the blocks keep
the longest prefix first (`prefix_layout`), so that the lowest row that answers is the row of the
route the kernel would look up (`prefix_lookup`).
-/
import Mathlib.Data.Fin.Tuple.Basic
import Lede.Otto.PrefixRunTheorems
import Lede.Otto.RouteRuleTheorems

namespace Lede.Otto

open Lede.Lib.BitField Lede.Lib.Ternary

/-! ## The rows -/

/-- `V6_PREFIX_ROWS` -/
def v6PrefixRows : Int := 3

/-- `FIRST_V6_ROW` -/
def firstV6Row : Int := maxRoutes - 1 - 4

/-- `otto_l3_930x_v6_slot_to_row` -/
def v6SlotToRow930x (slot : Int) : Int :=
  firstV6Row - slot.tdiv 2 * 8 - slot.tmod 2 * v6PrefixRows

/-- `otto_l3_930x_v6_row_to_slot` -/
def v6RowToSlot930x (row : Int) : Int :=
  2 * (firstV6Row.tdiv 8 - row.tdiv 8) + if row.tmod 8 ≠ 0 then 0 else 1

theorem v6SlotToRow930x_nat (s : Nat) :
    v6SlotToRow930x s = 507 - (s / 2 : Nat) * 8 - (s % 2 : Nat) * 3 := rfl

theorem v6RowToSlot930x_slot {s : Nat} (h : 0 ≤ v6SlotToRow930x s) :
    v6RowToSlot930x (v6SlotToRow930x s) = s := by
  have hrow := v6SlotToRow930x_nat s
  obtain ⟨row, hrow'⟩ := Int.eq_ofNat_of_zero_le h
  rw [hrow'] at hrow ⊢
  have hdiv : (row : Int).tdiv 8 = (row / 8 : Nat) := rfl
  have hmod : (row : Int).tmod 8 = (row % 8 : Nat) := rfl
  have hfirst : firstV6Row.tdiv 8 = 63 := rfl
  rw [v6RowToSlot930x, hdiv, hmod, hfirst]
  obtain ⟨a, rfl | rfl⟩ := Nat.even_or_odd' s
  · rw [if_pos (by omega)]
    omega
  · rw [if_neg (by omega)]
    omega

/-! ## The table -/

/-- The table of a switch whose map is there. -/
abbrev BoundTable := { t : PrefixTable // t.bound = true }

/-- The answers to one call; an error is a negative number. -/
structure PrefixRun where
  write : WriteRun prefixRouteWords := {}
  rows : Nat → RowRun := fun _ => {}
  read : ReadRun prefixRouteWords := {}
  found : Int := -1
  errno : read.exec.idle ≤ 0 ∧ read.exec.sent ≤ 0 ∧ read.exec.done ≤ 0 ∧ read.data ≤ 0 := by decide

theorem tableWrite_bound {w n : Nat} (t : SwitchTable w n) (handle idx : Int)
    (v : Vector (BitVec 32) w) (run : WriteRun w) :
    (tableWrite t handle idx v run).2.bound = t.bound := by
  unfold tableWrite
  dsimp only
  split
  · rfl
  · split
    · rfl
    · split
      · rfl
      · split
        · rfl
        · cases run.left <;> rfl
        · rfl

/-- A write touches no other row, however it is answered. -/
theorem tableWrite_kept {w n : Nat} (t : SwitchTable w n) {handle idx row : Int}
    {v : Vector (BitVec 32) w} {run : WriteRun w} (hne : row ≠ idx) :
    (tableWrite t handle idx v run).2.cell row = t.cell row := by
  have hput : ∀ (d : Fin n) (x : Vector (BitVec 32) w), (d : Int) = idx →
      (t.put d x).cell row = t.cell row := by
    intro d x hd
    rw [SwitchTable.cell_put, Function.update_of_ne (by rwa [hd])]
  unfold tableWrite
  dsimp only
  split
  · rfl
  · split
    · rfl
    · rename_i d hd
      have hidx := tableIndex_eq_some.1 hd
      split
      · rfl
      · split
        · rfl
        · cases run.left with
          | none => rfl
          | some x => exact hput d x hidx
        · exact hput d v hidx

theorem routeRowsMoveFrom_bound {handle : Int} {dst src count : Int32} {runs : Nat → RowRun}
    {left n : Nat} {t : PrefixTable} :
    (routeRowsMoveFrom handle dst src count runs left n t).2.bound = t.bound := by
  induction left generalizing n t with
  | zero => rfl
  | succ left ih =>
    unfold routeRowsMoveFrom
    dsimp only
    have hw := fun v => tableWrite_bound t handle (dst + moveTurn dst src count n).toInt v
      (runs n).write
    split
    · split
      · exact hw _
      · exact ih.trans (hw _)
    · split
      · rfl
      · rfl

theorem routeRowsMove_bound {t : PrefixTable} {dst src count : Int32} {runs : Nat → RowRun} :
    (routeRowsMove t dst src count runs).2.bound = t.bound := by
  unfold routeRowsMove
  dsimp only
  split
  · rfl
  · exact routeRowsMoveFrom_bound

/-- The table is bound, so it is acquired. -/
def prefixHandle : Int := tableAcquire true prefixRouteId

theorem prefixHandle_reg : tableReg true prefixHandle = true := by decide

/-- `otto_table_read` and `otto_table_write` of `RTL9300_TBL_L3_PREFIX_ROUTE_IPUC` -/
def prefixRead (t : BoundTable) (row : Int) (run : PrefixRun) :
    Except Int (Vector (BitVec 32) prefixRouteWords) :=
  let (err, data) := tableRead t.1 prefixHandle row run.read
  if err ≠ 0 then .error err else .ok data

def prefixWrite (t : BoundTable) (row : Int) (v : Vector (BitVec 32) prefixRouteWords)
    (run : PrefixRun) : Int × BoundTable :=
  let p := tableWrite t.1 prefixHandle row v run.write
  (p.1, ⟨p.2, (tableWrite_bound ..).trans t.2⟩)

/-- `rtl930x_l3_config` -/
def config930x : PrefixConfig BoundTable PrefixRun where
  routeWrite t row r run :=
    match routeWrite r.toL3Route with
    | none => (-EOPNOTSUPP, t)
    | some v => prefixWrite t row v run
  routeRowsMove t _ dst src count run :=
    let p := routeRowsMove t.1 (.ofInt dst) (.ofInt src) (.ofInt count) run.rows
    (p.1, ⟨p.2, routeRowsMove_bound.trans t.2⟩)
  routeMatches t row r run := routeMatches (prefixRead t row run) r.toL3Route {}
  routeLookupHw := some fun _ r run =>
    if r.attr.type = .ip4mc ∨ r.attr.type = .ip6mc then -1 else run.found
  v6SlotToRow := v6SlotToRow930x
  v6RowToSlot := v6RowToSlot930x

/-! ## What a row answers -/

/-- The row is valid, and the frame is of its family and agrees with its address under its mask. -/
def RowAnswers (v : Vector (BitVec 32) prefixRouteWords) (fr : Frame) : Prop :=
  v[0].getLsbD 31 = true ∧
    match fr.payload with
    | .ipv4 _ dst _ _ _ => RouteType.ofCode (bits v[0] 29 2) = .ip4uc ∧
        (⟨v[4], v[9]⟩ : Field 32).Agrees dst
    | .ipv6 _ dst _ _ _ => RouteType.ofCode (bits v[0] 29 2) = .ip6uc ∧
        (⟨(In6Addr.mk v[1] v[2] v[3] v[4]).bits, (In6Addr.mk v[6] v[7] v[8] v[9]).bits⟩ :
          Field 128).Agrees dst
    | .arp _ => False
    | .other _ _ => False

instance (v : Vector (BitVec 32) prefixRouteWords) (fr : Frame) : Decidable (RowAnswers v fr) := by
  unfold RowAnswers
  cases fr.payload <;> infer_instance

def sem930x : RowSem BoundTable PrefixRun (Option (Vector (BitVec 32) prefixRouteWords)) Frame where
  cell t row := t.1.cell row
  Holds c r := r.attr.valid = true ∧ ∃ v, c = some v ∧ routeWrite r.toL3Route = some v
  Invalid c := ∃ v, c = some v ∧ v[0].getLsbD 31 = false
  Answers c fr := ∃ v, c = some v ∧ RowAnswers v fr
  Covers r fr := r.Covers fr
  Ok run := run.write.Ok

theorem sem930x_cell (t : BoundTable) (row : Int) : sem930x.cell t row = t.1.cell row := rfl

theorem isPrefixMask_net6 {n : Nat} (h : n ≤ 128) : IsPrefixMask (net6Mask n).bits n := by
  have hall : ∀ n < 129, (net6Mask n).bits = (ipv6AddrPrefix .ones n).bits := by decide +kernel
  rw [hall n (by omega)]
  exact isPrefixMask_ipv6 h

section Lawful

variable {r : PieRoute} {v : Vector (BitVec 32) prefixRouteWords} {t t' : BoundTable} {row : Int}
  {run : PrefixRun}

theorem routeWrite_unicast (h : r.Unicast) : ∃ v : Vector (BitVec 32) prefixRouteWords,
    routeWrite r.toL3Route = some v ∧ v[0] = typeWord r.toL3Route := by
  rcases h.unicast with ht | ht
  · exact ⟨_, by rw [routeWrite, ht]; rfl, rfl⟩
  · exact ⟨_, by rw [routeWrite, ht]; rfl, rfl⟩

theorem rowAnswers_iff (hfits : r.RowFits) (hv : r.attr.valid = true)
    (hw : routeWrite r.toL3Route = some v) (fr : Frame) : RowAnswers v fr ↔ r.Covers fr := by
  have hvalid := (typeWord_back r.toL3Route).1
  have htype := (typeWord_back r.toL3Route).2
  obtain ⟨h0, hle⟩ := hfits.len
  rw [hv] at hvalid
  rcases hfits.unicast.unicast with ht | ht
  · rw [ht] at hle htype
    simp only [reduceCtorEq, if_false] at hle
    obtain ⟨hv0, hv4, hv9⟩ : v[0] = typeWord r.toL3Route ∧ v[4] = r.dstIp ∧
        v[9] = inetMakeMask r.prefixLen.toNat := by
      rw [routeWrite, ht] at hw
      obtain rfl := Option.some.inj hw
      exact ⟨rfl, rfl, rfl⟩
    have hnet := agrees_prefix_iff (t := ⟨r.dstIp, inetMakeMask r.prefixLen.toNat⟩)
      (isPrefixMask_inet (n := r.prefixLen.toNat) (by omega))
    unfold RowAnswers PieRoute.Covers
    rw [hv0, hv4, hv9, hvalid, htype]
    cases fr.payload <;> simp [ht, hnet]
  · rw [ht] at hle htype
    simp only [if_true] at hle
    obtain ⟨hv0, hdst, hmask⟩ : v[0] = typeWord r.toL3Route ∧
        In6Addr.mk v[1] v[2] v[3] v[4] = r.dstIp6 ∧
        In6Addr.mk v[6] v[7] v[8] v[9] = net6Mask r.prefixLen.toNat := by
      rw [routeWrite, ht] at hw
      obtain rfl := Option.some.inj hw
      exact ⟨rfl, rfl, rfl⟩
    have hnet := agrees_prefix_iff (t := ⟨r.dstIp6.bits, (net6Mask r.prefixLen.toNat).bits⟩)
      (isPrefixMask_net6 (n := r.prefixLen.toNat) (by omega))
    unfold RowAnswers PieRoute.Covers
    rw [hv0, hdst, hmask, hvalid, htype]
    cases fr.payload <;> simp [ht, hnet]

theorem prefixWrite_ok (h : prefixWrite t row v run = (0, t')) : t'.1.cell row = some v := by
  obtain ⟨hret, rfl⟩ := Prod.mk.inj h
  obtain ⟨d, rfl, hd⟩ := tableWrite_ok (Prod.ext hret rfl)
  exact (congrArg (fun x => SwitchTable.cell x d) hd).trans
    ((congrFun (SwitchTable.cell_put t.1 d v) d).trans (Function.update_self ..))

theorem prefixWrite_go (hin : InTable row) (hok : run.write.Ok) :
    (prefixWrite t row v run).1 = 0 := by
  obtain ⟨h0, hlt⟩ := hin
  have hfirst : firstPrefix = 1 := rfl
  have hmax : (maxRoutes : Int) = prefixRouteRows := rfl
  obtain ⟨d, rfl⟩ : ∃ d : Fin prefixRouteRows, (d : Int) = row :=
    ⟨⟨row.toNat, by omega⟩, by simp; omega⟩
  exact congrArg Prod.fst (tableWrite_of_ok (by rw [t.2, prefixHandle_reg]) hok d v)

theorem tableExec_nonpos {x : ExecRun} (h : x.idle ≤ 0 ∧ x.sent ≤ 0 ∧ x.done ≤ 0) :
    (tableExec x).1 ≤ 0 := by
  unfold tableExec
  split
  · exact h.1
  · split
    · exact h.2.1
    · split
      · exact h.2.2
      · rfl

/-- A read ends with the words of the row or with an error. -/
theorem prefixRead_cases (h : t.1.cell row = some v) :
    prefixRead t row run = .ok v ∨ ∃ err < 0, prefixRead t row run = .error err := by
  obtain ⟨hidle, hsent, hdone, hdata⟩ := run.errno
  have hexec := tableExec_nonpos ⟨hidle, hsent, hdone⟩
  cases hr : tableRead t.1 prefixHandle row run.read with
  | mk err data =>
    have hread : prefixRead t row run = if err ≠ 0 then .error err else .ok data := by
      rw [prefixRead, hr]
    by_cases herr : err = 0
    · subst herr
      obtain ⟨d, rfl, rfl⟩ := tableRead_ok hr
      rw [SwitchTable.cell_row] at h
      exact .inl (by rw [hread, if_neg (by simp), Option.some.inj h])
    · refine .inr ⟨err, lt_of_le_of_ne ?_ herr, by rw [hread, if_pos herr]⟩
      have hneg : (-EINVAL : Int) ≤ 0 := by decide
      unfold tableRead at hr
      dsimp only at hr
      split at hr
      · exact (Prod.mk.inj hr).1 ▸ hneg
      · split at hr
        · exact (Prod.mk.inj hr).1 ▸ hneg
        · split at hr
          · exact (Prod.mk.inj hr).1 ▸ hexec
          · split at hr
            · exact (Prod.mk.inj hr).1 ▸ hdata
            · exact (Prod.mk.inj hr).1.symm.le

section Move

variable {dst src count : Int32} {runs : Nat → RowRun} {before after : PrefixTable} {d s n : Int}

/-- A move ends with 0, `-EAGAIN` or `-EIO`, and with the second nothing was written. -/
theorem routeRowsMove_ret {t : PrefixTable} : (routeRowsMove t dst src count runs).1 = 0 ∨
    ((routeRowsMove t dst src count runs).1 = -EAGAIN ∧
      (routeRowsMove t dst src count runs).2 = t) ∨
    (routeRowsMove t dst src count runs).1 = - EIO := by
  have hloop : ∀ {handle left k t'}, (routeRowsMoveFrom handle dst src count runs left k t').1 = 0 ∨
      (routeRowsMoveFrom handle dst src count runs left k t').1 = -EAGAIN ∨
      (routeRowsMoveFrom handle dst src count runs left k t').1 = - EIO := by
    intro handle left k t'
    induction left generalizing k t' with
    | zero => exact .inl rfl
    | succ left ih =>
      rcases routeRowsMoveFrom_cases rfl with ⟨v, t'', -, -, hrest⟩ | hrest | ⟨t'', hrest⟩
      · rw [← hrest]
        exact ih
      · rw [hrest]
        dsimp only
        split
        · exact .inr (.inl rfl)
        · exact .inr (.inr rfl)
      · rw [hrest]
        exact .inr (.inr rfl)
  unfold routeRowsMove
  dsimp only
  split
  · exact .inr (.inl ⟨rfl, rfl⟩)
  · rcases hloop with h | h | h
    · exact .inl h
    · exact .inr (.inl ⟨h, (routeRowsMoveFrom_again h).2⟩)
    · exact .inr (.inr h)

theorem routeRowsMove_moved {t : PrefixTable} (h : (routeRowsMove t dst src count runs).1 = 0) :
    RowsMoved t (routeRowsMove t dst src count runs).2 dst.toInt src.toInt count.toInt := by
  unfold routeRowsMove at h ⊢
  dsimp only at h ⊢
  split at h
  · exact absurd h neg_eagain_ne_zero
  · rw [if_neg ‹_›]
    exact (routeRowsMoveFrom_ok (by simp) .zero h).rowsMoved

theorem RowsMoved.cell_moved (h : RowsMoved before after d s n) {k : Nat} (hk : (k : Int) < n) :
    after.cell (d + k) = before.cell (s + k) := by
  obtain ⟨⟨hd, hd'⟩, hs, hs'⟩ := h.inside (by omega)
  have hrow : ∀ {a : Int}, 0 ≤ a → a + n ≤ prefixRouteRows →
      ∃ row : Fin prefixRouteRows, (row : Int) = a + k := fun h0 hle =>
    ⟨⟨(_ + (k : Int)).toNat, by omega⟩, Int.toNat_of_nonneg (by omega)⟩
  obtain ⟨x, hx⟩ := hrow hd hd'
  obtain ⟨y, hy⟩ := hrow hs hs'
  rw [← hx, ← hy, SwitchTable.cell_row, SwitchTable.cell_row, h.moved k x y hk hx hy]

theorem RowsMoved.cell_kept (h : RowsMoved before after d s n) {row : Int}
    (hrow : ∀ k : Nat, (k : Int) < n → d + k ≠ row) : after.cell row = before.cell row := by
  unfold SwitchTable.cell
  cases hx : tableIndex prefixRouteRows row with
  | none => rfl
  | some x =>
    obtain rfl := tableIndex_eq_some.1 hx
    have hout : ¬(d ≤ x ∧ (x : Int) < d + n) := fun hin => by
      have := hrow (x - d).toNat (by omega)
      omega
    rw [Option.map_some, Option.map_some, h.kept x hout]

end Move

theorem toInt_ofInt_of_span {row count : Int} (h : Span row count) :
    (Int32.ofInt row).toInt = row ∧ (Int32.ofInt count).toInt = count := by
  obtain ⟨h0, hc, hle⟩ := h
  have hmax : (maxRoutes : Int) = 512 := rfl
  exact ⟨Int32.toInt_ofInt_of_le (by omega) (by omega),
    Int32.toInt_ofInt_of_le (by omega) (by omega)⟩

theorem config930x_lawful : config930x.Lawful sem930x where
  write_ok := by
    intro t t' row r e hin hfits hw
    obtain ⟨v, hv, hv0⟩ := routeWrite_unicast hfits.unicast
    simp only [config930x, hv] at hw
    have hcell := prefixWrite_ok hw
    split
    · rename_i hvalid
      exact ⟨hvalid, v, hcell, hv⟩
    · rename_i hvalid
      refine ⟨v, hcell, (congrArg (·.getLsbD 31) hv0).trans ?_⟩
      rw [(typeWord_back r.toL3Route).1]
      simpa using hvalid
  write_kept := by
    intro t t' err row r e row' hin hw hne
    simp only [config930x] at hw
    split at hw
    · rw [← (Prod.mk.inj hw).2]
    · rw [← (Prod.mk.inj hw).2]
      exact tableWrite_kept t.1 hne
  write_go := by
    intro t row r e hin hfits hok
    obtain ⟨v, hv, -⟩ := routeWrite_unicast hfits.unicast
    simp only [config930x, hv]
    exact prefixWrite_go hin hok
  move_ok := by
    intro t t' routes dst src count e hfits hdist hd hs hm
    obtain ⟨hret, rfl⟩ := Prod.mk.inj hm
    obtain ⟨hdst, hcount⟩ := toInt_ofInt_of_span hd
    have hmoved := routeRowsMove_moved hret
    rw [hdst, hcount, (toInt_ofInt_of_span hs).1] at hmoved
    exact {
      held := fun k hk q hq hrow hh => by
        change sem930x.Holds (SwitchTable.cell (routeRowsMove ..).2 (dst + k)) q.toPieRoute
        rw [hmoved.cell_moved hk]
        exact hh
      kept := fun row hrow => hmoved.cell_kept hrow }
  move_err := by
    intro t t' routes dst src count e err hm herr
    obtain ⟨rfl, rfl⟩ := Prod.mk.inj hm
    have hret := @routeRowsMove_ret (.ofInt dst) (.ofInt src) (.ofInt count) e.rows t.1
    rcases hret with hret | ⟨hret, hsame⟩ | hret
    · exact absurd hret herr
    · exact .inr ⟨hret, Subtype.ext hsame⟩
    · exact .inl hret
  matches_holds := by
    intro t row r e hin hfits hh
    obtain ⟨hv, v, hcell, hw⟩ := hh
    have hread : prefixRead t row e = .ok v ∨ ∃ err < 0, prefixRead t row e = .error err :=
      prefixRead_cases hcell
    rcases hread with hr | ⟨err, hneg, hr⟩
    · left
      have huni : r.toL3Route.Unicast :=
        ⟨hfits.unicast.unicast, hfits.unicast.nhId, hfits.unicast.action, hfits.unicast.qosPrio⟩
      obtain ⟨v', e', hw', hd, hb⟩ := route_back huni hfits.len hv {}
      obtain rfl : v' = v := Option.some.inj (hw'.symm.trans hw)
      have hsame : SameRow e' r.toL3Route := ⟨hb.dest, hb.prefixLen, hb.nhId⟩
      change routeMatches (prefixRead t row e) r.toL3Route {} = 1
      rw [hr]
      exact (routeMatches_of_decode hd).trans (if_pos hsame)
    · right
      change routeMatches (prefixRead t row e) r.toL3Route {} < 0
      rw [hr]
      exact hneg
  slot_row := fun s h => v6RowToSlot930x_slot h
  slot_succ := by
    intro s
    change v6SlotToRow930x ((s + 1 : Nat) : Int) < v6SlotToRow930x s
    rw [v6SlotToRow930x_nat, v6SlotToRow930x_nat]
    omega
  slot_zero := by decide
  answers := by
    rintro c r fr hfits ⟨hv, v, rfl, hw⟩
    change _ ↔ r.Covers fr
    rw [← rowAnswers_iff hfits hv hw]
    exact ⟨fun ⟨v', hv', ha⟩ => Option.some.inj hv' ▸ ha, fun ha => ⟨v, rfl, ha⟩⟩
  invalid := by
    rintro c fr ⟨v, rfl, hv⟩ ⟨v', hv', ha⟩
    obtain rfl := Option.some.inj hv'
    rw [ha.1] at hv
    cases hv
  covers_type := by
    intro r r' fr hfits hfits' hc hc'
    change r.Covers fr at hc
    change r'.Covers fr at hc'
    unfold PieRoute.Covers at hc hc'
    cases hp : fr.payload with
    | arp spa =>
      rw [hp] at hc
      exact hc.elim
    | ipv4 src dst tos proto ports =>
      rw [hp] at hc hc'
      exact (hfits.unicast.unicast.resolve_right hc.1).trans
        (hfits'.unicast.unicast.resolve_right hc'.1).symm
    | ipv6 src dst tc nexthdr ports =>
      rw [hp] at hc hc'
      exact hc.1.trans hc'.1.symm
    | other ethertype h =>
      rw [hp] at hc
      exact hc.elim

end Lawful

/-! ## A run -/

/-- The table after a reset. -/
def blankTable : BoundTable := ⟨{ bound := true, rows := fun _ => .replicate _ 0 }, rfl⟩

theorem blankTable_invalid (row : Nat) (h : row < maxRoutes) :
    sem930x.Invalid (sem930x.cell blankTable row) := by
  refine ⟨Vector.replicate _ 0, ?_, rfl⟩
  rw [sem930x_cell]
  exact SwitchTable.cell_row blankTable.1 ⟨row, h⟩

/-- A route of the main table. -/
def netRoute (net : BitVec 32) (len : Int) : PrefixRoute :=
  { dstIp := net, prefixLen := len, tbId := 254 }

theorem netRoute_fits {net : BitVec 32} {len : Int} (h : 0 ≤ len ∧ len ≤ 32) :
    (netRoute net len).RowFits :=
  ⟨⟨.inl rfl, (by decide : (0#16).toNat < 2 ^ 11), (by decide : (0#8).toNat < 2 ^ 2),
    (by decide : (0#8).toNat < 2 ^ 3)⟩, h, (by decide : (0#16).toNat < 2 ^ 14)⟩

/-- The catch-all, 10.0.0.0/8 and then 10.1.0.0/16, which goes in front of both. -/
def someRun : PrefixCtrl BoundTable :=
  prefixStep config930x
    (prefixStep config930x
      (prefixStep config930x { table := blankTable }
        (.catchAll .ip4uc (fun _ => {}) fun _ => {}))
      (.trapV4 (netRoute 0x0a000000 8) fun _ => {}))
    (.trapV4 (netRoute 0x0a010000 16) fun _ => {})

theorem someRun_reach : PrefixReach config930x sem930x someRun := by
  have hstart : PrefixReach config930x sem930x { table := blankTable } :=
    .init blankTable blankTable_invalid
  have hall := hstart.step (.catchAll .ip4uc (fun _ => {}) fun _ => {}) (Or.inl rfl)
    ⟨⟨rfl, rfl, rfl⟩, rfl⟩
  have hnet := hall.step (.trapV4 (netRoute 0x0a000000 8) fun _ => {})
    (netRoute_fits ⟨by decide, by decide⟩) trivial
  exact hnet.step (.trapV4 (netRoute 0x0a010000 16) fun _ => {})
    (netRoute_fits ⟨by decide, by decide⟩) trivial

theorem someRun_kept : someRun.prefixRowsStale = false ∧
    ∀ q ∈ someRun.routes, q.rowReserved = false := by
  decide +kernel

/-! ## The blocks -/

/-- The rows that an entry is matched over. -/
def PrefixRoute.rows (r : PrefixRoute) : Int := if r.attr.type = .ip6uc then v6PrefixRows else 1

/-- The IPv4 routes are in rows 1, 2, ... and the IPv6 routes in slots 0, 1, ..., the longest
prefix in the lowest row; the rows hold their routes and nothing else. -/
structure PrefixOrdered (s : PrefixCtrl BoundTable) : Prop where
  inside : ∀ q ∈ s.routes, 0 ≤ q.row → firstPrefix ≤ q.row ∧ q.row + q.rows ≤ maxRoutes
  apart : ∀ q ∈ s.routes, ∀ q' ∈ s.routes, 0 ≤ q.row → q.row ≤ q'.row →
    q = q' ∨ q.row + q.rows ≤ q'.row
  dense : ∀ type p, (∃ q ∈ members type s.routes, q.row = rowAt config930x type p) ↔
    p < prefixRows s.routes type 0
  sorted : ∀ q ∈ s.routes, ∀ q' ∈ s.routes, 0 ≤ q.row → q.row < q'.row →
    q.attr.type = q'.attr.type → q'.rank ≤ q.rank
  written : ∀ q ∈ s.routes, 0 ≤ q.row → q.rowReserved = false → q.attr.valid = true ∧
    ∃ v, s.table.1.cell q.row = some v ∧ routeWrite q.toL3Route = some v
  empty : ∀ row : Nat, row < maxRoutes → (∀ q ∈ s.routes, q.row ≠ row) →
    ∃ v, s.table.1.cell row = some v ∧ v[0].getLsbD 31 = false

section Blocks

variable {s : PrefixCtrl BoundTable} {b : RouteType → List Nat}

/-- The slots leave three rows to each IPv6 entry. -/
theorem slot_apart {p p' : Nat} (h : p < p') :
    v6SlotToRow930x p' + v6PrefixRows ≤ v6SlotToRow930x p := by
  rw [v6SlotToRow930x_nat, v6SlotToRow930x_nat, v6PrefixRows]
  omega

theorem RowsInv.inside (h : RowsInv config930x sem930x s b) {q : PrefixRoute} (hq : q ∈ s.routes)
    (h0 : 0 ≤ q.row) : firstPrefix ≤ q.row ∧ q.row + q.rows ≤ maxRoutes := by
  have hin := h.layout.in_table config930x_lawful hq h0
  refine ⟨hin.1, ?_⟩
  have hmax : (maxRoutes : Int) = 512 := rfl
  unfold PrefixRoute.rows
  split
  · rename_i h6
    have hrow : q.row = v6SlotToRow930x (posOf config930x q) := h.layout.v6_row hq h0 h6
    rw [v6SlotToRow930x_nat] at hrow
    have h3 : v6PrefixRows = 3 := rfl
    omega
  · have := hin.2
    omega

theorem RowsInv.apart (h : RowsInv config930x sem930x s b) {q q' : PrefixRoute} (hq : q ∈ s.routes)
    (hq' : q' ∈ s.routes) (h0 : 0 ≤ q.row) (hle : q.row ≤ q'.row) :
    q = q' ∨ q.row + q.rows ≤ q'.row := by
  rcases Int.lt_or_eq_of_le hle with hlt | heq
  swap
  · exact .inl (h.layout.distinct config930x_lawful q hq q' hq' h0 heq)
  right
  unfold PrefixRoute.rows
  split
  swap
  · exact hlt
  rename_i h6
  have h0' : 0 ≤ q'.row := h0.trans hle
  have hrow : q.row = v6SlotToRow930x (posOf config930x q) := h.layout.v6_row hq h0 h6
  rcases h.layout.type_cases hq' with h4' | h6'
  · -- an IPv4 row is below every IPv6 row
    have hv4 : q'.row = firstPrefix + (posOf config930x q' : Nat) :=
      h.layout.v4_row hq' h0' (by simp [h4'])
    have hp' := h.layout.pos_lt hq' h0'
    have hp := h.layout.pos_lt hq h0
    rw [h4'] at hp'
    rw [h6] at hp
    have hv6 := (h.layout.room.v6_bounds config930x_lawful hp).1
    change _ ≤ v6SlotToRow930x (posOf config930x q) at hv6
    omega
  · have hrow' : q'.row = v6SlotToRow930x (posOf config930x q') := h.layout.v6_row hq' h0' h6'
    rw [hrow, hrow'] at hlt ⊢
    refine slot_apart ?_
    by_contra hge
    exact absurd hlt (not_lt_of_ge (config930x_lawful.slot_le.2 (Nat.not_lt.1 hge)))

/-- Whatever routes come, change and go, and whichever moves, reads and first writes fail on the
way: while the rows are not stale, they are in order. -/
theorem prefix_layout (h : PrefixReach config930x sem930x s) (hst : s.prefixRowsStale = false) :
    PrefixOrdered s := by
  obtain ⟨b, hinv⟩ := (h.kept config930x_lawful).resolve_left (by simp [hst])
  exact {
    inside := fun q hq h0 => hinv.inside hq h0
    apart := fun q hq q' hq' h0 hle => hinv.apart hq hq' h0 hle
    dense := fun type p => hinv.row_iff config930x_lawful
    sorted := hinv.layout.sorted
    written := fun q hq h0 hres => hinv.contents.holds q hq h0 hres
    empty := fun row hlt hfree => by
      have hinvalid := hinv.contents.empty row hlt hfree
      rwa [sem930x_cell] at hinvalid }

theorem someRun_layout : PrefixOrdered someRun := prefix_layout someRun_reach someRun_kept.1

/-- The switch answers with the lowest row. -/
def prefixLookup (t : PrefixTable) (fr : Frame) : Option (Fin prefixRouteRows) :=
  Fin.find? fun row => decide (RowAnswers (t.rows row) fr)

/-- A lookup ends at a placed route that covers the frame, with the longest prefix of those that
do, and a local route before one of main; it ends nowhere when no route covers the frame. -/
inductive LookedUp (routes : List PrefixRoute) (fr : Frame) : Option (Fin prefixRouteRows) → Prop
  | none (h : ∀ q ∈ routes, 0 ≤ q.row → ¬q.Covers fr) : LookedUp routes fr none
  | some {row : Fin prefixRouteRows} (h : ∃ q ∈ routes, q.row = (row : Nat) ∧ q.Covers fr ∧
      ∀ q' ∈ routes, 0 ≤ q'.row → q'.Covers fr → q'.rank ≤ q.rank) : LookedUp routes fr (some row)

theorem answers_row {t : BoundTable} {row : Fin prefixRouteRows} {fr : Frame} :
    sem930x.Answers (sem930x.cell t (row : Nat)) fr ↔ RowAnswers (t.1.rows row) fr := by
  rw [sem930x_cell, SwitchTable.cell_row]
  constructor
  · rintro ⟨v, hv, ha⟩
    rwa [Option.some.inj hv]
  · exact fun ha => ⟨_, rfl, ha⟩

/-- The lookup of the table is the longest-prefix match over the list, while no row waits to be
written. -/
theorem prefix_lookup (h : PrefixReach config930x sem930x s) (hst : s.prefixRowsStale = false)
    (hres : ∀ q ∈ s.routes, q.rowReserved = false) (fr : Frame) :
    LookedUp s.routes fr (prefixLookup s.table.1 fr) := by
  obtain ⟨b, hinv⟩ := (h.kept config930x_lawful).resolve_left (by simp [hst])
  cases hfind : prefixLookup s.table.1 fr with
  | none =>
    refine .none fun q hq h0 hcov => ?_
    have hlt := (hinv.layout.in_table config930x_lawful hq h0).2
    obtain ⟨row, hrow⟩ := Int.eq_ofNat_of_zero_le h0
    have ha := (hinv.answers_iff config930x_lawful hq h0 (hres q hq)).2 hcov
    rw [hrow] at ha hlt
    have hnone := Fin.find?_eq_none_iff.1 hfind ⟨row, Int.ofNat_lt.1 hlt⟩
    exact of_decide_eq_false hnone (answers_row.1 ha)
  | some row =>
    obtain ⟨ha, hfirst⟩ := Fin.find?_eq_some_iff.1 hfind
    refine .some (hinv.longest config930x_lawful hres row.2 (answers_row.2 (of_decide_eq_true ha))
      fun row' hlt ha' => ?_)
    exact of_decide_eq_false (hfirst ⟨row', hlt.trans row.2⟩ hlt) (answers_row.1 ha')

/-- A frame to 10.1.2.3. -/
def someFrame : Frame := { port := 1, dmac := 0, smac := 0, payload := .ipv4 0 0x0a010203 0 6 none }

theorem someRun_lookup : LookedUp someRun.routes someFrame (prefixLookup someRun.table.1 someFrame) :=
  prefix_lookup someRun_reach someRun_kept.1 someRun_kept.2 someFrame

end Blocks

end Lede.Otto
