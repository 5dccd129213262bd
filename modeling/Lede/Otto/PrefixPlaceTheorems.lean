/-
Lede.Otto.PrefixPlaceTheorems — what opening and closing a row does to the blocks.

`otto_l3_route_place` either leaves everything as it was, or leaves the rows stale, or opens its
family's block at the place of the route (`Opened`); `otto_l3_route_compact` closes it (`Closed`)
or leaves the rows stale.
-/
import Lede.Lib.Moves
import Lede.Otto.PrefixBlockTheorems

namespace Lede.Otto

open Lede.Lib.Positions Lede.Lib.Moves

variable {T E C D : Type} {hw : PrefixConfig T E} {sem : RowSem T E C D}

/-! ## Moves one after another -/

section Moves

variable {routes : List PrefixRoute} {t t' t₀ : T} {I I' : Nat → Prop}
  {dst src dst' src' : Nat → Int} {n count : Nat} {io : Nat → E}

theorem Copied.none (h : ∀ k, ¬I k) : Copied sem routes t t I dst src where
  held := fun k hk => absurd hk (h k)
  kept := fun _ _ => rfl

/-- The same moves, counted in another way. -/
theorem Copied.reindex (h : Copied sem routes t t' I dst src)
    (hto : ∀ k, I' k → ∃ j, I j ∧ dst' k = dst j ∧ src' k = src j)
    (hfrom : ∀ j, I j → ∃ k, I' k ∧ dst' k = dst j) : Copied sem routes t t' I' dst' src' where
  held := by
    intro k hk q hq hrow hh
    obtain ⟨j, hj, hd, hs⟩ := hto k hk
    rw [hd]
    exact h.held j hj q hq (hs ▸ hrow) (hs ▸ hh)
  kept := by
    intro row hrow
    refine h.kept row fun j hj => ?_
    obtain ⟨k, hk, hd⟩ := hfrom j hj
    exact hd ▸ hrow k hk

/-- One more row. -/
theorem Copied.step (h : Copied sem routes t₀ t (· < n) dst src)
    (h1 : Copied sem routes t t' (fun k => (k : Int) < v6MoveRows) (fun k => dst n + k)
      (fun k => src n + k))
    (ho : Unhindered dst src count) (hn : n < count) :
    Copied sem routes t₀ t' (· < n + 1) dst src := by
  have hone : ∀ {row}, dst n ≠ row → sem.cell t' row = sem.cell t row := by
    intro row hne
    refine h1.kept row fun k hk => ?_
    obtain rfl : k = 0 := by
      simp only [v6MoveRows] at hk
      omega
    simpa using hne
  constructor
  · intro k hk q hq hrow hh
    rcases Nat.lt_succ_iff_lt_or_eq.1 hk with hlt | rfl
    · rw [hone (ho.target k n hlt hn).symm]
      exact h.held k hlt q hq hrow hh
    · have hmoved := h1.held 0 (by decide) q hq (by simpa using hrow)
      rw [Int.natCast_zero, Int.add_zero, Int.add_zero,
        h.kept (src k) fun j hj => ho.source j k hj hn] at hmoved
      exact hmoved hh
  · intro row hrow
    rw [hone (hrow n n.lt_succ_self)]
    exact h.kept row fun k hk => hrow k (Nat.lt_succ_of_lt hk)

/-- A loop that stopped at its first move, without the rows being stale, changed nothing. -/
theorem moveSlots_spec (H : hw.Lawful sem) (hfits : ∀ q ∈ routes, q.RowFits)
    (hdist : RowsDistinct routes)
    (hin : ∀ k < count, Span (hw.v6SlotToRow (dst k)) v6MoveRows ∧
      Span (hw.v6SlotToRow (src k)) v6MoveRows)
    (ho : Unhindered (fun k => hw.v6SlotToRow (dst k)) (fun k => hw.v6SlotToRow (src k)) count)
    {left : Nat} (hleft : n + left = count)
    (hc : Copied sem routes t₀ t (· < n) (fun k => hw.v6SlotToRow (dst k))
      (fun k => hw.v6SlotToRow (src k))) {err : Int} {k : Nat}
    (h : moveSlots hw routes dst src io left n t = ((err, k), t')) :
    (err = 0 → Copied sem routes t₀ t' (· < count) (fun k => hw.v6SlotToRow (dst k))
      (fun k => hw.v6SlotToRow (src k))) ∧
    (err ≠ 0 → n ≤ k ∧ (err = - EIO ∨ n < k ∨ t' = t)) := by
  induction left generalizing n t with
  | zero =>
    obtain ⟨hret, rfl⟩ := Prod.mk.inj h
    obtain rfl : n = count := by omega
    exact ⟨fun _ => hc, fun herr => absurd (Prod.mk.inj hret).1.symm herr⟩
  | succ left ih =>
    rw [moveSlots] at h
    cases hm : hw.routeRowsMove t routes (hw.v6SlotToRow (dst n)) (hw.v6SlotToRow (src n))
        v6MoveRows (io n) with
    | mk err₁ t₁ =>
      rw [hm] at h
      by_cases herr : err₁ = 0
      · subst herr
        simp only [ne_eq, not_true, if_false] at h
        have hmove := H.move_ok hfits hdist (hin n (by omega)).1 (hin n (by omega)).2 hm
        refine (ih (by omega) (hc.step hmove ho (by omega)) h).imp_right fun hstop herr => ?_
        have := (hstop herr).1
        exact ⟨by omega, .inr (.inl (by omega))⟩
      · simp only [ne_eq, herr, not_false_eq_true, if_true] at h
        obtain ⟨hret, rfl⟩ := Prod.mk.inj h
        obtain ⟨rfl, rfl⟩ := Prod.mk.inj hret
        exact ⟨fun h => absurd h herr, fun _ =>
          ⟨le_rfl, (H.move_err hm herr).imp_right fun hsame => .inr hsame.2⟩⟩

end Moves

theorem PrefixConfig.Lawful.slot_le (H : hw.Lawful sem) {p p' : Nat} :
    hw.v6SlotToRow p ≤ hw.v6SlotToRow p' ↔ p' ≤ p := by
  constructor
  · intro hle
    by_contra hlt
    have := H.slot_lt (Nat.not_le.1 hlt)
    omega
  · intro hle
    rcases Nat.lt_or_eq_of_le hle with hlt | rfl
    · exact (H.slot_lt hlt).le
    · exact le_rfl

/-- The moves of one slot to the next never hinder each other. -/
theorem PrefixConfig.Lawful.unhindered (H : hw.Lawful sem) {dst src : Nat → Int} {d s : Nat → Nat}
    {count : Nat} (hd : ∀ k < count, dst k = d k) (hs : ∀ k < count, src k = s k)
    (hsource : ∀ j k, j < k → k < count → d j ≠ s k)
    (htarget : ∀ j k, j < k → k < count → d j ≠ d k) :
    Unhindered (fun k => hw.v6SlotToRow (dst k)) (fun k => hw.v6SlotToRow (src k)) count := by
  have hinj : ∀ {p p' : Nat}, hw.v6SlotToRow p = hw.v6SlotToRow p' → p = p' := fun heq =>
    Nat.le_antisymm (H.slot_le.1 heq.ge) (H.slot_le.1 heq.le)
  constructor
  · intro j k hjk hk heq
    simp only [hd j (hjk.trans hk), hs k hk] at heq
    exact hsource j k hjk hk (hinj heq)
  · intro j k hjk hk heq
    simp only [hd j (hjk.trans hk), hd k hk] at heq
    exact htarget j k hjk hk (hinj heq)

/-! ## Renamed rows -/

section Rename

variable {routes : List PrefixRoute} {b : RouteType → List Nat} {q : PrefixRoute}
  {type : RouteType} (σ : Nat → Nat)

/-- A route whose position stays keeps its row. -/
theorem Layout.reseat_self (h : Layout hw routes b) (hq : q ∈ routes)
    (hσ : 0 ≤ q.row → q.attr.type = type → σ (posOf hw q) = posOf hw q) :
    reseat hw type σ q = q := by
  unfold reseat
  split
  · rename_i hm
    rw [hσ hm.1 hm.2, ← hm.2, ← (h.row q hq hm.1).1]
  · rfl

/-- A renaming of the rows of a family, by the positions that move. -/
theorem Layout.rename (h : Layout hw routes b) {cond : PrefixRoute → Bool} {f : Int → Int}
    (hmove : ∀ q ∈ routes, cond q = true → (0 ≤ q.row ∧ q.attr.type = type) ∧
      f q.row = rowAt hw type (σ (posOf hw q)))
    (hstay : ∀ q ∈ routes, 0 ≤ q.row → q.attr.type = type → cond q = false →
      σ (posOf hw q) = posOf hw q) :
    renameRows routes cond f = routes.map (reseat hw type σ) := by
  refine List.map_congr_left fun q hq => ?_
  cases hc : cond q with
  | true =>
    obtain ⟨hm, hf⟩ := hmove q hq hc
    rw [if_pos rfl, reseat, if_pos hm, hf]
  | false =>
    rw [if_neg Bool.false_ne_true]
    exact (h.reseat_self σ hq fun h0 ht => hstay q hq h0 ht hc).symm

theorem Layout.v4_row (h : Layout hw routes b) (hq : q ∈ routes) (h0 : 0 ≤ q.row)
    (hne : q.attr.type ≠ .ip6uc) : q.row = firstPrefix + posOf hw q := by
  have hrow := (h.row q hq h0).1
  rwa [rowAt, if_neg hne] at hrow

theorem Layout.v6_row (h : Layout hw routes b) (hq : q ∈ routes) (h0 : 0 ≤ q.row)
    (h6 : q.attr.type = .ip6uc) : q.row = hw.v6SlotToRow (posOf hw q) := by
  have hrow := (h.row q hq h0).1
  rwa [rowAt, if_pos h6] at hrow

theorem Layout.rename_v4 (h : Layout hw routes b) (hne : type ≠ .ip6uc) (after : Int → Prop)
    [DecidablePred after] (f : Int → Int) (hafter : ∀ row, after row → 0 ≤ row)
    (hmove : ∀ p : Nat, after (firstPrefix + p) → f (firstPrefix + p) = firstPrefix + σ p)
    (hstay : ∀ p : Nat, ¬after (firstPrefix + p) → σ p = p) :
    renameRows routes (fun q => q.attr.type = type && after q.row) f =
      routes.map (reseat hw type σ) := by
  refine h.rename σ (fun q hq hc => ?_) fun q hq h0 ht hc => ?_
  · simp only [Bool.and_eq_true, decide_eq_true_eq] at hc
    have h0 : 0 ≤ q.row := hafter _ hc.2
    have hrow := h.v4_row hq h0 (hc.1 ▸ hne)
    rw [rowAt, if_neg hne, hrow, hmove _ (hrow ▸ hc.2)]
    exact ⟨⟨by omega, hc.1⟩, rfl⟩
  · simp only [ht, decide_true, Bool.true_and, decide_eq_false_iff_not] at hc
    exact hstay _ (h.v4_row hq h0 (ht ▸ hne) ▸ hc)

theorem Layout.rename_v6 (h : Layout hw routes b) (H : hw.Lawful sem) (before : Int → Prop)
    [DecidablePred before] (f : Int → Int)
    (hmove : ∀ p : Nat, before (hw.v6SlotToRow p) → f p = σ p)
    (hstay : ∀ p : Nat, ¬before (hw.v6SlotToRow p) → σ p = p) :
    renameRows routes (fun q => q.attr.type = .ip6uc && firstPrefix ≤ q.row && before q.row)
      (fun row => hw.v6SlotToRow (f (hw.v6RowToSlot row))) =
      routes.map (reseat hw .ip6uc σ) := by
  have hfirst : firstPrefix = 1 := rfl
  refine h.rename σ (fun q hq hc => ?_) fun q hq h0 ht hc => ?_
  · simp only [Bool.and_eq_true, decide_eq_true_eq] at hc
    have h0 : 0 ≤ q.row := by omega
    have hrow := h.v6_row hq h0 hc.1.1
    rw [rowAt, if_pos rfl, hrow, H.slot_row _ (hrow ▸ h0), hmove _ (hrow ▸ hc.2)]
    exact ⟨⟨hrow ▸ h0, hc.1.1⟩, rfl⟩
  · simp only [ht, decide_true, Bool.true_and, (h.in_table H hq h0).1,
      decide_eq_false_iff_not] at hc
    exact hstay _ (h.v6_row hq h0 ht ▸ hc)

end Rename

/-! ## Placing -/

/-- The block of a family was opened at position `i`. -/
structure Opened (hw : PrefixConfig T E) (sem : RowSem T E C D) (b : RouteType → List Nat)
    (s : PrefixCtrl T) (type : RouteType) (id i : Nat) (row : Int) (s' : PrefixCtrl T) : Prop where
  le : i ≤ (b type).length
  row : row = rowAt hw type i
  room : Room hw (entered b type i id)
  routes : s'.routes = s.routes.map (reseat hw type (opened i))
  useBm : s'.routeUseBm = s.routeUseBm
  stale : s'.prefixRowsStale = false
  cells : Resettled hw sem type (opened i) (b type).length s.routes s.table s'.table

section Place

variable {s s' : PrefixCtrl T} {routes : List PrefixRoute} {b : RouteType → List Nat}
  {r : PrefixRoute} {io : Nat → E} {row : Int} {type : RouteType} {id i below : Nat}

theorem entered_length (id : Nat) (hi : i ≤ (b type).length) :
    (entered b type i id type).length = (b type).length + 1 := by
  rw [entered_self, List.length_insertIdx_of_le_length hi]

theorem Room.span (h : Room hw b) (H : hw.Lawful sem) {p : Nat}
    (hp : p < (b .ip6uc).length) : Span (hw.v6SlotToRow p) v6MoveRows := by
  have hone : v6MoveRows = 1 := rfl
  have hb := h.v6_bounds H hp
  have hfirst : firstPrefix = 1 := rfl
  exact ⟨by omega, by omega, by omega⟩

/-- Moving the last `below` slots one slot up is what opening in front of them asks of the rows. -/
theorem Layout.openSlots (hl : Layout hw routes b) (H : hw.Lawful sem)
    (hspan : ∀ p ≤ (b .ip6uc).length, Span (hw.v6SlotToRow (p : Nat)) v6MoveRows)
    (hbelow : below ≤ (b .ip6uc).length) {err : Int} {k : Nat} {t t' : T}
    (h : moveSlots hw routes (fun k => ((b .ip6uc).length : Int) - 1 - k + 1)
      (fun k => ((b .ip6uc).length : Int) - 1 - k) io below 0 t = ((err, k), t')) :
    (err = 0 → Resettled hw sem .ip6uc (opened ((b .ip6uc).length - below)) (b .ip6uc).length
      routes t t') ∧ (err ≠ 0 → err = - EIO ∨ 0 < k ∨ t' = t) := by
  generalize (b .ip6uc).length = n at *
  have hd : ∀ k < below, (n : Int) - 1 - k + 1 = (n - k : Nat) := fun k hk => by omega
  have hs : ∀ k < below, (n : Int) - 1 - k = (n - 1 - k : Nat) := fun k hk => by omega
  obtain ⟨hdone, hstop⟩ := moveSlots_spec H hl.fits (hl.distinct H)
    (fun k hk => by
      rw [hd k hk, hs k hk]
      exact ⟨hspan _ (by omega), hspan _ (by omega)⟩)
    (H.unhindered hd hs (fun j k _ _ => by omega) fun j k _ _ => by omega) (Nat.zero_add _)
    (Copied.none fun k => Nat.not_lt_zero k) h
  refine ⟨fun herr => ?_, fun herr => (hstop herr).2⟩
  refine (hdone herr).reindex (fun k hk => ⟨n - 1 - k, ?_⟩) fun j hj => ⟨n - 1 - j, ?_⟩
  · obtain ⟨hk, hne⟩ := hk
    have hkb : n - below ≤ k := by
      by_contra hlt
      exact hne (if_neg hlt)
    simp only [rowAt, if_true, opened, if_pos hkb]
    refine ⟨by omega, ?_, ?_⟩
    · congr 1
      omega
    · congr 1
      omega
  · have hkb : n - below ≤ n - 1 - j := by omega
    simp only [rowAt, if_true, opened, if_pos hkb]
    refine ⟨⟨by omega, by omega⟩, ?_⟩
    congr 1
    omega

/-- Moving the rows from the one of `i` on one row down is what opening at `i` asks of the rows. -/
theorem Layout.openRows (hl : Layout hw routes b) (H : hw.Lawful sem) {i : Nat} {row count : Int}
    {e : E} {t t' : T} (hrow : row = firstPrefix + i) (hcount : count = (b .ip4uc).length - i)
    (hpos : 0 < count) (hmax : firstPrefix + (b .ip4uc).length < maxRoutes)
    (h : hw.routeRowsMove t routes (row + 1) row count e = (0, t')) :
    Resettled hw sem .ip4uc (opened i) (b .ip4uc).length routes t t' := by
  have hne : RouteType.ip4uc ≠ .ip6uc := by decide
  have hfirst : firstPrefix = 1 := rfl
  have hmoves := H.move_ok hl.fits (hl.distinct H) ⟨by omega, by omega, by omega⟩
    ⟨by omega, by omega, by omega⟩ h
  refine hmoves.reindex (fun k hk => ⟨k - i, ?_⟩) fun j hj => ⟨i + j, ?_⟩
  · obtain ⟨hk, hne'⟩ := hk
    have hki : i ≤ k := by
      by_contra hlt
      exact hne' (if_neg hlt)
    simp only [rowAt, if_neg hne, opened, if_pos hki]
    omega
  · have hki : i ≤ i + j := Nat.le_add_right ..
    simp only [rowAt, if_neg hne, opened, if_pos hki]
    omega

theorem placeV6_cases (H : hw.Lawful sem) (hl : Layout hw s.routes b)
    (hstale : s.prefixRowsStale = false) (hbelow : below ≤ (b .ip6uc).length)
    (h : placeV6 hw s below (b .ip6uc).length io = (row, s')) :
    s'.prefixRowsStale = true ∨ (row = -1 ∧ s' = s) ∨
      Opened hw sem b s .ip6uc id ((b .ip6uc).length - below) row s' := by
  have hle := Nat.sub_le (b .ip6uc).length below
  have hlen := entered_length id hle
  have h4 : entered b .ip6uc ((b .ip6uc).length - below) id .ip4uc = b .ip4uc :=
    Function.update_of_ne (by decide) ..
  unfold placeV6 at h
  rw [hl.prefixRows_zero H] at h
  generalize hn : (b .ip6uc).length = n at *
  extract_lets v4Rows start at h
  by_cases hfull : hw.v6SlotToRow n < firstPrefix + v4Rows
  · rw [if_pos hfull] at h
    obtain ⟨rfl, rfl⟩ := Prod.mk.inj h
    exact .inr (.inl ⟨rfl, rfl⟩)
  rw [if_neg hfull] at h
  have hroom : Room hw (entered b .ip6uc (n - below) id) := by
    rw [Room, h4, hlen]
    exact ⟨hl.room.1, fun _ => Int.not_lt.1 hfull⟩
  have hspan : ∀ p ≤ n, Span (hw.v6SlotToRow (p : Nat)) v6MoveRows :=
    fun p hp => hroom.span H (by rw [hlen]; omega)
  cases hm : moveSlots hw s.routes (fun k => (n : Int) - 1 - k + 1) (fun k => (n : Int) - 1 - k) io
      below 0 s.table with
  | mk res t =>
    obtain ⟨err, k⟩ := res
    rw [hm] at h
    obtain ⟨hdone, hstop⟩ := hl.openSlots H (hn ▸ hspan) (hn ▸ hbelow) (hn ▸ hm)
    by_cases herr : err = 0
    · have hstart : start = hw.v6SlotToRow (n - below : Nat) :=
        congrArg hw.v6SlotToRow (by omega)
      simp only [herr, ne_eq, not_true, if_false, hstart] at h
      obtain ⟨rfl, rfl⟩ := Prod.mk.inj h
      refine .inr (.inr ⟨hn ▸ hle, (if_pos rfl).symm, hroom, ?_, rfl, hstale, ?_⟩)
      · refine hl.rename_v6 (opened (n - below)) H (· ≤ hw.v6SlotToRow (n - below : Nat))
          (· + 1) (fun p hp => ?_) fun p hp => if_neg fun hle => hp (H.slot_le.2 hle)
        rw [opened, if_pos (H.slot_le.1 hp)]
        rfl
      · exact hn ▸ hdone herr
    · simp only [ne_eq, herr, not_false_eq_true, if_true] at h
      obtain ⟨rfl, rfl⟩ := Prod.mk.inj h
      have hcases := hstop herr
      by_cases hst : err = - EIO ∨ (n : Int) - 1 - k < n - 1
      · left
        rw [if_pos hst]
        rfl
      · obtain ⟨hio, hk⟩ := not_or.1 hst
        obtain rfl := (hcases.resolve_left hio).resolve_left (by omega)
        rw [if_neg hst]
        exact .inr (.inl ⟨rfl, rfl⟩)

theorem placeV4_cases (H : hw.Lawful sem) (hl : Layout hw s.routes b)
    (hstale : s.prefixRowsStale = false) (hbelow : below ≤ (b .ip4uc).length)
    (h : placeV4 hw s .ip4uc below (b .ip4uc).length io = (row, s')) :
    s'.prefixRowsStale = true ∨ (row = -1 ∧ s' = s) ∨
      Opened hw sem b s .ip4uc id below row s' := by
  have hlen := entered_length id hbelow
  have h6 : entered b .ip4uc below id .ip6uc = b .ip6uc := Function.update_of_ne (by decide) ..
  have hne : RouteType.ip4uc ≠ .ip6uc := by decide
  have hfirst : firstPrefix = 1 := rfl
  unfold placeV4 at h
  rw [hl.prefixRows_zero H] at h
  generalize hn : (b .ip4uc).length = n at *
  extract_lets v6Rows start last at h
  have hstart : start = firstPrefix + below := rfl
  have hlast : last = firstPrefix + n := rfl
  by_cases hfull : maxRoutes ≤ last ∨ v6Rows ≠ 0 ∧ hw.v6SlotToRow (v6Rows - 1) ≤ last
  · rw [if_pos hfull] at h
    obtain ⟨rfl, rfl⟩ := Prod.mk.inj h
    exact .inr (.inl ⟨rfl, rfl⟩)
  rw [if_neg hfull] at h
  obtain ⟨hmax, hapart⟩ := not_or.1 hfull
  have hroom : Room hw (entered b .ip4uc below id) := by
    rw [Room, h6, hlen]
    refine ⟨by omega, fun hv6 => ?_⟩
    have hlt := Int.not_le.1 fun hle => hapart ⟨hv6, hle⟩
    rw [show ((v6Rows : Int) - 1) = (v6Rows - 1 : Nat) by omega] at hlt
    change _ ≤ hw.v6SlotToRow (v6Rows - 1 : Nat)
    omega
  have hrow : start = rowAt hw .ip4uc below := (if_neg hne).symm
  by_cases hlt : start < last
  · rw [if_pos hlt] at h
    cases hm : hw.routeRowsMove s.table s.routes (start + 1) start (last - start) (io 0) with
    | mk err t =>
      rw [hm] at h
      by_cases herr : err = 0
      · subst herr
        simp only [ne_eq, not_true, if_false] at h
        obtain ⟨rfl, rfl⟩ := Prod.mk.inj h
        refine .inr (.inr ⟨hn ▸ hbelow, hrow, hroom, ?_, rfl, hstale, ?_⟩)
        · exact hl.rename_v4 (opened below) hne (start ≤ ·) (· + 1) (fun row hrow => by omega)
            (fun p hp => by rw [opened, if_pos (by omega)]; omega) fun p hp => if_neg (by omega)
        · exact hl.openRows H hstart (by omega) (by omega) (by omega) hm
      · simp only [ne_eq, herr, not_false_eq_true, if_true] at h
        obtain ⟨rfl, rfl⟩ := Prod.mk.inj h
        rcases H.move_err hm herr with rfl | ⟨rfl, rfl⟩
        · exact .inl rfl
        · refine .inr (.inl ⟨rfl, ?_⟩)
          rw [if_neg (by decide)]
  · rw [if_neg hlt] at h
    obtain ⟨rfl, rfl⟩ := Prod.mk.inj h
    have hstay : ∀ k : Nat, k < n → opened below k = k := fun k hk => if_neg (by omega)
    refine .inr (.inr ⟨hn ▸ hbelow, hrow, hroom, ?_, rfl, hstale, Copied.none fun k hk => ?_⟩)
    · refine (List.map_id _).symm.trans (List.map_congr_left fun q hq => ?_)
      refine (hl.reseat_self _ hq fun h0 ht => hstay _ ?_).symm
      have := hl.pos_lt hq h0
      rwa [ht, hn] at this
    · exact hk.2 (hstay k (hn ▸ hk.1))

/-- What `otto_l3_route_place` does while the rows are not stale. -/
theorem routePlace_cases (H : hw.Lawful sem) (hl : Layout hw s.routes b) (hr : r ∈ s.routes)
    (hstale : s.prefixRowsStale = false) (h : routePlace hw s r io = (row, s')) :
    s'.prefixRowsStale = true ∨ (row = -1 ∧ s' = s) ∨ ∃ i,
      Opened hw sem b s r.attr.type r.id i row s' ∧ Ranked hw s.routes r i := by
  unfold routePlace at h
  dsimp only at h
  rw [if_neg (by rw [hstale]; exact Bool.false_ne_true), hl.prefixRows_zero H] at h
  generalize hbelow : prefixRows s.routes r.attr.type
      (r.prefixLen + if r.tbId = RT_TABLE_LOCAL then 1 else 0) = below at h
  have hle : below ≤ (b r.attr.type).length := hbelow ▸ hl.prefixRows_le H _
  have hrank : Ranked hw s.routes r (if r.attr.type = .ip6uc then (b r.attr.type).length - below
      else below) := fun q hq h0 ht => by
    have hlong := hl.longer_iff H hq h0 ht hbelow
    exact ⟨fun ha => (hlong.2 ha).rank_le, fun ha => rank_le_of_not_longer fun hq' => ha (hlong.1 hq')⟩
  rcases hl.type_cases hr with h4 | h6
  · rw [h4] at h hle hrank ⊢
    rw [if_neg (by decide)] at h hrank
    exact (placeV4_cases H hl hstale hle h).imp_right (Or.imp_right fun ho => ⟨_, ho, hrank⟩)
  · rw [h6] at h hle hrank ⊢
    rw [if_pos rfl] at h hrank
    exact (placeV6_cases H hl hstale hle h).imp_right (Or.imp_right fun ho => ⟨_, ho, hrank⟩)

end Place

/-! ## Closing -/

/-- The block of a route's family was closed over its row, and the row behind the block cleared. -/
structure Closed (hw : PrefixConfig T E) (sem : RowSem T E C D) (b : RouteType → List Nat)
    (s : PrefixCtrl T) (r : PrefixRoute) (s' : PrefixCtrl T) : Prop where
  ids : s'.routes.map (·.id) = s.routes.map (·.id)
  mem : ∀ q, q.id ≠ r.id →
    (q ∈ s'.routes ↔ ∃ x ∈ s.routes, reseat hw r.attr.type (closed (posOf hw r)) x = q)
  useBm : s'.routeUseBm = s.routeUseBm
  stale : s'.prefixRowsStale = false
  cells : ∃ t₁, Resettled hw sem r.attr.type (closed (posOf hw r)) (b r.attr.type).length s.routes
      s.table t₁ ∧
    sem.Invalid (sem.cell s'.table (rowAt hw r.attr.type ((b r.attr.type).length - 1))) ∧
    ∀ row, row ≠ rowAt hw r.attr.type ((b r.attr.type).length - 1) →
      sem.cell s'.table row = sem.cell t₁ row

section Close

variable {s s' : PrefixCtrl T} {routes : List PrefixRoute} {b : RouteType → List Nat}
  {r : PrefixRoute} {io : Nat → E}

/-- The rows moved up, and then the write that clears the last one. -/
theorem clearLast_cases (H : hw.Lawful sem) (hl : Layout hw s.routes b) (hr : r ∈ s.routes)
    (h0 : 0 ≤ r.row) (hstale : s.prefixRowsStale = false) {last : Int} {e : E} {t₁ : T}
    (hlast : last = rowAt hw r.attr.type ((b r.attr.type).length - 1))
    (hc : Resettled hw sem r.attr.type (closed (posOf hw r)) (b r.attr.type).length s.routes
      s.table t₁)
    (h : clearLast hw { s with
      table := t₁
      routes := s.routes.map (reseat hw r.attr.type (closed (posOf hw r))) } r last e = s') :
    s'.prefixRowsStale = true ∨ Closed hw sem b s r s' := by
  have hpos := hl.pos_lt hr h0
  have hin : InTable last := hlast ▸ hl.room.in_table H (hl.type_cases hr) (by omega)
  have hmap : reseat hw r.attr.type (closed (posOf hw r)) r ∈
      s.routes.map (reseat hw r.attr.type (closed (posOf hw r))) := List.mem_map_of_mem hr
  unfold clearLast at h
  cases hw' : hw.routeWrite t₁ last r.cleared e with
  | mk err t =>
    rw [hw'] at h
    by_cases herr : err = 0
    · subst herr
      simp only [ne_eq, not_true, if_false] at h
      subst h
      right
      refine ⟨?_, fun q hq => ?_, rfl, hstale, t₁, hc, ?_, fun row hne => ?_⟩
      · exact ids_putRoute.trans (ids_map fun _ => reseat_id)
      · have hid : r.cleared.id = (reseat hw r.attr.type (closed (posOf hw r)) r).id := by
          rw [reseat_id]
          rfl
        refine (mem_putRoute_iff hmap hid).trans ?_
        rw [List.mem_map, reseat_id]
        refine ⟨fun hcases => hcases.elim ?_ And.left, fun hx => .inr ⟨hx, hq⟩⟩
        rintro rfl
        exact absurd rfl hq
      · rw [← hlast]
        exact H.write_ok (r := r.cleared) hin (hl.fits r hr).cleared hw'
      · exact H.write_kept hin hw' (hlast ▸ hne)
    · simp only [ne_eq, herr, not_false_eq_true, if_true] at h
      subst h
      exact .inl rfl

/-- Nothing moves when the route is in the last row. -/
theorem Layout.closed_last (hl : Layout hw s.routes b) (hr : r ∈ s.routes) (h0 : 0 ≤ r.row)
    (hstale : s.prefixRowsStale = false) (hinv : sem.Invalid (sem.cell s.table r.row))
    (hlast : posOf hw r = (b r.attr.type).length - 1) : Closed hw sem b s r s := by
  have hrow := (hl.row r hr h0).1
  have hstay : ∀ k < (b r.attr.type).length, closed (posOf hw r) k = k :=
    fun k hk => if_neg (by omega)
  refine ⟨rfl, fun q _ => ?_, rfl, hstale, s.table, Copied.none fun k hk => ?_, ?_, fun _ _ => rfl⟩
  · have hself : ∀ x ∈ s.routes, reseat hw r.attr.type (closed (posOf hw r)) x = x :=
      fun x hx => hl.reseat_self _ hx fun hx0 ht => hstay _ <| by
        have := hl.pos_lt hx hx0
        rwa [ht] at this
    refine ⟨fun hq => ⟨q, hq, hself q hq⟩, ?_⟩
    rintro ⟨x, hx, rfl⟩
    rwa [hself x hx]
  · exact hk.2 (hstay k hk.1)
  · rw [← hlast, ← hrow]
    exact hinv

/-- Moving each slot behind `i` one slot down is what closing at `i` asks of the rows. -/
theorem Layout.closeSlots (hl : Layout hw routes b) (H : hw.Lawful sem) {type : RouteType}
    (h6 : type = .ip6uc) {i count k : Nat} {t t' : T} (hcount : count = (b type).length - 1 - i)
    (h : moveSlots hw routes (fun k => (i : Int) + 1 + k - 1) (fun k => (i : Int) + 1 + k) io
      count 0 t = ((0, k), t')) :
    Resettled hw sem type (closed i) (b type).length routes t t' := by
  have hd : ∀ k < count, (i : Int) + 1 + k - 1 = (i + k : Nat) := fun k _ => by omega
  have hs : ∀ k < count, (i : Int) + 1 + k = (i + 1 + k : Nat) := fun k _ => by omega
  have hspan : ∀ p < (b type).length, Span (hw.v6SlotToRow (p : Nat)) v6MoveRows :=
    fun p hp => hl.room.span H (h6 ▸ hp)
  have hmoves := (moveSlots_spec H hl.fits (hl.distinct H)
    (fun k hk => by
      rw [hd k hk, hs k hk]
      exact ⟨hspan _ (by omega), hspan _ (by omega)⟩)
    (H.unhindered hd hs (fun j k _ _ => by omega) fun j k _ _ => by omega) (Nat.zero_add _)
    (Copied.none fun k => Nat.not_lt_zero k) h).1 rfl
  refine hmoves.reindex (fun k hk => ⟨k - i - 1, ?_⟩) fun j hj => ⟨i + 1 + j, ?_⟩
  · obtain ⟨hk, hne⟩ := hk
    have hlt : i < k := by
      by_contra hge
      exact hne (if_neg hge)
    simp only [rowAt, if_pos h6, closed, if_pos hlt]
    refine ⟨by omega, ?_, ?_⟩
    · congr 1
      omega
    · congr 1
      omega
  · have hlt : i < i + 1 + j := by omega
    simp only [rowAt, if_pos h6, closed, if_pos hlt]
    refine ⟨⟨by omega, by omega⟩, ?_⟩
    congr 1
    omega

/-- Moving the rows behind the one of `i` to it is what closing at `i` asks of the rows. -/
theorem Layout.closeRows (hl : Layout hw routes b) (H : hw.Lawful sem) {type : RouteType}
    (h4 : type = .ip4uc) {i : Nat} {row count : Int} {e : E} {t t' : T}
    (hrow : row = firstPrefix + i) (hcount : count = (b type).length - 1 - i) (hpos : 0 < count)
    (h : hw.routeRowsMove t routes row (row + 1) count e = (0, t')) :
    Resettled hw sem type (closed i) (b type).length routes t t' := by
  have hne : type ≠ .ip6uc := by rw [h4]; decide
  have hmax : firstPrefix + (b type).length ≤ maxRoutes := by
    rw [h4]
    exact hl.room.1
  have hfirst : firstPrefix = 1 := rfl
  have hmoves := H.move_ok hl.fits (hl.distinct H) ⟨by omega, by omega, by omega⟩
    ⟨by omega, by omega, by omega⟩ h
  refine hmoves.reindex (fun k hk => ⟨k - i - 1, ?_⟩) fun j hj => ⟨i + 1 + j, ?_⟩
  · obtain ⟨hk, hne'⟩ := hk
    have hlt : i < k := by
      by_contra hge
      exact hne' (if_neg hge)
    simp only [rowAt, if_neg hne, closed, if_pos hlt]
    omega
  · have hlt : i < i + 1 + j := by omega
    simp only [rowAt, if_neg hne, closed, if_pos hlt]
    omega

/-- What `otto_l3_route_compact` does while the rows are not stale. -/
theorem routeCompact_cases (H : hw.Lawful sem) (hl : Layout hw s.routes b) (hr : r ∈ s.routes)
    (h0 : 0 ≤ r.row) (hstale : s.prefixRowsStale = false)
    (hinv : sem.Invalid (sem.cell s.table r.row)) (h : routeCompact hw s r io = s') :
    s'.prefixRowsStale = true ∨ Closed hw sem b s r s' := by
  have hin := hl.in_table H hr h0
  have hpos := hl.pos_lt hr h0
  have hlast := hl.closed_last hr h0 hstale hinv
  unfold routeCompact at h
  rw [if_neg (not_or.2 ⟨by have := hin.1; omega, by rw [hstale]; exact Bool.false_ne_true⟩),
    hl.prefixRows_zero H] at h
  extract_lets rows slot last at h
  have hrows : rows = (b r.attr.type).length := rfl
  by_cases h6 : r.attr.type = .ip6uc
  · have hrow6 := hl.v6_row hr h0 h6
    have hslot : slot = posOf hw r := by
      change hw.v6RowToSlot r.row = posOf hw r
      rw [hrow6, H.slot_row _ (hrow6 ▸ h0)]
    rw [if_pos h6, hslot] at h
    by_cases hend : (rows : Int) - 1 ≤ posOf hw r
    · rw [if_pos hend] at h
      exact .inr (h ▸ hlast (by omega))
    rw [if_neg hend] at h
    cases hm : moveSlots hw s.routes (fun k => (posOf hw r : Int) + 1 + k - 1)
        (fun k => (posOf hw r : Int) + 1 + k) (fun k => io (k + 1))
        ((rows : Int) - 1 - posOf hw r).toNat 0 s.table with
    | mk res t₁ =>
      obtain ⟨err, k⟩ := res
      rw [hm] at h
      by_cases herr : err = 0
      swap
      · simp only [ne_eq, herr, not_false_eq_true, if_true] at h
        exact .inl (h ▸ rfl)
      subst herr
      simp only [ne_eq, not_true, if_false] at h
      have hren := hl.rename_v6 (closed (posOf hw r)) H (· < hw.v6SlotToRow (posOf hw r)) (· - 1)
        (fun p hp => by
          have hlt : posOf hw r < p := by
            by_contra hge
            exact not_lt_of_ge (H.slot_le.2 (Nat.not_lt.1 hge)) hp
          rw [closed, if_pos hlt]
          omega)
        fun p hp => if_neg fun hlt => hp (H.slot_lt hlt)
      rw [hrow6, hren, ← h6] at h
      refine clearLast_cases H hl hr h0 hstale ?_ (hl.closeSlots H h6 (by omega) hm) h
      rw [rowAt, if_pos h6]
      congr 1
      omega
  · have hrow4 := hl.v4_row hr h0 h6
    rw [if_neg h6] at h
    by_cases hend : last ≤ r.row
    · rw [if_pos hend] at h
      exact .inr (h ▸ hlast (by omega))
    rw [if_neg hend] at h
    cases hm : hw.routeRowsMove s.table s.routes r.row (r.row + 1) (last - r.row) (io 1) with
    | mk err t₁ =>
      rw [hm] at h
      by_cases herr : err = 0
      swap
      · simp only [ne_eq, herr, not_false_eq_true, if_true] at h
        exact .inl (h ▸ rfl)
      subst herr
      simp only [ne_eq, not_true, if_false] at h
      have hren := hl.rename_v4 (closed (posOf hw r)) h6 (r.row < ·) (· - 1)
        (fun row hrow => by omega) (fun p hp => by rw [closed, if_pos (by omega)]; omega)
        fun p hp => if_neg (by omega)
      rw [hren] at h
      have h4 := (hl.type_cases hr).resolve_right h6
      refine clearLast_cases H hl hr h0 hstale ?_
        (hl.closeRows H h4 hrow4 (by omega) (by omega) hm) h
      rw [rowAt, if_neg h6]
      omega

end Close

end Lede.Otto
