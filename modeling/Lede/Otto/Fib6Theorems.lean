/-
Lede.Otto.Fib6Theorems — how long a row for an IPv6 destination stays (`rtl83xx/l3.c`).

Only the first entries of the nodes are notified (`NodeOp.headStep`), so the row is compared with
those: `Stands` says what a row means, and one lemma an event that it goes on to mean it.
`trapRow_lives` is about whole runs. It leaves out the routes for which the driver keeps no row, and
the delete of a local route whose row stands for sources too.
-/
import Lede.Otto.Fib6

namespace Lede.Otto

/-! ## What is notified -/

/-- The first entries of the nodes. -/
structure Heads where
  plain : Option (List Fib6Info)
  src : Rt6Key → Option (List Fib6Info)

def Kernel6.heads (k : Kernel6) : Heads := ⟨k.plain.head?, fun src => (k.src src).head?⟩

/-- What an event says about the first entry of a node. -/
inductive HeadStep (h : Option (List Fib6Info)) :
    Option Fib6Event → Option (List Fib6Info) → Prop where
  | same : HeadStep h none h
  | add (e : List Fib6Info) (x : Fib6Info) (hx : x ∈ e) :
      HeadStep h (some (.add x e.length)) (some e)
  | less (e rest : List Fib6Info) (x : Fib6Info) (m : Nat) (he : h = some e) (hx : x ∈ e)
      (hrest : rest ≠ []) (hm : 0 < m) (hlen : rest.length + m = e.length) :
      HeadStep h (some (.del x m)) (some rest)
  | gone (e : List Fib6Info) (x : Fib6Info) (he : h = some e) (hx : x ∈ e) :
      HeadStep h (some (.del x e.length)) none

variable {key : RouteKey} {node : Option Rt6Key} {n : Node6} {op : NodeOp}

/-- The operations of the kernel say what becomes of the first entry. -/
theorem NodeOp.headStep (hn : ∀ e ∈ n, e ≠ []) (hv : op.Valid key node n) :
    HeadStep n.head? (op.event n) (op.apply n).head? := by
  cases op with
  | insert i e x =>
    cases i with
    | zero => exact .add e x hv.2.2
    | succ i =>
      cases n with
      | nil => exact absurd hv.1 (by simp)
      | cons e' es => exact .same
  | replace i e x =>
    cases i with
    | zero =>
      cases n with
      | nil => exact absurd hv.1 (by simp)
      | cons e' es => exact .add e x hv.2.2
    | succ i =>
      cases n with
      | nil => exact absurd hv.1 (by simp)
      | cons e' es => exact .same
  | append i xs x =>
    obtain ⟨-, e, he, -, hx⟩ := hv
    cases n with
    | nil => cases he
    | cons e' es =>
      cases i with
      | zero =>
        cases he
        have hadd := HeadStep.add (h := some e) (e ++ xs) x hx
        rw [List.length_append] at hadd
        exact hadd
      | succ i => exact .same
  | delete i rest x =>
    obtain ⟨e, he, hsub, hlt, hx⟩ := hv
    cases n with
    | nil => cases he
    | cons e' es =>
      cases i with
      | succ i =>
        have hhead : (NodeOp.apply (e' :: es) (.delete (i + 1) rest x)).head? = some e' := by
          simp only [NodeOp.apply]
          split <;> rfl
        rw [hhead]
        cases es <;> exact .same
      | zero =>
        cases he
        by_cases hrest : rest = []
        · subst hrest
          cases es with
          | nil =>
            exact .gone e x rfl hx
          | cons next es =>
            cases next with
            | nil => exact absurd rfl (hn [] (by simp))
            | cons y ys => exact .add (y :: ys) y List.mem_cons_self
        · have hless := HeadStep.less (h := some e) e rest x (e.length - rest.length) rfl hx hrest
            (by omega) (by omega)
          cases es with
          | nil => simpa [NodeOp.event, NodeOp.apply, hrest] using hless
          | cons next es => simpa [NodeOp.event, NodeOp.apply, hrest] using hless

/-! ## What a row means -/

/-- The siblings of an entry. -/
def size (e : Option (List Fib6Info)) : Nat := e.elim 0 List.length

/-- A route is announced. -/
def Heads.Held (h : Heads) : Prop := h.plain.isSome = true ∨ ∃ src, (h.src src).isSome = true

/-- A row that traps counts the siblings of each node. -/
structure TrapRow (h : Heads) (r : Route6) : Prop where
  action : r.action = ROUTE_ACT_TRAP2CPU
  members : r.members = size h.plain
  complete : r.srcsIncomplete = false
  nodup : (r.srcs.map (·.key)).Nodup
  srcs : ∀ src, (routeSrcFind r src).map (·.members) = (h.src src).map List.length

/-- A row for a gateway is for the one route there is. -/
structure GwRow (h : Heads) (r : Route6) : Prop where
  srcs : r.srcs = []
  complete : r.srcsIncomplete = false
  none : ∀ src, h.src src = none
  plain : ∃ x, h.plain = some [x] ∧ x.isLocal = false ∧ fibCheckV6 x 1 = true ∧ r.gwIp = x.gw6

/-- The row that stands for the routes that are announced. -/
def Stands (h : Heads) : Option Route6 → Prop
  | none => ¬h.Held
  | some r => h.Held ∧ (∃ row ≥ firstPrefixRow, r.row = some row) ∧
    if r.gwIp.isAny then TrapRow h r else GwRow h r

/-- What the driver keeps a row for. -/
def Fib6Info.Carried (x : Fib6Info) : Prop :=
  if x.isLocal then x.nh = false ∧ x.key.dst.addr.isLoopback = false else x.type ≠ .multicast

section Rows

variable {h : Heads} {r : Route6} {s : Routes6} {res : Res} {rt : Fib6Info} {m : Nat}

@[simp] theorem setRoute_self : setRoute s key r key = some r := Function.update_self ..

@[simp] theorem teardown_self : teardown s key key = none := Function.update_self ..

theorem hasSrcs_iff (hr : TrapRow h r) :
    routeHasSrcs r = true ↔ ∃ src, (h.src src).isSome = true := by
  rw [routeHasSrcs, hr.complete, Bool.or_false]
  constructor
  · intro hne
    cases hs : r.srcs with
    | nil => simp [hs] at hne
    | cons src srcs =>
      have hfind := hr.srcs src.key
      rw [routeSrcFind, hs, List.find?_cons_of_pos (by simp)] at hfind
      cases he : h.src src.key with
      | none => simp [he] at hfind
      | some e => exact ⟨src.key, by rw [he]; rfl⟩
  · rintro ⟨src, hsome⟩
    obtain ⟨e, he⟩ := Option.isSome_iff_exists.1 hsome
    have hfind := hr.srcs src
    rw [he] at hfind
    cases hs : r.srcs with
    | nil => simp [routeSrcFind, hs] at hfind
    | cons src srcs => rfl

/-- A new row is one that traps for the route without a source alone. -/
theorem newTrap_spec (hres : res.Available) (s : Routes6) (rt : Fib6Info) (m : Nat) :
    ∃ r, newTrap res s rt m = (true, setRoute s rt.key r) ∧ r.gwIp = in6addrAny ∧
      (∃ row ≥ firstPrefixRow, r.row = some row) ∧ r.srcs = [] ∧ r.members = m ∧
      ∀ h : Heads, (∀ src, h.src src = none) → m = size h.plain → TrapRow h r := by
  obtain ⟨halloc, -, -, row, hrow, hres⟩ := hres
  refine ⟨⟨in6addrAny, ROUTE_ACT_TRAP2CPU, some row, m, [], false⟩, ?_, rfl, ⟨row, hrow, rfl⟩, rfl,
    rfl, fun h hno hm => ⟨rfl, hm, rfl, List.nodup_nil, fun src => ?_⟩⟩
  · simp only [newTrap, halloc, hres, Bool.not_true, Bool.false_eq_true, if_false,
      if_neg (Nat.not_lt.2 hrow)]
  · rw [hno src]
    rfl

theorem not_held (hh : ¬h.Held) (src : Rt6Key) : h.src src = none := by
  rw [← Option.not_isSome_iff_eq_none]
  exact fun hs => hh (.inr ⟨src, hs⟩)

/-- The row that traps is there then, with the sources that it had. -/
theorem fibTrapV6_spec (hres : res.Available) (hst : Stands h (s key)) (hrt : rt.key = key)
    (m : Nat) : ∃ s' r, fibTrapV6 res s rt m = (true, s') ∧ s' key = some r ∧
      r.gwIp.isAny = true ∧ (∃ row ≥ firstPrefixRow, r.row = some row) ∧
      ∀ h' : Heads, h'.src = h.src → m = size h'.plain → TrapRow h' r := by
  subst hrt
  have hnew : ∀ s₁ : Routes6, (∀ src, h.src src = none) → ∃ s' r,
      newTrap res s₁ rt m = (true, s') ∧ s' rt.key = some r ∧ r.gwIp.isAny = true ∧
        (∃ row ≥ firstPrefixRow, r.row = some row) ∧
        ∀ h' : Heads, h'.src = h.src → m = size h'.plain → TrapRow h' r := by
    intro s₁ hno
    obtain ⟨r, hr, hgw, hrow, -, -, htrap⟩ := newTrap_spec hres s₁ rt m
    refine ⟨_, r, hr, setRoute_self, by rw [hgw]; rfl, hrow, fun h' hsrc hm => htrap h' ?_ hm⟩
    rw [hsrc]
    exact hno
  rw [fibTrapV6]
  cases hs : s rt.key with
  | none =>
    rw [hs] at hst
    exact hnew s (not_held hst)
  | some r =>
    rw [hs] at hst
    obtain ⟨-, hrow, hmeans⟩ := hst
    simp only
    split
    · rename_i hany
      rw [if_pos hany] at hmeans
      exact ⟨_, _, rfl, setRoute_self, hany, hrow, fun h' hsrc hm =>
        ⟨hmeans.action, hm, hmeans.complete, hmeans.nodup, by rw [hsrc]; exact hmeans.srcs⟩⟩
    · rename_i hany
      rw [if_neg hany] at hmeans
      exact hnew _ hmeans.none

/-- A local route has no siblings. -/
theorem EntryOk.local_single {e : List Fib6Info} {x : Fib6Info} (hok : EntryOk key node e)
    (hx : x ∈ e) (hl : x.isLocal = true) : e.length = 1 := by
  by_contra hne
  have hpos := List.length_pos_of_ne_nil hok.ne
  rw [hok.sibling (by omega) x hx] at hl
  cases hl

/-- A row that traps stands for the routes, whatever they are. -/
theorem TrapRow.stands (hr : TrapRow h r) (hheld : h.Held) (hany : r.gwIp.isAny = true)
    (hrow : ∃ row ≥ firstPrefixRow, r.row = some row) : Stands h (some r) :=
  ⟨hheld, hrow, by rw [if_pos hany]; exact hr⟩

/-! ### Routes without a source -/

variable {e : List Fib6Info} {x : Fib6Info}

/-- A route without a source, where no row is. -/
theorem addPlain_spec (hres : res.Available) (hs : s key = none) (hno : ∀ src, h.src src = none)
    (hok : EntryOk key none e) (hx : x ∈ e) (hc : x.Carried) (hl : x.isLocal = false)
    (hplen : key.dst.plen ≠ 0) (he : h.plain = some e) :
    Stands h ((addPlain res s x e.length).2 key) := by
  have hheld : h.Held := .inl (by rw [he]; rfl)
  have hxk := hok.key x hx
  have hsize : e.length = size h.plain := by rw [he]; rfl
  rw [Fib6Info.Carried, hl] at hc
  simp only [addPlain]
  split
  · -- a row for its gateway
    rename_i hcheck
    obtain ⟨halloc, hintf, -, row, hrow, hresrow⟩ := hres
    rw [Bool.and_eq_true] at hcheck
    obtain ⟨hcheck, -⟩ := hcheck
    have hone : ¬1 < e.length := by
      intro hlt
      simp [fibCheckV6, hlt] at hcheck
    have hgw6 : x.gwFamily6 = true := by
      simp only [fibCheckV6, Bool.and_eq_true] at hcheck
      exact hcheck.1.2
    obtain ⟨y, rfl⟩ : ∃ y, e = [y] := by
      rw [← List.length_eq_one_iff]
      have hpos := List.length_pos_of_ne_nil hok.ne
      omega
    rw [List.mem_singleton] at hx
    subst hx
    simp only [halloc, hintf, Bool.not_true, Bool.or_self, Bool.false_eq_true, if_false, hxk,
      setRoute_self]
    refine ⟨hheld, ⟨row, hrow, hresrow⟩, ?_⟩
    rw [if_neg (by simp [hok.gw x (List.mem_singleton_self x) hgw6])]
    exact ⟨rfl, rfl, hno, x, he, hl, hcheck, rfl⟩
  · -- a row that traps
    rw [if_pos ⟨by rwa [hxk], by simpa using hc⟩]
    have hst : Stands ⟨none, h.src⟩ (s key) := by
      rw [hs]
      rintro (hp | ⟨src, hsrc⟩)
      · cases hp
      · have hnone := hno src
        simp only at hsrc
        rw [hnone] at hsrc
        cases hsrc
    obtain ⟨s', r, hr, hkey, hany, hrow, htrap⟩ := fibTrapV6_spec hres hst hxk e.length
    simp only [hr, hkey]
    exact (htrap h rfl hsize).stands hheld hany hrow

/-- The first entry without a source is another one. -/
theorem fibAddV6_plain (hres : res.Available) (hst : Stands h (s key)) (hok : EntryOk key none e)
    (hx : x ∈ e) (hc : x.Carried) (hplen : key.dst.plen ≠ 0) :
    Stands { h with plain := some e } ((fibAddV6 res s x e.length).2 key) := by
  have hheld : ({ h with plain := some e } : Heads).Held := .inl rfl
  have hxk := hok.key x hx
  have hsrc : x.src.plen = 0 := hok.src x hx
  rw [fibAddV6]
  split
  · -- an address of the switch
    rename_i hl
    have hone := hok.local_single hx hl
    rw [Fib6Info.Carried, if_pos hl] at hc
    obtain ⟨s', r, hr, hkey, hany, hrow, htrap⟩ := fibTrapV6_spec hres hst hxk 1
    simp only [fibAddV6Local, hc.1, hc.2, Bool.or_self, Bool.false_eq_true, if_false, hr, hkey]
    exact (htrap { h with plain := some e } rfl hone.symm).stands hheld hany hrow
  · rename_i hl
    rw [Bool.not_eq_true] at hl
    rw [if_neg (not_not.2 hsrc), hxk]
    cases hs : s key with
    | none =>
      rw [hs] at hst
      exact addPlain_spec hres hs (not_held (h := h) hst) hok hx hc hl hplen rfl
    | some r =>
      rw [hs] at hst
      obtain ⟨-, hrow, hmeans⟩ := hst
      simp only
      split
      · -- it traps for its sources, and for this one too
        rename_i hhas
        split at hmeans
        · rename_i hany
          simp only [setRoute_self]
          exact TrapRow.stands (r := { r with members := e.length })
            ⟨hmeans.action, rfl, hmeans.complete, hmeans.nodup, hmeans.srcs⟩ hheld hany hrow
        · simp [routeHasSrcs, hmeans.srcs, hmeans.complete] at hhas
      · rename_i hhas
        have hno : ∀ src, h.src src = none := by
          split at hmeans
          · rw [hasSrcs_iff hmeans] at hhas
            intro src
            rw [← Option.not_isSome_iff_eq_none]
            exact fun hsome => hhas ⟨src, hsome⟩
          · exact hmeans.none
        exact addPlain_spec hres teardown_self hno hok hx hc hl hplen rfl

/-- Where no source is left, a row goes with the first entry without one. -/
theorem not_held_plain (hno : ∀ src, h.src src = none) :
    ¬({ h with plain := none } : Heads).Held := by
  rintro (hp | ⟨src, hsrc⟩)
  · cases hp
  · rw [hno src] at hsrc
    cases hsrc

/-- The delete of a local route takes the row, whatever else the row stands for. -/
theorem fibDelV6_local (s : Routes6) (hl : x.isLocal = true) (m : Nat) :
    fibDelV6 s x m x.key = none := by
  rw [fibDelV6, if_pos hl, fibDelV6Local]
  cases hs : s x.key with
  | none => exact hs
  | some r => exact teardown_self

/-- Siblings of the first entry without a source leave, and `rest` stays. A local route leaves only
while the row stands for no source. -/
theorem fibDelV6_plain (hst : Stands h (s key)) (he : h.plain = some e) (hok : EntryOk key none e)
    (hx : x ∈ e) {o : Option (List Fib6Info)} (ho : o.elim True (· ≠ [])) (hm : 0 < m)
    (hlen : size o + m = e.length) (hsrcs : x.isLocal = true → ∀ src, h.src src = none) :
    Stands { h with plain := o } (fibDelV6 s x m key) := by
  have hxk := hok.key x hx
  have hsrc : x.src.plen = 0 := hok.src x hx
  have hsome : (s key).isSome = true := by
    cases hs : s key with
    | none =>
      rw [hs] at hst
      exact absurd (.inl (by rw [he]; rfl)) hst
    | some r => rfl
  obtain ⟨r, hs⟩ := Option.isSome_iff_exists.1 hsome
  rw [hs] at hst
  obtain ⟨-, hrow, hmeans⟩ := hst
  -- an entry of one route goes as a whole
  have hgone : e.length = 1 → o = none := by
    intro hone
    cases o with
    | none => rfl
    | some rest =>
      have hpos := List.length_pos_of_ne_nil (show rest ≠ [] from ho)
      simp only [size, Option.elim] at hlen
      omega
  by_cases hl : x.isLocal = true
  · obtain rfl := hgone (hok.local_single hx hl)
    rw [← hxk, fibDelV6_local s hl]
    exact not_held_plain (hsrcs hl)
  · rw [fibDelV6, if_neg hl, if_neg (not_not.2 hsrc), hxk, hs]
    simp only
    split
    · rename_i hany
      rw [if_pos hany] at hmeans
      have hmembers : r.members = e.length := by rw [hmeans.members, he]; rfl
      have hkeep : ∀ m', m' = size o → TrapRow { h with plain := o } { r with members := m' } :=
        fun m' hm' => ⟨hmeans.action, hm', hmeans.complete, hmeans.nodup, hmeans.srcs⟩
      split
      · -- some stay
        rename_i hlt
        simp only [setRoute_self]
        refine (hkeep _ (by omega)).stands (.inl ?_) hany hrow
        cases o with
        | none =>
          simp only [size, Option.elim] at hlen
          omega
        | some rest => rfl
      · rename_i hge
        have hzero : size o = 0 := by omega
        have hnone : o = none := by
          cases o with
          | none => rfl
          | some rest => exact absurd (List.length_eq_zero_iff.1 hzero) ho
        subst hnone
        split
        · rename_i hhas
          simp only [setRoute_self]
          exact (hkeep 0 rfl).stands (.inr ((hasSrcs_iff hmeans).1 hhas)) hany hrow
        · rename_i hhas
          rw [teardown_self]
          refine not_held_plain fun src => ?_
          rw [← Option.not_isSome_iff_eq_none]
          exact fun hsome => hhas ((hasSrcs_iff hmeans).2 ⟨src, hsome⟩)
    · rename_i hany
      rw [if_neg hany] at hmeans
      obtain ⟨y, hy, -, hcheck, hgw⟩ := hmeans.plain
      obtain rfl : e = [y] := Option.some.inj (he.symm.trans hy)
      rw [List.mem_singleton] at hx
      subst hx
      obtain rfl := hgone rfl
      obtain rfl : m = 1 := by simpa [size] using hlen
      rw [hcheck, hgw]
      simp only [Bool.not_true, Bool.false_eq_true, if_false, ne_eq, not_true_eq_false,
        teardown_self]
      exact not_held_plain hmeans.none

/-! ### Routes with a source -/

variable {src : Rt6Key}

theorem find_setSrc (r : Route6) (src src' : Rt6Key) (m : Nat) :
    (routeSrcFind (setSrc r src m) src').map (·.members) =
      if src' = src then (routeSrcFind r src').map (fun _ => m)
      else (routeSrcFind r src').map (·.members) := by
  rw [routeSrcFind, setSrc, List.find?_map, routeSrcFind, Option.map_map]
  have hkey : (fun s : RouteSrc => decide (s.key = src')) ∘
      (fun s => if s.key = src then { s with members := m } else s) =
      fun s => decide (s.key = src') := by
    funext s
    simp only [Function.comp]
    split <;> rfl
  rw [hkey]
  cases hfind : r.srcs.find? (fun s => decide (s.key = src')) with
  | none => split <;> rfl
  | some s =>
    have hs : s.key = src' := by simpa using List.find?_some hfind
    split
    · rename_i heq
      simp [hs, heq]
    · rename_i hne
      simp [hs, hne]

theorem setSrc_nodup (hn : (r.srcs.map (·.key)).Nodup) (src : Rt6Key) (m : Nat) :
    ((setSrc r src m).srcs.map (·.key)).Nodup := by
  have hkeys : (setSrc r src m).srcs.map (·.key) = r.srcs.map (·.key) := by
    rw [setSrc, List.map_map]
    apply List.map_congr_left
    intro s _
    simp only [Function.comp]
    split <;> rfl
  rw [hkeys]
  exact hn

theorem find_append (r : Route6) (hnone : routeSrcFind r src = none) (m : Nat) (src' : Rt6Key) :
    (routeSrcFind { r with srcs := r.srcs ++ [⟨src, m⟩] } src').map (·.members) =
      if src' = src then some m else (routeSrcFind r src').map (·.members) := by
  rw [routeSrcFind, List.find?_append]
  split
  · rename_i heq
    subst heq
    rw [routeSrcFind] at hnone
    simp [hnone]
  · rename_i hne
    simp [routeSrcFind, Ne.symm hne]

theorem find_erase {l : List RouteSrc} {s₀ : RouteSrc} (hn : (l.map (·.key)).Nodup)
    (hs : l.find? (·.key = src) = some s₀) (src' : Rt6Key) :
    (l.erase s₀).find? (·.key = src') =
      if src' = src then none else l.find? (·.key = src') := by
  induction l with
  | nil => cases hs
  | cons s l ih =>
    rw [List.map_cons, List.nodup_cons] at hn
    by_cases hkey : s.key = src
    · -- it is the first one, and no other one has the key
      rw [List.find?_cons_of_pos (by simpa using hkey)] at hs
      obtain rfl := Option.some.inj hs
      rw [List.erase_cons_head]
      split
      · rename_i heq
        rw [List.find?_eq_none]
        intro y hy hy'
        exact hn.1 (List.mem_map.2 ⟨y, hy, (of_decide_eq_true hy').trans (heq.trans hkey.symm)⟩)
      · rename_i hne
        rw [List.find?_cons_of_neg]
        simpa [hkey] using Ne.symm hne
    · rw [List.find?_cons_of_neg (by simpa using hkey)] at hs
      have hs₀ : s₀.key = src := by simpa using List.find?_some hs
      have hne : s ≠ s₀ := by
        rintro rfl
        exact hkey hs₀
      rw [List.erase_cons_tail (by simpa using hne)]
      by_cases hkey' : s.key = src'
      · rw [List.find?_cons_of_pos (by simpa using hkey'), List.find?_cons_of_pos
          (by simpa using hkey'), if_neg]
        rintro rfl
        exact hkey hkey'
      · rw [List.find?_cons_of_neg (by simpa using hkey'), List.find?_cons_of_neg
          (by simpa using hkey')]
        exact ih hn.2 hs

/-- The source has this first entry now. -/
def Heads.setSrc (h : Heads) (src : Rt6Key) (o : Option (List Fib6Info)) : Heads :=
  { h with src := Function.update h.src src o }

theorem Heads.setSrc_src (h : Heads) (src : Rt6Key) (o : Option (List Fib6Info)) (src' : Rt6Key) :
    (h.setSrc src o).src src' = if src' = src then o else h.src src' :=
  Function.update_apply ..

/-- The source has this number of members in the row. -/
theorem addSrc_spec (hres : res.Available) (hs : s rt.key = some r) (hr : TrapRow h r)
    (hsrc : rt.src = src) :
    ∃ r', addSrc res s rt e.length = (true, setRoute s rt.key r') ∧ r'.gwIp = r.gwIp ∧
      r'.row = r.row ∧ TrapRow (h.setSrc src (some e)) r' := by
  subst hsrc
  obtain ⟨-, -, hmem, -⟩ := hres
  rw [addSrc, hs]
  simp only
  cases hfind : routeSrcFind r rt.src with
  | some old =>
    refine ⟨_, rfl, rfl, rfl,
      ⟨hr.action, hr.members, hr.complete, setSrc_nodup hr.nodup _ _, fun src => ?_⟩⟩
    rw [find_setSrc, Heads.setSrc_src]
    split
    · rename_i heq
      rw [heq, hfind]
      rfl
    · exact hr.srcs src
  | none =>
    rw [hmem]
    refine ⟨_, rfl, rfl, rfl, ⟨hr.action, hr.members, hr.complete, ?_, fun src => ?_⟩⟩
    · rw [List.map_append, List.nodup_append]
      refine ⟨hr.nodup, List.nodup_singleton _, ?_⟩
      rintro k hk _ hsingle rfl
      obtain ⟨y, hy, hyk⟩ := List.mem_map.1 hk
      rw [List.map_singleton, List.mem_singleton] at hsingle
      rw [routeSrcFind, List.find?_eq_none] at hfind
      exact hfind y hy (by simpa [hyk] using hsingle)
    · rw [find_append r hfind, Heads.setSrc_src]
      split
      · rfl
      · exact hr.srcs src

/-- The first entry of a source is another one. -/
theorem fibAddV6_src (hres : res.Available) (hst : Stands h (s key))
    (hok : EntryOk key (some src) e) (hx : x ∈ e) (hc : x.Carried) (hplen : key.dst.plen ≠ 0) :
    Stands (h.setSrc src (some e))
      ((fibAddV6 res s x e.length).2 key) := by
  have hxk := hok.key x hx
  obtain ⟨hsrc, hlen, hl⟩ : x.src = src ∧ src.plen ≠ 0 ∧ x.isLocal = false := hok.src x hx
  have hheld : (h.setSrc src (some e)).Held :=
    .inr ⟨src, by rw [Heads.setSrc_src, if_pos rfl]; rfl⟩
  rw [Fib6Info.Carried, hl] at hc
  -- the source is counted in a row that traps
  have hcount : ∀ {s₁ : Routes6} {r : Route6}, s₁ key = some r → r.gwIp.isAny = true →
      (∃ row ≥ firstPrefixRow, r.row = some row) → TrapRow h r →
      Stands (h.setSrc src (some e))
        ((addSrc res s₁ x e.length).2 key) := by
    intro s₁ r hs hany hrow hr
    obtain ⟨r', hadd, hgw, hrow', htrap⟩ :=
      addSrc_spec (s := s₁) (r := r) (e := e) hres (by rw [hxk]; exact hs) hr hsrc
    simp only [hadd, hxk, setRoute_self]
    exact htrap.stands hheld (by rw [hgw]; exact hany) (by rw [hrow']; exact hrow)
  rw [fibAddV6, hl, if_neg Bool.false_ne_true, hsrc, if_pos hlen, fibAddV6Src,
    if_neg (by rw [hxk]; simpa [hplen] using hc), hxk]
  -- a row is made where none traps
  have hmake : ∀ {s₁ : Routes6} (h₁ : Heads), Stands h₁ (s₁ key) → h₁.src = h.src →
      ∀ m, m = size h.plain → ∃ s', fibTrapV6 res s₁ x m = (true, s') ∧
        Stands (h.setSrc src (some e)) ((addSrc res s' x e.length).2 key) := by
    intro s₁ h₁ hst₁ hsrc₁ m hm
    obtain ⟨s', r, hr, hkey, hany, hrow, htrap⟩ := fibTrapV6_spec hres hst₁ hxk m
    exact ⟨s', hr, hcount hkey hany hrow (htrap h hsrc₁.symm hm)⟩
  cases hs : s key with
  | none =>
    rw [hs] at hst
    have hplain : h.plain = none := by
      rw [← Option.not_isSome_iff_eq_none]
      exact fun hsome => hst (.inl hsome)
    have hst' : Stands h (s key) := by
      rw [hs]
      exact hst
    obtain ⟨s', hr, hs'⟩ := hmake h hst' rfl 0 (by rw [hplain]; rfl)
    rw [hr]
    exact hs'
  | some r =>
    rw [hs] at hst
    obtain ⟨-, hrow, hmeans⟩ := hst
    simp only
    split
    · rename_i hany
      rw [if_pos hany] at hmeans
      exact hcount hs hany hrow hmeans
    · rename_i hany
      rw [if_neg hany] at hmeans
      obtain ⟨y, hy, -⟩ := hmeans.plain
      have hgone : Stands { h with plain := none } (teardown s key key) := by
        rw [teardown_self]
        exact not_held_plain hmeans.none
      obtain ⟨s', hr, hs'⟩ := hmake { h with plain := none } hgone rfl 1 (by rw [hy]; rfl)
      rw [hr]
      exact hs'

/-- Siblings of the first entry of a source leave, and `rest` stays. -/
theorem fibDelV6_src (hst : Stands h (s key)) (he : h.src src = some e)
    (hok : EntryOk key (some src) e) (hx : x ∈ e) {o : Option (List Fib6Info)}
    (ho : o.elim True (· ≠ [])) (hlen : size o + m = e.length)
    (hplain : ∀ e, h.plain = some e → e ≠ []) :
    Stands (h.setSrc src o) (fibDelV6 s x m key) := by
  have hxk := hok.key x hx
  obtain ⟨hsrc, hslen, hl⟩ : x.src = src ∧ src.plen ≠ 0 ∧ x.isLocal = false := hok.src x hx
  rw [fibDelV6, hl, if_neg Bool.false_ne_true, hsrc, if_pos hslen, fibDelV6Src, hxk, hsrc]
  cases hs : s key with
  | none =>
    rw [hs] at hst
    exact absurd (.inr ⟨src, by rw [he]; rfl⟩) hst
  | some r =>
    rw [hs] at hst
    obtain ⟨-, hrow, hmeans⟩ := hst
    split at hmeans
    · rename_i hany
      have hfind := hmeans.srcs src
      rw [he] at hfind
      obtain ⟨old, hold, hmembers⟩ := Option.map_eq_some_iff.1 hfind
      simp only [hany, hold, Bool.not_true, Bool.false_eq_true, if_false]
      split
      · -- some stay
        rename_i hlt
        rw [setRoute_self]
        have hrest : o = some (o.getD []) := by
          cases o with
          | none =>
            simp only [size, Option.elim] at hlen
            omega
          | some rest => rfl
        refine TrapRow.stands (r := setSrc r src (old.members - m)) ⟨hmeans.action, hmeans.members,
          hmeans.complete, setSrc_nodup hmeans.nodup _ _, fun src' => ?_⟩ (.inr ⟨src, ?_⟩) hany hrow
        · rw [find_setSrc, Heads.setSrc_src]
          split
          · rename_i heq
            have hsize : old.members - m = (o.getD []).length := by
              rw [hmembers, ← hlen, Nat.add_sub_cancel, hrest]
              rfl
            rw [heq, hold, hrest, hsize]
            rfl
          · exact hmeans.srcs src'
        · rw [Heads.setSrc_src, if_pos rfl, hrest]
          rfl
      · rename_i hge
        have hzero : size o = 0 := by omega
        have hnone : o = none := by
          cases o with
          | none => rfl
          | some rest => exact absurd (List.length_eq_zero_iff.1 hzero) ho
        subst hnone
        have hkeep : TrapRow (h.setSrc src none) { r with srcs := r.srcs.erase old } := by
          refine ⟨hmeans.action, hmeans.members, hmeans.complete, ?_, fun src' => ?_⟩
          · exact hmeans.nodup.sublist (List.erase_sublist.map _)
          · rw [routeSrcFind, find_erase hmeans.nodup hold, Heads.setSrc_src]
            split
            · rfl
            · exact hmeans.srcs src'
        split
        · -- the last one of all
          rename_i hlast
          simp only [Bool.and_eq_true, Bool.not_eq_true', beq_iff_eq] at hlast
          rw [teardown_self]
          rintro (hp | hsome)
          · have hmem := hmeans.members
            cases hh : h.plain with
            | none =>
              simp only [Heads.setSrc, hh] at hp
              cases hp
            | some e' =>
              rw [hlast.2, hh] at hmem
              exact hplain e' hh (List.length_eq_zero_iff.1 hmem.symm)
          · rw [(hasSrcs_iff hkeep).2 hsome] at hlast
            cases hlast.1
        · rename_i hlast
          rw [setRoute_self]
          refine hkeep.stands ?_ hany hrow
          by_cases hhas : routeHasSrcs { r with srcs := r.srcs.erase old } = true
          · exact .inr ((hasSrcs_iff hkeep).1 hhas)
          · refine .inl ?_
            have hne : r.members ≠ 0 := by
              intro hz
              rw [Bool.not_eq_true] at hhas
              exact hlast (by rw [hhas]; simpa using hz)
            rw [hmeans.members] at hne
            cases hh : h.plain with
            | none =>
              rw [hh] at hne
              exact absurd rfl hne
            | some e' =>
              simp only [Heads.setSrc, hh]
              rfl
    · rw [hmeans.none src] at he
      cases he

end Rows

/-! ## Runs -/

/-- The routes that an operation brings are ones that the driver keeps a row for. -/
def NodeOp.Carried : NodeOp → Prop
  | .insert _ e _ => ∀ x ∈ e, x.Carried
  | .replace _ e _ => ∀ x ∈ e, x.Carried
  | .append _ xs _ => ∀ x ∈ xs, x.Carried
  | .delete .. => True

/-- A step that the rows follow: its routes are carried, and no local route is deleted while the
row stands for sources too. -/
def Fib6Act.Taken (k : Kernel6) : Fib6Act → Prop
  | .fib node op _ =>
    op.Carried ∧ (node = none → ∀ x m, op.event k.plain = some (.del x m) → x.isLocal = true →
      ∀ src, k.src src = [])
  | .neigh _ => True

/-- The entries of a node, and that the driver keeps a row for them. -/
def NodeOk (key : RouteKey) (node : Option Rt6Key) (n : Node6) : Prop :=
  ∀ e ∈ n, EntryOk key node e ∧ ∀ x ∈ e, x.Carried

theorem EntryOk.sublist {e rest : List Fib6Info} (h : EntryOk key node e) (hsub : rest.Sublist e)
    (hne : rest ≠ []) : EntryOk key node rest :=
  ⟨hne, fun x hx => h.key x (hsub.subset hx), fun x hx => h.src x (hsub.subset hx),
    fun x hx => h.gw x (hsub.subset hx),
    fun hlt x hx => h.sibling (lt_of_lt_of_le hlt hsub.length_le) x (hsub.subset hx)⟩

/-- What the kernel does to a node leaves it one that the driver keeps a row for. -/
theorem NodeOp.apply_ok (hn : NodeOk key node n) (hv : op.Valid key node n) (hc : op.Carried) :
    NodeOk key node (op.apply n) := by
  intro e' he'
  cases op with
  | insert i e x =>
    obtain rfl | he' := (List.mem_insertIdx hv.1).1 he'
    · exact ⟨hv.2.1, hc⟩
    · exact hn e' he'
  | replace i e x =>
    obtain he' | rfl := List.mem_or_eq_of_mem_set he'
    · exact hn e' he'
    · exact ⟨hv.2.1, hc⟩
  | append i xs x =>
    obtain ⟨-, e, he, hok, -⟩ := hv
    simp only [NodeOp.apply] at he'
    rw [List.modify_eq_set, he, Option.getD_some] at he'
    obtain he' | rfl := List.mem_or_eq_of_mem_set he'
    · exact hn e' he'
    · refine ⟨hok, fun y hy => ?_⟩
      obtain hy | hy := List.mem_append.1 hy
      · exact (hn e (List.mem_of_getElem? he)).2 y hy
      · exact hc y hy
  | delete i rest x =>
    obtain ⟨e, he, hsub, -, -⟩ := hv
    simp only [NodeOp.apply] at he'
    split at he'
    · exact hn e' (List.mem_of_mem_eraseIdx he')
    · rename_i hrest
      obtain he' | rfl := List.mem_or_eq_of_mem_set he'
      · exact hn e' he'
      · obtain ⟨hok, hcarried⟩ := hn e (List.mem_of_getElem? he)
        exact ⟨hok.sublist hsub hrest, fun y hy => hcarried y (hsub.subset hy)⟩

/-- The nodes hold what the driver keeps a row for, and the row stands for their first entries. -/
structure Fib6Inv (key : RouteKey) (st : Kernel6 × Routes6) : Prop where
  nodes : ∀ node, NodeOk key node (st.1.node node)
  row : Stands st.1.heads (st.2 key)

variable {k : Kernel6} {s : Routes6} {res : Res}

theorem NodeOk.head (h : NodeOk key node n) {e : List Fib6Info} (he : n.head? = some e) :
    EntryOk key node e ∧ ∀ x ∈ e, x.Carried :=
  h e (List.mem_of_mem_head? he)

theorem heads_setSrc (k : Kernel6) (n : Node6) (src : Rt6Key) :
    (k.setNode n (some src)).heads = k.heads.setSrc src n.head? := by
  simp only [Kernel6.setNode, Kernel6.heads, Heads.setSrc, Heads.mk.injEq, true_and]
  funext src'
  simp only [Function.update_apply]
  split <;> rfl

/-- The event about the node without a source. -/
theorem Fib6Inv.row_plain (hi : Fib6Inv key (k, s)) (hplen : key.dst.plen ≠ 0)
    (hres : res.Available) (hv : op.Valid key none k.plain)
    (ht : Fib6Act.Taken k (.fib none op res)) :
    Stands { k.heads with plain := (op.apply k.plain).head? }
      ((match op.event k.plain with
        | some ev => fib6EventWork res s ev
        | none => s) key) := by
  have hn : NodeOk key none k.plain := hi.nodes none
  have hstep := NodeOp.headStep (fun e he => (hn e he).1.ne) hv
  have hnew := NodeOp.apply_ok hn hv ht.1
  have hlocal := ht.2 rfl
  have hst : Stands k.heads (s key) := hi.row
  generalize op.event k.plain = ev at hstep hlocal ⊢
  generalize hn' : (op.apply k.plain).head? = o at hstep ⊢
  cases hstep with
  | same => exact hst
  | add e x hx =>
    obtain ⟨hok, hc⟩ := hnew.head hn'
    exact fibAddV6_plain hres hst hok hx (hc x hx) hplen
  | less e rest x m he hx hrest hm hlen =>
    exact fibDelV6_plain (o := some rest) hst he (hn.head he).1 hx hrest hm hlen
      fun hl src => by simp [Kernel6.heads, hlocal x m rfl hl src]
  | gone e x he hx =>
    have hok := (hn.head he).1
    exact fibDelV6_plain (o := none) hst he hok hx trivial (List.length_pos_of_ne_nil hok.ne)
      (Nat.zero_add _) fun hl src => by simp [Kernel6.heads, hlocal x _ rfl hl src]

/-- The event about the node of a source. -/
theorem Fib6Inv.row_src (hi : Fib6Inv key (k, s)) (hplen : key.dst.plen ≠ 0)
    (hres : res.Available) {src : Rt6Key} (hv : op.Valid key (some src) (k.src src))
    (hc : op.Carried) :
    Stands (k.heads.setSrc src (op.apply (k.src src)).head?)
      ((match op.event (k.src src) with
        | some ev => fib6EventWork res s ev
        | none => s) key) := by
  have hn : NodeOk key (some src) (k.src src) := hi.nodes (some src)
  have hstep := NodeOp.headStep (fun e he => (hn e he).1.ne) hv
  have hnew := NodeOp.apply_ok hn hv hc
  have hst : Stands k.heads (s key) := hi.row
  have hplain : ∀ e, k.heads.plain = some e → e ≠ [] := fun e he =>
    ((hi.nodes none).head (n := k.plain) he).1.ne
  generalize op.event (k.src src) = ev at hstep ⊢
  generalize hn' : (op.apply (k.src src)).head? = o at hstep ⊢
  cases hstep with
  | same =>
    have hself : k.heads.setSrc src (k.src src).head? = k.heads := by
      simp only [Heads.setSrc, Kernel6.heads, Heads.mk.injEq, true_and]
      exact Function.update_eq_self src fun src => (k.src src).head?
    rw [hself]
    exact hst
  | add e x hx =>
    obtain ⟨hok, hc⟩ := hnew.head hn'
    exact fibAddV6_src hres hst hok hx (hc x hx) hplen
  | less e rest x m he hx hrest hm hlen =>
    exact fibDelV6_src (o := some rest) hst he (hn.head he).1 hx hrest hlen hplain
  | gone e x he hx =>
    exact fibDelV6_src (o := none) hst he (hn.head he).1 hx trivial (Nat.zero_add _) hplain

/-- A gateway that answers or is lost changes the action of its row alone. -/
theorem gatewayUpdate_stands {h : Heads} (hst : Stands h (s key)) (answered : Bool) :
    Stands h (gatewayUpdate s key answered key) := by
  rw [gatewayUpdate]
  cases hs : s key with
  | none =>
    simp only
    rw [hs]
    rwa [hs] at hst
  | some r =>
    simp only
    split
    · rwa [hs] at hst ⊢
    · rename_i hany
      rw [hs] at hst
      obtain ⟨hheld, hrow, hmeans⟩ := hst
      rw [if_neg hany] at hmeans
      rw [setRoute_self]
      refine ⟨hheld, hrow, ?_⟩
      rw [if_neg hany]
      exact ⟨hmeans.srcs, hmeans.complete, hmeans.none, hmeans.plain⟩

theorem Fib6Inv.run {st : Kernel6 × Routes6} (hi : Fib6Inv key st) (hplen : key.dst.plen ≠ 0)
    {a : Fib6Act} (he : a.Enabled key st.1) (ht : a.Taken st.1) : Fib6Inv key (a.run key st) := by
  obtain ⟨k, s⟩ := st
  cases a with
  | neigh answered => exact ⟨hi.nodes, gatewayUpdate_stands hi.row answered⟩
  | fib node op res =>
    obtain ⟨hv, hres⟩ := he
    have hnew := NodeOp.apply_ok (hi.nodes node) hv ht.1
    cases node with
    | none =>
      refine ⟨fun node => ?_, hi.row_plain hplen hres hv ht⟩
      cases node with
      | none => exact hnew
      | some src => exact hi.nodes (some src)
    | some src =>
      refine ⟨fun node => ?_, ?_⟩
      · cases node with
        | none => exact hi.nodes none
        | some src' =>
          simp only [Fib6Act.run, Kernel6.node, Kernel6.setNode, Function.update_apply]
          split
          · rename_i heq
            rw [heq]
            exact hnew
          · exact hi.nodes (some src')
      · simp only [Fib6Act.run]
        rw [heads_setSrc]
        exact hi.row_src hplen hres hv ht.1

theorem Fib6Reach.inv {st : Kernel6 × Routes6} (h : Fib6Reach key Fib6Act.Taken st)
    (hplen : key.dst.plen ≠ 0) : Fib6Inv key st := by
  induction h with
  | start s hs =>
    refine ⟨fun node e he => ?_, ?_⟩
    · cases node <;> cases he
    · simp only [hs]
      rintro (h | ⟨src, h⟩) <;> cases h
  | step a _ he hp ih => exact ih.run hplen he hp

/-- The kernel holds a route exactly while one is announced. -/
theorem Fib6Inv.held_iff {st : Kernel6 × Routes6} (hi : Fib6Inv key st) :
    (st.2 key).isSome = true ↔ st.1.Held := by
  have hsome : ∀ n : Node6, n.head?.isSome = true ↔ n ≠ [] := by
    intro n
    cases n <;> simp
  have hheld : st.1.heads.Held ↔ st.1.Held := by
    simp only [Heads.Held, Kernel6.heads, Kernel6.Held, hsome]
  have hst := hi.row
  rw [← hheld]
  cases hs : st.2 key with
  | none =>
    rw [hs] at hst
    exact ⟨nofun, fun h => absurd h hst⟩
  | some r =>
    rw [hs] at hst
    exact ⟨fun _ => hst.1, fun _ => rfl⟩

/-- A source, or the siblings of a multipath route, make the row trap. -/
theorem Fib6Inv.traps {st : Kernel6 × Routes6} (hi : Fib6Inv key st) {r : Route6}
    (hs : st.2 key = some r)
    (hmany : (∃ src, st.1.src src ≠ []) ∨ ∃ e es, st.1.plain = e :: es ∧ 1 < e.length) :
    r.action = ROUTE_ACT_TRAP2CPU := by
  have hst := hi.row
  rw [hs] at hst
  obtain ⟨-, -, hmeans⟩ := hst
  split at hmeans
  · exact hmeans.action
  · -- a row for a gateway is for one route
    obtain ⟨src, hsrc⟩ | ⟨e, es, hplain, hlt⟩ := hmany
    · exact absurd (List.head?_eq_none_iff.1 (hmeans.none src)) hsrc
    · obtain ⟨x, hx, -⟩ := hmeans.plain
      rw [Kernel6.heads, hplain] at hx
      obtain rfl : e = [x] := Option.some.inj hx
      exact absurd hlt (lt_irrefl 1)

/-- While the kernel holds a route for a destination, the driver has a prefix row for it, and the
row traps while there is a route with a source or a multipath route is announced. -/
theorem trapRow_lives (key : RouteKey) (hplen : key.dst.plen ≠ 0) (st : Kernel6 × Routes6)
    (h : Fib6Reach key Fib6Act.Taken st) :
    ((st.2 key).isSome = true ↔ st.1.Held) ∧
      ∀ r, st.2 key = some r → (∃ row ≥ firstPrefixRow, r.row = some row) ∧
        ((∃ src, st.1.src src ≠ []) ∨ (∃ e es, st.1.plain = e :: es ∧ 1 < e.length) →
          r.action = ROUTE_ACT_TRAP2CPU) := by
  have hi := h.inv hplen
  refine ⟨hi.held_iff, fun r hs => ⟨?_, hi.traps hs⟩⟩
  have hst := hi.row
  rw [hs] at hst
  exact hst.2.1

/-! ### Runs of one destination -/

/-- Nothing is held, and there is no row. -/
def fib6Start : Kernel6 × Routes6 := (⟨[], fun _ => []⟩, fun _ => none)

/-- 2001:db8::/32 -/
def docKey : RouteKey := ⟨254, ⟨⟨0x20010db8, 0, 0, 0⟩, 32⟩⟩

/-- From 2001:db8:1::/48. -/
def docSrc : Rt6Key := ⟨⟨0x20010db8, 0x10000, 0, 0⟩, 48⟩

/-- Through fe80::1. -/
def docRoute : Fib6Info :=
  { key := docKey, src := ⟨in6addrAny, 0⟩, gwFamily6 := true, gw6 := ⟨0xfe800000, 0, 0, 1⟩,
    port := true }

theorem EntryOk.single {x : Fib6Info} (hk : x.key = key)
    (hs : node.elim (x.src.plen = 0)
      fun src => x.src = src ∧ src.plen ≠ 0 ∧ x.isLocal = false)
    (hg : x.gwFamily6 = true → x.gw6.isAny = false) : EntryOk key node [x] := by
  refine ⟨List.cons_ne_nil _ _, ?_, ?_, ?_, fun h => absurd h (lt_irrefl 1)⟩ <;>
  · intro y hy
    obtain rfl := List.mem_singleton.1 hy
    assumption

/-- The first route of a node is inserted. -/
theorem insert_valid {x : Fib6Info} (h : EntryOk key node [x]) (n : Node6) :
    NodeOp.Valid key node n (.insert 0 [x] x) :=
  ⟨Nat.zero_le _, h, List.mem_singleton_self x⟩

theorem available_default : ({} : Res).Available := ⟨rfl, rfl, rfl, firstPrefixRow, le_rfl, rfl⟩

def docAdd : Fib6Act := .fib none (.insert 0 [docRoute] docRoute) {}

def docAddSrc : Fib6Act :=
  .fib (some docSrc) (.insert 0 [{ docRoute with src := docSrc }] { docRoute with src := docSrc }) {}

def docDel : Fib6Act := .fib none (.delete 0 [] docRoute) {}

/-- The route comes, then one for a source, and the first goes again. -/
def docRun : Kernel6 × Routes6 :=
  docDel.run docKey (docAddSrc.run docKey (docAdd.run docKey fib6Start))

/-- The row that forwarded for the route is left for the source, and traps. -/
theorem docSource_traps : ∃ r, docRun.2 docKey = some r ∧ r.action = ROUTE_ACT_TRAP2CPU := by
  have hres := available_default
  have hplain : EntryOk docKey none [docRoute] :=
    EntryOk.single (x := docRoute) rfl rfl fun _ => by decide
  have hsrc : EntryOk docKey (some docSrc) [{ docRoute with src := docSrc }] :=
    EntryOk.single (x := { docRoute with src := docSrc }) rfl ⟨rfl, by decide, rfl⟩
      fun _ => by decide
  have hcarried : ∀ src : Rt6Key, ∀ x ∈ [{ docRoute with src := src }], x.Carried := by
    intro src x hx
    obtain rfl := List.mem_singleton.1 hx
    exact (by decide : Fib6Type.unicast ≠ .multicast)
  have hstart : Fib6Reach docKey Fib6Act.Taken fib6Start := .start _ rfl
  have hadd := hstart.step docAdd ⟨insert_valid hplain _, hres⟩
    ⟨hcarried _, fun _ x m hev => by cases hev⟩
  have haddSrc := hadd.step docAddSrc ⟨insert_valid hsrc _, hres⟩ ⟨hcarried _, nofun⟩
  have hreach : Fib6Reach docKey Fib6Act.Taken docRun := by
    refine haddSrc.step docDel ⟨⟨[docRoute], rfl, List.nil_sublist _, Nat.zero_lt_one,
      List.mem_singleton_self _⟩, hres⟩ ⟨trivial, fun _ x m hev hl => ?_⟩
    cases hev
    cases hl
  obtain ⟨hheld, hrow⟩ := trapRow_lives docKey (by decide) docRun hreach
  have hsrcs : docRun.1.src docSrc ≠ [] := by decide +kernel
  obtain ⟨r, hr⟩ := Option.isSome_iff_exists.1 (hheld.2 (.inr ⟨docSrc, hsrcs⟩))
  exact ⟨r, hr, (hrow r hr).2 (.inl ⟨docSrc, hsrcs⟩)⟩

/-- The kernel holds a route for the destination, and the driver has no row for it. -/
def Rowless (key : RouteKey) (st : Kernel6 × Routes6) : Prop :=
  key.dst.plen ≠ 0 ∧ Fib6Reach key (fun _ _ => True) st ∧ st.1.Held ∧ st.2 key = none

/-- The one route there is. -/
def loneRoute (x : Fib6Info) : Kernel6 × Routes6 :=
  Fib6Act.run x.key fib6Start (.fib none (.insert 0 [x] x) {})

/-- ::1, in the local table -/
def loopbackRoute : Fib6Info :=
  { key := ⟨255, ⟨⟨0, 0, 0, 1⟩, 128⟩⟩, src := ⟨in6addrAny, 0⟩, type := .loc, gw6 := in6addrAny }

/-- ff00::/8, in the local table -/
def multicastRoute : Fib6Info :=
  { key := ⟨255, ⟨⟨0xff000000, 0, 0, 0⟩, 8⟩⟩, src := ⟨in6addrAny, 0⟩, type := .multicast,
    gw6 := in6addrAny }

/-- No row is kept for the loopback address, for a local route with a next hop object, or for a
multicast route. -/
theorem loneRoute_rowless :
    Rowless loopbackRoute.key (loneRoute loopbackRoute) ∧
      Rowless docKey (loneRoute { docRoute with type := .loc, nh := true }) ∧
      Rowless multicastRoute.key (loneRoute multicastRoute) := by
  have hrowless : ∀ x : Fib6Info, x.key.dst.plen ≠ 0 → x.src.plen = 0 →
      (x.gwFamily6 = true → x.gw6.isAny = false) → (loneRoute x).2 x.key = none →
      Rowless x.key (loneRoute x) := by
    intro x hplen hs hg hnone
    have hok : EntryOk x.key none [x] := EntryOk.single (x := x) rfl hs hg
    have hstart : Fib6Reach x.key (fun _ _ => True) fib6Start := .start _ rfl
    exact ⟨hplen, hstart.step _ ⟨insert_valid hok _, available_default⟩ trivial,
      .inl (List.cons_ne_nil [x] []), hnone⟩
  refine ⟨hrowless loopbackRoute (by decide) rfl nofun ?_,
    hrowless { docRoute with type := .loc, nh := true } (by decide) rfl (fun _ => by decide) ?_,
    hrowless multicastRoute (by decide) rfl nofun ?_⟩ <;> decide +kernel

end Lede.Otto
