/-
Lede.Otto.NexthopTheorems — the references that routes hold on rows of the L2 table.

The routes mark the rows of their gateways as next hops and count themselves in `ucMap`. The
bridge writes and deletes static rows meanwhile, and the switch learns addresses and drops rows
on its own. `L2Act` has a step for each of them.

`NexthopInv` is what every step keeps as long as the switch spares the rows that installed next
hops hold, and `nexthop_rows_counted` says what follows for whole runs. `relearned` is a run in
which the switch does not spare one: the count of the dropped row is left, and the next
address that is learned there and becomes a next hop is counted on top of it.
-/
import Lede.Lib.RefCount
import Lede.Otto.L2TableTheorems

namespace Lede.Otto

open Lede.Lib.BitField Lede.Lib.RefCount

/-! ## Routes, bridge and switch -/

/-- `MAX_ROUTES` prefix routes and `MAX_HOST_ROUTES` host routes have one next hop each. -/
def maxNexthops : Nat := 512 + 1536

/-- The table and the next hops of the routes. -/
structure NexthopState where
  l2 : L2State
  nh : Nat → Nexthop

/-- What the routes, the bridge and the switch itself do to the table. -/
inductive L2Act where
  /-- `otto_l3_route_update_hw` gives the next hop of a route its gateway. -/
  | nexthopAdd (i : Nat) (mac : BitVec 64) (rvid dmacId : BitVec 16)
  /-- `otto_l3_route_teardown` gives up the next hop of a route. -/
  | nexthopDel (i : Nat)
  | fdbAdd (lag : LagPort) (port : BitVec 8) (addr : Mac) (vid : BitVec 16) (e : L2Entry)
  | fdbDel (lag : LagPort) (addr : Mac) (vid : BitVec 16) (e : L2Entry)
  /-- The switch learns an address: it writes the words `r` into a row. -/
  | learn (idx : Nat) (r : L2Row)
  /-- A row ages out and has the words `r` then. -/
  | age (idx : Nat) (r : L2Row)
  /-- The addresses of a port are flushed; `left` are the words of the rows that go. -/
  | flush (port : BitVec 8) (left : Nat → Option L2Row)

/-- The call of `otto_l2_nexthop_add` by a route that sets its next hop up. -/
def routeAdd (f : Family) (ctrl : BitVec 32) (st : NexthopState) (i : Nat) (mac : BitVec 64)
    (rvid dmacId : BitVec 16) : NexthopState :=
  let nh := { st.nh i with mac := mac, rvid := rvid, port := f.portIgnore, dmacId := dmacId }
  let r := nexthopAdd f ctrl st.l2 nh
  { l2 := r.2.1
    nh := Function.update st.nh i
      (if r.1 = 0 then { r.2.2 with l2Installed := true } else r.2.2) }

/-- The call of `otto_l2_nexthop_del` by a route that goes, with its next hop. -/
def routeDel (f : Family) (ctrl : BitVec 32) (st : NexthopState) (i : Nat) : NexthopState :=
  { l2 := if (st.nh i).l2Installed then (nexthopDel f ctrl st.l2 (st.nh i)).2 else st.l2
    nh := Function.update st.nh i {} }

/-- One step. -/
def L2Act.run (f : Family) (ctrl : BitVec 32) (st : NexthopState) : L2Act → NexthopState
  | .nexthopAdd i mac rvid dmacId => routeAdd f ctrl st i mac rvid dmacId
  | .nexthopDel i => routeDel f ctrl st i
  | .fdbAdd lag port addr vid e =>
    { st with l2 := (Otto.fdbAdd f ctrl st.l2 lag port addr vid e).2 }
  | .fdbDel lag addr vid e => { st with l2 := (Otto.fdbDel f ctrl st.l2 lag addr vid e).2 }
  | .learn idx r => { st with l2.rows := Function.update st.l2.rows idx r }
  | .age idx r => { st with l2.rows := Function.update st.l2.rows idx r }
  | .flush _ left => { st with l2.rows := fun idx => (left idx).getD (st.l2.rows idx) }

/-- What the callers and the switch see to: there are no routes on the RTL931x and no more next
hops than routes, the bridge adds unicast addresses of its VLANs on ports of the switch, the
switch learns an address that its bucket does not hold into a free row of it, and the rows
that it drops are free then. -/
def L2Act.Enabled (f : Family) (ctrl : BitVec 32) (st : NexthopState) : L2Act → Prop
  | .nexthopAdd i _ _ _ => f ≠ .rtl931x ∧ i < maxNexthops
  | .nexthopDel _ => True
  | .fdbAdd _ port addr vid _ =>
    port.toNat < 2 ^ f.portBits ∧ addr.isMulticast = false ∧ vid.toNat < 4096
  | .fdbDel _ _ _ _ => True
  | .learn idx r =>
    rowInfo f (st.l2.rows idx) = none ∧ UcRow f r ∧
      ∃ seed, rowInfo f r = some ⟨seed, false, false⟩ ∧ idx ∈ bucket f ctrl seed ∧
        ∀ k ∈ bucket f ctrl seed, rowSeed f (st.l2.rows k) ≠ some seed
  | .age _ r => rowInfo f r = none
  | .flush port left => ∀ idx r, left idx = some r →
    rowInfo f r = none ∧ (fillEntry f (st.l2.rows idx) .zero).port = port

/-- The next hop is installed, and its row still holds its address. -/
def Holds (f : Family) (st : NexthopState) (idx i : Nat) : Prop :=
  (st.nh i).l2Installed = true ∧ (st.nh i).l2Id = idx ∧
    rowSeed f (st.l2.rows idx) = some (st.nh i).l2Seed

instance (f : Family) (st : NexthopState) (idx i : Nat) : Decidable (Holds f st idx i) :=
  inferInstanceAs (Decidable (_ ∧ _ ∧ _))

/-- The number of installed next hops whose row this is and whose address it holds. -/
def holders (f : Family) (st : NexthopState) (idx : Nat) : Nat :=
  ((Finset.range maxNexthops).filter (Holds f st idx)).card

/-- The count of every row is the number of next hops that hold it. -/
def Counted (f : Family) (st : NexthopState) : Prop :=
  ∀ idx < f.fibEntries, (st.l2.ucMap idx).l3Refcount = holders f st idx

/-- The switch does not drop a row that an installed next hop holds. -/
def L2Act.Spares (f : Family) (st : NexthopState) : L2Act → Prop
  | .age idx _ => ∀ i < maxNexthops, ¬ Holds f st idx i
  | .flush _ left => ∀ idx, (left idx).isSome → ∀ i < maxNexthops, ¬ Holds f st idx i
  | .nexthopAdd _ _ _ _ => True
  | .nexthopDel _ => True
  | .fdbAdd _ _ _ _ _ => True
  | .fdbDel _ _ _ _ => True
  | .learn _ _ => True

/-- The states that are reached while the switch spares the rows of installed next hops; at first
the table is empty and no route has a next hop. -/
inductive Reach (f : Family) (ctrl : BitVec 32) : NexthopState → Prop where
  | start (l2 : L2State) (hr : ∀ idx, rowInfo f (l2.rows idx) = none)
      (hu : ∀ idx, l2.ucMap idx = {}) : Reach f ctrl ⟨l2, fun _ => {}⟩
  | step {st : NexthopState} (a : L2Act) (h : Reach f ctrl st) (he : a.Enabled f ctrl st)
      (hs : a.Spares f st) : Reach f ctrl (a.run f ctrl st)


/-! ## Tables of unicast rows -/

variable {f : Family} {ctrl : BitVec 32} {s : L2State} {idx : Nat} {info : RowInfo} {e : L2Entry}

/-- The entry was read from the row, whatever it was read into. -/
def ReadFrom (f : Family) (r : L2Row) (e : L2Entry) : Prop := ∃ e₀, e = fillEntry f r e₀

/-- What is read from a valid row of the table. -/
theorem Table.read {rows : Nat → L2Row} (h : Table f ctrl (UcRow f) rows)
    (hi : rowInfo f (rows idx) = some info) (he : ReadFrom f (rows idx) e) :
    e.Fits f ∧ e.type = .unicast ∧ e.seed f = info.seed ∧ e.nextHop = info.nextHop ∧
      e.isStatic = info.isStatic := by
  obtain ⟨e₀, rfl⟩ := he
  have hr := (h.kind idx (by simp [hi])).read e₀
  have hv : (fillEntry f (rows idx) .zero).valid = true := by
    rw [← fillEntry_valid f _ e₀]
    exact hr.valid
  rw [rowInfo, if_pos hv, Option.some_inj] at hi
  subst hi
  exact ⟨hr.toFits, hr.unicast, hr.seed, hr.nextHop, hr.isStatic⟩

/-- A row is written with an entry of the same seed: the row is free or holds what the entry
says. -/
theorem Table.rewrite {rows : Nat → L2Row} (h : Table f ctrl (UcRow f) rows)
    (hi : rowInfo f (rows idx) = some info) (he : e.Fits f) (hu : e.type = .unicast)
    (hs : e.seed f = info.seed) :
    Table f ctrl (UcRow f) (Function.update rows idx (fillRow f (setHashMsb f ctrl idx e))) := by
  refine h.update idx ?_
  rcases rowInfo_written ctrl idx he hu with ⟨hn, -⟩ | ⟨hw, hr, -⟩
  · exact .inl hn
  · refine .inr ⟨hr, info.seed, by simp [rowSeed, hw, hs], h.home (rowSeed_of_info hi), ?_⟩
    exact fun k hk => h.only hi hk

/-! ## One reference goes -/

/-- The address of a row that is a next hop. -/
def nhSeed (f : Family) (r : L2Row) : Option (BitVec 64) :=
  (rowInfo f r).bind fun info => if info.nextHop then some info.seed else none

theorem nhSeed_none {r : L2Row} (h : rowInfo f r = none) : nhSeed f r = none := by
  simp [nhSeed, h]

theorem nhSeed_info {r : L2Row} (h : rowInfo f r = some info) :
    nhSeed f r = if info.nextHop then some info.seed else none := by
  simp [nhSeed, h]

theorem info_of_nhSeed {r : L2Row} {seed : BitVec 64} (h : nhSeed f r = some seed) :
    ∃ info, rowInfo f r = some info ∧ info.seed = seed ∧ info.nextHop = true := by
  cases hi : rowInfo f r with
  | none => simp [nhSeed, hi] at h
  | some info =>
    rw [nhSeed_info hi] at h
    split_ifs at h with hn
    exact ⟨info, rfl, by simpa using h, hn⟩

theorem rowSeed_of_nhSeed {r : L2Row} {seed : BitVec 64} (h : nhSeed f r = some seed) :
    rowSeed f r = some seed := by
  obtain ⟨info, hi, rfl, -⟩ := info_of_nhSeed h
  exact rowSeed_of_info hi

/-- What giving up one of `c + 1` references to a row does: the row is only touched with the
last one; it is no next hop then, and free if only next hops kept it. -/
structure Dropped (f : Family) (ctrl : BitVec 32) (s s' : L2State) (idx : Nat) (info : RowInfo)
    (c : Nat) : Prop where
  table : Table f ctrl (UcRow f) s'.rows
  ucMap : s'.ucMap = Function.update s.ucMap idx { s.ucMap idx with l3Refcount := c }
  others : ∀ k ≠ idx, s'.rows k = s.rows k
  shared : c ≠ 0 → s'.rows = s.rows
  last : c = 0 → nhSeed f (s'.rows idx) = none
  freed : c = 0 → info.isStatic = true → (s.ucMap idx).fdbRef = false →
    rowInfo f (s'.rows idx) = none

theorem releaseRow_fits {fdbRef : Bool} (h : e.Fits f) (hu : e.type = .unicast)
    (hk : (e.isStatic && !fdbRef) = false) : (releaseRow fdbRef e).Fits f := by
  have hv : (releaseRow fdbRef e).valid = true := by simp [releaseRow, h.valid, hk]
  have hkind : (releaseRow fdbRef e).OfKind f := by
    have := h.kind
    simp only [L2Entry.OfKind, releaseRow, hu] at this ⊢
    exact this
  exact { h with valid := hv, kind := hkind, vid := h.rvid }

/-- `otto_l2_uc_put` and then `otto_l2_uc_release_row`. -/
theorem dropRef_dropped {c : Nat} (h : Table f ctrl (UcRow f) s.rows)
    (hi : rowInfo f (s.rows idx) = some info) (he : ReadFrom f (s.rows idx) e)
    (hidx : idx < f.fibEntries) (hc : (s.ucMap idx).l3Refcount = c + 1)
    (hmax : c + 1 < refcountMax) : Dropped f ctrl s (dropRef f ctrl s idx e) idx info c := by
  obtain ⟨hfits, hu, hseed, hnh, hst⟩ := h.read hi he
  have hput : ucPut f s idx = { s with
      ucMap := Function.update s.ucMap idx { s.ucMap idx with l3Refcount := c } } := by
    simp [ucPut, setUc, hidx, hc, hmax.ne]
  have hrel : dropRef f ctrl s idx e =
      if c ≠ 0 then ucPut f s idx
      else writeRow f ctrl (ucPut f s idx) idx (releaseRow (s.ucMap idx).fdbRef e) := by
    rw [dropRef, ucReleaseRow, hput]
    simp [ucLookup, hidx]
  by_cases hz : c = 0
  · rw [hrel, if_neg (by simpa using hz), hput]
    have htab : Table f ctrl (UcRow f) (Function.update s.rows idx
        (fillRow f (setHashMsb f ctrl idx (releaseRow (s.ucMap idx).fdbRef e)))) ∧
        nhSeed f
          (fillRow f (setHashMsb f ctrl idx (releaseRow (s.ucMap idx).fdbRef e))) = none := by
      by_cases hk : (e.isStatic && !(s.ucMap idx).fdbRef) = true
      · have hfree : rowInfo f (fillRow f
            (setHashMsb f ctrl idx (releaseRow (s.ucMap idx).fdbRef e))) = none := by
          refine rowInfo_fillRow_invalid ?_
          simp only [setHashMsb_valid, releaseRow, hk]
          simp
        exact ⟨h.update idx (.inl hfree), nhSeed_none hfree⟩
      · have hk : (e.isStatic && !(s.ucMap idx).fdbRef) = false := by simpa using hk
        have hf2 := releaseRow_fits hfits hu hk
        refine ⟨h.rewrite hi hf2 hu hseed, ?_⟩
        rcases rowInfo_written ctrl idx hf2 hu with ⟨hn, -⟩ | ⟨hw, -, -⟩
        · exact nhSeed_none hn
        · rw [nhSeed_info hw]
          simp [releaseRow]
    exact {
      table := htab.1
      ucMap := rfl
      others := fun k hk => Function.update_of_ne hk _ _
      shared := fun hne => absurd hz hne
      last := fun _ => by
        simp only [writeRow, Function.update_self]
        exact htab.2
      freed := fun _ his hfd => by
        simp only [writeRow, Function.update_self]
        refine rowInfo_fillRow_invalid ?_
        simp [releaseRow, hst, his, hfd] }
  · rw [hrel, if_pos hz, hput]
    exact {
      table := h
      ucMap := rfl
      others := fun k hk => rfl
      shared := fun _ => rfl
      last := fun hne => absurd hne hz
      freed := fun hne => absurd hne hz }

/-! ## The invariant -/

/-- The row that an installed next hop names. -/
def owner (nh : Nexthop) : Option Nat := if nh.l2Installed then some nh.l2Id else none

/-- The number of next hops that name a row. -/
def named (nh : Nat → Nexthop) (idx : Nat) : Nat :=
  refs (Finset.range maxNexthops) (owner ∘ nh) idx

/-- While the switch spares the rows of installed next hops: each of these names a row that is
a next hop and holds its address, the count of a row is the number of those that name it, and
a row that nobody names is no next hop. -/
structure NexthopInv (f : Family) (ctrl : BitVec 32) (st : NexthopState) : Prop where
  table : Table f ctrl (UcRow f) st.l2.rows
  routes : ∀ {i idx}, owner (st.nh i) = some idx → i < maxNexthops ∧ f ≠ .rtl931x
  installed : ∀ {i idx}, owner (st.nh i) = some idx →
    nhSeed f (st.l2.rows idx) = some (st.nh i).l2Seed
  counted : ∀ idx, (st.l2.ucMap idx).l3Refcount = named st.nh idx
  nextHop : ∀ idx, nhSeed f (st.l2.rows idx) ≠ none → named st.nh idx ≠ 0

variable {st : NexthopState} {i : Nat}

theorem owner_eq {nh : Nexthop} : owner nh = some idx ↔ nh.l2Installed = true ∧ nh.l2Id = idx := by
  simp [owner]

theorem named_update (hi : i < maxNexthops) (nh : Nat → Nexthop) (n : Nexthop) (idx : Nat) :
    named (Function.update nh i n) idx + (if owner (nh i) = some idx then 1 else 0) =
      named nh idx + (if owner n = some idx then 1 else 0) := by
  unfold named
  rw [Function.comp_update]
  exact refs_update (Finset.mem_range.mpr hi) (owner ∘ nh) (owner n) idx

theorem named_le (nh : Nat → Nexthop) (idx : Nat) : named nh idx ≤ maxNexthops := by
  have h : named nh idx ≤ (Finset.range maxNexthops).card := refs_le
  rwa [Finset.card_range] at h

theorem named_eq_zero {nh : Nat → Nexthop} :
    named nh idx = 0 ↔ ∀ i < maxNexthops, owner (nh i) ≠ some idx := by
  simp [named, refs_eq_zero]

/-- What is named when one next hop names nothing is named by another one. -/
theorem owner_of_update {nh : Nat → Nexthop} {n : Nexthop} {j k : Nat} (hn : owner n = none)
    (hj : owner (Function.update nh i n j) = some k) : j ≠ i ∧ owner (nh j) = some k := by
  have hji : j ≠ i := by
    rintro rfl
    simp [hn] at hj
  rw [Function.update_of_ne hji] at hj
  exact ⟨hji, hj⟩

namespace NexthopInv

theorem lt (h : NexthopInv f ctrl st) (ho : owner (st.nh i) = some idx) : idx < f.fibEntries :=
  bucket_lt (h.routes ho).2 (h.table.home (rowSeed_of_nhSeed (h.installed ho)))

/-- The references are only a matter of which rows are next hops. -/
theorem frame (h : NexthopInv f ctrl st) {s' : L2State} (ht : Table f ctrl (UcRow f) s'.rows)
    (hr : ∀ k, nhSeed f (s'.rows k) = nhSeed f (st.l2.rows k))
    (hu : ∀ k, (s'.ucMap k).l3Refcount = (st.l2.ucMap k).l3Refcount) :
    NexthopInv f ctrl ⟨s', st.nh⟩ where
  table := ht
  routes := h.routes
  installed ho := by
    rw [hr]
    exact h.installed ho
  counted k := by rw [hu, h.counted]
  nextHop k hk := h.nextHop k (by rwa [← hr])

/-- A next hop is replaced by one that names the same row, for the same address. -/
theorem same (h : NexthopInv f ctrl st) {n : Nexthop} (ho : owner n = owner (st.nh i))
    (hs : owner n ≠ none → n.l2Seed = (st.nh i).l2Seed) :
    NexthopInv f ctrl ⟨st.l2, Function.update st.nh i n⟩ := by
  have hsame : owner ∘ Function.update st.nh i n = owner ∘ st.nh := by
    rw [Function.comp_update, ho]
    exact Function.update_eq_self i (owner ∘ st.nh)
  have hown : ∀ j, owner (Function.update st.nh i n j) = owner (st.nh j) := congrFun hsame
  refine ⟨h.table, ?_, ?_, ?_, ?_⟩
  · intro j k hj
    exact h.routes ((hown j).symm.trans hj)
  · intro j k hj
    have hold := h.installed ((hown j).symm.trans hj)
    by_cases hji : j = i
    · subst hji
      simp only [Function.update_self] at hj ⊢
      rw [hold, hs (by simp [hj])]
    · simp only [Function.update_of_ne hji]
      exact hold
  · intro k
    rw [named, hsame]
    exact h.counted k
  · intro k hk
    rw [named, hsame]
    exact h.nextHop k hk

/-- A next hop gives up its row. -/
theorem drop (h : NexthopInv f ctrl st) {s' : L2State} {n : Nexthop} {c : Nat}
    (ho : owner (st.nh i) = some idx) (hn : owner n = none)
    (hc : (st.l2.ucMap idx).l3Refcount = c + 1) (hd : Dropped f ctrl st.l2 s' idx info c) :
    NexthopInv f ctrl ⟨s', Function.update st.nh i n⟩ := by
  have hi := (h.routes ho).1
  have hupd := named_update hi st.nh n
  have hother : ∀ k ≠ idx, named (Function.update st.nh i n) k = named st.nh k := by
    intro k hk
    have := hupd k
    simpa [ho, hn, hk.symm] using this
  have hhere : named (Function.update st.nh i n) idx = c := by
    have := hupd idx
    rw [if_pos ho, if_neg (by simp [hn]), ← h.counted, hc] at this
    omega
  refine ⟨hd.table, ?_, ?_, ?_, ?_⟩
  · intro j k hj
    exact h.routes (owner_of_update hn hj).2
  · intro j k hj
    obtain ⟨hji, hj'⟩ := owner_of_update hn hj
    simp only [Function.update_of_ne hji]
    by_cases hk : k = idx
    · -- the row has this other next hop, so its count is not 0 yet
      subst hk
      have hpos : c ≠ 0 := by
        rw [← hhere, Ne, named_eq_zero]
        exact fun hno => hno j (h.routes hj').1 hj
      rw [hd.shared hpos]
      exact h.installed hj'
    · rw [hd.others k hk]
      exact h.installed hj'
  · intro k
    simp only [hd.ucMap]
    by_cases hk : k = idx
    · rw [hk, Function.update_self, hhere]
    · rw [Function.update_of_ne hk, hother k hk, h.counted]
  · intro k hrow
    by_cases hk : k = idx
    · subst hk
      rw [hhere]
      intro hz
      exact hrow (hd.last hz)
    · rw [hother k hk]
      simp only [hd.others k hk] at hrow
      exact h.nextHop k hrow

end NexthopInv

/-! ## A row becomes a next hop -/

theorem addNexthop_fits {dmacId : BitVec 16} (h : e.Fits f) (hu : e.type = .unicast) :
    (addNexthop dmacId e).Fits f := by
  have hkind := h.kind
  unfold addNexthop
  split
  · exact { h with kind := hkind }
  · refine { h with kind := ?_ }
    simp only [L2Entry.OfKind, hu] at hkind ⊢
    exact hkind

theorem addNexthop_same (dmacId : BitVec 16) (e : L2Entry) :
    (addNexthop dmacId e).type = e.type ∧ (addNexthop dmacId e).seed f = e.seed f ∧
      (addNexthop dmacId e).nextHop = true := by
  unfold addNexthop
  split
  · exact ⟨rfl, rfl, by assumption⟩
  · exact ⟨rfl, rfl, rfl⟩

@[simp] theorem claimRow_ucMap (dmacId : BitVec 16) :
    (claimRow f ctrl s idx e dmacId).ucMap = s.ucMap := by
  unfold claimRow
  split <;> rfl

theorem claimRow_rows {dmacId : BitVec 16} {k : Nat} (hk : k ≠ idx) :
    (claimRow f ctrl s idx e dmacId).rows k = s.rows k := by
  unfold claimRow
  split
  · rfl
  · exact Function.update_of_ne hk _ _

@[simp] theorem ucGet_rows : (ucGet f s idx).rows = s.rows := by
  unfold ucGet setUc
  split <;> rfl

theorem ucGet_ucMap {k : Nat} (hk : k ≠ idx) : (ucGet f s idx).ucMap k = s.ucMap k := by
  unfold ucGet setUc
  split
  · exact Function.update_of_ne hk _ _
  · rfl

/-- The row of the address is a next hop then, whether it was one or not. -/
theorem claimRow_spec (h : Table f ctrl (UcRow f) s.rows) (hi : rowInfo f (s.rows idx) = some info)
    (he : ReadFrom f (s.rows idx) e) (dmacId : BitVec 16) :
    Table f ctrl (UcRow f) (claimRow f ctrl s idx e dmacId).rows ∧
      nhSeed f ((claimRow f ctrl s idx e dmacId).rows idx) = some info.seed := by
  obtain ⟨hfits, hu, hseed, hnh, -⟩ := h.read hi he
  unfold claimRow
  split_ifs with hsame
  · have hn : info.nextHop = true := by
      rw [Bool.and_eq_true, hnh] at hsame
      exact hsame.1
    refine ⟨h, ?_⟩
    rw [nhSeed_info hi, if_pos hn]
  · obtain ⟨ht, hs, hn⟩ := addNexthop_same (f := f) dmacId e
    have hf : (addNexthop dmacId e).Fits f := addNexthop_fits hfits hu
    have hu' := ht.trans hu
    refine ⟨h.rewrite hi hf hu' (hs.trans hseed), ?_⟩
    simp only [writeRow, Function.update_self]
    rcases rowInfo_written ctrl idx hf hu' with ⟨-, hfree⟩ | ⟨hw, -, -⟩
    · have hno := hfree.2.2.2.2.1
      rw [hn] at hno
      exact absurd hno (by decide)
    · rw [nhSeed_info hw, hn, hs, hseed]
      rfl

theorem ucGet_eq (hidx : idx < f.fibEntries) (hc : (s.ucMap idx).l3Refcount < refcountMax) :
    ucGet f s idx =
      { s with
        ucMap := Function.update s.ucMap idx
          { s.ucMap idx with l3Refcount := (s.ucMap idx).l3Refcount + 1 } } := by
  simp [ucGet, setUc, hidx, hc.ne]

namespace NexthopInv

/-- There are not enough next hops to reach the ceiling of the count. -/
theorem below_max (h : NexthopInv f ctrl st) (idx : Nat) :
    (st.l2.ucMap idx).l3Refcount < refcountMax := by
  rw [h.counted]
  exact lt_of_le_of_lt (named_le st.nh idx) (by decide)

/-- A next hop that named no row takes one. -/
theorem claim (h : NexthopInv f ctrl st) {n : Nexthop} (hf : f ≠ .rtl931x) (hlt : i < maxNexthops)
    (ho : owner (st.nh i) = none) (hi : rowInfo f (st.l2.rows idx) = some info)
    (he : ReadFrom f (st.l2.rows idx) e) (hn : owner n = some idx) (hseed : n.l2Seed = info.seed)
    (dmacId : BitVec 16) :
    NexthopInv f ctrl
      ⟨claimRow f ctrl (ucGet f st.l2 idx) idx e dmacId, Function.update st.nh i n⟩ := by
  have hidx : idx < f.fibEntries := bucket_lt hf (h.table.home (rowSeed_of_info hi))
  have hget := ucGet_eq hidx (h.below_max idx)
  have ht' : Table f ctrl (UcRow f) (ucGet f st.l2 idx).rows := by simpa using h.table
  have hi' : rowInfo f ((ucGet f st.l2 idx).rows idx) = some info := by simpa using hi
  have he' : ReadFrom f ((ucGet f st.l2 idx).rows idx) e := by simpa using he
  obtain ⟨ht, hrow⟩ := claimRow_spec ht' hi' he' dmacId
  have hother : ∀ k ≠ idx, (claimRow f ctrl (ucGet f st.l2 idx) idx e dmacId).rows k =
      st.l2.rows k := by
    intro k hk
    rw [claimRow_rows hk, ucGet_rows]
  have hupd := named_update hlt st.nh n
  have hnamed : ∀ k ≠ idx, named (Function.update st.nh i n) k = named st.nh k := by
    intro k hk
    simpa [ho, hn, hk.symm] using hupd k
  have hhere : named (Function.update st.nh i n) idx = named st.nh idx + 1 := by
    simpa [ho, hn] using hupd idx
  refine ⟨ht, ?_, ?_, ?_, ?_⟩
  · intro j k hj
    by_cases hji : j = i
    · exact ⟨hji ▸ hlt, hf⟩
    · simp only [Function.update_of_ne hji] at hj
      exact h.routes hj
  · intro j k hj
    by_cases hji : j = i
    · subst hji
      simp only [Function.update_self, hn, Option.some_inj] at hj ⊢
      subst hj
      rw [hrow, hseed]
    · simp only [Function.update_of_ne hji] at hj ⊢
      have hold := h.installed hj
      by_cases hk : k = idx
      · subst hk
        rw [hrow, ← hold]
        obtain ⟨info', hi', hs', hn'⟩ := info_of_nhSeed hold
        rw [hi, Option.some_inj] at hi'
        rw [hold, hi', hs']
      · rw [hother k hk]
        exact hold
  · intro k
    simp only [claimRow_ucMap, hget]
    by_cases hk : k = idx
    · subst hk
      rw [Function.update_self, hhere, h.counted]
    · rw [Function.update_of_ne hk, hnamed k hk, h.counted]
  · intro k hk
    by_cases hki : k = idx
    · subst hki
      rw [hhere]
      omega
    · simp only [hother k hki] at hk
      rw [hnamed k hki]
      exact h.nextHop k hk

/-- A next hop keeps its row. -/
theorem reclaim (h : NexthopInv f ctrl st) {n : Nexthop} (ho : owner (st.nh i) = some idx)
    (hi : rowInfo f (st.l2.rows idx) = some info) (he : ReadFrom f (st.l2.rows idx) e)
    (hn : owner n = some idx) (hseed : n.l2Seed = info.seed) (dmacId : BitVec 16) :
    NexthopInv f ctrl ⟨claimRow f ctrl st.l2 idx e dmacId, Function.update st.nh i n⟩ := by
  obtain ⟨ht, hrow⟩ := claimRow_spec h.table hi he dmacId
  have hold := h.installed ho
  have hi' := rowSeed_of_nhSeed hold
  rw [rowSeed_of_info hi, Option.some_inj] at hi'
  have hrows : ∀ k, nhSeed f ((claimRow f ctrl st.l2 idx e dmacId).rows k) =
      nhSeed f (st.l2.rows k) := by
    intro k
    by_cases hk : k = idx
    · subst hk
      rw [hrow, hold, hi']
    · rw [claimRow_rows hk]
  have hframe := h.frame ht hrows (fun k => by rw [claimRow_ucMap])
  exact hframe.same (hn.trans ho.symm) fun _ => hseed.trans hi'

/-- The search for the address of an installed next hop ends at the row that it names. -/
theorem found (h : NexthopInv f ctrl st) (ho : owner (st.nh i) = some idx) :
    ∃ e info, findHashEntry f ctrl st.l2 (st.nh i).l2Seed true .zero = (some idx, e) ∧
      ReadFrom f (st.l2.rows idx) e ∧ rowInfo f (st.l2.rows idx) = some info ∧
        e.nextHop = true := by
  have hnh := h.installed ho
  have hseed := rowSeed_of_nhSeed hnh
  obtain ⟨info, hi, -, hn⟩ := info_of_nhSeed hnh
  rcases findHashEntry_cases ctrl (h.table.seedTable UcRow.seedRow) (st.nh i).l2Seed true .zero with
    ⟨k, -, hk, e', he⟩ | ⟨-, hex, -⟩ | ⟨hno, -, -⟩
  · obtain rfl := h.table.unique hk hseed
    have hread := h.table.read hi ⟨e', rfl⟩
    exact ⟨_, info, he, ⟨e', rfl⟩, hi, hread.2.2.2.1.trans hn⟩
  · exact absurd hex (by decide)
  · exact absurd hseed (hno idx (h.table.home hseed))

/-- Giving up the row of an installed next hop. -/
theorem dropped (h : NexthopInv f ctrl st) (ho : owner (st.nh i) = some idx)
    (he : ReadFrom f (st.l2.rows idx) e) (hi : rowInfo f (st.l2.rows idx) = some info) :
    ∃ c, (st.l2.ucMap idx).l3Refcount = c + 1 ∧
      Dropped f ctrl st.l2 (dropRef f ctrl st.l2 idx e) idx info c := by
  have hpos : 0 < named st.nh idx := refs_pos (Finset.mem_range.mpr (h.routes ho).1) ho
  have hmax := h.below_max idx
  rw [← h.counted] at hpos
  obtain ⟨c, hc⟩ : ∃ c, (st.l2.ucMap idx).l3Refcount = c + 1 :=
    Nat.exists_eq_succ_of_ne_zero hpos.ne'
  rw [hc] at hmax
  exact ⟨c, hc, dropRef_dropped h.table hi he (h.lt ho) hc hmax⟩

/-- `otto_l2_uc_put_row` with what the next hop remembers of its row. -/
theorem ucPutRow_dropped (h : NexthopInv f ctrl st) (ho : owner (st.nh i) = some idx) {n : Nexthop}
    (hid : n.l2Id = (st.nh i).l2Id) (hseed : n.l2Seed = (st.nh i).l2Seed) :
    ∃ info c, rowInfo f (st.l2.rows idx) = some info ∧ (st.l2.ucMap idx).l3Refcount = c + 1 ∧
      Dropped f ctrl st.l2 (ucPutRow f ctrl st.l2 n) idx info c := by
  obtain ⟨e, info, hfind, hread, hi, hn⟩ := h.found ho
  obtain ⟨c, hc, hd⟩ := h.dropped ho hread hi
  have hidx : (st.nh i).l2Id = idx := (owner_eq.mp ho).2
  refine ⟨info, c, hi, hc, ?_⟩
  rw [ucPutRow, hseed, hid, hfind, hidx]
  simpa [hn] using hd

/-- `otto_l2_nexthop_del` of an installed next hop. -/
theorem nexthopDel_dropped (h : NexthopInv f ctrl st) (ho : owner (st.nh i) = some idx) :
    ∃ info c, rowInfo f (st.l2.rows idx) = some info ∧ (st.l2.ucMap idx).l3Refcount = c + 1 ∧
      Dropped f ctrl st.l2 (nexthopDel f ctrl st.l2 (st.nh i)).2 idx info c := by
  obtain ⟨e, info, hfind, hread, hi, hn⟩ := h.found ho
  obtain ⟨c, hc, hd⟩ := h.dropped ho hread hi
  have hidx : (st.nh i).l2Id = idx := (owner_eq.mp ho).2
  refine ⟨info, c, hi, hc, ?_⟩
  rw [nexthopDel, hfind, hidx]
  simpa [hn] using hd

end NexthopInv

/-- The row that a next hop gave up is free if it was the last one and nothing else kept it. -/
def LastFreed (f : Family) (st st' : NexthopState) (i : Nat) : Prop :=
  ∀ idx info, owner (st.nh i) = some idx → rowInfo f (st.l2.rows idx) = some info →
    named st'.nh idx = 0 → info.isStatic = true → (st.l2.ucMap idx).fdbRef = false →
      rowInfo f (st'.l2.rows idx) = none

namespace NexthopInv

theorem lastFreed {st' : NexthopState} (h' : NexthopInv f ctrl st')
    {c : Nat} {s' : L2State} (ho : owner (st.nh i) = some idx)
    (hi : rowInfo f (st.l2.rows idx) = some info) (hd : Dropped f ctrl st.l2 s' idx info c)
    (hrow : st'.l2.rows idx = s'.rows idx) (huc : st'.l2.ucMap idx = s'.ucMap idx) :
    LastFreed f st st' i := by
  intro k info' hk hinfo hz hst hfd
  obtain rfl : idx = k := Option.some.inj (ho.symm.trans hk)
  obtain rfl : info = info' := Option.some.inj (hi.symm.trans hinfo)
  rw [← h'.counted, huc, hd.ucMap, Function.update_self] at hz
  rw [hrow]
  exact hd.freed hz hst hfd

theorem lastFreed_of_none {st' : NexthopState} (ho : owner (st.nh i) = none) :
    LastFreed f st st' i := by
  intro k info hk
  rw [ho] at hk
  cases hk

/-- A row that the next hop still names has not lost its last one. -/
theorem lastFreed_of_kept {st' : NexthopState} (hlt : i < maxNexthops)
    (ho : owner (st'.nh i) = owner (st.nh i)) : LastFreed f st st' i := by
  intro k info hk _ hz
  exact absurd (ho.trans hk) (named_eq_zero.mp hz i hlt)

/-- A route gives up its next hop. -/
theorem routeDel (h : NexthopInv f ctrl st) (i : Nat) :
    NexthopInv f ctrl (routeDel f ctrl st i) ∧ LastFreed f st (Otto.routeDel f ctrl st i) i := by
  unfold Otto.routeDel
  cases hin : (st.nh i).l2Installed with
  | false =>
    have ho : owner (st.nh i) = none := by simp [owner, hin]
    simp only [Bool.false_eq_true, if_false]
    exact ⟨h.same ho.symm (fun hne => absurd rfl hne), lastFreed_of_none ho⟩
  | true =>
    have ho : owner (st.nh i) = some (st.nh i).l2Id := by simp [owner, hin]
    obtain ⟨info, c, hi, hc, hd⟩ := h.nexthopDel_dropped ho
    simp only [if_true]
    have h' := h.drop (n := {}) ho rfl hc hd
    exact ⟨h', lastFreed h' ho hi hd rfl rfl⟩

/-- The branches of `otto_l2_nexthop_add` for a row that it found. -/
theorem nexthopAdd_found (h : NexthopInv f ctrl st) {n : Nexthop} (hf : f ≠ .rtl931x)
    (hlt : i < maxNexthops) (hin : n.l2Installed = (st.nh i).l2Installed)
    (hid : n.l2Id = (st.nh i).l2Id) (hsd : n.l2Seed = (st.nh i).l2Seed)
    (hi : rowInfo f (st.l2.rows idx) = some info) (he : ReadFrom f (st.l2.rows idx) e)
    {n' : Nexthop} (hn' : owner n' = some idx) (hseed : n'.l2Seed = info.seed)
    (dmacId : BitVec 16) {st' : NexthopState}
    (hst : st' = ⟨claimRow f ctrl
      (let s := if n.l2Installed ∧ n.l2Id ≠ idx then ucPutRow f ctrl st.l2 n else st.l2
       if ¬ n.l2Installed ∨ n.l2Id ≠ idx then ucGet f s idx else s) idx e dmacId,
      Function.update st.nh i n'⟩) :
    NexthopInv f ctrl st' ∧ LastFreed f st st' i := by
  subst hst
  rw [hin, hid]
  cases hinst : (st.nh i).l2Installed with
  | false =>
    have ho : owner (st.nh i) = none := by simp [owner, hinst]
    simp only [Bool.false_eq_true, false_and, if_false, not_false_eq_true, true_or, if_true]
    exact ⟨h.claim hf hlt ho hi he hn' hseed dmacId, lastFreed_of_none ho⟩
  | true =>
    have ho : owner (st.nh i) = some (st.nh i).l2Id := by simp [owner, hinst]
    by_cases hmv : (st.nh i).l2Id = idx
    · -- the next hop names this row already
      simp only [hmv, ne_eq, not_true_eq_false, and_false, if_false, or_false]
      rw [hmv] at ho
      have h' := h.reclaim ho hi he hn' hseed dmacId
      refine ⟨h', lastFreed_of_kept hlt ?_⟩
      simp only [Function.update_self]
      exact hn'.trans ho.symm
    · simp only [hmv, ne_eq, not_false_eq_true, and_self, or_true, if_true]
      obtain ⟨info₀, c, hi₀, hc, hd⟩ := h.ucPutRow_dropped ho hid hsd
      have hleft := h.drop (n := {}) ho rfl hc hd
      have hrow : (ucPutRow f ctrl st.l2 n).rows idx = st.l2.rows idx :=
        hd.others idx (Ne.symm hmv)
      have h' := hleft.claim hf hlt (by simp [owner]) (by rw [hrow]; exact hi)
        (by rw [hrow]; exact he) hn' hseed dmacId
      rw [Function.update_idem] at h'
      refine ⟨h', lastFreed h' ho hi₀ hd ?_ ?_⟩
      · rw [claimRow_rows hmv, ucGet_rows]
      · rw [claimRow_ucMap, ucGet_ucMap hmv]

/-- A route sets its next hop up. -/
theorem routeAdd (h : NexthopInv f ctrl st) (hf : f ≠ .rtl931x) (hlt : i < maxNexthops)
    (mac : BitVec 64) (rvid dmacId : BitVec 16) :
    NexthopInv f ctrl (routeAdd f ctrl st i mac rvid dmacId) ∧
      LastFreed f st (Otto.routeAdd f ctrl st i mac rvid dmacId) i := by
  unfold Otto.routeAdd nexthopAdd
  rcases findHashEntry_cases ctrl (h.table.seedTable UcRow.seedRow) (hashSeed f mac rvid) false
    .zero with
    ⟨idx, -, hseed, e', hfind⟩ | ⟨-, -, idx, -, hfree, hfind⟩ | ⟨-, -, e', hfind⟩
  · obtain ⟨info, hi, hs⟩ := info_of_rowSeed hseed
    have hv : (fillEntry f (st.l2.rows idx) e').valid = true :=
      (h.table.read hi ⟨e', rfl⟩).1.valid
    simp only [hfind, hv, Bool.not_true, Bool.false_eq_true, if_false, if_true]
    exact h.nexthopAdd_found hf hlt rfl rfl rfl hi ⟨e', rfl⟩ (by simp [owner]) hs.symm dmacId rfl
  · -- the switch does not know the address
    have hz : L2Entry.zero.valid = false := rfl
    have hn : owner { st.nh i with mac := mac, rvid := rvid, port := f.portIgnore,
                                   dmacId := dmacId, l2Installed := false } = none := rfl
    simp only [hfind, hz, Bool.not_false, if_true]
    cases hin : (st.nh i).l2Installed with
    | false =>
      have ho : owner (st.nh i) = none := by simp [owner, hin]
      exact ⟨h.same (hn.trans ho.symm) (fun hne => absurd hn hne), lastFreed_of_none ho⟩
    | true =>
      have ho : owner (st.nh i) = some (st.nh i).l2Id := by simp [owner, hin]
      obtain ⟨info, c, hi, hc, hd⟩ := h.ucPutRow_dropped ho
        (n := { st.nh i with mac := mac, rvid := rvid, port := f.portIgnore, dmacId := dmacId })
        rfl rfl
      have h' := h.drop ho hn hc hd
      exact ⟨h', lastFreed h' ho hi hd rfl rfl⟩
  · -- the bucket is full of other addresses
    simp only [hfind]
    refine ⟨h.same rfl fun _ => rfl, lastFreed_of_kept hlt ?_⟩
    simp [owner]

end NexthopInv

/-! ## Calls of the bridge -/

namespace NexthopInv

/-- A row that is no next hop has no references. -/
theorem unnamed (h : NexthopInv f ctrl st) (hn : nhSeed f (st.l2.rows idx) = none) :
    (st.l2.ucMap idx).l3Refcount = 0 := by
  rw [h.counted, named_eq_zero]
  intro i _ ho
  rw [h.installed ho] at hn
  cases hn

/-- A row is written, and the next hop that it was or was not is left. -/
theorem write (h : NexthopInv f ctrl st) {s' : L2State} {r : L2Row}
    (hrows : s'.rows = Function.update st.l2.rows idx r)
    (huc : ∀ k, (s'.ucMap k).l3Refcount = (st.l2.ucMap k).l3Refcount)
    (ht : Table f ctrl (UcRow f) (Function.update st.l2.rows idx r))
    (hn : nhSeed f r = nhSeed f (st.l2.rows idx)) : NexthopInv f ctrl ⟨s', st.nh⟩ := by
  refine h.frame (by rw [hrows]; exact ht) ?_ huc
  intro k
  rw [hrows]
  by_cases hk : k = idx
  · subst hk
    rw [Function.update_self, hn]
  · rw [Function.update_of_ne hk]

theorem fdbAdd (h : NexthopInv f ctrl st) (lag : LagPort) {port : BitVec 8} {addr : Mac}
    {vid : BitVec 16} (hp : port.toNat < 2 ^ f.portBits) (hm : addr.isMulticast = false)
    (hv : vid.toNat < 4096) (e : L2Entry) :
    NexthopInv f ctrl ⟨(fdbAdd f ctrl st.l2 lag port addr vid e).2, st.nh⟩ := by
  unfold Otto.fdbAdd
  simp only
  generalize (if (f.is93xx && lag.group.isSome) = true then prepareLagFdb (lag.group.getD 0) e
    else e) = e
  split
  · exact h
  · rcases findHashEntry_cases ctrl (h.table.seedTable UcRow.seedRow)
      (hashSeed f (etherAddrToU64 addr) vid) false e with
      ⟨idx, -, hseed, e', hfind⟩ | ⟨hno, -, idx, hb, hfree, hfind⟩ | ⟨-, -, e', hfind⟩
    · obtain ⟨info, hi, hs⟩ := info_of_rowSeed hseed
      obtain ⟨hfits, -, -, hnh, -⟩ := h.table.read hi ⟨e', rfl⟩
      obtain ⟨hw, hr⟩ := setup_written ctrl idx hp hm hv (fillEntry f (st.l2.rows idx) e')
      rw [hfind]
      refine h.write (by rw [writeRow_rows, setUc_rows]) ?_
        (h.table.rewrite hi (setupUcEntry_fits hp hm hv) rfl ?_) ?_
      · intro k
        exact setUc_l3Refcount (by simp [hfits.valid]) k
      · rw [setupUcEntry_seed, hs]
      · rw [nhSeed_info hw, nhSeed_info hi, hfits.valid, hnh, hs]
        rfl
    · obtain ⟨hw, hr⟩ := setup_written ctrl idx hp hm hv L2Entry.zero
      have hnone : nhSeed f (st.l2.rows idx) = none := nhSeed_none (rowSeed_eq_none.mp hfree)
      rw [hfind]
      refine h.write (by rw [writeRow_rows, setUc_rows]) ?_
        (h.table.update idx (.inr ⟨hr, _, rowSeed_of_info hw, hb, ?_⟩)) ?_
      · intro k
        refine setUc_l3Refcount ?_ k
        rw [h.unnamed hnone]
        rfl
      · intro k _ hk
        exact hno k (h.table.home hk) hk
      · rw [nhSeed_info hw, hnone]
        rfl
    · rw [hfind]
      simp only
      split
      · exact h.frame h.table (fun _ => rfl) (fun _ => rfl)
      · exact h

/-- The row that the bridge deletes is left to the routes that still forward through it. -/
theorem delFdb_written (h : Table f ctrl (UcRow f) s.rows)
    (hi : rowInfo f (s.rows idx) = some info) (he : ReadFrom f (s.rows idx) e) {referred : Bool}
    (hr : info.nextHop = true → referred = true) :
    Table f ctrl (UcRow f) (Function.update s.rows idx
        (fillRow f (setHashMsb f ctrl idx (delFdb f referred e)))) ∧
      nhSeed f (fillRow f (setHashMsb f ctrl idx (delFdb f referred e))) =
        nhSeed f (s.rows idx) := by
  obtain ⟨-, -, hseed, hnh, -⟩ := h.read hi he
  obtain ⟨e₀, rfl⟩ := he
  have hrow := delFdb_row ((h.kind idx (by simp [hi])).read e₀) ctrl idx referred
  cases hn : info.nextHop with
  | true =>
    rw [if_pos (by rw [hnh, hn, hr hn]; rfl)] at hrow
    refine ⟨h.update idx (.inr ⟨hrow.2, info.seed, ?_, h.home (rowSeed_of_info hi),
      fun k hk => h.only hi hk⟩), ?_⟩
    · rw [rowSeed_of_info hrow.1, hseed]
    · rw [nhSeed_info hrow.1, nhSeed_info hi, hn, hseed]
  | false =>
    rw [if_neg (by rw [hnh, hn, Bool.and_false]; decide)] at hrow
    refine ⟨h.update idx (.inl hrow), ?_⟩
    rw [nhSeed_none hrow, nhSeed_info hi, hn]
    rfl

theorem fdbDel (h : NexthopInv f ctrl st) (lag : LagPort) (addr : Mac) (vid : BitVec 16)
    (e : L2Entry) : NexthopInv f ctrl ⟨(fdbDel f ctrl st.l2 lag addr vid e).2, st.nh⟩ := by
  unfold Otto.fdbDel
  simp only
  generalize (if (f.is93xx && lag.group.isSome) = true then prepareLagFdb (lag.group.getD 0) e
    else e) = e
  rcases findHashEntry_cases ctrl (h.table.seedTable UcRow.seedRow)
    (hashSeed f (etherAddrToU64 addr) vid) true e with
    ⟨idx, hb, hseed, e', hfind⟩ | ⟨-, hex, -⟩ | ⟨-, -, e', hfind⟩
  · obtain ⟨info, hi, hs⟩ := info_of_rowSeed hseed
    have hcount : ∀ k,
        ((setUc f st.l2 idx fun m => { m with fdbRef := false }).ucMap k).l3Refcount =
          (st.l2.ucMap k).l3Refcount := fun k => setUc_l3Refcount rfl k
    rw [hfind]
    have href : info.nextHop = true → ((ucLookup f (setUc f st.l2 idx fun m =>
        { m with fdbRef := false }) idx).any fun m => m.l3Refcount ≠ 0) = true := by
      intro hn
      have hpos := h.nextHop idx (by simp [nhSeed_info hi, hn])
      have hnz := hpos
      rw [← h.counted, ← hcount] at hnz
      rw [Ne, named_eq_zero] at hpos
      push Not at hpos
      obtain ⟨i, -, ho⟩ := hpos
      simpa [ucLookup, h.lt ho] using hnz
    have hw := delFdb_written h.table hi ⟨e', rfl⟩ href
    exact h.write (by rw [writeRow_rows, setUc_rows]) hcount hw.1 hw.2
  · cases hex
  · rw [hfind]
    simp only
    split
    · exact h.frame h.table (fun _ => rfl) (fun _ => rfl)
    · exact h

end NexthopInv

/-! ## Steps of the switch -/

namespace NexthopInv

/-- Under the invariant a next hop holds the row that it names. -/
theorem holds_iff (h : NexthopInv f ctrl st) : Holds f st idx i ↔ owner (st.nh i) = some idx := by
  rw [owner_eq]
  refine ⟨fun hh => ⟨hh.1, hh.2.1⟩, fun ho => ⟨ho.1, ho.2, ?_⟩⟩
  exact rowSeed_of_nhSeed (h.installed (owner_eq.mpr ho))

theorem holders_eq (h : NexthopInv f ctrl st) : holders f st idx = named st.nh idx := by
  have hsame : (Finset.range maxNexthops).filter (Holds f st idx) =
      (Finset.range maxNexthops).filter fun i => (owner ∘ st.nh) i = some idx :=
    Finset.filter_congr fun i _ => h.holds_iff
  rw [holders, hsame, named, refs]

theorem counted_all (h : NexthopInv f ctrl st) : Counted f st := by
  intro idx _
  rw [h.counted, h.holders_eq]

/-- A row that no next hop holds is none. -/
theorem nhSeed_none_of_spared (h : NexthopInv f ctrl st)
    (hs : ∀ i < maxNexthops, ¬ Holds f st idx i) : nhSeed f (st.l2.rows idx) = none := by
  by_contra hne
  refine h.nextHop idx hne (named_eq_zero.mpr ?_)
  intro i hi ho
  exact hs i hi (h.holds_iff.mpr ho)

/-- The switch drops rows that no next hop holds. -/
theorem drops (h : NexthopInv f ctrl st) {rows' : Nat → L2Row}
    (hr : ∀ k, rows' k = st.l2.rows k ∨
      rowInfo f (rows' k) = none ∧ ∀ i < maxNexthops, ¬ Holds f st k i) :
    NexthopInv f ctrl { st with l2.rows := rows' } := by
  refine h.frame (h.table.drop fun k => (hr k).imp_right And.left) ?_ fun _ => rfl
  intro k
  rcases hr k with hk | ⟨hk, hs⟩
  · exact congrArg (nhSeed f) hk
  · rw [h.nhSeed_none_of_spared hs]
    exact nhSeed_none hk

/-- One step, with the rows of installed next hops spared. -/
theorem step (h : NexthopInv f ctrl st) {a : L2Act} (he : a.Enabled f ctrl st)
    (hs : a.Spares f st) : NexthopInv f ctrl (a.run f ctrl st) := by
  cases a with
  | nexthopAdd i mac rvid dmacId => exact (h.routeAdd he.1 he.2 mac rvid dmacId).1
  | nexthopDel i => exact (h.routeDel i).1
  | fdbAdd lag port addr vid e => exact h.fdbAdd lag he.1 he.2.1 he.2.2 e
  | fdbDel lag addr vid e => exact h.fdbDel lag addr vid e
  | learn idx r =>
    obtain ⟨hfree, hr, seed, hi, hb, hno⟩ := he
    refine h.write rfl (fun _ => rfl)
      (h.table.update idx (.inr ⟨hr, seed, rowSeed_of_info hi, hb, ?_⟩)) ?_
    · intro k _ hk
      exact hno k (h.table.home hk) hk
    · rw [nhSeed_info hi, nhSeed_none hfree]
      rfl
  | age idx r =>
    refine h.drops fun k => ?_
    by_cases hk : k = idx
    · subst hk
      exact .inr ⟨by rw [Function.update_self]; exact he, hs⟩
    · exact .inl (Function.update_of_ne hk _ _)
  | flush port left =>
    refine h.drops fun k => ?_
    cases hl : left k with
    | none => exact .inl rfl
    | some r => exact .inr ⟨(he k r hl).1, hs k (by simp [hl])⟩

theorem of_reach (h : Reach f ctrl st) : NexthopInv f ctrl st := by
  induction h with
  | start l2 hr hu =>
    have hnone : ∀ idx, named (fun _ => ({} : Nexthop)) idx = 0 :=
      fun idx => named_eq_zero.mpr fun _ _ => by simp [owner]
    refine ⟨⟨?_, ?_, ?_⟩, ?_, ?_, ?_, ?_⟩
    · exact fun idx hne => absurd (hr idx) hne
    · intro idx seed hs
      simp [rowSeed, hr] at hs
    · intro i j seed hi
      simp [rowSeed, hr] at hi
    · intro i idx ho
      simp [owner] at ho
    · intro i idx ho
      simp [owner] at ho
    · intro idx
      simp only [hu, hnone]
    · exact fun idx hne => absurd (nhSeed_none (hr idx)) hne
  | step a _ he hs ih => exact ih.step he hs

end NexthopInv

/-! ## Whole runs -/

/-- The route whose next hop a step sets up or gives up. -/
def L2Act.route : L2Act → Option Nat
  | .nexthopAdd i _ _ _ => some i
  | .nexthopDel i => some i
  | .fdbAdd _ _ _ _ _ => none
  | .fdbDel _ _ _ _ => none
  | .learn _ _ => none
  | .age _ _ => none
  | .flush _ _ => none

/-- The row is a next hop. -/
def IsNexthop (f : Family) (st : NexthopState) (idx : Nat) : Prop :=
  ∃ info, rowInfo f (st.l2.rows idx) = some info ∧ info.nextHop = true

/-- What a step does to the rows of next hops: the rows of other routes stay valid next hops for
the same address, and with its last next hop a row stops being one, and is free if it was static
and the bridge held no entry in it. -/
structure NexthopsKept (f : Family) (st st' : NexthopState) (route : Option Nat) : Prop where
  others : ∀ idx i, route ≠ some i → Holds f st idx i → IsNexthop f st idx →
    Holds f st' idx i ∧ IsNexthop f st' idx
  last : ∀ idx i, route = some i → Holds f st idx i → holders f st' idx = 0 →
    ¬ IsNexthop f st' idx
  freed : ∀ idx i info, route = some i → Holds f st idx i → holders f st' idx = 0 →
    rowInfo f (st.l2.rows idx) = some info → info.isStatic = true →
      (st.l2.ucMap idx).fdbRef = false → rowInfo f (st'.l2.rows idx) = none

theorem isNexthop_iff : IsNexthop f st idx ↔ nhSeed f (st.l2.rows idx) ≠ none := by
  constructor
  · rintro ⟨info, hi, hn⟩
    simp [nhSeed_info hi, hn]
  · intro hne
    obtain ⟨seed, hs⟩ := Option.ne_none_iff_exists'.mp hne
    obtain ⟨info, hi, -, hn⟩ := info_of_nhSeed hs
    exact ⟨info, hi, hn⟩

theorem L2Act.run_nh (a : L2Act) (ctrl : BitVec 32) (hi : a.route ≠ some i) :
    (a.run f ctrl st).nh i = st.nh i := by
  cases a with
  | nexthopAdd j mac rvid dmacId =>
    have hij : i ≠ j := fun h => hi (by rw [h]; rfl)
    exact Function.update_of_ne hij _ _
  | nexthopDel j =>
    have hij : i ≠ j := fun h => hi (by rw [h]; rfl)
    exact Function.update_of_ne hij _ _
  | fdbAdd lag port addr vid e => rfl
  | fdbDel lag addr vid e => rfl
  | learn idx r => rfl
  | age idx r => rfl
  | flush port left => rfl

namespace NexthopInv

theorem lastFreed_step (h : NexthopInv f ctrl st) {a : L2Act} (he : a.Enabled f ctrl st)
    (hr : a.route = some i) : LastFreed f st (a.run f ctrl st) i := by
  cases a with
  | nexthopAdd j mac rvid dmacId =>
    obtain rfl : j = i := Option.some.inj hr
    exact (h.routeAdd he.1 he.2 mac rvid dmacId).2
  | nexthopDel j =>
    obtain rfl : j = i := Option.some.inj hr
    exact (h.routeDel j).2
  | fdbAdd lag port addr vid e => cases hr
  | fdbDel lag addr vid e => cases hr
  | learn idx r => cases hr
  | age idx r => cases hr
  | flush port left => cases hr

theorem kept (h : NexthopInv f ctrl st) {a : L2Act} (he : a.Enabled f ctrl st)
    (hs : a.Spares f st) : NexthopsKept f st (a.run f ctrl st) a.route where
  others idx i hr hh _ := by
    have h' := h.step he hs
    have ho : owner ((a.run f ctrl st).nh i) = some idx := by
      rw [a.run_nh ctrl hr]
      exact h.holds_iff.mp hh
    exact ⟨h'.holds_iff.mpr ho, isNexthop_iff.mpr (by simp [h'.installed ho])⟩
  last idx i hr hh hz := by
    have h' := h.step he hs
    rw [h'.holders_eq] at hz
    exact fun hn => h'.nextHop idx (isNexthop_iff.mp hn) hz
  freed idx i info hr hh hz hi hst hfd := by
    rw [(h.step he hs).holders_eq] at hz
    exact h.lastFreed_step he hr idx info (h.holds_iff.mp hh) hi hz hst hfd

/-- When the switch drops a row that an installed next hop holds, the count is left. -/
theorem not_counted (h : NexthopInv f ctrl st) {st' : NexthopState} (hi : i < maxNexthops)
    (hh : Holds f st idx i) (hu : st'.l2.ucMap = st.l2.ucMap)
    (hr : rowInfo f (st'.l2.rows idx) = none) : ¬ Counted f st' := by
  intro hc
  have ho := h.holds_iff.mp hh
  have hcount := hc idx (h.lt ho)
  have hzero : holders f st' idx = 0 := by
    rw [holders, Finset.card_eq_zero, Finset.filter_eq_empty_iff]
    rintro j - ⟨-, -, hseed⟩
    simp [rowSeed, hr] at hseed
  rw [hu, h.counted, hzero, named_eq_zero] at hcount
  exact hcount i hi ho

theorem counted_iff (h : NexthopInv f ctrl st) {a : L2Act} (he : a.Enabled f ctrl st) :
    Counted f (a.run f ctrl st) ↔ a.Spares f st := by
  refine ⟨fun hc => ?_, fun hs => (h.step he hs).counted_all⟩
  cases a with
  | nexthopAdd i mac rvid dmacId => trivial
  | nexthopDel i => trivial
  | fdbAdd lag port addr vid e => trivial
  | fdbDel lag addr vid e => trivial
  | learn idx r => trivial
  | age idx r =>
    intro i hi hh
    have hrow : rowInfo f (((L2Act.age idx r).run f ctrl st).l2.rows idx) = none := by
      simp only [L2Act.run, Function.update_self]
      exact he
    exact absurd hc (h.not_counted hi hh rfl hrow)
  | flush port left =>
    intro idx hl i hi hh
    obtain ⟨r, hl⟩ := Option.isSome_iff_exists.mp hl
    have hrow : rowInfo f (((L2Act.flush port left).run f ctrl st).l2.rows idx) = none := by
      simp only [L2Act.run, hl, Option.getD_some]
      exact (he idx r hl).1
    exact absurd hc (h.not_counted hi hh rfl hrow)

end NexthopInv

/-- While the switch spares the rows of installed next hops, the count of every row is the number
of these that hold it, no step takes the row of another next hop, and with the last next hop
the row stops being one. The count is wrong after the first step that does not spare them. -/
theorem nexthop_rows_counted (f : Family) (ctrl : BitVec 32) {st : NexthopState}
    (h : Reach f ctrl st) :
    Counted f st ∧ ∀ a : L2Act, a.Enabled f ctrl st →
      (Counted f (a.run f ctrl st) ↔ a.Spares f st) ∧
      (a.Spares f st → NexthopsKept f st (a.run f ctrl st) a.route) := by
  have hinv := NexthopInv.of_reach h
  refine ⟨hinv.counted_all, fun a he => ⟨hinv.counted_iff he, fun hs => hinv.kept he hs⟩⟩

/-- No address is known, and no route has a next hop. -/
def noNexthops : NexthopState :=
  { l2 := { rows := fun _ => .zero, cam := fun _ => .zero, ucMap := fun _ => {},
            mcGroupBm := fun _ => false, mcPmask := fun _ => ∅ }
    nh := fun _ => {} }

/-- A row of the RTL839x with a learned address of VLAN 1. -/
def learnedRow (m5 m4 : BitVec 8) : L2Row :=
  fillRow839x { type := .unicast, valid := true, mac := ⟨0x02, 0, 0, 0, m4, m5⟩, rvid := 1,
                vid := 1, port := 1, age := 3 }

/-- Every step of the run is one that the callers and the switch can make. -/
def AllEnabled (f : Family) (ctrl : BitVec 32) : NexthopState → List L2Act → Prop
  | _, [] => True
  | st, a :: as => a.Enabled f ctrl st ∧ AllEnabled f ctrl (a.run f ctrl st) as

/-- The state after a run. -/
def runAll (f : Family) (ctrl : BitVec 32) (st : NexthopState) (as : List L2Act) : NexthopState :=
  as.foldl (fun st a => a.run f ctrl st) st

/-- A gateway is learned and becomes a next hop. -/
def learnAndAdd : List L2Act :=
  [.learn 388 (learnedRow 1 0), .nexthopAdd 0 0x020000000001 1 1]

theorem learnAndAdd_enabled : AllEnabled .rtl839x 0 noNexthops learnAndAdd := by
  refine ⟨⟨by decide +kernel, ⟨by decide +kernel, by decide +kernel⟩,
    hashSeed .rtl839x 0x020000000001 1, by decide +kernel, by decide +kernel, ?_⟩,
    ⟨by decide, by decide⟩, trivial⟩
  decide +kernel

theorem learnAndAdd_counted :
    Counted .rtl839x (runAll .rtl839x 0 noNexthops learnAndAdd) ∧
      ((runAll .rtl839x 0 noNexthops learnAndAdd).l2.ucMap 388).l3Refcount = 1 := by
  have hstart : Reach .rtl839x 0 noNexthops :=
    .start _ (fun _ => (by decide +kernel : rowInfo .rtl839x .zero = none)) (fun _ => rfl)
  obtain ⟨hlearn, hadd, -⟩ := learnAndAdd_enabled
  have h := (hstart.step _ hlearn trivial).step _ hadd trivial
  exact ⟨(nexthop_rows_counted .rtl839x 0 h).1, by decide +kernel⟩

/-- The gateway's row ages out, another address is learned into it and becomes a next hop, and
both routes go. -/
def relearned : List L2Act :=
  learnAndAdd ++ [.age 388 .zero, .learn 388 (learnedRow 0 0x10),
    .nexthopAdd 1 0x020000001000 1 2, .nexthopDel 1, .nexthopDel 0]

theorem relearned_enabled : AllEnabled .rtl839x 0 noNexthops relearned := by
  obtain ⟨hlearn, hadd, -⟩ := learnAndAdd_enabled
  refine ⟨hlearn, hadd, ?_, ⟨by decide +kernel, ⟨by decide +kernel, by decide +kernel⟩,
    hashSeed .rtl839x 0x020000001000 1, by decide +kernel, by decide +kernel, ?_⟩,
    ⟨by decide, by decide⟩, trivial, trivial, trivial⟩
  · change rowInfo .rtl839x .zero = none
    decide +kernel
  · decide +kernel

theorem relearned_not_counted :
    AllEnabled .rtl839x 0 noNexthops relearned ∧
      ¬ Counted .rtl839x (runAll .rtl839x 0 noNexthops relearned) ∧
      (∀ i < maxNexthops, ((runAll .rtl839x 0 noNexthops relearned).nh i).l2Installed = false) ∧
      IsNexthop .rtl839x (runAll .rtl839x 0 noNexthops relearned) 388 := by
  have hnone : ∀ i < maxNexthops,
      ((runAll .rtl839x 0 noNexthops relearned).nh i).l2Installed = false := by
    decide +kernel
  refine ⟨relearned_enabled, ?_, hnone, ?_⟩
  · intro hc
    have h388 := hc 388 (by decide)
    have hzero : holders .rtl839x (runAll .rtl839x 0 noNexthops relearned) 388 = 0 := by
      rw [holders, Finset.card_eq_zero, Finset.filter_eq_empty_iff]
      rintro i hi ⟨hin, -⟩
      rw [hnone i (Finset.mem_range.mp hi)] at hin
      cases hin
    have hone : ((runAll .rtl839x 0 noNexthops relearned).l2.ucMap 388).l3Refcount = 1 := by
      decide +kernel
    rw [hzero, hone] at h388
    cases h388
  · refine ⟨⟨hashSeed .rtl839x 0x020000001000 1, true, false⟩, by decide +kernel, rfl⟩

end Lede.Otto
