/-
Lede.Sfe.StatTheorems — where the packet counts of a connection go.

A match counts the packets it forwarded since its count was last taken. A sync
message takes the counts of both directions and reports them; reading the debug
device takes them too and reports nothing, and a 32-bit count wraps. Both are
the only leaks: the law of each step (`Step.balance`) says that what is pending
and what was reported is at most what was forwarded, and less only there.
-/
import Lede.Sfe.StepTheorems

namespace Lede.Sfe

open Lede.Lib

/-! ## Counting a run -/

/-- The two directions of a connection. -/
inductive Direction where
  | original
  | reply
  deriving DecidableEq, Repr

namespace Direction

/-- The match of the direction. -/
def matchOf (d : Direction) (x : Connection) : Nat :=
  match d with
  | .original => x.originalMatch
  | .reply => x.replyMatch

/-- `src_new_packet_count` or `dest_new_packet_count`. -/
def newPackets (d : Direction) (sis : ConnectionSync) : BitVec 32 :=
  match d with
  | .original => sis.srcNewPacketCount
  | .reply => sis.destNewPacketCount

end Direction

/-- The new packets that the sync messages of connection `c` report. -/
def reported (d : Direction) (c : Nat) : List Event → Nat
  | [] => 0
  | .synced c' sis :: evs => (if c' = c then (d.newPackets sis).toNat else 0) + reported d c evs
  | _ :: evs => reported d c evs

/-- The packets that the match at `a` forwarded. -/
def forwardedBy (a : Nat) : List Event → Nat
  | [] => 0
  | .forwarded b :: evs => (if b = a then 1 else 0) + forwardedBy a evs
  | _ :: evs => forwardedBy a evs

theorem reported_append (d : Direction) (c : Nat) (evs evs' : List Event) :
    reported d c (evs ++ evs') = reported d c evs + reported d c evs' := by
  induction evs with
  | nil => simp [reported]
  | cons ev evs ih =>
    cases ev with
    | synced c' sis => simp [reported, ih, Nat.add_assoc]
    | created c' sic => simpa [reported] using ih
    | forwarded a => simpa [reported] using ih
    | debugRead c' => simpa [reported] using ih
    | freed c' => simpa [reported] using ih

theorem forwardedBy_append (a : Nat) (evs evs' : List Event) :
    forwardedBy a (evs ++ evs') = forwardedBy a evs + forwardedBy a evs' := by
  induction evs with
  | nil => simp [forwardedBy]
  | cons ev evs ih =>
    cases ev with
    | forwarded b => simp [forwardedBy, ih, Nat.add_assoc]
    | created c' sic => simpa [forwardedBy] using ih
    | synced c' sis => simpa [forwardedBy] using ih
    | debugRead c' => simpa [forwardedBy] using ih
    | freed c' => simpa [forwardedBy] using ih

/-- The packets of a direction that no message has reported yet. -/
def pending (d : Direction) (c : Nat) (si : SfeIpv4) : BitVec 32 :=
  (si.cm (d.matchOf (si.conn c))).rxPacketCount

/-- A step loses no packet of the direction: a read of the debug device finds nothing
pending, and no packet is counted on a full counter. -/
def Kept (d : Direction) (c : Nat) (s : System) (evs : List Event) (_ : System) : Prop :=
  (Event.debugRead c ∈ evs → pending d c s.si = 0) ∧
    (Event.forwarded (d.matchOf (s.si.conn c)) ∈ evs → pending d c s.si ≠ 0xffffffff#32)

/-! ## What changes a count -/

/-- No count was written. -/
def SameCounts (si si' : SfeIpv4) : Prop := ∀ a, (si'.cm a).rxPacketCount = (si.cm a).rxPacketCount

section Counts

variable {e : Endian} {si si' si'' : SfeIpv4}

theorem SameCounts.trans (h : SameCounts si si') (h' : SameCounts si' si'') : SameCounts si si'' :=
  fun a => (h' a).trans (h a)

theorem SameCounts.refl (si : SfeIpv4) : SameCounts si si := fun _ => rfl

theorem Relinked.counts (h : Relinked si si') : SameCounts si si' := by
  intro a
  have hcount := congrArg ConnectionMatch.rxPacketCount (h.cm a)
  exact hcount

theorem SameCounts.modCm (si : SfeIpv4) (a : Nat) {f : ConnectionMatch → ConnectionMatch}
    (hf : ∀ m, (f m).rxPacketCount = m.rxPacketCount) : SameCounts si (si.modCm a f) := by
  intro b
  unfold SfeIpv4.modCm
  dsimp only
  split
  · exact hf _
  · rfl

theorem sameCounts_setTcp (si : SfeIpv4) (a b : Nat) (t t' : TcpConnectionMatch) :
    SameCounts si (setTcp si a b t t') := by
  have hone : ∀ (q : SfeIpv4) (a : Nat) (t : TcpConnectionMatch),
      SameCounts q (q.modCm a fun m => { m with tcp := t }) := fun q a t => .modCm q a fun _ => rfl
  exact (hone si a t).trans (hone _ b t')

theorem sameCounts_updateProtocolState (si : SfeIpv4) (c : Nat) (sic : ConnectionCreate) :
    SameCounts si (updateProtocolState si c sic) := by
  have hone : ∀ (q : SfeIpv4) (a : Nat) (w t u : BitVec 32) (n : Bool),
      SameCounts q (q.modCm a (updateTcpMatch w t u n)) := fun q a w t u n => .modCm q a fun _ => rfl
  unfold updateProtocolState
  split
  · exact (hone si _ _ _ _ _).trans (hone _ _ _ _ _ _)
  · exact .refl si

theorem Looked.counts {k : MatchKey} {a : Nat} (h : Looked e si k a si') : SameCounts si si' := by
  have hfind := (relinked_findConnectionMatch e si k).counts
  rcases h.2 with rfl | ⟨t, t', rfl⟩
  · exact hfind
  · exact hfind.trans (sameCounts_setTcp _ _ _ _ _)

/-- A forwarded packet counts for its match and no other. -/
theorem recv_counts (e : Endian) (si : SfeIpv4) (dev : BitVec 64) (skb : Skb) :
    ((recv e si dev skb).1.events = [] ∧ SameCounts si (recv e si dev skb).2) ∨
      ∃ a, (recv e si dev skb).1.events = [.forwarded a] ∧
        ∀ b, ((recv e si dev skb).2.cm b).rxPacketCount
          = if b = a then (si.cm b).rxPacketCount + 1 else (si.cm b).rxPacketCount := by
  rcases recv_cases e si dev skb with ⟨ev, hr⟩ | ⟨k, ev, -, hr⟩ | ⟨k, a, si', udp, ihl, checkOff, dec, hk, hr⟩
  · rw [hr]
    exact Or.inl ⟨rfl, .refl si⟩
  · rw [hr]
    exact Or.inl ⟨rfl, (relinked_findConnectionMatch e si k).counts⟩
  · rw [hr]
    cases dec with
    | flush ev => exact Or.inl ⟨rfl, hk.counts.trans (relinked_removeConnection e si' _).counts⟩
    | pass ev => exact Or.inl ⟨rfl, hk.counts⟩
    | forward =>
      refine Or.inr ⟨a, rfl, fun b => ?_⟩
      have hactive := (relinked_activate (si'.modCm a (countPacket skb.len)) a).counts b
      refine hactive.trans ?_
      rw [← hk.counts b]
      unfold SfeIpv4.modCm
      dsimp only
      split
      · rfl
      · rfl

/-- A sync message reports both counts and clears them. -/
theorem genSync_counts (si : SfeIpv4) (c : Nat) (reason : SyncReason) (now : BitVec 64) :
    (∀ d : Direction, d.newPackets (genSync si c reason now).1 = pending d c si) ∧
      ∀ b, ((genSync si c reason now).2.cm b).rxPacketCount
        = if b = (si.conn c).originalMatch ∨ b = (si.conn c).replyMatch then 0
          else (si.cm b).rxPacketCount := by
  constructor
  · intro d
    cases d with
    | original => rfl
    | reply => rfl
  · intro b
    unfold genSync
    simp only [SfeIpv4.modCm, SfeIpv4.modConn]
    by_cases ho : b = (si.conn c).originalMatch
    · by_cases hr : b = (si.conn c).replyMatch
      · simp [← ho, ← hr, updateSummaryStats]
      · simp [← ho, hr, updateSummaryStats]
    · by_cases hr : b = (si.conn c).replyMatch
      · simp [ho, ← hr, updateSummaryStats]
      · simp [ho, hr]

/-- A read of the debug device clears both counts of the connection it prints. -/
theorem debugRead_counts (si : SfeIpv4) :
    ((debugDevReadConnection si).1 = none ∧ SameCounts si (debugDevReadConnection si).2) ∨
      ∃ c, (debugDevReadConnection si).1 = some c ∧
        ∀ b, ((debugDevReadConnection si).2.cm b).rxPacketCount
          = if b = (si.conn c).originalMatch ∨ b = (si.conn c).replyMatch then 0
            else (si.cm b).rxPacketCount := by
  unfold debugDevReadConnection
  split
  · exact Or.inl ⟨rfl, .refl si⟩
  · rename_i c hc
    refine Or.inr ⟨c, rfl, fun b => ?_⟩
    simp only [SfeIpv4.modCm, SfeIpv4.modConn, if_true]
    by_cases ho : b = (si.conn c).originalMatch
    · by_cases hr : b = (si.conn c).replyMatch
      · simp [← ho, ← hr, updateSummaryStats]
      · simp [← ho, hr, updateSummaryStats]
    · by_cases hr : b = (si.conn c).replyMatch
      · simp [ho, ← hr, updateSummaryStats]
      · simp [ho, hr]

end Counts

/-! ## The balance of a step -/

/-- Nothing is reported that was not forwarded, and all of it where no packet is lost. -/
structure Balanced (d : Direction) (c : Nat) (s : System) (evs : List Event) (s' : System) : Prop where
  sameMatch : d.matchOf (s'.si.conn c) = d.matchOf (s.si.conn c)
  le : (pending d c s'.si).toNat + reported d c evs
    ≤ (pending d c s.si).toNat + forwardedBy (d.matchOf (s.si.conn c)) evs
  eq_iff : (pending d c s'.si).toNat + reported d c evs
    = (pending d c s.si).toNat + forwardedBy (d.matchOf (s.si.conn c)) evs ↔ Kept d c s evs s'

section Balance

variable {d : Direction} {c : Nat} {s s' : System} {evs : List Event}

/-- A step that is not about the connection. -/
theorem Balanced.idle (hmatch : d.matchOf (s'.si.conn c) = d.matchOf (s.si.conn c))
    (hcount : (s'.si.cm (d.matchOf (s.si.conn c))).rxPacketCount = pending d c s.si)
    (hreported : reported d c evs = 0) (hforwarded : forwardedBy (d.matchOf (s.si.conn c)) evs = 0)
    (hread : Event.debugRead c ∉ evs) (hno : Event.forwarded (d.matchOf (s.si.conn c)) ∉ evs) :
    Balanced d c s evs s' := by
  have hpending : pending d c s'.si = pending d c s.si := by
    unfold pending
    rw [hmatch]
    exact hcount
  refine ⟨hmatch, ?_, ?_⟩
  · simp only [hpending, hreported, hforwarded, Nat.le_refl]
  · rw [hpending, hreported, hforwarded]
    exact ⟨fun _ => ⟨fun h => absurd h hread, fun h => absurd h hno⟩, fun _ => rfl⟩

/-- A packet of the connection. -/
theorem Balanced.forwarded (hmatch : d.matchOf (s'.si.conn c) = d.matchOf (s.si.conn c))
    (hcount : (s'.si.cm (d.matchOf (s.si.conn c))).rxPacketCount = pending d c s.si + 1) :
    Balanced d c s [.forwarded (d.matchOf (s.si.conn c))] s' := by
  have hpending : pending d c s'.si = pending d c s.si + 1 := by
    unfold pending
    rw [hmatch]
    exact hcount
  have hsum : reported d c [.forwarded (d.matchOf (s.si.conn c))] = 0 ∧
      forwardedBy (d.matchOf (s.si.conn c)) [.forwarded (d.matchOf (s.si.conn c))] = 1 := by
    simp [reported, forwardedBy]
  have hkept : Kept d c s [.forwarded (d.matchOf (s.si.conn c))] s' ↔ pending d c s.si ≠ 0xffffffff#32 := by
    simp [Kept]
  have hmod : (pending d c s.si + 1).toNat = ((pending d c s.si).toNat + 1) % 2 ^ 32 := by
    simp [BitVec.toNat_add]
  have hlt := (pending d c s.si).isLt
  have hfull : pending d c s.si = 0xffffffff#32 ↔ (pending d c s.si).toNat = 2 ^ 32 - 1 := by
    rw [← BitVec.toNat_inj]
    rfl
  refine ⟨hmatch, ?_, ?_⟩
  · rw [hpending, hsum.1, hsum.2, hmod]
    omega
  · rw [hpending, hsum.1, hsum.2, hmod, hkept, ne_eq, hfull]
    omega

/-- The count is taken and reported. -/
theorem Balanced.synced (hmatch : d.matchOf (s'.si.conn c) = d.matchOf (s.si.conn c))
    (hcount : (s'.si.cm (d.matchOf (s.si.conn c))).rxPacketCount = 0)
    (hreported : reported d c evs = (pending d c s.si).toNat)
    (hforwarded : forwardedBy (d.matchOf (s.si.conn c)) evs = 0)
    (hread : Event.debugRead c ∉ evs) (hno : Event.forwarded (d.matchOf (s.si.conn c)) ∉ evs) :
    Balanced d c s evs s' := by
  have hpending : pending d c s'.si = 0 := by
    unfold pending
    rw [hmatch]
    exact hcount
  refine ⟨hmatch, ?_, ?_⟩
  · rw [hpending, hreported, hforwarded]
    simp
  · rw [hpending, hreported, hforwarded]
    refine ⟨fun _ => ⟨fun h => absurd h hread, fun h => absurd h hno⟩, fun _ => ?_⟩
    simp

/-- The count is taken by the debug device. -/
theorem Balanced.debugRead (hmatch : d.matchOf (s'.si.conn c) = d.matchOf (s.si.conn c))
    (hcount : (s'.si.cm (d.matchOf (s.si.conn c))).rxPacketCount = 0) :
    Balanced d c s [.debugRead c] s' := by
  have hpending : pending d c s'.si = 0 := by
    unfold pending
    rw [hmatch]
    exact hcount
  have hkept : Kept d c s [.debugRead c] s' ↔ pending d c s.si = 0 := by simp [Kept]
  have hzero : pending d c s.si = 0 ↔ (pending d c s.si).toNat = 0 := by
    rw [← BitVec.toNat_inj]
    rfl
  refine ⟨hmatch, ?_, ?_⟩
  · rw [hpending]
    simp [reported]
  · rw [hpending, hkept, hzero]
    simp [reported, forwardedBy]
    omega

end Balance

/-! ## Steps -/

section Step

variable {e : Endian} {d : Direction} {c : Nat} {s s' : System} {evs : List Event}

theorem matchOf_of_core {x y : Connection} (h : connCore x = connCore y) (d : Direction) :
    d.matchOf x = d.matchOf y := by
  obtain ⟨-, ho, hr, -⟩ := connCore_eq h
  cases d with
  | original => exact ho
  | reply => exact hr

theorem step_sameMatch (hw : WellFormed e s) (hc : c ∈ s.conns) (hstep : Step e s evs s') (d : Direction) :
    d.matchOf (s'.si.conn c) = d.matchOf (s.si.conn c) := by
  rcases step_created_or_quiet hw hstep with ⟨sic, mem, now, h, -⟩ | h
  · exact matchOf_of_core (h.conn hc) d
  · exact matchOf_of_core (h.core.conn c) d

/-- A match belongs to one connection. -/
theorem Owned.matchOf_iff {si : SfeIpv4} {c' : Nat} (h : Owned (shape si).ids c)
    (h' : Owned (shape si).ids c') (d : Direction) :
    (d.matchOf (si.conn c) = (si.conn c').originalMatch ∨ d.matchOf (si.conn c) = (si.conn c').replyMatch) ↔
      c' = c := by
  have howner : (shape si).ids.owner (d.matchOf (si.conn c)) = c := by
    cases d with
    | original => exact h.owner_original
    | reply => exact h.owner_reply
  constructor
  · rintro (he | he)
    · rw [he] at howner
      exact h'.owner_original.symm.trans howner
    · rw [he] at howner
      exact h'.owner_reply.symm.trans howner
  · rintro rfl
    cases d with
    | original => exact Or.inl rfl
    | reply => exact Or.inr rfl

theorem Layout.mem_cms {all active : List Nat} {connChain matchChain : Nat → List Nat}
    (h : Layout e s all active connChain matchChain) (hc : c ∈ s.conns) (d : Direction) :
    d.matchOf (s.si.conn c) ∈ s.cms := by
  cases d with
  | original => exact (h.held c hc).1
  | reply => exact (h.held c hc).2

/-- A sync message of a connection that is allocated, after work on the lists only. -/
theorem balanced_sync {all active : List Nat} {connChain matchChain : Nat → List Nat}
    (h : Layout e s all active connChain matchChain) (hc : c ∈ s.conns) {c' : Nat} (hc' : c' ∈ s.conns)
    {si : SfeIpv4} (hlinks : Relinked s.si si) (reason : SyncReason) (now : BitVec 64)
    (hs' : s'.si = (genSync si c' reason now).2)
    (hmatch : d.matchOf (s'.si.conn c) = d.matchOf (s.si.conn c))
    {tail : List Event} (htail : tail = [] ∨ tail = [.freed c']) :
    Balanced d c s (.synced c' (genSync si c' reason now).1 :: tail) s' := by
  obtain ⟨hnew, hcounts⟩ := genSync_counts si c' reason now
  have howned := (h.owned c hc).matchOf_iff (h.owned c' hc') d
  have hcore := hlinks.core
  have hcount := hcounts (d.matchOf (s.si.conn c))
  rw [hcore.originalMatch, hcore.replyMatch, hlinks.counts] at hcount
  have hrest : reported d c tail = 0 ∧ forwardedBy (d.matchOf (s.si.conn c)) tail = 0 ∧
      Event.debugRead c ∉ tail ∧ Event.forwarded (d.matchOf (s.si.conn c)) ∉ tail := by
    rcases htail with rfl | rfl
    · simp [reported, forwardedBy]
    · simp [reported, forwardedBy]
  obtain ⟨hrep, hfwd, hread, hno⟩ := hrest
  have hfwd' : forwardedBy (d.matchOf (s.si.conn c)) (.synced c' (genSync si c' reason now).1 :: tail) = 0 := by
    simpa [forwardedBy] using hfwd
  by_cases hcc : c' = c
  · subst hcc
    rw [if_pos (howned.mpr rfl)] at hcount
    refine Balanced.synced hmatch (by rw [hs']; exact hcount) ?_ hfwd' (by simpa using hread)
      (by simpa using hno)
    have hpending : pending d c' si = pending d c' s.si := by
      unfold pending
      rw [matchOf_of_core (hcore.conn c'), hlinks.counts]
    simp [reported, hnew, hpending, hrep]
  · rw [if_neg (fun he => hcc (howned.mp he))] at hcount
    refine Balanced.idle hmatch (by rw [hs']; exact hcount) ?_ hfwd' (by simpa using hread)
      (by simpa using hno)
    simp [reported, hcc, hrep]

/-- Steps that leave all counts alone. -/
theorem Balanced.of_sameCounts (hcounts : SameCounts s.si s'.si)
    (hmatch : d.matchOf (s'.si.conn c) = d.matchOf (s.si.conn c)) : Balanced d c s [] s' :=
  Balanced.idle hmatch (hcounts _) rfl rfl (by simp) (by simp)

theorem sameCounts_afterDestroy {r : Option Nat × SfeIpv4} (h : SameCounts s.si r.2) :
    SameCounts s.si (afterDestroy s r).si := by
  unfold afterDestroy
  split
  · exact h
  · exact .refl _

theorem afterRecv_si (s : System) (r : Verdict × SfeIpv4) : (afterRecv s r).si = r.2 := by
  unfold afterRecv
  split
  · rfl
  · rfl

theorem balanced_syncTurn {all active : List Nat} {connChain matchChain : Nat → List Nat}
    (h : Layout e s all active connChain matchChain) (hc : c ∈ s.conns) (quota : Nat) (now : BitVec 64)
    (hmatch : d.matchOf ((syncTurn s quota now).2.si.conn c) = d.matchOf (s.si.conn c)) :
    Balanced d c s (syncTurn s quota now).1 (syncTurn s quota now).2 := by
  unfold syncTurn syncNext at hmatch ⊢
  cases hhead : s.si.activeHead with
  | none =>
    rw [hhead] at hmatch
    exact Balanced.of_sameCounts (.refl _) hmatch
  | some a =>
    rw [hhead] at hmatch
    have hin : a ∈ active := List.mem_of_mem_head? (h.matchPart.listed.head_eq.symm.trans hhead)
    have hlive := ((h.matchPart.mem_active a).mp hin).1
    have howner := (hlive.owner h.owned_all).1
    have hlinks := (relinked_dropCounterMatch s.si (s.si.cm a).counterMatch).trans
      (relinked_dropActiveHead (dropCounterMatch s.si (s.si.cm a).counterMatch) a)
    have hconn : ((dropActiveHead (dropCounterMatch s.si (s.si.cm a).counterMatch) a).cm a).connection
        = (s.si.cm a).connection := by
      have hcm := congrArg ConnectionMatch.connection (hlinks.cm a)
      exact hcm
    refine balanced_sync h hc ?_ hlinks .stats now rfl hmatch (Or.inl rfl)
    rw [hconn]
    exact (h.mem_conns _).mpr (Or.inl howner)

theorem balanced_debugRead {all active : List Nat} {connChain matchChain : Nat → List Nat}
    (h : Layout e s all active connChain matchChain) (hc : c ∈ s.conns)
    (hmatch : d.matchOf ((debugDevReadConnection s.si).2.conn c) = d.matchOf (s.si.conn c)) :
    Balanced d c s ((debugDevReadConnection s.si).1.map Event.debugRead).toList
      { s with si := (debugDevReadConnection s.si).2 } := by
  rcases debugRead_counts s.si with ⟨hnone, hcounts⟩ | ⟨c', hsome, hcounts⟩
  · rw [hnone]
    exact Balanced.of_sameCounts hcounts hmatch
  · -- what is printed is live
    have hc' : c' ∈ all := by
      have hhead : s.si.allConnectionsHead = all.head? := h.connPart.listed.head_eq
      have hnum : all.length ≤ s.si.numConnections := Nat.le_of_eq h.connPart.num_eq.symm
      have hwalk := fun p => h.connPart.listed.holds.walkFind_eq p hnum
      unfold debugDevReadConnection at hsome
      rw [hhead, show (fun c => (s.si.conn c).allConnectionsNext) = (shape s.si).allLinks.next from rfl,
        hwalk] at hsome
      generalize hfind : all.find? _ = r at hsome
      cases r with
      | none => cases hsome
      | some x =>
        obtain rfl : x = c' := Option.some.inj hsome
        exact List.mem_of_find?_eq_some hfind
    have howned := (h.owned c hc).matchOf_iff (h.owned_all c' hc') d
    have hcount := hcounts (d.matchOf (s.si.conn c))
    rw [hsome]
    by_cases hcc : c' = c
    · subst hcc
      rw [if_pos (howned.mpr rfl)] at hcount
      exact Balanced.debugRead hmatch hcount
    · rw [if_neg (fun he => hcc (howned.mp he))] at hcount
      refine Balanced.idle hmatch hcount rfl rfl ?_ (by simp)
      simpa using fun he : c = c' => hcc he.symm

/-- The balance of every step, for a connection that is allocated. -/
theorem step_balanced (hw : WellFormed e s) (hc : c ∈ s.conns) (hstep : Step e s evs s') (d : Direction) :
    Balanced d c s evs s' := by
  have hmatch := step_sameMatch hw hc hstep d
  obtain ⟨all, active, connChain, matchChain, h⟩ := hw
  cases hstep with
  | create sic mem now fresh =>
    unfold createRule at hmatch ⊢
    by_cases hreg : (!sic.destDev.registered || !sic.srcDev.registered) = true
    · rw [if_pos hreg] at hmatch ⊢
      exact Balanced.of_sameCounts (.refl _) hmatch
    · rw [if_neg hreg] at hmatch ⊢
      cases hfind : findConnection e s.si sic.toConnKey with
      | some x =>
        rw [hfind] at hmatch
        exact Balanced.of_sameCounts (sameCounts_updateProtocolState _ _ _) hmatch
      | none =>
        rw [hfind] at hmatch
        -- the new objects are others
        have hmem := h.mem_cms hc d
        have hold := fillConnection_cm s.si sic mem now (b := d.matchOf (s.si.conn c))
          (fun he => fresh.2.1 (he ▸ hmem)) fun he => fresh.2.2.1 (he ▸ hmem)
        have hcount := (relinked_insertConnection e (fillConnection s.si sic mem now) mem.conn).counts
          (d.matchOf (s.si.conn c))
        rw [hold] at hcount
        exact Balanced.idle hmatch hcount rfl rfl (by simp [afterCreate]) (by simp [afterCreate])
  | createNoMemory sic now =>
    refine Balanced.of_sameCounts ?_ hmatch
    unfold createRule
    dsimp only
    split
    · exact .refl _
    · split
      · exact sameCounts_updateProtocolState _ _ _
      · exact .refl _
  | update sic =>
    refine Balanced.of_sameCounts ?_ hmatch
    unfold updateRule
    dsimp only
    split
    · exact sameCounts_updateProtocolState _ _ _
    · exact .refl _
  | mark k v =>
    refine Balanced.of_sameCounts ?_ hmatch
    unfold markRule
    dsimp only
    split
    · exact fun _ => rfl
    · exact .refl _
  | destroy k =>
    refine Balanced.of_sameCounts (sameCounts_afterDestroy ?_) hmatch
    unfold destroyRule
    split
    · exact .refl _
    · exact (relinked_removeConnection e s.si _).counts
  | destroyAll dev =>
    refine Balanced.of_sameCounts (sameCounts_afterDestroy ?_) hmatch
    unfold destroyAllRulesForDev
    split
    · exact .refl _
    · exact (relinked_removeConnection e s.si _).counts
  | recv dev skb =>
    have hsi := afterRecv_si s (Lede.Sfe.recv e s.si dev skb)
    rcases recv_counts e s.si dev skb with ⟨hevs, hcounts⟩ | ⟨a, hevs, hcounts⟩
    · rw [hevs]
      refine Balanced.of_sameCounts ?_ hmatch
      rw [hsi]
      exact hcounts
    · have hcount := hcounts (d.matchOf (s.si.conn c))
      rw [← hsi] at hcount
      rw [hevs]
      by_cases ha : d.matchOf (s.si.conn c) = a
      · subst ha
        rw [if_pos rfl] at hcount
        exact Balanced.forwarded hmatch hcount
      · rw [if_neg ha] at hcount
        have ha' : a ≠ d.matchOf (s.si.conn c) := fun he => ha he.symm
        refine Balanced.idle hmatch hcount rfl ?_ (by simp) (by simpa using ha)
        simp [forwardedBy, ha']
  | flush c' reason now hc' =>
    have hmem : c' ∈ s.conns := (h.mem_conns c').mpr (Or.inr (List.mem_map_of_mem hc'))
    unfold flushConnection at hmatch ⊢
    dsimp only at hmatch ⊢
    split at hmatch
    · rename_i hcb
      rw [if_pos hcb]
      exact balanced_sync h hc hmem (.refl s.si) reason now rfl hmatch (Or.inr rfl)
    · rename_i hcb
      rw [if_neg hcb]
      exact Balanced.idle hmatch rfl rfl rfl (by simp) (by simp)
  | syncStart now hcb hq =>
    split at hmatch
    · rename_i hzero
      rw [if_pos hzero, if_pos hzero]
      exact Balanced.of_sameCounts (.refl _) hmatch
    · rename_i hzero
      rw [if_neg hzero, if_neg hzero]
      exact balanced_syncTurn h hc _ now hmatch
  | syncNext now hq => exact balanced_syncTurn h hc _ now hmatch
  | debugStart => exact Balanced.of_sameCounts (fun _ => rfl) hmatch
  | debugRead => exact balanced_debugRead h hc hmatch
  | register callback => exact Balanced.of_sameCounts (fun _ => rfl) hmatch

end Step

/-! ## Runs -/

/-- No packet of either direction is lost by a step. -/
def NothingLost (c : Nat) (s : System) (evs : List Event) (s' : System) : Prop :=
  ∀ d : Direction, Kept d c s evs s'

section Runs

variable {e : Endian} {c : Nat} {s s' : System} {evs : List Event}

theorem syncTurn_conns (s : System) (quota : Nat) (now : BitVec 64) :
    (syncTurn s quota now).2.conns = s.conns := by
  unfold syncTurn
  split
  · rfl
  · rfl

/-- Memory is freed by a flush, which says so. -/
theorem step_held (hc : c ∈ s.conns) (hstep : Step e s evs s') (hheld : Event.freed c ∉ evs) :
    c ∈ s'.conns := by
  cases hstep with
  | create sic mem now fresh =>
    unfold afterCreate
    split
    · exact List.mem_cons_of_mem _ hc
    · exact hc
  | destroy k =>
    unfold afterDestroy
    split
    · exact hc
    · exact hc
  | destroyAll dev =>
    unfold afterDestroy
    split
    · exact hc
    · exact hc
  | recv dev skb =>
    unfold afterRecv
    split
    · exact hc
    · exact hc
  | flush c' reason now hc' =>
    unfold flushConnection at hheld ⊢
    dsimp only at hheld ⊢
    split at hheld
    · rename_i hcb
      rw [if_pos hcb]
      exact (List.mem_erase_of_ne (by simpa using hheld)).mpr hc
    · rename_i hcb
      rw [if_neg hcb]
      exact (List.mem_erase_of_ne (by simpa using hheld)).mpr hc
  | syncStart now hcb hq =>
    split
    · exact hc
    · rw [syncTurn_conns]
      exact hc
  | syncNext now hq =>
    rw [syncTurn_conns]
    exact hc
  | createNoMemory => exact hc
  | update => exact hc
  | mark => exact hc
  | debugStart => exact hc
  | debugRead => exact hc
  | register => exact hc

/-- The balance of a run. -/
theorem run_balance (hw : WellFormed e s) (hc : c ∈ s.conns) (hrun : Run e s evs s')
    (hheld : Event.freed c ∉ evs) :
    c ∈ s'.conns ∧ (∀ d : Direction, d.matchOf (s'.si.conn c) = d.matchOf (s.si.conn c) ∧
      (pending d c s'.si).toNat + reported d c evs
        ≤ (pending d c s.si).toNat + forwardedBy (d.matchOf (s.si.conn c)) evs) ∧
      ((∀ d : Direction, (pending d c s'.si).toNat + reported d c evs
        = (pending d c s.si).toNat + forwardedBy (d.matchOf (s.si.conn c)) evs) →
          RunWhere e (NothingLost c) s evs s') := by
  induction hrun with
  | refl =>
    refine ⟨hc, fun d => ⟨rfl, ?_⟩, fun _ => RunWhere.refl _⟩
    simp [reported, forwardedBy]
  | @step s₁ s₂ evs₁ evs₂ hrun hstep ih =>
    rw [List.mem_append, not_or] at hheld
    obtain ⟨hmem, hle, hwhere⟩ := ih hheld.1
    have hbal := step_balanced (hw.run hrun) hmem hstep
    -- the two parts, over one match
    have hpart : ∀ d : Direction, (pending d c s₂.si).toNat + reported d c evs₂
        ≤ (pending d c s₁.si).toNat + forwardedBy (d.matchOf (s.si.conn c)) evs₂ := by
      intro d
      have hstep' := (hbal d).le
      rwa [(hle d).1] at hstep'
    refine ⟨step_held hmem hstep hheld.2, fun d => ⟨?_, ?_⟩, fun heq => ?_⟩
    · rw [(hbal d).sameMatch, (hle d).1]
    · have hrun' := (hle d).2
      have hstep' := hpart d
      rw [reported_append, forwardedBy_append]
      omega
    · -- equality of the sums is equality of both parts
      have htotal : ∀ d : Direction, (pending d c s₂.si).toNat + (reported d c evs₁ + reported d c evs₂)
          = (pending d c s.si).toNat + (forwardedBy (d.matchOf (s.si.conn c)) evs₁
            + forwardedBy (d.matchOf (s.si.conn c)) evs₂) := by
        intro d
        rw [← reported_append, ← forwardedBy_append]
        exact heq d
      refine (hwhere fun d => ?_).step hstep fun d => (hbal d).eq_iff.mp ?_
      · have hrun' := (hle d).2
        have hstep' := hpart d
        have := htotal d
        omega
      · have hrun' := (hle d).2
        have hstep' := hpart d
        have := htotal d
        rw [(hle d).1]
        omega

/-- A run that loses nothing reports or keeps all it forwarded. -/
theorem RunWhere.balance (hw : WellFormed e s) (hc : c ∈ s.conns)
    (hrun : RunWhere e (NothingLost c) s evs s') (hheld : Event.freed c ∉ evs) (d : Direction) :
    (pending d c s'.si).toNat + reported d c evs
      = (pending d c s.si).toNat + forwardedBy (d.matchOf (s.si.conn c)) evs := by
  induction hrun with
  | refl => simp [reported, forwardedBy]
  | @step s₁ s₂ evs₁ evs₂ hrun hstep hkept ih =>
    rw [List.mem_append, not_or] at hheld
    obtain ⟨hmem, hle, -⟩ := run_balance hw hc hrun.run hheld.1
    have hstep' := (step_balanced (hw.run hrun.run) hmem hstep d).eq_iff.mpr (hkept d)
    have hrun' := ih hheld.1
    rw [(hle d).1] at hstep'
    rw [reported_append, forwardedBy_append]
    omega

theorem Created.pending {s₀ s₁ : System} {sic : ConnectionCreate} {mem : Alloc} {now : BitVec 64}
    (h : Created e s₀ s₁ sic mem now) (d : Direction) : pending d mem.conn s₁.si = 0 := by
  have hcounts := (relinked_insertConnection e (fillConnection s₀.si sic mem now) mem.conn).counts
  have hsi : s₁.si = insertConnection e (fillConnection s₀.si sic mem now) mem.conn := by
    rw [h.eq]
    rfl
  have hne := h.fresh.2.2.2
  unfold Lede.Sfe.pending
  cases d with
  | original =>
    rw [show Direction.original.matchOf (s₁.si.conn mem.conn) = mem.original from h.matches_new.1, hsi, hcounts,
      fillConnection_original _ _ _ _ hne]
    rfl
  | reply =>
    rw [show Direction.reply.matchOf (s₁.si.conn mem.conn) = mem.reply from h.matches_new.2, hsi, hcounts,
      fillConnection_reply _ _ _ _ hne]
    rfl

/-- A connection is created, lives through a run and is flushed: its messages report
the packets of both directions exactly when no step loses any. -/
theorem reported_iff_nothingLost (e : Endian) {s₀ s₁ s₂ : System} {sic : ConnectionCreate} {mem : Alloc}
    {now now' : BitVec 64} {evs : List Event} {reason : SyncReason} (hreach : Reachable e s₀)
    (hcreated : Created e s₀ s₁ sic mem now) (hrun : Run e s₁ evs s₂) (hheld : Event.freed mem.conn ∉ evs)
    (hcallback : s₂.si.syncRuleCallback = true) :
    (reported .original mem.conn (evs ++ (flushConnection s₂ mem.conn reason now').1)
        = forwardedBy mem.original evs ∧
      reported .reply mem.conn (evs ++ (flushConnection s₂ mem.conn reason now').1)
        = forwardedBy mem.reply evs) ↔
    RunWhere e (NothingLost mem.conn) s₁ evs s₂ := by
  have hw₀ := reachable_wellFormed hreach
  have hw₁ : WellFormed e s₁ := by
    obtain ⟨all, active, connChain, matchChain, hl⟩ := hw₀
    rw [hcreated.eq]
    exact hl.add sic mem now hcreated.fresh
  have hc : mem.conn ∈ s₁.conns := by
    rw [hcreated.eq]
    simp
  obtain ⟨hc₂, hle, hwhere⟩ := run_balance hw₁ hc hrun hheld
  -- the flush reports what is pending
  have hflush : ∀ d : Direction, reported d mem.conn (flushConnection s₂ mem.conn reason now').1
      = (pending d mem.conn s₂.si).toNat := by
    intro d
    have hnew := (genSync_counts s₂.si mem.conn reason now').1 d
    unfold flushConnection
    simp only [hcallback, if_true]
    simp [reported, hnew]
  have hzero : ∀ d : Direction, (pending d mem.conn s₁.si).toNat = 0 := fun d => by
    rw [hcreated.pending d]
    rfl
  have hmatch : Direction.original.matchOf (s₁.si.conn mem.conn) = mem.original ∧
      Direction.reply.matchOf (s₁.si.conn mem.conn) = mem.reply := hcreated.matches_new
  rw [reported_append, reported_append, hflush, hflush]
  constructor
  · rintro ⟨ho, hr⟩
    refine hwhere fun d => ?_
    rw [hzero d]
    cases d with
    | original =>
      rw [hmatch.1]
      omega
    | reply =>
      rw [hmatch.2]
      omega
  · intro hw
    have ho := hw.balance hw₁ hc hheld .original
    have hr := hw.balance hw₁ hc hheld .reply
    rw [hzero, hmatch.1] at ho
    rw [hzero, hmatch.2] at hr
    constructor
    · omega
    · omega

end Runs

/-! ## A packet that no message reports -/

/-- A UDP packet from 1.0.0.0 port 59395 to 8.8.8.8 port 13568, as the rule below has it
on a little-endian machine. -/
def udpPacket : Skb where
  data := fun i => [0x45, 0, 0, 28, 0, 0, 0, 0, 64, 17, 0, 0, 1, 0, 0, 0, 8, 8, 8, 8,
    0xe8, 3, 0x35, 0, 0, 8, 0, 0].getD i 0
  len := 28
  len_lt := by decide
  csumPartial := false
  isGso := false
  cloned := false
  unshareOk := true

/-- The connection manager has registered itself. -/
def registeredSystem : System :=
  { zeroSystem with si := { zeroSystem.si with syncRuleCallback := true } }

/-- One rule. -/
def oneRule : System := createAt .little registeredSystem (snatRule 17 1 1000 9 5000) 1 1 2

/-- The packet comes in by device 1 and is forwarded. -/
def oneForwarded : System := afterRecv oneRule (recv .little oneRule.si 1 udpPacket)

/-- A process reads the debug device. -/
def oneStarted : System :=
  { oneForwarded with si := { oneForwarded.si with debugReadSeq := oneForwarded.si.debugReadSeq + 1 } }

def oneRead : System := { oneStarted with si := (debugDevReadConnection oneStarted.si).2 }

/-- The rule is destroyed, after the packet or after the read. -/
def destroyed (s : System) : System :=
  afterDestroy s (destroyRule .little s.si (snatRule 17 1 1000 9 5000).toConnKey)

theorem created_createAt {e : Endian} {s : System} {sic : ConnectionCreate} {conn original reply : Nat}
    (hfresh : Alloc.Fresh ⟨conn, original, reply⟩ s) (hdest : sic.destDev.registered = true)
    (hsrc : sic.srcDev.registered = true) (hfind : findConnection e s.si sic.toConnKey = none) :
    Created e s (createAt e s sic conn original reply) sic ⟨conn, original, reply⟩ 0 := by
  refine ⟨hfresh, hdest, hsrc, hfind, ?_⟩
  unfold createAt createRule
  simp [hdest, hsrc, hfind, afterCreate]

theorem created_oneRule : Reachable .little registeredSystem ∧
    Created .little registeredSystem oneRule (snatRule 17 1 1000 9 5000) ⟨1, 1, 2⟩ 0 := by
  constructor
  · exact ⟨_, _, _, (Run.refl zeroSystem).step (Step.register zeroSystem true)⟩
  · refine created_createAt ?_ rfl rfl rfl
    simp [Alloc.Fresh, registeredSystem, zeroSystem, initSystem]

theorem run_oneForwarded : Run .little oneRule [.forwarded 1] oneForwarded := by
  have hevents : (recv .little oneRule.si 1 udpPacket).1.events = [.forwarded 1] := by
    have hfirst : (recv .little oneRule.si 1 udpPacket).1.forwarder = some 1 := by decide +kernel
    obtain ⟨out, hout⟩ := Verdict.exists_out hfirst
    rw [hout]
    rfl
  have hstep := Step.recv (e := .little) oneRule 1 udpPacket
  rw [hevents] at hstep
  exact (Run.refl oneRule).step hstep

theorem run_oneRead : Run .little oneRule [.forwarded 1, .debugRead 1] oneRead := by
  have hread : (debugDevReadConnection oneStarted.si).1 = some 1 := by decide +kernel
  have hstart : Run .little oneRule [.forwarded 1] oneStarted :=
    run_oneForwarded.step (Step.debugStart oneForwarded)
  have hstep := Step.debugRead (e := .little) oneStarted
  rw [hread] at hstep
  exact hstart.step hstep

theorem reported_iff_nothingLost_oneForwarded :
    (reported .original 1 ([.forwarded 1] ++ (flushConnection (destroyed oneForwarded) 1 .destroy 0).1)
        = forwardedBy 1 [.forwarded 1] ∧
      reported .reply 1 ([.forwarded 1] ++ (flushConnection (destroyed oneForwarded) 1 .destroy 0).1)
        = forwardedBy 2 [.forwarded 1]) ↔
    RunWhere .little (NothingLost 1) oneRule [.forwarded 1] (destroyed oneForwarded) :=
  reported_iff_nothingLost .little created_oneRule.1 created_oneRule.2
    (run_oneForwarded.step (Step.destroy oneForwarded _)) (by simp) (by decide +kernel)

/-- The debug device takes the count of a forwarded packet, and the last message of its
connection reports none. -/
theorem debugRead_loses_packet : Reachable .little registeredSystem ∧
    Created .little registeredSystem oneRule (snatRule 17 1 1000 9 5000) ⟨1, 1, 2⟩ 0 ∧
    Run .little oneRule [.forwarded 1, .debugRead 1] (destroyed oneRead) ∧
    (destroyed oneRead).removed = [(1, .destroy)] ∧
    (destroyed oneRead).si.syncRuleCallback = true ∧
    reported .original 1 ([.forwarded 1, .debugRead 1] ++
      (flushConnection (destroyed oneRead) 1 .destroy 0).1) = 0 ∧
    forwardedBy 1 [.forwarded 1, .debugRead 1] = 1 :=
  ⟨created_oneRule.1, created_oneRule.2, run_oneRead.step (Step.destroy oneRead _), by decide +kernel,
    by decide +kernel, by decide +kernel, rfl⟩

end Lede.Sfe
