/-
Lede.Sfe.StepTheorems — what a step does to a connection.

A match is filled in when its connection is created; its key, its translation and
its connection are never written again. Steps therefore are of two kinds: one
creates a connection, all others leave this core of every object as it is and can
only end connections (`Step.core`).
-/
import Lede.Sfe.Frame
import Lede.Sfe.RunTheorems

namespace Lede.Sfe

open Lede.Lib

/-! ## Runs with a condition -/

/-- A run each of whose steps has a property. -/
inductive RunWhere (e : Endian) (Q : System → List Event → System → Prop) :
    System → List Event → System → Prop
  | refl (s : System) : RunWhere e Q s [] s
  | step {s s' s'' : System} {evs evs' : List Event} : RunWhere e Q s evs s' → Step e s' evs' s'' →
      Q s' evs' s'' → RunWhere e Q s (evs ++ evs') s''

theorem RunWhere.run {e : Endian} {Q : System → List Event → System → Prop} {s s' : System}
    {evs : List Event} (h : RunWhere e Q s evs s') : Run e s evs s' := by
  induction h with
  | refl => exact Run.refl _
  | step _ hstep _ ih => exact ih.step hstep

/-! ## The core of the objects -/

/-- The fields of a match that are written when it is created only. -/
def matchCore (m : ConnectionMatch) : ConnectionMatch :=
  { unlinked m with
    tcp := ⟨0, 0, 0, 0⟩
    rxPacketCount := 0
    rxByteCount := 0
    rxPacketCount64 := 0
    rxByteCount64 := 0
    flags := { m.flags with noSeqCheck := false } }

/-- The fields of a connection that are written when it is created only. -/
def connCore (x : Connection) : Connection :=
  { unlinkedConn x with lastSyncJiffies := 0, mark := 0, debugReadSeq := 0 }

/-- What two connections with one core have in common. -/
theorem connCore_eq {x y : Connection} (h : connCore x = connCore y) :
    x.toConnKey = y.toConnKey ∧ x.originalMatch = y.originalMatch ∧ x.replyMatch = y.replyMatch ∧
      x.originalDev = y.originalDev := by
  have hkey := congrArg Connection.toConnKey h
  have horiginal := congrArg Connection.originalMatch h
  have hreply := congrArg Connection.replyMatch h
  have hdev := congrArg Connection.originalDev h
  exact ⟨hkey, horiginal, hreply, hdev⟩

/-- Nothing was created between two states. -/
structure SameCore (si si' : SfeIpv4) : Prop where
  cm : ∀ a, matchCore (si'.cm a) = matchCore (si.cm a)
  conn : ∀ c, connCore (si'.conn c) = connCore (si.conn c)

namespace SameCore

variable {si si' si'' : SfeIpv4}

theorem refl (si : SfeIpv4) : SameCore si si := ⟨fun _ => rfl, fun _ => rfl⟩

theorem trans (h : SameCore si si') (h' : SameCore si' si'') : SameCore si si'' :=
  ⟨fun a => (h'.cm a).trans (h.cm a), fun c => (h'.conn c).trans (h.conn c)⟩

theorem key (h : SameCore si si') (a : Nat) : (si'.cm a).toMatchKey = (si.cm a).toMatchKey := by
  have hcore := congrArg ConnectionMatch.toMatchKey (h.cm a)
  exact hcore

theorem connKey (h : SameCore si si') (c : Nat) : (si'.conn c).toConnKey = (si.conn c).toConnKey :=
  (connCore_eq (h.conn c)).1

theorem originalMatch (h : SameCore si si') (c : Nat) :
    (si'.conn c).originalMatch = (si.conn c).originalMatch :=
  (connCore_eq (h.conn c)).2.1

theorem replyMatch (h : SameCore si si') (c : Nat) : (si'.conn c).replyMatch = (si.conn c).replyMatch :=
  (connCore_eq (h.conn c)).2.2.1

theorem modCm (si : SfeIpv4) (a : Nat) {f : ConnectionMatch → ConnectionMatch}
    (hf : ∀ m, matchCore (f m) = matchCore m) : SameCore si (si.modCm a f) := by
  refine ⟨fun b => ?_, fun _ => rfl⟩
  unfold SfeIpv4.modCm
  dsimp only
  split
  · exact hf _
  · rfl

theorem modConn (si : SfeIpv4) (c : Nat) {f : Connection → Connection}
    (hf : ∀ x, connCore (f x) = connCore x) : SameCore si (si.modConn c f) := by
  refine ⟨fun _ => rfl, fun b => ?_⟩
  unfold SfeIpv4.modConn
  dsimp only
  split
  · exact hf _
  · rfl

end SameCore

theorem Relinked.core {si si' : SfeIpv4} (h : Relinked si si') : SameCore si si' := by
  constructor
  · intro a
    have hcore := congrArg matchCore (h.cm a)
    exact hcore
  · intro c
    have hcore := congrArg connCore (h.conn c)
    exact hcore

section Core

variable (e : Endian) (si : SfeIpv4)

theorem sameCore_updateProtocolState (c : Nat) (sic : ConnectionCreate) :
    SameCore si (updateProtocolState si c sic) := by
  have hone : ∀ (q : SfeIpv4) (a : Nat) (w t u : BitVec 32) (n : Bool),
      SameCore q (q.modCm a (updateTcpMatch w t u n)) := fun q a w t u n => .modCm q a fun _ => rfl
  unfold updateProtocolState
  split
  · exact (hone si _ _ _ _ _).trans (hone _ _ _ _ _ _)
  · exact .refl si

theorem sameCore_setTcp (a b : Nat) (t t' : TcpConnectionMatch) : SameCore si (setTcp si a b t t') := by
  have hone : ∀ (q : SfeIpv4) (a : Nat) (t : TcpConnectionMatch),
      SameCore q (q.modCm a fun m => { m with tcp := t }) := fun q a t => .modCm q a fun _ => rfl
  exact (hone si a t).trans (hone _ b t')

theorem sameCore_updateSummaryStats (a : Nat) : SameCore si (si.modCm a updateSummaryStats) :=
  .modCm si a fun _ => rfl

theorem sameCore_genSync (c : Nat) (reason : SyncReason) (now : BitVec 64) :
    SameCore si (genSync si c reason now).2 := by
  have hconn : ∀ q : SfeIpv4, SameCore q (q.modConn c fun y => { y with lastSyncJiffies := now }) :=
    fun q => .modConn q c fun _ => rfl
  exact ((sameCore_updateSummaryStats si _).trans (sameCore_updateSummaryStats _ _)).trans (hconn _)

theorem sameCore_updateRule (sic : ConnectionCreate) : SameCore si (updateRule e si sic) := by
  unfold updateRule
  split
  · exact sameCore_updateProtocolState si _ sic
  · exact .refl si

theorem sameCore_markRule (k : ConnKey) (v : BitVec 32) : SameCore si (markRule e si k v) := by
  unfold markRule
  split
  · exact SameCore.modConn si _ fun _ => rfl
  · exact .refl si

theorem sameCore_debugDevReadConnection : SameCore si (debugDevReadConnection si).2 := by
  have hconn : ∀ c, SameCore si (si.modConn c fun x => { x with debugReadSeq := si.debugReadSeq }) :=
    fun c => .modConn si c fun _ => rfl
  unfold debugDevReadConnection
  split
  · exact .refl si
  · exact ((hconn _).trans (sameCore_updateSummaryStats _ _)).trans (sameCore_updateSummaryStats _ _)

theorem sameCore_conclude (a : Nat) (skb : Skb) (udp : Bool) (ihl checkOff : Nat) (dec : Decision) :
    SameCore si (conclude e si a skb udp ihl checkOff dec).2 := by
  cases dec with
  | flush ev => exact (relinked_removeConnection e si _).core
  | pass ev => exact .refl si
  | forward =>
    have hcount : SameCore si (si.modCm a (countPacket skb.len)) := .modCm si a fun _ => rfl
    exact hcount.trans (relinked_activate _ a).core

variable {e si} in
theorem Looked.core {k : MatchKey} {a : Nat} {si' : SfeIpv4} (h : Looked e si k a si') : SameCore si si' := by
  have hfind := (relinked_findConnectionMatch e si k).core
  rcases h.2 with rfl | ⟨t, t', rfl⟩
  · exact hfind
  · exact hfind.trans (sameCore_setTcp _ _ _ _ _)

theorem sameCore_recv (dev : BitVec 64) (skb : Skb) : SameCore si (recv e si dev skb).2 := by
  rcases recv_cases e si dev skb with ⟨ev, hr⟩ | ⟨k, ev, -, hr⟩ | ⟨k, a, si', udp, ihl, checkOff, dec, hk, hr⟩
  · rw [hr]
    exact .refl si
  · rw [hr]
    exact (relinked_findConnectionMatch e si k).core
  · rw [hr]
    exact hk.core.trans (sameCore_conclude e si' a skb udp ihl checkOff dec)

theorem sameCore_destroyRule (k : ConnKey) : SameCore si (destroyRule e si k).2 := by
  unfold destroyRule
  split
  · exact .refl si
  · exact (relinked_removeConnection e si _).core

theorem sameCore_destroyAllRulesForDev (dev : Option (BitVec 64)) :
    SameCore si (destroyAllRulesForDev e si dev).2 := by
  unfold destroyAllRulesForDev
  split
  · exact .refl si
  · exact (relinked_removeConnection e si _).core

theorem sameCore_syncNext (now : BitVec 64) : SameCore si (syncNext si now).2 := by
  unfold syncNext
  split
  · exact .refl si
  · exact ((relinked_dropCounterMatch si _).trans (relinked_dropActiveHead _ _)).core.trans
      (sameCore_genSync _ _ .stats _)

end Core

/-! ## Steps -/

/-- A step that creates a connection. -/
structure Created (e : Endian) (s s' : System) (sic : ConnectionCreate) (mem : Alloc) (now : BitVec 64) :
    Prop where
  fresh : mem.Fresh s
  destRegistered : sic.destDev.registered = true
  srcRegistered : sic.srcDev.registered = true
  unknown : findConnection e s.si sic.toConnKey = none
  eq : s' = { s with
    si := addConnection e s.si sic mem now
    conns := mem.conn :: s.conns
    cms := mem.original :: mem.reply :: s.cms }

/-- A step that creates nothing: connections can only end. -/
structure Quiet (s : System) (evs : List Event) (s' : System) : Prop where
  core : SameCore s.si s'.si
  live : ∀ c, Live s' c → Live s c
  silent : ∀ c sic, Event.created c sic ∉ evs

section Step

variable {e : Endian} {s s' : System} {evs : List Event}

theorem live_of_removed {s s' : System} (hconns : s'.conns = s.conns)
    (hremoved : ∀ x ∈ s.removed, x ∈ s'.removed) (c : Nat) (h : Live s' c) : Live s c := by
  refine ⟨hconns ▸ h.1, fun hm => h.2 ?_⟩
  obtain ⟨x, hx, hxc⟩ := List.mem_map.mp hm
  exact hxc ▸ List.mem_map_of_mem (hremoved x hx)

theorem create_cases (sic : ConnectionCreate) (mem : Alloc) (now : BitVec 64) (hfresh : mem.Fresh s) :
    (Created e s (afterCreate s sic mem (createRule e s.si sic (some mem) now)).2 sic mem now ∧
      (afterCreate s sic mem (createRule e s.si sic (some mem) now)).1 = [.created mem.conn sic]) ∨
    Quiet s (afterCreate s sic mem (createRule e s.si sic (some mem) now)).1
      (afterCreate s sic mem (createRule e s.si sic (some mem) now)).2 := by
  unfold createRule
  by_cases hreg : (!sic.destDev.registered || !sic.srcDev.registered) = true
  · right
    rw [if_pos hreg]
    exact ⟨.refl _, fun c hc => hc, fun c sic h => by cases h⟩
  · rw [if_neg hreg]
    cases hfind : findConnection e s.si sic.toConnKey with
    | some c =>
      right
      exact ⟨sameCore_updateProtocolState _ _ _, fun c hc => hc, fun c sic h => by cases h⟩
    | none =>
      left
      have hdevs : sic.destDev.registered = true ∧ sic.srcDev.registered = true := by
        simpa using hreg
      exact ⟨⟨hfresh, hdevs.1, hdevs.2, hfind, rfl⟩, rfl⟩

theorem Layout.flush_live {all active : List Nat} {connChain matchChain : Nat → List Nat}
    (h : Layout e s all active connChain matchChain) {c : Nat} {reason : SyncReason}
    (hconns : s'.conns = s.conns.erase c)
    (hremoved : s'.removed = s.removed.erase (c, reason)) (d : Nat) (hd : Live s' d) : Live s d := by
  have hdc : d ≠ c := fun he => h.nodup.not_mem_erase (he ▸ hconns ▸ hd.1)
  refine ⟨List.mem_of_mem_erase (hconns ▸ hd.1), fun hm => hd.2 ?_⟩
  obtain ⟨x, hx, rfl⟩ := List.mem_map.mp hm
  have hne : x ≠ (c, reason) := fun he => hdc (congrArg Prod.fst he)
  rw [hremoved]
  exact List.mem_map_of_mem ((List.mem_erase_of_ne hne).mpr hx)

theorem quiet_syncTurn (s : System) (quota : Nat) (now : BitVec 64) :
    Quiet s (syncTurn s quota now).1 (syncTurn s quota now).2 := by
  have hcore := sameCore_syncNext s.si now
  unfold syncTurn
  cases hsync : syncNext s.si now with
  | mk r si =>
    rw [hsync] at hcore
    cases r with
    | none => exact ⟨hcore, fun c hc => hc, fun c sic h => by cases h⟩
    | some x => exact ⟨hcore, fun c hc => hc, fun c sic h => by simp at h⟩

/-- A step creates a connection, or it is quiet. -/
theorem step_created_or_quiet (hw : WellFormed e s) (hstep : Step e s evs s') :
    (∃ sic mem now, Created e s s' sic mem now ∧ evs = [.created mem.conn sic]) ∨ Quiet s evs s' := by
  have hquiet : ∀ si, SameCore s.si si → Quiet s [] { s with si := si } := fun si hs =>
    ⟨hs, fun c hc => hc, fun c sic h => by cases h⟩
  cases hstep with
  | create sic mem now fresh =>
    rcases create_cases sic mem now fresh with h | h
    · exact Or.inl ⟨sic, mem, now, h⟩
    · exact Or.inr h
  | createNoMemory sic now =>
    refine Or.inr (hquiet _ ?_)
    unfold createRule
    split
    · exact .refl _
    · split
      · exact sameCore_updateProtocolState _ _ _
      · exact .refl _
  | update sic => exact Or.inr (hquiet _ (sameCore_updateRule _ _ _))
  | mark k v => exact Or.inr (hquiet _ (sameCore_markRule _ _ _ _))
  | destroy k =>
    have hcore := sameCore_destroyRule e s.si k
    refine Or.inr ?_
    unfold afterDestroy
    split
    · exact ⟨hcore, live_of_removed rfl fun x hx => by simp [hx], fun c sic h => by cases h⟩
    · exact ⟨.refl _, fun c hc => hc, fun c sic h => by cases h⟩
  | destroyAll dev =>
    have hcore := sameCore_destroyAllRulesForDev e s.si dev
    refine Or.inr ?_
    unfold afterDestroy
    split
    · exact ⟨hcore, live_of_removed rfl fun x hx => by simp [hx], fun c sic h => by cases h⟩
    · exact ⟨.refl _, fun c hc => hc, fun c sic h => by cases h⟩
  | recv dev skb =>
    have hcore := sameCore_recv e s.si dev skb
    have hsilent : ∀ c sic, Event.created c sic ∉ (recv e s.si dev skb).1.events := by
      intro c sic
      cases (recv e s.si dev skb).1 with
      | forwarded a out => simp [Verdict.events]
      | passed ev => simp [Verdict.events]
      | flushed d ev => simp [Verdict.events]
    refine Or.inr ?_
    unfold afterRecv
    split
    · exact ⟨hcore, live_of_removed rfl fun x hx => by simp [hx], hsilent⟩
    · exact ⟨hcore, fun c hc => hc, hsilent⟩
  | flush c reason now hc =>
    obtain ⟨all, active, connChain, matchChain, h⟩ := hw
    refine Or.inr ?_
    unfold flushConnection
    dsimp only
    split
    · exact ⟨sameCore_genSync _ _ reason _, h.flush_live rfl rfl, fun c sic h => by simp at h⟩
    · exact ⟨.refl _, h.flush_live rfl rfl, fun c sic h => by simp at h⟩
  | syncStart now hcb hq =>
    refine Or.inr ?_
    split
    · exact ⟨.refl _, fun c hc => hc, fun c sic h => by cases h⟩
    · exact quiet_syncTurn s _ now
  | syncNext now hq => exact Or.inr (quiet_syncTurn s _ now)
  | debugStart => exact Or.inr (hquiet _ ⟨fun _ => rfl, fun _ => rfl⟩)
  | debugRead =>
    refine Or.inr ⟨sameCore_debugDevReadConnection _, fun c hc => hc, fun c sic h => ?_⟩
    cases hread : (debugDevReadConnection s.si).1 with
    | none => simp [hread] at h
    | some d => simp [hread] at h
  | register callback => exact Or.inr (hquiet _ ⟨fun _ => rfl, fun _ => rfl⟩)

end Step

/-! ## A new connection among the others -/

section Created

variable {e : Endian} {s s' : System} {sic : ConnectionCreate} {mem : Alloc} {now : BitVec 64}

theorem Created.core (h : Created e s s' sic mem now) : SameCore (fillConnection s.si sic mem now) s'.si := by
  rw [h.eq]
  exact (relinked_insertConnection e _ _).core

theorem Created.live (h : Created e s s' sic mem now) (hw : WellFormed e s) (c : Nat) :
    Live s' c ↔ Live s c ∨ c = mem.conn := by
  obtain ⟨all, active, connChain, matchChain, hl⟩ := hw
  have hnew : mem.conn ∉ s.removed.map Prod.fst := fun hm =>
    h.fresh.1 ((hl.mem_conns _).mpr (Or.inr hm))
  rw [h.eq]
  unfold Live
  rw [List.mem_cons]
  constructor
  · rintro ⟨rfl | hc, hr⟩
    · exact Or.inr rfl
    · exact Or.inl ⟨hc, hr⟩
  · rintro (⟨hc, hr⟩ | rfl)
    · exact ⟨Or.inr hc, hr⟩
    · exact ⟨Or.inl rfl, hnew⟩

/-- An older connection is as it was. -/
theorem Created.conn (h : Created e s s' sic mem now) {c : Nat} (hc : c ∈ s.conns) :
    connCore (s'.si.conn c) = connCore (s.si.conn c) := by
  rw [h.core.conn, fillConnection_conn]
  exact fun he => h.fresh.1 (he ▸ hc)

/-- So is a match that was in use. -/
theorem Created.cm (h : Created e s s' sic mem now) {a : Nat} (ha : a ∈ s.cms) :
    matchCore (s'.si.cm a) = matchCore (s.si.cm a) := by
  rw [h.core.cm, fillConnection_cm]
  · exact fun he => h.fresh.2.1 (he ▸ ha)
  · exact fun he => h.fresh.2.2.1 (he ▸ ha)

theorem LiveMatch.mem_cms (hw : WellFormed e s) {a : Nat} (h : LiveMatch s a) : a ∈ s.cms := by
  obtain ⟨all, active, connChain, matchChain, hl⟩ := hw
  obtain ⟨c, hc, rfl | rfl⟩ := h
  · exact (hl.held c hc.1).1
  · exact (hl.held c hc.1).2

/-- The new matches. -/
theorem Created.matches_new (h : Created e s s' sic mem now) :
    (s'.si.conn mem.conn).originalMatch = mem.original ∧ (s'.si.conn mem.conn).replyMatch = mem.reply := by
  have hself := fillConnection_self s.si sic mem now
  constructor
  · rw [h.core.originalMatch, hself]
    rfl
  · rw [h.core.replyMatch, hself]
    rfl

theorem Created.original_eq (h : Created e s s' sic mem now) : matchCore (s'.si.cm mem.original)
    = matchCore (computeTranslations (newOriginalMatch (s.si.cm mem.original) sic mem.conn mem.reply)) := by
  rw [h.core.cm, fillConnection_original _ _ _ _ h.fresh.2.2.2]

theorem Created.reply_eq (h : Created e s s' sic mem now) : matchCore (s'.si.cm mem.reply)
    = matchCore (computeTranslations (newReplyMatch (s.si.cm mem.reply) sic mem.conn mem.original)) := by
  rw [h.core.cm, fillConnection_reply _ _ _ _ h.fresh.2.2.2]

/-- The live matches with a connection more. -/
theorem Created.liveMatch (h : Created e s s' sic mem now) (hw : WellFormed e s) (a : Nat) :
    LiveMatch s' a ↔ LiveMatch s a ∨ a = mem.original ∨ a = mem.reply := by
  obtain ⟨hmo, hmr⟩ := h.matches_new
  have hold : ∀ {c}, Live s c → (s'.si.conn c).originalMatch = (s.si.conn c).originalMatch ∧
      (s'.si.conn c).replyMatch = (s.si.conn c).replyMatch := by
    intro c hc
    obtain ⟨-, ho, hr, -⟩ := connCore_eq (h.conn hc.1)
    exact ⟨ho, hr⟩
  constructor
  · rintro ⟨c, hc, ha⟩
    rcases (h.live hw c).mp hc with hc | rfl
    · rw [(hold hc).1, (hold hc).2] at ha
      exact Or.inl ⟨c, hc, ha⟩
    · rw [hmo, hmr] at ha
      exact Or.inr ha
  · rintro (⟨c, hc, ha⟩ | ha)
    · refine ⟨c, (h.live hw c).mpr (Or.inl hc), ?_⟩
      rw [(hold hc).1, (hold hc).2]
      exact ha
    · refine ⟨mem.conn, (h.live hw _).mpr (Or.inr rfl), ?_⟩
      rw [hmo, hmr]
      exact ha

end Created

/-- Nothing but a new connection makes a match live. -/
theorem Quiet.liveMatch {s s' : System} {evs : List Event} (h : Quiet s evs s') {a : Nat}
    (ha : LiveMatch s' a) : LiveMatch s a := by
  obtain ⟨c, hc, ha⟩ := ha
  rw [h.core.originalMatch, h.core.replyMatch] at ha
  exact ⟨c, h.live c hc, ha⟩

/-! ## Forwarded packets -/

/-- UDP has its checksum at another place than TCP. -/
def checkOff (m : Nat → UInt8) : Nat :=
  if ipProtocol m 0 = ipprotoUdp then udpCheckOff 20 else tcpCheckOff 20

/-- What is known of a packet that is forwarded: it has no options and is no fragment,
and its match, as it was before, says how it is rewritten. -/
structure Forwarded (e : Endian) (si : SfeIpv4) (dev : BitVec 64) (skb : Skb) (a : Nat) (out : Out) : Prop where
  hdrLen : ipHdrLen skb.data 0 = 20
  version : ipVersion skb.data 0 = 4
  protocol : ipProtocol skb.data 0 = ipprotoUdp ∧ 28 ≤ skb.len ∨ ipProtocol skb.data 0 = ipprotoTcp ∧ 40 ≤ skb.len
  found : (findConnectionMatch e si (packetKey e dev (ipProtocol skb.data 0) skb.data 20)).1 = some a
  out_eq : out = emit (si.cm a) (si.conn (si.cm a).connection).mark
    (rewritePacket e (si.cm a) skb.csumPartial (decide (ipProtocol skb.data 0 = ipprotoUdp)) 20
      (checkOff skb.data) skb.data) skb.len

section Forward

variable {e : Endian} {si si' : SfeIpv4} {dev : BitVec 64} {skb : Skb} {a : Nat} {out : Out}

/-- A packet leaves as the core of its match says. -/
theorem conclude_forwarded {b : Nat} {q : SfeIpv4} {udp : Bool} {ihl check : Nat} {dec : Decision}
    (h : conclude e q b skb udp ihl check dec = (.forwarded a out, si')) :
    dec = .forward ∧ b = a ∧ out = emit (q.cm b) (q.conn (q.cm b).connection).mark
      (rewritePacket e (q.cm b) skb.csumPartial udp ihl check skb.data) skb.len := by
  cases dec with
  | flush ev => cases congrArg Prod.fst h
  | pass ev => cases congrArg Prod.fst h
  | forward =>
    have hv := congrArg Prod.fst h
    simp only [conclude, Verdict.forwarded.injEq] at hv
    exact ⟨rfl, hv.1, hv.2.symm⟩

theorem udpDecide_forward {m : ConnectionMatch} {flush : Bool} (h : udpDecide m skb flush = .forward) :
    flush = false := by
  cases flush with
  | false => rfl
  | true => cases h

theorem tcpDecide_forward {m m' : ConnectionMatch} {ihl : Nat} {flush : Bool}
    (h : (tcpDecide m m' skb ihl flush).1 = .forward) : flush = false := by
  cases flush with
  | false => rfl
  | true => cases h

/-- What is sent depends on the core of the match and the mark. -/
theorem emit_core {q : SfeIpv4} (hcm : matchCore (q.cm a) = matchCore (si.cm a))
    (hmark : ∀ c, (q.conn c).mark = (si.conn c).mark) (udp : Bool) (ihl check : Nat) :
    emit (q.cm a) (q.conn (q.cm a).connection).mark
        (rewritePacket e (q.cm a) skb.csumPartial udp ihl check skb.data) skb.len
      = emit (si.cm a) (si.conn (si.cm a).connection).mark
        (rewritePacket e (si.cm a) skb.csumPartial udp ihl check skb.data) skb.len := by
  have hemit := congrArg (fun m : ConnectionMatch => emit m (si.conn m.connection).mark
    (rewritePacket e m skb.csumPartial udp ihl check skb.data) skb.len) hcm
  rw [hmark]
  exact hemit

theorem mark_find (e : Endian) (si : SfeIpv4) (k : MatchKey) (c : Nat) :
    ((findConnectionMatch e si k).2.conn c).mark = (si.conn c).mark := by
  have hconn := congrArg Connection.mark ((relinked_findConnectionMatch e si k).conn c)
  exact hconn

theorem recvUdp_forwarded {ihl : Nat} {flush : Bool}
    (h : recvUdp e si dev skb ihl flush = (.forwarded a out, si')) :
    flush = false ∧ 8 + ihl ≤ skb.len ∧
      (findConnectionMatch e si (packetKey e dev ipprotoUdp skb.data ihl)).1 = some a ∧
      out = emit (si.cm a) (si.conn (si.cm a).connection).mark
        (rewritePacket e (si.cm a) skb.csumPartial true ihl (udpCheckOff ihl) skb.data) skb.len := by
  unfold recvUdp at h
  split at h
  · cases congrArg Prod.fst h
  · rename_i hlen
    have hcore := (relinked_findConnectionMatch e si (packetKey e dev ipprotoUdp skb.data ihl)).core
    have hmark := mark_find e si (packetKey e dev ipprotoUdp skb.data ihl)
    cases hfind : findConnectionMatch e si (packetKey e dev ipprotoUdp skb.data ihl) with
    | mk r q =>
      rw [hfind] at h hcore hmark
      cases r with
      | none => cases congrArg Prod.fst h
      | some b =>
        obtain ⟨hdec, rfl, hout⟩ := conclude_forwarded h
        exact ⟨udpDecide_forward hdec, by omega, rfl, hout.trans (emit_core (hcore.cm b) hmark _ _ _)⟩

theorem recvTcp_forwarded {ihl : Nat} {flush : Bool}
    (h : recvTcp e si dev skb ihl flush = (.forwarded a out, si')) :
    flush = false ∧ 20 + ihl ≤ skb.len ∧
      (findConnectionMatch e si (packetKey e dev ipprotoTcp skb.data ihl)).1 = some a ∧
      out = emit (si.cm a) (si.conn (si.cm a).connection).mark
        (rewritePacket e (si.cm a) skb.csumPartial false ihl (tcpCheckOff ihl) skb.data) skb.len := by
  unfold recvTcp at h
  split at h
  · cases congrArg Prod.fst h
  · rename_i hlen
    have hcore := (relinked_findConnectionMatch e si (packetKey e dev ipprotoTcp skb.data ihl)).core
    have hmark := mark_find e si (packetKey e dev ipprotoTcp skb.data ihl)
    cases hfind : findConnectionMatch e si (packetKey e dev ipprotoTcp skb.data ihl) with
    | mk r q =>
      rw [hfind] at h hcore hmark
      cases r with
      | none => cases congrArg Prod.fst h
      | some b =>
        dsimp only at h
        obtain ⟨hdec, rfl, hout⟩ := conclude_forwarded h
        have htcp : ∀ t t', SameCore si (setTcp q b (q.cm b).counterMatch t t') := fun t t' =>
          hcore.trans (sameCore_setTcp q b _ t t')
        exact ⟨tcpDecide_forward hdec, by omega, rfl, hout.trans (emit_core ((htcp _ _).cm b) hmark _ _ _)⟩

theorem recv_forwarded (h : recv e si dev skb = (.forwarded a out, si')) :
    Forwarded e si dev skb a out := by
  have hhdr : ∀ {b : Bool}, (b || ipHdrLen skb.data 0 != 20) = false → ipHdrLen skb.data 0 = 20 := by
    intro b hb
    simpa using (Bool.or_eq_false_iff.mp hb).2
  unfold recv at h
  dsimp only at h
  by_cases hshort : skb.len < 20
  · rw [if_pos hshort] at h
    cases congrArg Prod.fst h
  by_cases htotal : totLen skb.data < 20
  · rw [if_neg hshort, if_pos htotal] at h
    cases congrArg Prod.fst h
  by_cases hversion : ipVersion skb.data 0 ≠ 4
  · rw [if_neg hshort, if_neg htotal, if_pos hversion] at h
    cases congrArg Prod.fst h
  rw [if_neg hshort, if_neg htotal, if_neg hversion] at h
  by_cases hdatagram : totLen skb.data > skb.len
  · rw [if_pos hdatagram] at h
    cases congrArg Prod.fst h
  by_cases hlater : isLaterFragment skb.data = true
  · rw [if_neg hdatagram, if_pos hlater] at h
    cases congrArg Prod.fst h
  by_cases hoptions : ipHdrLen skb.data 0 ≠ 20 ∧ skb.len < ipHdrLen skb.data 0
  · rw [if_neg hdatagram, if_neg hlater, if_pos hoptions] at h
    cases congrArg Prod.fst h
  rw [if_neg hdatagram, if_neg hlater, if_neg hoptions] at h
  by_cases hudp : ipProtocol skb.data 0 = ipprotoUdp
  · rw [if_pos hudp] at h
    obtain ⟨hflush, hlen, hfound, hout⟩ := recvUdp_forwarded h
    have hihl := hhdr hflush
    rw [hihl] at hlen hfound hout
    have hoff : checkOff skb.data = udpCheckOff 20 := if_pos hudp
    refine ⟨hihl, by omega, Or.inl ⟨hudp, by omega⟩, ?_, ?_⟩
    · rw [hudp]
      exact hfound
    · rw [hoff, decide_eq_true hudp]
      exact hout
  · rw [if_neg hudp] at h
    by_cases htcp : ipProtocol skb.data 0 = ipprotoTcp
    · rw [if_pos htcp] at h
      obtain ⟨hflush, hlen, hfound, hout⟩ := recvTcp_forwarded h
      have hihl := hhdr hflush
      rw [hihl] at hlen hfound hout
      have hoff : checkOff skb.data = tcpCheckOff 20 := if_neg hudp
      refine ⟨hihl, by omega, Or.inr ⟨htcp, by omega⟩, ?_, ?_⟩
      · rw [htcp]
        exact hfound
      · rw [hoff, decide_eq_false hudp]
        exact hout
    · rw [if_neg htcp] at h
      split at h
      · unfold recvIcmp at h
        split at h
        · cases congrArg Prod.fst h
        · split at h
          · cases congrArg Prod.fst h
          · cases congrArg Prod.fst h
      · cases congrArg Prod.fst h

end Forward

end Lede.Sfe
