/-
Lede.Sfe.Rule — rules, syncs and the debug device of `sfe_ipv4.c`, and the runs
of the whole engine.

The engine is entered from many sides: the connection manager creates and
destroys rules, packets come in, a timer syncs the connections that were active,
a process reads the debug device. What each does under `si->lock` is one step
(`Step`); the steps of different callers follow each other in any order. A
connection is removed from the tables in one step and flushed in a later one,
which sends the last sync message and frees it.

The kernel hands out memory that nothing holds: the addresses of a new
connection are not those of an object that was not freed. That is all `Step`
asks of an allocation.
-/
import Lede.Sfe.Recv

namespace Lede.Sfe

open Lede.Lib

/-! ## Requests and messages -/

/-- What is read of `struct net_device` when a rule is created. -/
structure NetDevice where
  /-- The address of the structure. -/
  ptr : BitVec 64
  /-- `reg_state == NETREG_REGISTERED`. -/
  registered : Bool
  /-- `flags & IFF_POINTOPOINT`. -/
  pointToPoint : Bool
  /-- `header_ops->create == eth_header`. -/
  ethHeader : Bool
  devAddr : Mac

/-- `struct sfe_connection_create`, with the flag bits that are read. -/
structure ConnectionCreate extends ConnKey where
  srcDev : NetDevice
  destDev : NetDevice
  noSeqCheck : Bool
  remarkPriority : Bool
  remarkDscp : Bool
  srcMtu : BitVec 32
  destMtu : BitVec 32
  srcIpXlate : BitVec 32
  destIpXlate : BitVec 32
  srcPortXlate : BitVec 16
  destPortXlate : BitVec 16
  srcMac : Mac
  destMacXlate : Mac
  srcTdWindowScale : BitVec 8
  srcTdMaxWindow : BitVec 32
  srcTdEnd : BitVec 32
  srcTdMaxEnd : BitVec 32
  destTdWindowScale : BitVec 8
  destTdMaxWindow : BitVec 32
  destTdEnd : BitVec 32
  destTdMaxEnd : BitVec 32
  mark : BitVec 32
  originalAccel : Bool
  replyAccel : Bool
  srcPriority : BitVec 32
  destPriority : BitVec 32
  srcDscp : BitVec 32
  destDscp : BitVec 32

/-- `sfe_sync_reason_t`. -/
inductive SyncReason where
  | stats
  | flush
  | destroy
  deriving DecidableEq, Repr

/-- `struct sfe_connection_sync`. -/
structure ConnectionSync extends ConnKey where
  srcIpXlate : BitVec 32
  srcPortXlate : BitVec 16
  destIpXlate : BitVec 32
  destPortXlate : BitVec 16
  srcDev : BitVec 64
  destDev : BitVec 64
  srcTd : TcpConnectionMatch
  destTd : TcpConnectionMatch
  srcNewPacketCount : BitVec 32
  srcNewByteCount : BitVec 32
  destNewPacketCount : BitVec 32
  destNewByteCount : BitVec 32
  srcPacketCount : BitVec 64
  srcByteCount : BitVec 64
  destPacketCount : BitVec 64
  destByteCount : BitVec 64
  reason : SyncReason
  deltaJiffies : BitVec 64

/-- `IPPROTO_TCP`, as an `int`. -/
def protocolTcp : BitVec 32 := 6

/-! ## Creating and updating -/

/-- The part of `sfe_ipv4_update_tcp_state` for one direction. -/
def updateTcpMatch (maxWindow tdEnd tdMaxEnd : BitVec 32) (noSeqCheck : Bool) (m : ConnectionMatch) :
    ConnectionMatch :=
  { m with
    tcp := { m.tcp with
      maxWin := if m.tcp.maxWin < maxWindow then maxWindow else m.tcp.maxWin
      endSeq := if (m.tcp.endSeq - tdEnd).toInt < 0 then tdEnd else m.tcp.endSeq
      maxEnd := if (m.tcp.maxEnd - tdMaxEnd).toInt < 0 then tdMaxEnd else m.tcp.maxEnd }
    flags := { m.flags with noSeqCheck := noSeqCheck } }

/-- `sfe_ipv4_update_protocol_state` with `sfe_ipv4_update_tcp_state`. -/
def updateProtocolState (si : SfeIpv4) (c : Nat) (sic : ConnectionCreate) : SfeIpv4 :=
  if sic.protocol = protocolTcp then
    let o := (si.conn c).originalMatch
    let r := (si.conn c).replyMatch
    let si := si.modCm o (updateTcpMatch sic.srcTdMaxWindow sic.srcTdEnd sic.srcTdMaxEnd sic.noSeqCheck)
    si.modCm r (updateTcpMatch sic.destTdMaxWindow sic.destTdEnd sic.destTdMaxEnd sic.noSeqCheck)
  else si

/-- The original direction's key. -/
def originalKey (sic : ConnectionCreate) : MatchKey where
  matchDev := sic.srcDev.ptr
  matchProtocol := sic.protocol.setWidth 8
  matchSrcIp := sic.srcIp
  matchSrcPort := sic.srcPort
  matchDestIp := sic.destIp
  matchDestPort := sic.destPort

/-- The reply direction's key. -/
def replyKey (sic : ConnectionCreate) : MatchKey where
  matchDev := sic.destDev.ptr
  matchProtocol := sic.protocol.setWidth 8
  matchSrcIp := sic.destIpXlate
  matchSrcPort := sic.destPortXlate
  matchDestIp := sic.srcIpXlate
  matchDestPort := sic.srcPortXlate

/-- "Initialize the protocol-specific information that we track", for one
direction. -/
def initTcp (sic : ConnectionCreate) (old : TcpConnectionMatch) (scale : BitVec 8)
    (maxWindow tdEnd tdMaxEnd : BitVec 32) : TcpConnectionMatch :=
  if sic.protocol = protocolTcp then
    { winScale := scale
      maxWin := if maxWindow ≠ 0 then maxWindow else 1
      endSeq := tdEnd
      maxEnd := tdMaxEnd }
  else old

/-- The fields both directions of a new connection fill in the same way, over what
the memory held. -/
def newMatch (old : ConnectionMatch) (sic : ConnectionCreate) (key : MatchKey) (c counter : Nat)
    (xmit : NetDevice) (mtu : BitVec 32) (destMac : Mac) (priority dscp : BitVec 32) (accel : Bool)
    (xlateSrc xlateDest : Bool) : ConnectionMatch :=
  { old with
    toMatchKey := key
    rxPacketCount := 0
    rxPacketCount64 := 0
    rxByteCount := 0
    rxByteCount64 := 0
    xmitDev := xmit.ptr
    xmitDevMtu := mtu.setWidth 16
    xmitSrcMac := xmit.devAddr
    xmitDestMac := destMac
    connection := c
    counterMatch := counter
    priority := if sic.remarkPriority then priority else old.priority
    dscp := if sic.remarkDscp then dscp <<< 2 else old.dscp
    flowAccel := accel
    activeNext := none
    activePrev := none
    active := false
    flags :=
      { xlateSrc := xlateSrc
        xlateDest := xlateDest
        noSeqCheck := decide (sic.protocol = protocolTcp) && sic.noSeqCheck
        writeFastEthHdr := !xmit.pointToPoint && xmit.ethHeader
        writeL2Hdr := !xmit.pointToPoint
        priorityRemark := sic.remarkPriority
        dscpRemark := sic.remarkDscp } }

/-- The source is translated. -/
def srcChanges (sic : ConnectionCreate) : Bool :=
  sic.srcIp != sic.srcIpXlate || sic.srcPort != sic.srcPortXlate

/-- The destination is translated. -/
def destChanges (sic : ConnectionCreate) : Bool :=
  sic.destIp != sic.destIpXlate || sic.destPort != sic.destPortXlate

/-- "Fill in the original direction connection matching object". -/
def newOriginalMatch (old : ConnectionMatch) (sic : ConnectionCreate) (c reply : Nat) :
    ConnectionMatch :=
  { newMatch old sic (originalKey sic) c reply sic.destDev sic.destMtu sic.destMacXlate
      sic.srcPriority sic.srcDscp sic.originalAccel (srcChanges sic) (destChanges sic) with
    xlateSrcIp := sic.srcIpXlate
    xlateSrcPort := sic.srcPortXlate
    xlateDestIp := sic.destIpXlate
    xlateDestPort := sic.destPortXlate
    tcp := initTcp sic old.tcp sic.srcTdWindowScale sic.srcTdMaxWindow sic.srcTdEnd sic.srcTdMaxEnd }

/-- "Fill in the reply direction connection matching object". -/
def newReplyMatch (old : ConnectionMatch) (sic : ConnectionCreate) (c original : Nat) :
    ConnectionMatch :=
  { newMatch old sic (replyKey sic) c original sic.srcDev sic.srcMtu sic.srcMac
      sic.destPriority sic.destDscp sic.replyAccel (destChanges sic) (srcChanges sic) with
    xlateSrcIp := sic.destIp
    xlateSrcPort := sic.destPort
    xlateDestIp := sic.srcIp
    xlateDestPort := sic.srcPort
    tcp := initTcp sic old.tcp sic.destTdWindowScale sic.destTdMaxWindow sic.destTdEnd sic.destTdMaxEnd }

/-- The connection object of a new connection. -/
def newConnection (old : Connection) (sic : ConnectionCreate) (original reply : Nat)
    (now : BitVec 64) : Connection :=
  { old with
    toConnKey := sic.toConnKey
    srcIpXlate := sic.srcIpXlate
    srcPortXlate := sic.srcPortXlate
    destIpXlate := sic.destIpXlate
    destPortXlate := sic.destPortXlate
    originalDev := sic.srcDev.ptr
    originalMatch := original
    replyDev := sic.destDev.ptr
    replyMatch := reply
    mark := sic.mark
    debugReadSeq := 0
    lastSyncJiffies := now }

/-- The return value of `sfe_ipv4_create_rule`. -/
inductive CreateRet where
  | ok
  | einval
  | eaddrinuse
  | enomem
  deriving DecidableEq, Repr

/-- What `kmalloc` gave for the three objects of a connection, if it did. -/
structure Alloc where
  conn : Nat
  original : Nat
  reply : Nat
  deriving DecidableEq, Repr

section Ops

variable (e : Endian)

/-- The objects of a new connection are filled in and inserted. -/
def addConnection (si : SfeIpv4) (sic : ConnectionCreate) (mem : Alloc) (now : BitVec 64) : SfeIpv4 :=
  let si := si.modCm mem.original fun old =>
    computeTranslations (newOriginalMatch old sic mem.conn mem.reply)
  let si := si.modCm mem.reply fun old =>
    computeTranslations (newReplyMatch old sic mem.conn mem.original)
  let si := si.modConn mem.conn fun old => newConnection old sic mem.original mem.reply now
  insertConnection e si mem.conn

/-- `sfe_ipv4_create_rule`. -/
def createRule (si : SfeIpv4) (sic : ConnectionCreate) (mem : Option Alloc) (now : BitVec 64) :
    CreateRet × SfeIpv4 :=
  if !sic.destDev.registered || !sic.srcDev.registered then (.einval, si)
  else
    match findConnection e si sic.toConnKey with
    | some c => (.eaddrinuse, updateProtocolState si c sic)
    | none =>
      match mem with
      | none => (.enomem, si)
      | some mem => (.ok, addConnection e si sic mem now)

/-- `sfe_ipv4_update_rule`. -/
def updateRule (si : SfeIpv4) (sic : ConnectionCreate) : SfeIpv4 :=
  match findConnection e si sic.toConnKey with
  | some c => updateProtocolState si c sic
  | none => si

/-- `sfe_ipv4_mark_rule`. -/
def markRule (si : SfeIpv4) (k : ConnKey) (mark : BitVec 32) : SfeIpv4 :=
  match findConnection e si k with
  | some c => si.modConn c fun x => { x with mark := mark }
  | none => si

/-- `sfe_ipv4_destroy_rule` under the lock: the connection that was removed. -/
def destroyRule (si : SfeIpv4) (k : ConnKey) : Option Nat × SfeIpv4 :=
  match findConnection e si k with
  | none => (none, si)
  | some c => (some c, removeConnection e si c)

/-- One round of `sfe_ipv4_destroy_all_rules_for_dev`. -/
def destroyAllRulesForDev (si : SfeIpv4) (dev : Option (BitVec 64)) : Option Nat × SfeIpv4 :=
  match Links.walkFind (fun c => (si.conn c).allConnectionsNext)
      (fun c => dev = none ∨ dev = some (si.conn c).originalDev ∨ dev = some (si.conn c).replyDev)
      si.numConnections si.allConnectionsHead with
  | none => (none, si)
  | some c => (some c, removeConnection e si c)

end Ops

/-! ## Syncing -/

/-- `sfe_ipv4_gen_sync_sfe_ipv4_connection`. -/
def genSync (si : SfeIpv4) (c : Nat) (reason : SyncReason) (now : BitVec 64) :
    ConnectionSync × SfeIpv4 :=
  let x := si.conn c
  let original := si.cm x.originalMatch
  let reply := si.cm x.replyMatch
  let si := si.modCm x.originalMatch updateSummaryStats
  let si := si.modCm x.replyMatch updateSummaryStats
  ({ toConnKey := x.toConnKey
     srcIpXlate := x.srcIpXlate
     srcPortXlate := x.srcPortXlate
     destIpXlate := x.destIpXlate
     destPortXlate := x.destPortXlate
     srcDev := original.matchDev
     destDev := reply.matchDev
     srcTd := original.tcp
     destTd := reply.tcp
     srcNewPacketCount := original.rxPacketCount
     srcNewByteCount := original.rxByteCount
     destNewPacketCount := reply.rxPacketCount
     destNewByteCount := reply.rxByteCount
     srcPacketCount := (si.cm x.originalMatch).rxPacketCount64
     srcByteCount := (si.cm x.originalMatch).rxByteCount64
     destPacketCount := (si.cm x.replyMatch).rxPacketCount64
     destByteCount := (si.cm x.replyMatch).rxByteCount64
     reason := reason
     deltaJiffies := now - x.lastSyncJiffies },
   si.modConn c fun y => { y with lastSyncJiffies := now })

/-- The counter match of the head leaves the active list. "We must have a connection
preceding this counter match", so its `active_prev` is not looked at. -/
def dropCounterMatch (si : SfeIpv4) (b : Nat) : SfeIpv4 :=
  if !(si.cm b).active then si
  else
    let si := setActive si b false
    let si := match (si.cm b).activePrev with
      | some p => setActiveNext si p (si.cm b).activeNext
      | none => si
    let si := match (si.cm b).activeNext with
      | some n => setActivePrev si n (si.cm b).activePrev
      | none => { si with activeTail := (si.cm b).activePrev }
    setActivePrev (setActiveNext si b none) b none

/-- "Now remove the head of the active scan list". -/
def dropActiveHead (si : SfeIpv4) (a : Nat) : SfeIpv4 :=
  let si := setActive si a false
  let si := { si with activeHead := (si.cm a).activeNext }
  let si := match (si.cm a).activeNext with
    | some n => setActivePrev si n none
    | none => { si with activeTail := none }
  setActiveNext si a none

/-- One turn of the loop of `sfe_ipv4_periodic_sync`; `none` when no connection is
active. -/
def syncNext (si : SfeIpv4) (now : BitVec 64) : Option (Nat × ConnectionSync) × SfeIpv4 :=
  match si.activeHead with
  | none => (none, si)
  | some a =>
    let si := dropActiveHead (dropCounterMatch si (si.cm a).counterMatch) a
    let c := (si.cm a).connection
    let (sis, si) := genSync si c .stats now
    (some (c, sis), si)

/-! ## The debug device -/

/-- `sfe_ipv4_debug_dev_read_connections_connection`: the connection that was
printed. -/
def debugDevReadConnection (si : SfeIpv4) : Option Nat × SfeIpv4 :=
  match Links.walkFind (fun c => (si.conn c).allConnectionsNext)
      (fun c => (si.conn c).debugReadSeq < si.debugReadSeq) si.numConnections si.allConnectionsHead with
  | none => (none, si)
  | some c =>
    let si := si.modConn c fun x => { x with debugReadSeq := si.debugReadSeq }
    let si := si.modCm (si.conn c).originalMatch updateSummaryStats
    (some c, si.modCm (si.conn c).replyMatch updateSummaryStats)

/-! ## Runs -/

/-- The engine and what is around it: the objects that were allocated and not freed,
the connections that were removed and not yet flushed, and the turns the sync
timer has left. -/
structure System where
  si : SfeIpv4
  conns : List Nat
  cms : List Nat
  removed : List (Nat × SyncReason)
  quota : Nat

/-- What a step does that can be seen from outside. -/
inductive Event where
  | created (c : Nat) (sic : ConnectionCreate)
  /-- A packet was forwarded by the match at an address. -/
  | forwarded (cm : Nat)
  | synced (c : Nat) (sis : ConnectionSync)
  | debugRead (c : Nat)
  | freed (c : Nat)

/-- A packet that flushes a connection leaves that to a later step. -/
def afterRecv (s : System) (r : Verdict × SfeIpv4) : System :=
  match r.1 with
  | .flushed c _ => { s with si := r.2, removed := (c, .flush) :: s.removed }
  | _ => { s with si := r.2 }

/-- The packets a verdict forwards. -/
def Verdict.events : Verdict → List Event
  | .forwarded a _ => [.forwarded a]
  | _ => []

/-- The match that forwards the packet. -/
def Verdict.forwarder : Verdict → Option Nat
  | .forwarded a _ => some a
  | _ => none

theorem Verdict.exists_out {v : Verdict} {a : Nat} (h : v.forwarder = some a) :
    ∃ out, v = .forwarded a out := by
  cases v with
  | forwarded b out => exact ⟨out, congrArg (Verdict.forwarded · out) (Option.some.inj h)⟩
  | passed ev => cases h
  | flushed c ev => cases h

/-- A connection that was destroyed is flushed in a later step. -/
def afterDestroy (s : System) (r : Option Nat × SfeIpv4) : System :=
  match r.1 with
  | some c => { s with si := r.2, removed := (c, .destroy) :: s.removed }
  | none => s

/-- One turn of the sync timer, with `quota` turns left. -/
def syncTurn (s : System) (quota : Nat) (now : BitVec 64) : List Event × System :=
  match syncNext s.si now with
  | (none, si) => ([], { s with si := si, quota := 0 })
  | (some (c, sis), si) => ([.synced c sis], { s with si := si, quota := quota - 1 })

/-- `sfe_ipv4_flush_sfe_ipv4_connection`: the last sync message, if there is someone to
send it to, and the memory is freed. -/
def flushConnection (s : System) (c : Nat) (reason : SyncReason) (now : BitVec 64) :
    List Event × System :=
  let free := fun (si : SfeIpv4) =>
    { s with
      si := si
      conns := s.conns.erase c
      cms := (s.cms.erase (s.si.conn c).originalMatch).erase (s.si.conn c).replyMatch
      removed := s.removed.erase (c, reason) }
  if s.si.syncRuleCallback then
    let (sis, si) := genSync s.si c reason now
    ([.synced c sis, .freed c], free si)
  else ([.freed c], free s.si)

/-- The addresses of a new connection are those of no object in use. -/
def Alloc.Fresh (mem : Alloc) (s : System) : Prop :=
  mem.conn ∉ s.conns ∧ mem.original ∉ s.cms ∧ mem.reply ∉ s.cms ∧ mem.original ≠ mem.reply

/-- What a successful `sfe_ipv4_create_rule` allocates. -/
def afterCreate (s : System) (sic : ConnectionCreate) (mem : Alloc) (r : CreateRet × SfeIpv4) :
    List Event × System :=
  if r.1 = .ok then
    ([.created mem.conn sic],
      { s with
        si := r.2
        conns := mem.conn :: s.conns
        cms := mem.original :: mem.reply :: s.cms })
  else ([], { s with si := r.2 })

/-- One section under the lock, or one flush. -/
inductive Step (e : Endian) : System → List Event → System → Prop
  | create (s : System) (sic : ConnectionCreate) (mem : Alloc) (now : BitVec 64) (fresh : mem.Fresh s) :
      Step e s (afterCreate s sic mem (createRule e s.si sic (some mem) now)).1
        (afterCreate s sic mem (createRule e s.si sic (some mem) now)).2
  | createNoMemory (s : System) (sic : ConnectionCreate) (now : BitVec 64) :
      Step e s [] { s with si := (createRule e s.si sic none now).2 }
  | update (s : System) (sic : ConnectionCreate) : Step e s [] { s with si := updateRule e s.si sic }
  | mark (s : System) (k : ConnKey) (v : BitVec 32) : Step e s [] { s with si := markRule e s.si k v }
  | destroy (s : System) (k : ConnKey) : Step e s [] (afterDestroy s (destroyRule e s.si k))
  | destroyAll (s : System) (dev : Option (BitVec 64)) :
      Step e s [] (afterDestroy s (destroyAllRulesForDev e s.si dev))
  | recv (s : System) (dev : BitVec 64) (skb : Skb) :
      Step e s (recv e s.si dev skb).1.events (afterRecv s (recv e s.si dev skb))
  | flush (s : System) (c : Nat) (reason : SyncReason) (now : BitVec 64) (h : (c, reason) ∈ s.removed) :
      Step e s (flushConnection s c reason now).1 (flushConnection s c reason now).2
  | syncStart (s : System) (now : BitVec 64) (h : s.si.syncRuleCallback = true) (hq : s.quota = 0) :
      -- the first turn is in the same section
      Step e s
        (if (s.si.numConnections + 63) / 64 = 0 then []
          else (syncTurn s ((s.si.numConnections + 63) / 64) now).1)
        (if (s.si.numConnections + 63) / 64 = 0 then s
          else (syncTurn s ((s.si.numConnections + 63) / 64) now).2)
  | syncNext (s : System) (now : BitVec 64) (hq : s.quota ≠ 0) :
      Step e s (syncTurn s s.quota now).1 (syncTurn s s.quota now).2
  | debugStart (s : System) : Step e s [] { s with si := { s.si with debugReadSeq := s.si.debugReadSeq + 1 } }
  | debugRead (s : System) :
      Step e s ((debugDevReadConnection s.si).1.map Event.debugRead).toList
        { s with si := (debugDevReadConnection s.si).2 }
  | register (s : System) (callback : Bool) :
      Step e s [] { s with si := { s.si with syncRuleCallback := callback } }

/-- Any number of steps, with what was seen of them. -/
inductive Run (e : Endian) : System → List Event → System → Prop
  | refl (s : System) : Run e s [] s
  | step {s s' s'' : System} {evs evs' : List Event} : Run e s evs s' → Step e s' evs' s'' →
      Run e s (evs ++ evs') s''

/-- The module as it is loaded, over a memory that was never used. -/
def initSfe (cm : Nat → ConnectionMatch) (conn : Nat → Connection) : SfeIpv4 where
  cm := cm
  conn := conn
  activeHead := none
  activeTail := none
  allConnectionsHead := none
  allConnectionsTail := none
  numConnections := 0
  syncRuleCallback := false
  connHash := fun _ => none
  connMatchHash := fun _ => none
  debugReadSeq := 0

def initSystem (cm : Nat → ConnectionMatch) (conn : Nat → Connection) : System where
  si := initSfe cm conn
  conns := []
  cms := []
  removed := []
  quota := 0

/-- The states of the engine. -/
def Reachable (e : Endian) (s : System) : Prop :=
  ∃ cm conn evs, Run e (initSystem cm conn) evs s

end Lede.Sfe
