/-
Lede.Sfe.Table — the connection tables of `sfe_ipv4.c`.

A connection is three objects: `struct sfe_ipv4_connection` and a
`struct sfe_ipv4_connection_match` for each direction. They lie in memory at
addresses, and four kinds of list run through them: the chains of the connection
hash, the chains of the match hash, the list of all connections and the list of
matches that forwarded a packet since they were last synced. The links are
fields of the objects, so taking an object out of a list is a few assignments to
its neighbours, and a wrong one spoils a list somewhere else.

Memory is a function from addresses; an object that was freed still has its old
fields there. An address is never `NULL`, a pointer is `none` for `NULL`.

A chain is walked until it ends. Walks here take a number of steps: a chain has
no more objects than there are connections, or twice as many for matches.
-/
import Lede.Lib.Links
import Lede.Sfe.Packet

namespace Lede.Sfe

open Lede.Lib

/-! ## Objects -/

/-- What identifies the packets of a match. A device is the address of its
`struct net_device`. -/
structure MatchKey where
  matchDev : BitVec 64
  matchProtocol : BitVec 8
  matchSrcIp : BitVec 32
  matchSrcPort : BitVec 16
  matchDestIp : BitVec 32
  matchDestPort : BitVec 16
  deriving DecidableEq, Repr

/-- `struct sfe_ipv4_tcp_connection_match`. -/
structure TcpConnectionMatch where
  winScale : BitVec 8
  maxWin : BitVec 32
  /-- The sequence number behind the last byte sent (`end`). -/
  endSeq : BitVec 32
  maxEnd : BitVec 32
  deriving DecidableEq, Repr

/-- The flag bits of a match. -/
structure MatchFlags where
  xlateSrc : Bool
  xlateDest : Bool
  noSeqCheck : Bool
  writeFastEthHdr : Bool
  writeL2Hdr : Bool
  priorityRemark : Bool
  dscpRemark : Bool
  deriving DecidableEq, Repr

/-- A MAC address, as three 16-bit words. -/
abbrev Mac := BitVec 16 × BitVec 16 × BitVec 16

/-- `struct sfe_ipv4_connection_match`. -/
structure ConnectionMatch extends MatchKey where
  next : Option Nat
  prev : Option Nat
  connection : Nat
  counterMatch : Nat
  activeNext : Option Nat
  activePrev : Option Nat
  active : Bool
  flags : MatchFlags
  flowAccel : Bool
  tcp : TcpConnectionMatch
  rxPacketCount : BitVec 32
  rxByteCount : BitVec 32
  xlateSrcIp : BitVec 32
  xlateSrcPort : BitVec 16
  xlateSrcCsumAdjustment : BitVec 16
  xlateSrcPartialCsumAdjustment : BitVec 16
  xlateDestIp : BitVec 32
  xlateDestPort : BitVec 16
  xlateDestCsumAdjustment : BitVec 16
  xlateDestPartialCsumAdjustment : BitVec 16
  priority : BitVec 32
  dscp : BitVec 32
  xmitDev : BitVec 64
  xmitDevMtu : BitVec 16
  xmitDestMac : Mac
  xmitSrcMac : Mac
  rxPacketCount64 : BitVec 64
  rxByteCount64 : BitVec 64

/-- The 5-tuple of a connection, before translation. The protocol is an `int`. -/
structure ConnKey where
  protocol : BitVec 32
  srcIp : BitVec 32
  srcPort : BitVec 16
  destIp : BitVec 32
  destPort : BitVec 16
  deriving DecidableEq, Repr

/-- `struct sfe_ipv4_connection`. -/
structure Connection extends ConnKey where
  next : Option Nat
  prev : Option Nat
  srcIpXlate : BitVec 32
  srcPortXlate : BitVec 16
  destIpXlate : BitVec 32
  destPortXlate : BitVec 16
  originalMatch : Nat
  originalDev : BitVec 64
  replyMatch : Nat
  replyDev : BitVec 64
  lastSyncJiffies : BitVec 64
  allConnectionsNext : Option Nat
  allConnectionsPrev : Option Nat
  mark : BitVec 32
  debugReadSeq : BitVec 32

/-- `struct sfe_ipv4` and the memory of the objects. A connection takes a few
hundred bytes, so `num_connections` does not wrap. -/
structure SfeIpv4 where
  cm : Nat → ConnectionMatch
  conn : Nat → Connection
  activeHead : Option Nat
  activeTail : Option Nat
  allConnectionsHead : Option Nat
  allConnectionsTail : Option Nat
  numConnections : Nat
  /-- A sync callback is registered. -/
  syncRuleCallback : Bool
  connHash : Nat → Option Nat
  connMatchHash : Nat → Option Nat
  debugReadSeq : BitVec 32

namespace SfeIpv4

/-- An assignment to fields of the match at `a`. -/
def modCm (si : SfeIpv4) (a : Nat) (f : ConnectionMatch → ConnectionMatch) : SfeIpv4 :=
  { si with cm := fun b => if b = a then f (si.cm b) else si.cm b }

/-- An assignment to fields of the connection at `c`. -/
def modConn (si : SfeIpv4) (c : Nat) (f : Connection → Connection) : SfeIpv4 :=
  { si with conn := fun b => if b = c then f (si.conn b) else si.conn b }

end SfeIpv4

/-! ## Hashes -/

/-- `ntohl`. -/
def ntohl (e : Endian) (v : BitVec 32) : BitVec 32 :=
  match e with
  | .big => v
  | .little => v.extractLsb' 0 8 ++ v.extractLsb' 8 8 ++ v.extractLsb' 16 8 ++ v.extractLsb' 24 8

/-- `ntohs`. -/
def ntohs (e : Endian) (v : BitVec 16) : BitVec 16 :=
  match e with
  | .big => v
  | .little => v.extractLsb' 0 8 ++ v.extractLsb' 8 8

/-- `((hash >> SHIFT) ^ hash) & MASK`. -/
def hashIndex (hash : BitVec 32) : Nat := ((hash >>> 12 ^^^ hash) &&& 0xfff#32).toNat

/-- `sfe_ipv4_get_connection_match_hash`. -/
def getConnectionMatchHash (e : Endian) (k : MatchKey) : Nat :=
  hashIndex (k.matchDev.setWidth 32 ^^^ ntohl e (k.matchSrcIp ^^^ k.matchDestIp)
    ^^^ k.matchProtocol.setWidth 32 ^^^ (ntohs e (k.matchSrcPort ^^^ k.matchDestPort)).setWidth 32)

/-- `sfe_ipv4_get_connection_hash`; the protocol is cut to a `u8`. -/
def getConnectionHash (e : Endian) (k : ConnKey) : Nat :=
  hashIndex (ntohl e (k.srcIp ^^^ k.destIp) ^^^ (k.protocol.setWidth 8).setWidth 32
    ^^^ (ntohs e (k.srcPort ^^^ k.destPort)).setWidth 32)

section Ops

variable (e : Endian)

/-! ## The match hash -/

/-- The most objects a chain of matches can have. -/
def matchFuel (si : SfeIpv4) : Nat := 2 * si.numConnections

/-- `si->conn_match_hash[i] = v`. -/
def setMatchHead (si : SfeIpv4) (i : Nat) (v : Option Nat) : SfeIpv4 :=
  { si with connMatchHash := fun j => if j = i then v else si.connMatchHash j }

/-- `cm->next = v`. -/
def setMatchNext (si : SfeIpv4) (a : Nat) (v : Option Nat) : SfeIpv4 :=
  si.modCm a fun m => { m with next := v }

/-- `cm->prev = v`. -/
def setMatchPrev (si : SfeIpv4) (a : Nat) (v : Option Nat) : SfeIpv4 :=
  si.modCm a fun m => { m with prev := v }

/-- `sfe_ipv4_insert_sfe_ipv4_connection_match`. -/
def insertConnectionMatch (si : SfeIpv4) (a : Nat) : SfeIpv4 :=
  let i := getConnectionMatchHash e (si.cm a).toMatchKey
  let prevHead := si.connMatchHash i
  let si := setMatchPrev si a none
  let si := match prevHead with
    | some h => setMatchPrev si h (some a)
    | none => si
  let si := setMatchNext si a prevHead
  setMatchHead si i (some a)

/-- "Unlink the connection match entry from the hash". -/
def unlinkMatch (si : SfeIpv4) (a : Nat) : SfeIpv4 :=
  let si := match (si.cm a).prev with
    | some p => setMatchNext si p (si.cm a).next
    | none => setMatchHead si (getConnectionMatchHash e (si.cm a).toMatchKey) (si.cm a).next
  match (si.cm a).next with
  | some n => setMatchPrev si n (si.cm a).prev
  | none => si

/-- `sfe_ipv4_find_sfe_ipv4_connection_match`: a match that is not at the head of
its chain is moved there. -/
def findConnectionMatch (si : SfeIpv4) (k : MatchKey) : Option Nat × SfeIpv4 :=
  let i := getConnectionMatchHash e k
  match si.connMatchHash i with
  | none => (none, si)
  | some head =>
    if (si.cm head).toMatchKey = k then (some head, si)
    else
      match Links.walkFind (fun a => (si.cm a).next) (fun a => (si.cm a).toMatchKey = k)
          (matchFuel si) (si.cm head).next with
      | none => (none, si)
      | some a =>
        let si := match (si.cm a).next with
          | some n => setMatchPrev si n (si.cm a).prev
          | none => si
        let si := match (si.cm a).prev with
          | some p => setMatchNext si p (si.cm a).next
          | none => si
        let si := setMatchPrev si a none
        let si := setMatchNext si a (some head)
        let si := setMatchPrev si head (some a)
        (some a, setMatchHead si i (some a))

/-! ## The active list -/

/-- `cm->active_next = v`. -/
def setActiveNext (si : SfeIpv4) (a : Nat) (v : Option Nat) : SfeIpv4 :=
  si.modCm a fun m => { m with activeNext := v }

/-- `cm->active_prev = v`. -/
def setActivePrev (si : SfeIpv4) (a : Nat) (v : Option Nat) : SfeIpv4 :=
  si.modCm a fun m => { m with activePrev := v }

/-- `cm->active = v`. -/
def setActive (si : SfeIpv4) (a : Nat) (v : Bool) : SfeIpv4 :=
  si.modCm a fun m => { m with active := v }

/-- "Insert ourselves at the tail of the current list". -/
def activate (si : SfeIpv4) (a : Nat) : SfeIpv4 :=
  if (si.cm a).active then si
  else
    let si := setActive si a true
    let tail := si.activeTail
    let si := setActivePrev si a tail
    let si := match tail with
      | some t => setActiveNext si t (some a)
      | none => { si with activeHead := some a }
    { si with activeTail := some a }

/-- The part of `sfe_ipv4_remove_sfe_ipv4_connection_match` for a match in the
active list. -/
def unlinkActive (si : SfeIpv4) (a : Nat) : SfeIpv4 :=
  let si := match (si.cm a).activePrev with
    | some p => setActiveNext si p (si.cm a).activeNext
    | none => { si with activeHead := (si.cm a).activeNext }
  match (si.cm a).activeNext with
  | some n => setActivePrev si n (si.cm a).activePrev
  | none => { si with activeTail := (si.cm a).activePrev }

/-- `sfe_ipv4_remove_sfe_ipv4_connection_match`. -/
def removeConnectionMatch (si : SfeIpv4) (a : Nat) : SfeIpv4 :=
  let si := unlinkMatch e si a
  if (si.cm a).active then unlinkActive si a else si

/-! ## The connection hash and the list of all connections -/

/-- `c->next = v`. -/
def setConnNext (si : SfeIpv4) (c : Nat) (v : Option Nat) : SfeIpv4 :=
  si.modConn c fun x => { x with next := v }

/-- `c->prev = v`. -/
def setConnPrev (si : SfeIpv4) (c : Nat) (v : Option Nat) : SfeIpv4 :=
  si.modConn c fun x => { x with prev := v }

/-- `c->all_connections_next = v`. -/
def setAllNext (si : SfeIpv4) (c : Nat) (v : Option Nat) : SfeIpv4 :=
  si.modConn c fun x => { x with allConnectionsNext := v }

/-- `c->all_connections_prev = v`. -/
def setAllPrev (si : SfeIpv4) (c : Nat) (v : Option Nat) : SfeIpv4 :=
  si.modConn c fun x => { x with allConnectionsPrev := v }

/-- `si->conn_hash[i] = v`. -/
def setConnHead (si : SfeIpv4) (i : Nat) (v : Option Nat) : SfeIpv4 :=
  { si with connHash := fun j => if j = i then v else si.connHash j }

/-- `sfe_ipv4_find_sfe_ipv4_connection`. -/
def findConnection (si : SfeIpv4) (k : ConnKey) : Option Nat :=
  match si.connHash (getConnectionHash e k) with
  | none => none
  | some head =>
    if (si.conn head).toConnKey = k then some head
    else
      Links.walkFind (fun c => (si.conn c).next) (fun c => (si.conn c).toConnKey = k)
        si.numConnections (si.conn head).next

/-- "Insert entry into the connection hash". -/
def linkConn (si : SfeIpv4) (c : Nat) : SfeIpv4 :=
  let i := getConnectionHash e (si.conn c).toConnKey
  let prevHead := si.connHash i
  let si := setConnPrev si c none
  let si := match prevHead with
    | some h => setConnPrev si h (some c)
    | none => si
  let si := setConnNext si c prevHead
  setConnHead si i (some c)

/-- "Insert entry into the all connections list". -/
def linkAll (si : SfeIpv4) (c : Nat) : SfeIpv4 :=
  let si := match si.allConnectionsTail with
    | some t => setAllNext (setAllPrev si c (some t)) t (some c)
    | none => { setAllPrev si c none with allConnectionsHead := some c }
  let si := setAllNext { si with allConnectionsTail := some c } c none
  { si with numConnections := si.numConnections + 1 }

/-- `sfe_ipv4_insert_sfe_ipv4_connection`. -/
def insertConnection (si : SfeIpv4) (c : Nat) : SfeIpv4 :=
  let si := linkAll (linkConn e si c) c
  let si := insertConnectionMatch e si (si.conn c).originalMatch
  insertConnectionMatch e si (si.conn c).replyMatch

/-- "Unlink the connection". -/
def unlinkConn (si : SfeIpv4) (c : Nat) : SfeIpv4 :=
  let si := match (si.conn c).prev with
    | some p => setConnNext si p (si.conn c).next
    | none => setConnHead si (getConnectionHash e (si.conn c).toConnKey) (si.conn c).next
  match (si.conn c).next with
  | some n => setConnPrev si n (si.conn c).prev
  | none => si

/-- "Unlink connection from all_connections list". -/
def unlinkAll (si : SfeIpv4) (c : Nat) : SfeIpv4 :=
  let si := match (si.conn c).allConnectionsPrev with
    | some p => setAllNext si p (si.conn c).allConnectionsNext
    | none => { si with allConnectionsHead := (si.conn c).allConnectionsNext }
  let si := match (si.conn c).allConnectionsNext with
    | some n => setAllPrev si n (si.conn c).allConnectionsPrev
    | none => { si with allConnectionsTail := (si.conn c).allConnectionsPrev }
  { si with numConnections := si.numConnections - 1 }

/-- `sfe_ipv4_remove_sfe_ipv4_connection`. -/
def removeConnection (si : SfeIpv4) (c : Nat) : SfeIpv4 :=
  let si := removeConnectionMatch e si (si.conn c).replyMatch
  let si := removeConnectionMatch e si (si.conn c).originalMatch
  unlinkAll (unlinkConn e si c) c

end Ops

/-! ## Statistics -/

/-- `sfe_ipv4_connection_match_update_summary_stats`. -/
def updateSummaryStats (m : ConnectionMatch) : ConnectionMatch :=
  { m with
    rxPacketCount64 := m.rxPacketCount64 + m.rxPacketCount.setWidth 64
    rxPacketCount := 0
    rxByteCount64 := m.rxByteCount64 + m.rxByteCount.setWidth 64
    rxByteCount := 0 }

end Lede.Sfe
