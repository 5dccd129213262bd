/-
Lede.Sfe.Recv — `sfe_ipv4_recv`: what the fast path does with a packet.

A packet is looked up by the device it came in on and its addresses, protocol and
ports. The match it finds says what to do with it; some packets end the fast
path of their connection, which is then removed (`Verdict.flushed`) and flushed
once the lock is released (`Lede.Sfe.Rule`). The work under the lock is one step.

UDP and TCP share all but their checks. The checks are functions of the match,
its counter match and the packet (`udpDecide`, `tcpDecide`), apart from what the
tables make of their result.
-/
import Lede.Sfe.Table

namespace Lede.Sfe

open Lede.Lib

/-! ## Translation -/

/-- The adjustment of a transport checksum for one address and port, as
`sfe_ipv4_connection_match_compute_translations` folds it. -/
def csumAdjustment (ip xlateIp : BitVec 32) (port xlatePort : BitVec 16) : BitVec 16 :=
  let xlateIp := ~~~xlateIp
  let xlatePort := ~~~xlatePort
  let adj := ip.toNat / 65536 + ip.toNat % 65536 + port.toNat
    + xlateIp.toNat / 65536 + xlateIp.toNat % 65536 + xlatePort.toNat
  BitVec.ofNat 16 (fold16 (fold16 adj))

/-- The adjustment of the seed of a partial checksum for one address. -/
def partialCsumAdjustment (ip xlateIp : BitVec 32) : BitVec 16 :=
  let adj := ~~~ip + xlateIp
  let adj := if adj < xlateIp then adj + 1 else adj
  BitVec.ofNat 16 (fold16 (fold16 adj.toNat))

/-- `sfe_ipv4_connection_match_compute_translations`. -/
def computeTranslations (cm : ConnectionMatch) : ConnectionMatch :=
  { cm with
    xlateSrcCsumAdjustment :=
      if cm.flags.xlateSrc then
        csumAdjustment cm.matchSrcIp cm.xlateSrcIp cm.matchSrcPort cm.xlateSrcPort
      else cm.xlateSrcCsumAdjustment
    xlateDestCsumAdjustment :=
      if cm.flags.xlateDest then
        csumAdjustment cm.matchDestIp cm.xlateDestIp cm.matchDestPort cm.xlateDestPort
      else cm.xlateDestCsumAdjustment
    xlateSrcPartialCsumAdjustment :=
      if cm.flags.xlateSrc then partialCsumAdjustment cm.matchSrcIp cm.xlateSrcIp
      else cm.xlateSrcPartialCsumAdjustment
    xlateDestPartialCsumAdjustment :=
      if cm.flags.xlateDest then partialCsumAdjustment cm.matchDestIp cm.xlateDestIp
      else cm.xlateDestPartialCsumAdjustment }

section Rewrite

variable (e : Endian)

/-- The checksum field at `checkOff` with `adj` added. UDP leaves a checksum of zero
alone: it stands for none. -/
def adjustCheck (udp : Bool) (checkOff : Nat) (adj : BitVec 16) (m : Nat → UInt8) : Nat → UInt8 :=
  let csum := ld16 e m checkOff
  if udp && csum == 0 then m
  else st16 e m checkOff (BitVec.ofNat 16 (fold16 (csum.toNat + adj.toNat)))

/-- "Do we have to perform translations of the source address/port?" -/
def translateSrc (cm : ConnectionMatch) (csumPartial udp : Bool) (ihl checkOff : Nat)
    (m : Nat → UInt8) : Nat → UInt8 :=
  if !cm.flags.xlateSrc then m
  else
    adjustCheck e udp checkOff
      (if csumPartial then cm.xlateSrcPartialCsumAdjustment else cm.xlateSrcCsumAdjustment)
      (st16 e (st32 e m 12 cm.xlateSrcIp) ihl cm.xlateSrcPort)

/-- "Do we have to perform translations of the destination address/port?" -/
def translateDest (cm : ConnectionMatch) (csumPartial udp : Bool) (ihl checkOff : Nat)
    (m : Nat → UInt8) : Nat → UInt8 :=
  if !cm.flags.xlateDest then m
  else
    adjustCheck e udp checkOff
      (if csumPartial then cm.xlateDestPartialCsumAdjustment else cm.xlateDestCsumAdjustment)
      (st16 e (st32 e m 16 cm.xlateDestIp) (ihl + 2) cm.xlateDestPort)

/-- `sfe_ipv4_gen_ip_csum`: the header with its checksum cleared, and the checksum. -/
def genIpCsum (m : Nat → UInt8) : BitVec 16 :=
  let i := fun j => (ld16 e (st16 e m 10 0) (2 * j)).toNat
  let sum := i 0 + i 1 + i 2 + i 3 + i 4 + i 5 + i 6 + i 7 + i 8 + i 9
  BitVec.ofNat 16 (fold16 (fold16 sum)) ^^^ 0xffff#16

/-- The store of a byte. -/
def st8 (m : Nat → UInt8) (a : Nat) (v : UInt8) : Nat → UInt8 := fun i => if i = a then v else m i

/-- DSCP and TTL. -/
def remark (cm : ConnectionMatch) (m : Nat → UInt8) : Nat → UInt8 :=
  let m := if cm.flags.dscpRemark then
      st8 m 1 (m 1 &&& 3 ||| UInt8.ofBitVec (cm.dscp.setWidth 8))
    else m
  st8 m 8 (m 8 - 1)

/-- The packet as it is sent: DSCP, TTL, the two translations and the header
checksum. -/
def rewritePacket (cm : ConnectionMatch) (csumPartial udp : Bool) (ihl checkOff : Nat)
    (m : Nat → UInt8) : Nat → UInt8 :=
  let m := translateDest e cm csumPartial udp ihl checkOff
    (translateSrc e cm csumPartial udp ihl checkOff (remark cm m))
  st16 e m 10 (genIpCsum e m)

end Rewrite

/-- The link-layer header a packet leaves with: none on a point-to-point device,
the fast Ethernet header, or that of `dev_hard_header`. -/
inductive L2Hdr where
  | none
  | fastEth (dest src : Mac)
  | devHardHeader (dest src : Mac) (len : Nat)
  deriving DecidableEq, Repr

/-- A packet handed to `dev_queue_xmit`. -/
structure Out where
  data : Nat → UInt8
  len : Nat
  dev : BitVec 64
  l2 : L2Hdr
  priority : Option (BitVec 32)
  mark : BitVec 32

/-- The link-layer header and the fields of the packet from the match. -/
def emit (cm : ConnectionMatch) (mark : BitVec 32) (data : Nat → UInt8) (len : Nat) : Out where
  data := data
  len := len
  dev := cm.xmitDev
  l2 :=
    if !cm.flags.writeL2Hdr then .none
    else if cm.flags.writeFastEthHdr then .fastEth cm.xmitDestMac cm.xmitSrcMac
    else .devHardHeader cm.xmitDestMac cm.xmitSrcMac len
  priority := if cm.flags.priorityRemark then some cm.priority else none
  mark := mark

/-! ## TCP options -/

/-- The right edges of `n` SACK blocks, the first at `a`: the largest one, as an
unsigned number, or `sack` if that is larger. -/
def sackRightEdges (m : Nat → UInt8) : Nat → Nat → BitVec 32 → BitVec 32
  | 0, _, sack => sack
  | n + 1, a, sack =>
    let sackRe := be32 m a
    sackRightEdges m n (a + 8) (if sack < sackRe then sackRe else sack)

/-- The option loop of `sfe_ipv4_process_tcp_option_sack` over the header at `o`,
with `length` bytes of it read and at most `n` options left. `none` stands for
false, else the value of `*ack`. -/
def sackLoop (m : Nat → UInt8) (o dataOffs : Nat) : Nat → Nat → BitVec 32 → Option (BitVec 32)
  | 0, _, ack => some ack
  | n + 1, length, ack =>
    if dataOffs ≤ length then some ack
    else
      let kind := (m (o + length)).toNat
      let size := (m (o + length + 1)).toNat
      -- TCPOPT_NOP, TCPOPT_SACK, TCPOPT_EOL, and any other option
      if kind = 1 then sackLoop m o dataOffs n (length + 1) ack
      else if kind = 5 then
        if size < 10 ∨ (size - 2) % 8 ≠ 0 ∨ dataOffs - length < size then none
        else
          let sack := sackRightEdges m ((size - 2) / 8) (o + length + 6) 0
          sackLoop m o dataOffs n (length + size) (if ack < sack then sack else ack)
      else if kind = 0 then some ack
      else if size < 2 then none
      else sackLoop m o dataOffs n (length + size) ack

/-- "Ignore processing if TCP packet has only TIMESTAMP option". -/
def timestampOnly (m : Nat → UInt8) (o dataOffs : Nat) : Bool :=
  dataOffs == 32 && (m (o + 20)).toNat == 1 && (m (o + 21)).toNat == 1 && (m (o + 22)).toNat == 8 &&
    (m (o + 23)).toNat == 10

/-- `sfe_ipv4_process_tcp_option_sack`. -/
def processTcpOptionSack (m : Nat → UInt8) (o dataOffs : Nat) (ack : BitVec 32) : Option (BitVec 32) :=
  if timestampOnly m o dataOffs then some ack else sackLoop m o dataOffs (dataOffs - 20) 20 ack

/-! ## TCP windows -/

/-- `SFE_IPV4_TCP_MAX_ACK_WINDOW`. -/
def tcpMaxAckWindow : BitVec 32 := 65520

/-- `sfe_ipv4_recv_tcp` once the acknowledged number is known: the checks of the
windows, and the tracked state they leave. `t` is the state of the match, `ct`
that of the counter match. -/
def trackWindow (seq ack sack : BitVec 32) (payload window : Nat) (t ct : TcpConnectionMatch) :
    Except ExceptionEvent (TcpConnectionMatch × TcpConnectionMatch) :=
  let endSeq := seq + BitVec.ofNat 32 payload
  if (endSeq - (t.endSeq - ct.maxWin - 1)).toInt < 0 then .error .tcpSeqBeforeLeftEdge
  else if 0 < (sack - (ct.endSeq + 1)).toInt then .error .tcpAckExceedsRightEdge
  else if (sack - (ct.endSeq - t.maxWin - tcpMaxAckWindow - 1)).toInt < 0 then
    .error .tcpAckBeforeLeftEdge
  else
    let scaledWin := (BitVec.ofNat 32 window <<< t.winScale.toNat) + (sack - ack)
    let maxEnd := sack + scaledWin
    .ok ({ t with
           maxWin := if t.maxWin < scaledWin then scaledWin else t.maxWin
           endSeq := if 0 ≤ (endSeq - t.endSeq).toInt then endSeq else t.endSeq },
         { ct with maxEnd := if 0 ≤ (maxEnd - ct.maxEnd).toInt then maxEnd else ct.maxEnd })

/-- "Are we doing sequence number checking?" -/
def trackSequence (m : Nat → UInt8) (o len : Nat) (t ct : TcpConnectionMatch) :
    Except ExceptionEvent (TcpConnectionMatch × TcpConnectionMatch) :=
  if 0 < (tcpSeq m o - (t.maxEnd + 1)).toInt then .error .tcpSeqExceedsRightEdge
  else if tcpDataOffs m o < 20 then .error .tcpSmallDataOffs
  else
    match processTcpOptionSack m o (tcpDataOffs m o) (tcpAckSeq m o) with
    | none => .error .tcpBadSack
    | some sack =>
      if len < tcpDataOffs m o + 20 then .error .tcpBigDataOffs
      else
        trackWindow (tcpSeq m o) (tcpAckSeq m o) sack (len - (tcpDataOffs m o + 20)) (tcpWindow m o)
          t ct

/-! ## Checks -/

/-- What the checks make of a packet: the connection ends its fast path, or the
packet alone takes the slow path, or it is forwarded. -/
inductive Decision where
  | flush (ev : ExceptionEvent)
  | pass (ev : Option ExceptionEvent)
  | forward
  deriving DecidableEq, Repr

/-- A cloned packet that cannot be unshared is not forwarded. -/
def unshare (skb : Skb) : Decision :=
  if skb.cloned && !skb.unshareOk then .pass (some .clonedSkbUnshareError) else .forward

/-- The checks of `sfe_ipv4_recv_udp` on a packet whose match is `cm`. -/
def udpDecide (cm : ConnectionMatch) (skb : Skb) (flushOnFind : Bool) : Decision :=
  if flushOnFind then .flush .udpIpOptionsOrInitialFragment
  else if !cm.flowAccel then .pass none
  else if ipTtl skb.data < 2 then .flush .udpSmallTtl
  else if skb.len > cm.xmitDevMtu.toNat then .flush .udpNeedsFragmentation
  else unshare skb

/-- The checks of `sfe_ipv4_recv_tcp` on a packet whose match is `cm`, and the tracked
states of the two directions. -/
def tcpDecide (cm ct : ConnectionMatch) (skb : Skb) (ihl : Nat) (flushOnFind : Bool) :
    Decision × TcpConnectionMatch × TcpConnectionMatch :=
  if flushOnFind then (.flush .tcpIpOptionsOrInitialFragment, cm.tcp, ct.tcp)
  else if !cm.flowAccel then (.pass none, cm.tcp, ct.tcp)
  else if ipTtl skb.data < 2 then (.flush .tcpSmallTtl, cm.tcp, ct.tcp)
  else if skb.len > cm.xmitDevMtu.toNat ∧ !skb.isGso then (.flush .tcpNeedsFragmentation, cm.tcp, ct.tcp)
  else if !tcpFastFlags skb.data ihl then (.flush .tcpFlags, cm.tcp, ct.tcp)
  else if cm.flags.noSeqCheck then (unshare skb, cm.tcp, ct.tcp)
  else
    match trackSequence skb.data ihl skb.len cm.tcp ct.tcp with
    | .error ev => (.flush ev, cm.tcp, ct.tcp)
    | .ok (t, t') => (unshare skb, t, t')

/-! ## Receiving -/

/-- The result of `sfe_ipv4_recv`: 1 for a packet that was forwarded, by the match at
an address, and 0 otherwise. A connection that is flushed has been removed. -/
inductive Verdict where
  | forwarded (cm : Nat) (out : Out)
  | passed (ev : Option ExceptionEvent)
  | flushed (c : Nat) (ev : ExceptionEvent)

section Recv

variable (e : Endian)

/-- "Update traffic stats". -/
def countPacket (len : Nat) (m : ConnectionMatch) : ConnectionMatch :=
  { m with
    rxPacketCount := m.rxPacketCount + 1
    rxByteCount := m.rxByteCount + BitVec.ofNat 32 len }

/-- What a decision does to the tables and the packet. -/
def conclude (si : SfeIpv4) (a : Nat) (skb : Skb) (udp : Bool) (ihl checkOff : Nat) :
    Decision → Verdict × SfeIpv4
  | .flush ev => (.flushed (si.cm a).connection ev, removeConnection e si (si.cm a).connection)
  | .pass ev => (.passed ev, si)
  | .forward =>
    let data := rewritePacket e (si.cm a) skb.csumPartial udp ihl checkOff skb.data
    (.forwarded a (emit (si.cm a) (si.conn (si.cm a).connection).mark data skb.len),
      activate (si.modCm a (countPacket skb.len)) a)

/-- The key of a packet with the transport header at `ihl`. -/
def packetKey (dev : BitVec 64) (protocol : BitVec 8) (m : Nat → UInt8) (ihl : Nat) : MatchKey where
  matchDev := dev
  matchProtocol := protocol
  matchSrcIp := ld32 e m 12
  matchSrcPort := ld16 e m ihl
  matchDestIp := ld32 e m 16
  matchDestPort := ld16 e m (ihl + 2)

/-- `sfe_ipv4_recv_udp`. -/
def recvUdp (si : SfeIpv4) (dev : BitVec 64) (skb : Skb) (ihl : Nat) (flushOnFind : Bool) :
    Verdict × SfeIpv4 :=
  if skb.len < 8 + ihl then (.passed (some .udpHeaderIncomplete), si)
  else
    match findConnectionMatch e si (packetKey e dev ipprotoUdp skb.data ihl) with
    | (none, si) => (.passed (some .udpNoConnection), si)
    | (some a, si) =>
      conclude e si a skb true ihl (udpCheckOff ihl) (udpDecide (si.cm a) skb flushOnFind)

/-- The tracked states of a match and its counter match. -/
def setTcp (si : SfeIpv4) (a b : Nat) (t t' : TcpConnectionMatch) : SfeIpv4 :=
  (si.modCm a fun m => { m with tcp := t }).modCm b fun m => { m with tcp := t' }

/-- `sfe_ipv4_recv_tcp`. -/
def recvTcp (si : SfeIpv4) (dev : BitVec 64) (skb : Skb) (ihl : Nat) (flushOnFind : Bool) :
    Verdict × SfeIpv4 :=
  if skb.len < 20 + ihl then (.passed (some .tcpHeaderIncomplete), si)
  else
    match findConnectionMatch e si (packetKey e dev ipprotoTcp skb.data ihl) with
    | (none, si) =>
      (.passed (some (if tcpFastFlags skb.data ihl then .tcpNoConnectionFastFlags
        else .tcpNoConnectionSlowFlags)), si)
    | (some a, si) =>
      let b := (si.cm a).counterMatch
      let (dec, t, t') := tcpDecide (si.cm a) (si.cm b) skb ihl flushOnFind
      conclude e (setTcp si a b t t') a skb false ihl (tcpCheckOff ihl) dec

/-- The embedded header of an ICMP error: the key of the packet that was answered,
with source and destination exchanged. -/
def icmpKey (dev : BitVec 64) (skb : Skb) (ihl : Nat) : Except ExceptionEvent MatchKey :=
  let m := skb.data
  let iph := ihl + 8
  let icmpIhl := ipHdrLen m iph
  if skb.len < 8 + ihl then .error .icmpHeaderIncomplete
  -- ICMP_DEST_UNREACH and ICMP_TIME_EXCEEDED
  else if (m ihl).toNat ≠ 3 ∧ (m ihl).toNat ≠ 11 then .error .icmpUnhandledType
  else if skb.len < 8 + ihl + 20 then .error .icmpIpv4HeaderIncomplete
  else if ipVersion m iph ≠ 4 then .error .icmpIpv4NonV4
  else if skb.len < 8 + ihl + icmpIhl then .error .icmpIpv4IpOptionsIncomplete
  else if ipProtocol m iph = ipprotoUdp ∧ skb.len < 8 + ihl + icmpIhl + 8 then
    .error .icmpIpv4UdpHeaderIncomplete
  else if ipProtocol m iph = ipprotoTcp ∧ skb.len < 8 + ihl + icmpIhl + 8 then
    .error .icmpIpv4TcpHeaderIncomplete
  else if ipProtocol m iph ≠ ipprotoUdp ∧ ipProtocol m iph ≠ ipprotoTcp then
    .error .icmpIpv4UnhandledProtocol
  else
    .ok { matchDev := dev
          matchProtocol := ipProtocol m iph
          matchSrcIp := ld32 e m (iph + 16)
          matchSrcPort := ld16 e m (iph + icmpIhl + 2)
          matchDestIp := ld32 e m (iph + 12)
          matchDestPort := ld16 e m (iph + icmpIhl) }

/-- `sfe_ipv4_recv_icmp`. -/
def recvIcmp (si : SfeIpv4) (dev : BitVec 64) (skb : Skb) (ihl : Nat) : Verdict × SfeIpv4 :=
  match icmpKey e dev skb ihl with
  | .error ev => (.passed (some ev), si)
  | .ok k =>
    match findConnectionMatch e si k with
    | (none, si) => (.passed (some .icmpNoConnection), si)
    | (some a, si) =>
      (.flushed (si.cm a).connection .icmpFlushedConnection, removeConnection e si (si.cm a).connection)

/-- `sfe_ipv4_recv`. -/
def recv (si : SfeIpv4) (dev : BitVec 64) (skb : Skb) : Verdict × SfeIpv4 :=
  let m := skb.data
  let ihl := ipHdrLen m 0
  if skb.len < 20 then (.passed (some .headerIncomplete), si)
  else if totLen m < 20 then (.passed (some .badTotalLength), si)
  else if ipVersion m 0 ≠ 4 then (.passed (some .nonV4), si)
  else if totLen m > skb.len then (.passed (some .datagramIncomplete), si)
  else if isLaterFragment m then (.passed (some .nonInitialFragment), si)
  else if ihl ≠ 20 ∧ skb.len < ihl then (.passed (some .ipOptionsIncomplete), si)
  else
    let flushOnFind := moreFragments m || ihl != 20
    if ipProtocol m 0 = ipprotoUdp then recvUdp e si dev skb ihl flushOnFind
    else if ipProtocol m 0 = ipprotoTcp then recvTcp e si dev skb ihl flushOnFind
    else if ipProtocol m 0 = ipprotoIcmp then recvIcmp e si dev skb ihl
    else (.passed (some .unhandledProtocol), si)

end Recv

end Lede.Sfe
