/-
Lede.Sfe.Packet — the packets `sfe_ipv4.c` receives: their headers, and why a
packet is not forwarded.

The fast path works on the bytes of a linear `sk_buff` that starts with the IPv4
header. It sees a frame before the IP layer does: `skb->len` is what the driver
handed up, link-layer padding included, and `tot_len` is only compared with it.

Addresses, ports and checksums stay in the byte order of the packet, as the
source keeps them; `Endian` is the byte order of the machine that loads them.
Lengths, sequence numbers and flags are read in network order.
-/
import Lede.Lib.Checksum

namespace Lede.Sfe

open Lede.Lib

/-- `enum sfe_ipv4_exception_events`. -/
inductive ExceptionEvent where
  | udpHeaderIncomplete
  | udpNoConnection
  | udpIpOptionsOrInitialFragment
  | udpSmallTtl
  | udpNeedsFragmentation
  | tcpHeaderIncomplete
  | tcpNoConnectionSlowFlags
  | tcpNoConnectionFastFlags
  | tcpIpOptionsOrInitialFragment
  | tcpSmallTtl
  | tcpNeedsFragmentation
  | tcpFlags
  | tcpSeqExceedsRightEdge
  | tcpSmallDataOffs
  | tcpBadSack
  | tcpBigDataOffs
  | tcpSeqBeforeLeftEdge
  | tcpAckExceedsRightEdge
  | tcpAckBeforeLeftEdge
  | icmpHeaderIncomplete
  | icmpUnhandledType
  | icmpIpv4HeaderIncomplete
  | icmpIpv4NonV4
  | icmpIpv4IpOptionsIncomplete
  | icmpIpv4UdpHeaderIncomplete
  | icmpIpv4TcpHeaderIncomplete
  | icmpIpv4UnhandledProtocol
  | icmpNoConnection
  | icmpFlushedConnection
  | headerIncomplete
  | badTotalLength
  | nonV4
  | nonInitialFragment
  | datagramIncomplete
  | ipOptionsIncomplete
  | unhandledProtocol
  | clonedSkbUnshareError
  deriving DecidableEq, Repr

/-- What is read of `struct sk_buff`. `skb_unshare` of a cloned packet can fail for
want of memory. -/
structure Skb where
  data : Nat → UInt8
  len : Nat
  len_lt : len < 2 ^ 32
  /-- `ip_summed == CHECKSUM_PARTIAL`. -/
  csumPartial : Bool
  /-- `skb_is_gso`. -/
  isGso : Bool
  /-- `skb_cloned`. -/
  cloned : Bool
  /-- `skb_unshare` returns a packet. -/
  unshareOk : Bool

def ipprotoIcmp : BitVec 8 := 1
def ipprotoTcp : BitVec 8 := 6
def ipprotoUdp : BitVec 8 := 17

/-! ## The IPv4 header -/

section IpHdr

variable (m : Nat → UInt8)

/-- `iph->version`. -/
def ipVersion (o : Nat) : Nat := (m o).toNat / 16

/-- `iph->ihl << 2`. -/
def ipHdrLen (o : Nat) : Nat := (m o).toNat % 16 * 4

/-- `ntohs(iph->tot_len)`. -/
def totLen : Nat := be16 m 2

/-- `ntohs(iph->frag_off)`. -/
def fragOff : Nat := be16 m 6

/-- `frag_off & IP_OFFSET`. -/
def isLaterFragment : Bool := fragOff m % 8192 ≠ 0

/-- `frag_off & IP_MF`. -/
def moreFragments : Bool := fragOff m / 8192 % 2 ≠ 0

/-- `iph->ttl`. -/
def ipTtl : Nat := (m 8).toNat

/-- `iph->protocol`, of the header at `o`. -/
def ipProtocol (o : Nat) : BitVec 8 := (m (o + 9)).toBitVec

end IpHdr

/-! ## The TCP header -/

section TcpHdr

variable (m : Nat → UInt8) (o : Nat)

/-- `ntohl(tcph->seq)`. -/
def tcpSeq : BitVec 32 := be32 m (o + 4)

/-- `ntohl(tcph->ack_seq)`. -/
def tcpAckSeq : BitVec 32 := be32 m (o + 8)

/-- `tcph->doff << 2`. -/
def tcpDataOffs : Nat := (m (o + 12)).toNat / 16 * 4

/-- `flags & (SYN | RST | FIN | ACK)` is `ACK`. -/
def tcpFastFlags : Bool := (m (o + 13)).toNat &&& 0x17 = 0x10

/-- `ntohs(tcph->window)`. -/
def tcpWindow : Nat := be16 m (o + 14)

end TcpHdr

/-- The start of the transport checksum behind the transport header at `ihl`. -/
def udpCheckOff (ihl : Nat) : Nat := ihl + 6
def tcpCheckOff (ihl : Nat) : Nat := ihl + 16

end Lede.Sfe
