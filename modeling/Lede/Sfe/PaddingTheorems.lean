/-
Lede.Sfe.PaddingTheorems — what link-layer padding does.

A frame can be longer than the IPv4 datagram in it. The fast path compares
`tot_len` with the length of the frame once and then works with the length of the
frame: for the headers, the MTU, the end of a TCP segment and the byte counters.
So the bytes behind a datagram matter, unless the datagram is dropped or flushes
its connection before any of these (`PaddingBlind`).
-/
import Lede.Sfe.KeyTheorems
import Lede.Sfe.StatTheorems

namespace Lede.Sfe

open Lede.Lib

/-! ## Frames -/

/-- The frame carries the datagram `d`. -/
structure Frame (d : Nat → UInt8) (f : Skb) : Prop where
  totLen_eq : totLen f.data = totLen d
  data : ∀ i < totLen d, f.data i = d i
  len : totLen d ≤ f.len

/-- What else is read of a frame. -/
structure SameMeta (f g : Skb) : Prop where
  csumPartial : g.csumPartial = f.csumPartial
  isGso : g.isGso = f.isGso
  cloned : g.cloned = f.cloned
  unshareOk : g.unshareOk = f.unshareOk

/-- What becomes of a packet, but for the bytes that are sent and the exception that is
counted. -/
inductive Outcome where
  | forwarded (cm : Nat)
  | passed
  | flushed (c : Nat)
  deriving DecidableEq, Repr

def Verdict.outcome : Verdict → Outcome
  | .forwarded a _ => .forwarded a
  | .passed _ => .passed
  | .flushed c _ => .flushed c

/-- The outcome of a packet and the state it leaves. -/
def outcomeOf (r : Verdict × SfeIpv4) : Outcome × SfeIpv4 := (r.1.outcome, r.2)

/-! ## Datagrams that hide their padding -/

/-- `flush_on_find`. -/
def flushOnFind (d : Nat → UInt8) : Bool := moreFragments d || ipHdrLen d 0 != 20

/-- An ICMP message that is not handled as far as it is there, or the whole of what is
read of it is there. -/
def IcmpBlind (d : Nat → UInt8) : Prop :=
  let ihl := ipHdrLen d 0
  (ihl < totLen d ∧ (d ihl).toNat ≠ 3 ∧ (d ihl).toNat ≠ 11) ∨
  (ihl + 8 < totLen d ∧ ipVersion d (ihl + 8) ≠ 4) ∨
  (ihl + 17 < totLen d ∧ ipProtocol d (ihl + 8) ≠ ipprotoUdp ∧ ipProtocol d (ihl + 8) ≠ ipprotoTcp) ∨
  (ihl + 28 ≤ totLen d ∧ ihl + 16 + ipHdrLen d (ihl + 8) ≤ totLen d)

/-- A datagram that is dropped whatever the length of its frame, or has its transport
header and flushes its connection. -/
def PaddingBlind (d : Nat → UInt8) : Prop :=
  totLen d < 20 ∨ ipVersion d 0 ≠ 4 ∨ isLaterFragment d = true ∨
  (ipProtocol d 0 = ipprotoUdp ∧ ipHdrLen d 0 + 8 ≤ totLen d ∧ (flushOnFind d = true ∨ ipTtl d < 2)) ∨
  (ipProtocol d 0 = ipprotoTcp ∧ ipHdrLen d 0 + 20 ≤ totLen d ∧
    (flushOnFind d = true ∨ ipTtl d < 2 ∨ tcpFastFlags d (ipHdrLen d 0) = false)) ∨
  (ipProtocol d 0 = ipprotoIcmp ∧ IcmpBlind d) ∨
  (ipProtocol d 0 ≠ ipprotoUdp ∧ ipProtocol d 0 ≠ ipprotoTcp ∧ ipProtocol d 0 ≠ ipprotoIcmp)

section Header

variable {d : Nat → UInt8} {f : Skb}

/-- The header of a datagram, read off the frame. -/
structure SameHeader (d : Nat → UInt8) (f : Skb) : Prop where
  hdrLen : ipHdrLen f.data 0 = ipHdrLen d 0
  version : ipVersion f.data 0 = ipVersion d 0
  later : isLaterFragment f.data = isLaterFragment d
  flush : flushOnFind f.data = flushOnFind d
  ttl : ipTtl f.data = ipTtl d
  protocol : ipProtocol f.data 0 = ipProtocol d 0

theorem Frame.header (h : Frame d f) (hlen : 20 ≤ totLen d) : SameHeader d f := by
  have hbyte : ∀ i < 20, f.data i = d i := fun i hi => h.data i (by omega)
  have hihl : ipHdrLen f.data 0 = ipHdrLen d 0 := by
    unfold ipHdrLen
    rw [hbyte 0 (by omega)]
  have hfrag : fragOff f.data = fragOff d := by
    unfold fragOff be16
    rw [hbyte 6 (by omega), hbyte (6 + 1) (by omega)]
  constructor
  case hdrLen => exact hihl
  case version =>
    unfold ipVersion
    rw [hbyte 0 (by omega)]
  case later =>
    unfold isLaterFragment
    rw [hfrag]
  case flush =>
    unfold flushOnFind moreFragments
    rw [hfrag, hihl]
  case ttl =>
    unfold ipTtl
    rw [hbyte 8 (by omega)]
  case protocol =>
    unfold ipProtocol
    rw [hbyte (0 + 9) (by omega)]

/-- The datagram is not dropped at once. -/
structure Accepted (d : Nat → UInt8) : Prop where
  len : 20 ≤ totLen d
  version : ipVersion d 0 = 4
  whole : isLaterFragment d = false

/-- `sfe_ipv4_recv` of a frame, in terms of the datagram. -/
theorem Frame.recv_eq (h : Frame d f) (hd : Accepted d) (e : Endian) (si : SfeIpv4) (dev : BitVec 64) :
    recv e si dev f =
      if ipHdrLen d 0 ≠ 20 ∧ f.len < ipHdrLen d 0 then (.passed (some .ipOptionsIncomplete), si)
      else if ipProtocol d 0 = ipprotoUdp then recvUdp e si dev f (ipHdrLen d 0) (flushOnFind d)
      else if ipProtocol d 0 = ipprotoTcp then recvTcp e si dev f (ipHdrLen d 0) (flushOnFind d)
      else if ipProtocol d 0 = ipprotoIcmp then recvIcmp e si dev f (ipHdrLen d 0)
      else (.passed (some .unhandledProtocol), si) := by
  have hlen := hd.len
  have hversion := hd.version
  have hh := h.header hlen
  have hf := h.len
  have hflush : (moreFragments f.data || ipHdrLen f.data 0 != 20) = flushOnFind d := hh.flush
  unfold recv
  dsimp only
  rw [hflush, hh.hdrLen, hh.version, hh.later, hh.protocol, h.totLen_eq, if_neg (by omega), if_neg (by omega),
    if_neg (by simpa using hversion), if_neg (by omega), hd.whole, if_neg (by decide)]

theorem Frame.recv_udp (h : Frame d f) (hd : Accepted d) (hp : ipProtocol d 0 = ipprotoUdp)
    (hihl : ipHdrLen d 0 ≤ f.len) (e : Endian) (si : SfeIpv4) (dev : BitVec 64) :
    recv e si dev f = recvUdp e si dev f (ipHdrLen d 0) (flushOnFind d) := by
  have hoptions : ¬ (ipHdrLen d 0 ≠ 20 ∧ f.len < ipHdrLen d 0) := by omega
  rw [h.recv_eq hd, if_neg hoptions, if_pos hp]

theorem Frame.recv_tcp (h : Frame d f) (hd : Accepted d) (hp : ipProtocol d 0 = ipprotoTcp)
    (hihl : ipHdrLen d 0 ≤ f.len) (e : Endian) (si : SfeIpv4) (dev : BitVec 64) :
    recv e si dev f = recvTcp e si dev f (ipHdrLen d 0) (flushOnFind d) := by
  have hoptions : ¬ (ipHdrLen d 0 ≠ 20 ∧ f.len < ipHdrLen d 0) := by omega
  have hudp : ¬ ipProtocol d 0 = ipprotoUdp := by
    rw [hp]
    decide
  rw [h.recv_eq hd, if_neg hoptions, if_neg hudp, if_pos hp]

theorem Frame.recv_icmp (h : Frame d f) (hd : Accepted d) (hp : ipProtocol d 0 = ipprotoIcmp)
    (hihl : ipHdrLen d 0 ≤ f.len) (e : Endian) (si : SfeIpv4) (dev : BitVec 64) :
    recv e si dev f = recvIcmp e si dev f (ipHdrLen d 0) := by
  have hoptions : ¬ (ipHdrLen d 0 ≠ 20 ∧ f.len < ipHdrLen d 0) := by omega
  have hudp : ¬ ipProtocol d 0 = ipprotoUdp := by
    rw [hp]
    decide
  have htcp : ¬ ipProtocol d 0 = ipprotoTcp := by
    rw [hp]
    decide
  rw [h.recv_eq hd, if_neg hoptions, if_neg hudp, if_neg htcp, if_pos hp]

/-- Options that are not all in the frame, and a protocol that is not handled. -/
theorem Frame.recv_incomplete (h : Frame d f) (hd : Accepted d)
    (hdrop : f.len < ipHdrLen d 0 ∨
      ipProtocol d 0 ≠ ipprotoUdp ∧ ipProtocol d 0 ≠ ipprotoTcp ∧ ipProtocol d 0 ≠ ipprotoIcmp)
    (e : Endian) (si : SfeIpv4) (dev : BitVec 64) : outcomeOf (recv e si dev f) = (.passed, si) := by
  have hlen := hd.len
  have hf := h.len
  rw [h.recv_eq hd]
  by_cases hshort : f.len < ipHdrLen d 0
  · have hoptions : ipHdrLen d 0 ≠ 20 ∧ f.len < ipHdrLen d 0 := by omega
    rw [if_pos hoptions]
    rfl
  · obtain ⟨hudp, htcp, hicmp⟩ := hdrop.resolve_left hshort
    have hoptions : ¬ (ipHdrLen d 0 ≠ 20 ∧ f.len < ipHdrLen d 0) := by omega
    rw [if_neg hoptions, if_neg hudp, if_neg htcp, if_neg hicmp]
    rfl

/-- A frame that is dropped early. -/
theorem Frame.recv_dropped (h : Frame d f)
    (hdrop : totLen d < 20 ∨ ipVersion d 0 ≠ 4 ∨ isLaterFragment d = true) (e : Endian) (si : SfeIpv4)
    (dev : BitVec 64) : outcomeOf (recv e si dev f) = (.passed, si) := by
  by_cases hlen : totLen d < 20
  · unfold recv
    dsimp only
    rw [h.totLen_eq]
    by_cases hshort : f.len < 20
    · rw [if_pos hshort]
      rfl
    · rw [if_neg hshort, if_pos hlen]
      rfl
  · have hh := h.header (by omega)
    have hf := h.len
    unfold recv
    dsimp only
    rw [h.totLen_eq, if_neg (by omega), if_neg hlen, hh.version, hh.later]
    by_cases hversion : ipVersion d 0 ≠ 4
    · rw [if_pos hversion]
      rfl
    · rw [if_neg hversion, if_neg (by omega)]
      have hlater : isLaterFragment d = true := by
        rcases hdrop with h | h | h
        · exact absurd h hlen
        · exact absurd h (by simpa using hversion)
        · exact h
      rw [if_pos hlater]
      rfl

end Header

section Blind

variable {d : Nat → UInt8} {f g : Skb} {e : Endian} {si : SfeIpv4} {dev : BitVec 64}

/-- The key of a datagram that has its ports. -/
theorem Frame.packetKey_eq (h : Frame d f) (dev : BitVec 64) (hlen : 20 ≤ totLen d) {ihl : Nat} (hports : ihl + 4 ≤ totLen d)
    (protocol : BitVec 8) : packetKey e dev protocol f.data ihl = packetKey e dev protocol d ihl := by
  have h12 : ld32 e f.data 12 = ld32 e d 12 := ld32_congr fun i hi => h.data _ (by omega)
  have h16 : ld32 e f.data 16 = ld32 e d 16 := ld32_congr fun i hi => h.data _ (by omega)
  have hsrc : ld16 e f.data ihl = ld16 e d ihl := ld16_congr (h.data _ (by omega)) (h.data _ (by omega))
  have hdest : ld16 e f.data (ihl + 2) = ld16 e d (ihl + 2) :=
    ld16_congr (h.data _ (by omega)) (h.data _ (by omega))
  unfold packetKey
  rw [h12, h16, hsrc, hdest]

/-- What is flushed is flushed for whatever reason. -/
theorem outcomeOf_flush (a : Nat) (f : Skb) (udp : Bool) (ihl off : Nat) (ev : ExceptionEvent) :
    outcomeOf (conclude e si a f udp ihl off (.flush ev))
      = (.flushed (si.cm a).connection, removeConnection e si (si.cm a).connection) := rfl

theorem outcomeOf_pass (a : Nat) (f : Skb) (udp : Bool) (ihl off : Nat) (ev : Option ExceptionEvent) :
    outcomeOf (conclude e si a f udp ihl off (.pass ev)) = (.passed, si) := rfl

/-- The checks of UDP stop before the length. -/
theorem udpDecide_blind (cm : ConnectionMatch) {flush : Bool} (h : flush = true ∨ ipTtl f.data < 2) :
    (∃ ev, udpDecide cm f flush = .flush ev) ∧ (flush = true ∨ cm.flowAccel = true) ∨
      udpDecide cm f flush = .pass none ∧ flush = false ∧ cm.flowAccel = false := by
  unfold udpDecide
  cases flush with
  | true => exact Or.inl ⟨⟨_, rfl⟩, Or.inl rfl⟩
  | false =>
    have httl : ipTtl f.data < 2 := h.resolve_left (by decide)
    cases haccel : cm.flowAccel with
    | false => exact Or.inr ⟨rfl, rfl, rfl⟩
    | true =>
      refine Or.inl ⟨⟨.udpSmallTtl, ?_⟩, Or.inr rfl⟩
      rw [if_neg (by decide), if_neg (by decide), if_pos httl]

/-- Those of TCP flush, whatever the length. -/
theorem tcpDecide_blind (cm ct : ConnectionMatch) (ihl : Nat) {flush : Bool}
    (h : flush = true ∨ ipTtl f.data < 2 ∨ tcpFastFlags f.data ihl = false) :
    (∃ ev, tcpDecide cm ct f ihl flush = (.flush ev, cm.tcp, ct.tcp)) ∧ (flush = true ∨ cm.flowAccel = true) ∨
      tcpDecide cm ct f ihl flush = (.pass none, cm.tcp, ct.tcp) ∧ flush = false ∧ cm.flowAccel = false := by
  unfold tcpDecide
  cases flush with
  | true => exact Or.inl ⟨⟨_, rfl⟩, Or.inl rfl⟩
  | false =>
    cases haccel : cm.flowAccel with
    | false => exact Or.inr ⟨rfl, rfl, rfl⟩
    | true =>
      refine Or.inl ⟨?_, Or.inr rfl⟩
      rw [if_neg (by decide), if_neg (by decide)]
      split
      · exact ⟨_, rfl⟩
      rename_i httl
      split
      · exact ⟨_, rfl⟩
      have hslow : tcpFastFlags f.data ihl = false := (h.resolve_left (by decide)).resolve_left httl
      rw [hslow]
      exact ⟨_, rfl⟩

theorem recvUdp_found {ihl a : Nat} {flush : Bool} {q : SfeIpv4} (hlen : 8 + ihl ≤ f.len)
    (hfind : findConnectionMatch e si (packetKey e dev ipprotoUdp f.data ihl) = (some a, q)) :
    recvUdp e si dev f ihl flush
      = conclude e q a f true ihl (udpCheckOff ihl) (udpDecide (q.cm a) f flush) := by
  unfold recvUdp
  rw [if_neg (by omega), hfind]

theorem recvTcp_found {ihl a : Nat} {flush : Bool} {q : SfeIpv4} {dec : Decision} {t t' : TcpConnectionMatch}
    (hlen : 20 + ihl ≤ f.len)
    (hfind : findConnectionMatch e si (packetKey e dev ipprotoTcp f.data ihl) = (some a, q))
    (hdec : tcpDecide (q.cm a) (q.cm (q.cm a).counterMatch) f ihl flush = (dec, t, t')) :
    recvTcp e si dev f ihl flush
      = conclude e (setTcp q a (q.cm a).counterMatch t t') a f false ihl (tcpCheckOff ihl) dec := by
  unfold recvTcp
  rw [if_neg (by omega), hfind]
  dsimp only
  rw [hdec]

theorem recvUdp_blind {ihl : Nat} {flush : Bool} (hf : 8 + ihl ≤ f.len) (hg : 8 + ihl ≤ g.len)
    (hkey : packetKey e dev ipprotoUdp g.data ihl = packetKey e dev ipprotoUdp f.data ihl)
    (hblind : flush = true ∨ ipTtl f.data < 2) (httl : ipTtl g.data = ipTtl f.data) :
    outcomeOf (recvUdp e si dev g ihl flush) = outcomeOf (recvUdp e si dev f ihl flush) := by
  have hblind' : flush = true ∨ ipTtl g.data < 2 := by
    rw [httl]
    exact hblind
  cases hfind : findConnectionMatch e si (packetKey e dev ipprotoUdp f.data ihl) with
  | mk r q =>
    cases r with
    | none =>
      unfold recvUdp
      rw [if_neg (by omega : ¬ g.len < 8 + ihl), if_neg (by omega : ¬ f.len < 8 + ihl), hkey, hfind]
    | some a =>
      have hfind' := hfind
      rw [← hkey] at hfind'
      rw [recvUdp_found hf hfind, recvUdp_found hg hfind']
      rcases udpDecide_blind (q.cm a) hblind with ⟨⟨ev, hdec⟩, hwhy⟩ | ⟨hdec, hno, hoff⟩
      · rcases udpDecide_blind (q.cm a) hblind' with ⟨⟨ev', hdec'⟩, -⟩ | ⟨-, hno, hoff⟩
        · rw [hdec, hdec', outcomeOf_flush, outcomeOf_flush]
        · rw [hno, hoff] at hwhy
          simp at hwhy
      · rcases udpDecide_blind (q.cm a) hblind' with ⟨-, hwhy⟩ | ⟨hdec', -, -⟩
        · rw [hno, hoff] at hwhy
          simp at hwhy
        · rw [hdec, hdec', outcomeOf_pass, outcomeOf_pass]

theorem recvTcp_blind {ihl : Nat} {flush : Bool} (hf : 20 + ihl ≤ f.len) (hg : 20 + ihl ≤ g.len)
    (hkey : packetKey e dev ipprotoTcp g.data ihl = packetKey e dev ipprotoTcp f.data ihl)
    (hblind : flush = true ∨ ipTtl f.data < 2 ∨ tcpFastFlags f.data ihl = false)
    (httl : ipTtl g.data = ipTtl f.data) (hflags : tcpFastFlags g.data ihl = tcpFastFlags f.data ihl) :
    outcomeOf (recvTcp e si dev g ihl flush) = outcomeOf (recvTcp e si dev f ihl flush) := by
  have hblind' : flush = true ∨ ipTtl g.data < 2 ∨ tcpFastFlags g.data ihl = false := by
    rw [httl, hflags]
    exact hblind
  cases hfind : findConnectionMatch e si (packetKey e dev ipprotoTcp f.data ihl) with
  | mk r q =>
    cases r with
    | none =>
      unfold recvTcp
      rw [if_neg (by omega : ¬ g.len < 20 + ihl), if_neg (by omega : ¬ f.len < 20 + ihl), hkey, hfind]
      rfl
    | some a =>
      have hfind' := hfind
      rw [← hkey] at hfind'
      rcases tcpDecide_blind (q.cm a) (q.cm (q.cm a).counterMatch) ihl hblind with
        ⟨⟨ev, hdec⟩, hwhy⟩ | ⟨hdec, hno, hoff⟩
      · rcases tcpDecide_blind (q.cm a) (q.cm (q.cm a).counterMatch) ihl hblind' with
          ⟨⟨ev', hdec'⟩, -⟩ | ⟨-, hno, hoff⟩
        · rw [recvTcp_found hf hfind hdec, recvTcp_found hg hfind' hdec', outcomeOf_flush, outcomeOf_flush]
        · rw [hno, hoff] at hwhy
          simp at hwhy
      · rcases tcpDecide_blind (q.cm a) (q.cm (q.cm a).counterMatch) ihl hblind' with
          ⟨-, hwhy⟩ | ⟨hdec', -, -⟩
        · rw [hno, hoff] at hwhy
          simp at hwhy
        · rw [recvTcp_found hf hfind hdec, recvTcp_found hg hfind' hdec', outcomeOf_pass, outcomeOf_pass]

end Blind

/-! ## ICMP errors -/

/-- The key of the packet that an ICMP error answers, read off its embedded header. -/
def answeredKey (e : Endian) (dev : BitVec 64) (m : Nat → UInt8) (ihl : Nat) : MatchKey where
  matchDev := dev
  matchProtocol := ipProtocol m (ihl + 8)
  matchSrcIp := ld32 e m (ihl + 8 + 16)
  matchSrcPort := ld16 e m (ihl + 8 + ipHdrLen m (ihl + 8) + 2)
  matchDestIp := ld32 e m (ihl + 8 + 12)
  matchDestPort := ld16 e m (ihl + 8 + ipHdrLen m (ihl + 8))

/-- An ICMP error with all that is read of it. -/
structure IcmpHandled (m : Nat → UInt8) (len ihl : Nat) : Prop where
  type : (m ihl).toNat = 3 ∨ (m ihl).toNat = 11
  header : ihl + 28 ≤ len
  version : ipVersion m (ihl + 8) = 4
  protocol : ipProtocol m (ihl + 8) = ipprotoUdp ∨ ipProtocol m (ihl + 8) = ipprotoTcp
  ports : ihl + 16 + ipHdrLen m (ihl + 8) ≤ len

section Icmp

variable {d : Nat → UInt8} {f g : Skb} {e : Endian} {si : SfeIpv4} {dev : BitVec 64} {ihl : Nat}

theorem icmpKey_handled (dev : BitVec 64) (h : IcmpHandled f.data f.len ihl) :
    icmpKey e dev f ihl = .ok (answeredKey e dev f.data ihl) := by
  obtain ⟨htype, hheader, hversion, hprotocol, hports⟩ := h
  unfold icmpKey
  dsimp only
  rw [if_neg (by omega), if_neg (by omega), if_neg (by omega), if_neg (by omega), if_neg (by omega),
    if_neg (by omega), if_neg (by omega), if_neg (by
      rintro ⟨h₁, h₂⟩
      exact hprotocol.elim h₁ h₂)]
  rfl

theorem icmpKey_unhandled (dev : BitVec 64) (h : ¬ IcmpHandled f.data f.len ihl) : ∃ ev, icmpKey e dev f ihl = .error ev := by
  unfold icmpKey
  dsimp only
  by_cases hicmp : f.len < 8 + ihl
  · exact ⟨_, if_pos hicmp⟩
  rw [if_neg hicmp]
  by_cases htype : (f.data ihl).toNat ≠ 3 ∧ (f.data ihl).toNat ≠ 11
  · exact ⟨_, if_pos htype⟩
  rw [if_neg htype]
  by_cases hheader : f.len < 8 + ihl + 20
  · exact ⟨_, if_pos hheader⟩
  rw [if_neg hheader]
  by_cases hversion : ipVersion f.data (ihl + 8) ≠ 4
  · exact ⟨_, if_pos hversion⟩
  rw [if_neg hversion]
  by_cases hoptions : f.len < 8 + ihl + ipHdrLen f.data (ihl + 8)
  · exact ⟨_, if_pos hoptions⟩
  rw [if_neg hoptions]
  by_cases hudp : ipProtocol f.data (ihl + 8) = ipprotoUdp ∧
      f.len < 8 + ihl + ipHdrLen f.data (ihl + 8) + 8
  · exact ⟨_, if_pos hudp⟩
  rw [if_neg hudp]
  by_cases htcp : ipProtocol f.data (ihl + 8) = ipprotoTcp ∧
      f.len < 8 + ihl + ipHdrLen f.data (ihl + 8) + 8
  · exact ⟨_, if_pos htcp⟩
  rw [if_neg htcp]
  by_cases hprotocol : ipProtocol f.data (ihl + 8) ≠ ipprotoUdp ∧
      ipProtocol f.data (ihl + 8) ≠ ipprotoTcp
  · exact ⟨_, if_pos hprotocol⟩
  have hproto : ipProtocol f.data (ihl + 8) = ipprotoUdp ∨ ipProtocol f.data (ihl + 8) = ipprotoTcp := by
    by_contra hneither
    exact hprotocol (not_or.mp hneither)
  refine absurd ⟨by omega, by omega, by omega, hproto, ?_⟩ h
  rcases hproto with hp | hp
  · have hlen : ¬ f.len < 8 + ihl + ipHdrLen f.data (ihl + 8) + 8 := fun h => hudp ⟨hp, h⟩
    omega
  · have hlen : ¬ f.len < 8 + ihl + ipHdrLen f.data (ihl + 8) + 8 := fun h => htcp ⟨hp, h⟩
    omega

theorem recvIcmp_unhandled (h : ¬ IcmpHandled f.data f.len ihl) :
    outcomeOf (recvIcmp e si dev f ihl) = (.passed, si) := by
  obtain ⟨ev, hkey⟩ := icmpKey_unhandled (e := e) dev h
  unfold recvIcmp
  rw [hkey]
  rfl

theorem recvIcmp_congr (hf : IcmpHandled f.data f.len ihl) (hg : IcmpHandled g.data g.len ihl)
    (hkey : answeredKey e dev g.data ihl = answeredKey e dev f.data ihl) :
    recvIcmp e si dev g ihl = recvIcmp e si dev f ihl := by
  unfold recvIcmp
  rw [icmpKey_handled dev hf, icmpKey_handled dev hg, hkey]

/-- The embedded header of a datagram, read off the frame. -/
theorem Frame.answeredKey_eq (h : Frame d f) (dev : BitVec 64) (hheader : ihl + 28 ≤ totLen d)
    (hports : ihl + 16 + ipHdrLen d (ihl + 8) ≤ totLen d) :
    ipHdrLen f.data (ihl + 8) = ipHdrLen d (ihl + 8) ∧ answeredKey e dev f.data ihl = answeredKey e dev d ihl := by
  have hhdr : ipHdrLen f.data (ihl + 8) = ipHdrLen d (ihl + 8) := by
    unfold ipHdrLen
    rw [h.data _ (by omega)]
  have hprotocol : ipProtocol f.data (ihl + 8) = ipProtocol d (ihl + 8) := by
    unfold ipProtocol
    rw [h.data _ (by omega)]
  refine ⟨hhdr, ?_⟩
  unfold answeredKey
  rw [hhdr, hprotocol, ld32_congr fun i hi => h.data _ (by omega), ld32_congr fun i hi => h.data _ (by omega),
    ld16_congr (h.data _ (by omega)) (h.data _ (by omega)),
    ld16_congr (h.data _ (by omega)) (h.data _ (by omega))]

theorem Frame.icmpHandled_iff (h : Frame d f) (hheader : ihl + 28 ≤ totLen d)
    (hports : ihl + 16 + ipHdrLen d (ihl + 8) ≤ totLen d) :
    IcmpHandled f.data f.len ihl ↔ IcmpHandled d (totLen d) ihl := by
  have hlen := h.len
  obtain ⟨hhdr, -⟩ := h.answeredKey_eq (e := .big) 0 hheader hports
  have htype : f.data ihl = d ihl := h.data _ (by omega)
  have hversion : ipVersion f.data (ihl + 8) = ipVersion d (ihl + 8) := by
    unfold ipVersion
    rw [h.data _ (by omega)]
  have hprotocol : ipProtocol f.data (ihl + 8) = ipProtocol d (ihl + 8) := by
    unfold ipProtocol
    rw [h.data _ (by omega)]
  constructor
  · rintro ⟨h₁, h₂, h₃, h₄, h₅⟩
    exact ⟨htype ▸ h₁, hheader, hversion ▸ h₃, hprotocol ▸ h₄, hports⟩
  · rintro ⟨h₁, h₂, h₃, h₄, h₅⟩
    refine ⟨htype ▸ h₁, by omega, hversion ▸ h₃, hprotocol ▸ h₄, ?_⟩
    rw [hhdr]
    omega

/-- What is there of an ICMP error can show that it is not handled. -/
theorem Frame.icmp_unhandled (h : Frame d f) (hihl : ihl = ipHdrLen d 0) (hblind : IcmpBlind d)
    (hshort : ¬ (ihl + 28 ≤ totLen d ∧ ihl + 16 + ipHdrLen d (ihl + 8) ≤ totLen d)) :
    ¬ IcmpHandled f.data f.len ihl := by
  rintro ⟨htype, -, hversion, hprotocol, -⟩
  unfold IcmpBlind at hblind
  dsimp only at hblind
  rw [← hihl] at hblind
  rcases hblind with ⟨hlt, h₁⟩ | ⟨hlt, h₁⟩ | ⟨hlt, h₁⟩ | h₁
  · rw [h.data _ hlt] at htype
    omega
  · unfold ipVersion at hversion h₁
    rw [h.data _ hlt] at hversion
    exact h₁ hversion
  · unfold ipProtocol at hprotocol h₁
    rw [h.data _ (by omega)] at hprotocol
    exact hprotocol.elim h₁.1 h₁.2
  · exact hshort h₁

end Icmp

/-! ## A datagram that hides its padding -/

section Blind

variable {d : Nat → UInt8} {f g : Skb}

theorem outcomeOf_recv_blind (hblind : PaddingBlind d) (hf : Frame d f) (hg : Frame d g) (e : Endian)
    (si : SfeIpv4) (dev : BitVec 64) : outcomeOf (recv e si dev g) = outcomeOf (recv e si dev f) := by
  by_cases hdrop : totLen d < 20 ∨ ipVersion d 0 ≠ 4 ∨ isLaterFragment d = true
  · rw [hf.recv_dropped hdrop, hg.recv_dropped hdrop]
  have hd : Accepted d := by
    refine ⟨?_, ?_, ?_⟩
    · by_contra h
      exact hdrop (Or.inl (by omega))
    · by_contra h
      exact hdrop (Or.inr (Or.inl h))
    · by_contra h
      exact hdrop (Or.inr (Or.inr (by simpa using h)))
  have hlen := hd.len
  have hfl := hf.len
  have hgl := hg.len
  have hfh := hf.header hlen
  have hgh := hg.header hlen
  have hkey : ∀ protocol, ipHdrLen d 0 + 4 ≤ totLen d →
      packetKey e dev protocol g.data (ipHdrLen d 0) = packetKey e dev protocol f.data (ipHdrLen d 0) :=
    fun protocol h => (hg.packetKey_eq dev hlen h protocol).trans (hf.packetKey_eq dev hlen h protocol).symm
  rcases hblind with h | h | h | ⟨hp, hhdr, hwhy⟩ | ⟨hp, hhdr, hwhy⟩ | ⟨hp, hicmp⟩ | hother
  · exact absurd (Or.inl h) hdrop
  · exact absurd (Or.inr (Or.inl h)) hdrop
  · exact absurd (Or.inr (Or.inr h)) hdrop
  · rw [hf.recv_udp hd hp (by omega), hg.recv_udp hd hp (by omega)]
    exact recvUdp_blind (by omega) (by omega) (hkey _ (by omega)) (hfh.ttl ▸ hwhy) (hgh.ttl.trans hfh.ttl.symm)
  · have hflags : ∀ {q : Skb}, Frame d q → tcpFastFlags q.data (ipHdrLen d 0) = tcpFastFlags d (ipHdrLen d 0) := by
      intro q hq
      unfold tcpFastFlags
      rw [hq.data _ (by omega)]
    rw [hf.recv_tcp hd hp (by omega), hg.recv_tcp hd hp (by omega)]
    refine recvTcp_blind (by omega) (by omega) (hkey _ (by omega)) ?_ (hgh.ttl.trans hfh.ttl.symm)
      ((hflags hg).trans (hflags hf).symm)
    rw [hfh.ttl, hflags hf]
    exact hwhy
  · by_cases hthere : ipHdrLen d 0 + 28 ≤ totLen d ∧ ipHdrLen d 0 + 16 + ipHdrLen d (ipHdrLen d 0 + 8) ≤ totLen d
    · rw [hf.recv_icmp hd hp (by omega), hg.recv_icmp hd hp (by omega)]
      by_cases hhandled : IcmpHandled d (totLen d) (ipHdrLen d 0)
      · have hfi := (hf.icmpHandled_iff hthere.1 hthere.2).mpr hhandled
        have hgi := (hg.icmpHandled_iff hthere.1 hthere.2).mpr hhandled
        rw [recvIcmp_congr hfi hgi
          ((hg.answeredKey_eq dev hthere.1 hthere.2).2.trans (hf.answeredKey_eq dev hthere.1 hthere.2).2.symm)]
      · rw [recvIcmp_unhandled fun h => hhandled ((hf.icmpHandled_iff hthere.1 hthere.2).mp h),
          recvIcmp_unhandled fun h => hhandled ((hg.icmpHandled_iff hthere.1 hthere.2).mp h)]
    · have hpass : ∀ {q : Skb}, Frame d q → outcomeOf (recv e si dev q) = (.passed, si) := by
        intro q hq
        by_cases hshort : q.len < ipHdrLen d 0
        · exact hq.recv_incomplete hd (Or.inl hshort) e si dev
        · rw [hq.recv_icmp hd hp (by omega)]
          exact recvIcmp_unhandled (hq.icmp_unhandled rfl hicmp hthere)
      rw [hpass hf, hpass hg]
  · rw [hf.recv_incomplete hd (Or.inr hother), hg.recv_incomplete hd (Or.inr hother)]

end Blind

/-! ## Datagrams that do not -/

theorem totLen_lt (m : Nat → UInt8) : totLen m < 65536 := by
  have h₀ := (m 2).toNat_lt
  have h₁ := (m (2 + 1)).toNat_lt
  unfold totLen be16
  omega

/-- The datagram alone. -/
def bare (d : Nat → UInt8) : Skb where
  data := d
  len := totLen d
  len_lt := Nat.lt_trans (totLen_lt d) (by decide)
  csumPartial := false
  isGso := false
  cloned := false
  unshareOk := true

/-- The datagram with 1 to 256 bytes behind it. -/
def padded (d : Nat → UInt8) (n : Fin 256) (tail : Nat → UInt8) : Skb where
  data := fun i => if i < totLen d then d i else tail i
  len := totLen d + n + 1
  len_lt := by
    have hlt := totLen_lt d
    have hn := n.isLt
    omega
  csumPartial := false
  isGso := false
  cloned := false
  unshareOk := true

/-- A rule for the packets of a key, between devices with a given MTU. -/
def probeRule (k : MatchKey) (mtu : BitVec 16) : ConnectionCreate :=
  { snatRule (k.matchProtocol.setWidth 32) k.matchSrcIp k.matchSrcPort k.matchSrcIp k.matchSrcPort with
    destIp := k.matchDestIp
    destPort := k.matchDestPort
    destIpXlate := k.matchDestIp
    destPortXlate := k.matchDestPort
    srcDev := ethDevice k.matchDev
    noSeqCheck := true
    srcMtu := mtu.setWidth 32
    destMtu := mtu.setWidth 32 }

/-- The engine with this rule alone. -/
def probe (e : Endian) (k : MatchKey) (mtu : BitVec 16) : System := createAt e zeroSystem (probeRule k mtu) 1 1 2

section Probe

variable {e : Endian} {k : MatchKey} {mtu : BitVec 16} {d : Nat → UInt8}

theorem fresh_probe : Alloc.Fresh ⟨1, 1, 2⟩ zeroSystem := by
  simp [Alloc.Fresh, zeroSystem, initSystem]

theorem reachable_probe (e : Endian) (k : MatchKey) (mtu : BitVec 16) : Reachable e (probe e k mtu) :=
  reachable_create (reachable_zeroSystem e) (probeRule k mtu) fresh_probe

theorem created_probe (e : Endian) (k : MatchKey) (mtu : BitVec 16) : Created e zeroSystem (probe e k mtu) (probeRule k mtu) ⟨1, 1, 2⟩ 0 :=
  created_createAt fresh_probe rfl rfl rfl

/-- What a match of the rule says about the length of a packet. -/
structure Probing (k : MatchKey) (mtu : BitVec 16) (cm : ConnectionMatch) : Prop where
  flowAccel : cm.flowAccel = true
  xmitDevMtu : cm.xmitDevMtu = mtu
  noSeqCheck : k.matchProtocol = ipprotoTcp → cm.flags.noSeqCheck = true

theorem Probing.unlinked {cm cm' : ConnectionMatch} (h : Probing k mtu cm)
    (heq : unlinked cm' = unlinked cm) : Probing k mtu cm' := by
  have haccel := congrArg ConnectionMatch.flowAccel heq
  have hmtu := congrArg ConnectionMatch.xmitDevMtu heq
  have hflags := congrArg (fun m : ConnectionMatch => m.flags.noSeqCheck) heq
  exact ⟨haccel.trans h.flowAccel, hmtu.trans h.xmitDevMtu, fun hp => hflags.trans (h.noSeqCheck hp)⟩

theorem setWidth_setWidth_16 (x : BitVec 16) : (x.setWidth 32).setWidth 16 = x := by
  apply BitVec.eq_of_toNat_eq
  have hx := x.isLt
  simp only [BitVec.toNat_setWidth]
  omega

theorem setWidth_setWidth_8 (x : BitVec 8) : (x.setWidth 32).setWidth 8 = x := by
  apply BitVec.eq_of_toNat_eq
  have hx := x.isLt
  simp only [BitVec.toNat_setWidth]
  omega

theorem probing_new (cm : ConnectionMatch) :
    Probing k mtu (computeTranslations (newOriginalMatch cm (probeRule k mtu) 1 2)) ∧
      Probing k mtu (computeTranslations (newReplyMatch cm (probeRule k mtu) 1 1)) := by
  have hseq : k.matchProtocol = ipprotoTcp →
      (decide ((probeRule k mtu).protocol = protocolTcp) && (probeRule k mtu).noSeqCheck) = true := by
    intro hp
    have hprotocol : (probeRule k mtu).protocol = protocolTcp := by
      change k.matchProtocol.setWidth 32 = protocolTcp
      rw [hp]
      rfl
    rw [hprotocol]
    rfl
  exact ⟨⟨rfl, setWidth_setWidth_16 mtu, hseq⟩, ⟨rfl, setWidth_setWidth_16 mtu, hseq⟩⟩

/-- A packet of the key finds a match of the rule. -/
theorem probe_found (e : Endian) (k : MatchKey) (mtu : BitVec 16) : ∃ b q, findConnectionMatch e (probe e k mtu).si k = (some b, q) ∧ Probing k mtu (q.cm b) := by
  have hnew := created_probe e k mtu
  have hw₀ := reachable_wellFormed (reachable_zeroSystem e)
  have hw := reachable_wellFormed (reachable_probe e k mtu)
  have hkey : ((probe e k mtu).si.cm 1).toMatchKey = k := by
    have hcore := congrArg ConnectionMatch.toMatchKey hnew.original_eq
    have hprotocol := setWidth_setWidth_8 k.matchProtocol
    refine hcore.trans ?_
    change originalKey (probeRule k mtu) = k
    unfold originalKey
    change (⟨k.matchDev, (k.matchProtocol.setWidth 32).setWidth 8, k.matchSrcIp, k.matchSrcPort, k.matchDestIp,
      k.matchDestPort⟩ : MatchKey) = k
    rw [hprotocol]
  obtain ⟨b, hb⟩ := hw.find_of_live ((hnew.liveMatch hw₀ 1).mpr (Or.inr (Or.inl rfl)))
  rw [hkey] at hb
  have hlive := (hw.find_some hb).1
  have hboth : b = 1 ∨ b = 2 := by
    rcases (hnew.liveMatch hw₀ b).mp hlive with ⟨c, hc, -⟩ | h
    · cases hc.1
    · exact h
  have hfill : Probing k mtu ((fillConnection zeroSystem.si (probeRule k mtu) ⟨1, 1, 2⟩ 0).cm b) := by
    rcases hboth with rfl | rfl
    · exact (probing_new _).1
    · exact (probing_new _).2
  have hadd : (probe e k mtu).si = addConnection e zeroSystem.si (probeRule k mtu) ⟨1, 1, 2⟩ 0 := by
    rw [hnew.eq]
  have hlinks := (relinked_insertConnection e (fillConnection zeroSystem.si (probeRule k mtu) ⟨1, 1, 2⟩ 0) 1).cm b
  have hfindlinks := (relinked_findConnectionMatch e (probe e k mtu).si k).cm b
  refine ⟨b, (findConnectionMatch e (probe e k mtu).si k).2, ?_, ?_⟩
  · rw [← hb]
  · refine hfill.unlinked (hfindlinks.trans ?_)
    rw [hadd]
    exact hlinks

end Probe

section Told

variable {e : Endian} {k : MatchKey} {mtu : BitVec 16} {d : Nat → UInt8}

theorem frame_bare : Frame d (bare d) := ⟨rfl, fun _ _ => rfl, Nat.le_refl _⟩

theorem frame_padded (hlen : 20 ≤ totLen d) (n : Fin 256) (tail : Nat → UInt8) : Frame d (padded d n tail) := by
  have hdata : ∀ i < totLen d, (padded d n tail).data i = d i := fun i hi => if_pos hi
  refine ⟨?_, hdata, ?_⟩
  · unfold totLen be16 at hlen ⊢
    rw [hdata 2 (by unfold totLen be16; omega), hdata (2 + 1) (by unfold totLen be16; omega)]
  · change totLen d ≤ totLen d + n + 1
    omega

theorem sameMeta_padded (n : Fin 256) (tail : Nat → UInt8) : SameMeta (bare d) (padded d n tail) :=
  ⟨rfl, rfl, rfl, rfl⟩

/-- A packet that is too long for its device flushes its connection. -/
theorem udpDecide_long {cm : ConnectionMatch} {f : Skb} (flush : Bool) (haccel : cm.flowAccel = true)
    (hlong : cm.xmitDevMtu.toNat < f.len) : ∃ ev, udpDecide cm f flush = .flush ev := by
  unfold udpDecide
  split
  · exact ⟨_, rfl⟩
  rw [haccel, if_neg (by decide)]
  split
  · exact ⟨_, rfl⟩
  · exact ⟨_, rfl⟩

theorem tcpDecide_long {cm : ConnectionMatch} {f : Skb} (ct : ConnectionMatch) (ihl : Nat) (flush : Bool)
    (haccel : cm.flowAccel = true) (hgso : f.isGso = false) (hlong : cm.xmitDevMtu.toNat < f.len) :
    ∃ ev, tcpDecide cm ct f ihl flush = (.flush ev, cm.tcp, ct.tcp) := by
  unfold tcpDecide
  split
  · exact ⟨_, rfl⟩
  rw [haccel, if_neg (by decide)]
  split
  · exact ⟨_, rfl⟩
  · rw [if_pos ⟨hlong, by rw [hgso]; rfl⟩]
    exact ⟨_, rfl⟩

/-- The same packet without its padding is forwarded. -/
theorem udpDecide_fits {cm : ConnectionMatch} (haccel : cm.flowAccel = true)
    (hfits : totLen d ≤ cm.xmitDevMtu.toNat) (httl : 2 ≤ ipTtl d) :
    udpDecide cm (bare d) false = .forward := by
  have hlen : ¬ (bare d).len > cm.xmitDevMtu.toNat := Nat.not_lt.mpr hfits
  have httl' : ¬ ipTtl (bare d).data < 2 := Nat.not_lt.mpr httl
  unfold udpDecide
  rw [haccel, if_neg (by decide), if_neg (by decide), if_neg httl', if_neg hlen]
  rfl

theorem tcpDecide_fits {cm : ConnectionMatch} (ct : ConnectionMatch) (ihl : Nat) (haccel : cm.flowAccel = true)
    (hseq : cm.flags.noSeqCheck = true) (hfits : totLen d ≤ cm.xmitDevMtu.toNat) (httl : 2 ≤ ipTtl d)
    (hflags : tcpFastFlags d ihl = true) :
    tcpDecide cm ct (bare d) ihl false = (.forward, cm.tcp, ct.tcp) := by
  have hlen : ¬ ((bare d).len > cm.xmitDevMtu.toNat ∧ (!(bare d).isGso) = true) := fun h =>
    Nat.not_lt.mpr hfits h.1
  have httl' : ¬ ipTtl (bare d).data < 2 := Nat.not_lt.mpr httl
  have hflags' : tcpFastFlags (bare d).data ihl = true := hflags
  unfold tcpDecide
  rw [haccel, hseq, hflags', if_neg (by decide), if_neg (by decide), if_neg httl', if_neg hlen,
    if_neg (by decide), if_pos rfl]
  rfl

/-- Padding that can be told in a reachable state. -/
def Told (e : Endian) (d : Nat → UInt8) : Prop :=
  ∃ s dev n tail, Reachable e s ∧
    (recv e s.si dev (padded d n tail)).1.outcome ≠ (recv e s.si dev (bare d)).1.outcome

/-- A connection is flushed with the padding and not without it. -/
theorem told_of_flushed {n : Fin 256} {tail : Nat → UInt8} {c : Nat} {o : Outcome}
    (hpad : (recv e (probe e k mtu).si 0 (padded d n tail)).1.outcome = .flushed c)
    (hbare : (recv e (probe e k mtu).si 0 (bare d)).1.outcome = o) (ho : ∀ c, o ≠ .flushed c) : Told e d := by
  refine ⟨probe e k mtu, 0, n, tail, reachable_probe e k mtu, fun h => ho c ?_⟩
  rw [← hbare, ← h, hpad]

theorem ipHdrLen_le (m : Nat → UInt8) (o : Nat) : ipHdrLen m o ≤ 60 := by
  unfold ipHdrLen
  omega

variable (hd : Accepted d)

include hd in
/-- With padding the packet has a header, and is too long for its device. -/
theorem outcome_padded_udp (mtu : BitVec 16) (n : Fin 256) (tail : Nat → UInt8) (hp : ipProtocol d 0 = ipprotoUdp)
    (hhdr : ipHdrLen d 0 + 8 ≤ totLen d + n + 1) (hlong : mtu.toNat ≤ totLen d) : ∃ c,
    (recv e (probe e (packetKey e 0 ipprotoUdp (padded d n tail).data (ipHdrLen d 0)) mtu).si 0
      (padded d n tail)).1.outcome = .flushed c := by
  have hplen : (padded d n tail).len = totLen d + n + 1 := rfl
  obtain ⟨b, q, hfind, hprobe⟩ := probe_found e
    (packetKey e 0 ipprotoUdp (padded d n tail).data (ipHdrLen d 0)) mtu
  obtain ⟨ev, hdec⟩ := udpDecide_long (f := padded d n tail) (flushOnFind d) hprobe.flowAccel
    (by rw [hprobe.xmitDevMtu]; omega)
  rw [(frame_padded hd.len n tail).recv_udp hd hp (by omega), recvUdp_found (by omega) hfind, hdec]
  exact ⟨_, rfl⟩

include hd in
theorem outcome_padded_tcp (mtu : BitVec 16) (n : Fin 256) (tail : Nat → UInt8) (hp : ipProtocol d 0 = ipprotoTcp)
    (hhdr : ipHdrLen d 0 + 20 ≤ totLen d + n + 1) (hlong : mtu.toNat ≤ totLen d) : ∃ c,
    (recv e (probe e (packetKey e 0 ipprotoTcp (padded d n tail).data (ipHdrLen d 0)) mtu).si 0
      (padded d n tail)).1.outcome = .flushed c := by
  have hplen : (padded d n tail).len = totLen d + n + 1 := rfl
  obtain ⟨b, q, hfind, hprobe⟩ := probe_found e
    (packetKey e 0 ipprotoTcp (padded d n tail).data (ipHdrLen d 0)) mtu
  obtain ⟨ev, hdec⟩ := tcpDecide_long (f := padded d n tail) (q.cm (q.cm b).counterMatch)
    (ipHdrLen d 0) (flushOnFind d) hprobe.flowAccel rfl (by rw [hprobe.xmitDevMtu]; omega)
  rw [(frame_padded hd.len n tail).recv_tcp hd hp (by omega), recvTcp_found (by omega) hfind hdec]
  exact ⟨_, rfl⟩

include hd in
/-- Without it a packet that has no header is left to the slow path. -/
theorem outcome_bare_short (si : SfeIpv4) (dev : BitVec 64)
    (hshort : ipProtocol d 0 = ipprotoUdp ∧ totLen d < ipHdrLen d 0 + 8 ∨
      ipProtocol d 0 = ipprotoTcp ∧ totLen d < ipHdrLen d 0 + 20) :
    (recv e si dev (bare d)).1.outcome = .passed := by
  have hblen : (bare d).len = totLen d := rfl
  by_cases hoptions : totLen d < ipHdrLen d 0
  · exact congrArg Prod.fst (frame_bare.recv_incomplete hd (Or.inl (by omega)) e si dev)
  rcases hshort with ⟨hp, hshort⟩ | ⟨hp, hshort⟩
  · rw [frame_bare.recv_udp hd hp (by omega)]
    unfold recvUdp
    rw [if_pos (by omega)]
    rfl
  · rw [frame_bare.recv_tcp hd hp (by omega)]
    unfold recvTcp
    rw [if_pos (by omega)]
    rfl

include hd in
theorem told_udp (hp : ipProtocol d 0 = ipprotoUdp)
    (hnot : ¬ (ipHdrLen d 0 + 8 ≤ totLen d ∧ (flushOnFind d = true ∨ ipTtl d < 2))) : Told e d := by
  have hihl := ipHdrLen_le d 0
  have hblen : (bare d).len = totLen d := rfl
  by_cases hhdr : ipHdrLen d 0 + 8 ≤ totLen d
  · -- the padding takes the packet over the MTU
    obtain ⟨hflush, httl⟩ : flushOnFind d = false ∧ 2 ≤ ipTtl d := by
      have h := fun hw => hnot ⟨hhdr, hw⟩
      constructor
      · by_contra hf
        exact h (Or.inl (by simpa using hf))
      · by_contra ht
        exact h (Or.inr (by omega))
    have hmtu : (BitVec.ofNat 16 (totLen d)).toNat = totLen d := by
      have hlt := totLen_lt d
      rw [BitVec.toNat_ofNat]
      omega
    have hkey := (frame_padded hd.len 0 fun _ => 0).packetKey_eq (e := e) 0 hd.len
      (by omega : ipHdrLen d 0 + 4 ≤ totLen d) ipprotoUdp
    obtain ⟨c, hc⟩ := outcome_padded_udp (e := e) hd (BitVec.ofNat 16 (totLen d)) 0 (fun _ => 0) hp (by omega)
      (by omega)
    rw [hkey] at hc
    obtain ⟨b, q, hfind, hprobe⟩ := probe_found e (packetKey e 0 ipprotoUdp d (ipHdrLen d 0))
      (BitVec.ofNat 16 (totLen d))
    have hfit := udpDecide_fits (d := d) hprobe.flowAccel (by rw [hprobe.xmitDevMtu]; omega) httl
    refine told_of_flushed (o := .forwarded b) hc ?_ fun c h => by cases h
    rw [frame_bare.recv_udp hd hp (by omega), recvUdp_found (f := bare d) (by omega) hfind, hflush, hfit]
    rfl
  · -- it stands for the missing header
    obtain ⟨c, hc⟩ := outcome_padded_udp (e := e) hd 0 100 (fun _ => 0) hp
      (by change _ ≤ totLen d + 100 + 1; omega) (Nat.zero_le _)
    exact told_of_flushed hc (outcome_bare_short hd _ _ (Or.inl ⟨hp, by omega⟩)) fun c h => by cases h

include hd in
theorem told_tcp (hp : ipProtocol d 0 = ipprotoTcp)
    (hnot : ¬ (ipHdrLen d 0 + 20 ≤ totLen d ∧
      (flushOnFind d = true ∨ ipTtl d < 2 ∨ tcpFastFlags d (ipHdrLen d 0) = false))) : Told e d := by
  have hihl := ipHdrLen_le d 0
  have hblen : (bare d).len = totLen d := rfl
  by_cases hhdr : ipHdrLen d 0 + 20 ≤ totLen d
  · obtain ⟨hflush, httl, hflags⟩ : flushOnFind d = false ∧ 2 ≤ ipTtl d ∧
        tcpFastFlags d (ipHdrLen d 0) = true := by
      have h := fun hw => hnot ⟨hhdr, hw⟩
      refine ⟨?_, ?_, ?_⟩
      · by_contra hf
        exact h (Or.inl (by simpa using hf))
      · by_contra ht
        exact h (Or.inr (Or.inl (by omega)))
      · by_contra hf
        exact h (Or.inr (Or.inr (by simpa using hf)))
    have hmtu : (BitVec.ofNat 16 (totLen d)).toNat = totLen d := by
      have hlt := totLen_lt d
      rw [BitVec.toNat_ofNat]
      omega
    have hkey := (frame_padded hd.len 0 fun _ => 0).packetKey_eq (e := e) 0 hd.len
      (by omega : ipHdrLen d 0 + 4 ≤ totLen d) ipprotoTcp
    obtain ⟨c, hc⟩ := outcome_padded_tcp (e := e) hd (BitVec.ofNat 16 (totLen d)) 0 (fun _ => 0) hp (by omega)
      (by omega)
    rw [hkey] at hc
    obtain ⟨b, q, hfind, hprobe⟩ := probe_found e (packetKey e 0 ipprotoTcp d (ipHdrLen d 0))
      (BitVec.ofNat 16 (totLen d))
    have hfit := tcpDecide_fits (d := d) (q.cm (q.cm b).counterMatch) (ipHdrLen d 0)
      hprobe.flowAccel (hprobe.noSeqCheck rfl) (by rw [hprobe.xmitDevMtu]; omega) httl hflags
    rw [← hflush] at hfit
    refine told_of_flushed (o := .forwarded b) hc ?_ fun c h => by cases h
    rw [frame_bare.recv_tcp hd hp (by omega), recvTcp_found (f := bare d) (by omega) hfind hfit]
    rfl
  · obtain ⟨c, hc⟩ := outcome_padded_tcp (e := e) hd 0 100 (fun _ => 0) hp
      (by change _ ≤ totLen d + 100 + 1; omega) (Nat.zero_le _)
    exact told_of_flushed hc (outcome_bare_short hd _ _ (Or.inr ⟨hp, by omega⟩)) fun c h => by cases h

/-- Padding that completes an ICMP error. -/
def icmpTail (ihl : Nat) : Nat → UInt8 := fun i =>
  if i = ihl then 3 else if i = ihl + 8 then 0x45 else if i = ihl + 17 then 17 else 0

theorem icmpHandled_padded (hnot : ¬ IcmpBlind d) :
    IcmpHandled (padded d 200 (icmpTail (ipHdrLen d 0))).data (padded d 200 (icmpTail (ipHdrLen d 0))).len
      (ipHdrLen d 0) := by
  have hihl := ipHdrLen_le d 0
  have hembedded := ipHdrLen_le (padded d 200 (icmpTail (ipHdrLen d 0))).data (ipHdrLen d 0 + 8)
  have hplen : (padded d 200 (icmpTail (ipHdrLen d 0))).len = totLen d + 200 + 1 := rfl
  have hdata : ∀ i, (padded d 200 (icmpTail (ipHdrLen d 0))).data i
      = if i < totLen d then d i else icmpTail (ipHdrLen d 0) i := fun i => rfl
  unfold IcmpBlind at hnot
  dsimp only at hnot
  simp only [not_or, not_and, not_not] at hnot
  obtain ⟨htype, hversion, hprotocol, -⟩ := hnot
  constructor
  case type =>
    rw [hdata]
    split
    · rename_i hlt
      by_cases h3 : (d (ipHdrLen d 0)).toNat = 3
      · exact Or.inl h3
      · exact Or.inr (htype hlt h3)
    · left
      rw [icmpTail, if_pos rfl]
      rfl
  case header => omega
  case version =>
    unfold ipVersion at hversion ⊢
    rw [hdata]
    split
    · rename_i hlt
      exact hversion hlt
    · rw [icmpTail, if_neg (by omega), if_pos rfl]
      rfl
  case protocol =>
    unfold ipProtocol at hprotocol ⊢
    rw [hdata]
    split
    · rename_i hlt
      by_cases hudp : (d (ipHdrLen d 0 + 8 + 9)).toBitVec = ipprotoUdp
      · exact Or.inl hudp
      · exact Or.inr (hprotocol (by omega) hudp)
    · left
      rw [icmpTail, if_neg (by omega), if_neg (by omega), if_pos (by omega)]
      rfl
  case ports => omega

include hd in
theorem told_icmp (hp : ipProtocol d 0 = ipprotoIcmp) (hnot : ¬ IcmpBlind d) : Told e d := by
  have hihl := ipHdrLen_le d 0
  have hblen : (bare d).len = totLen d := rfl
  have hplen : (padded d 200 (icmpTail (ipHdrLen d 0))).len = totLen d + 200 + 1 := rfl
  have hkey := icmpKey_handled (e := e) 0 (icmpHandled_padded hnot)
  obtain ⟨b, q, hfind, -⟩ := probe_found e
    (answeredKey e 0 (padded d 200 (icmpTail (ipHdrLen d 0))).data (ipHdrLen d 0)) 0
  have hpad : (recv e (probe e (answeredKey e 0 (padded d 200 (icmpTail (ipHdrLen d 0))).data (ipHdrLen d 0)) 0).si 0
      (padded d 200 (icmpTail (ipHdrLen d 0)))).1.outcome = .flushed (q.cm b).connection := by
    rw [(frame_padded hd.len 200 _).recv_icmp hd hp (by omega)]
    unfold recvIcmp
    rw [hkey]
    dsimp only
    rw [hfind]
    rfl
  refine told_of_flushed (o := .passed) hpad ?_ fun c h => by cases h
  by_cases hoptions : totLen d < ipHdrLen d 0
  · exact congrArg Prod.fst (frame_bare.recv_incomplete hd (Or.inl (by omega)) e _ 0)
  · rw [frame_bare.recv_icmp hd hp (by omega)]
    refine congrArg Prod.fst (recvIcmp_unhandled fun h => hnot ?_)
    exact Or.inr (Or.inr (Or.inr ⟨h.header, h.ports⟩))

end Told

/-- Padding is ignored exactly for the datagrams that are dropped whatever the length of
the frame, or have their headers and flush their connection. -/
theorem padding_ignored_iff (e : Endian) (d : Nat → UInt8) :
    (∀ s dev f g, Reachable e s → Frame d f → Frame d g → SameMeta f g →
      outcomeOf (recv e s.si dev g) = outcomeOf (recv e s.si dev f)) ↔
    PaddingBlind d := by
  constructor
  · intro h
    by_contra hnot
    have hd : Accepted d := by
      refine ⟨?_, ?_, ?_⟩
      · by_contra hlen
        exact hnot (Or.inl (by omega))
      · by_contra hversion
        exact hnot (Or.inr (Or.inl hversion))
      · by_contra hwhole
        exact hnot (Or.inr (Or.inr (Or.inl (by simpa using hwhole))))
    have htold : Told e d := by
      by_cases hudp : ipProtocol d 0 = ipprotoUdp
      · exact told_udp hd hudp fun hb => hnot (Or.inr (Or.inr (Or.inr (Or.inl ⟨hudp, hb⟩))))
      by_cases htcp : ipProtocol d 0 = ipprotoTcp
      · exact told_tcp hd htcp fun hb => hnot (Or.inr (Or.inr (Or.inr (Or.inr (Or.inl ⟨htcp, hb⟩)))))
      by_cases hicmp : ipProtocol d 0 = ipprotoIcmp
      · exact told_icmp hd hicmp fun hb =>
          hnot (Or.inr (Or.inr (Or.inr (Or.inr (Or.inr (Or.inl ⟨hicmp, hb⟩))))))
      · exact absurd (Or.inr (Or.inr (Or.inr (Or.inr (Or.inr (Or.inr ⟨hudp, htcp, hicmp⟩)))))) hnot
    obtain ⟨s, dev, n, tail, hreach, hne⟩ := htold
    have hsame := h s dev (bare d) (padded d n tail) hreach frame_bare (frame_padded hd.len n tail)
      (sameMeta_padded n tail)
    exact hne (congrArg Prod.fst hsame)
  · exact fun hblind s dev f g _ hf hg _ => outcomeOf_recv_blind hblind hf hg e s.si dev

/-- A TCP acknowledgement of 40 bytes, without data, on a connection of `snatRule`. -/
def ackDatagram : Nat → UInt8 := fun i => [0x45, 0, 0, 40, 0, 0, 0, 0, 64, 6, 0, 0, 1, 0, 0, 0, 8, 8, 8, 8,
  0xe8, 3, 0x35, 0, 0, 0, 0x13, 0x88, 0, 0, 0x23, 0x28, 0x50, 0x10, 0x04, 0, 0, 0, 0, 0].getD i 0

/-- The engine with this rule. -/
def tcpRule : System := createAt .little zeroSystem (snatRule 6 1 1000 9 5000) 1 1 2

/-- Ethernet pads it to 46 bytes. Both frames are forwarded; with the padding the
connection has sent six bytes it never sent. -/
theorem ackDatagram_padding : Reachable .little tcpRule ∧ Frame ackDatagram (bare ackDatagram) ∧
    Frame ackDatagram (padded ackDatagram 5 fun _ => 0) ∧
    SameMeta (bare ackDatagram) (padded ackDatagram 5 fun _ => 0) ∧
    (recv .little tcpRule.si 1 (bare ackDatagram)).1.outcome = .forwarded 1 ∧
    (recv .little tcpRule.si 1 (padded ackDatagram 5 fun _ => 0)).1.outcome = .forwarded 1 ∧
    ((recv .little tcpRule.si 1 (bare ackDatagram)).2.cm 1).tcp.endSeq = 5000 ∧
    ((recv .little tcpRule.si 1 (padded ackDatagram 5 fun _ => 0)).2.cm 1).tcp.endSeq = 5006 ∧
    ((recv .little tcpRule.si 1 (bare ackDatagram)).2.cm 1).rxByteCount = 40 ∧
    ((recv .little tcpRule.si 1 (padded ackDatagram 5 fun _ => 0)).2.cm 1).rxByteCount = 46 := by
  refine ⟨reachable_create (reachable_zeroSystem .little) _ fresh_probe, frame_bare,
    frame_padded (by decide) 5 fun _ => 0, sameMeta_padded 5 fun _ => 0, ?_, ?_, ?_, ?_, ?_, ?_⟩
  · decide +kernel
  · decide +kernel
  · decide +kernel
  · decide +kernel
  · decide +kernel
  · decide +kernel

end Lede.Sfe
