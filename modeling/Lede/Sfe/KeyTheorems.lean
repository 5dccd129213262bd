/-
Lede.Sfe.KeyTheorems — which match a packet finds.

A lookup takes the first match of a chain that has the key, and lookups reorder the
chains, so what a packet finds is only sure when no two live matches have the same
key. `sfe_ipv4_create_rule` looks for a live connection with the 5-tuple of the
new rule, but two keys go into the match hash, and the reply key is made from the
translated addresses. `run_unambiguous_iff` says when that is enough.
-/
import Lede.Sfe.StepTheorems

namespace Lede.Sfe

open Lede.Lib

/-! ## Lookups -/

/-- Every packet has one match that it can find, and leaves as that match says. -/
structure Unambiguous (e : Endian) (s : System) : Prop where
  keys : ∀ a b, LiveMatch s a → LiveMatch s b → (s.si.cm a).toMatchKey = (s.si.cm b).toMatchKey → a = b
  lookup : ∀ k a, (findConnectionMatch e s.si k).1 = some a ↔ LiveMatch s a ∧ (s.si.cm a).toMatchKey = k
  forwarded : ∀ dev skb a out si', recv e s.si dev skb = (.forwarded a out, si') →
    LiveMatch s a ∧ (s.si.cm a).toMatchKey = packetKey e dev (ipProtocol skb.data 0) skb.data 20 ∧
    out = emit (s.si.cm a) (s.si.conn (s.si.cm a).connection).mark
      (rewritePacket e (s.si.cm a) skb.csumPartial (decide (ipProtocol skb.data 0 = ipprotoUdp)) 20
        (checkOff skb.data) skb.data) skb.len

section Lookup

variable {e : Endian} {s : System}

/-- A lookup finds a live match with the key. -/
theorem WellFormed.find_some (h : WellFormed e s) {k : MatchKey} {a : Nat}
    (hfind : (findConnectionMatch e s.si k).1 = some a) : LiveMatch s a ∧ (s.si.cm a).toMatchKey = k := by
  obtain ⟨all, active, connChain, matchChain, h⟩ := h
  rw [(h.matchPart.find k (h.matchPart.length_le h.connPart _)).1] at hfind
  refine ⟨?_, by simpa using List.find?_some hfind⟩
  rw [h.liveMatch_iff]
  exact ((h.matchPart.table.mem a _).mp (List.mem_of_find?_eq_some hfind)).1

/-- A lookup finds a match if there is one. -/
theorem WellFormed.find_of_live (h : WellFormed e s) {a : Nat} (ha : LiveMatch s a) :
    ∃ b, (findConnectionMatch e s.si (s.si.cm a).toMatchKey).1 = some b := by
  obtain ⟨all, active, connChain, matchChain, h⟩ := h
  rw [(h.matchPart.find _ (h.matchPart.length_le h.connPart _)).1]
  rw [← Option.isSome_iff_exists, List.find?_isSome]
  refine ⟨a, ?_, by simp⟩
  exact (h.matchPart.table.mem a _).mpr ⟨(h.liveMatch_iff a).mp ha, rfl⟩

theorem WellFormed.unambiguous (h : WellFormed e s)
    (hkeys : ∀ a b, LiveMatch s a → LiveMatch s b → (s.si.cm a).toMatchKey = (s.si.cm b).toMatchKey → a = b) :
    Unambiguous e s := by
  refine ⟨hkeys, ?_, ?_⟩
  · intro k a
    constructor
    · exact h.find_some
    · rintro ⟨ha, rfl⟩
      obtain ⟨b, hb⟩ := h.find_of_live ha
      obtain ⟨hlive, hkey⟩ := h.find_some hb
      rw [hb, hkeys b a hlive ha hkey]
  · intro dev skb a out si' hrecv
    have hf := recv_forwarded hrecv
    exact ⟨(h.find_some hf.found).1, (h.find_some hf.found).2, hf.out_eq⟩

end Lookup

/-! ## New keys -/

/-- The key of the original direction of a connection that came in by a device. -/
def matchKeyOf (dev : BitVec 64) (k : ConnKey) : MatchKey where
  matchDev := dev
  matchProtocol := k.protocol.setWidth 8
  matchSrcIp := k.srcIp
  matchSrcPort := k.srcPort
  matchDestIp := k.destIp
  matchDestPort := k.destPort

/-- The original match of a connection has the key of its 5-tuple. -/
def OriginalKeys (s : System) : Prop :=
  ∀ c, Live s c → (s.si.cm (s.si.conn c).originalMatch).toMatchKey
    = matchKeyOf (s.si.conn c).originalDev (s.si.conn c).toConnKey

/-- What the check for a known 5-tuple leaves open: the two keys of the rule are
different, no live match has its reply key, no reply match its original key, and a
connection with the same original key has the same protocol number, not only the
same low byte of it. -/
structure UnusedKeys (s : System) (sic : ConnectionCreate) : Prop where
  distinct : replyKey sic ≠ originalKey sic
  reply : ∀ a, LiveMatch s a → (s.si.cm a).toMatchKey ≠ replyKey sic
  original : ∀ c, Live s c → (s.si.cm (s.si.conn c).replyMatch).toMatchKey ≠ originalKey sic
  protocol : ∀ c, Live s c → (s.si.cm (s.si.conn c).originalMatch).toMatchKey = originalKey sic →
    (s.si.conn c).protocol = sic.protocol

section New

variable {e : Endian} {s s' : System} {sic : ConnectionCreate} {mem : Alloc} {now : BitVec 64}
  {evs : List Event}

theorem Created.original_key (h : Created e s s' sic mem now) :
    (s'.si.cm mem.original).toMatchKey = originalKey sic := by
  have hkey := congrArg ConnectionMatch.toMatchKey h.original_eq
  exact hkey

theorem Created.reply_key (h : Created e s s' sic mem now) :
    (s'.si.cm mem.reply).toMatchKey = replyKey sic := by
  have hkey := congrArg ConnectionMatch.toMatchKey h.reply_eq
  exact hkey

theorem Created.old_key (h : Created e s s' sic mem now) {a : Nat} (ha : a ∈ s.cms) :
    (s'.si.cm a).toMatchKey = (s.si.cm a).toMatchKey := by
  have hkey := congrArg ConnectionMatch.toMatchKey (h.cm ha)
  exact hkey

theorem OriginalKeys.created (hs : OriginalKeys s) (hw : WellFormed e s) (h : Created e s s' sic mem now) :
    OriginalKeys s' := by
  intro c hc
  rcases (h.live hw c).mp hc with hold | rfl
  · obtain ⟨hkey, horig, -, hdev⟩ := connCore_eq (h.conn hold.1)
    have hmem : (s.si.conn c).originalMatch ∈ s.cms := LiveMatch.mem_cms hw ⟨c, hold, Or.inl rfl⟩
    rw [horig, hdev, hkey, h.old_key hmem, hs c hold]
  · have hself := h.core.conn mem.conn
    rw [fillConnection_self] at hself
    obtain ⟨hkey, -, -, hdev⟩ := connCore_eq hself
    rw [h.matches_new.1, h.original_key, hdev, hkey]
    rfl

theorem OriginalKeys.quiet (hs : OriginalKeys s) (h : Quiet s evs s') : OriginalKeys s' := by
  intro c hc
  obtain ⟨-, -, -, hdev⟩ := connCore_eq (h.core.conn c)
  rw [h.core.originalMatch, h.core.key, h.core.connKey, hdev]
  exact hs c (h.live c hc)

theorem OriginalKeys.step (hs : OriginalKeys s) (hw : WellFormed e s) (hstep : Step e s evs s') :
    OriginalKeys s' := by
  rcases step_created_or_quiet hw hstep with ⟨sic, mem, now, h, -⟩ | h
  · exact hs.created hw h
  · exact hs.quiet h

/-- A key of the rule that a live match has, in terms of its connection: none, for a
rule that `sfe_ipv4_create_rule` does not know. -/
theorem UnusedKeys.original_unused (hu : UnusedKeys s sic) (hw : WellFormed e s) (hs : OriginalKeys s)
    (hfind : findConnection e s.si sic.toConnKey = none) {a : Nat} (ha : LiveMatch s a) :
    (s.si.cm a).toMatchKey ≠ originalKey sic := by
  obtain ⟨c, hc, rfl | rfl⟩ := ha
  · intro hkey
    have hproto := hu.protocol c hc hkey
    rw [hs c hc] at hkey
    obtain ⟨all, active, connChain, matchChain, hl⟩ := hw
    refine hl.connPart.find_none hfind ((hl.mem_all c).mpr hc) ?_
    -- the key has all of the 5-tuple but the upper bytes of the protocol
    unfold matchKeyOf originalKey at hkey
    simp only [MatchKey.mk.injEq] at hkey
    obtain ⟨-, -, hsrc, hsport, hdst, hdport⟩ := hkey
    cases hx : (s.si.conn c).toConnKey with
    | mk protocol srcIp srcPort destIp destPort =>
      cases hy : sic.toConnKey with
      | mk protocol' srcIp' srcPort' destIp' destPort' =>
        rw [hx] at hproto hsrc hsport hdst hdport
        rw [hy] at hproto hsrc hsport hdst hdport
        simp only at hproto hsrc hsport hdst hdport
        rw [hproto, hsrc, hsport, hdst, hdport]
  · exact hu.original c hc

/-- A new connection keeps the keys unambiguous exactly when its keys are unused. -/
theorem Created.keys_iff (h : Created e s s' sic mem now) (hw : WellFormed e s) (hs : OriginalKeys s) :
    (∀ a b, LiveMatch s' a → LiveMatch s' b → (s'.si.cm a).toMatchKey = (s'.si.cm b).toMatchKey → a = b) ↔
      (∀ a b, LiveMatch s a → LiveMatch s b → (s.si.cm a).toMatchKey = (s.si.cm b).toMatchKey → a = b) ∧
        UnusedKeys s sic := by
  have hlive := h.liveMatch hw
  have hold : ∀ {a}, LiveMatch s a → (s'.si.cm a).toMatchKey = (s.si.cm a).toMatchKey := fun ha =>
    h.old_key (LiveMatch.mem_cms hw ha)
  have hno : ∀ {a}, LiveMatch s a → a ≠ mem.original ∧ a ≠ mem.reply := fun ha =>
    ⟨fun he => h.fresh.2.1 (he ▸ LiveMatch.mem_cms hw ha),
      fun he => h.fresh.2.2.1 (he ▸ LiveMatch.mem_cms hw ha)⟩
  have horig : LiveMatch s' mem.original := (hlive _).mpr (Or.inr (Or.inl rfl))
  have hreply : LiveMatch s' mem.reply := (hlive _).mpr (Or.inr (Or.inr rfl))
  constructor
  · intro hkeys
    refine ⟨?_, ?_, ?_, ?_, ?_⟩
    · intro a b ha hb hab
      rw [← hold ha, ← hold hb] at hab
      exact hkeys a b ((hlive a).mpr (Or.inl ha)) ((hlive b).mpr (Or.inl hb)) hab
    · intro hkey
      refine h.fresh.2.2.2 (hkeys _ _ horig hreply ?_)
      rw [h.original_key, h.reply_key, hkey]
    · intro a ha hkey
      refine (hno ha).2 (hkeys _ _ ((hlive a).mpr (Or.inl ha)) hreply ?_)
      rw [hold ha, h.reply_key, hkey]
    · intro c hc hkey
      have ha : LiveMatch s (s.si.conn c).replyMatch := ⟨c, hc, Or.inr rfl⟩
      refine (hno ha).1 (hkeys _ _ ((hlive _).mpr (Or.inl ha)) horig ?_)
      rw [hold ha, h.original_key, hkey]
    · intro c hc hkey
      have ha : LiveMatch s (s.si.conn c).originalMatch := ⟨c, hc, Or.inl rfl⟩
      refine absurd (hkeys _ _ ((hlive _).mpr (Or.inl ha)) horig ?_) (hno ha).1
      rw [hold ha, h.original_key, hkey]
  · rintro ⟨hkeys, hu⟩
    -- the key of an older match is neither of the two new ones
    have hne : ∀ {a}, LiveMatch s a → (s'.si.cm a).toMatchKey ≠ originalKey sic ∧
        (s'.si.cm a).toMatchKey ≠ replyKey sic := by
      intro a ha
      rw [hold ha]
      exact ⟨hu.original_unused hw hs h.unknown ha, hu.reply a ha⟩
    intro a b ha hb hab
    rcases (hlive a).mp ha with ha | rfl | rfl
    · rcases (hlive b).mp hb with hb | rfl | rfl
      · rw [hold ha, hold hb] at hab
        exact hkeys a b ha hb hab
      · exact absurd (hab.trans h.original_key) (hne ha).1
      · exact absurd (hab.trans h.reply_key) (hne ha).2
    · rcases (hlive b).mp hb with hb | rfl | rfl
      · exact absurd (hab.symm.trans h.original_key) (hne hb).1
      · rfl
      · exact absurd (h.reply_key.symm.trans (hab.symm.trans h.original_key)) hu.distinct
    · rcases (hlive b).mp hb with hb | rfl | rfl
      · exact absurd (hab.symm.trans h.reply_key) (hne hb).2
      · exact absurd (h.reply_key.symm.trans (hab.trans h.original_key)) hu.distinct
      · rfl

end New

/-! ## Runs -/

/-- Each connection that the step creates has unused keys. -/
def CreatesUnused (s : System) (evs : List Event) (_ : System) : Prop :=
  ∀ c sic, Event.created c sic ∈ evs → UnusedKeys s sic

section Runs

variable {e : Endian} {cm : Nat → ConnectionMatch} {conn : Nat → Connection} {s s' : System}
  {evs : List Event}

theorem not_liveMatch_init (cm : Nat → ConnectionMatch) (conn : Nat → Connection) (a : Nat) :
    ¬ LiveMatch (initSystem cm conn) a := by
  rintro ⟨c, hc, -⟩
  cases hc.1

theorem originalKeys_run (h : Run e (initSystem cm conn) evs s) : OriginalKeys s := by
  induction h with
  | refl =>
    intro c hc
    cases hc.1
  | step hrun hstep ih =>
    exact ih.step ((wellFormed_init cm conn).run hrun) hstep

/-- A quiet step brings no new keys. -/
theorem Quiet.keys (h : Quiet s evs s')
    (hkeys : ∀ a b, LiveMatch s a → LiveMatch s b → (s.si.cm a).toMatchKey = (s.si.cm b).toMatchKey → a = b)
    (a b : Nat) (ha : LiveMatch s' a) (hb : LiveMatch s' b)
    (hab : (s'.si.cm a).toMatchKey = (s'.si.cm b).toMatchKey) : a = b := by
  rw [h.core.key, h.core.key] at hab
  exact hkeys a b (h.liveMatch ha) (h.liveMatch hb) hab

theorem RunWhere.unambiguous (h : RunWhere e CreatesUnused (initSystem cm conn) evs s) : Unambiguous e s := by
  induction h with
  | refl =>
    exact (wellFormed_init cm conn).unambiguous fun a b ha => absurd ha (not_liveMatch_init cm conn a)
  | step hrun hstep hunused ih =>
    have hw := (wellFormed_init cm conn).run hrun.run
    have hs := originalKeys_run hrun.run
    refine (hw.step hstep).unambiguous ?_
    rcases step_created_or_quiet hw hstep with ⟨sic, mem, now, h, rfl⟩ | h
    · exact (h.keys_iff hw hs).mpr ⟨ih.keys, hunused mem.conn sic (by simp)⟩
    · exact h.keys ih.keys

/-- Keys are unambiguous throughout a run exactly when no connection is created with
a key that is in use. -/
theorem run_unambiguous_iff (e : Endian) (cm : Nat → ConnectionMatch) (conn : Nat → Connection)
    (evs : List Event) (s : System) :
    RunWhere e CreatesUnused (initSystem cm conn) evs s ↔
      Unambiguous e (initSystem cm conn) ∧
        RunWhere e (fun _ _ s' => Unambiguous e s') (initSystem cm conn) evs s := by
  have hfirst : Unambiguous e (initSystem cm conn) := RunWhere.unambiguous (RunWhere.refl _)
  constructor
  · intro h
    refine ⟨hfirst, ?_⟩
    induction h with
    | refl => exact RunWhere.refl _
    | step hrun hstep hunused ih =>
      exact ih.step hstep (RunWhere.unambiguous (hrun.step hstep hunused))
  · rintro ⟨-, h⟩
    induction h with
    | refl => exact RunWhere.refl _
    | step hrun hstep hun ih =>
      refine ih.step hstep ?_
      have hw := (wellFormed_init cm conn).run hrun.run
      intro c sic hc
      rcases step_created_or_quiet hw hstep with ⟨sic', mem, now, h, rfl⟩ | h
      · obtain ⟨-, rfl⟩ : c = mem.conn ∧ sic = sic' := by simpa using hc
        exact ((h.keys_iff hw (originalKeys_run hrun.run)).mp hun.keys).2
      · exact absurd hc (h.silent c sic)

end Runs

/-- Two hosts with one translated address and port. -/
def twoSnats : System :=
  createAt .little (createAt .little zeroSystem (snatRule 17 1 1000 9 5000) 1 1 2)
    (snatRule 17 2 1000 9 5000) 2 3 4

/-- Both rules are created, and the reply of either host goes to the second one. -/
theorem twoSnats_share_reply_key : Reachable .little twoSnats ∧ LiveMatch twoSnats 2 ∧
    LiveMatch twoSnats 4 ∧ (twoSnats.si.cm 2).toMatchKey = (twoSnats.si.cm 4).toMatchKey ∧
    (findConnectionMatch .little twoSnats.si (twoSnats.si.cm 2).toMatchKey).1 = some 4 := by
  have hconns : twoSnats.conns = [2, 1] ∧ twoSnats.removed = [] := by decide +kernel
  have hlive : ∀ c ∈ [2, 1], Live twoSnats c := by
    intro c hc
    unfold Live
    rw [hconns.1, hconns.2]
    exact ⟨hc, by simp⟩
  refine ⟨?_, ?_, ?_, ?_, ?_⟩
  · refine reachable_create (reachable_create (reachable_zeroSystem .little) _ ?_) _ ?_
    · simp [Alloc.Fresh, zeroSystem, initSystem]
    · simp [Alloc.Fresh, createAt, afterCreate, createRule, findConnection, zeroSystem, initSystem, initSfe,
        snatRule, ethDevice]
  · exact ⟨1, hlive 1 (by simp), Or.inr (by decide +kernel)⟩
  · exact ⟨2, hlive 2 (by simp), Or.inr (by decide +kernel)⟩
  · decide +kernel
  · decide +kernel

end Lede.Sfe
