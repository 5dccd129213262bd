/-
Lede.Sfe.RunTheorems — the tables over whole runs of the engine.

`Layout` is what holds between any two steps: the tables are well-formed over the
connections that are live, and the objects that were removed and not yet freed
are in none of them. `Layout.step` goes through the steps; a run keeps it by
induction (`reachable_layout`).
-/
import Lede.Sfe.ShapeTheorems

namespace Lede.Sfe

open Lede.Lib

/-! ## What does not touch the tables -/

section Frame

variable (si : SfeIpv4)

theorem shape_updateProtocolState (c : Nat) (sic : ConnectionCreate) :
    shape (updateProtocolState si c sic) = shape si := by
  unfold updateProtocolState
  split
  · have hfirst : ∀ (q : SfeIpv4) (a : Nat) (w t u : BitVec 32) (n : Bool),
        shape (q.modCm a (updateTcpMatch w t u n)) = shape q := fun q a w t u n =>
      shape_modCm_of_eq q a (fun _ => rfl) (fun _ => ⟨rfl, rfl⟩) (fun _ => ⟨rfl, rfl⟩)
        fun _ => ⟨rfl, rfl, rfl⟩
    exact (hfirst _ _ _ _ _ _).trans (hfirst _ _ _ _ _ _)
  · rfl

theorem shape_updateSummaryStats (a : Nat) : shape (si.modCm a updateSummaryStats) = shape si :=
  shape_modCm_of_eq si a (fun _ => rfl) (fun _ => ⟨rfl, rfl⟩) (fun _ => ⟨rfl, rfl⟩)
    fun _ => ⟨rfl, rfl, rfl⟩

theorem shape_countPacket (a len : Nat) : shape (si.modCm a (countPacket len)) = shape si :=
  shape_modCm_of_eq si a (fun _ => rfl) (fun _ => ⟨rfl, rfl⟩) (fun _ => ⟨rfl, rfl⟩)
    fun _ => ⟨rfl, rfl, rfl⟩

theorem shape_setTcp (a b : Nat) (t t' : TcpConnectionMatch) : shape (setTcp si a b t t') = shape si := by
  have hone : ∀ (q : SfeIpv4) (a : Nat) (t : TcpConnectionMatch),
      shape (q.modCm a fun m => { m with tcp := t }) = shape q := fun q a t =>
    shape_modCm_of_eq q a (fun _ => rfl) (fun _ => ⟨rfl, rfl⟩) (fun _ => ⟨rfl, rfl⟩)
      fun _ => ⟨rfl, rfl, rfl⟩
  exact (hone _ b t').trans (hone _ a t)

theorem shape_genSync (c : Nat) (reason : SyncReason) (now : BitVec 64) :
    shape (genSync si c reason now).2 = shape si := by
  have hconn : ∀ q : SfeIpv4, shape (q.modConn c fun y => { y with lastSyncJiffies := now }) = shape q :=
    fun q => shape_modConn_of_eq q c (fun _ => ⟨rfl, rfl, rfl⟩) (fun _ => ⟨rfl, rfl⟩) fun _ => ⟨rfl, rfl⟩
  refine (hconn _).trans ?_
  rw [shape_updateSummaryStats, shape_updateSummaryStats]

theorem shape_debugDevReadConnection : shape (debugDevReadConnection si).2 = shape si := by
  unfold debugDevReadConnection
  split
  · rfl
  · dsimp only
    rw [shape_updateSummaryStats, shape_updateSummaryStats]
    exact shape_modConn_of_eq _ _ (fun _ => ⟨rfl, rfl, rfl⟩) (fun _ => ⟨rfl, rfl⟩) fun _ => ⟨rfl, rfl⟩

theorem shape_markRule (e : Endian) (k : ConnKey) (v : BitVec 32) : shape (markRule e si k v) = shape si := by
  unfold markRule
  split
  · exact shape_modConn_of_eq _ _ (fun _ => ⟨rfl, rfl, rfl⟩) (fun _ => ⟨rfl, rfl⟩) fun _ => ⟨rfl, rfl⟩
  · rfl

theorem shape_updateRule (e : Endian) (sic : ConnectionCreate) : shape (updateRule e si sic) = shape si := by
  unfold updateRule
  split
  · exact shape_updateProtocolState si _ sic
  · rfl

end Frame

/-! ## The invariant -/

/-- `all` and `active` are what the two lists hold, the chains those of the two
hashes. -/
structure Layout (e : Endian) (s : System) (all active : List Nat) (connChain matchChain : Nat → List Nat) :
    Prop where
  connPart : ConnPart e (shape s.si) all connChain
  matchPart : MatchPart e (shape s.si) (MatchOf (shape s.si).ids all) active matchChain
  /-- An object that is allocated is live or waits to be flushed. -/
  perm : s.conns.Perm (all ++ s.removed.map Prod.fst)
  nodup : s.conns.Nodup
  owned : ∀ c ∈ s.conns, Owned (shape s.si).ids c
  held : ∀ c ∈ s.conns, (shape s.si).ids.original c ∈ s.cms ∧ (shape s.si).ids.reply c ∈ s.cms

/-- The tables are well-formed. -/
def WellFormed (e : Endian) (s : System) : Prop :=
  ∃ all active connChain matchChain, Layout e s all active connChain matchChain

section Layout

variable {e : Endian} {s s' : System} {all active : List Nat} {connChain matchChain : Nat → List Nat}

theorem Layout.mem_conns (h : Layout e s all active connChain matchChain) (c : Nat) :
    c ∈ s.conns ↔ c ∈ all ∨ c ∈ s.removed.map Prod.fst := by
  rw [h.perm.mem_iff, List.mem_append]

theorem Layout.owned_all (h : Layout e s all active connChain matchChain) :
    ∀ c ∈ all, Owned (shape s.si).ids c := fun c hc => h.owned c ((h.mem_conns c).mpr (Or.inl hc))

/-- A removed connection is not in the tables. -/
theorem Layout.removed_not_mem (h : Layout e s all active connChain matchChain) {c : Nat}
    (hc : c ∈ s.removed.map Prod.fst) : c ∉ all := by
  intro hall
  have hnd := h.perm.nodup_iff.mp h.nodup
  exact (List.nodup_append.mp hnd).2.2 c hall c hc rfl

/-- Nor are its matches. -/
theorem Layout.removed_not_matchOf (h : Layout e s all active connChain matchChain) {c : Nat}
    (hc : c ∈ s.removed.map Prod.fst) : ¬ MatchOf (shape s.si).ids all ((shape s.si).ids.original c) ∧
      ¬ MatchOf (shape s.si).ids all ((shape s.si).ids.reply c) := by
  have hown := h.owned c ((h.mem_conns c).mpr (Or.inr hc))
  constructor
  · intro hm
    have := (hm.owner h.owned_all).1
    rw [hown.owner_original] at this
    exact h.removed_not_mem hc this
  · intro hm
    have := (hm.owner h.owned_all).1
    rw [hown.owner_reply] at this
    exact h.removed_not_mem hc this

/-- What leaves the shape alone keeps the layout. -/
theorem Layout.congr (h : Layout e s all active connChain matchChain) (hs : shape s'.si = shape s.si)
    (hconns : s'.conns = s.conns) (hcms : s'.cms = s.cms) (hremoved : s'.removed = s.removed) :
    Layout e s' all active connChain matchChain := by
  constructor
  · rw [hs]
    exact h.connPart
  · rw [hs]
    exact h.matchPart
  · rw [hconns, hremoved]
    exact h.perm
  · rw [hconns]
    exact h.nodup
  · rw [hconns, hs]
    exact h.owned
  · rw [hconns, hcms, hs]
    exact h.held

/-- What relinks the matches only. -/
theorem Layout.relink (h : Layout e s all active connChain matchChain) {si : SfeIpv4}
    (hs : SameConns (shape s.si) (shape si)) {active' : List Nat} {matchChain' : Nat → List Nat}
    (hmatch : MatchPart e (shape si) (MatchOf (shape s.si).ids all) active' matchChain') (quota : Nat) :
    Layout e { s with si := si, quota := quota } all active' connChain matchChain' := by
  refine ⟨h.connPart.congr hs, ?_, h.perm, h.nodup, ?_, ?_⟩
  · rw [hs.ids]
    exact hmatch
  · rw [hs.ids]
    exact h.owned
  · rw [hs.ids]
    exact h.held

/-- A connection is removed and waits to be flushed. -/
theorem Layout.remove (h : Layout e s all active connChain matchChain) {c : Nat} (hc : c ∈ all)
    (reason : SyncReason) :
    WellFormed e { s with
      si := removeConnection e s.si c
      removed := (c, reason) :: s.removed } := by
  obtain ⟨active', connChain', matchChain', hconn, hmatch, hids⟩ :=
    removeConnection_parts h.connPart h.matchPart h.owned_all hc
  refine ⟨all.erase c, active', connChain', matchChain', hconn, ?_, ?_, h.nodup, ?_, ?_⟩
  · rw [hids]
    exact hmatch
  · have hperm : all.Perm (c :: all.erase c) := List.perm_cons_erase hc
    refine h.perm.trans ((hperm.append_right _).trans ?_)
    exact List.perm_middle.symm
  · rw [hids]
    exact h.owned
  · rw [hids]
    exact h.held

/-- A connection is created. -/
theorem Layout.add (h : Layout e s all active connChain matchChain) (sic : ConnectionCreate) (mem : Alloc)
    (now : BitVec 64) (hfresh : mem.Fresh s) :
    WellFormed e { s with
      si := addConnection e s.si sic mem now
      conns := mem.conn :: s.conns
      cms := mem.original :: mem.reply :: s.cms } := by
  obtain ⟨hc, ho, hr, hne⟩ := hfresh
  have hnew : mem.conn ∉ all := fun hm => hc ((h.mem_conns _).mpr (Or.inl hm))
  -- no match that is in use is one of the new ones
  have hused : ∀ {a : Nat}, MatchOf (shape s.si).ids all a → a ∈ s.cms := by
    rintro a ⟨d, hd, rfl | rfl⟩
    · exact (h.held d ((h.mem_conns d).mpr (Or.inl hd))).1
    · exact (h.held d ((h.mem_conns d).mpr (Or.inl hd))).2
  obtain ⟨connChain', matchChain', hconn, hmatch, hids⟩ := addConnection_parts sic mem now h.connPart
    h.matchPart hnew (fun hm => ho (hused hm)) (fun hm => hr (hused hm)) hne
  have hself := fillConnection_self s.si sic mem now
  refine ⟨all ++ [mem.conn], active, connChain', matchChain', hconn, ?_, ?_, ?_, ?_, ?_⟩
  · rw [hids]
    exact hmatch
  · have hperm : (mem.conn :: s.conns).Perm (mem.conn :: (all ++ s.removed.map Prod.fst)) :=
      h.perm.cons _
    refine hperm.trans ?_
    rw [List.append_assoc, List.singleton_append]
    exact List.perm_middle.symm
  · exact List.nodup_cons.mpr ⟨hc, h.nodup⟩
  · intro d hd
    rw [hids]
    rcases List.mem_cons.mp hd with rfl | hd
    · exact fillConnection_owned s.si sic mem now hne
    · obtain ⟨hod, hrd⟩ := h.held d hd
      exact fillConnection_owned_other s.si sic mem now (h.owned d hd) (fun he => hc (he ▸ hd))
        ⟨fun he => ho (he ▸ hod), fun he => hr (he ▸ hod)⟩
        ⟨fun he => ho (he ▸ hrd), fun he => hr (he ▸ hrd)⟩
  · intro d hd
    rw [hids]
    rcases List.mem_cons.mp hd with rfl | hd
    · have horig : (shape (fillConnection s.si sic mem now)).ids.original mem.conn = mem.original :=
        congrArg Connection.originalMatch hself
      have hreply : (shape (fillConnection s.si sic mem now)).ids.reply mem.conn = mem.reply :=
        congrArg Connection.replyMatch hself
      rw [horig, hreply]
      simp
    · have hconn' := fillConnection_conn s.si sic mem now (d := d) fun he => hc (he ▸ hd)
      have horig : (shape (fillConnection s.si sic mem now)).ids.original d = (shape s.si).ids.original d :=
        congrArg Connection.originalMatch hconn'
      have hreply : (shape (fillConnection s.si sic mem now)).ids.reply d = (shape s.si).ids.reply d :=
        congrArg Connection.replyMatch hconn'
      rw [horig, hreply]
      obtain ⟨hod, hrd⟩ := h.held d hd
      simp [hod, hrd]

/-- A removed connection is freed. -/
theorem Layout.free (h : Layout e s all active connChain matchChain) {c : Nat} {reason : SyncReason}
    (hc : (c, reason) ∈ s.removed) {si : SfeIpv4} (hs : shape si = shape s.si) :
    WellFormed e { s with
      si := si
      conns := s.conns.erase c
      cms := (s.cms.erase (s.si.conn c).originalMatch).erase (s.si.conn c).replyMatch
      removed := s.removed.erase (c, reason) } := by
  have hmem : c ∈ s.removed.map Prod.fst := List.mem_map_of_mem hc
  have hnot := h.removed_not_mem hmem
  have hcown := h.owned c ((h.mem_conns c).mpr (Or.inr hmem))
  have hother : ∀ d ∈ s.conns.erase c, d ∈ s.conns ∧ d ≠ c := fun d hd =>
    ⟨List.mem_of_mem_erase hd, fun he => h.nodup.not_mem_erase (he ▸ hd)⟩
  refine ⟨all, active, connChain, matchChain, ?_, ?_, ?_, h.nodup.erase c, ?_, ?_⟩
  · rw [hs]
    exact h.connPart
  · rw [hs]
    exact h.matchPart
  · have herase := h.perm.erase c
    rw [List.erase_append_right _ hnot] at herase
    refine herase.trans (List.Perm.append_left _ ?_)
    have hmap : (s.removed.map Prod.fst).Perm (c :: (s.removed.erase (c, reason)).map Prod.fst) :=
      (List.perm_cons_erase hc).map Prod.fst
    exact (hmap.erase c).trans (by rw [List.erase_cons_head])
  · intro d hd
    rw [hs]
    exact h.owned d (hother d hd).1
  · intro d hd
    obtain ⟨hd, hdc⟩ := hother d hd
    obtain ⟨hod, hrd⟩ := h.held d hd
    have hdown := h.owned d hd
    rw [hs]
    -- the matches of another connection are others
    have hne : ∀ {a b : Nat}, (shape s.si).ids.owner a = d → (shape s.si).ids.owner b = c → a ≠ b := by
      rintro a _ ha hb rfl
      exact hdc (ha.symm.trans hb)
    constructor
    · exact (List.mem_erase_of_ne (hne hdown.owner_original hcown.owner_reply)).mpr
        ((List.mem_erase_of_ne (hne hdown.owner_original hcown.owner_original)).mpr hod)
    · exact (List.mem_erase_of_ne (hne hdown.owner_reply hcown.owner_reply)).mpr
        ((List.mem_erase_of_ne (hne hdown.owner_reply hcown.owner_original)).mpr hrd)

/-- A lookup of a match. -/
theorem Layout.find (h : Layout e s all active connChain matchChain) (k : MatchKey) :
    (∃ matchChain', Layout e { s with si := (findConnectionMatch e s.si k).2 } all active connChain
        matchChain') ∧
      (shape (findConnectionMatch e s.si k).2).ids = (shape s.si).ids ∧
      ∀ a, (findConnectionMatch e s.si k).1 = some a → MatchOf (shape s.si).ids all a := by
  obtain ⟨hres, links, hash, chain', hshape, hpart⟩ :=
    h.matchPart.find k (h.matchPart.length_le h.connPart _)
  have hsame : SameConns (shape s.si) (shape (findConnectionMatch e s.si k).2) := by
    rw [hshape]
    exact ⟨rfl, rfl, rfl, rfl, rfl, rfl, rfl⟩
  refine ⟨⟨chain', h.relink hsame hpart s.quota⟩, hsame.ids, ?_⟩
  intro a ha
  rw [hres] at ha
  exact ((h.matchPart.table.mem a _).mp (List.mem_of_find?_eq_some ha)).1

/-- What the checks make of a packet. -/
theorem Layout.conclude (h : Layout e s all active connChain matchChain) {a : Nat}
    (ha : MatchOf (shape s.si).ids all a) (skb : Skb) (udp : Bool) (ihl checkOff : Nat) (dec : Decision) :
    WellFormed e (afterRecv s (conclude e s.si a skb udp ihl checkOff dec)) := by
  cases dec with
  | flush ev => exact h.remove (ha.owner h.owned_all).1 .flush
  | pass ev => exact ⟨all, active, connChain, matchChain, h⟩
  | forward =>
    have hcounted := shape_countPacket s.si a skb.len
    have hlayout : Layout e { s with si := s.si.modCm a (countPacket skb.len) } all active connChain
        matchChain := h.congr hcounted rfl rfl rfl
    change WellFormed e { s with si := activate (s.si.modCm a (countPacket skb.len)) a }
    cases hflag : (shape (s.si.modCm a (countPacket skb.len))).flag a with
    | true =>
      rw [activate_of_active _ a hflag]
      exact ⟨all, active, connChain, matchChain, hlayout⟩
    | false =>
      have hsame : SameConns (shape (s.si.modCm a (countPacket skb.len)))
          (shape (activate (s.si.modCm a (countPacket skb.len)) a)) := by
        rw [shape_activate _ a hflag]
        exact ⟨rfl, rfl, rfl, rfl, rfl, rfl, rfl⟩
      have hmatch := hlayout.matchPart.activate (a := a) (by rw [hcounted]; exact ha) hflag
      exact ⟨all, active ++ [a], connChain, matchChain, hlayout.relink hsame hmatch s.quota⟩

end Layout

/-! ## Receiving -/

/-- The tables of a packet whose match was found: moved to the front, and for TCP
with the tracked states. -/
def Looked (e : Endian) (si : SfeIpv4) (k : MatchKey) (a : Nat) (si' : SfeIpv4) : Prop :=
  (findConnectionMatch e si k).1 = some a ∧ (si' = (findConnectionMatch e si k).2 ∨
    ∃ t t', si' = setTcp (findConnectionMatch e si k).2 a
      ((findConnectionMatch e si k).2.cm a).counterMatch t t')

/-- All that a packet can do: it is passed on before it is looked up, or it is not
found, or its match decides. -/
def RecvCases (e : Endian) (si : SfeIpv4) (skb : Skb) (r : Verdict × SfeIpv4) : Prop :=
  (∃ ev, r = (.passed ev, si)) ∨
    (∃ k ev, (findConnectionMatch e si k).1 = none ∧ r = (.passed ev, (findConnectionMatch e si k).2)) ∨
    ∃ k a si' udp ihl checkOff dec, Looked e si k a si' ∧
      r = conclude e si' a skb udp ihl checkOff dec

section Cases

variable (e : Endian) (si : SfeIpv4) (dev : BitVec 64) (skb : Skb) (ihl : Nat) (flushOnFind : Bool)

theorem recvUdp_cases : RecvCases e si skb (recvUdp e si dev skb ihl flushOnFind) := by
  unfold recvUdp
  split
  · exact Or.inl ⟨_, rfl⟩
  · cases hfind : findConnectionMatch e si (packetKey e dev ipprotoUdp skb.data ihl) with
    | mk r si' =>
      cases r with
      | none =>
        exact Or.inr (Or.inl ⟨_, some _, congrArg Prod.fst hfind,
          congrArg (Prod.mk (Verdict.passed (some _))) (congrArg Prod.snd hfind).symm⟩)
      | some a =>
        exact Or.inr (Or.inr ⟨_, a, si', _, _, _, _,
          ⟨congrArg Prod.fst hfind, Or.inl (congrArg Prod.snd hfind).symm⟩, rfl⟩)

theorem recvTcp_cases : RecvCases e si skb (recvTcp e si dev skb ihl flushOnFind) := by
  unfold recvTcp
  split
  · exact Or.inl ⟨_, rfl⟩
  · cases hfind : findConnectionMatch e si (packetKey e dev ipprotoTcp skb.data ihl) with
    | mk r si' =>
      cases r with
      | none =>
        exact Or.inr (Or.inl ⟨_, some _, congrArg Prod.fst hfind,
          congrArg (Prod.mk (Verdict.passed (some _))) (congrArg Prod.snd hfind).symm⟩)
      | some a =>
        dsimp only
        generalize tcpDecide (si'.cm a) (si'.cm (si'.cm a).counterMatch) skb ihl flushOnFind = d
        refine Or.inr (Or.inr ⟨_, a, setTcp si' a (si'.cm a).counterMatch d.2.1 d.2.2, _, _, _, d.1,
          ⟨congrArg Prod.fst hfind, Or.inr ⟨d.2.1, d.2.2, ?_⟩⟩, rfl⟩)
        rw [hfind]

theorem recvIcmp_cases : RecvCases e si skb (recvIcmp e si dev skb ihl) := by
  unfold recvIcmp
  cases icmpKey e dev skb ihl with
  | error ev => exact Or.inl ⟨_, rfl⟩
  | ok k =>
    cases hfind : findConnectionMatch e si k with
    | mk r si' =>
      cases r with
      | none =>
        refine Or.inr (Or.inl ⟨k, some .icmpNoConnection, congrArg Prod.fst hfind, ?_⟩)
        simp only [hfind]
      | some a =>
        refine Or.inr (Or.inr ⟨k, a, si', true, 0, 0, .flush .icmpFlushedConnection,
          ⟨congrArg Prod.fst hfind, Or.inl (congrArg Prod.snd hfind).symm⟩, ?_⟩)
        simp only [hfind]
        rfl

end Cases

theorem recv_cases (e : Endian) (si : SfeIpv4) (dev : BitVec 64) (skb : Skb) :
    RecvCases e si skb (recv e si dev skb) := by
  unfold recv
  dsimp only
  -- the checks of the header
  by_cases h₁ : skb.len < 20
  · exact Or.inl ⟨_, if_pos h₁⟩
  by_cases h₂ : totLen skb.data < 20
  · exact Or.inl ⟨_, by rw [if_neg h₁, if_pos h₂]⟩
  by_cases h₃ : ipVersion skb.data 0 ≠ 4
  · exact Or.inl ⟨_, by rw [if_neg h₁, if_neg h₂, if_pos h₃]⟩
  by_cases h₄ : totLen skb.data > skb.len
  · exact Or.inl ⟨_, by rw [if_neg h₁, if_neg h₂, if_neg h₃, if_pos h₄]⟩
  by_cases h₅ : isLaterFragment skb.data
  · exact Or.inl ⟨_, by rw [if_neg h₁, if_neg h₂, if_neg h₃, if_neg h₄, if_pos h₅]⟩
  by_cases h₆ : ipHdrLen skb.data 0 ≠ 20 ∧ skb.len < ipHdrLen skb.data 0
  · exact Or.inl ⟨_, by rw [if_neg h₁, if_neg h₂, if_neg h₃, if_neg h₄, if_neg h₅, if_pos h₆]⟩
  rw [if_neg h₁, if_neg h₂, if_neg h₃, if_neg h₄, if_neg h₅, if_neg h₆]
  by_cases hudp : ipProtocol skb.data 0 = ipprotoUdp
  · rw [if_pos hudp]
    exact recvUdp_cases e si dev skb _ _
  by_cases htcp : ipProtocol skb.data 0 = ipprotoTcp
  · rw [if_neg hudp, if_pos htcp]
    exact recvTcp_cases e si dev skb _ _
  by_cases hicmp : ipProtocol skb.data 0 = ipprotoIcmp
  · rw [if_neg hudp, if_neg htcp, if_pos hicmp]
    exact recvIcmp_cases e si dev skb _
  · exact Or.inl ⟨_, by rw [if_neg hudp, if_neg htcp, if_neg hicmp]⟩

/-! ## Steps -/

section Steps

variable {e : Endian} {s s' : System} {all active : List Nat} {connChain matchChain : Nat → List Nat}

theorem Layout.recv (h : Layout e s all active connChain matchChain) (dev : BitVec 64) (skb : Skb) :
    WellFormed e (afterRecv s (recv e s.si dev skb)) := by
  rcases recv_cases e s.si dev skb with ⟨ev, hr⟩ | ⟨k, ev, -, hr⟩ | ⟨k, a, si', udp, ihl, checkOff, dec, hk, hr⟩
  · rw [hr]
    exact ⟨all, active, connChain, matchChain, h⟩
  · rw [hr]
    obtain ⟨⟨chain', hfound⟩, -, -⟩ := h.find k
    exact ⟨all, active, connChain, chain', hfound⟩
  · rw [hr]
    obtain ⟨⟨chain', hfound⟩, hids, hlive⟩ := h.find k
    have hshape : shape si' = shape (findConnectionMatch e s.si k).2 := by
      rcases hk.2 with rfl | ⟨t, t', rfl⟩
      · rfl
      · exact shape_setTcp _ _ _ _ _
    have hlayout : Layout e { s with si := si' } all active connChain chain' :=
      hfound.congr hshape rfl rfl rfl
    have ha : MatchOf (shape si').ids all a := by
      rw [hshape, hids]
      exact hlive a hk.1
    exact hlayout.conclude ha skb udp ihl checkOff dec

theorem Layout.syncTurn (h : Layout e s all active connChain matchChain) (quota : Nat) (now : BitVec 64) :
    WellFormed e (syncTurn s quota now).2 := by
  unfold Lede.Sfe.syncTurn Lede.Sfe.syncNext
  cases hhead : s.si.activeHead with
  | none => exact ⟨all, active, connChain, matchChain, h.congr rfl rfl rfl rfl⟩
  | some a =>
    have hin : a ∈ active := List.mem_of_mem_head? (h.matchPart.listed.head_eq.symm.trans hhead)
    have hlive := ((h.matchPart.mem_active a).mp hin).1
    obtain ⟨hcounter, hne⟩ := hlive.counter h.owned_all
    -- the counter match is not the head
    obtain ⟨active', hdropped, hhead', hsame⟩ := h.matchPart.dropCounterMatch hhead hne.symm hcounter
    obtain ⟨hfinal, hsame'⟩ := hdropped.dropActiveHead hhead'
    have hlayout := h.relink (hsame.trans hsame') hfinal (quota - 1)
    refine ⟨all, _, connChain, matchChain, hlayout.congr ?_ rfl rfl rfl⟩
    exact shape_genSync _ _ .stats _

theorem Layout.create (h : Layout e s all active connChain matchChain) (sic : ConnectionCreate) (mem : Alloc)
    (now : BitVec 64) (hfresh : mem.Fresh s) :
    WellFormed e (afterCreate s sic mem (createRule e s.si sic (some mem) now)).2 := by
  have hkeep : ∀ si, shape si = shape s.si → WellFormed e { s with si := si } := fun si hs =>
    ⟨all, active, connChain, matchChain, h.congr hs rfl rfl rfl⟩
  unfold createRule
  split
  · exact hkeep _ rfl
  · split
    · exact hkeep _ (shape_updateProtocolState _ _ _)
    · exact h.add sic mem now hfresh

theorem Layout.flush (h : Layout e s all active connChain matchChain) {c : Nat} {reason : SyncReason}
    (hc : (c, reason) ∈ s.removed) (now : BitVec 64) :
    WellFormed e (flushConnection s c reason now).2 := by
  unfold flushConnection
  dsimp only
  split
  · exact h.free hc (shape_genSync _ _ _ _)
  · exact h.free hc rfl

/-- What `sfe_ipv4_destroy_rule` removes is live. -/
theorem ConnPart.destroyRule (h : ConnPart e (shape s.si) all connChain) (k : ConnKey) (c : Nat)
    (hc : (destroyRule e s.si k).1 = some c) :
    c ∈ all ∧ (destroyRule e s.si k).2 = removeConnection e s.si c := by
  unfold Lede.Sfe.destroyRule at hc ⊢
  cases hfind : findConnection e s.si k with
  | none => simp [hfind] at hc
  | some d =>
    simp only [hfind, Option.some.injEq] at hc ⊢
    subst hc
    exact ⟨(h.find_some hfind).1, rfl⟩

/-- So is what one round of `sfe_ipv4_destroy_all_rules_for_dev` removes. -/
theorem ConnPart.destroyAllRulesForDev (h : ConnPart e (shape s.si) all connChain)
    (dev : Option (BitVec 64)) (c : Nat) (hc : (destroyAllRulesForDev e s.si dev).1 = some c) :
    c ∈ all ∧ (destroyAllRulesForDev e s.si dev).2 = removeConnection e s.si c := by
  have hhead : s.si.allConnectionsHead = all.head? := h.listed.head_eq
  have hnum : all.length ≤ s.si.numConnections := Nat.le_of_eq h.num_eq.symm
  have hwalk := fun p => h.listed.holds.walkFind_eq p hnum
  unfold Lede.Sfe.destroyAllRulesForDev at hc ⊢
  rw [hhead] at hc ⊢
  rw [show (fun c => (s.si.conn c).allConnectionsNext) = (shape s.si).allLinks.next from rfl, hwalk] at hc ⊢
  generalize hfind : all.find? _ = r at hc ⊢
  cases r with
  | none => cases hc
  | some d =>
    obtain rfl : d = c := Option.some.inj hc
    exact ⟨List.mem_of_find?_eq_some hfind, rfl⟩

theorem Layout.destroyed (h : Layout e s all active connChain matchChain) {r : Option Nat × SfeIpv4}
    (hr : ∀ c, r.1 = some c → c ∈ all ∧ r.2 = removeConnection e s.si c) :
    WellFormed e (afterDestroy s r) := by
  unfold afterDestroy
  cases hc : r.1 with
  | none => exact ⟨all, active, connChain, matchChain, h⟩
  | some c =>
    dsimp only
    rw [(hr c hc).2]
    exact h.remove (hr c hc).1 .destroy

/-- Each step keeps the tables well-formed. -/
theorem WellFormed.step {evs : List Event} (h : WellFormed e s) (hstep : Step e s evs s') :
    WellFormed e s' := by
  obtain ⟨all, active, connChain, matchChain, h⟩ := h
  have hkeep : ∀ si, shape si = shape s.si → WellFormed e { s with si := si } := fun si hs =>
    ⟨all, active, connChain, matchChain, h.congr hs rfl rfl rfl⟩
  cases hstep with
  | create sic mem now fresh => exact h.create sic mem now fresh
  | createNoMemory sic now =>
    refine hkeep _ ?_
    unfold createRule
    split
    · rfl
    · split
      · exact shape_updateProtocolState _ _ _
      · rfl
  | update sic => exact hkeep _ (shape_updateRule _ _ _)
  | mark k v => exact hkeep _ (shape_markRule _ _ _ _)
  | destroy k => exact h.destroyed (h.connPart.destroyRule k)
  | destroyAll dev => exact h.destroyed (h.connPart.destroyAllRulesForDev dev)
  | recv dev skb => exact h.recv dev skb
  | flush c reason now hc => exact h.flush hc now
  | syncStart now hcb hq =>
    split
    · exact ⟨all, active, connChain, matchChain, h⟩
    · exact h.syncTurn _ now
  | syncNext now hq => exact h.syncTurn _ now
  | debugStart => exact hkeep _ rfl
  | debugRead => exact hkeep _ (shape_debugDevReadConnection _)
  | register callback => exact hkeep _ rfl

theorem wellFormed_init (cm : Nat → ConnectionMatch) (conn : Nat → Connection) :
    WellFormed e (initSystem cm conn) := by
  refine ⟨[], [], fun _ => [], fun _ => [], ?_, ?_, List.Perm.refl _, List.nodup_nil, ?_, ?_⟩
  · refine ⟨⟨Links.holds_nil _, rfl, rfl⟩, rfl, fun _ => Links.holds_nil _, fun _ => rfl, ?_⟩
    simp
  · refine ⟨⟨fun _ => Links.holds_nil _, fun _ => rfl, ?_⟩, ⟨Links.holds_nil _, rfl, rfl⟩, ?_, ?_⟩
    · simp [MatchOf]
    · simp [MatchOf]
    · simp [MatchOf]
  · intro c hc
    cases hc
  · intro c hc
    cases hc

/-- So does a run. -/
theorem WellFormed.run {evs : List Event} (h : WellFormed e s) (hrun : Run e s evs s') : WellFormed e s' := by
  induction hrun with
  | refl => exact h
  | step _ hstep ih => exact ih.step hstep

theorem reachable_wellFormed (h : Reachable e s) : WellFormed e s := by
  obtain ⟨cm, conn, evs, hrun⟩ := h
  exact (wellFormed_init cm conn).run hrun

end Steps

/-! ## The tables of every reachable state -/

/-- A connection that was created and not removed. -/
def Live (s : System) (c : Nat) : Prop := c ∈ s.conns ∧ c ∉ s.removed.map Prod.fst

/-- A match of such a connection. -/
def LiveMatch (s : System) (a : Nat) : Prop :=
  ∃ c, Live s c ∧ (a = (s.si.conn c).originalMatch ∨ a = (s.si.conn c).replyMatch)

/-- What the tables should be: which connections are in the list of all connections,
which matches in the active list, and what each bucket of the two hashes holds. -/
structure TablesOk (e : Endian) (s : System) (all active : List Nat) (connChain matchChain : Nat → List Nat) :
    Prop where
  all_listed : (shape s.si).allLinks.Listed s.si.allConnectionsHead s.si.allConnectionsTail all
  mem_all : ∀ c, c ∈ all ↔ Live s c
  num_connections : s.si.numConnections = all.length
  conn_hash : (shape s.si).connLinks.Table s.si.connHash
    (fun c => getConnectionHash e (s.si.conn c).toConnKey) (Live s) connChain
  match_hash : (shape s.si).matchLinks.Table s.si.connMatchHash
    (fun a => getConnectionMatchHash e (s.si.cm a).toMatchKey) (LiveMatch s) matchChain
  two_matches : ∀ c, Live s c → (s.si.conn c).originalMatch ≠ (s.si.conn c).replyMatch ∧
    (s.si.cm (s.si.conn c).originalMatch).connection = c ∧
    (s.si.cm (s.si.conn c).replyMatch).connection = c
  active_listed : (shape s.si).activeLinks.Listed s.si.activeHead s.si.activeTail active
  mem_active : ∀ a, a ∈ active ↔ LiveMatch s a ∧ (s.si.cm a).active = true
  removed_connection : ∀ c ∈ s.removed.map Prod.fst,
    ¬ (shape s.si).allLinks.Reach s.si.allConnectionsHead c ∧
    ∀ i, ¬ (shape s.si).connLinks.Reach (s.si.connHash i) c
  removed_match : ∀ c ∈ s.removed.map Prod.fst, ∀ a,
    a = (s.si.conn c).originalMatch ∨ a = (s.si.conn c).replyMatch →
    ¬ (shape s.si).activeLinks.Reach s.si.activeHead a ∧
    ∀ i, ¬ (shape s.si).matchLinks.Reach (s.si.connMatchHash i) a

theorem Layout.mem_all {e : Endian} {s : System} {all active : List Nat}
    {connChain matchChain : Nat → List Nat} (h : Layout e s all active connChain matchChain) (c : Nat) :
    c ∈ all ↔ Live s c := by
  unfold Live
  rw [h.mem_conns]
  constructor
  · intro hc
    exact ⟨Or.inl hc, fun hr => h.removed_not_mem hr hc⟩
  · rintro ⟨hc | hc, hr⟩
    · exact hc
    · exact absurd hc hr

theorem Layout.liveMatch_iff {e : Endian} {s : System} {all active : List Nat}
    {connChain matchChain : Nat → List Nat} (h : Layout e s all active connChain matchChain) (a : Nat) :
    LiveMatch s a ↔ MatchOf (shape s.si).ids all a := by
  unfold LiveMatch MatchOf
  refine exists_congr fun c => ?_
  rw [h.mem_all]
  rfl

theorem Layout.tablesOk {e : Endian} {s : System} {all active : List Nat}
    {connChain matchChain : Nat → List Nat} (h : Layout e s all active connChain matchChain) :
    TablesOk e s all active connChain matchChain := by
  have hlive := h.mem_all
  have hmatch := h.liveMatch_iff
  have hownedOf : ∀ c, Live s c → Owned (shape s.si).ids c := fun c hc => h.owned c hc.1
  have hgone : ∀ c ∈ s.removed.map Prod.fst, ∀ a,
      a = (s.si.conn c).originalMatch ∨ a = (s.si.conn c).replyMatch →
      ¬ MatchOf (shape s.si).ids all a := by
    rintro c hc a (rfl | rfl)
    · exact (h.removed_not_matchOf hc).1
    · exact (h.removed_not_matchOf hc).2
  constructor
  · exact h.connPart.listed
  · exact hlive
  · exact h.connPart.num_eq
  · exact h.connPart.table.congr (fun c => (hlive c).symm) (fun _ _ => rfl) (fun _ _ => rfl) fun _ _ => rfl
  · exact h.matchPart.table.congr hmatch (fun _ _ => rfl) (fun _ _ => rfl) fun _ _ => rfl
  · intro c hc
    exact ⟨(hownedOf c hc).ne, (hownedOf c hc).owner_original, (hownedOf c hc).owner_reply⟩
  · exact h.matchPart.listed
  · intro a
    rw [hmatch]
    exact h.matchPart.mem_active a
  · intro c hc
    constructor
    · rw [show s.si.allConnectionsHead = all.head? from h.connPart.listed.head_eq,
        h.connPart.listed.holds.reach_iff]
      exact h.removed_not_mem hc
    · intro i
      rw [show s.si.connHash i = (connChain i).head? from h.connPart.table.head_eq i,
        (h.connPart.table.holds i).reach_iff, h.connPart.table.mem]
      exact fun hm => h.removed_not_mem hc hm.1
  · intro c hc a ha
    constructor
    · rw [show s.si.activeHead = active.head? from h.matchPart.listed.head_eq,
        h.matchPart.listed.holds.reach_iff, h.matchPart.mem_active]
      exact fun hm => hgone c hc a ha hm.1
    · intro i
      rw [show s.si.connMatchHash i = (matchChain i).head? from h.matchPart.table.head_eq i,
        (h.matchPart.table.holds i).reach_iff, h.matchPart.table.mem]
      exact fun hm => hgone c hc a ha hm.1

/-- In every state of the engine the four tables are well-formed, hold what is live
and nothing that was removed. -/
theorem reachable_tablesOk (e : Endian) (s : System) (h : Reachable e s) :
    ∃ all active connChain matchChain, TablesOk e s all active connChain matchChain := by
  obtain ⟨all, active, connChain, matchChain, h⟩ := reachable_wellFormed h
  exact ⟨all, active, connChain, matchChain, h.tablesOk⟩

/-! ## A run -/

/-- A match and a connection of memory that was never used. -/
def zeroMatch : ConnectionMatch where
  matchDev := 0
  matchProtocol := 0
  matchSrcIp := 0
  matchSrcPort := 0
  matchDestIp := 0
  matchDestPort := 0
  next := none
  prev := none
  connection := 0
  counterMatch := 0
  activeNext := none
  activePrev := none
  active := false
  flags := ⟨false, false, false, false, false, false, false⟩
  flowAccel := false
  tcp := ⟨0, 0, 0, 0⟩
  rxPacketCount := 0
  rxByteCount := 0
  xlateSrcIp := 0
  xlateSrcPort := 0
  xlateSrcCsumAdjustment := 0
  xlateSrcPartialCsumAdjustment := 0
  xlateDestIp := 0
  xlateDestPort := 0
  xlateDestCsumAdjustment := 0
  xlateDestPartialCsumAdjustment := 0
  priority := 0
  dscp := 0
  xmitDev := 0
  xmitDevMtu := 0
  xmitDestMac := (0, 0, 0)
  xmitSrcMac := (0, 0, 0)
  rxPacketCount64 := 0
  rxByteCount64 := 0

def zeroConnection : Connection where
  protocol := 0
  srcIp := 0
  srcPort := 0
  destIp := 0
  destPort := 0
  next := none
  prev := none
  srcIpXlate := 0
  srcPortXlate := 0
  destIpXlate := 0
  destPortXlate := 0
  originalMatch := 0
  originalDev := 0
  replyMatch := 0
  replyDev := 0
  lastSyncJiffies := 0
  allConnectionsNext := none
  allConnectionsPrev := none
  mark := 0
  debugReadSeq := 0

/-- A registered Ethernet device. -/
def ethDevice (ptr : BitVec 64) : NetDevice where
  ptr := ptr
  registered := true
  pointToPoint := false
  ethHeader := true
  devAddr := (2, 0, 1)

/-- A rule between devices 1 and 2 whose source is translated. -/
def snatRule (protocol srcIp : BitVec 32) (srcPort : BitVec 16) (srcIpXlate : BitVec 32)
    (srcPortXlate : BitVec 16) : ConnectionCreate where
  protocol := protocol
  srcIp := srcIp
  srcPort := srcPort
  destIp := 0x08080808
  destPort := 53
  srcDev := ethDevice 1
  destDev := ethDevice 2
  noSeqCheck := false
  remarkPriority := false
  remarkDscp := false
  srcMtu := 1500
  destMtu := 1500
  srcIpXlate := srcIpXlate
  destIpXlate := 0x08080808
  srcPortXlate := srcPortXlate
  destPortXlate := 53
  srcMac := (2, 0, 3)
  destMacXlate := (2, 0, 4)
  srcTdWindowScale := 0
  srcTdMaxWindow := 1000
  srcTdEnd := 5000
  srcTdMaxEnd := 6000
  destTdWindowScale := 0
  destTdMaxWindow := 1000
  destTdEnd := 9000
  destTdMaxEnd := 10000
  mark := 0
  originalAccel := true
  replyAccel := true
  srcPriority := 0
  destPriority := 0
  srcDscp := 0
  destDscp := 0

/-- The engine before its first rule. -/
def zeroSystem : System := initSystem (fun _ => zeroMatch) fun _ => zeroConnection

/-- A rule is created, with its objects at three addresses. -/
def createAt (e : Endian) (s : System) (sic : ConnectionCreate) (conn original reply : Nat) : System :=
  (afterCreate s sic ⟨conn, original, reply⟩ (createRule e s.si sic (some ⟨conn, original, reply⟩) 0)).2

theorem reachable_create {e : Endian} {s : System} (h : Reachable e s) (sic : ConnectionCreate)
    {conn original reply : Nat} (hfresh : Alloc.Fresh ⟨conn, original, reply⟩ s) :
    Reachable e (createAt e s sic conn original reply) := by
  obtain ⟨cm, cn, evs, hrun⟩ := h
  exact ⟨cm, cn, _, hrun.step (Step.create s sic ⟨conn, original, reply⟩ 0 hfresh)⟩

theorem reachable_zeroSystem (e : Endian) : Reachable e zeroSystem :=
  ⟨_, _, [], Run.refl _⟩

/-- Two rules from one host, of which the first is destroyed again. -/
theorem reachable_tablesOk_destroyed :
    ∃ all active connChain matchChain, TablesOk .little
      (afterDestroy
        (createAt .little (createAt .little zeroSystem (snatRule 17 1 1000 9 1000) 1 1 2)
          (snatRule 17 1 1001 9 1001) 2 3 4)
        (destroyRule .little
          (createAt .little (createAt .little zeroSystem (snatRule 17 1 1000 9 1000) 1 1 2)
            (snatRule 17 1 1001 9 1001) 2 3 4).si (snatRule 17 1 1000 9 1000).toConnKey))
      all active connChain matchChain := by
  have hfirst : Alloc.Fresh ⟨1, 1, 2⟩ zeroSystem := by
    simp [Alloc.Fresh, zeroSystem, initSystem]
  have h₁ := reachable_create (reachable_zeroSystem .little) (snatRule 17 1 1000 9 1000) hfirst
  have hsecond : Alloc.Fresh ⟨2, 3, 4⟩
      (createAt .little zeroSystem (snatRule 17 1 1000 9 1000) 1 1 2) := by
    simp [Alloc.Fresh, createAt, afterCreate, createRule, findConnection, zeroSystem, initSystem, initSfe,
      snatRule, ethDevice]
  obtain ⟨cm, conn, evs, hrun⟩ := reachable_create h₁ (snatRule 17 1 1001 9 1001) hsecond
  exact reachable_tablesOk .little _ ⟨cm, conn, _, hrun.step (Step.destroy _ _)⟩

end Lede.Sfe
