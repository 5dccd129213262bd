/-
Lede.Sfe.ShapeTheorems — the connection tables stay well-formed.

What the shape of the tables should be is said in two parts. `MatchPart` is about
the match hash and the active list, for the matches that are live; `ConnPart` is
about the connection hash and the list of all connections. Inserting or removing
a connection goes through states where one match of it is in the tables and the
other is not, so the live matches are a parameter of the first part.

`Layout` puts the parts together, with the objects that are allocated; each step
of the engine keeps it (`Layout.step`), and so does each run.
-/
import Lede.Sfe.Shape

namespace Lede.Sfe

open Lede.Lib

/-! ## One part does not see what the other does -/

/-- The matches may have been relinked. -/
structure SameConns (s s' : Shape) : Prop where
  ids : s'.ids = s.ids
  connLinks : s'.connLinks = s.connLinks
  connHash : s'.connHash = s.connHash
  allLinks : s'.allLinks = s.allLinks
  allHead : s'.allHead = s.allHead
  allTail : s'.allTail = s.allTail
  num : s'.num = s.num

/-- The connections may have been relinked. -/
structure SameMatches (s s' : Shape) : Prop where
  ids : s'.ids = s.ids
  matchLinks : s'.matchLinks = s.matchLinks
  matchHash : s'.matchHash = s.matchHash
  activeLinks : s'.activeLinks = s.activeLinks
  activeHead : s'.activeHead = s.activeHead
  activeTail : s'.activeTail = s.activeTail
  flag : s'.flag = s.flag

/-! ## Matches -/

/-- The match hash has the live matches, each once in the chain of its key, and the
active list those whose flag is set. -/
structure MatchPart (e : Endian) (s : Shape) (live : Nat → Prop) (active : List Nat)
    (chain : Nat → List Nat) : Prop where
  table : s.matchLinks.Table s.matchHash (s.matchIdx e) live chain
  listed : s.activeLinks.Listed s.activeHead s.activeTail active
  mem_active : ∀ a, a ∈ active ↔ live a ∧ s.flag a = true
  /-- The next activation does not write `active_next`. -/
  idle : ∀ a, live a → s.flag a = false → s.activeLinks.next a = none

section Match

variable {e : Endian} {si : SfeIpv4} {s s' : Shape} {live live' : Nat → Prop} {active : List Nat}
  {chain : Nat → List Nat} {a : Nat}

theorem MatchPart.insert (h : MatchPart e (shape si) live active chain) (hnew : ¬ live a)
    (hflag : (shape si).flag a = false) (hnext : (shape si).activeLinks.next a = none)
    (hlive : ∀ b, live' b ↔ live b ∨ b = a) :
    MatchPart e (shape (insertConnectionMatch e si a)) live' active
      (Links.setAt chain ((shape si).matchIdx e a) (a :: chain ((shape si).matchIdx e a))) := by
  rw [shape_insertConnectionMatch]
  constructor
  · exact h.table.insert hnew hlive
  · exact h.listed
  · intro b
    rw [h.mem_active, hlive]
    constructor
    · rintro ⟨hb, hf⟩
      exact ⟨Or.inl hb, hf⟩
    · rintro ⟨hb | rfl, hf⟩
      · exact ⟨hb, hf⟩
      · exact absurd (hflag.symm.trans hf) Bool.false_ne_true
  · intro b hb hf
    rcases (hlive b).mp hb with hb | rfl
    · exact h.idle b hb hf
    · exact hnext

/-- Taken out of the hash, and of the active list if it is there. -/
theorem MatchPart.remove (h : MatchPart e (shape si) live active chain) (ha : live a)
    (hlive : ∀ b, live' b ↔ live b ∧ b ≠ a) :
    MatchPart e (shape (removeConnectionMatch e si a)) live' (active.erase a)
      (Links.setAt chain ((shape si).matchIdx e a) ((chain ((shape si).matchIdx e a)).erase a)) := by
  have htable := h.table.remove ha hlive
  have hflag : (shape (unlinkMatch e si a)).flag a = (shape si).flag a := by rw [shape_unlinkMatch]
  have hmem : ∀ b, b ∈ active.erase a ↔ live' b ∧ (shape si).flag b = true := by
    intro b
    rw [h.listed.holds.nodup.mem_erase_iff, h.mem_active, hlive]
    constructor
    · rintro ⟨hne, hb, hf⟩
      exact ⟨⟨hb, hne⟩, hf⟩
    · rintro ⟨⟨hb, hne⟩, hf⟩
      exact ⟨hne, hb, hf⟩
  unfold removeConnectionMatch
  dsimp only
  split
  · rename_i hactive
    have hin : a ∈ active := (h.mem_active a).mpr ⟨ha, hflag.symm.trans hactive⟩
    rw [shape_unlinkActive, shape_unlinkMatch]
    · refine ⟨htable, h.listed.remove hin, hmem, ?_⟩
      intro b hb hf
      obtain ⟨hb, hne⟩ := (hlive b).mp hb
      have hout : b ∉ active := fun hm =>
        absurd (hf.symm.trans ((h.mem_active b).mp hm).2) Bool.false_ne_true
      have hframe : ((shape si).activeLinks.unlink a).next b = (shape si).activeLinks.next b := by
        refine Links.unlink_next_of_ne fun hp => hout ?_
        exact h.listed.holds.prev_mem hin hp
      exact hframe.trans (h.idle b hb hf)
    · rw [shape_unlinkMatch]
      exact h.listed.holds.prev_ne_self hin
  · rename_i hactive
    have hout : a ∉ active := fun hm => hactive (hflag.trans ((h.mem_active a).mp hm).2)
    rw [shape_unlinkMatch]
    rw [List.erase_of_not_mem hout] at hmem ⊢
    exact ⟨htable, h.listed, hmem, fun b hb hf => h.idle b ((hlive b).mp hb).1 hf⟩

/-- A lookup finds the first match of its chain with the key, and may reorder the
chain. -/
theorem MatchPart.find (h : MatchPart e (shape si) live active chain) (k : MatchKey)
    (hfuel : (chain (getConnectionMatchHash e k)).length ≤ matchFuel si) :
    (findConnectionMatch e si k).1
        = (chain (getConnectionMatchHash e k)).find? (fun b => (si.cm b).toMatchKey = k) ∧
      ∃ links hash chain', shape (findConnectionMatch e si k).2
          = { shape si with matchLinks := links, matchHash := hash } ∧
        MatchPart e (shape (findConnectionMatch e si k).2) live active chain' := by
  have hhead := h.table.head_eq (getConnectionMatchHash e k)
  have hholds := h.table.holds (getConnectionMatchHash e k)
  cases hchain : chain (getConnectionMatchHash e k) with
  | nil =>
    rw [hchain] at hhead
    have hnone : si.connMatchHash (getConnectionMatchHash e k) = none := hhead
    have hres : findConnectionMatch e si k = (none, si) := by
      unfold findConnectionMatch
      simp only [hnone]
    rw [hres]
    exact ⟨rfl, _, _, chain, rfl, h⟩
  | cons head rest =>
    rw [hchain] at hhead hholds hfuel
    have hsome : si.connMatchHash (getConnectionMatchHash e k) = some head := hhead
    by_cases hkey : (si.cm head).toMatchKey = k
    · have hres : findConnectionMatch e si k = (some head, si) := by
        unfold findConnectionMatch
        simp only [hsome, hkey, if_true]
      rw [hres]
      refine ⟨?_, _, _, chain, rfl, h⟩
      rw [List.find?_cons_of_pos (by simpa using hkey)]
    · -- the rest of the chain is walked
      have hwalk : Links.walkFind (fun b => (si.cm b).next) (fun b => (si.cm b).toMatchKey = k)
          (matchFuel si) (si.cm head).next = rest.find? (fun b => (si.cm b).toMatchKey = k) := by
        have hnext : (si.cm head).next = rest.head? := hholds.seg.2.1.trans (by simp)
        rw [hnext]
        exact hholds.seg.2.2.walkFind_eq _ (Nat.le_of_succ_le hfuel)
      rw [List.find?_cons_of_neg (by simpa using hkey)]
      cases hfind : rest.find? (fun b => (si.cm b).toMatchKey = k) with
      | none =>
        have hres : findConnectionMatch e si k = (none, si) := by
          unfold findConnectionMatch
          simp only [hsome, if_neg hkey, hwalk, hfind]
        rw [hres]
        exact ⟨rfl, _, _, chain, rfl, h⟩
      | some a =>
        have ha : a ∈ rest := List.mem_of_find?_eq_some hfind
        have hak : (si.cm a).toMatchKey = k := by simpa using List.find?_some hfind
        have hidx : (shape si).matchIdx e a = getConnectionMatchHash e k :=
          congrArg (getConnectionMatchHash e) hak
        have hain : a ∈ chain (getConnectionMatchHash e k) := by simp [hchain, ha]
        have hlive : live a := ((h.table.mem a _).mp hain).1
        have hne : head ≠ a := fun he => (List.nodup_cons.mp hholds.nodup).1 (he ▸ ha)
        -- the object before it
        obtain ⟨l₁, l₂, rfl⟩ := List.append_of_mem ha
        have hprev : (shape si).matchLinks.prev a = (head :: l₁).getLast? :=
          (show (shape si).matchLinks.Holds ((head :: l₁) ++ a :: l₂) from hholds).at.1
        obtain ⟨p, hp⟩ : ∃ p, (shape si).matchLinks.prev a = some p := by
          rw [hprev]
          exact ⟨_, List.getLast?_cons⟩
        have hpa : p ≠ a := fun he => hholds.prev_ne_self (by simp) (hp.trans (congrArg some he))
        obtain ⟨hres, hshape⟩ := shape_findConnectionMatch e si a k hsome hkey (hwalk.trans hfind) hp hpa
          (hholds.next_ne_self (by simp))
        have htable := h.table.moveToFront hlive hp
        rw [hidx, show (shape si).matchHash (getConnectionMatchHash e k) = some head from hsome] at htable
        have hpart : ∃ chain', MatchPart e (shape (findConnectionMatch e si k).2) live active chain' := by
          rw [hshape]
          exact ⟨_, htable, h.listed, h.mem_active, h.idle⟩
        obtain ⟨chain', hpart⟩ := hpart
        exact ⟨hres, _, _, chain', hshape, hpart⟩

/-- A match goes to the end of the active list. -/
theorem MatchPart.activate (h : MatchPart e (shape si) live active chain) (ha : live a)
    (hflag : (shape si).flag a = false) :
    MatchPart e (shape (activate si a)) live (active ++ [a]) chain := by
  have hout : a ∉ active := fun hm =>
    absurd (hflag.symm.trans ((h.mem_active a).mp hm).2) Bool.false_ne_true
  rw [shape_activate si a hflag]
  refine ⟨h.table, h.listed.pushBack hout (h.idle a ha hflag), ?_, ?_⟩
  · intro b
    rw [List.mem_append, List.mem_singleton, h.mem_active]
    by_cases hb : b = a
    · simp [hb, ha]
    · simp [hb, Links.setAt_of_ne]
  · intro b hb hf
    have hba : b ≠ a := by
      rintro rfl
      exact absurd ((Links.setAt_self _ _ _).symm.trans hf) (by decide)
    have hfb : (shape si).flag b = false := (Links.setAt_of_ne _ _ hba).symm.trans hf
    have htail : (shape si).activeTail ≠ some b := by
      rw [h.listed.tail_eq]
      intro ht
      exact absurd (hfb.symm.trans ((h.mem_active b).mp (List.mem_of_getLast? ht)).2) Bool.false_ne_true
    exact (Links.pushBack_next_of_ne htail).trans (h.idle b hb hfb)

/-- A match leaves the active list and keeps no successor. -/
theorem MatchPart.deactivate (h : MatchPart e s live active chain)
    {L : Links Nat} {head tail : Option Nat} (hL : L.Listed head tail (active.erase a))
    (hself : L.next a = none) (hother : ∀ b, b ≠ a → b ∉ active → L.next b = s.activeLinks.next b) :
    MatchPart e { s with
      flag := Links.setAt s.flag a false
      activeLinks := L
      activeHead := head
      activeTail := tail } live (active.erase a) chain := by
  refine ⟨h.table, hL, ?_, ?_⟩
  · intro b
    rw [h.listed.holds.nodup.mem_erase_iff, h.mem_active]
    by_cases hb : b = a
    · simp [hb]
    · simp [hb, Links.setAt_of_ne]
  · intro b hb hf
    by_cases hba : b = a
    · exact hba ▸ hself
    · have hfb : s.flag b = false := (Links.setAt_of_ne _ _ hba).symm.trans hf
      have hout : b ∉ active := fun hm =>
        absurd (hfb.symm.trans ((h.mem_active b).mp hm).2) Bool.false_ne_true
      exact (hother b hba hout).trans (h.idle b hb hfb)

theorem next_unlink_out {L : Links Nat} {head tail : Option Nat} (h : L.Listed head tail active)
    (ha : a ∈ active) {b : Nat} (hb : b ∉ active) : (L.unlink a).next b = L.next b :=
  Links.unlink_next_of_ne fun hp => hb (h.holds.prev_mem ha hp)

/-- The counter match of the head is not the head, so that it has a match before it. -/
theorem MatchPart.dropCounterMatch {head : Nat} (h : MatchPart e (shape si) live active chain)
    (hhead : si.activeHead = some head) (hne : head ≠ a) (ha : live a) :
    ∃ active', MatchPart e (shape (dropCounterMatch si a)) live active' chain ∧
      (dropCounterMatch si a).activeHead = some head ∧
      SameConns (shape si) (shape (dropCounterMatch si a)) := by
  cases hflag : (shape si).flag a with
  | false =>
    have hactive : (si.cm a).active = false := hflag
    have hsame : Lede.Sfe.dropCounterMatch si a = si := by
      unfold Lede.Sfe.dropCounterMatch
      rw [hactive]
      rfl
    rw [hsame]
    exact ⟨active, h, hhead, rfl, rfl, rfl, rfl, rfl, rfl, rfl⟩
  | true =>
    have hin : a ∈ active := (h.mem_active a).mpr ⟨ha, hflag⟩
    obtain ⟨p, hp⟩ : ∃ p, (shape si).activeLinks.prev a = some p := by
      cases hprev : (shape si).activeLinks.prev a with
      | none =>
        have := (h.listed.prev_eq_none_iff hin).mp hprev
        exact absurd (Option.some.inj (hhead.symm.trans this)) hne
      | some p => exact ⟨p, rfl⟩
    have hpa : p ≠ a := fun he => h.listed.holds.prev_ne_self hin (hp.trans (congrArg some he))
    have hout : a ∉ active.erase a := fun hm => (h.listed.holds.nodup.mem_erase_iff.mp hm).1 rfl
    have hremoved := h.listed.remove hin
    have hless : (shape si).activeLinks.headLess (shape si).activeHead a = (shape si).activeHead := by
      unfold Links.headLess
      rw [hp]
    have hlisted : (((((shape si).activeLinks.unlink a).setNext a none).setPrev a none)).Listed
        (shape si).activeHead ((shape si).activeLinks.tailLess (shape si).activeTail a)
        (active.erase a) := by
      rw [hless] at hremoved
      exact ⟨(hremoved.holds.setNext_out hout).setPrev_out hout, hremoved.head_eq, hremoved.tail_eq⟩
    have hshape := shape_dropCounterMatch si a hflag hp hpa
    refine ⟨active.erase a, ?_, ?_, ?_⟩
    · rw [hshape]
      refine h.deactivate hlisted (by simp) ?_
      intro b hba hb
      rw [Links.setPrev_next, Links.setNext_of_ne _ _ hba]
      exact next_unlink_out h.listed hin hb
    · exact (congrArg Shape.activeHead hshape).trans hhead
    · rw [hshape]
      exact ⟨rfl, rfl, rfl, rfl, rfl, rfl, rfl⟩

/-- The head leaves the active list. -/
theorem MatchPart.dropActiveHead (h : MatchPart e (shape si) live active chain)
    (hhead : si.activeHead = some a) :
    MatchPart e (shape (dropActiveHead si a)) live (active.erase a) chain ∧
      SameConns (shape si) (shape (dropActiveHead si a)) := by
  have hin : a ∈ active := List.mem_of_mem_head? (h.listed.head_eq.symm.trans hhead)
  have hprev : (shape si).activeLinks.prev a = none := (h.listed.prev_eq_none_iff hin).mpr hhead
  have hout : a ∉ active.erase a := fun hm => (h.listed.holds.nodup.mem_erase_iff.mp hm).1 rfl
  have hremoved := h.listed.remove hin
  rw [shape_dropActiveHead si a hprev]
  refine ⟨h.deactivate ⟨hremoved.holds.setNext_out hout, hremoved.head_eq, hremoved.tail_eq⟩
    (by simp) ?_, rfl, rfl, rfl, rfl, rfl, rfl, rfl⟩
  intro b hba hb
  rw [Links.setNext_of_ne _ _ hba]
  exact next_unlink_out h.listed hin hb

end Match

/-! ## Connections -/

/-- The list of all connections has the live connections, and the connection hash has
each once in the chain of its key. -/
structure ConnPart (e : Endian) (s : Shape) (all : List Nat) (chain : Nat → List Nat) : Prop where
  listed : s.allLinks.Listed s.allHead s.allTail all
  num_eq : s.num = all.length
  table : s.connLinks.Table s.connHash (s.connIdx e) (fun c => c ∈ all) chain

section Conn

variable {e : Endian} {si : SfeIpv4} {all : List Nat} {chain : Nat → List Nat} {c : Nat}

theorem shape_link (hself : (shape si).allTail ≠ some c) : shape (linkAll (linkConn e si c) c)
    = { shape si with
        connLinks := (shape si).connLinks.pushFront ((shape si).connHash ((shape si).connIdx e c)) c
        connHash := Links.setAt (shape si).connHash ((shape si).connIdx e c) (some c)
        allLinks := ((shape si).allLinks.setNext c none).pushBack (shape si).allTail c
        allHead := Links.headMore (shape si).allHead (shape si).allTail c
        allTail := some c
        num := (shape si).num + 1 } := by
  have hlink := shape_linkConn e si c
  rw [shape_linkAll]
  · rw [hlink]
  · rw [hlink]
    exact hself

theorem shape_unlink (hself : (shape si).allLinks.prev c ≠ some c) :
    shape (unlinkAll (unlinkConn e si c) c)
    = { shape si with
        connLinks := (shape si).connLinks.unlink c
        connHash := (shape si).connLinks.headWithout (shape si).connHash ((shape si).connIdx e c) c
        allLinks := (shape si).allLinks.unlink c
        allHead := (shape si).allLinks.headLess (shape si).allHead c
        allTail := (shape si).allLinks.tailLess (shape si).allTail c
        num := (shape si).num - 1 } := by
  have hunlink := shape_unlinkConn e si c
  rw [shape_unlinkAll]
  · rw [hunlink]
  · rw [hunlink]
    exact hself

theorem ConnPart.tail_ne (h : ConnPart e (shape si) all chain) (hnew : c ∉ all) :
    (shape si).allTail ≠ some c := by
  rw [h.listed.tail_eq]
  exact fun ht => hnew (List.mem_of_getLast? ht)

theorem ConnPart.insert (h : ConnPart e (shape si) all chain) (hnew : c ∉ all) :
    ConnPart e (shape (linkAll (linkConn e si c) c)) (all ++ [c])
      (Links.setAt chain ((shape si).connIdx e c) (c :: chain ((shape si).connIdx e c))) := by
  rw [shape_link (h.tail_ne hnew)]
  refine ⟨?_, ?_, h.table.insert hnew (by simp)⟩
  · have hfirst : ((shape si).allLinks.setNext c none).Listed (shape si).allHead (shape si).allTail all :=
      ⟨h.listed.holds.setNext_out hnew, h.listed.head_eq, h.listed.tail_eq⟩
    exact hfirst.pushBack hnew (by simp)
  · rw [List.length_append, ← h.num_eq]
    rfl

theorem ConnPart.remove (h : ConnPart e (shape si) all chain) (hc : c ∈ all) :
    ConnPart e (shape (unlinkAll (unlinkConn e si c) c)) (all.erase c)
      (Links.setAt chain ((shape si).connIdx e c) ((chain ((shape si).connIdx e c)).erase c)) := by
  rw [shape_unlink (h.listed.holds.prev_ne_self hc)]
  refine ⟨h.listed.remove hc, ?_, h.table.remove hc ?_⟩
  · rw [List.length_erase_of_mem hc, ← h.num_eq]
  · intro b
    rw [h.listed.holds.nodup.mem_erase_iff, and_comm]

/-- A lookup finds the first connection of its chain with the key. -/
theorem ConnPart.find (h : ConnPart e (shape si) all chain) (k : ConnKey) :
    findConnection e si k = (chain (getConnectionHash e k)).find? (fun c => (si.conn c).toConnKey = k) := by
  have hhead : si.connHash (getConnectionHash e k) = (chain (getConnectionHash e k)).head? :=
    h.table.head_eq _
  have hholds := h.table.holds (getConnectionHash e k)
  have hfuel : (chain (getConnectionHash e k)).length ≤ si.numConnections := by
    have := h.table.length_le (fun c hc => hc) (getConnectionHash e k)
    rwa [← h.num_eq] at this
  unfold findConnection
  rw [hhead]
  cases hchain : chain (getConnectionHash e k) with
  | nil => rfl
  | cons head rest =>
    rw [hchain] at hholds hfuel
    have hnext : (si.conn head).next = rest.head? := hholds.seg.2.1.trans (by simp)
    dsimp only [List.head?_cons]
    by_cases hkey : (si.conn head).toConnKey = k
    · rw [if_pos hkey, List.find?_cons_of_pos (by simpa using hkey)]
    · rw [if_neg hkey, List.find?_cons_of_neg (by simpa using hkey), hnext]
      exact hholds.seg.2.2.walkFind_eq _ (Nat.le_of_succ_le hfuel)

theorem ConnPart.find_some (h : ConnPart e (shape si) all chain) {k : ConnKey}
    (hfind : findConnection e si k = some c) : c ∈ all ∧ (si.conn c).toConnKey = k := by
  rw [h.find] at hfind
  refine ⟨((h.table.mem c _).mp (List.mem_of_find?_eq_some hfind)).1, ?_⟩
  simpa using List.find?_some hfind

/-- Every live connection is found by its key. -/
theorem ConnPart.find_none (h : ConnPart e (shape si) all chain) {k : ConnKey}
    (hfind : findConnection e si k = none) (hc : c ∈ all) : (si.conn c).toConnKey ≠ k := by
  intro hk
  rw [h.find, List.find?_eq_none] at hfind
  refine hfind c ((h.table.mem c _).mpr ⟨hc, ?_⟩) (by simpa using hk)
  exact congrArg (getConnectionHash e) hk

end Conn

/-! ## Frames -/

section Same

variable {e : Endian} {si : SfeIpv4} {s s' s'' : Shape} {a : Nat}

theorem SameConns.trans (h : SameConns s s') (h' : SameConns s' s'') : SameConns s s'' :=
  ⟨h'.ids.trans h.ids, h'.connLinks.trans h.connLinks, h'.connHash.trans h.connHash,
    h'.allLinks.trans h.allLinks, h'.allHead.trans h.allHead, h'.allTail.trans h.allTail,
    h'.num.trans h.num⟩

theorem ConnPart.congr {all : List Nat} {chain : Nat → List Nat} (h : ConnPart e s all chain)
    (hs : SameConns s s') : ConnPart e s' all chain := by
  have hidx : s'.connIdx e = s.connIdx e := by
    funext c
    unfold Shape.connIdx
    rw [hs.ids]
  refine ⟨?_, ?_, ?_⟩
  · rw [hs.allLinks, hs.allHead, hs.allTail]
    exact h.listed
  · rw [hs.num, h.num_eq]
  · rw [hs.connLinks, hs.connHash, hidx]
    exact h.table

theorem MatchPart.congr {live : Nat → Prop} {active : List Nat} {chain : Nat → List Nat}
    (h : MatchPart e s live active chain) (hs : SameMatches s s') : MatchPart e s' live active chain := by
  have hidx : s'.matchIdx e = s.matchIdx e := by
    funext c
    unfold Shape.matchIdx
    rw [hs.ids]
  refine ⟨?_, ?_, ?_, ?_⟩
  · rw [hs.matchLinks, hs.matchHash, hidx]
    exact h.table
  · rw [hs.activeLinks, hs.activeHead, hs.activeTail]
    exact h.listed
  · rw [hs.flag]
    exact h.mem_active
  · rw [hs.flag, hs.activeLinks]
    exact h.idle

theorem sameConns_insertConnectionMatch (e : Endian) (si : SfeIpv4) (a : Nat) :
    SameConns (shape si) (shape (insertConnectionMatch e si a)) := by
  rw [shape_insertConnectionMatch]
  exact ⟨rfl, rfl, rfl, rfl, rfl, rfl, rfl⟩

theorem sameConns_unlinkMatch : SameConns (shape si) (shape (unlinkMatch e si a)) := by
  rw [shape_unlinkMatch]
  exact ⟨rfl, rfl, rfl, rfl, rfl, rfl, rfl⟩

theorem sameConns_setActiveNext (v : Option Nat) : SameConns (shape si) (shape (setActiveNext si a v)) := by
  rw [shape_setActiveNext]
  exact ⟨rfl, rfl, rfl, rfl, rfl, rfl, rfl⟩

theorem sameConns_setActivePrev (v : Option Nat) : SameConns (shape si) (shape (setActivePrev si a v)) := by
  rw [shape_setActivePrev]
  exact ⟨rfl, rfl, rfl, rfl, rfl, rfl, rfl⟩

theorem sameConns_activeHeads (head tail : Option Nat) :
    SameConns (shape si) (shape { si with activeHead := head, activeTail := tail }) :=
  ⟨rfl, rfl, rfl, rfl, rfl, rfl, rfl⟩

/-- A link is followed when it leads somewhere. -/
theorem sameConns_link (o : Option Nat) {f : Nat → SfeIpv4} {q : SfeIpv4}
    (hsome : ∀ n, SameConns s (shape (f n))) (hnone : SameConns s (shape q)) :
    SameConns s (shape (match o with | some n => f n | none => q)) := by
  cases o with
  | some n => exact hsome n
  | none => exact hnone

theorem sameConns_unlinkActive : SameConns (shape si) (shape (unlinkActive si a)) := by
  unfold unlinkActive
  exact (sameConns_link _ (fun _ => sameConns_setActiveNext _) (sameConns_activeHeads _ _)).trans
    (sameConns_link _ (fun _ => sameConns_setActivePrev _) (sameConns_activeHeads _ _))

theorem sameConns_removeConnectionMatch : SameConns (shape si) (shape (removeConnectionMatch e si a)) := by
  have hfirst : SameConns (shape si) (shape (unlinkMatch e si a)) := sameConns_unlinkMatch
  unfold removeConnectionMatch
  dsimp only
  split
  · exact hfirst.trans sameConns_unlinkActive
  · exact hfirst

end Same

/-! ## Whole connections -/

/-- The two matches of a connection know it and each other. -/
structure Owned (ids : Ids) (c : Nat) : Prop where
  owner_original : ids.owner (ids.original c) = c
  owner_reply : ids.owner (ids.reply c) = c
  counter_original : ids.counter (ids.original c) = ids.reply c
  counter_reply : ids.counter (ids.reply c) = ids.original c
  ne : ids.original c ≠ ids.reply c

/-- The matches of the connections of a list. -/
def MatchOf (ids : Ids) (all : List Nat) (a : Nat) : Prop :=
  ∃ c ∈ all, a = ids.original c ∨ a = ids.reply c

section Owned

variable {ids : Ids} {all : List Nat} {a c : Nat}

theorem MatchOf.owner (h : MatchOf ids all a) (hown : ∀ c ∈ all, Owned ids c) :
    ids.owner a ∈ all ∧ (a = ids.original (ids.owner a) ∨ a = ids.reply (ids.owner a)) := by
  obtain ⟨c, hc, rfl | rfl⟩ := h
  · rw [(hown c hc).owner_original]
    exact ⟨hc, Or.inl rfl⟩
  · rw [(hown c hc).owner_reply]
    exact ⟨hc, Or.inr rfl⟩

theorem MatchOf.counter (h : MatchOf ids all a) (hown : ∀ c ∈ all, Owned ids c) :
    MatchOf ids all (ids.counter a) ∧ ids.counter a ≠ a := by
  obtain ⟨c, hc, rfl | rfl⟩ := h
  · rw [(hown c hc).counter_original]
    exact ⟨⟨c, hc, Or.inr rfl⟩, (hown c hc).ne.symm⟩
  · rw [(hown c hc).counter_reply]
    exact ⟨⟨c, hc, Or.inl rfl⟩, (hown c hc).ne⟩

/-- Without one connection, both its matches are gone and no other. -/
theorem matchOf_erase (hown : ∀ c ∈ all, Owned ids c) (hnd : all.Nodup) (hc : c ∈ all) (b : Nat) :
    MatchOf ids (all.erase c) b ↔
      (MatchOf ids all b ∧ b ≠ ids.reply c) ∧ b ≠ ids.original c := by
  constructor
  · rintro ⟨d, hd, hb⟩
    obtain ⟨hdc, hd⟩ := hnd.mem_erase_iff.mp hd
    have howner : ids.owner b = d := by
      rcases hb with rfl | rfl
      · exact (hown d hd).owner_original
      · exact (hown d hd).owner_reply
    refine ⟨⟨⟨d, hd, hb⟩, ?_⟩, ?_⟩
    · rintro rfl
      exact hdc (howner.symm.trans (hown c hc).owner_reply)
    · rintro rfl
      exact hdc (howner.symm.trans (hown c hc).owner_original)
  · rintro ⟨⟨⟨d, hd, hb⟩, hr⟩, ho⟩
    refine ⟨d, hnd.mem_erase_iff.mpr ⟨?_, hd⟩, hb⟩
    rintro rfl
    rcases hb with hb | hb
    · exact ho hb
    · exact hr hb

/-- A connection more has two matches more. -/
theorem matchOf_concat {ids' : Ids}
    (hsame : ∀ d ∈ all, ids'.original d = ids.original d ∧ ids'.reply d = ids.reply d) (b : Nat) :
    MatchOf ids' (all ++ [c]) b ↔ (MatchOf ids all b ∨ b = ids'.original c) ∨ b = ids'.reply c := by
  constructor
  · rintro ⟨d, hd, hb⟩
    rcases List.mem_append.mp hd with hd | hd
    · rw [(hsame d hd).1, (hsame d hd).2] at hb
      exact Or.inl (Or.inl ⟨d, hd, hb⟩)
    · rw [List.mem_singleton.mp hd] at hb
      exact hb.imp_left Or.inr
  · rintro ((⟨d, hd, hb⟩ | hb) | hb)
    · rw [← (hsame d hd).1, ← (hsame d hd).2] at hb
      exact ⟨d, List.mem_append_left _ hd, hb⟩
    · exact ⟨c, by simp, Or.inl hb⟩
    · exact ⟨c, by simp, Or.inr hb⟩

/-- All matches, as a list. -/
theorem MatchOf.mem_list (h : MatchOf ids all a) : a ∈ all.map ids.original ++ all.map ids.reply := by
  obtain ⟨c, hc, rfl | rfl⟩ := h
  · exact List.mem_append_left _ (List.mem_map_of_mem hc)
  · exact List.mem_append_right _ (List.mem_map_of_mem hc)

end Owned

section Parts

variable {e : Endian} {si : SfeIpv4} {all active : List Nat} {connChain matchChain : Nat → List Nat}
  {c : Nat}

/-- The chains are no longer than the walks. -/
theorem MatchPart.length_le (hconn : ConnPart e (shape si) all connChain)
    (h : MatchPart e (shape si) (MatchOf (shape si).ids all) active matchChain) (i : Nat) :
    (matchChain i).length ≤ matchFuel si := by
  have hle := h.table.length_le (fun a ha => ha.mem_list) i
  have hnum : si.numConnections = all.length := hconn.num_eq
  rw [List.length_append, List.length_map, List.length_map] at hle
  unfold matchFuel
  omega

theorem removeConnection_parts (hconn : ConnPart e (shape si) all connChain)
    (hmatch : MatchPart e (shape si) (MatchOf (shape si).ids all) active matchChain)
    (hown : ∀ c ∈ all, Owned (shape si).ids c) (hc : c ∈ all) :
    ∃ active' connChain' matchChain',
      ConnPart e (shape (removeConnection e si c)) (all.erase c) connChain' ∧
      MatchPart e (shape (removeConnection e si c)) (MatchOf (shape si).ids (all.erase c)) active'
        matchChain' ∧
      (shape (removeConnection e si c)).ids = (shape si).ids := by
  have hlive := matchOf_erase hown hconn.listed.holds.nodup hc
  -- the reply match, then the original match
  have hreply : MatchOf (shape si).ids all ((shape si).ids.reply c) := ⟨c, hc, Or.inr rfl⟩
  have hm₁ := hmatch.remove hreply fun b => Iff.rfl
  have hs₁ : SameConns (shape si) (shape (removeConnectionMatch e si ((shape si).ids.reply c))) :=
    sameConns_removeConnectionMatch
  generalize hsi₁ : removeConnectionMatch e si ((shape si).ids.reply c) = si₁ at hm₁ hs₁
  have horig : (si₁.conn c).originalMatch = (shape si).ids.original c :=
    congrFun (congrArg Ids.original hs₁.ids) c
  have hm₂ := hm₁.remove ⟨⟨c, hc, Or.inl rfl⟩, (hown c hc).ne⟩ hlive
  have hs₂ := hs₁.trans (sameConns_removeConnectionMatch (e := e) (a := (shape si).ids.original c))
  generalize hsi₂ : removeConnectionMatch e si₁ ((shape si).ids.original c) = si₂ at hm₂ hs₂
  -- then the connection
  have hremove : removeConnection e si c = unlinkAll (unlinkConn e si₂ c) c := by
    unfold removeConnection
    dsimp only
    rw [show (si.conn c).replyMatch = (shape si).ids.reply c from rfl, hsi₁, horig, hsi₂]
  have hconn₂ := hconn.congr hs₂
  have hshape := shape_unlink (e := e) (hconn₂.listed.holds.prev_ne_self hc)
  rw [hremove]
  refine ⟨_, _, _, hconn₂.remove hc, hm₂.congr ?_, ?_⟩
  · rw [hshape]
    exact ⟨rfl, rfl, rfl, rfl, rfl, rfl, rfl⟩
  · rw [hshape]
    exact hs₂.ids

/-! ## New connections -/

/-- The objects of a new connection, filled in and not yet inserted. -/
def fillConnection (si : SfeIpv4) (sic : ConnectionCreate) (mem : Alloc) (now : BitVec 64) : SfeIpv4 :=
  ((si.modCm mem.original fun old =>
    computeTranslations (newOriginalMatch old sic mem.conn mem.reply)).modCm mem.reply fun old =>
      computeTranslations (newReplyMatch old sic mem.conn mem.original)).modConn mem.conn fun old =>
        newConnection old sic mem.original mem.reply now

theorem addConnection_eq (sic : ConnectionCreate) (mem : Alloc) (now : BitVec 64) :
    addConnection e si sic mem now = insertConnection e (fillConnection si sic mem now) mem.conn := rfl

section Fill

variable (si) (sic : ConnectionCreate) (mem : Alloc) (now : BitVec 64)

theorem fillConnection_cm {b : Nat} (ho : b ≠ mem.original) (hr : b ≠ mem.reply) :
    (fillConnection si sic mem now).cm b = si.cm b := by
  simp [fillConnection, SfeIpv4.modCm, SfeIpv4.modConn, ho, hr]

theorem fillConnection_original (hne : mem.original ≠ mem.reply) :
    (fillConnection si sic mem now).cm mem.original
      = computeTranslations (newOriginalMatch (si.cm mem.original) sic mem.conn mem.reply) := by
  simp [fillConnection, SfeIpv4.modCm, SfeIpv4.modConn, hne]

theorem fillConnection_reply (hne : mem.original ≠ mem.reply) :
    (fillConnection si sic mem now).cm mem.reply
      = computeTranslations (newReplyMatch (si.cm mem.reply) sic mem.conn mem.original) := by
  simp [fillConnection, SfeIpv4.modCm, SfeIpv4.modConn, hne.symm]

theorem fillConnection_conn {d : Nat} (hd : d ≠ mem.conn) :
    (fillConnection si sic mem now).conn d = si.conn d := by
  simp [fillConnection, SfeIpv4.modCm, SfeIpv4.modConn, hd]

theorem fillConnection_self : (fillConnection si sic mem now).conn mem.conn
    = newConnection (si.conn mem.conn) sic mem.original mem.reply now := by
  simp [fillConnection, SfeIpv4.modCm, SfeIpv4.modConn]

/-- The new matches belong to the new connection. -/
theorem fillConnection_owned (hne : mem.original ≠ mem.reply) :
    Owned (shape (fillConnection si sic mem now)).ids mem.conn := by
  have hself := fillConnection_self si sic mem now
  have horig : (shape (fillConnection si sic mem now)).ids.original mem.conn = mem.original :=
    congrArg Connection.originalMatch hself
  have hreply : (shape (fillConnection si sic mem now)).ids.reply mem.conn = mem.reply :=
    congrArg Connection.replyMatch hself
  have ho := fillConnection_original si sic mem now hne
  have hr := fillConnection_reply si sic mem now hne
  constructor
  · rw [horig]
    exact congrArg ConnectionMatch.connection ho
  · rw [hreply]
    exact congrArg ConnectionMatch.connection hr
  · rw [horig, hreply]
    exact congrArg ConnectionMatch.counterMatch ho
  · rw [horig, hreply]
    exact congrArg ConnectionMatch.counterMatch hr
  · rw [horig, hreply]
    exact hne

/-- An older connection keeps its matches. -/
theorem fillConnection_owned_other {d : Nat} (h : Owned (shape si).ids d) (hd : d ≠ mem.conn)
    (ho : (shape si).ids.original d ≠ mem.original ∧ (shape si).ids.original d ≠ mem.reply)
    (hr : (shape si).ids.reply d ≠ mem.original ∧ (shape si).ids.reply d ≠ mem.reply) :
    Owned (shape (fillConnection si sic mem now)).ids d := by
  have hconn := fillConnection_conn si sic mem now hd
  have hcmo := fillConnection_cm si sic mem now ho.1 ho.2
  have hcmr := fillConnection_cm si sic mem now hr.1 hr.2
  have horig : (shape (fillConnection si sic mem now)).ids.original d = (shape si).ids.original d :=
    congrArg Connection.originalMatch hconn
  have hreply : (shape (fillConnection si sic mem now)).ids.reply d = (shape si).ids.reply d :=
    congrArg Connection.replyMatch hconn
  constructor
  · rw [horig]
    exact (congrArg ConnectionMatch.connection hcmo).trans h.owner_original
  · rw [hreply]
    exact (congrArg ConnectionMatch.connection hcmr).trans h.owner_reply
  · rw [horig, hreply]
    exact (congrArg ConnectionMatch.counterMatch hcmo).trans h.counter_original
  · rw [horig, hreply]
    exact (congrArg ConnectionMatch.counterMatch hcmr).trans h.counter_reply
  · rw [horig, hreply]
    exact h.ne

end Fill

/-- Memory outside the live matches is free to change. -/
theorem MatchPart.outside {si' : SfeIpv4} {live : Nat → Prop}
    (h : MatchPart e (shape si) live active matchChain) (hcm : ∀ b, live b → si'.cm b = si.cm b)
    (hhash : si'.connMatchHash = si.connMatchHash) (hhead : si'.activeHead = si.activeHead)
    (htail : si'.activeTail = si.activeTail) : MatchPart e (shape si') live active matchChain := by
  have hlive : ∀ b ∈ active, live b := fun b hb => ((h.mem_active b).mp hb).1
  refine ⟨?_, ?_, ?_, ?_⟩
  · rw [show (shape si').matchHash = (shape si).matchHash from hhash]
    refine h.table.congr (fun b => Iff.rfl) (fun b hb => ?_) (fun b hb => ?_) fun b hb => ?_
    · exact congrArg (fun m : ConnectionMatch => getConnectionMatchHash e m.toMatchKey) (hcm b hb)
    · exact congrArg ConnectionMatch.next (hcm b hb)
    · exact congrArg ConnectionMatch.prev (hcm b hb)
  · rw [show (shape si').activeHead = (shape si).activeHead from hhead,
      show (shape si').activeTail = (shape si).activeTail from htail]
    refine h.listed.congr (fun b hb => ?_) fun b hb => ?_
    · exact congrArg ConnectionMatch.activeNext (hcm b (hlive b hb))
    · exact congrArg ConnectionMatch.activePrev (hcm b (hlive b hb))
  · intro b
    rw [h.mem_active]
    refine and_congr_right fun hb => ?_
    rw [show (shape si').flag b = (shape si).flag b from congrArg ConnectionMatch.active (hcm b hb)]
  · intro b hb hf
    rw [show (shape si').flag b = (shape si).flag b from congrArg ConnectionMatch.active (hcm b hb)] at hf
    exact (congrArg ConnectionMatch.activeNext (hcm b hb)).trans (h.idle b hb hf)

/-- Memory outside the live connections is free to change. -/
theorem ConnPart.outside {si' : SfeIpv4} (h : ConnPart e (shape si) all connChain)
    (hcon : ∀ d ∈ all, si'.conn d = si.conn d) (hhash : si'.connHash = si.connHash)
    (hhead : si'.allConnectionsHead = si.allConnectionsHead)
    (htail : si'.allConnectionsTail = si.allConnectionsTail)
    (hnum : si'.numConnections = si.numConnections) : ConnPart e (shape si') all connChain := by
  refine ⟨?_, hnum.trans h.num_eq, ?_⟩
  · rw [show (shape si').allHead = (shape si).allHead from hhead,
      show (shape si').allTail = (shape si).allTail from htail]
    refine h.listed.congr (fun d hd => ?_) fun d hd => ?_
    · exact congrArg Connection.allConnectionsNext (hcon d hd)
    · exact congrArg Connection.allConnectionsPrev (hcon d hd)
  · rw [show (shape si').connHash = (shape si).connHash from hhash]
    refine h.table.congr (fun d => Iff.rfl) (fun d hd => ?_) (fun d hd => ?_) fun d hd => ?_
    · exact congrArg (fun x : Connection => getConnectionHash e x.toConnKey) (hcon d hd)
    · exact congrArg Connection.next (hcon d hd)
    · exact congrArg Connection.prev (hcon d hd)

theorem addConnection_parts (sic : ConnectionCreate) (mem : Alloc) (now : BitVec 64)
    (hconn : ConnPart e (shape si) all connChain)
    (hmatch : MatchPart e (shape si) (MatchOf (shape si).ids all) active matchChain)
    (hnew : mem.conn ∉ all) (ho : ¬ MatchOf (shape si).ids all mem.original)
    (hr : ¬ MatchOf (shape si).ids all mem.reply) (hne : mem.original ≠ mem.reply) :
    ∃ connChain' matchChain',
      ConnPart e (shape (addConnection e si sic mem now)) (all ++ [mem.conn]) connChain' ∧
      MatchPart e (shape (addConnection e si sic mem now))
        (MatchOf (shape (fillConnection si sic mem now)).ids (all ++ [mem.conn])) active matchChain' ∧
      (shape (addConnection e si sic mem now)).ids = (shape (fillConnection si sic mem now)).ids := by
  have hself := fillConnection_self si sic mem now
  have hcon : ∀ d ∈ all, (fillConnection si sic mem now).conn d = si.conn d := fun d hd =>
    fillConnection_conn si sic mem now fun he => hnew (he ▸ hd)
  have hcm : ∀ b, MatchOf (shape si).ids all b → (fillConnection si sic mem now).cm b = si.cm b :=
    fun b hb => fillConnection_cm si sic mem now (fun he => ho (he ▸ hb)) fun he => hr (he ▸ hb)
  have hconn₀ : ConnPart e (shape (fillConnection si sic mem now)) all connChain :=
    hconn.outside hcon rfl rfl rfl rfl
  have hmatch₀ : MatchPart e (shape (fillConnection si sic mem now)) (MatchOf (shape si).ids all) active
      matchChain := hmatch.outside hcm rfl rfl rfl
  have hoeq := fillConnection_original si sic mem now hne
  have hreq := fillConnection_reply si sic mem now hne
  rw [addConnection_eq]
  generalize fillConnection si sic mem now = si₀ at *
  -- the connection, then its two matches
  have hlink := shape_link (e := e) (hconn₀.tail_ne hnew)
  have hconn₁ := hconn₀.insert hnew
  have hmatch₁ : MatchPart e (shape (linkAll (linkConn e si₀ mem.conn) mem.conn))
      (MatchOf (shape si).ids all) active matchChain := by
    refine hmatch₀.congr ?_
    rw [hlink]
    exact ⟨rfl, rfl, rfl, rfl, rfl, rfl, rfl⟩
  have hids₁ : (shape (linkAll (linkConn e si₀ mem.conn) mem.conn)).ids = (shape si₀).ids := by rw [hlink]
  have hflag₁ : ∀ b, (shape (linkAll (linkConn e si₀ mem.conn) mem.conn)).flag b = (si₀.cm b).active ∧
      (shape (linkAll (linkConn e si₀ mem.conn) mem.conn)).activeLinks.next b = (si₀.cm b).activeNext := by
    intro b
    rw [hlink]
    exact ⟨rfl, rfl⟩
  have hinsert : insertConnection e si₀ mem.conn = insertConnectionMatch e
      (insertConnectionMatch e (linkAll (linkConn e si₀ mem.conn) mem.conn) mem.original) mem.reply := by
    have horig : ((linkAll (linkConn e si₀ mem.conn) mem.conn).conn mem.conn).originalMatch = mem.original :=
      (congrFun (congrArg Ids.original hids₁) mem.conn).trans (congrArg Connection.originalMatch hself)
    unfold insertConnection
    dsimp only
    rw [horig]
    generalize linkAll (linkConn e si₀ mem.conn) mem.conn = si₁ at hids₁ ⊢
    have hids₂ := (sameConns_insertConnectionMatch e si₁ mem.original).ids
    have hreply : ((insertConnectionMatch e si₁ mem.original).conn mem.conn).replyMatch = mem.reply :=
      (congrFun (congrArg Ids.reply (hids₂.trans hids₁)) mem.conn).trans
        (congrArg Connection.replyMatch hself)
    rw [hreply]
  rw [hinsert]
  generalize linkAll (linkConn e si₀ mem.conn) mem.conn = si₁ at *
  have hmatch₂ : MatchPart e (shape (insertConnectionMatch e si₁ mem.original))
      (fun b => MatchOf (shape si).ids all b ∨ b = mem.original) active _ :=
    hmatch₁.insert ho ((hflag₁ _).1.trans (congrArg ConnectionMatch.active hoeq))
      ((hflag₁ _).2.trans (congrArg ConnectionMatch.activeNext hoeq)) fun b => Iff.rfl
  have hsame₂ := sameConns_insertConnectionMatch e si₁ mem.original
  have hflag₂ : (shape (insertConnectionMatch e si₁ mem.original)).flag mem.reply = false ∧
      (shape (insertConnectionMatch e si₁ mem.original)).activeLinks.next mem.reply = none := by
    rw [shape_insertConnectionMatch]
    exact ⟨(hflag₁ _).1.trans (congrArg ConnectionMatch.active hreq),
      (hflag₁ _).2.trans (congrArg ConnectionMatch.activeNext hreq)⟩
  generalize insertConnectionMatch e si₁ mem.original = si₂ at *
  have hlive : ∀ b, MatchOf (shape si₀).ids (all ++ [mem.conn]) b ↔
      (MatchOf (shape si).ids all b ∨ b = mem.original) ∨ b = mem.reply := by
    intro b
    have hsame : ∀ d ∈ all, (shape si₀).ids.original d = (shape si).ids.original d ∧
        (shape si₀).ids.reply d = (shape si).ids.reply d := fun d hd =>
      ⟨congrArg Connection.originalMatch (hcon d hd), congrArg Connection.replyMatch (hcon d hd)⟩
    rw [matchOf_concat hsame]
    rw [show (shape si₀).ids.original mem.conn = mem.original from congrArg Connection.originalMatch hself,
      show (shape si₀).ids.reply mem.conn = mem.reply from congrArg Connection.replyMatch hself]
  have hmatch₃ := hmatch₂.insert (not_or.mpr ⟨hr, hne.symm⟩) hflag₂.1 hflag₂.2 hlive
  have hsame₃ := sameConns_insertConnectionMatch e si₂ mem.reply
  exact ⟨_, _, hconn₁.congr (hsame₂.trans hsame₃), hmatch₃, (hsame₂.trans hsame₃).ids.trans hids₁⟩

end Parts

end Lede.Sfe
