/-
Lede.Sfe.Frame — what the work on the tables leaves alone.

Inserting, removing, looking up and activating only write links, active flags and
heads. `Relinked` says so: two states of the memory that agree on everything
else. Each operation of `Lede.Sfe.Table`, and the sync's work on the active list,
is shown to be such a step, so that facts about keys, translations, windows and
counters need no proof for each of them.
-/
import Lede.Sfe.Rule

namespace Lede.Sfe

open Lede.Lib

/-- A match without its links. -/
def unlinked (m : ConnectionMatch) : ConnectionMatch :=
  { m with next := none, prev := none, activeNext := none, activePrev := none, active := false }

/-- A connection without its links. -/
def unlinkedConn (x : Connection) : Connection :=
  { x with next := none, prev := none, allConnectionsNext := none, allConnectionsPrev := none }

/-- Only links, flags and heads were written. -/
structure Relinked (si si' : SfeIpv4) : Prop where
  cm : ∀ a, unlinked (si'.cm a) = unlinked (si.cm a)
  conn : ∀ c, unlinkedConn (si'.conn c) = unlinkedConn (si.conn c)
  syncRuleCallback : si'.syncRuleCallback = si.syncRuleCallback
  debugReadSeq : si'.debugReadSeq = si.debugReadSeq

namespace Relinked

variable {si si' si'' : SfeIpv4}

theorem refl (si : SfeIpv4) : Relinked si si := ⟨fun _ => rfl, fun _ => rfl, rfl, rfl⟩

theorem trans (h : Relinked si si') (h' : Relinked si' si'') : Relinked si si'' :=
  ⟨fun a => (h'.cm a).trans (h.cm a), fun c => (h'.conn c).trans (h.conn c),
    h'.syncRuleCallback.trans h.syncRuleCallback, h'.debugReadSeq.trans h.debugReadSeq⟩

theorem modCm (si : SfeIpv4) (a : Nat) {f : ConnectionMatch → ConnectionMatch}
    (hf : ∀ m, unlinked (f m) = unlinked m) : Relinked si (si.modCm a f) := by
  refine ⟨fun b => ?_, fun _ => rfl, rfl, rfl⟩
  unfold SfeIpv4.modCm
  dsimp only
  split
  · exact hf _
  · rfl

theorem modConn (si : SfeIpv4) (c : Nat) {f : Connection → Connection}
    (hf : ∀ x, unlinkedConn (f x) = unlinkedConn x) : Relinked si (si.modConn c f) := by
  refine ⟨fun _ => rfl, fun b => ?_, rfl, rfl⟩
  unfold SfeIpv4.modConn
  dsimp only
  split
  · exact hf _
  · rfl

/-- A link is followed when it leads somewhere. -/
theorem link (o : Option Nat) {f : Nat → SfeIpv4} {q : SfeIpv4} (hsome : ∀ n, Relinked si (f n))
    (hnone : Relinked si q) : Relinked si (match o with | some n => f n | none => q) := by
  cases o with
  | some n => exact hsome n
  | none => exact hnone

end Relinked

section Ops

variable (e : Endian) (si : SfeIpv4) (a c i : Nat) (v : Option Nat)

/-! ## Assignments -/

theorem relinked_setMatchNext : Relinked si (setMatchNext si a v) := .modCm si a fun _ => rfl

theorem relinked_setMatchPrev : Relinked si (setMatchPrev si a v) := .modCm si a fun _ => rfl

theorem relinked_setMatchHead : Relinked si (setMatchHead si i v) :=
  ⟨fun _ => rfl, fun _ => rfl, rfl, rfl⟩

theorem relinked_setActiveNext : Relinked si (setActiveNext si a v) := .modCm si a fun _ => rfl

theorem relinked_setActivePrev : Relinked si (setActivePrev si a v) := .modCm si a fun _ => rfl

theorem relinked_setActive (v : Bool) : Relinked si (setActive si a v) := .modCm si a fun _ => rfl

theorem relinked_setConnNext : Relinked si (setConnNext si c v) := .modConn si c fun _ => rfl

theorem relinked_setConnPrev : Relinked si (setConnPrev si c v) := .modConn si c fun _ => rfl

theorem relinked_setConnHead : Relinked si (setConnHead si i v) :=
  ⟨fun _ => rfl, fun _ => rfl, rfl, rfl⟩

theorem relinked_setAllNext : Relinked si (setAllNext si c v) := .modConn si c fun _ => rfl

theorem relinked_setAllPrev : Relinked si (setAllPrev si c v) := .modConn si c fun _ => rfl

/-- Heads, tails and the number of connections. -/
theorem relinked_heads (head tail all allTail : Option Nat) (num : Nat) :
    Relinked si { si with
      activeHead := head
      activeTail := tail
      allConnectionsHead := all
      allConnectionsTail := allTail
      numConnections := num } :=
  ⟨fun _ => rfl, fun _ => rfl, rfl, rfl⟩

/-! ## Operations -/

theorem relinked_insertConnectionMatch : Relinked si (insertConnectionMatch e si a) :=
  (((relinked_setMatchPrev si a none).trans
    (.link _ (fun _ => relinked_setMatchPrev _ _ _) (.refl _))).trans
    (relinked_setMatchNext _ _ _)).trans (relinked_setMatchHead _ _ _)

theorem relinked_unlinkMatch : Relinked si (unlinkMatch e si a) := by
  unfold unlinkMatch
  exact (Relinked.link _ (fun _ => relinked_setMatchNext _ _ _) (relinked_setMatchHead _ _ _)).trans
    (.link _ (fun _ => relinked_setMatchPrev _ _ _) (.refl _))

theorem relinked_activate : Relinked si (activate si a) := by
  unfold activate
  split
  · exact .refl si
  · exact (((relinked_setActive si a true).trans (relinked_setActivePrev _ _ _)).trans
      (.link _ (fun _ => relinked_setActiveNext _ _ _) (relinked_heads _ _ _ _ _ _))).trans
      (relinked_heads _ _ _ _ _ _)

theorem relinked_unlinkActive : Relinked si (unlinkActive si a) := by
  unfold unlinkActive
  exact (Relinked.link _ (fun _ => relinked_setActiveNext _ _ _) (relinked_heads _ _ _ _ _ _)).trans
    (.link _ (fun _ => relinked_setActivePrev _ _ _) (relinked_heads _ _ _ _ _ _))

theorem relinked_removeConnectionMatch : Relinked si (removeConnectionMatch e si a) := by
  unfold removeConnectionMatch
  dsimp only
  split
  · exact (relinked_unlinkMatch e si a).trans (relinked_unlinkActive _ a)
  · exact relinked_unlinkMatch e si a

theorem relinked_findConnectionMatch (k : MatchKey) : Relinked si (findConnectionMatch e si k).2 := by
  unfold findConnectionMatch
  dsimp only
  split
  · exact .refl si
  · split
    · exact .refl si
    · split
      · exact .refl si
      · exact (((((Relinked.link _ (fun _ => relinked_setMatchPrev _ _ _) (.refl si)).trans
          (.link _ (fun _ => relinked_setMatchNext _ _ _) (.refl _))).trans
          (relinked_setMatchPrev _ _ _)).trans (relinked_setMatchNext _ _ _)).trans
          (relinked_setMatchPrev _ _ _)).trans (relinked_setMatchHead _ _ _)

theorem relinked_linkConn : Relinked si (linkConn e si c) :=
  (((relinked_setConnPrev si c none).trans
    (.link _ (fun _ => relinked_setConnPrev _ _ _) (.refl _))).trans
    (relinked_setConnNext _ _ _)).trans (relinked_setConnHead _ _ _)

theorem relinked_linkAll : Relinked si (linkAll si c) := by
  unfold linkAll
  exact (((Relinked.link _
      (fun t => (relinked_setAllPrev si c (some t)).trans (relinked_setAllNext _ t (some c)))
      ((relinked_setAllPrev si c none).trans (relinked_heads _ _ _ _ _ _))).trans
      (relinked_heads _ _ _ _ _ _)).trans (relinked_setAllNext _ _ _)).trans
    (relinked_heads _ _ _ _ _ _)

theorem relinked_insertConnection : Relinked si (insertConnection e si c) :=
  (((relinked_linkConn e si c).trans (relinked_linkAll _ c)).trans
    (relinked_insertConnectionMatch e _ _)).trans (relinked_insertConnectionMatch e _ _)

theorem relinked_unlinkConn : Relinked si (unlinkConn e si c) := by
  unfold unlinkConn
  exact (Relinked.link _ (fun _ => relinked_setConnNext _ _ _) (relinked_setConnHead _ _ _)).trans
    (.link _ (fun _ => relinked_setConnPrev _ _ _) (.refl _))

theorem relinked_unlinkAll : Relinked si (unlinkAll si c) := by
  unfold unlinkAll
  exact ((Relinked.link _ (fun _ => relinked_setAllNext _ _ _) (relinked_heads _ _ _ _ _ _)).trans
    (.link _ (fun _ => relinked_setAllPrev _ _ _) (relinked_heads _ _ _ _ _ _))).trans
    (relinked_heads _ _ _ _ _ _)

theorem relinked_removeConnection : Relinked si (removeConnection e si c) :=
  (((relinked_removeConnectionMatch e si _).trans (relinked_removeConnectionMatch e _ _)).trans
    (relinked_unlinkConn e _ c)).trans (relinked_unlinkAll _ c)

theorem relinked_dropCounterMatch : Relinked si (dropCounterMatch si a) := by
  unfold dropCounterMatch
  split
  · exact .refl si
  · exact ((((relinked_setActive si a false).trans
      (.link _ (fun _ => relinked_setActiveNext _ _ _) (.refl _))).trans
      (.link _ (fun _ => relinked_setActivePrev _ _ _) (relinked_heads _ _ _ _ _ _))).trans
      (relinked_setActiveNext _ _ _)).trans (relinked_setActivePrev _ _ _)

theorem relinked_dropActiveHead : Relinked si (dropActiveHead si a) :=
  (((relinked_setActive si a false).trans (relinked_heads _ _ _ _ _ _)).trans
    (.link _ (fun _ => relinked_setActivePrev _ _ _) (relinked_heads _ _ _ _ _ _))).trans
    (relinked_setActiveNext _ _ _)

end Ops

end Lede.Sfe
