/-
Lede.Sfe.Shape — the pointers of the connection tables, apart from all else.

The four kinds of list of `sfe_ipv4.c` are links in the objects. `shape` reads
them off the memory as `Lede.Lib.Links`, with the heads and tails, the active
flags, and the fields that say which objects belong together (`Ids`). Every
operation on the tables is an operation of the library on one part of the shape,
and leaves the others alone; the rest of `sfe_ipv4.c` (counters, windows, marks)
does not change the shape at all.
-/
import Lede.Sfe.Rule

namespace Lede.Sfe

open Lede.Lib

/-- Keys, and which objects belong together. -/
structure Ids where
  key : Nat → MatchKey
  owner : Nat → Nat
  counter : Nat → Nat
  connKey : Nat → ConnKey
  original : Nat → Nat
  reply : Nat → Nat

/-- All pointers of the tables. -/
structure Shape where
  ids : Ids
  matchLinks : Links Nat
  matchHash : Nat → Option Nat
  activeLinks : Links Nat
  activeHead : Option Nat
  activeTail : Option Nat
  flag : Nat → Bool
  connLinks : Links Nat
  connHash : Nat → Option Nat
  allLinks : Links Nat
  allHead : Option Nat
  allTail : Option Nat
  num : Nat

def shape (si : SfeIpv4) : Shape where
  ids :=
    { key := fun a => (si.cm a).toMatchKey
      owner := fun a => (si.cm a).connection
      counter := fun a => (si.cm a).counterMatch
      connKey := fun c => (si.conn c).toConnKey
      original := fun c => (si.conn c).originalMatch
      reply := fun c => (si.conn c).replyMatch }
  matchLinks := { next := fun a => (si.cm a).next, prev := fun a => (si.cm a).prev }
  matchHash := si.connMatchHash
  activeLinks := { next := fun a => (si.cm a).activeNext, prev := fun a => (si.cm a).activePrev }
  activeHead := si.activeHead
  activeTail := si.activeTail
  flag := fun a => (si.cm a).active
  connLinks := { next := fun c => (si.conn c).next, prev := fun c => (si.conn c).prev }
  connHash := si.connHash
  allLinks :=
    { next := fun c => (si.conn c).allConnectionsNext, prev := fun c => (si.conn c).allConnectionsPrev }
  allHead := si.allConnectionsHead
  allTail := si.allConnectionsTail
  num := si.numConnections

/-! ## Assignments -/

section Assign

variable (si : SfeIpv4) (a c i : Nat) (v : Option Nat)

/-- An assignment to a match, field by field. -/
theorem shape_modCm (f : ConnectionMatch → ConnectionMatch) : shape (si.modCm a f)
    = { shape si with
        ids :=
          { (shape si).ids with
            key := fun b => if b = a then (f (si.cm b)).toMatchKey else (si.cm b).toMatchKey
            owner := fun b => if b = a then (f (si.cm b)).connection else (si.cm b).connection
            counter := fun b => if b = a then (f (si.cm b)).counterMatch else (si.cm b).counterMatch }
        matchLinks :=
          { next := fun b => if b = a then (f (si.cm b)).next else (si.cm b).next
            prev := fun b => if b = a then (f (si.cm b)).prev else (si.cm b).prev }
        activeLinks :=
          { next := fun b => if b = a then (f (si.cm b)).activeNext else (si.cm b).activeNext
            prev := fun b => if b = a then (f (si.cm b)).activePrev else (si.cm b).activePrev }
        flag := fun b => if b = a then (f (si.cm b)).active else (si.cm b).active } := by
  simp only [shape, SfeIpv4.modCm, apply_ite ConnectionMatch.toMatchKey,
    apply_ite ConnectionMatch.connection, apply_ite ConnectionMatch.counterMatch,
    apply_ite ConnectionMatch.next, apply_ite ConnectionMatch.prev, apply_ite ConnectionMatch.activeNext,
    apply_ite ConnectionMatch.activePrev, apply_ite ConnectionMatch.active]

/-- An assignment to a connection, field by field. -/
theorem shape_modConn (f : Connection → Connection) : shape (si.modConn c f)
    = { shape si with
        ids :=
          { (shape si).ids with
            connKey := fun b => if b = c then (f (si.conn b)).toConnKey else (si.conn b).toConnKey
            original := fun b => if b = c then (f (si.conn b)).originalMatch else (si.conn b).originalMatch
            reply := fun b => if b = c then (f (si.conn b)).replyMatch else (si.conn b).replyMatch }
        connLinks :=
          { next := fun b => if b = c then (f (si.conn b)).next else (si.conn b).next
            prev := fun b => if b = c then (f (si.conn b)).prev else (si.conn b).prev }
        allLinks :=
          { next := fun b =>
              if b = c then (f (si.conn b)).allConnectionsNext else (si.conn b).allConnectionsNext
            prev := fun b =>
              if b = c then (f (si.conn b)).allConnectionsPrev else (si.conn b).allConnectionsPrev } } := by
  simp only [shape, SfeIpv4.modConn, apply_ite Connection.toConnKey, apply_ite Connection.originalMatch,
    apply_ite Connection.replyMatch, apply_ite Connection.next, apply_ite Connection.prev,
    apply_ite Connection.allConnectionsNext, apply_ite Connection.allConnectionsPrev]

/-- Other fields of a match are not in the shape. -/
theorem shape_modCm_of_eq {f : ConnectionMatch → ConnectionMatch}
    (hkey : ∀ m, (f m).toMatchKey = m.toMatchKey)
    (howner : ∀ m, (f m).connection = m.connection ∧ (f m).counterMatch = m.counterMatch)
    (hlinks : ∀ m, (f m).next = m.next ∧ (f m).prev = m.prev)
    (hactive : ∀ m, (f m).activeNext = m.activeNext ∧ (f m).activePrev = m.activePrev ∧
      (f m).active = m.active) : shape (si.modCm a f) = shape si := by
  simp only [shape_modCm, hkey, howner, hlinks, hactive, ite_self]
  rfl

/-- Other fields of a connection are not in the shape. -/
theorem shape_modConn_of_eq {f : Connection → Connection}
    (hids : ∀ x, (f x).toConnKey = x.toConnKey ∧ (f x).originalMatch = x.originalMatch ∧
      (f x).replyMatch = x.replyMatch)
    (hlinks : ∀ x, (f x).next = x.next ∧ (f x).prev = x.prev)
    (hall : ∀ x, (f x).allConnectionsNext = x.allConnectionsNext ∧
      (f x).allConnectionsPrev = x.allConnectionsPrev) : shape (si.modConn c f) = shape si := by
  simp only [shape_modConn, hids, hlinks, hall, ite_self]
  rfl

@[simp] theorem shape_setMatchNext : shape (setMatchNext si a v)
    = { shape si with matchLinks := (shape si).matchLinks.setNext a v } := by
  simp only [setMatchNext, shape_modCm, ite_self]
  rfl

@[simp] theorem shape_setMatchPrev : shape (setMatchPrev si a v)
    = { shape si with matchLinks := (shape si).matchLinks.setPrev a v } := by
  simp only [setMatchPrev, shape_modCm, ite_self]
  rfl

@[simp] theorem shape_setMatchHead : shape (setMatchHead si i v)
    = { shape si with matchHash := Links.setAt (shape si).matchHash i v } := rfl

@[simp] theorem shape_setActiveNext : shape (setActiveNext si a v)
    = { shape si with activeLinks := (shape si).activeLinks.setNext a v } := by
  simp only [setActiveNext, shape_modCm, ite_self]
  rfl

@[simp] theorem shape_setActivePrev : shape (setActivePrev si a v)
    = { shape si with activeLinks := (shape si).activeLinks.setPrev a v } := by
  simp only [setActivePrev, shape_modCm, ite_self]
  rfl

@[simp] theorem shape_setActive (v : Bool) : shape (setActive si a v)
    = { shape si with flag := Links.setAt (shape si).flag a v } := by
  simp only [setActive, shape_modCm, ite_self]
  rfl

@[simp] theorem shape_setConnNext : shape (setConnNext si c v)
    = { shape si with connLinks := (shape si).connLinks.setNext c v } := by
  simp only [setConnNext, shape_modConn, ite_self]
  rfl

@[simp] theorem shape_setConnPrev : shape (setConnPrev si c v)
    = { shape si with connLinks := (shape si).connLinks.setPrev c v } := by
  simp only [setConnPrev, shape_modConn, ite_self]
  rfl

@[simp] theorem shape_setConnHead : shape (setConnHead si i v)
    = { shape si with connHash := Links.setAt (shape si).connHash i v } := rfl

@[simp] theorem shape_setAllNext : shape (setAllNext si c v)
    = { shape si with allLinks := (shape si).allLinks.setNext c v } := by
  simp only [setAllNext, shape_modConn, ite_self]
  rfl

@[simp] theorem shape_setAllPrev : shape (setAllPrev si c v)
    = { shape si with allLinks := (shape si).allLinks.setPrev c v } := by
  simp only [setAllPrev, shape_modConn, ite_self]
  rfl

end Assign

/-! ## The operations on the tables -/

/-- The bucket of a match. -/
def Shape.matchIdx (s : Shape) (e : Endian) (a : Nat) : Nat := getConnectionMatchHash e (s.ids.key a)

/-- The bucket of a connection. -/
def Shape.connIdx (s : Shape) (e : Endian) (c : Nat) : Nat := getConnectionHash e (s.ids.connKey c)

section Ops

variable (e : Endian) (si : SfeIpv4) (a c : Nat)

theorem shape_insertConnectionMatch : shape (insertConnectionMatch e si a)
    = { shape si with
        matchLinks :=
          (shape si).matchLinks.pushFront ((shape si).matchHash ((shape si).matchIdx e a)) a
        matchHash := Links.setAt (shape si).matchHash ((shape si).matchIdx e a) (some a) } := by
  have hhead : (shape si).matchHash ((shape si).matchIdx e a)
      = si.connMatchHash (getConnectionMatchHash e (si.cm a).toMatchKey) := rfl
  unfold insertConnectionMatch Links.pushFront
  dsimp only
  rw [hhead]
  cases si.connMatchHash (getConnectionMatchHash e (si.cm a).toMatchKey) with
  | none =>
    simp only [shape_setMatchHead, shape_setMatchNext, shape_setMatchPrev]
    rfl
  | some h =>
    simp only [shape_setMatchHead, shape_setMatchNext, shape_setMatchPrev]
    rfl

theorem shape_linkConn : shape (linkConn e si c)
    = { shape si with
        connLinks := (shape si).connLinks.pushFront ((shape si).connHash ((shape si).connIdx e c)) c
        connHash := Links.setAt (shape si).connHash ((shape si).connIdx e c) (some c) } := by
  have hhead : (shape si).connHash ((shape si).connIdx e c)
      = si.connHash (getConnectionHash e (si.conn c).toConnKey) := rfl
  unfold linkConn Links.pushFront
  dsimp only
  rw [hhead]
  cases si.connHash (getConnectionHash e (si.conn c).toConnKey) with
  | none =>
    simp only [shape_setConnHead, shape_setConnNext, shape_setConnPrev]
    rfl
  | some h =>
    simp only [shape_setConnHead, shape_setConnNext, shape_setConnPrev]
    rfl

theorem shape_unlinkMatchBefore : shape (match (si.cm a).prev with
      | some p => setMatchNext si p (si.cm a).next
      | none => setMatchHead si (getConnectionMatchHash e (si.cm a).toMatchKey) (si.cm a).next)
    = { shape si with
        matchLinks := (shape si).matchLinks.unlinkBefore a
        matchHash :=
          (shape si).matchLinks.headWithout (shape si).matchHash ((shape si).matchIdx e a) a } := by
  have hprev : (shape si).matchLinks.prev a = (si.cm a).prev := rfl
  unfold Links.unlinkBefore Links.headWithout
  rw [hprev]
  cases (si.cm a).prev with
  | none => rfl
  | some p => exact shape_setMatchNext si p _

theorem shape_unlinkMatchAfter : shape (match (si.cm a).next with
      | some n => setMatchPrev si n (si.cm a).prev
      | none => si)
    = { shape si with matchLinks := (shape si).matchLinks.unlinkAfter a } := by
  have hnext : (shape si).matchLinks.next a = (si.cm a).next := rfl
  unfold Links.unlinkAfter
  rw [hnext]
  cases (si.cm a).next with
  | none => rfl
  | some n => exact shape_setMatchPrev si n _

-- the second assignment reads the links as the first has left them
theorem shape_unlinkMatch : shape (unlinkMatch e si a)
    = { shape si with
        matchLinks := (shape si).matchLinks.unlink a
        matchHash :=
          (shape si).matchLinks.headWithout (shape si).matchHash ((shape si).matchIdx e a) a } :=
  (shape_unlinkMatchAfter _ a).trans
    (congrArg (fun q : Shape => { q with matchLinks := q.matchLinks.unlinkAfter a })
      (shape_unlinkMatchBefore e si a))

theorem shape_unlinkConnBefore : shape (match (si.conn c).prev with
      | some p => setConnNext si p (si.conn c).next
      | none => setConnHead si (getConnectionHash e (si.conn c).toConnKey) (si.conn c).next)
    = { shape si with
        connLinks := (shape si).connLinks.unlinkBefore c
        connHash :=
          (shape si).connLinks.headWithout (shape si).connHash ((shape si).connIdx e c) c } := by
  have hprev : (shape si).connLinks.prev c = (si.conn c).prev := rfl
  unfold Links.unlinkBefore Links.headWithout
  rw [hprev]
  cases (si.conn c).prev with
  | none => rfl
  | some p => exact shape_setConnNext si p _

theorem shape_unlinkConnAfter : shape (match (si.conn c).next with
      | some n => setConnPrev si n (si.conn c).prev
      | none => si)
    = { shape si with connLinks := (shape si).connLinks.unlinkAfter c } := by
  have hnext : (shape si).connLinks.next c = (si.conn c).next := rfl
  unfold Links.unlinkAfter
  rw [hnext]
  cases (si.conn c).next with
  | none => rfl
  | some n => exact shape_setConnPrev si n _

theorem shape_unlinkConn : shape (unlinkConn e si c)
    = { shape si with
        connLinks := (shape si).connLinks.unlink c
        connHash :=
          (shape si).connLinks.headWithout (shape si).connHash ((shape si).connIdx e c) c } :=
  (shape_unlinkConnAfter _ c).trans
    (congrArg (fun q : Shape => { q with connLinks := q.connLinks.unlinkAfter c })
      (shape_unlinkConnBefore e si c))

/-- The second assignment of an unlink from the active list. -/
theorem shape_unlinkActiveAfter : shape (match (si.cm a).activeNext with
      | some n => setActivePrev si n (si.cm a).activePrev
      | none => { si with activeTail := (si.cm a).activePrev })
    = { shape si with
        activeLinks := (shape si).activeLinks.unlinkAfter a
        activeTail := (shape si).activeLinks.tailLess (shape si).activeTail a } := by
  have hnext : (shape si).activeLinks.next a = (si.cm a).activeNext := rfl
  unfold Links.unlinkAfter Links.tailLess
  rw [hnext]
  cases (si.cm a).activeNext with
  | none => rfl
  | some n => exact shape_setActivePrev si n _

/-- A match that is linked with itself would not be unlinked right; none is. -/
theorem shape_unlinkActive (hself : (shape si).activeLinks.prev a ≠ some a) : shape (unlinkActive si a)
    = { shape si with
        activeLinks := (shape si).activeLinks.unlink a
        activeHead := (shape si).activeLinks.headLess (shape si).activeHead a
        activeTail := (shape si).activeLinks.tailLess (shape si).activeTail a } := by
  have hbefore : shape (match (si.cm a).activePrev with
        | some p => setActiveNext si p (si.cm a).activeNext
        | none => { si with activeHead := (si.cm a).activeNext })
      = { shape si with
          activeLinks := (shape si).activeLinks.unlinkBefore a
          activeHead := (shape si).activeLinks.headLess (shape si).activeHead a } := by
    have hprev : (shape si).activeLinks.prev a = (si.cm a).activePrev := rfl
    unfold Links.unlinkBefore Links.headLess
    rw [hprev]
    cases (si.cm a).activePrev with
    | none => rfl
    | some p => exact shape_setActiveNext si p _
  rw [← Links.tailLess_unlinkBefore _ hself]
  exact (shape_unlinkActiveAfter _ a).trans (congrArg (fun q : Shape =>
    { q with
      activeLinks := q.activeLinks.unlinkAfter a
      activeTail := q.activeLinks.tailLess q.activeTail a }) hbefore)

theorem shape_unlinkAll (hself : (shape si).allLinks.prev c ≠ some c) : shape (unlinkAll si c)
    = { shape si with
        allLinks := (shape si).allLinks.unlink c
        allHead := (shape si).allLinks.headLess (shape si).allHead c
        allTail := (shape si).allLinks.tailLess (shape si).allTail c
        num := (shape si).num - 1 } := by
  have hbefore : shape (match (si.conn c).allConnectionsPrev with
        | some p => setAllNext si p (si.conn c).allConnectionsNext
        | none => { si with allConnectionsHead := (si.conn c).allConnectionsNext })
      = { shape si with
          allLinks := (shape si).allLinks.unlinkBefore c
          allHead := (shape si).allLinks.headLess (shape si).allHead c } := by
    have hprev : (shape si).allLinks.prev c = (si.conn c).allConnectionsPrev := rfl
    unfold Links.unlinkBefore Links.headLess
    rw [hprev]
    cases (si.conn c).allConnectionsPrev with
    | none => rfl
    | some p => exact shape_setAllNext si p _
  have hafter : ∀ q : SfeIpv4, shape (match (q.conn c).allConnectionsNext with
        | some n => setAllPrev q n (q.conn c).allConnectionsPrev
        | none => { q with allConnectionsTail := (q.conn c).allConnectionsPrev })
      = { shape q with
          allLinks := (shape q).allLinks.unlinkAfter c
          allTail := (shape q).allLinks.tailLess (shape q).allTail c } := by
    intro q
    have hnext : (shape q).allLinks.next c = (q.conn c).allConnectionsNext := rfl
    unfold Links.unlinkAfter Links.tailLess
    rw [hnext]
    cases (q.conn c).allConnectionsNext with
    | none => rfl
    | some n => exact shape_setAllPrev q n _
  rw [← Links.tailLess_unlinkBefore _ hself]
  exact congrArg (fun q : Shape => { q with num := q.num - 1 }) ((hafter _).trans
    (congrArg (fun q : Shape =>
      { q with
        allLinks := q.allLinks.unlinkAfter c
        allTail := q.allLinks.tailLess q.allTail c }) hbefore))

theorem shape_linkAll (hself : (shape si).allTail ≠ some c) : shape (linkAll si c)
    = { shape si with
        allLinks := ((shape si).allLinks.setNext c none).pushBack (shape si).allTail c
        allHead := Links.headMore (shape si).allHead (shape si).allTail c
        allTail := some c
        num := (shape si).num + 1 } := by
  have htail : (shape si).allTail = si.allConnectionsTail := rfl
  unfold linkAll Links.pushBack Links.headMore
  rw [htail] at hself ⊢
  cases ht : si.allConnectionsTail with
  | none =>
    change { shape (setAllNext { setAllPrev si c none with
        allConnectionsHead := some c, allConnectionsTail := some c } c none) with
      num := (shape si).num + 1 } = _
    rw [shape_setAllNext]
    change { shape (setAllPrev si c none) with
      allHead := some c
      allTail := some c
      allLinks := (shape (setAllPrev si c none)).allLinks.setNext c none
      num := (shape si).num + 1 } = _
    rw [shape_setAllPrev]
    rfl
  | some t =>
    have htc : t ≠ c := fun h => hself (ht.trans (congrArg some h))
    change { shape (setAllNext { setAllNext (setAllPrev si c (some t)) t (some c) with
      allConnectionsTail := some c } c none) with
      num := (shape si).num + 1 } = _
    rw [shape_setAllNext]
    change { shape (setAllNext (setAllPrev si c (some t)) t (some c)) with
      allTail := some c
      allLinks := (shape (setAllNext (setAllPrev si c (some t)) t (some c))).allLinks.setNext c none
      num := (shape si).num + 1 } = _
    simp only [shape_setAllNext, shape_setAllPrev, Links.setNext_comm _ _ _ htc]
    rfl

theorem shape_activate (hflag : (shape si).flag a = false) : shape (activate si a)
    = { shape si with
        flag := Links.setAt (shape si).flag a true
        activeLinks := (shape si).activeLinks.pushBack (shape si).activeTail a
        activeHead := Links.headMore (shape si).activeHead (shape si).activeTail a
        activeTail := some a } := by
  have hactive : (si.cm a).active = false := hflag
  have htail : (shape si).activeTail = (setActive si a true).activeTail := rfl
  unfold activate Links.pushBack Links.headMore
  rw [hactive, if_neg Bool.false_ne_true, htail]
  dsimp only
  cases (setActive si a true).activeTail with
  | none =>
    change { shape (setActivePrev (setActive si a true) a none) with
      activeHead := some a
      activeTail := some a } = _
    rw [shape_setActivePrev, shape_setActive]
  | some t =>
    change { shape (setActiveNext (setActivePrev (setActive si a true) a (some t)) t (some a)) with
      activeTail := some a } = _
    rw [shape_setActiveNext, shape_setActivePrev, shape_setActive]

/-- The counter match of the head has an object before it, so the head stays. -/
theorem shape_dropCounterMatch {p : Nat} (hflag : (shape si).flag a = true)
    (hprev : (shape si).activeLinks.prev a = some p) (hself : p ≠ a) : shape (dropCounterMatch si a)
    = { shape si with
        flag := Links.setAt (shape si).flag a false
        activeLinks := (((shape si).activeLinks.unlink a).setNext a none).setPrev a none
        activeTail := (shape si).activeLinks.tailLess (shape si).activeTail a } := by
  have hactive : (si.cm a).active = true := hflag
  have hne : (shape si).activeLinks.prev a ≠ some a := fun h => hself (Option.some.inj (hprev.symm.trans h))
  have hidle : shape (setActive si a false) = { shape si with flag := Links.setAt (shape si).flag a false } :=
    shape_setActive si a false
  have hbefore : ∀ q : SfeIpv4, shape (match (q.cm a).activePrev with
        | some p => setActiveNext q p (q.cm a).activeNext
        | none => q)
      = { shape q with activeLinks := (shape q).activeLinks.unlinkBefore a } := by
    intro q
    have hp : (shape q).activeLinks.prev a = (q.cm a).activePrev := rfl
    unfold Links.unlinkBefore
    rw [hp]
    cases (q.cm a).activePrev with
    | none => rfl
    | some p => exact shape_setActiveNext _ p _
  have hunlink := (shape_unlinkActiveAfter _ a).trans (congrArg (fun q : Shape =>
    { q with
      activeLinks := q.activeLinks.unlinkAfter a
      activeTail := q.activeLinks.tailLess q.activeTail a }) ((hbefore _).trans (congrArg (fun q : Shape =>
        { q with activeLinks := q.activeLinks.unlinkBefore a }) hidle)))
  unfold dropCounterMatch
  rw [hactive, if_neg (by decide), ← Links.tailLess_unlinkBefore _ hne]
  dsimp only
  rw [shape_setActivePrev, shape_setActiveNext]
  exact congrArg (fun q : Shape =>
    { q with activeLinks := (q.activeLinks.setNext a none).setPrev a none }) hunlink

/-- The head of the list is the match that is dropped. -/
theorem shape_dropActiveHead (hprev : (shape si).activeLinks.prev a = none) : shape (dropActiveHead si a)
    = { shape si with
        flag := Links.setAt (shape si).flag a false
        activeLinks := ((shape si).activeLinks.unlink a).setNext a none
        activeHead := (shape si).activeLinks.headLess (shape si).activeHead a
        activeTail := (shape si).activeLinks.tailLess (shape si).activeTail a } := by
  have hnext : (shape si).activeLinks.next a = ((setActive si a false).cm a).activeNext := by
    rw [show ((setActive si a false).cm a).activeNext = (shape (setActive si a false)).activeLinks.next a
      from rfl, shape_setActive]
  have hidle : ∀ v : Option Nat, shape { setActive si a false with activeHead := v }
      = { shape si with flag := Links.setAt (shape si).flag a false, activeHead := v } := fun v =>
    congrArg (fun q : Shape => { q with activeHead := v }) (shape_setActive si a false)
  unfold dropActiveHead Links.unlink Links.unlinkBefore Links.headLess Links.tailLess
  dsimp only
  rw [hprev, hnext]
  dsimp only
  rw [shape_setActiveNext, Links.unlinkAfter, hprev, hnext]
  cases ((setActive si a false).cm a).activeNext with
  | none =>
    exact congrArg (fun q : Shape =>
      { q with activeTail := none, activeLinks := q.activeLinks.setNext a none }) (hidle none)
  | some n =>
    dsimp only
    rw [shape_setActivePrev]
    exact congrArg (fun q : Shape =>
      { q with activeLinks := (q.activeLinks.setPrev n none).setNext a none }) (hidle (some n))

theorem activate_of_active (hflag : (shape si).flag a = true) : activate si a = si :=
  if_pos hflag

/-! ## Lookups -/

/-- A match that is not the head of its chain is moved there. -/
theorem shape_findConnectionMatch (k : MatchKey) {head p : Nat}
    (hhead : si.connMatchHash (getConnectionMatchHash e k) = some head)
    (hkey : (si.cm head).toMatchKey ≠ k)
    (hwalk : Links.walkFind (fun b => (si.cm b).next) (fun b => (si.cm b).toMatchKey = k) (matchFuel si)
      (si.cm head).next = some a)
    (hprev : (shape si).matchLinks.prev a = some p) (hself : p ≠ a)
    (hnext : (shape si).matchLinks.next a ≠ some a) :
    (findConnectionMatch e si k).1 = some a ∧ shape (findConnectionMatch e si k).2
      = { shape si with
          matchLinks := ((shape si).matchLinks.unlink a).pushFront (some head) a
          matchHash :=
            Links.setAt (shape si).matchHash (getConnectionMatchHash e k) (some a) } := by
  have hp : (si.cm a).prev = some p := hprev
  have hap : a ≠ p := hself.symm
  unfold findConnectionMatch
  simp only [hhead, if_neg hkey, hwalk, true_and]
  simp only [shape_setMatchHead, shape_setMatchPrev, shape_setMatchNext]
  unfold Links.unlink Links.unlinkAfter Links.unlinkBefore Links.pushFront
  rw [hprev]
  dsimp only
  rw [Links.setNext_of_ne _ _ hap, Links.setNext_prev, hprev]
  cases hn : (si.cm a).next with
  | none =>
    have hn' : (shape si).matchLinks.next a = none := hn
    simp only [hp, hn, hn', shape_setMatchNext]
    rfl
  | some n =>
    have hn' : (shape si).matchLinks.next a = some n := hn
    have han : a ≠ n := fun h => hnext (hn'.trans (congrArg some h.symm))
    have hq : ((setMatchPrev si n (some p)).cm a).prev = some p ∧
        ((setMatchPrev si n (some p)).cm a).next = some n := by
      simp [setMatchPrev, SfeIpv4.modCm, han, hp, hn]
    simp only [hp, hn', hq, shape_setMatchNext, shape_setMatchPrev]
    rfl

end Ops

end Lede.Sfe
