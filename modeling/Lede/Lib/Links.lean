/-
Lede.Lib.Links — doubly linked lists whose links lie in the objects themselves.

An object carries a `next` and a `prev` pointer for each list it can be in, and
the list is only its head (and, for some lists, its tail). What a list "is" is
therefore a statement about pointers: `Links.Holds L l` says that the links `L`
run through the objects of `l` in that order, each once, and nowhere else.

The operations are the pointer assignments a C program makes, in their order.
Each has one theorem: which list the links hold afterwards.
-/
import Mathlib.Data.List.Induction
import Mathlib.Data.List.Nodup
import Mathlib.Data.List.Perm.Subperm
import Mathlib.Tactic.Common

namespace Lede.Lib

/-- The links of one kind of list, over all objects. -/
structure Links (α : Type) where
  next : α → Option α
  prev : α → Option α

namespace Links

variable {α : Type} {L L' : Links α}

/-! ## Segments -/

/-- The objects of `l` are linked in a row, with `p` before the first and `q` behind
the last. -/
def Seg (L : Links α) : Option α → List α → Option α → Prop
  | _, [], _ => True
  | p, x :: xs, q => L.prev x = p ∧ L.next x = xs.head?.or q ∧ Seg L (some x) xs q

/-- A whole list, every object of it once. -/
structure Holds (L : Links α) (l : List α) : Prop where
  seg : L.Seg none l none
  nodup : l.Nodup

theorem getLast?_cons_or (x : α) (xs : List α) (p : Option α) :
    (x :: xs).getLast?.or p = xs.getLast?.or (some x) := by
  cases xs using List.reverseRecOn with
  | nil => rfl
  | append_singleton ys y =>
    rw [← List.cons_append, List.getLast?_concat, List.getLast?_concat]
    rfl

theorem seg_append : ∀ (p : Option α) (l l' : List α) (q : Option α),
    L.Seg p (l ++ l') q ↔ L.Seg p l (l'.head?.or q) ∧ L.Seg (l.getLast?.or p) l' q
  | _, [], _, _ => by simp [Seg]
  | p, x :: xs, l', q => by
      have ih := seg_append (some x) xs l' q
      have hhead : (xs ++ l').head?.or q = xs.head?.or (l'.head?.or q) := by
        rw [List.head?_append, Option.or_assoc]
      rw [List.cons_append, Seg, Seg, getLast?_cons_or, ih, hhead, and_assoc, and_assoc]

/-- Links that agree on the objects of a segment have it as well. -/
theorem Seg.congr : ∀ {p : Option α} {l : List α} {q : Option α}, L.Seg p l q →
    (∀ x ∈ l, L'.next x = L.next x) → (∀ x ∈ l, L'.prev x = L.prev x) → L'.Seg p l q
  | _, [], _, _, _, _ => trivial
  | _, x :: xs, _, h, hn, hp =>
      ⟨(hp x (by simp)).trans h.1, (hn x (by simp)).trans h.2.1,
        h.2.2.congr (fun y hy => hn y (by simp [hy])) fun y hy => hp y (by simp [hy])⟩

theorem Holds.congr {l : List α} (h : L.Holds l) (hn : ∀ x ∈ l, L'.next x = L.next x)
    (hp : ∀ x ∈ l, L'.prev x = L.prev x) : L'.Holds l :=
  ⟨h.seg.congr hn hp, h.nodup⟩

theorem holds_nil (L : Links α) : L.Holds [] := ⟨trivial, List.nodup_nil⟩

/-- What an object in the middle points at. -/
theorem Holds.at {l l' : List α} {x : α} (h : L.Holds (l ++ x :: l')) :
    L.prev x = l.getLast? ∧ L.next x = l'.head? := by
  have hseg := ((seg_append none l (x :: l') none).mp h.seg).2
  simp only [Seg, Option.or_none] at hseg
  exact ⟨hseg.1, hseg.2.1⟩

theorem Holds.next_mem {l : List α} {x y : α} (h : L.Holds l) (hx : x ∈ l) (hy : L.next x = some y) :
    y ∈ l := by
  obtain ⟨l₁, l₂, rfl⟩ := List.append_of_mem hx
  have hhead := h.at.2.symm.trans hy
  have := List.mem_of_mem_head? hhead
  simp [this]

theorem Holds.prev_mem {l : List α} {x y : α} (h : L.Holds l) (hx : x ∈ l) (hy : L.prev x = some y) :
    y ∈ l := by
  obtain ⟨l₁, l₂, rfl⟩ := List.append_of_mem hx
  have hlast := h.at.1.symm.trans hy
  have := List.mem_of_getLast? hlast
  simp [this]

/-! ## Walking -/

/-- The objects that are met when the list is walked from `head` on. -/
inductive Reach (L : Links α) (head : Option α) : α → Prop
  | head {x : α} : head = some x → Reach L head x
  | next {x y : α} : Reach L head x → L.next x = some y → Reach L head y

theorem Holds.reach_iff {l : List α} (h : L.Holds l) (x : α) : L.Reach l.head? x ↔ x ∈ l := by
  constructor
  · intro hr
    induction hr with
    | head hx => exact List.mem_of_mem_head? hx
    | next _ hy ih => exact h.next_mem ih hy
  · intro hx
    obtain ⟨l₁, l₂, rfl⟩ := List.append_of_mem hx
    -- along the objects in front of `x`
    induction l₁ using List.reverseRecOn generalizing x l₂ with
    | nil => exact Reach.head rfl
    | append_singleton l₁ y ih =>
      have hlist : l₁ ++ [y] ++ x :: l₂ = l₁ ++ y :: x :: l₂ := by simp
      rw [hlist] at h ⊢
      exact Reach.next (ih y (x :: l₂) h (by simp)) h.at.2

/-- The first object from `start` on with `p`, looking at no more than `n`. -/
def walkFind (next : α → Option α) (p : α → Bool) : Nat → Option α → Option α
  | 0, _ => none
  | _ + 1, none => none
  | n + 1, some x => if p x then some x else walkFind next p n (next x)

theorem Seg.walkFind_eq (p : α → Bool) : ∀ {b : Option α} {l : List α} {n : Nat}, L.Seg b l none →
    l.length ≤ n → walkFind L.next p n l.head? = l.find? p
  | _, [], 0, _, _ => rfl
  | _, [], _ + 1, _, _ => rfl
  | _, x :: xs, 0, _, hn => absurd hn (by simp)
  | _, x :: xs, n + 1, h, hn => by
      have hnext := h.2.1
      rw [Option.or_none] at hnext
      rw [List.head?_cons, walkFind, List.find?_cons, hnext]
      cases p x with
      | true => rfl
      | false => exact h.2.2.walkFind_eq p (by simpa using hn)

/-- A walk over a list finds what is first in it. -/
theorem Holds.walkFind_eq {l : List α} {n : Nat} (h : L.Holds l) (p : α → Bool) (hn : l.length ≤ n) :
    walkFind L.next p n l.head? = l.find? p :=
  h.seg.walkFind_eq p hn

/-! ## Assignments -/

section Assign

variable [DecidableEq α]

/-- `a->next = b`. -/
def setNext (L : Links α) (a : α) (b : Option α) : Links α :=
  { L with next := fun x => if x = a then b else L.next x }

/-- `a->prev = b`. -/
def setPrev (L : Links α) (a : α) (b : Option α) : Links α :=
  { L with prev := fun x => if x = a then b else L.prev x }

@[simp] theorem setNext_prev (L : Links α) (a : α) (b : Option α) : (L.setNext a b).prev = L.prev := rfl

@[simp] theorem setPrev_next (L : Links α) (a : α) (b : Option α) : (L.setPrev a b).next = L.next := rfl

theorem setNext_next (L : Links α) (a : α) (b : Option α) (x : α) :
    (L.setNext a b).next x = if x = a then b else L.next x := rfl

theorem setPrev_prev (L : Links α) (a : α) (b : Option α) (x : α) :
    (L.setPrev a b).prev x = if x = a then b else L.prev x := rfl

@[simp] theorem setNext_self (L : Links α) (a : α) (b : Option α) : (L.setNext a b).next a = b := by
  simp [setNext]

@[simp] theorem setPrev_self (L : Links α) (a : α) (b : Option α) : (L.setPrev a b).prev a = b := by
  simp [setPrev]

theorem setNext_of_ne (L : Links α) {a x : α} (b : Option α) (h : x ≠ a) :
    (L.setNext a b).next x = L.next x := if_neg h

theorem setPrev_of_ne (L : Links α) {a x : α} (b : Option α) (h : x ≠ a) :
    (L.setPrev a b).prev x = L.prev x := if_neg h

theorem setNext_comm (L : Links α) {a b : α} (v w : Option α) (h : a ≠ b) :
    (L.setNext a v).setNext b w = (L.setNext b w).setNext a v := by
  unfold setNext
  congr 1
  funext x
  by_cases hb : x = b
  · have hba : b ≠ a := h.symm
    simp [hb, hba]
  · simp [hb]

/-- Links of objects outside a segment are free to change. -/
theorem Seg.setNext_out {p q b : Option α} {l : List α} {a : α} (h : L.Seg p l q) (ha : a ∉ l) :
    (L.setNext a b).Seg p l q :=
  h.congr (fun _ hx => setNext_of_ne L b fun e => ha (e ▸ hx)) fun _ _ => rfl

theorem Seg.setPrev_out {p q b : Option α} {l : List α} {a : α} (h : L.Seg p l q) (ha : a ∉ l) :
    (L.setPrev a b).Seg p l q :=
  h.congr (fun _ _ => rfl) fun _ hx => setPrev_of_ne L b fun e => ha (e ▸ hx)

/-- The segment gets another object behind it. -/
theorem Seg.setNext_last {p q : Option α} {l : List α} {y : α} (h : L.Seg p (l ++ [y]) q)
    (q' : Option α) (hy : y ∉ l) : (L.setNext y q').Seg p (l ++ [y]) q' := by
  rw [seg_append] at h ⊢
  exact ⟨h.1.setNext_out hy, h.2.1, by simp, trivial⟩

/-- The segment gets another object before it. -/
theorem Seg.setPrev_head {p p' q : Option α} {l : List α} {y : α} (h : L.Seg p (y :: l) q)
    (hy : y ∉ l) : (L.setPrev y p').Seg p' (y :: l) q :=
  ⟨setPrev_self L y p', h.2.1, h.2.2.setPrev_out hy⟩

/-! ## Taking an object out -/

/-- The object before `x` gets the one behind it as its next. -/
def unlinkBefore (L : Links α) (x : α) : Links α :=
  match L.prev x with
  | some p => L.setNext p (L.next x)
  | none => L

/-- The object behind `x` gets the one before it as its previous. -/
def unlinkAfter (L : Links α) (x : α) : Links α :=
  match L.next x with
  | some n => L.setPrev n (L.prev x)
  | none => L

/-- The two assignments to the neighbours of `x`. -/
def unlink (L : Links α) (x : α) : Links α := (L.unlinkBefore x).unlinkAfter x

theorem unlinkBefore_prev (L : Links α) (x : α) : (L.unlinkBefore x).prev = L.prev := by
  unfold unlinkBefore
  cases L.prev x with
  | none => rfl
  | some p => rfl

theorem unlinkBefore_next_self {x : α} (hself : L.prev x ≠ some x) :
    (L.unlinkBefore x).next x = L.next x := by
  unfold unlinkBefore
  cases hp : L.prev x with
  | none => rfl
  | some p => exact setNext_of_ne L _ fun e => hself (e ▸ hp)

/-- Only the object before `x` gets another next. -/
theorem unlink_next_of_ne {x b : α} (hb : L.prev x ≠ some b) : (L.unlink x).next b = L.next b := by
  have hafter : ∀ M : Links α, (M.unlinkAfter x).next = M.next := by
    intro M
    unfold unlinkAfter
    cases M.next x with
    | none => rfl
    | some n => rfl
  unfold unlink
  rw [hafter]
  unfold unlinkBefore
  cases hp : L.prev x with
  | none => rfl
  | some p => exact setNext_of_ne L _ fun e => hb (e ▸ hp)

theorem Holds.unlink {l l' : List α} {x : α} (h : L.Holds (l ++ x :: l')) :
    (L.unlink x).Holds (l ++ l') := by
  obtain ⟨hprev, hnext⟩ := h.at
  obtain ⟨hl, hxl', hdisj⟩ := List.nodup_append.mp h.nodup
  obtain ⟨hx, hl'⟩ := List.nodup_cons.mp hxl'
  have hxl : x ∉ l := fun hm => hdisj x hm x (by simp) rfl
  have hnd : (l ++ l').Nodup :=
    List.nodup_append.mpr ⟨hl, hl', fun a ha b hb => hdisj a ha b (by simp [hb])⟩
  obtain ⟨hsegl, -, -, hsegl'⟩ := (seg_append none l (x :: l') none).mp h.seg
  refine ⟨?_, hnd⟩
  rw [seg_append, Option.or_none, Option.or_none]
  unfold Links.unlink unlinkBefore unlinkAfter
  rw [hprev, hnext]
  -- the left part, then the right part
  cases l using List.reverseRecOn with
  | nil =>
    simp only [List.getLast?_nil, hnext, hprev]
    refine ⟨trivial, ?_⟩
    cases l' with
    | nil => trivial
    | cons z zs => exact hsegl'.setPrev_head (List.nodup_cons.mp hl').1
  | append_singleton l y =>
    have hyl : y ∉ l := fun hm => (List.nodup_append.mp hl).2.2 y hm y (by simp) rfl
    have hyx : x ≠ y := fun e => hxl (by simp [e])
    have hyl' : y ∉ l' := fun hm => hdisj y (by simp) y (by simp [hm]) rfl
    have hleft := hsegl.setNext_last l'.head? hyl
    simp only [List.getLast?_concat, setNext_of_ne _ _ hyx, setNext_prev, hnext, hprev] at hleft ⊢
    cases l' with
    | nil => exact ⟨hleft, trivial⟩
    | cons z zs =>
      have hz : z ∉ l ++ [y] := fun hm => hdisj z hm z (by simp) rfl
      exact ⟨hleft.setPrev_out hz,
        (hsegl'.setNext_out hyl').setPrev_head (List.nodup_cons.mp hl').1⟩

/-! ## Putting an object in -/

/-- `x` in front of the list at `head`. -/
def pushFront (L : Links α) (head : Option α) (x : α) : Links α :=
  let L := L.setPrev x none
  let L := match head with
    | some h => L.setPrev h (some x)
    | none => L
  L.setNext x head

theorem Holds.pushFront {l : List α} {x : α} (h : L.Holds l) (hx : x ∉ l) :
    (L.pushFront l.head? x).Holds (x :: l) := by
  refine ⟨?_, List.nodup_cons.mpr ⟨hx, h.nodup⟩⟩
  cases l with
  | nil => exact ⟨by simp [Links.pushFront], by simp [Links.pushFront], trivial⟩
  | cons y ys =>
    have hxy : x ≠ y := fun e => hx (by simp [e])
    obtain ⟨hy, -⟩ := List.nodup_cons.mp h.nodup
    refine ⟨?_, by simp [Links.pushFront], ?_⟩
    · simp [Links.pushFront, setPrev_prev, hxy]
    · exact ((h.seg.setPrev_out hx).setPrev_head hy).setNext_out hx

/-- `x` behind the list that ends at `tail`; `x->next` is not written. -/
def pushBack (L : Links α) (tail : Option α) (x : α) : Links α :=
  let L := L.setPrev x tail
  match tail with
  | some t => L.setNext t (some x)
  | none => L

/-- Only the last object gets another next. -/
theorem pushBack_next_of_ne {tail : Option α} {x b : α} (hb : tail ≠ some b) :
    (L.pushBack tail x).next b = L.next b := by
  unfold pushBack
  cases tail with
  | none => rfl
  | some t => exact setNext_of_ne _ _ fun e => hb (e ▸ rfl)

theorem Holds.pushBack {l : List α} {x : α} (h : L.Holds l) (hx : x ∉ l) (hnext : L.next x = none) :
    (L.pushBack l.getLast? x).Holds (l ++ [x]) := by
  refine ⟨?_, List.nodup_append.mpr ⟨h.nodup, by simp, fun a ha b hb e => hx ?_⟩⟩
  · rw [seg_append]
    cases l using List.reverseRecOn with
    | nil => exact ⟨trivial, by simp [Links.pushBack], by simp [Links.pushBack, hnext], trivial⟩
    | append_singleton l y =>
      have hxy : x ≠ y := fun e => hx (by simp [e])
      have hy : y ∉ l := fun hm => (List.nodup_append.mp h.nodup).2.2 y hm y (by simp) rfl
      refine ⟨?_, ?_, ?_, trivial⟩
      · simp only [Links.pushBack, List.getLast?_concat]
        exact (h.seg.setPrev_out hx).setNext_last _ hy
      · simp [Links.pushBack]
      · simp [Links.pushBack, setNext_next, hxy, hnext]
  · simp only [List.mem_singleton] at hb
    exact hb ▸ e ▸ ha

/-- Links of an object outside the list stay as they are. -/
theorem Holds.setNext_out {b : Option α} {l : List α} {a : α} (h : L.Holds l) (ha : a ∉ l) :
    (L.setNext a b).Holds l :=
  ⟨h.seg.setNext_out ha, h.nodup⟩

theorem Holds.setPrev_out {b : Option α} {l : List α} {a : α} (h : L.Holds l) (ha : a ∉ l) :
    (L.setPrev a b).Holds l :=
  ⟨h.seg.setPrev_out ha, h.nodup⟩

/-- What one list does is not seen by another. -/
theorem Holds.pushFront_other {l : List α} {head : Option α} {x : α} (h : L.Holds l) (hx : x ∉ l)
    (hhead : ∀ y, head = some y → y ∉ l) : (L.pushFront head x).Holds l := by
  have hfirst : (L.setPrev x none).Holds l := h.setPrev_out hx
  unfold Links.pushFront
  cases head with
  | none => exact hfirst.setNext_out hx
  | some y => exact (hfirst.setPrev_out (hhead y rfl)).setNext_out hx

theorem Holds.unlink_other {l : List α} {x : α} (h : L.Holds l)
    (hprev : ∀ y, L.prev x = some y → y ∉ l) (hnext : ∀ y, L.next x = some y → y ∉ l)
    (hself : L.prev x ≠ some x) : (L.unlink x).Holds l := by
  have hleft : (L.unlinkBefore x).Holds l := by
    unfold unlinkBefore
    cases hp : L.prev x with
    | none => exact h
    | some p => exact h.setNext_out (hprev p hp)
  unfold Links.unlink unlinkAfter
  rw [unlinkBefore_next_self hself]
  cases hn : L.next x with
  | none => exact hleft
  | some n => exact hleft.setPrev_out (hnext n hn)

end Assign

/-! ## Lists with a head and a tail -/

/-- A list that is found by its head and extended at its tail. -/
structure Listed (L : Links α) (head tail : Option α) (l : List α) : Prop where
  holds : L.Holds l
  head_eq : head = l.head?
  tail_eq : tail = l.getLast?

section Listed

variable {head tail : Option α} {l : List α} {x : α}

theorem Listed.congr (h : L.Listed head tail l) (hn : ∀ a ∈ l, L'.next a = L.next a)
    (hp : ∀ a ∈ l, L'.prev a = L.prev a) : L'.Listed head tail l :=
  ⟨h.holds.congr hn hp, h.head_eq, h.tail_eq⟩

/-- An object and the two parts of the list around it. -/
theorem Holds.around (h : L.Holds l) (hx : x ∈ l) :
    ∃ l₁ l₂, l = l₁ ++ x :: l₂ ∧ L.prev x = l₁.getLast? ∧ L.next x = l₂.head? ∧ x ∉ l₁ ∧ x ∉ l₂ := by
  obtain ⟨l₁, l₂, rfl⟩ := List.append_of_mem hx
  obtain ⟨-, hx₂, hdisj⟩ := List.nodup_append.mp h.nodup
  exact ⟨l₁, l₂, rfl, h.at.1, h.at.2, fun hm => hdisj x hm x (by simp) rfl, (List.nodup_cons.mp hx₂).1⟩

theorem Holds.prev_ne_self (h : L.Holds l) (hx : x ∈ l) : L.prev x ≠ some x := by
  obtain ⟨l₁, l₂, -, hprev, -, hl, -⟩ := h.around hx
  rw [hprev]
  exact fun he => hl (List.mem_of_getLast? he)

theorem Holds.next_ne_self (h : L.Holds l) (hx : x ∈ l) : L.next x ≠ some x := by
  obtain ⟨l₁, l₂, -, -, hnext, -, hl⟩ := h.around hx
  rw [hnext]
  exact fun he => hl (List.mem_of_mem_head? he)

/-- Only the first object of a list has none before it. -/
theorem Listed.prev_eq_none_iff (h : L.Listed head tail l) (hx : x ∈ l) :
    L.prev x = none ↔ head = some x := by
  obtain ⟨l₁, l₂, rfl, hprev, -, hx₁, -⟩ := h.holds.around hx
  rw [hprev, h.head_eq]
  cases l₁ with
  | nil => simp
  | cons y ys =>
    have hyx : y ≠ x := fun e => hx₁ (by simp [e])
    simp [hyx]

/-- The head without `x`: only the first object has none before it. -/
def headLess (L : Links α) (head : Option α) (x : α) : Option α :=
  match L.prev x with
  | some _ => head
  | none => L.next x

/-- The tail without `x`. -/
def tailLess (L : Links α) (tail : Option α) (x : α) : Option α :=
  match L.next x with
  | some _ => tail
  | none => L.prev x

/-- The head with `x` behind the last object: only in an empty list is it `x`. -/
def headMore (head tail : Option α) (x : α) : Option α :=
  match tail with
  | some _ => head
  | none => some x

variable [DecidableEq α]

/-- The tail may be taken after the first assignment. -/
theorem tailLess_unlinkBefore (tail : Option α) {x : α} (hself : L.prev x ≠ some x) :
    (L.unlinkBefore x).tailLess tail x = L.tailLess tail x := by
  unfold tailLess
  rw [unlinkBefore_next_self hself, unlinkBefore_prev]

/-- An object is taken out. -/
theorem Listed.remove (h : L.Listed head tail l) (hx : x ∈ l) :
    (L.unlink x).Listed (L.headLess head x) (L.tailLess tail x) (l.erase x) := by
  obtain ⟨l₁, l₂, rfl, hprev, hnext, hx₁, -⟩ := h.holds.around hx
  have herase : (l₁ ++ x :: l₂).erase x = l₁ ++ l₂ := by
    rw [List.erase_append_right _ hx₁, List.erase_cons_head]
  rw [herase]
  refine ⟨h.holds.unlink, ?_, ?_⟩
  · rw [headLess, hprev, hnext, h.head_eq]
    cases l₁ with
    | nil => rfl
    | cons y ys =>
      rw [List.getLast?_cons]
      rfl
  · rw [tailLess, hprev, hnext, h.tail_eq]
    cases l₂ with
    | nil => simp
    | cons y ys => simp [List.getLast?_cons]

/-- An object is put behind the last one. -/
theorem Listed.pushBack (h : L.Listed head tail l) (hx : x ∉ l) (hnext : L.next x = none) :
    (L.pushBack tail x).Listed (headMore head tail x) (some x) (l ++ [x]) := by
  refine ⟨?_, ?_, by simp⟩
  · rw [h.tail_eq]
    exact h.holds.pushBack hx hnext
  · rw [h.tail_eq, h.head_eq]
    cases l with
    | nil => rfl
    | cons y ys =>
      rw [List.getLast?_cons]
      rfl

end Listed

/-! ## Hash tables -/

/-- A table of chains: `head` is the array of their heads, and the objects with
`live` are each in the chain that `idx` names, and in no other. -/
structure Table {ι : Type} (L : Links α) (head : ι → Option α) (idx : α → ι) (live : α → Prop)
    (chain : ι → List α) : Prop where
  holds : ∀ i, L.Holds (chain i)
  head_eq : ∀ i, head i = (chain i).head?
  mem : ∀ a i, a ∈ chain i ↔ live a ∧ idx a = i

section Table

variable {ι : Type} {head : ι → Option α} {idx : α → ι} {live live' : α → Prop} {chain : ι → List α}

theorem Table.congr (h : L.Table head idx live chain) {idx' : α → ι}
    (hlive : ∀ a, live' a ↔ live a) (hidx : ∀ a, live a → idx' a = idx a)
    (hn : ∀ a, live a → L'.next a = L.next a) (hp : ∀ a, live a → L'.prev a = L.prev a) :
    L'.Table head idx' live' chain where
  holds := fun i => (h.holds i).congr (fun a ha => hn a ((h.mem a i).mp ha).1)
    fun a ha => hp a ((h.mem a i).mp ha).1
  head_eq := h.head_eq
  mem := by
    intro a i
    rw [h.mem, hlive]
    constructor
    · rintro ⟨ha, hi⟩
      exact ⟨ha, (hidx a ha).trans hi⟩
    · rintro ⟨ha, hi⟩
      exact ⟨ha, (hidx a ha).symm.trans hi⟩

/-- An object in one chain is in no other. -/
theorem Table.not_mem_of_ne (h : L.Table head idx live chain) {a : α} {i j : ι} (ha : a ∈ chain i)
    (hij : j ≠ i) : a ∉ chain j := by
  intro hj
  exact hij (((h.mem a j).mp hj).2.symm.trans ((h.mem a i).mp ha).2)

/-- A chain has no more objects than there are. -/
theorem Table.length_le (h : L.Table head idx live chain) {all : List α} (hall : ∀ a, live a → a ∈ all)
    (i : ι) : (chain i).length ≤ all.length :=
  (List.subperm_of_subset (h.holds i).nodup fun a ha => hall a ((h.mem a i).mp ha).1).length_le

variable [DecidableEq ι] [DecidableEq α]

/-- An array with one entry assigned. -/
def setAt {β : Type} (f : ι → β) (i : ι) (v : β) : ι → β := fun j => if j = i then v else f j

@[simp] theorem setAt_self {β : Type} (f : ι → β) (i : ι) (v : β) : setAt f i v i = v := if_pos rfl

theorem setAt_of_ne {β : Type} (f : ι → β) {i j : ι} (v : β) (h : j ≠ i) : setAt f i v j = f j :=
  if_neg h

/-- A new object goes to the front of its chain. -/
theorem Table.insert (h : L.Table head idx live chain) {x : α} (hx : ¬ live x)
    (hlive : ∀ a, live' a ↔ live a ∨ a = x) :
    (L.pushFront (head (idx x)) x).Table (setAt head (idx x) (some x)) idx live'
      (setAt chain (idx x) (x :: chain (idx x))) := by
  have hout : ∀ i, x ∉ chain i := fun i hm => hx ((h.mem x i).mp hm).1
  constructor
  · intro i
    by_cases hi : i = idx x
    · subst hi
      rw [setAt_self, h.head_eq]
      exact (h.holds _).pushFront (hout _)
    · rw [setAt_of_ne _ _ hi, h.head_eq]
      refine (h.holds i).pushFront_other (hout i) fun y hy => ?_
      exact h.not_mem_of_ne (List.mem_of_mem_head? hy) hi
  · intro i
    by_cases hi : i = idx x
    · subst hi
      simp
    · rw [setAt_of_ne _ _ hi, setAt_of_ne _ _ hi, h.head_eq]
  · intro a i
    by_cases hi : i = idx x
    · subst hi
      rw [setAt_self, List.mem_cons, h.mem, hlive]
      constructor
      · rintro (rfl | ⟨ha, hia⟩)
        · exact ⟨Or.inr rfl, rfl⟩
        · exact ⟨Or.inl ha, hia⟩
      · rintro ⟨ha | rfl, hia⟩
        · exact Or.inr ⟨ha, hia⟩
        · exact Or.inl rfl
    · rw [setAt_of_ne _ _ hi, h.mem, hlive]
      constructor
      · rintro ⟨ha, hia⟩
        exact ⟨Or.inl ha, hia⟩
      · rintro ⟨ha | rfl, hia⟩
        · exact ⟨ha, hia⟩
        · exact absurd hia.symm hi

/-- The head of a chain without `x`, as the C code sets it: only when `x` has no
object before it. -/
def headWithout (L : Links α) (head : ι → Option α) (i : ι) (x : α) : ι → Option α :=
  match L.prev x with
  | some _ => head
  | none => setAt head i (L.next x)

/-- An object is taken out of its chain. -/
theorem Table.remove (h : L.Table head idx live chain) {x : α} (hx : live x)
    (hlive : ∀ a, live' a ↔ live a ∧ a ≠ x) :
    (L.unlink x).Table (L.headWithout head (idx x) x) idx live'
      (setAt chain (idx x) ((chain (idx x)).erase x)) := by
  obtain ⟨l, l', hl, hprev, hnext, hxl, hxl'⟩ := (h.holds _).around ((h.mem x (idx x)).mpr ⟨hx, rfl⟩)
  have herase : (chain (idx x)).erase x = l ++ l' := by
    rw [hl, List.erase_append_right _ hxl, List.erase_cons_head]
  have hholds := h.holds (idx x)
  rw [herase]
  rw [hl] at hholds
  constructor
  · intro i
    by_cases hi : i = idx x
    · subst hi
      rw [setAt_self]
      exact hholds.unlink
    · have hother : ∀ y, y ∈ l ++ x :: l' → y ∉ chain i :=
        fun y hy => h.not_mem_of_ne (hl ▸ hy) hi
      rw [setAt_of_ne _ _ hi]
      refine (h.holds i).unlink_other (fun y hy => hother y ?_) (fun y hy => hother y ?_)
        ((h.holds _).prev_ne_self ((h.mem x (idx x)).mpr ⟨hx, rfl⟩))
      · have := List.mem_of_getLast? (hprev.symm.trans hy)
        simp [this]
      · have := List.mem_of_mem_head? (hnext.symm.trans hy)
        simp [this]
  · intro i
    have hhead := h.head_eq (idx x)
    unfold headWithout
    rw [hprev, hnext]
    rw [hl] at hhead
    cases l with
    | nil =>
      by_cases hi : i = idx x
      · subst hi
        simp
      · simp only [List.getLast?_nil]
        rw [setAt_of_ne _ _ hi, setAt_of_ne _ _ hi, h.head_eq]
    | cons y ys =>
      rw [List.getLast?_cons]
      by_cases hi : i = idx x
      · subst hi
        rw [setAt_self]
        exact hhead
      · rw [setAt_of_ne _ _ hi]
        exact h.head_eq i
  · intro a i
    by_cases hi : i = idx x
    · subst hi
      have hmem := h.mem a (idx x)
      rw [hl, List.mem_append, List.mem_cons] at hmem
      rw [setAt_self, List.mem_append, hlive]
      constructor
      · rintro (ha | ha)
        · have := hmem.mp (Or.inl ha)
          exact ⟨⟨this.1, fun e => hxl (e ▸ ha)⟩, this.2⟩
        · have := hmem.mp (Or.inr (Or.inr ha))
          exact ⟨⟨this.1, fun e => hxl' (e ▸ ha)⟩, this.2⟩
      · rintro ⟨⟨ha, hne⟩, hia⟩
        rcases hmem.mpr ⟨ha, hia⟩ with h₁ | h₁ | h₁
        · exact Or.inl h₁
        · exact absurd h₁ hne
        · exact Or.inr h₁
    · rw [setAt_of_ne _ _ hi, h.mem, hlive]
      constructor
      · rintro ⟨ha, hia⟩
        exact ⟨⟨ha, fun e => hi (hia.symm.trans (congrArg idx e))⟩, hia⟩
      · rintro ⟨⟨ha, -⟩, hia⟩
        exact ⟨ha, hia⟩

/-- An object that is not the head of its chain is taken out and put in front. -/
theorem Table.moveToFront (h : L.Table head idx live chain) {x p : α} (hx : live x)
    (hp : L.prev x = some p) :
    ((L.unlink x).pushFront (head (idx x)) x).Table (setAt head (idx x) (some x)) idx live
      (setAt (setAt chain (idx x) ((chain (idx x)).erase x)) (idx x)
        (x :: (chain (idx x)).erase x)) := by
  have hwithout : L.headWithout head (idx x) x = head := by
    unfold headWithout
    rw [hp]
  have hout : (L.unlink x).Table _ _ (fun a => live a ∧ a ≠ x) _ := h.remove hx fun a => Iff.rfl
  have hback : ∀ a, live a ↔ (live a ∧ a ≠ x) ∨ a = x := by
    intro a
    by_cases ha : a = x
    · simp [ha, hx]
    · simp [ha]
  have hin := hout.insert (x := x) (fun hc => hc.2 rfl) hback
  rwa [hwithout, setAt_self] at hin

end Table

end Links

end Lede.Lib
