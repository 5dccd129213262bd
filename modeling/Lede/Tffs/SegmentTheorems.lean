/-
Lede.Tffs.SegmentTheorems — what the segments of an entry come to, in the order they are found.

The newest revision so far is the largest number, its slots are as many as its segments ask for,
and a slot holds the value of the last segment with its number (`takeAll_ok`). That is so as long
as every segment fits when it is found: its number is one of the slots, and the array grows only
from nothing. Otherwise the program writes outside of the array (`takeAll_fault`).
-/
import Lede.Tffs.Nand
import Mathlib.Data.List.Induction

namespace Lede.Tffs

open Lede.Lib

/-! ## The segments as found -/

/-- The largest revision, and 0 for none. -/
def topRev (es : List Segment) : BitVec 32 :=
  es.foldl (fun rev e => if rev < e.rev then e.rev else rev) 0

/-- The segments of a revision that are not cleared. -/
def ofRev (es : List Segment) (rev : BitVec 32) : List Segment :=
  es.filter fun e => e.rev = rev ∧ e.seg ≠ TFFS_SEGMENT_CLEARED

/-- The slots that the segments of a revision ask for. -/
def slotsFor (es : List Segment) (rev : BitVec 32) : Nat :=
  ((ofRev es rev).map Segment.newNumSegs).foldr max 0

/-- The value of the last segment of a revision with a number. -/
def lastVal (es : List Segment) (rev : BitVec 32) (i : Nat) : Option (List UInt8) :=
  ((ofRev es rev).filter fun e => e.seg.toNat = i).getLast?.map Segment.val

section

variable (t : Reader)

/-- A segment that is found behind others fits: its slot is one of the array's, and the array does
not grow twice. -/
def Fits (pre : List Segment) (e : Segment) : Prop :=
  e.seg ≠ TFFS_SEGMENT_CLEARED → topRev pre ≤ e.rev →
    (slotsFor pre e.rev < e.newNumSegs →
      slotsFor pre e.rev = 0 ∧ e.newNumSegs * t.word.segmentSize < t.word.modulus) ∧
    e.seg.toNat < max (slotsFor pre e.rev) e.newNumSegs

def AllFit (es : List Segment) : Prop := ∀ pre e post, es = pre ++ e :: post → Fits t pre e

/-- What the program has after the segments. -/
structure Holds (es : List Segment) (st : Segments) : Prop where
  rev : st.rev = topRev es
  length : st.slots.length = slotsFor es (topRev es)
  room : st.slots.length * t.word.segmentSize < t.word.modulus
  vals : ∀ i, st.slots[i]?.join = lastVal es (topRev es) i

end

variable {t : Reader} {es : List Segment} {e : Segment} {rev : BitVec 32}

@[simp] theorem topRev_nil : topRev [] = 0 := rfl

theorem topRev_concat :
    topRev (es ++ [e]) = if topRev es < e.rev then e.rev else topRev es := by
  unfold topRev
  rw [List.foldl_append]
  rfl

theorem le_topRev (h : e ∈ es) : e.rev ≤ topRev es := by
  induction es using List.reverseRecOn with
  | nil => simp at h
  | append_singleton es d ih =>
    rw [topRev_concat]
    rcases List.mem_append.mp h with hes | hd
    · have hle := ih hes
      split_ifs with hlt
      · exact Nat.le_of_lt (Nat.lt_of_le_of_lt hle hlt)
      · exact hle
    · obtain rfl := List.mem_singleton.mp hd
      split_ifs with hlt
      · exact Nat.le_refl _
      · exact Nat.not_lt.mp hlt

/-- A larger revision has no segment yet. -/
theorem ofRev_of_lt (h : topRev es < rev) : ofRev es rev = [] := by
  unfold ofRev
  rw [List.filter_eq_nil_iff]
  intro e he
  have hle := le_topRev he
  simp only [decide_eq_true_eq, not_and]
  rintro rfl
  exact absurd h (Nat.not_lt.mpr hle)

theorem ofRev_concat_of_ne (h : e.rev ≠ rev) : ofRev (es ++ [e]) rev = ofRev es rev := by
  simp [ofRev, h]

theorem ofRev_concat_cleared (h : e.seg = TFFS_SEGMENT_CLEARED) :
    ofRev (es ++ [e]) rev = ofRev es rev := by
  simp [ofRev, h]

theorem ofRev_concat (h : e.seg ≠ TFFS_SEGMENT_CLEARED) :
    ofRev (es ++ [e]) e.rev = ofRev es e.rev ++ [e] := by
  simp [ofRev, h]

theorem foldr_max_append (xs : List Nat) (x : Nat) :
    (xs ++ [x]).foldr max 0 = max (xs.foldr max 0) x := by
  induction xs with
  | nil => simp
  | cons y xs ih => simp only [List.cons_append, List.foldr_cons, ih, Nat.max_assoc]

theorem slotsFor_concat (h : e.seg ≠ TFFS_SEGMENT_CLEARED) :
    slotsFor (es ++ [e]) e.rev = max (slotsFor es e.rev) e.newNumSegs := by
  rw [slotsFor, ofRev_concat h, List.map_append, List.map_singleton, foldr_max_append, slotsFor]

theorem lastVal_concat (h : e.seg ≠ TFFS_SEGMENT_CLEARED) (i : Nat) :
    lastVal (es ++ [e]) e.rev i =
      if e.seg.toNat = i then some e.val else lastVal es e.rev i := by
  rw [lastVal, ofRev_concat h, List.filter_append]
  split_ifs with hi
  · simp [hi]
  · simp [hi, lastVal]

theorem allFit_nil : AllFit t [] := by
  intro pre e post h
  simp at h

theorem allFit_concat : AllFit t (es ++ [e]) ↔ AllFit t es ∧ Fits t es e := by
  constructor
  · intro h
    refine ⟨fun pre d post heq => h pre d (post ++ [e]) ?_, h es e [] rfl⟩
    rw [heq]
    simp
  · rintro ⟨hes, he⟩ pre d post heq
    rcases List.eq_nil_or_concat post with rfl | ⟨post, c, rfl⟩
    · obtain ⟨rfl, hd⟩ := List.append_inj' heq rfl
      obtain ⟨rfl, -⟩ := List.cons_eq_cons.mp hd
      exact he
    · rw [List.concat_eq_append, ← List.cons_append, ← List.append_assoc] at heq
      obtain ⟨rfl, -⟩ := List.append_inj' heq rfl
      exact hes pre d post rfl

/-! ## The array -/

section Array

variable {slots : List (Option (List UInt8))} {new : Nat}

theorem Word.segmentSize_cases (w : Word) :
    w.segmentSize = 8 ∧ w.modulus = 2 ^ 32 ∨ w.segmentSize = 16 ∧ w.modulus = 2 ^ 64 := by
  cases w
  · exact Or.inl ⟨rfl, rfl⟩
  · exact Or.inr ⟨rfl, rfl⟩

/-- The array grows from nothing only, and to a size that does not wrap. -/
theorem growSegments_eq (hroom : slots.length * t.word.segmentSize < t.word.modulus) :
    growSegments t slots new =
      if slots.length < new → slots.length = 0 ∧ new * t.word.segmentSize < t.word.modulus then
        .ok (slots ++ List.replicate (new - slots.length) none)
      else .error .fault := by
  unfold growSegments memsetNew
  by_cases hlt : slots.length < new
  · have hiff : (⟨slots.length * t.word.segmentSize % t.word.modulus * t.word.segmentSize,
        (new - slots.length) * t.word.segmentSize % t.word.modulus⟩ : Access) =
          ⟨slots.length * t.word.segmentSize, (new - slots.length) * t.word.segmentSize⟩ ↔
        slots.length = 0 ∧ new * t.word.segmentSize < t.word.modulus := by
      rw [Nat.mod_eq_of_lt hroom, Access.mk.injEq]
      rcases t.word.segmentSize_cases with ⟨hs, hm⟩ | ⟨hs, hm⟩
      · rw [hs, hm]
        omega
      · rw [hs, hm]
        omega
    simp only [hlt, if_true, true_implies, hiff]
  · have hsub : new - slots.length = 0 := by omega
    simp [hlt, hsub]

/-- What the `memset` clears when the array grows a second time ends behind it. -/
theorem memsetNew_behind {num new : Nat} (hnum : 0 < num) (hnew : num < new)
    (hsize : new * t.word.segmentSize < t.word.modulus) :
    new * t.word.segmentSize < (memsetNew t num new).off + (memsetNew t num new).len := by
  unfold memsetNew
  rcases t.word.segmentSize_cases with ⟨hs, hm⟩ | ⟨hs, hm⟩
  · rw [hs, hm] at hsize ⊢
    change new * 8 < num * 8 % 2 ^ 32 * 8 + (new - num) * 8 % 2 ^ 32
    omega
  · rw [hs, hm] at hsize ⊢
    change new * 16 < num * 16 % 2 ^ 64 * 16 + (new - num) * 16 % 2 ^ 64
    omega

theorem getElem?_append_none (i n : Nat) :
    (slots ++ List.replicate n none)[i]?.join = slots[i]?.join := by
  rw [List.getElem?_append]
  split_ifs with hi
  · rfl
  · rw [List.getElem?_eq_none (Nat.not_lt.mp hi), List.getElem?_replicate]
    split_ifs <;> rfl

end Array

/-! ## A segment after the others -/

section Take

variable {st : Segments}

theorem Holds.empty : Holds t [] {} where
  rev := rfl
  length := rfl
  room := by
    rcases t.word.segmentSize_cases with ⟨-, hm⟩ | ⟨-, hm⟩ <;> simp [hm]
  vals i := by simp [lastVal, ofRev]

/-- The state for a revision that is not less than all before. -/
theorem Holds.forRev (h : Holds t es st) (hle : topRev es ≤ e.rev) :
    let st' : Segments := if st.rev < e.rev then ⟨e.rev, []⟩ else st
    st'.rev = e.rev ∧ st'.slots.length = slotsFor es e.rev ∧
      st'.slots.length * t.word.segmentSize < t.word.modulus ∧
      ∀ i, st'.slots[i]?.join = lastVal es e.rev i := by
  have hrev := h.rev
  by_cases hlt : st.rev < e.rev
  · have hnone : ofRev es e.rev = [] := ofRev_of_lt (hrev ▸ hlt)
    simp only [hlt, if_true]
    refine ⟨trivial, by simp [slotsFor, hnone], ?_, fun i => by simp [lastVal, hnone]⟩
    exact Nat.lt_of_le_of_lt (by simp) h.room
  · have heq : topRev es = e.rev := by
      apply BitVec.le_antisymm hle
      rw [← hrev]
      exact BitVec.not_lt.mp hlt
    simp only [hlt, if_false]
    rw [← heq]
    exact ⟨hrev, h.length, h.room, h.vals⟩

theorem takeSegment_spec (h : Holds t es st) (e : Segment) :
    (Fits t es e → ∃ st', takeSegment t st e = .ok st' ∧ Holds t (es ++ [e]) st') ∧
      (¬ Fits t es e → takeSegment t st e = .error .fault) := by
  have hrev := h.rev
  unfold takeSegment
  by_cases hold : e.rev < st.rev
  · -- an obsolete revision
    have htop : topRev (es ++ [e]) = topRev es := by
      rw [topRev_concat, if_neg (BitVec.not_lt.mpr (BitVec.le_of_lt (hrev ▸ hold)))]
    have hof : ofRev (es ++ [e]) (topRev es) = ofRev es (topRev es) :=
      ofRev_concat_of_ne (BitVec.ne_of_lt (hrev ▸ hold))
    have hfits : Fits t es e := fun _ hle => absurd (hrev ▸ hold) (BitVec.not_lt.mpr hle)
    simp only [hold, if_true]
    refine ⟨fun _ => ⟨st, rfl, ⟨by rw [htop, hrev], ?_, h.room, fun i => ?_⟩⟩,
      fun hno => absurd hfits hno⟩
    · rw [htop, slotsFor, hof, h.length, slotsFor]
    · rw [htop, lastVal, hof, h.vals, lastVal]
  have hle : topRev es ≤ e.rev := hrev ▸ BitVec.not_lt.mp hold
  have htop : topRev (es ++ [e]) = e.rev := by
    rw [topRev_concat]
    split_ifs with hlt
    · rfl
    · exact BitVec.le_antisymm hle (BitVec.not_lt.mp hlt)
  have hfor := h.forRev hle
  simp only [hold, if_false]
  generalize (if st.rev < e.rev then (⟨e.rev, []⟩ : Segments) else st) = st' at hfor ⊢
  obtain ⟨hr, hl, hroom, hv⟩ := hfor
  by_cases hclear : e.seg = TFFS_SEGMENT_CLEARED
  · have hof : ofRev (es ++ [e]) e.rev = ofRev es e.rev := ofRev_concat_cleared hclear
    simp only [hclear, if_true]
    refine ⟨fun _ => ⟨st', rfl, ⟨by rw [htop, hr], ?_, hroom, fun i => ?_⟩⟩,
      fun hno => absurd (fun hne => absurd hclear hne) hno⟩
    · rw [htop, slotsFor, hof, hl, slotsFor]
    · rw [htop, lastVal, hof, hv, lastVal]
  simp only [hclear, if_false, growSegments_eq hroom]
  have hiff : Fits t es e ↔ (st'.slots.length < e.newNumSegs → st'.slots.length = 0 ∧
      e.newNumSegs * t.word.segmentSize < t.word.modulus) ∧
        e.seg.toNat < max st'.slots.length e.newNumSegs := by
    rw [hl]
    exact ⟨fun hf => hf hclear hle, fun hf _ _ => hf⟩
  rw [hiff]
  by_cases hgrow : st'.slots.length < e.newNumSegs → st'.slots.length = 0 ∧
      e.newNumSegs * t.word.segmentSize < t.word.modulus
  · have hlen : (st'.slots ++ List.replicate (e.newNumSegs - st'.slots.length) none).length =
        max st'.slots.length e.newNumSegs := by
      rw [List.length_append, List.length_replicate]
      omega
    rw [if_pos hgrow]
    simp only [hlen]
    by_cases hseg : e.seg.toNat < max st'.slots.length e.newNumSegs
    · rw [if_pos hseg]
      refine ⟨fun _ => ⟨_, rfl, ⟨by rw [htop, hr], ?_, ?_, fun i => ?_⟩⟩,
        fun hno => absurd ⟨hgrow, hseg⟩ hno⟩
      · rw [List.length_set, hlen, htop, slotsFor_concat hclear, hl]
      · rw [List.length_set, hlen]
        rcases Nat.lt_or_ge st'.slots.length e.newNumSegs with hlt | hge
        · rw [Nat.max_eq_right (Nat.le_of_lt hlt)]
          exact (hgrow hlt).2
        · rw [Nat.max_eq_left hge]
          exact hroom
      · rw [htop, lastVal_concat hclear, List.getElem?_set, hlen]
        split_ifs with hi
        · rfl
        · rw [getElem?_append_none, hv]
    · rw [if_neg hseg]
      exact ⟨fun hf => absurd hf.2 hseg, fun _ => rfl⟩
  · rw [if_neg hgrow]
    exact ⟨fun hf => absurd hf.1 hgrow, fun _ => rfl⟩

theorem foldlM_concat {S C : Type} {f : S → C → Except Stop S} {s s' : S} {cs : List C} {c : C}
    (h : cs.foldlM f s = .ok s') : (cs ++ [c]).foldlM f s = f s' c := by
  rw [List.foldlM_append, h]
  change [c].foldlM f s' = f s' c
  simp

/-- As long as every segment fits, the array is what the segments come to. -/
theorem takeAll_ok (h : AllFit t es) :
    ∃ st, es.foldlM (takeSegment t) {} = .ok st ∧ Holds t es st := by
  induction es using List.reverseRecOn with
  | nil => exact ⟨{}, rfl, Holds.empty⟩
  | append_singleton es e ih =>
    obtain ⟨hes, he⟩ := allFit_concat.mp h
    obtain ⟨st, hst, hholds⟩ := ih hes
    obtain ⟨st', hst', hholds'⟩ := (takeSegment_spec hholds e).1 he
    exact ⟨st', by rw [foldlM_concat hst, hst'], hholds'⟩

/-- Where one does not, the program leaves the array. -/
theorem takeAll_fault (h : ¬ AllFit t es) : es.foldlM (takeSegment t) {} = .error .fault := by
  induction es using List.reverseRecOn with
  | nil => exact absurd allFit_nil h
  | append_singleton es e ih =>
    by_cases hes : AllFit t es
    · obtain ⟨st, hst, hholds⟩ := takeAll_ok hes
      rw [foldlM_concat hst]
      exact (takeSegment_spec hholds e).2 fun he => h (allFit_concat.mpr ⟨hes, he⟩)
    · rw [List.foldlM_append, ih hes]
      rfl

end Take

/-! ## The value -/

section Join

variable {slots : List (Option (List UInt8))} {st st' : Segments}

/-- The bytes in the slots. -/
def load (slots : List (Option (List UInt8))) : Nat := (slots.map fun v => (v.getD []).length).sum

theorem load_set_le (slots : List (Option (List UInt8))) (i : Nat) (val : List UInt8) :
    load (slots.set i (some val)) ≤ load slots + val.length := by
  induction slots generalizing i with
  | nil => simp [load]
  | cons v slots ih =>
    cases i with
    | zero =>
      simp only [load, List.set_cons_zero, List.map_cons, List.sum_cons, Option.getD_some]
      omega
    | succ i =>
      have := ih i
      simp only [load, List.set_cons_succ, List.map_cons, List.sum_cons] at this ⊢
      omega

theorem load_append_none (n : Nat) : load (slots ++ List.replicate n none) = load slots := by
  simp [load]

theorem growSegments_load {slots' : List (Option (List UInt8))} {new : Nat}
    (h : growSegments t slots new = .ok slots') : load slots' = load slots := by
  unfold growSegments at h
  split_ifs at h with hlt hset
  · cases h
    exact load_append_none _
  · cases h
    rfl

/-- A segment adds no more than its own bytes. -/
theorem takeSegment_load (h : takeSegment t st e = .ok st') :
    load st'.slots ≤ load st.slots + e.val.length := by
  have hnew : load (if st.rev < e.rev then (⟨e.rev, []⟩ : Segments) else st).slots ≤
      load st.slots := by
    split_ifs
    · simp [load]
    · exact Nat.le_refl _
  unfold takeSegment at h
  by_cases hold : e.rev < st.rev
  · rw [if_pos hold] at h
    cases h
    omega
  rw [if_neg hold] at h
  generalize (if st.rev < e.rev then (⟨e.rev, []⟩ : Segments) else st) = st₁ at h hnew
  by_cases hclear : e.seg = TFFS_SEGMENT_CLEARED
  · rw [if_pos hclear] at h
    cases h
    omega
  rw [if_neg hclear] at h
  cases hgrow : growSegments t st₁.slots e.newNumSegs with
  | error stop => simp [hgrow] at h
  | ok slots =>
    simp only [hgrow] at h
    split_ifs at h with hseg
    cases h
    have hset := load_set_le slots e.seg.toNat e.val
    have heq := growSegments_load hgrow
    simp only
    omega

theorem takeAll_load (h : es.foldlM (takeSegment t) st = .ok st') :
    load st'.slots ≤ load st.slots + (es.map fun e => e.val.length).sum := by
  induction es generalizing st with
  | nil =>
    cases h
    simp
  | cons e es ih =>
    cases htake : takeSegment t st e with
    | error stop =>
      rw [List.foldlM_cons, htake] at h
      cases h
    | ok st₁ =>
      rw [List.foldlM_cons, htake] at h
      have hle := takeSegment_load htake
      have hrest := ih h
      simp only [List.map_cons, List.sum_cons]
      omega

theorem mapM_id_eq_some {vals : List (List UInt8)} :
    slots.mapM id = some vals ↔ slots = vals.map some := by
  induction slots generalizing vals with
  | nil => cases vals <;> simp
  | cons v slots ih =>
    cases v with
    | none => cases vals <;> simp
    | some v =>
      rw [List.mapM_cons]
      change ((slots.mapM id).bind fun rest => some (v :: rest)) = some vals ↔ _
      rw [Option.bind_eq_some_iff]
      cases vals with
      | nil => simp
      | cons w vals =>
        constructor
        · rintro ⟨rest, hrest, heq⟩
          cases heq
          rw [ih.mp hrest, List.map_cons]
        · intro heq
          rw [List.map_cons, List.cons.injEq, Option.some_inj] at heq
          exact ⟨vals, ih.mpr heq.2, by rw [heq.1]⟩

theorem load_map_some (vals : List (List UInt8)) :
    load (vals.map some) = vals.flatten.length := by
  simp [load, List.length_flatten, Function.comp_def]

/-- Where the bytes fit into 32 bits, the value is what the slots have, if there are any and none is
empty. -/
theorem joinSegments_ok (h : load slots < 2 ^ 32) :
    ∃ r, joinSegments slots = .ok r ∧
      ∀ val, r = some val ↔
        slots ≠ [] ∧ ∃ vals : List (List UInt8), slots = vals.map some ∧ val = vals.flatten := by
  unfold joinSegments
  by_cases hnil : slots = []
  · exact ⟨none, by simp [hnil], by simp [hnil]⟩
  · cases hmap : slots.mapM id with
    | none =>
      refine ⟨none, by simp [hnil], fun val => ?_⟩
      simp only [reduceCtorEq, false_iff, not_and, not_exists]
      intro _ vals heq _
      rw [mapM_id_eq_some.mpr heq] at hmap
      cases hmap
    | some vals =>
      have heq := mapM_id_eq_some.mp hmap
      have hlt : vals.flatten.length < 2 ^ 32 := by
        rw [← load_map_some, ← heq]
        exact h
      refine ⟨some vals.flatten, by simp only [hnil, if_false, hlt, if_true], fun val => ?_⟩
      rw [Option.some_inj]
      constructor
      · rintro rfl
        exact ⟨hnil, vals, heq, rfl⟩
      · rintro ⟨-, vals', heq', rfl⟩
        have hsame : vals.map some = vals'.map some := heq.symm.trans heq'
        rw [(List.map_inj_right fun _ _ h => Option.some_inj.mp h).mp hsame]

end Join

end Lede.Tffs
