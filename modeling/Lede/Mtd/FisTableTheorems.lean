/-
Lede.Mtd.FisTableTheorems — what `fis_remap` does to the table.

The old entries of a directory lie in a `Span` of it, from the first to the last, with
other entries between them or not. The loops find the ends of the span (`Span.findOld_eq`)
and the next flash address behind it (`findEnd_findOld`), and what is left of the table is
what was in front of the span, the new entries, and what was behind it, as far as there is
room (`Span.fisRemap_eq`, `Span.live_movedTail`).
-/
import Lede.Mtd.Fis
import Mathlib.Data.List.TakeWhile
import Mathlib.Data.List.GetD

namespace Lede.Mtd.Fis

/-! ## The old entries in the table -/

/-- The old entries of a directory lie between `pre` and `post`, and both ends of `mid` are old. -/
structure Span (old : List Part) (ds pre mid post : List Desc) : Prop where
  eq : ds = pre ++ (mid ++ post)
  pre_not : ∀ d ∈ pre, named old d = false
  post_not : ∀ d ∈ post, named old d = false
  head : ∃ d l, mid = d :: l ∧ named old d = true
  last : ∃ d l, mid = l ++ [d] ∧ named old d = true

section Span

variable {old : List Part} {ds pre mid post : List Desc}

theorem exists_span (h : ∃ d ∈ ds, named old d = true) : ∃ pre mid post, Span old ds pre mid post := by
  induction ds with
  | nil =>
    obtain ⟨d, hd, -⟩ := h
    exact absurd hd List.not_mem_nil
  | cons d ds ih =>
    by_cases hrest : ∃ d ∈ ds, named old d = true
    · obtain ⟨pre, mid, post, hs⟩ := ih hrest
      cases hd : named old d with
      | false =>
        refine ⟨d :: pre, mid, post, by rw [hs.eq, List.cons_append], ?_, hs.post_not, hs.head, hs.last⟩
        intro x hx
        rcases List.mem_cons.mp hx with rfl | hx
        · exact hd
        · exact hs.pre_not x hx
      | true =>
        obtain ⟨z, l, hl, hz⟩ := hs.last
        refine ⟨[], d :: (pre ++ mid), post, ?_, ?_, hs.post_not, ⟨d, _, rfl, hd⟩, ⟨z, d :: (pre ++ l), ?_, hz⟩⟩
        · rw [hs.eq, List.nil_append, List.cons_append, List.append_assoc]
        · exact fun x hx => absurd hx List.not_mem_nil
        · rw [hl, List.cons_append, List.append_assoc]
    · have hnone : ∀ x ∈ ds, named old x = false := by
        intro x hx
        cases hx' : named old x with
        | false => rfl
        | true => exact absurd ⟨x, hx, hx'⟩ hrest
      obtain ⟨x, hx, hnamed⟩ := h
      have hd : named old d = true := by
        rcases List.mem_cons.mp hx with rfl | hx
        · exact hnamed
        · exact absurd ⟨x, hx, hnamed⟩ hrest
      exact ⟨[], [d], ds, rfl, fun x hx => absurd hx List.not_mem_nil, hnone, ⟨d, [], rfl, hd⟩,
        ⟨d, [], rfl, hd⟩⟩

theorem findOld_append (i : Nat) (es : List Desc) (a : Found) :
    findOld old i (ds ++ es) a = findOld old (i + ds.length) es (findOld old i ds a) := by
  induction ds generalizing i a with
  | nil => rfl
  | cons d ds ih =>
    rw [List.cons_append, findOld, ih, findOld, List.length_cons]
    congr 1
    omega

/-- Entries that are not old change neither end. -/
theorem findOld_not {i : Nat} {a : Found} (h : ∀ d ∈ ds, named old d = false) :
    (findOld old i ds a).first = a.first ∧ (findOld old i ds a).last = a.last := by
  induction ds generalizing i a with
  | nil => exact ⟨rfl, rfl⟩
  | cons d ds ih =>
    have hd := h d List.mem_cons_self
    obtain ⟨hfirst, hlast⟩ := @ih (i + 1)
      { offset := if a.offset < d.flashBase then d.flashBase else a.offset
        first := if named old d then some (a.first.getD i) else a.first
        last := if named old d then some i else a.last } (fun x hx => h x (List.mem_cons_of_mem d hx))
    rw [findOld, hfirst, hlast, hd]
    exact ⟨rfl, rfl⟩

/-- The first old entry stays the first. -/
theorem findOld_first {i f : Nat} {a : Found} (h : a.first = some f) :
    (findOld old i ds a).first = some f := by
  induction ds generalizing i a with
  | nil => exact h
  | cons d ds ih =>
    rw [findOld]
    refine ih ?_
    dsimp only
    rw [h]
    split
    · rfl
    · rfl

theorem Span.findOld_eq (hs : Span old ds pre mid post) (offset : UInt32) :
    (findOld old 0 ds ⟨offset, none, none⟩).first = some pre.length ∧
      (findOld old 0 ds ⟨offset, none, none⟩).last = some (pre.length + mid.length - 1) := by
  rw [hs.eq, findOld_append, findOld_append, Nat.zero_add]
  obtain ⟨hfirst, hlast⟩ := @findOld_not old pre 0 ⟨offset, none, none⟩ hs.pre_not
  generalize findOld old 0 pre ⟨offset, none, none⟩ = a at hfirst hlast
  rw [(findOld_not hs.post_not).1, (findOld_not hs.post_not).2]
  constructor
  · obtain ⟨d, l, rfl, hd⟩ := hs.head
    rw [findOld]
    refine findOld_first ?_
    dsimp only
    rw [if_pos hd, hfirst]
    rfl
  · obtain ⟨d, l, rfl, hd⟩ := hs.last
    rw [findOld_append, findOld, findOld, List.length_append]
    dsimp only
    rw [if_pos hd]
    rfl

/-- Without an old entry the loop finds none. -/
theorem findOld_none (h : ∀ d ∈ ds, named old d = false) (offset : UInt32) :
    (findOld old 0 ds ⟨offset, none, none⟩).first = none := (findOld_not h).1

end Span

/-! ## The room in the flash -/

section Room

variable {old : List Part} {ds : List Desc}

/-- The highest flash address. -/
theorem findOld_offset (i : Nat) (a : Found) :
    a.offset ≤ (findOld old i ds a).offset ∧ (∀ d ∈ ds, d.flashBase ≤ (findOld old i ds a).offset) ∧
      ((findOld old i ds a).offset = a.offset ∨
        ∃ d ∈ ds, d.flashBase = (findOld old i ds a).offset) := by
  induction ds generalizing i a with
  | nil => exact ⟨UInt32.le_refl _, fun d hd => absurd hd List.not_mem_nil, Or.inl rfl⟩
  | cons d ds ih =>
    rw [findOld]
    generalize hb : ({ offset := if a.offset < d.flashBase then d.flashBase else a.offset
                       first := if named old d then some (a.first.getD i) else a.first
                       last := if named old d then some i else a.last } : Found) = b
    have hoff : b.offset = if a.offset < d.flashBase then d.flashBase else a.offset := by rw [← hb]
    obtain ⟨hge, hall, hor⟩ := ih (i + 1) b
    have hmax : a.offset ≤ b.offset ∧ d.flashBase ≤ b.offset ∧
        (b.offset = a.offset ∨ b.offset = d.flashBase) := by
      rw [hoff]
      split
      · next hlt => exact ⟨UInt32.le_of_lt hlt, UInt32.le_refl _, Or.inr rfl⟩
      · next hnot => exact ⟨UInt32.le_refl _, UInt32.not_lt.mp hnot, Or.inl rfl⟩
    refine ⟨UInt32.le_trans hmax.1 hge, ?_, ?_⟩
    · intro x hx
      rcases List.mem_cons.mp hx with rfl | hx
      · exact UInt32.le_trans hmax.2.1 hge
      · exact hall x hx
    · rcases hor with hor | ⟨x, hx, heq⟩
      · rcases hmax.2.2 with h | h
        · exact Or.inl (hor.trans h)
        · exact Or.inr ⟨d, List.mem_cons_self, (hor.trans h).symm⟩
      · exact Or.inr ⟨x, List.mem_cons_of_mem d hx, heq⟩

/-- The lowest flash address above, or the one the loop starts with. -/
theorem findEnd_spec (above offset : UInt32) :
    findEnd above ds offset ≤ offset ∧ (∀ d ∈ ds, above < d.flashBase → findEnd above ds offset ≤ d.flashBase) ∧
      (findEnd above ds offset = offset ∨
        ∃ d ∈ ds, above < d.flashBase ∧ d.flashBase = findEnd above ds offset) := by
  induction ds generalizing offset with
  | nil => exact ⟨UInt32.le_refl _, fun d hd => absurd hd List.not_mem_nil, Or.inl rfl⟩
  | cons d ds ih =>
    rw [findEnd]
    generalize hb : (if above < d.flashBase ∧ d.flashBase < offset then d.flashBase else offset) = b
    obtain ⟨hle, hall, hor⟩ := ih b
    have hmin : b ≤ offset ∧ (above < d.flashBase → b ≤ d.flashBase) ∧
        (b = offset ∨ (above < d.flashBase ∧ b = d.flashBase)) := by
      rw [← hb]
      split
      · next h => exact ⟨UInt32.le_of_lt h.2, fun _ => UInt32.le_refl _, Or.inr ⟨h.1, rfl⟩⟩
      · next h =>
        exact ⟨UInt32.le_refl _, fun hlt => UInt32.not_lt.mp (fun hlt' => h ⟨hlt, hlt'⟩), Or.inl rfl⟩
    refine ⟨UInt32.le_trans hle hmin.1, ?_, ?_⟩
    · intro x hx hlt
      rcases List.mem_cons.mp hx with rfl | hx
      · exact UInt32.le_trans hle (hmin.2.1 hlt)
      · exact hall x hx hlt
    · rcases hor with hor | ⟨x, hx, hlt, heq⟩
      · rcases hmin.2.2 with h | ⟨hlt, h⟩
        · exact Or.inl (hor.trans h)
        · exact Or.inr ⟨d, List.mem_cons_self, hlt, (hor.trans h).symm⟩
      · exact Or.inr ⟨x, List.mem_cons_of_mem d hx, hlt, heq⟩

/-- The flash address at which what is behind `above` begins: that of the next entry of the
directory, or `above` itself if there is none. -/
def nextBase (ds : List Desc) (above : Nat) : Nat :=
  ((ds.map (·.flashBase.toNat)).filter (above < ·)).min?.getD above

/-- The two loops find the next flash address. -/
theorem findEnd_findOld {above : UInt32} (habove : ∃ d ∈ ds, d.flashBase = above) :
    (findEnd above ds (findOld old 0 ds ⟨0, none, none⟩).offset).toNat = nextBase ds above.toNat := by
  obtain ⟨-, hmax, hor⟩ := @findOld_offset old ds 0 ⟨0, none, none⟩
  generalize (findOld old 0 ds ⟨0, none, none⟩).offset = offset at hmax hor
  obtain ⟨hle, hall, hfound⟩ := @findEnd_spec ds above offset
  generalize findEnd above ds offset = r at hle hall hfound
  unfold nextBase
  have hmem : ∀ x, x ∈ (ds.map (·.flashBase.toNat)).filter (above.toNat < ·) ↔
      ∃ d ∈ ds, d.flashBase.toNat = x ∧ above.toNat < x := by
    intro x
    simp only [List.mem_filter, List.mem_map, decide_eq_true_eq]
    exact ⟨fun ⟨⟨d, hd, hx⟩, hlt⟩ => ⟨d, hd, hx, hlt⟩, fun ⟨d, hd, hx, hlt⟩ => ⟨⟨d, hd, hx⟩, hlt⟩⟩
  cases hmin : ((ds.map (·.flashBase.toNat)).filter (above.toNat < ·)).min? with
  | none =>
    -- nothing is above: the highest address is `above` itself
    rw [List.min?_eq_none_iff] at hmin
    rw [Option.getD_none]
    have hnot : ∀ d ∈ ds, ¬ above.toNat < d.flashBase.toNat := by
      intro d hd hlt
      have := (hmem _).mpr ⟨d, hd, rfl, hlt⟩
      rw [hmin] at this
      exact absurd this List.not_mem_nil
    have hr : r = offset := by
      rcases hfound with h | ⟨d, hd, hlt, -⟩
      · exact h
      · exact absurd (UInt32.lt_iff_toNat_lt.mp hlt) (hnot d hd)
    obtain ⟨d, hd, rfl⟩ := habove
    have hge := UInt32.le_iff_toNat_le.mp (hmax d hd)
    rw [hr]
    rcases hor with rfl | ⟨x, hx, rfl⟩
    · have hzero : (0 : UInt32).toNat = 0 := rfl
      dsimp only at hge ⊢
      omega
    · have := hnot x hx
      omega
  | some m =>
    rw [List.min?_eq_some_iff] at hmin
    rw [Option.getD_some]
    obtain ⟨hin, hlow⟩ := hmin
    obtain ⟨d, hd, rfl, hlt⟩ := (hmem _).mp hin
    have hle' := UInt32.le_iff_toNat_le.mp (hall d hd (UInt32.lt_iff_toNat_lt.mpr hlt))
    have hge : d.flashBase.toNat ≤ r.toNat := by
      rcases hfound with rfl | ⟨x, hx, hltx, rfl⟩
      · exact UInt32.le_iff_toNat_le.mp (hmax d hd)
      · exact hlow _ ((hmem _).mpr ⟨x, hx, rfl, UInt32.lt_iff_toNat_lt.mp hltx⟩)
    omega

end Room

/-! ## What is written -/

/-- The new descriptors, from flash address `offset` on. -/
def newDescs : List Part → UInt32 → UInt32 → List Desc
  | [], _, _ => []
  | p :: ps, offset, size =>
    let d := newDesc p offset size
    d :: newDescs ps (offset + d.size) (size - d.size)

section Table

variable {t : List Desc} {old new : List Part} {pre mid post : List Desc}

theorem length_newDescs (ps : List Part) (offset size : UInt32) :
    (newDescs ps offset size).length = ps.length := by
  induction ps generalizing offset size with
  | nil => rfl
  | cons p ps ih => rw [newDescs, List.length_cons, List.length_cons, ih]

/-- The last loop puts the new descriptors over what is there. -/
theorem place_eq {ps : List Part} {a b : List Desc} {offset size : UInt32}
    (hb : ps.length ≤ b.length) :
    place ps a.length offset size (a ++ b) = a ++ (newDescs ps offset size ++ b.drop ps.length) := by
  induction ps generalizing a b offset size with
  | nil => rfl
  | cons p ps ih =>
    cases b with
    | nil => exact absurd hb (Nat.not_succ_le_zero _)
    | cons x b =>
      rw [List.length_cons, List.length_cons] at hb
      have hset : (a ++ x :: b).set a.length (newDesc p offset size) =
          (a ++ [newDesc p offset size]) ++ b := by
        rw [List.set_append_right _ _ (Nat.le_refl _), Nat.sub_self, List.set_cons_zero,
          List.append_assoc]
        rfl
      have hlen : (a ++ [newDesc p offset size]).length = a.length + 1 := List.length_append
      rw [place, newDescs, hset, ← hlen, ih (by omega), List.append_assoc]
      rfl

/-- What stands behind the new descriptors. -/
def movedTail (t : List Desc) (desc last : Nat) : List Desc :=
  (t.drop last ++ List.replicate (last - desc) blank).take (t.length - desc)

/-- The move and the clearing leave what is behind `last` behind `desc`. -/
theorem moved_eq {desc last : Nat} (hlast : last ≤ t.length) (hdesc : desc ≤ t.length) :
    let moved := if desc = last then t else memmove t desc last (t.length - max desc last)
    let cleared := if desc < last then memset moved (t.length - (last - desc)) else moved
    cleared = t.take desc ++ movedTail t desc last := by
  dsimp only
  rcases Nat.lt_trichotomy desc last with hlt | rfl | hgt
  · -- fewer new entries than old ones
    have hfull : movedTail t desc last = t.drop last ++ List.replicate (last - desc) blank := by
      refine List.take_of_length_le ?_
      rw [List.length_append, List.length_drop, List.length_replicate]
      omega
    have hfront : (t.take desc ++ t.drop last).length = t.length - (last - desc) := by
      rw [List.length_append, List.length_take, List.length_drop]
      omega
    have hall : (t.drop last).take (t.length - last) = t.drop last :=
      List.take_of_length_le (by rw [List.length_drop])
    have hlen : (t.take desc ++ t.drop last ++ t.drop (desc + (t.length - last))).length = t.length := by
      rw [List.length_append, hfront, List.length_drop]
      omega
    rw [if_pos hlt, if_neg (by omega), Nat.max_eq_right (by omega), memmove, hall, memset, hlen,
      List.take_left' hfront, hfull, List.append_assoc]
    congr 3
    omega
  · have hfull : (t.drop desc).take (t.length - desc) = t.drop desc :=
      List.take_of_length_le (by rw [List.length_drop])
    rw [if_neg (Nat.lt_irrefl _), if_pos rfl, movedTail, Nat.sub_self, List.replicate_zero,
      List.append_nil, hfull, List.take_append_drop]
  · -- more new entries than old ones
    have hzero : last - desc = 0 := by omega
    have hend : t.drop (desc + (t.length - desc)) = [] := List.drop_eq_nil_of_le (by omega)
    rw [if_neg (by omega), if_neg (by omega), Nat.max_eq_left (by omega), memmove, movedTail, hzero,
      List.replicate_zero, List.append_nil, hend, List.append_nil]

/-- The table behind its live part. -/
theorem eq_live_append (t : List Desc) : t = live t ++ t.dropWhile (fun d => liveName d.name) :=
  (List.takeWhile_append_dropWhile ..).symm

/-- The lower and the higher flash address of the first and the last old entry. -/
def lowBase (mid : List Desc) : UInt32 :=
  if (mid.getLastD blank).flashBase < (mid.headD blank).flashBase then (mid.getLastD blank).flashBase
  else (mid.headD blank).flashBase

def highBase (mid : List Desc) : UInt32 :=
  if (mid.getLastD blank).flashBase < (mid.headD blank).flashBase then (mid.headD blank).flashBase
  else (mid.getLastD blank).flashBase

/-- The room the code finds for the new entries. -/
def room (t mid : List Desc) (old : List Part) : UInt32 :=
  findEnd (highBase mid) (live t) (findOld old 0 (live t) ⟨0, none, none⟩).offset - lowBase mid

theorem Span.getD_first (hs : Span old (live t) pre mid post) :
    t.getD pre.length blank = mid.headD blank := by
  obtain ⟨d, l, rfl, -⟩ := hs.head
  rw [eq_live_append t, hs.eq, List.append_assoc, List.getD_append_right _ _ _ _ (Nat.le_refl _),
    Nat.sub_self]
  rfl

theorem Span.getD_last (hs : Span old (live t) pre mid post) :
    t.getD (pre.length + mid.length - 1) blank = mid.getLastD blank := by
  obtain ⟨d, l, rfl, -⟩ := hs.last
  have hidx : pre.length + (l ++ [d]).length - 1 = (pre ++ l).length := by
    rw [List.length_append, List.length_append, List.length_singleton]
    omega
  have heq : t = (pre ++ l) ++ (d :: (post ++ t.dropWhile (fun d => liveName d.name))) := by
    conv_lhs => rw [eq_live_append t, hs.eq]
    simp only [List.append_assoc, List.cons_append, List.nil_append]
  rw [hidx, heq, List.getD_append_right _ _ _ _ (Nat.le_refl _), Nat.sub_self]
  simp

/-- What `fis_remap` makes of the table. -/
theorem Span.fisRemap_eq (hs : Span old (live t) pre mid post) :
    fisRemap t old new =
      if t.length < pre.length + new.length then none
      else some (pre ++ (newDescs new (lowBase mid) (room t mid old) ++
        movedTail t (pre.length + new.length) (pre.length + mid.length))) := by
  obtain ⟨hfirst, hlast⟩ := hs.findOld_eq 0
  have hmid : 0 < mid.length := by
    obtain ⟨d, l, rfl, -⟩ := hs.head
    exact Nat.succ_pos _
  have hsucc : pre.length + mid.length - 1 + 1 = pre.length + mid.length := by omega
  have hlen : pre.length + mid.length ≤ t.length := by
    conv_rhs => rw [eq_live_append t, hs.eq]
    simp only [List.length_append]
    omega
  have hpre : t.take pre.length = pre := by
    conv_lhs => rw [eq_live_append t, hs.eq, List.append_assoc]
    exact List.take_left
  unfold fisRemap
  simp only [hfirst, hlast, hs.getD_first, hs.getD_last, hsucc]
  by_cases hroom : t.length < pre.length + new.length
  · rw [if_pos hroom, if_pos hroom]
  · rw [if_neg hroom, if_neg hroom, moved_eq hlen (by omega)]
    congr 1
    have htake : t.take (pre.length + new.length) = pre ++ (t.drop pre.length).take new.length := by
      rw [List.take_add, hpre]
    have hn : ((t.drop pre.length).take new.length).length = new.length := by
      rw [List.length_take, List.length_drop]
      omega
    rw [htake, List.append_assoc]
    have hplace := @place_eq new pre ((t.drop pre.length).take new.length ++
      movedTail t (pre.length + new.length) (pre.length + mid.length)) (lowBase mid) (room t mid old)
      (by rw [List.length_append]; omega)
    rw [List.drop_left' hn] at hplace
    rw [← hplace]
    unfold room lowBase highBase
    split
    · rw [hs.getD_last, hs.getD_first]
    · rw [hs.getD_last, hs.getD_first]

theorem length_takeWhile_append_le {α : Type} (p : α → Bool) (a b : List α) :
    ((a ++ b).takeWhile p).length ≤ a.length + (b.takeWhile p).length := by
  induction a with
  | nil => exact Nat.le_add_left ..
  | cons x a ih =>
    rw [List.cons_append, List.takeWhile_cons]
    split
    · rw [List.length_cons, List.length_cons]
      omega
    · exact Nat.zero_le _

theorem live_of_live {ds es : List Desc} (h : ∀ d ∈ ds, liveName d.name = true) :
    live (ds ++ es) = ds ++ live es := List.takeWhile_append_of_pos h

theorem liveName_of_mem {ds : List Desc} {d : Desc} (h : d ∈ live ds) : liveName d.name = true :=
  @List.mem_takeWhile_imp _ (fun d : Desc => liveName d.name) _ _ h

/-- Behind the end of the directory, and in cleared slots, there is nothing live. -/
theorem live_rest (n k : Nat) :
    live ((t.dropWhile (fun d => liveName d.name) ++ List.replicate n blank).take k) = [] := by
  have hblank : liveName blank.name = false := by decide
  cases k with
  | zero => rfl
  | succ k =>
    cases hrest : t.dropWhile (fun d => liveName d.name) with
    | nil =>
      rw [List.nil_append]
      cases n with
      | zero => rfl
      | succ n =>
        rw [List.replicate_succ, List.take_succ_cons]
        exact List.takeWhile_cons_of_neg (by rw [hblank]; decide)
    | cons d l =>
      have hd : liveName d.name = false := by
        have hhead := List.head?_dropWhile_not (fun d => liveName d.name) t
        rw [hrest] at hhead
        exact Bool.eq_false_iff.mpr (by simpa using hhead)
      rw [List.cons_append, List.take_succ_cons]
      exact List.takeWhile_cons_of_neg (by rw [hd]; decide)

/-- The live entries behind the old ones, as far as there is room. -/
theorem Span.live_movedTail (hs : Span old (live t) pre mid post) (desc : Nat) :
    live (movedTail t desc (pre.length + mid.length)) = post.take (t.length - desc) := by
  have hdrop : t.drop (pre.length + mid.length) =
      post ++ t.dropWhile (fun d => liveName d.name) := by
    conv_lhs => rw [eq_live_append t, hs.eq, List.append_assoc, List.append_assoc, ← List.append_assoc]
    exact List.drop_left' List.length_append
  have hpost : ∀ d ∈ post.take (t.length - desc), liveName d.name = true := by
    intro d hd
    have hmem : d ∈ live t := by
      rw [hs.eq]
      exact List.mem_append_right _ (List.mem_append_right _ (List.mem_of_mem_take hd))
    exact liveName_of_mem hmem
  rw [movedTail, hdrop, List.append_assoc, List.take_append, live_of_live hpost, live_rest,
    List.append_nil]

end Table

end Lede.Mtd.Fis
