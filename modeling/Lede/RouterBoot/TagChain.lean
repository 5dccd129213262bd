/-
Lede.RouterBoot.TagChain — what `routerboot_tag_find` finds in a buffer that is a sequence
of tag nodes.

`Chain` is the layout: nodes with their payloads, padded to four bytes, up to a null node or
the end of the buffer. The walk follows it as long as the padded lengths fit the `u16` they
are computed in: one above 65532 becomes 0, and the payload is then read as nodes
(`wrapped_not_found`). A node with no byte of the buffer behind it is not a find.
-/
import Lede.RouterBoot.TagFind

namespace Lede.RouterBoot

open Lede.Lib

/-! ## The layout -/

/-- A node of the list: its id, and where its payload is. -/
structure TagNode where
  id : Nat
  ofs : Nat
  len : Nat
  deriving DecidableEq, Repr

/-- The length of a padded payload. -/
def padded (len : Nat) : Nat := (len + 3) / 4 * 4

/-- From offset `o` on the buffer holds the nodes `ts`, up to its end or to a null node. -/
inductive Chain (m : Nat → UInt8) (buflen : Nat) : Nat → List TagNode → Prop
  | stop : Chain m buflen buflen []
  | null {o : Nat} (hin : o + 4 ≤ buflen) (hnull : get32 m o = 0) : Chain m buflen o []
  | node {o : Nat} {ts : List TagNode} (hin : o + 4 + padded (get32 m o / 65536) ≤ buflen)
      (hnode : get32 m o ≠ 0)
      (hrest : Chain m buflen (o + 4 + padded (get32 m o / 65536)) ts) :
      Chain m buflen o (⟨get32 m o % 65536, o + 4, get32 m o / 65536⟩ :: ts)

/-- What is reported for a node. -/
def TagNode.report (buflen : Nat) (t : TagNode) : Option Payload :=
  if t.ofs < buflen then some ⟨t.ofs % 65536, t.len⟩ else none

/-! ## The walk -/

section Walk

variable {m : Nat → UInt8} {buflen tagId n o : Nat} {ts : List TagNode}

theorem alignLen_eq {len : Nat} (h : len ≤ 65532) : alignLen len = padded len := by
  unfold alignLen padded
  omega

/-- The walk finds the first node with the id, if no length in front of it wraps. -/
theorem tagFindLoop_chain (h : Chain m buflen o ts) (hfuel : buflen ≤ o + n)
    (hlen : ∀ t ∈ ts.takeWhile (·.id ≠ tagId), t.len ≤ 65532) :
    tagFindLoop m buflen tagId n o = (ts.find? (·.id = tagId)).bind (·.report buflen) := by
  induction h generalizing n with
  | stop =>
    cases n with
    | zero => rfl
    | succ n =>
      rw [tagFindLoop, if_neg (Nat.lt_irrefl _)]
      rfl
  | @null o hin hnull =>
    cases n with
    | zero => rfl
    | succ n =>
      rw [tagFindLoop, if_pos (by omega)]
      dsimp only
      rw [if_pos hnull]
      rfl
  | @node o ts hin hnode hrest ih =>
    cases n with
    | zero => omega
    | succ n =>
      rw [tagFindLoop, if_pos (by omega)]
      dsimp only
      rw [if_neg hnode]
      by_cases htag : tagId = get32 m o % 65536
      · rw [if_pos htag, List.find?_cons_of_pos (by simp [htag]), Option.bind_some, TagNode.report]
        by_cases hlast : buflen ≤ o + 4
        · rw [if_pos hlast, if_neg (by dsimp only; omega)]
        · rw [if_neg hlast, if_pos (by dsimp only; omega)]
      · have hne : get32 m o % 65536 ≠ tagId := fun heq => htag heq.symm
        rw [List.takeWhile_cons_of_pos (by simp [hne])] at hlen
        obtain ⟨hhead, htail⟩ := List.forall_mem_cons.mp hlen
        rw [if_neg htag, List.find?_cons_of_neg (by simp [hne]), alignLen_eq hhead]
        exact ih (by omega) htail

/-- Payloads follow each other: a node behind another has its offset further on. -/
theorem Chain.ofs_lt (h : Chain m buflen o ts) : ts.Pairwise (fun t t' => t.ofs < t'.ofs) ∧
    ∀ t ∈ ts, o < t.ofs := by
  induction h with
  | stop => simp
  | null => simp
  | node hin _ _ ih =>
    obtain ⟨hpair, hlt⟩ := ih
    refine ⟨List.pairwise_cons.mpr ⟨fun t ht => ?_, hpair⟩, fun t ht => ?_⟩
    · have := hlt t ht
      dsimp only
      omega
    · rcases List.mem_cons.mp ht with rfl | ht
      · dsimp only
        omega
      · have := hlt t ht
        omega

/-- A node with bytes behind it is in the list exactly if the first with its id is one. -/
theorem Chain.exists_iff (h : Chain m buflen o ts) :
    (∃ t ∈ ts, t.id = tagId ∧ t.ofs < buflen) ↔
      ∃ t, ts.find? (·.id = tagId) = some t ∧ t.ofs < buflen := by
  constructor
  · rintro ⟨t, ht, hid, hlt⟩
    have hsome : (ts.find? (·.id = tagId)).isSome = true :=
      List.find?_isSome.mpr ⟨t, ht, decide_eq_true hid⟩
    obtain ⟨t', ht'⟩ := Option.isSome_iff_exists.mp hsome
    refine ⟨t', ht', ?_⟩
    obtain ⟨-, before, after, rfl, hbefore⟩ := List.find?_eq_some_iff_append.mp ht'
    have hpair := (List.pairwise_append.mp h.ofs_lt.1).2.1
    rcases List.mem_append.mp ht with hmem | hmem
    · exact absurd (hbefore t hmem) (by simp [hid])
    · rcases List.mem_cons.mp hmem with rfl | hmem
      · exact hlt
      · exact Nat.lt_trans ((List.pairwise_cons.mp hpair).1 t hmem) hlt
  · rintro ⟨t, ht, hlt⟩
    exact ⟨t, List.mem_of_find?_eq_some ht, by simpa using List.find?_some ht, hlt⟩

end Walk

/-- For every buffer that is a sequence of nodes, up to a null node or its end, and every id but 0: if
no node in front of the first one with the id has a length above 65532, the id is found exactly if
there is a node with it and a byte of the buffer behind that node; what is reported is the length of
the first such node, and the offset of its payload if that fits a `u16`. -/
theorem tagFind_chain (m : Nat → UInt8) (buflen tagId : Nat) (ts : List TagNode)
    (h : Chain m buflen 0 ts) (hid : tagId ≠ 0)
    (hlen : ∀ t ∈ ts.takeWhile (·.id ≠ tagId), t.len ≤ 65532) :
    ((routerbootTagFind m buflen tagId).isSome ↔ ∃ t ∈ ts, t.id = tagId ∧ t.ofs < buflen) ∧
      ∀ p, routerbootTagFind m buflen tagId = some p →
        ∃ t, ts.find? (·.id = tagId) = some t ∧ p.len = t.len ∧ (t.ofs < 65536 → p.ofs = t.ofs) := by
  have hfind : routerbootTagFind m buflen tagId =
      (ts.find? (·.id = tagId)).bind (·.report buflen) := by
    rw [routerbootTagFind, if_neg hid]
    exact tagFindLoop_chain h (by omega) hlen
  rw [hfind, h.exists_iff]
  cases ts.find? (·.id = tagId) with
  | none => simp
  | some t =>
    rw [Option.bind_some, TagNode.report]
    by_cases hlt : t.ofs < buflen
    · rw [if_pos hlt]
      refine ⟨iff_of_true rfl ⟨t, rfl, hlt⟩, fun p hp => ⟨t, rfl, ?_⟩⟩
      obtain rfl := Option.some.inj hp
      exact ⟨rfl, fun hfits => Nat.mod_eq_of_lt hfits⟩
    · rw [if_neg hlt]
      refine ⟨iff_of_false (by simp) ?_, fun p hp => absurd hp (by simp)⟩
      rintro ⟨t', ht', hlt'⟩
      obtain rfl := Option.some.inj ht'
      exact hlt hlt'

/-! ## Samples -/

/-- A node with id 2 and a payload of five bytes, padded, and one with id 1 and four. -/
def sampleTags : Nat → UInt8 := fun i =>
  if i = 0 then 2 else if i = 2 then 5 else if i = 12 then 1 else if i = 14 then 4 else 0

theorem sampleTags_chain : Chain sampleTags 24 0 [⟨2, 4, 5⟩, ⟨1, 16, 4⟩] :=
  Chain.node (by decide) (by decide) (Chain.node (by decide) (by decide)
    (Chain.null (by decide) (by decide)))

theorem tagFind_sampleTags :
    ((routerbootTagFind sampleTags 24 1).isSome ↔
        ∃ t ∈ [(⟨2, 4, 5⟩ : TagNode), ⟨1, 16, 4⟩], t.id = 1 ∧ t.ofs < 24) ∧
      ∀ p, routerbootTagFind sampleTags 24 1 = some p →
        ∃ t, [(⟨2, 4, 5⟩ : TagNode), ⟨1, 16, 4⟩].find? (·.id = 1) = some t ∧ p.len = t.len ∧
          (t.ofs < 65536 → p.ofs = t.ofs) :=
  tagFind_chain sampleTags 24 1 _ sampleTags_chain (by decide) (by decide)

/-- A node with id `id` and a payload of `len` bytes, and one with id 1 and four bytes at `next`. -/
def twoTags (id len next : Nat) : Nat → UInt8 := fun i =>
  if i < 2 then leByte id i else if i < 4 then leByte len (i - 2)
  else if i = next then 1 else if i = next + 2 then 4 else 0

/-- A node that is passed, and the node at which the walk then looks. -/
theorem routerbootTagFind_two {m : Nat → UInt8} {n tagId : Nat} (hid : tagId ≠ 0)
    (hnode : get32 m 0 ≠ 0) (htag : tagId ≠ get32 m 0 % 65536) :
    routerbootTagFind m (n + 1) tagId =
      tagFindLoop m (n + 1) tagId n (4 + alignLen (get32 m 0 / 65536)) := by
  rw [routerbootTagFind, if_neg hid, tagFindLoop, if_pos (Nat.succ_pos n)]
  dsimp only
  rw [if_neg hnode, if_neg htag, Nat.zero_add]

/-- A length that wraps: the payload is null, and the walk ends there. -/
theorem wrapped_not_found : routerbootTagFind (twoTags 2 65533 65540) 65548 1 = none := by
  have hofs : 4 + alignLen (get32 (twoTags 2 65533 65540) 0 / 65536) = 4 := by decide
  have hnull : get32 (twoTags 2 65533 65540) 4 = 0 := by decide
  rw [routerbootTagFind_two (by decide) (by decide) (by decide), hofs, tagFindLoop,
    if_pos (by decide)]
  dsimp only
  rw [if_pos hnull]

/-- An offset that does not fit: the find is reported 65536 bytes too low. -/
theorem far_offset : routerbootTagFind (twoTags 2 65532 65536) 65544 1 = some ⟨4, 4⟩ := by
  have hofs : 4 + alignLen (get32 (twoTags 2 65532 65536) 0 / 65536) = 65536 := by decide
  have hnode : get32 (twoTags 2 65532 65536) 65536 = 4 * 65536 + 1 := by decide
  rw [routerbootTagFind_two (by decide) (by decide) (by decide), hofs, tagFindLoop,
    if_pos (by decide)]
  dsimp only
  rw [hnode]
  rfl

/-- Four buffers in which a node with the id occurs: the id is 0; the node is the last word; a length
in front of it wraps, so that the walk ends in the payload; its offset does not fit a `u16`. -/
theorem tagFind_misses :
    (Chain (twoTags 0 4 8) 16 0 [⟨0, 4, 4⟩, ⟨1, 12, 4⟩] ∧ routerbootTagFind (twoTags 0 4 8) 16 0 = none) ∧
    (Chain (twoTags 1 0 8) 4 0 [⟨1, 4, 0⟩] ∧ routerbootTagFind (twoTags 1 0 8) 4 1 = none) ∧
    (Chain (twoTags 2 65533 65540) 65548 0 [⟨2, 4, 65533⟩, ⟨1, 65544, 4⟩] ∧
      routerbootTagFind (twoTags 2 65533 65540) 65548 1 = none) ∧
    (Chain (twoTags 2 65532 65536) 65544 0 [⟨2, 4, 65532⟩, ⟨1, 65540, 4⟩] ∧
      routerbootTagFind (twoTags 2 65532 65536) 65544 1 = some ⟨4, 4⟩) := by
  refine ⟨⟨?_, rfl⟩, ⟨?_, rfl⟩, ⟨?_, wrapped_not_found⟩, ?_, far_offset⟩
  · exact Chain.node (by decide) (by decide) (Chain.node (by decide) (by decide) Chain.stop)
  · exact Chain.node (by decide) (by decide) Chain.stop
  · exact Chain.node (by decide) (by decide) (Chain.node (by decide) (by decide) Chain.stop)
  · exact Chain.node (by decide) (by decide) (Chain.node (by decide) (by decide) Chain.stop)

end Lede.RouterBoot
