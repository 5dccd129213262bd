/-
Lede.MtdSplit.BcmWfiWalk — the walk over the nodes of a block, and the search over blocks.

From a node the walk goes on to the one behind it (`nextNode`) and stops behind the block or at the
file. So a block is searched to an end, without a read outside of its buffer, exactly when the
lengths lead out of it or to the file and each node on the way has room for what is read of it
(`BlockFits`). What is found is the file that the nodes on the way have (`FileIn`).
-/
import Mathlib.Data.Finset.Card
import Lede.Lib.Orbit
import Lede.MtdSplit.BcmWfi

namespace Lede.MtdSplit

open Lede.Lib Lede.Lib.Orbit

variable (m : Machine) (mtd : MtdInfo) (flash : Flash) (q : FileQuery)

/-! ## Nodes -/

section Nodes

variable (buf : Nat → UInt8)

/-- The entry at `p` says that the image is one of OpenWrt. -/
def markedAt (p : Nat) : Bool :=
  jffs2DirentValid m.endian buf p && memEq buf (p + 40) OPENWRT_NAME

/-- The entry at `p` is of the file. -/
def foundAt (p : Nat) : Bool :=
  jffs2DirentValid m.endian buf p && !memEq buf (p + 40) OPENWRT_NAME && memEq buf (p + 40) q.name

/-- The node that the walk goes on to. -/
def nextNode (p : Nat) : Option Nat :=
  if p < mtd.erasesize ∧ foundAt m q buf p = false then some (nodeBehind m.endian buf p) else none

/-- The node at `p` has room in the block: for its magic, its type, its inode, its checksums, and
the names that its own is compared with. -/
structure NodeFits (p : Nat) : Prop where
  magic : p + 2 ≤ mtd.erasesize
  type : ld16 m.endian buf p = JFFS2_MAGIC_BITMASK → p + 4 ≤ mtd.erasesize
  inode : direntMagic m.endian buf p = true → p + 24 ≤ mtd.erasesize
  crc : direntMagic m.endian buf p = true → ld32 m.endian buf (p + 20) ≠ 0 →
    p + 36 ≤ mtd.erasesize
  mark : jffs2DirentValid m.endian buf p = true → p + 49 ≤ mtd.erasesize
  name : jffs2DirentValid m.endian buf p = true → memEq buf (p + 40) OPENWRT_NAME = false →
    p + 40 + q.name.length ≤ mtd.erasesize

/-- The name of the file at `p` has room for the copy. -/
def NameFits (p : Nat) : Prop :=
  p + 40 + min ((direntName buf p).length + 1) (buf (p + 28)).toNat ≤ mtd.erasesize

/-- Some node of the block that the walk from `x` comes to. -/
def OnWay (x : Nat) (P : Nat → Prop) : Prop :=
  ∃ p, ComesTo (nextNode m mtd q buf) x p ∧ p < mtd.erasesize ∧ P p

/-- The nodes on the way have room. -/
structure WayFits (valid : Prop) (x : Nat) : Prop where
  node : ∀ p, ComesTo (nextNode m mtd q buf) x p → p < mtd.erasesize → NodeFits m mtd q buf p
  name : q.out = true → (valid ∨ OnWay m mtd q buf x fun p => markedAt m buf p = true) →
    ∀ p, ComesTo (nextNode m mtd q buf) x p → p < mtd.erasesize → foundAt m q buf p = true →
      NameFits mtd buf p

end Nodes

section Walk

variable {m mtd q} {buf : Nat → UInt8} {x x' : Nat} {valid : Prop} {P : Nat → Prop}

theorem nextNode_of_not_found (hx : x < mtd.erasesize) (hf : foundAt m q buf x = false) :
    nextNode m mtd q buf x = some (nodeBehind m.endian buf x) := by
  rw [nextNode, if_pos ⟨hx, hf⟩]

theorem nextNode_of_found (hf : foundAt m q buf x = true) : nextNode m mtd q buf x = none := by
  rw [nextNode, if_neg (by simp [hf])]

theorem nextNode_of_ge (hx : ¬ x < mtd.erasesize) : nextNode m mtd q buf x = none := by
  rw [nextNode, if_neg (by simp [hx])]

theorem comesTo_of_none (h : nextNode m mtd q buf x = none) {p : Nat} :
    ComesTo (nextNode m mtd q buf) x p ↔ p = x := by
  rw [comesTo_iff, h]
  simp

theorem comesTo_of_some (h : nextNode m mtd q buf x = some x') {p : Nat} :
    ComesTo (nextNode m mtd q buf) x p ↔ p = x ∨ ComesTo (nextNode m mtd q buf) x' p := by
  rw [comesTo_iff, h]
  simp

theorem onWay_of_ge (hx : ¬ x < mtd.erasesize) : ¬ OnWay m mtd q buf x P := by
  rintro ⟨p, hp, hlt, -⟩
  rw [comesTo_of_none (nextNode_of_ge hx)] at hp
  exact hx (hp ▸ hlt)

theorem onWay_of_found (hx : x < mtd.erasesize) (hf : foundAt m q buf x = true) :
    OnWay m mtd q buf x P ↔ P x := by
  constructor
  · rintro ⟨p, hp, -, hP⟩
    rw [comesTo_of_none (nextNode_of_found hf)] at hp
    exact hp ▸ hP
  · exact fun hP => ⟨x, (comesTo_of_none (nextNode_of_found hf)).2 rfl, hx, hP⟩

theorem onWay_of_some (hx : x < mtd.erasesize) (h : nextNode m mtd q buf x = some x') :
    OnWay m mtd q buf x P ↔ P x ∨ OnWay m mtd q buf x' P := by
  constructor
  · rintro ⟨p, hp, hlt, hP⟩
    rcases (comesTo_of_some h).1 hp with rfl | hp
    · exact .inl hP
    · exact .inr ⟨p, hp, hlt, hP⟩
  · rintro (hP | ⟨p, hp, hlt, hP⟩)
    · exact ⟨x, (comesTo_of_some h).2 (.inl rfl), hx, hP⟩
    · exact ⟨p, (comesTo_of_some h).2 (.inr hp), hlt, hP⟩

theorem not_marked_of_found (hf : foundAt m q buf x = true) : markedAt m buf x = false := by
  unfold foundAt at hf
  unfold markedAt
  simp only [Bool.and_eq_true, Bool.not_eq_true'] at hf
  rw [hf.1.2, Bool.and_false]

/-- The nodes from one on have room when it has and those behind it have. -/
theorem wayFits_of_some (hx : x < mtd.erasesize) (hf : foundAt m q buf x = false)
    (h : nextNode m mtd q buf x = some x') :
    WayFits m mtd q buf valid x ↔
      NodeFits m mtd q buf x ∧ WayFits m mtd q buf (valid ∨ markedAt m buf x = true) x' := by
  have hmark : (valid ∨ OnWay m mtd q buf x fun p => markedAt m buf p = true) ↔
      (valid ∨ markedAt m buf x = true) ∨
        OnWay m mtd q buf x' fun p => markedAt m buf p = true := by
    rw [onWay_of_some hx h, or_assoc]
  constructor
  · intro hw
    refine ⟨hw.node x ((comesTo_of_some h).2 (.inl rfl)) hx, ?_, ?_⟩
    · exact fun p hp => hw.node p ((comesTo_of_some h).2 (.inr hp))
    · intro hout hval p hp
      exact hw.name hout (hmark.2 hval) p ((comesTo_of_some h).2 (.inr hp))
  · rintro ⟨hnode, hw⟩
    constructor
    · intro p hp hlt
      rcases (comesTo_of_some h).1 hp with rfl | hp
      · exact hnode
      · exact hw.node p hp hlt
    · intro hout hval p hp hlt hfound
      rcases (comesTo_of_some h).1 hp with rfl | hp
      · rw [hf] at hfound
        cases hfound
      · exact hw.name hout (hmark.1 hval) p hp hlt hfound

theorem wayFits_of_found (hx : x < mtd.erasesize) (hf : foundAt m q buf x = true) :
    WayFits m mtd q buf valid x ↔
      NodeFits m mtd q buf x ∧ (q.out = true → valid → NameFits mtd buf x) := by
  have hstop {p : Nat} : ComesTo (nextNode m mtd q buf) x p ↔ p = x :=
    comesTo_of_none (nextNode_of_found hf)
  have hmark : ¬ OnWay m mtd q buf x fun p => markedAt m buf p = true := by
    rw [onWay_of_found hx hf, not_marked_of_found hf]
    simp
  constructor
  · intro hw
    refine ⟨hw.node x (hstop.2 rfl) hx, fun hout hval => ?_⟩
    exact hw.name hout (.inl hval) x (hstop.2 rfl) hx hf
  · rintro ⟨hnode, hname⟩
    constructor
    · intro p hp _
      rwa [hstop.1 hp]
    · intro hout hval p hp _ _
      rw [hstop.1 hp]
      exact hname hout (hval.resolve_right hmark)

theorem wayFits_of_ge (hx : ¬ x < mtd.erasesize) : WayFits m mtd q buf valid x := by
  have hstop {p : Nat} : ComesTo (nextNode m mtd q buf) x p ↔ p = x :=
    comesTo_of_none (nextNode_of_ge hx)
  constructor
  · intro p hp hlt
    exact absurd (hstop.1 hp ▸ hlt) hx
  · intro _ _ p hp hlt
    exact absurd (hstop.1 hp ▸ hlt) hx

end Walk

/-! ## The walk of a block -/

section Block

variable {m mtd q} {buf : Nat → UInt8} {x x' : Nat}

theorem direntMagic_of_valid {en : Endian} (hv : jffs2DirentValid en buf x = true) :
    direntMagic en buf x = true := by
  simp only [jffs2DirentValid, Bool.and_eq_true] at hv
  exact hv.1.1

theorem within_validReads :
    Within mtd.erasesize (validReads m.endian buf x) ↔ x + 2 ≤ mtd.erasesize ∧
      (ld16 m.endian buf x = JFFS2_MAGIC_BITMASK → x + 4 ≤ mtd.erasesize) ∧
      (direntMagic m.endian buf x = true → x + 24 ≤ mtd.erasesize) ∧
      (direntMagic m.endian buf x = true → ld32 m.endian buf (x + 20) ≠ 0 →
        x + 36 ≤ mtd.erasesize) := by
  unfold validReads direntMagic
  by_cases hmagic : ld16 m.endian buf x = JFFS2_MAGIC_BITMASK
  · by_cases htype : ld16 m.endian buf (x + 2) = JFFS2_NODETYPE_DIRENT
    · rw [if_neg (not_not.2 hmagic), if_neg (not_not.2 htype)]
      by_cases hino : ld32 m.endian buf (x + 20) = 0
      · rw [if_pos hino]
        simp [hmagic, htype, hino]
      · rw [if_neg hino]
        simp only [within_cons, within_nil, hmagic, htype, ne_eq, hino, decide_true,
          Bool.and_self, not_false_eq_true, forall_const, and_true]
        omega
    · simp [hmagic, htype]
  · simp [hmagic]

theorem nodeFits_iff :
    NodeFits m mtd q buf x ↔ Within mtd.erasesize (validReads m.endian buf x) ∧
      (jffs2DirentValid m.endian buf x = true → x + 49 ≤ mtd.erasesize) ∧
      (jffs2DirentValid m.endian buf x = true → memEq buf (x + 40) OPENWRT_NAME = false →
        x + 40 + q.name.length ≤ mtd.erasesize) := by
  rw [within_validReads]
  constructor
  · rintro ⟨h2, h4, h24, h36, hmark, hname⟩
    exact ⟨⟨h2, h4, h24, h36⟩, hmark, hname⟩
  · rintro ⟨⟨h2, h4, h24, h36⟩, hmark, hname⟩
    exact ⟨h2, h4, h24, h36, hmark, hname⟩

/-- What the end of a walk says of the nodes from `x` on. -/
def WalkEnd (m : Machine) (mtd : MtdInfo) (q : FileQuery) (buf : Nat → UInt8) (valid : Prop)
    (x : Nat) : BlockWalk → Prop
  | .done v => (¬ OnWay m mtd q buf x fun p => foundAt m q buf p = true) ∧
      (v = true ↔ valid ∨ OnWay m mtd q buf x fun p => markedAt m buf p = true)
  | .invalid => (OnWay m mtd q buf x fun p => foundAt m q buf p = true) ∧
      ¬ (valid ∨ OnWay m mtd q buf x fun p => markedAt m buf p = true)
  | .found name nsize => (valid ∨ OnWay m mtd q buf x fun p => markedAt m buf p = true) ∧
      OnWay m mtd q buf x fun p => foundAt m q buf p = true ∧
        direntName buf p = name ∧ (buf (p + 28)).toNat = nsize

/-- What a walk of a block from `x` on comes to. -/
structure WalkSpec (m : Machine) (mtd : MtdInfo) (q : FileQuery) (buf : Nat → UInt8)
    (valid : Prop) (x : Nat) (res : BlockWalk × List Access) : Prop where
  ends : Ends (nextNode m mtd q buf) x
  within : Within mtd.erasesize res.2 ↔ WayFits m mtd q buf valid x
  walked : WalkEnd m mtd q buf valid x res.1

/-- A node that is not the file is put before a walk. -/
theorem WalkSpec.step {valid : Prop} {w : BlockWalk} {reads pre : List Access}
    (hx : x < mtd.erasesize) (hf : foundAt m q buf x = false)
    (h : WalkSpec m mtd q buf (valid ∨ markedAt m buf x = true) (nodeBehind m.endian buf x)
      (w, reads))
    (hpre : Within mtd.erasesize pre ↔ NodeFits m mtd q buf x) :
    WalkSpec m mtd q buf valid x (w, pre ++ reads) := by
  have hnext := nextNode_of_not_found hx hf
  have hmark : (valid ∨ OnWay m mtd q buf x fun p => markedAt m buf p = true) ↔
      (valid ∨ markedAt m buf x = true) ∨
        OnWay m mtd q buf (nodeBehind m.endian buf x) fun p => markedAt m buf p = true := by
    rw [onWay_of_some hx hnext, or_assoc]
  have hfound : (OnWay m mtd q buf x fun p => foundAt m q buf p = true) ↔
      OnWay m mtd q buf (nodeBehind m.endian buf x) fun p => foundAt m q buf p = true := by
    rw [onWay_of_some hx hnext, hf]
    simp
  constructor
  · exact (ends_of_some hnext).2 h.ends
  · rw [within_append, hpre, h.within, wayFits_of_some hx hf hnext]
  · have hwalked := h.walked
    cases w with
    | done v => simpa only [WalkEnd, hmark, hfound] using hwalked
    | invalid => simpa only [WalkEnd, hmark, hfound] using hwalked
    | found name nsize =>
      obtain ⟨hval, hat⟩ := hwalked
      exact ⟨hmark.2 hval, (onWay_of_some hx hnext).2 (.inr hat)⟩

/-- A walk stops at the file. -/
theorem WalkSpec.file {valid : Prop} {w : BlockWalk} {reads : List Access}
    (hx : x < mtd.erasesize) (hf : foundAt m q buf x = true)
    (hw : (valid ∧ w = .found (direntName buf x) (buf (x + 28)).toNat) ∨ (¬ valid ∧ w = .invalid))
    (hreads : Within mtd.erasesize reads ↔
      NodeFits m mtd q buf x ∧ (q.out = true → valid → NameFits mtd buf x)) :
    WalkSpec m mtd q buf valid x (w, reads) := by
  have hmark : ¬ OnWay m mtd q buf x fun p => markedAt m buf p = true := by
    rw [onWay_of_found hx hf, not_marked_of_found hf]
    simp
  constructor
  · exact ends_of_none (nextNode_of_found hf)
  · rw [hreads, wayFits_of_found hx hf]
  · rcases hw with ⟨hval, rfl⟩ | ⟨hval, rfl⟩
    · exact ⟨.inl hval, (onWay_of_found hx hf).2 ⟨hf, rfl, rfl⟩⟩
    · exact ⟨(onWay_of_found hx hf).2 hf, by simp [hval, hmark]⟩

theorem WalkSpec.behind {valid : Bool} (hx : ¬ x < mtd.erasesize) :
    WalkSpec m mtd q buf (valid = true) x (.done valid, []) where
  ends := ends_of_none (nextNode_of_ge hx)
  within := by simp [wayFits_of_ge hx]
  walked := by simp [WalkEnd, onWay_of_ge hx]

/-! ## One round -/

theorem walkNodes_behind {n : Nat} {valid : Bool} (hx : ¬ x < mtd.erasesize) :
    walkNodes m mtd q buf (n + 1) valid x = some (.done valid, []) := by
  rw [walkNodes, if_neg hx]

/-- A round at a node that is not the file. -/
theorem walkNodes_step (n : Nat) (valid : Bool) (hx : x < mtd.erasesize)
    (hf : foundAt m q buf x = false) :
    ∃ pre, (Within mtd.erasesize pre ↔ NodeFits m mtd q buf x) ∧
      walkNodes m mtd q buf (n + 1) valid x =
        (walkNodes m mtd q buf n (valid || markedAt m buf x) (nodeBehind m.endian buf x)).map
          fun res => (res.1, pre ++ res.2) := by
  by_cases hv : jffs2DirentValid m.endian buf x = true
  · have hmagic := direntMagic_of_valid hv
    by_cases hm : memEq buf (x + 40) OPENWRT_NAME = true
    · refine ⟨validReads m.endian buf x ++ [⟨x + 40, OPENWRT_NAME.length⟩] ++ [⟨x + 4, 4⟩], ?_, ?_⟩
      · have hlen : OPENWRT_NAME.length = 9 := rfl
        simp only [within_append, within_cons, within_nil, nodeFits_iff, within_validReads, hv, hm,
          hmagic, hlen, forall_const, and_true, reduceCtorEq, false_implies]
        omega
      · have hmarked : markedAt m buf x = true := by simp [markedAt, hv, hm]
        rw [walkNodes, if_pos hx]
        simp [hv, hm, hmarked]
    · have hm' : memEq buf (x + 40) OPENWRT_NAME = false := by simpa using hm
      have hq : memEq buf (x + 40) q.name = false := by simpa [foundAt, hv, hm'] using hf
      refine ⟨validReads m.endian buf x ++ [⟨x + 40, OPENWRT_NAME.length⟩] ++
        [⟨x + 40, q.name.length⟩] ++ [⟨x + 4, 4⟩], ?_, ?_⟩
      · have hlen : OPENWRT_NAME.length = 9 := rfl
        simp only [within_append, within_cons, within_nil, nodeFits_iff, within_validReads, hv, hm',
          hmagic, hlen, forall_const, and_true]
        omega
      · have hmarked : markedAt m buf x = false := by simp [markedAt, hm']
        rw [walkNodes, if_pos hx]
        simp [hv, hm', hq, hmarked]
  · have hv' : jffs2DirentValid m.endian buf x = false := by simpa using hv
    refine ⟨validReads m.endian buf x, ?_, ?_⟩
    · simp [nodeFits_iff, hv']
    · have hmarked : markedAt m buf x = false := by simp [markedAt, hv']
      rw [walkNodes, if_pos hx]
      simp [hv', hmarked]

/-- The round at the file. -/
theorem walkNodes_file (n : Nat) (valid : Bool) (hx : x < mtd.erasesize)
    (hf : foundAt m q buf x = true) :
    ∃ res, walkNodes m mtd q buf (n + 1) valid x = some res ∧
      WalkSpec m mtd q buf (valid = true) x res := by
  have hf' := hf
  simp only [foundAt, Bool.and_eq_true, Bool.not_eq_true'] at hf'
  obtain ⟨⟨hv, hm⟩, hq⟩ := hf'
  have hmagic := direntMagic_of_valid hv
  have hlen : OPENWRT_NAME.length = 9 := rfl
  have hpre : Within mtd.erasesize (validReads m.endian buf x ++
      [⟨x + 40, OPENWRT_NAME.length⟩] ++ [⟨x + 40, q.name.length⟩]) ↔ NodeFits m mtd q buf x := by
    simp only [within_append, within_cons, within_nil, nodeFits_iff, hv, hm, hlen, forall_const,
      and_true, and_assoc]
  rw [walkNodes, if_pos hx]
  cases valid with
  | false =>
    refine ⟨(.invalid, validReads m.endian buf x ++ [⟨x + 40, OPENWRT_NAME.length⟩] ++
      [⟨x + 40, q.name.length⟩]), by simp [hv, hm, hq], ?_⟩
    exact .file hx hf (.inr ⟨by simp, rfl⟩) (by rw [hpre]; simp)
  | true =>
    refine ⟨(.found (direntName buf x) (buf (x + 28)).toNat, validReads m.endian buf x ++
      [⟨x + 40, OPENWRT_NAME.length⟩] ++ [⟨x + 40, q.name.length⟩] ++
      if q.out then nameReads buf x else []), by simp [hv, hm, hq], ?_⟩
    refine .file hx hf (.inl ⟨rfl, rfl⟩) ?_
    rw [within_append, hpre]
    refine and_congr_right fun hnode => ?_
    have hmark := hnode.mark hv
    cases q.out with
    | false => simp
    | true =>
      simp only [if_true, nameReads, within_cons, within_nil, NameFits, forall_const, and_true]
      omega

/-! ## A whole walk -/

/-- A walk that gives a result gives the one of the nodes on the way. -/
theorem walkNodes_spec {n : Nat} {valid : Bool} {res : BlockWalk × List Access}
    (h : walkNodes m mtd q buf n valid x = some res) :
    WalkSpec m mtd q buf (valid = true) x res := by
  induction n generalizing valid x res with
  | zero => cases h
  | succ n ih =>
    by_cases hx : x < mtd.erasesize
    · by_cases hf : foundAt m q buf x = true
      · obtain ⟨res', hres', hspec⟩ := walkNodes_file n valid hx hf
        obtain rfl := Option.some.inj (hres'.symm.trans h)
        exact hspec
      · have hf' : foundAt m q buf x = false := by simpa using hf
        obtain ⟨pre, hpre, hstep⟩ := walkNodes_step n valid hx hf'
        rw [hstep] at h
        obtain ⟨⟨w, reads⟩, hrest, rfl⟩ := Option.map_eq_some_iff.1 h
        have hspec := ih hrest
        rw [Bool.or_eq_true] at hspec
        exact hspec.step hx hf' hpre
    · rw [walkNodes_behind hx] at h
      obtain rfl := Option.some.inj h
      exact .behind hx

/-- Enough rounds are as many as there are places on the way. -/
theorem walkNodes_isSome {n : Nat} (valid : Bool)
    (h : walkAt (nextNode m mtd q buf) x n = none) :
    ∃ res, walkNodes m mtd q buf n valid x = some res := by
  induction n generalizing valid x with
  | zero => cases h
  | succ n ih =>
    by_cases hx : x < mtd.erasesize
    · by_cases hf : foundAt m q buf x = true
      · obtain ⟨res, hres, -⟩ := walkNodes_file n valid hx hf
        exact ⟨res, hres⟩
      · have hf' : foundAt m q buf x = false := by simpa using hf
        rw [walkAt_succ_left, nextNode_of_not_found hx hf'] at h
        obtain ⟨res, hres⟩ := ih (valid || markedAt m buf x) h
        obtain ⟨pre, -, hstep⟩ := walkNodes_step n valid hx hf'
        exact ⟨(res.1, pre ++ res.2), by rw [hstep, hres]; rfl⟩
    · exact ⟨_, walkNodes_behind hx⟩

end Block

section Words

variable {m mtd q} {buf : Nat → UInt8} {p : Nat}

theorem nodeBehind_aligned {en : Endian} (hp : 4 ∣ p) : 4 ∣ nodeBehind en buf p := by
  unfold nodeBehind
  split
  · exact Nat.dvd_mul_left _ _
  · exact (Nat.dvd_mod_iff ⟨2 ^ 30, by decide⟩).2 (Nat.dvd_add hp ⟨1, rfl⟩)

theorem comesTo_aligned {x : Nat} (hx : 4 ∣ x) (h : ComesTo (nextNode m mtd q buf) x p) :
    4 ∣ p := by
  obtain ⟨k, hk⟩ := h
  induction k generalizing x with
  | zero =>
    obtain rfl := Option.some.inj hk
    exact hx
  | succ k ih =>
    rw [walkAt_succ_left] at hk
    obtain ⟨x', hx', hk⟩ := Option.bind_eq_some_iff.1 hk
    unfold nextNode at hx'
    split_ifs at hx' with hcond
    obtain rfl := Option.some.inj hx'
    exact ih (nodeBehind_aligned hx) hk

/-- A walk that ends comes to each word of the block once at most. -/
theorem ends_iff_words :
    Ends (nextNode m mtd q buf) 0 ↔
      walkAt (nextNode m mtd q buf) 0 ((mtd.erasesize + 3) / 4 + 1) = none := by
  have hcard : ((Finset.range ((mtd.erasesize + 3) / 4)).image (4 * ·)).card =
      (mtd.erasesize + 3) / 4 := by
    rw [Finset.card_image_of_injective _ fun a b h => by omega, Finset.card_range]
  rw [ends_iff ((Finset.range ((mtd.erasesize + 3) / 4)).image (4 * ·)), hcard]
  intro k y hk hnext
  obtain ⟨i, rfl⟩ := comesTo_aligned (Nat.dvd_zero 4) ⟨k, hk⟩
  have hlt : 4 * i < mtd.erasesize := by
    by_contra hge
    exact hnext (nextNode_of_ge hge)
  exact Finset.mem_image.2 ⟨i, Finset.mem_range.2 (by omega), rfl⟩

end Words

/-! ## The search over blocks -/

section Search

variable (buf : Nat → UInt8) (valid : Prop) (blocks : List Nat)

/-- The file is on the way through the block, and the image's mark. -/
def HasFile : Prop := OnWay m mtd q buf 0 fun p => foundAt m q buf p = true
def HasMark : Prop := OnWay m mtd q buf 0 fun p => markedAt m buf p = true

/-- The lengths of a block lead out of it or to the file, over each of its words once at most, and
the nodes on the way have room. -/
def BlockFits : Prop :=
  walkAt (nextNode m mtd q buf) 0 ((mtd.erasesize + 3) / 4 + 1) = none ∧
    WayFits m mtd q buf valid 0

/-- The blocks that the search comes to fit. -/
def SearchFits : Prop → List Nat → Prop
  | _, [] => True
  | valid, offs :: rest =>
    match readBlock m mtd flash offs with
    | .skip => SearchFits valid rest
    | .failed _ => True
    | .block buf => BlockFits m mtd q buf valid ∧
        (¬ HasFile m mtd q buf → SearchFits (valid ∨ HasMark m mtd q buf) rest)

/-- The blocks have the file behind a mark, at `offs` and with that name; no block before it has
the file or fails to be read. -/
def FileIn (offs : Nat) (name : List UInt8) (nsize : Nat) : Prop → List Nat → Prop
  | _, [] => False
  | valid, offs' :: rest =>
    match readBlock m mtd flash offs' with
    | .skip => FileIn offs name nsize valid rest
    | .failed _ => False
    | .block buf =>
      (offs' = offs ∧ (valid ∨ HasMark m mtd q buf) ∧ OnWay m mtd q buf 0 fun p =>
        foundAt m q buf p = true ∧ direntName buf p = name ∧ (buf (p + 28)).toNat = nsize) ∨
      (¬ HasFile m mtd q buf ∧ FileIn offs name nsize (valid ∨ HasMark m mtd q buf) rest)

end Search

section

variable {m mtd flash q} {buf : Nat → UInt8} {valid : Prop} {blocks : List Nat} {w : BlockWalk}

/-- The walk through a block stops at one file at most. -/
theorem onWay_found_unique {name name' : List UInt8} {nsize nsize' : Nat}
    (h : OnWay m mtd q buf 0 fun p =>
      foundAt m q buf p = true ∧ direntName buf p = name ∧ (buf (p + 28)).toNat = nsize)
    (h' : OnWay m mtd q buf 0 fun p =>
      foundAt m q buf p = true ∧ direntName buf p = name' ∧ (buf (p + 28)).toNat = nsize') :
    name = name' ∧ nsize = nsize' := by
  obtain ⟨p, hp, -, hf, rfl, rfl⟩ := h
  obtain ⟨p', hp', -, hf', rfl, rfl⟩ := h'
  obtain rfl := hp.stop_unique hp' (nextNode_of_found hf) (nextNode_of_found hf')
  exact ⟨rfl, rfl⟩

theorem hasFile_of_onWay {P : Nat → Prop}
    (h : OnWay m mtd q buf 0 fun p => foundAt m q buf p = true ∧ P p) : HasFile m mtd q buf := by
  obtain ⟨p, hp, hlt, hf, -⟩ := h
  exact ⟨p, hp, hlt, hf⟩

section Blocks

variable {b : Nat} {rest : List Nat} {offs : Nat} {name : List UInt8} {nsize : Nat}

theorem fileIn_skip (hb : readBlock m mtd flash b = .skip) :
    FileIn m mtd flash q offs name nsize valid (b :: rest) ↔
      FileIn m mtd flash q offs name nsize valid rest := by
  rw [FileIn, hb]

theorem fileIn_failed {ret : Int} (hb : readBlock m mtd flash b = .failed ret) :
    ¬ FileIn m mtd flash q offs name nsize valid (b :: rest) := by
  rw [FileIn, hb]
  exact not_false

theorem fileIn_block (hb : readBlock m mtd flash b = .block buf) :
    FileIn m mtd flash q offs name nsize valid (b :: rest) ↔
      (b = offs ∧ (valid ∨ HasMark m mtd q buf) ∧ OnWay m mtd q buf 0 fun p =>
        foundAt m q buf p = true ∧ direntName buf p = name ∧ (buf (p + 28)).toNat = nsize) ∨
      (¬ HasFile m mtd q buf ∧
        FileIn m mtd flash q offs name nsize (valid ∨ HasMark m mtd q buf) rest) := by
  rw [FileIn, hb]

/-- A block without the file is passed over. -/
theorem fileIn_passed (hb : readBlock m mtd flash b = .block buf) (hno : ¬ HasFile m mtd q buf) :
    FileIn m mtd flash q offs name nsize valid (b :: rest) ↔
      FileIn m mtd flash q offs name nsize (valid ∨ HasMark m mtd q buf) rest := by
  rw [fileIn_block hb]
  constructor
  · rintro (⟨-, -, hat⟩ | ⟨-, hrest⟩)
    · exact absurd (hasFile_of_onWay hat) hno
    · exact hrest
  · exact fun hrest => .inr ⟨hno, hrest⟩

theorem searchFits_block (hb : readBlock m mtd flash b = .block buf) :
    SearchFits m mtd flash q valid (b :: rest) ↔ BlockFits m mtd q buf valid ∧
      (¬ HasFile m mtd q buf →
        SearchFits m mtd flash q (valid ∨ HasMark m mtd q buf) rest) := by
  rw [SearchFits, hb]

theorem searchFits_last (hb : readBlock m mtd flash b = .block buf) (hfile : HasFile m mtd q buf) :
    SearchFits m mtd flash q valid (b :: rest) ↔ BlockFits m mtd q buf valid := by
  rw [searchFits_block hb]
  exact and_iff_left fun hno => absurd hfile hno

/-- The search finds one file at most. -/
theorem FileIn.unique {offs' : Nat} {name' : List UInt8} {nsize' : Nat}
    (h : FileIn m mtd flash q offs name nsize valid blocks)
    (h' : FileIn m mtd flash q offs' name' nsize' valid blocks) :
    offs = offs' ∧ name = name' ∧ nsize = nsize' := by
  induction blocks generalizing valid with
  | nil => cases h
  | cons b rest ih =>
    cases hb : readBlock m mtd flash b with
    | skip => exact ih ((fileIn_skip hb).1 h) ((fileIn_skip hb).1 h')
    | failed ret => exact absurd h (fileIn_failed hb)
    | block buf =>
      rcases (fileIn_block hb).1 h with ⟨rfl, -, hat⟩ | ⟨hno, hrest⟩
      · rcases (fileIn_block hb).1 h' with ⟨rfl, -, hat'⟩ | ⟨hno, -⟩
        · exact ⟨rfl, onWay_found_unique hat hat'⟩
        · exact absurd (hasFile_of_onWay hat) hno
      · exact ih hrest ((fileIn_passed hb hno).1 h')

theorem FileIn.mem (h : FileIn m mtd flash q offs name nsize valid blocks) : offs ∈ blocks := by
  induction blocks generalizing valid with
  | nil => cases h
  | cons b rest ih =>
    cases hb : readBlock m mtd flash b with
    | skip => exact List.mem_cons_of_mem _ (ih ((fileIn_skip hb).1 h))
    | failed ret => exact absurd h (fileIn_failed hb)
    | block buf =>
      rcases (fileIn_block hb).1 h with ⟨rfl, -⟩ | ⟨-, hrest⟩
      · exact List.mem_cons_self
      · exact List.mem_cons_of_mem _ (ih hrest)

end Blocks

/-- What the end of the search says of the blocks. -/
def SearchEnd (m : Machine) (mtd : MtdInfo) (flash : Flash) (q : FileQuery) (valid : Prop)
    (blocks : List Nat) : FindFile → Prop
  | .found offs name nsize => FileIn m mtd flash q offs name nsize valid blocks
  | .failed ret => ret < 0 ∧ ∀ offs name nsize, ¬ FileIn m mtd flash q offs name nsize valid blocks

/-- What a search that gives a result comes to. -/
structure SearchSpec (m : Machine) (mtd : MtdInfo) (flash : Flash) (q : FileQuery)
    (valid : Prop) (blocks : List Nat) (res : FindFile × List Access) : Prop where
  within : Within mtd.erasesize res.2 ↔ SearchFits m mtd flash q valid blocks
  ended : SearchEnd m mtd flash q valid blocks res.1

section

variable {b : Nat} {rest : List Nat} {r : FindFile} {reads reads' : List Access} {v : Bool}

theorem readBlock_failed {ret : Int} (hreads : MtdReads mtd flash)
    (h : readBlock m mtd flash b = .failed ret) : ret < 0 := by
  unfold readBlock at h
  dsimp only at h
  split_ifs at h with h1 h2 h3 h4
  · obtain rfl := ReadBlock.failed.inj h
    exact lt_of_le_of_ne (hreads.ret_nonpos _ _) h3
  · obtain rfl := ReadBlock.failed.inj h
    decide

theorem SearchSpec.skip {res : FindFile × List Access} (hb : readBlock m mtd flash b = .skip)
    (h : SearchSpec m mtd flash q valid rest res) :
    SearchSpec m mtd flash q valid (b :: rest) res where
  within := by rw [h.within, SearchFits, hb]
  ended := by
    have hend := h.ended
    obtain ⟨r, reads⟩ := res
    cases r with
    | found offs name nsize => exact (fileIn_skip hb).2 hend
    | failed ret =>
      exact ⟨hend.1, fun offs name nsize hf => hend.2 offs name nsize ((fileIn_skip hb).1 hf)⟩

theorem WalkSpec.fits (h : WalkSpec m mtd q buf valid 0 (w, reads)) :
    Within mtd.erasesize reads ↔ BlockFits m mtd q buf valid := by
  rw [BlockFits, ← ends_iff_words, and_iff_right h.ends, h.within]

/-- The search goes on behind a block. -/
theorem SearchSpec.passed (hb : readBlock m mtd flash b = .block buf)
    (hwalk : WalkSpec m mtd q buf valid 0 (.done v, reads))
    (h : SearchSpec m mtd flash q (v = true) rest (r, reads')) :
    SearchSpec m mtd flash q valid (b :: rest) (r, reads ++ reads') := by
  obtain ⟨hno, hv⟩ := hwalk.walked
  have hv' : (v = true) = (valid ∨ HasMark m mtd q buf) := propext hv
  rw [hv'] at h
  constructor
  · dsimp only
    rw [within_append, hwalk.fits, h.within, searchFits_block hb]
    exact and_congr_right fun _ => ⟨fun h _ => h, fun h => h hno⟩
  · have hend := h.ended
    cases r with
    | found offs name nsize => exact (fileIn_passed hb hno).2 hend
    | failed ret =>
      refine ⟨hend.1, fun offs name nsize hf => ?_⟩
      exact hend.2 offs name nsize ((fileIn_passed hb hno).1 hf)

theorem SearchSpec.invalid (hb : readBlock m mtd flash b = .block buf)
    (hwalk : WalkSpec m mtd q buf valid 0 (.invalid, reads)) :
    SearchSpec m mtd flash q valid (b :: rest) (.failed (-EINVAL), reads) := by
  obtain ⟨hfile, hval⟩ := hwalk.walked
  constructor
  · rw [hwalk.fits, searchFits_last hb hfile]
  · refine ⟨by decide, fun offs name nsize hf => ?_⟩
    rcases (fileIn_block hb).1 hf with ⟨-, hval', -⟩ | ⟨hno, -⟩
    · exact hval hval'
    · exact hno hfile

theorem SearchSpec.found {name : List UInt8} {nsize : Nat}
    (hb : readBlock m mtd flash b = .block buf)
    (hwalk : WalkSpec m mtd q buf valid 0 (.found name nsize, reads)) :
    SearchSpec m mtd flash q valid (b :: rest) (.found b name nsize, reads) := by
  obtain ⟨hval, hat⟩ := hwalk.walked
  constructor
  · rw [hwalk.fits, searchFits_last hb (hasFile_of_onWay hat)]
  · exact (fileIn_block hb).2 (.inl ⟨rfl, hval, hat⟩)

end

/-- A search that gives a result gives the file that the blocks have, and reads inside its buffer
exactly when they fit. -/
theorem findFileIn_spec (hreads : MtdReads mtd flash) {rounds : Nat} {valid : Bool}
    {res : FindFile × List Access}
    (h : findFileIn m mtd flash q rounds blocks valid = some res) :
    SearchSpec m mtd flash q (valid = true) blocks res := by
  induction blocks generalizing valid res with
  | nil =>
    obtain rfl := Option.some.inj h
    exact ⟨by simp [SearchFits], by decide, fun _ _ _ hf => hf⟩
  | cons b rest ih =>
    rw [findFileIn] at h
    cases hb : readBlock m mtd flash b with
    | skip =>
      rw [hb] at h
      exact (ih h).skip hb
    | failed ret =>
      rw [hb] at h
      obtain rfl := Option.some.inj h
      exact ⟨by simp [SearchFits, hb], readBlock_failed hreads hb,
        fun _ _ _ => fileIn_failed hb⟩
    | block buf =>
      rw [hb] at h
      dsimp only at h
      cases hwalk : walkNodes m mtd q buf rounds valid 0 with
      | none =>
        rw [hwalk] at h
        cases h
      | some walked =>
        obtain ⟨w, reads⟩ := walked
        rw [hwalk] at h
        have hspec := walkNodes_spec hwalk
        cases w with
        | done v =>
          obtain ⟨⟨r, reads'⟩, hrest, rfl⟩ := Option.map_eq_some_iff.1 h
          exact .passed hb hspec (ih hrest)
        | invalid =>
          obtain rfl := Option.some.inj h
          exact .invalid hb hspec
        | found name nsize =>
          obtain rfl := Option.some.inj h
          exact .found hb hspec

/-- Over blocks that fit the search gives a result, given enough rounds. -/
theorem findFileIn_isSome {valid : Bool} (h : SearchFits m mtd flash q (valid = true) blocks) :
    ∃ least, ∀ rounds ≥ least, ∃ res,
      findFileIn m mtd flash q rounds blocks valid = some res := by
  induction blocks generalizing valid with
  | nil => exact ⟨0, fun _ _ => ⟨_, rfl⟩⟩
  | cons b rest ih =>
    cases hb : readBlock m mtd flash b with
    | skip =>
      rw [SearchFits, hb] at h
      obtain ⟨least, hleast⟩ := ih h
      exact ⟨least, fun rounds hr => by simpa only [findFileIn, hb] using hleast rounds hr⟩
    | failed ret => exact ⟨0, fun rounds _ => by simp [findFileIn, hb]⟩
    | block buf =>
      obtain ⟨⟨hk, -⟩, hrest⟩ := (searchFits_block hb).1 h
      obtain ⟨k, hk⟩ := ends_iff_words.2 hk
      have hwalk : ∀ rounds ≥ k, ∃ res, walkNodes m mtd q buf rounds valid 0 = some res :=
        fun rounds hr => walkNodes_isSome valid (walkAt_eq_none_of_le hk hr)
      by_cases hno : HasFile m mtd q buf
      · refine ⟨k, fun rounds hr => ?_⟩
        obtain ⟨⟨w, reads⟩, hw⟩ := hwalk rounds hr
        have hwalked := (walkNodes_spec hw).walked
        cases w with
        | done v => exact absurd hno hwalked.1
        | invalid => simp [findFileIn, hb, hw]
        | found name nsize => simp [findFileIn, hb, hw]
      · have hrest' : ∀ v : Bool, (v = true ↔ valid = true ∨ HasMark m mtd q buf) →
            SearchFits m mtd flash q (v = true) rest := by
          intro v hv
          rw [hv]
          exact hrest hno
        obtain ⟨v, hv⟩ : ∃ v : Bool, v = true ↔ valid = true ∨ HasMark m mtd q buf := by
          classical
          exact ⟨decide (valid = true ∨ HasMark m mtd q buf), by simp⟩
        obtain ⟨least, hleast⟩ := ih (hrest' v hv)
        refine ⟨max k least, fun rounds hr => ?_⟩
        obtain ⟨⟨w, reads⟩, hw⟩ := hwalk rounds (le_trans (le_max_left _ _) hr)
        obtain ⟨res, hres⟩ := hleast rounds (le_trans (le_max_right _ _) hr)
        have hwalked := (walkNodes_spec hw).walked
        cases w with
        | done v' =>
          obtain rfl : v' = v := Bool.eq_iff_iff.2 (hwalked.2.trans hv.symm)
          simp [findFileIn, hb, hw, hres]
        | invalid => exact absurd hwalked.1 hno
        | found name nsize => exact absurd (hasFile_of_onWay hwalked.2) hno

/-- `jffs2_find_file` ends and reads inside its buffer exactly when the blocks it comes to fit. -/
theorem jffs2FindFile_safe_iff (hreads : MtdReads mtd flash) (offs : Nat) (size : Int) :
    (∃ rounds r reads, jffs2FindFile m mtd flash q rounds offs size = some (r, reads) ∧
        Within mtd.erasesize reads) ↔
      SearchFits m mtd flash q False (blockOffsets mtd offs (offs + size)) := by
  have hfalse : ((false = true) : Prop) = False := by simp
  constructor
  · rintro ⟨rounds, r, reads, h, hw⟩
    have hspec := (findFileIn_spec hreads h).within.1 hw
    rwa [hfalse] at hspec
  · intro h
    rw [← hfalse] at h
    obtain ⟨least, hleast⟩ := findFileIn_isSome h
    obtain ⟨⟨r, reads⟩, hres⟩ := hleast least le_rfl
    exact ⟨least, r, reads, hres, (findFileIn_spec hreads hres).within.2 h⟩

end

end Lede.MtdSplit
