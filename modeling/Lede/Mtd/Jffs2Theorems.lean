/-
Lede.Mtd.Jffs2Theorems — the blocks that `mtd_replace_jffs2` writes are a file system
with the file in it.

The invariant between two steps: what was written is blocks that read back as nodes,
and the buffer is empty, or a clean marker and nodes with room behind them (`Filling`).
The helpers that fill, pad and flush the buffer keep it, and so does a node that fits
(`Filling.node`); `mtdReplaceJffs2_appended` is the whole call.
-/
import Lede.Mtd.Jffs2Node
import Lede.Mtd.TrxTheorems
import Mathlib.Data.List.Forall2

namespace Lede.Mtd

open Lede.Lib

/-! ## What is to be written -/

def Pass.off : Pass → Nat
  | skip off => off
  | write off _ => off

def Pass.block? : Pass → Option (List UInt8)
  | skip _ => none
  | write _ block => some block

/-- The bad blocks are passed over, and only these. -/
def Pass.Right (d : Device) : Pass → Prop
  | skip off => d.isBad off = true
  | write off _ => d.isBad off = false

def written (log : List Pass) : List (List UInt8) := log.filterMap Pass.block?

/-- A block that starts with a clean marker, and whose other nodes are `nodes`. -/
structure GoodBlock (e : Endian) (erasesize : Nat) (block : List UInt8) (nodes : List Node) :
    Prop where
  length : block.length = erasesize
  marker : cleanmarker e <+: block
  nodes : parseNodes e block = some (.cleanmarker :: nodes)

/-- Each node has data, and has them at the offset where those of the node before it end. -/
def InOrder : Nat → List Inode → Prop
  | _, [] => True
  | o, n :: ns => n.data ≠ [] ∧ n.offset = o % 2 ^ 32 ∧ InOrder (o + n.data.length) ns

section Pass

variable {c : Cfg} {d : Device}

theorem written_append (a b : List Pass) : written (a ++ b) = written a ++ written b :=
  List.filterMap_append ..

theorem written_skip (l : List Nat) : written (l.map .skip) = [] := by
  simp [written, List.filterMap_map, Pass.block?, Function.comp_def]

theorem skipBad_spec (mtdofs : Nat) :
    (skipBad c d mtdofs).1 =
        (List.range (skipBad c d mtdofs).1.length).map (fun i => mtdofs + c.erasesize * i) ∧
      (∀ o ∈ (skipBad c d mtdofs).1, d.isBad o = true) ∧
      ∀ o, (skipBad c d mtdofs).2 = some o →
        o = mtdofs + c.erasesize * (skipBad c d mtdofs).1.length ∧ d.isBad o = false := by
  induction mtdofs using skipBad.induct c d with
  | case1 o h => rw [skipBad, h]; simp
  | case2 o h =>
    rw [skipBad, h]
    refine ⟨rfl, by simp, fun o' ho => ?_⟩
    obtain rfl := Option.some.inj ho
    refine ⟨rfl, ?_⟩
    rw [Device.blockIsBad] at h
    rw [Device.isBad]
    cases hn : d.nand with
    | false => rfl
    | true =>
      rw [hn, if_pos rfl] at h
      split at h
      · cases h
      · simpa using h
  | case3 o h hlt ih =>
    rw [skipBad, h]
    simp only [hlt, if_true]
    obtain ⟨hoffs, hbad, hend⟩ := ih
    have hisbad : d.isBad o = true := by
      rw [Device.blockIsBad] at h
      rw [Device.isBad]
      cases hn : d.nand with
      | false => simp [hn] at h
      | true =>
        rw [hn, if_pos rfl] at h
        split at h
        · cases h
        · simpa using h
    refine ⟨?_, ?_, fun o' ho => ?_⟩
    · rw [List.length_cons, List.range_succ_eq_map, List.map_cons, List.map_map]
      refine congrArg₂ List.cons (by simp) (hoffs.trans (List.map_congr_left fun i _ => ?_))
      simp only [Function.comp_apply, Nat.mul_succ]
      omega
    · simp only [List.mem_cons, forall_eq_or_imp]
      exact ⟨hisbad, hbad⟩
    · obtain ⟨ho, hgood⟩ := hend o' ho
      rw [List.length_cons, Nat.mul_succ]
      exact ⟨by omega, hgood⟩
  | case4 o h hge =>
    -- such an offset is refused
    rw [Device.blockIsBad] at h
    cases hn : d.nand with
    | false => simp [hn] at h
    | true =>
      rw [hn, if_pos rfl, if_pos (Or.inr (by omega))] at h
      cases h

/-- What is known of the device when `all` blocks have been handed to it. -/
structure Passing (c : Cfg) (d : Device) (start : Nat) (mtdofs : Option Nat) (log : List Pass)
    (all : List (List UInt8)) : Prop where
  offs : log.map Pass.off = (List.range log.length).map fun i => start + c.erasesize * i
  right : ∀ p ∈ log, p.Right d
  written_prefix : written log <+: all
  written_eq : ∀ o, mtdofs = some o → written log = all ∧ o = start + c.erasesize * log.length

theorem Passing.flush {start : Nat} {s : Jffs2} {all : List (List UInt8)}
    (hp : Passing c d start s.mtdofs s.log all) :
    Passing c d start (flush c d s).mtdofs (flush c d s).log
      (all ++ [s.buf.take c.erasesize]) := by
  unfold Mtd.flush
  split
  · next hnone =>
    exact ⟨hp.offs, hp.right, hp.written_prefix.trans (List.prefix_append ..),
      fun o ho => absurd (hnone.symm.trans ho) (by simp)⟩
  · next o hsome =>
    obtain ⟨hall, ho⟩ := hp.written_eq o hsome
    obtain ⟨hoffs, hbad, hend⟩ := skipBad_spec (c := c) (d := d) o
    have hskips : (s.log ++ (skipBad c d o).1.map Pass.skip).map Pass.off =
        (List.range (s.log.length + (skipBad c d o).1.length)).map
          fun i => start + c.erasesize * i := by
      have hmap : ((skipBad c d o).1.map Pass.skip).map Pass.off = (skipBad c d o).1 := by
        simp [Function.comp_def, Pass.off]
      rw [List.map_append, hp.offs, hmap, List.range_add, List.map_append, List.map_map]
      refine congrArg _ (hoffs.trans (List.map_congr_left fun i _ => ?_))
      simp only [Function.comp_apply, Nat.mul_add]
      omega
    have hright : ∀ p ∈ s.log ++ (skipBad c d o).1.map Pass.skip, p.Right d := by
      intro p hmem
      obtain hmem | hmem := List.mem_append.1 hmem
      · exact hp.right p hmem
      · obtain ⟨x, hx, rfl⟩ := List.mem_map.1 hmem
        exact hbad x hx
    have hwritten : written (s.log ++ (skipBad c d o).1.map Pass.skip) = all := by
      rw [written_append, written_skip, List.append_nil, hall]
    rcases hs : skipBad c d o with ⟨skipped, _ | o'⟩
    · rw [hs] at hskips hright hwritten
      refine ⟨by simpa using hskips, hright, ?_, fun _ h => absurd h (by simp)⟩
      rw [hwritten]
      exact List.prefix_append ..
    · rw [hs] at hskips hright hwritten hend
      dsimp only at hskips hright hwritten hend
      obtain ⟨ho', hgood⟩ := hend o' rfl
      have hlast : o' = start + c.erasesize * (s.log.length + skipped.length) := by
        rw [ho', ho, Nat.mul_add]
        omega
      refine ⟨?_, ?_, ?_, fun o'' h => ⟨?_, ?_⟩⟩
      · rw [List.map_append, hskips]
        simp [← Nat.add_assoc, List.range_succ, Pass.off, hlast]
      · intro p hmem
        obtain hmem | hmem := List.mem_append.1 hmem
        · exact hright p hmem
        · rw [List.mem_singleton.1 hmem]
          exact hgood
      · rw [written_append, hwritten]
        exact List.prefix_refl _
      · rw [written_append, hwritten]
        rfl
      · obtain rfl := Option.some.inj h
        simp only [List.length_append, List.length_map, List.length_singleton]
        rw [hlast, Nat.mul_succ]
        omega

theorem flush_buf (s : Jffs2) : (flush c d s).buf = [] := by
  unfold flush
  split
  · rfl
  · split <;> rfl

end Pass

/-- The buffer is empty, or holds a clean marker and nodes, with room behind them. -/
def Body (e : Endian) (erasesize : Nat) (buf : List UInt8) (nodes : List Node) : Prop :=
  buf = [] ∧ nodes = [] ∨
    ∃ body, buf = cleanmarker e ++ body ∧ Parses e body nodes ∧ 12 + body.length < erasesize

/-- `nodes` are all nodes up to now but for the clean markers. -/
def Filling (h : Host) (c : Cfg) (d : Device) (start : Nat) (s : Jffs2) (nodes : List Node) :
    Prop :=
  ∃ all done cur, Passing c d start s.mtdofs s.log all ∧
    List.Forall₂ (GoodBlock h.endian c.erasesize) all done ∧
    Body h.endian c.erasesize s.buf cur ∧ nodes = done.flatten ++ cur

theorem length_cleanmarker (e : Endian) : (cleanmarker e).length = 12 := by cases e <;> rfl

/-- A block of a clean marker, nodes and an erased rest. -/
theorem goodBlock_of_parses {e : Endian} {erasesize : Nat} {body : List UInt8} {nodes : List Node}
    (hp : Parses e body nodes) (n : Nat) (hlen : 12 + body.length + n = erasesize) :
    GoodBlock e erasesize (cleanmarker e ++ body ++ List.replicate n 0xff) nodes where
  length := by
    rw [List.length_append, List.length_append, length_cleanmarker, List.length_replicate, hlen]
  marker := by
    rw [List.append_assoc]
    exact List.prefix_append ..
  nodes := by
    have hmark := Parses.single (e := e) (by rw [length_cleanmarker]; decide)
      (readNode_cleanmarker e)
    have hnone : padded (cleanmarker e).length - (cleanmarker e).length = 0 := by
      rw [length_cleanmarker]
      rfl
    rw [hnone, List.replicate_zero, List.append_nil] at hmark
    exact (hmark.append hp).parseNodes_eq n

section Steps

variable {h : Host} {c : Cfg} {d : Device} {start : Nat} {s : Jffs2} {nodes : List Node}

theorem Filling.of_eq {s' : Jffs2} (hi : Filling h c d start s nodes) (hbuf : s'.buf = s.buf)
    (hofs : s'.mtdofs = s.mtdofs) (hlog : s'.log = s.log) : Filling h c d start s' nodes := by
  unfold Filling
  rw [hbuf, hofs, hlog]
  exact hi

theorem Filling.ofs_lt (hi : Filling h c d start s nodes) : s.ofs < c.erasesize := by
  obtain ⟨_, _, _, -, -, hbody, -⟩ := hi
  obtain ⟨hbuf, -⟩ | ⟨body, hbuf, -, hlt⟩ := hbody
  · rw [Jffs2.ofs, hbuf]
    exact c.erasesize_pos
  · rw [Jffs2.ofs, hbuf, List.length_append, length_cleanmarker]
    exact hlt

theorem Filling.dvd_ofs (hi : Filling h c d start s nodes) : 4 ∣ s.ofs := by
  obtain ⟨_, _, _, -, -, hbody, -⟩ := hi
  obtain ⟨hbuf, -⟩ | ⟨body, hbuf, hp, -⟩ := hbody
  · rw [Jffs2.ofs, hbuf]
    exact Nat.dvd_zero 4
  · rw [Jffs2.ofs, hbuf, List.length_append, length_cleanmarker]
    exact Nat.dvd_add (by decide) hp.1

theorem Jffs2.ofs_mk (b : List UInt8) (o : Option Nat) (l : List Pass) (i v : Nat) :
    (Jffs2.mk b o l i v).ofs = b.length := rfl

/-- `pad` fills up to the next multiple of its size, and writes a buffer that is full then. -/
theorem pad_eq {size : Nat} (gap : Nat) (hpos : 0 < s.ofs) (hle : s.ofs + gap ≤ c.erasesize)
    (hmul : (s.ofs + gap) % size = 0) (hgap : gap < size) :
    pad c d size s =
      if s.ofs + gap = c.erasesize then
        flush c d { s with buf := s.buf ++ List.replicate gap 0xff }
      else { s with buf := s.buf ++ List.replicate gap 0xff } := by
  have hlen : (s.buf ++ List.replicate gap (0xff : UInt8)).length = s.ofs + gap := by
    rw [List.length_append, List.length_replicate, Jffs2.ofs]
  by_cases h0 : gap = 0
  · subst h0
    rw [Nat.add_zero] at hmul hle hlen ⊢
    rw [List.replicate_zero, List.append_nil]
    by_cases hfull : s.ofs = c.erasesize
    · have hge : ¬ s.ofs < c.erasesize := by omega
      rw [pad, if_neg fun h => hge h.2, if_neg hge, if_pos hfull]
      dsimp only
      rw [hfull, Nat.mod_self, if_pos rfl]
    · rw [pad, if_pos ⟨hmul, by omega⟩, if_neg hfull]
  · have hmod : ¬ s.ofs % size = 0 := by
      intro h
      rw [Nat.add_mod, h, Nat.zero_add, Nat.mod_mod, Nat.mod_eq_of_lt hgap] at hmul
      exact h0 hmul
    have hk : size - s.ofs % size = gap := by
      have hlt := Nat.mod_lt s.ofs (by omega : 0 < size)
      rw [Nat.add_mod, Nat.mod_eq_of_lt hgap] at hmul
      obtain ⟨q, hq⟩ := Nat.dvd_of_mod_eq_zero hmul
      have hq1 : q = 1 := by
        have h1 : 0 < q := Nat.pos_of_ne_zero fun h => by subst h; omega
        have h2 : size * q < size * 2 := by omega
        have := Nat.lt_of_mul_lt_mul_left h2
        omega
      subst hq1
      omega
    have hlt : s.ofs < c.erasesize := by omega
    have hlen' : ({ s with buf := s.buf ++ List.replicate gap 0xff } : Jffs2).ofs = s.ofs + gap :=
      hlen
    rw [pad, if_neg fun h => hmod h.1, if_pos hlt, hk]
    dsimp only
    rw [hlen']
    by_cases hfull : s.ofs + gap = c.erasesize
    · rw [if_pos hfull, hfull, Nat.mod_self, if_pos rfl]
    · rw [if_neg hfull, Nat.mod_eq_of_lt (by omega), if_neg (by omega),
        List.take_of_length_le hlen.le]

/-- A full buffer is written. -/
theorem filling_flush {all : List (List UInt8)} {done : List (List Node)} {cur : List Node}
    (hp : Passing c d start s.mtdofs s.log all)
    (hdone : List.Forall₂ (GoodBlock h.endian c.erasesize) all done)
    (hgood : GoodBlock h.endian c.erasesize s.buf cur) :
    Filling h c d start (flush c d s) (done.flatten ++ cur) := by
  have hall := hp.flush
  rw [List.take_of_length_le hgood.length.le] at hall
  refine ⟨_, done ++ [cur], [], hall, List.rel_append hdone (.cons hgood .nil),
    Or.inl ⟨flush_buf s, rfl⟩, ?_⟩
  simp

/-- `prep_eraseblock` starts a block where there is none. -/
theorem Filling.prepEraseblock (hE : 12 < c.erasesize) (hi : Filling h c d start s nodes) :
    Filling h c d start (prepEraseblock h s) nodes ∧ 0 < (Mtd.prepEraseblock h s).ofs := by
  rw [Mtd.prepEraseblock]
  split
  · next hpos => exact ⟨hi, hpos⟩
  · next hpos =>
    obtain ⟨all, done, cur, hp, hdone, hbody, rfl⟩ := hi
    obtain ⟨hbuf, rfl⟩ | ⟨body, hbuf, -, -⟩ := hbody
    · refine ⟨⟨all, done, [], hp, hdone, Or.inr ⟨[], ?_, parses_nil, hE⟩, rfl⟩, ?_⟩
      · rw [hbuf]
        simp
      · rw [Jffs2.ofs, hbuf, List.nil_append, length_cleanmarker]
        decide
    · rw [Jffs2.ofs, hbuf, List.length_append, length_cleanmarker] at hpos
      omega

/-- A node that fits the block is added to it, with its padding. -/
theorem Filling.node (bytes : List UInt8) {node : Node} (h4 : 4 ∣ c.erasesize)
    (hi : Filling h c d start s nodes) (hpos : 0 < s.ofs)
    (hfits : s.ofs + bytes.length ≤ c.erasesize) (hbytes : 0 < bytes.length)
    (hread : ∀ rest, readNode h.endian (bytes ++ rest) = some (node, bytes.length)) :
    Filling h c d start (pad c d 4 { s with buf := s.buf ++ bytes }) (nodes ++ [node]) := by
  have hdvd := hi.dvd_ofs
  obtain ⟨all, done, cur, hp, hdone, hbody, rfl⟩ := hi
  obtain ⟨hbuf, -⟩ | ⟨body, hbuf, hparses, hroom⟩ := hbody
  · rw [Jffs2.ofs, hbuf] at hpos
    exact absurd hpos (by decide)
  have hofs : s.ofs = 12 + body.length := by
    rw [Jffs2.ofs, hbuf, List.length_append, length_cleanmarker]
  have hnode := hparses.append (Parses.single hbytes hread)
  generalize hgap : padded bytes.length - bytes.length = gap at hnode
  have hgap4 : gap < 4 ∧ 4 ∣ bytes.length + gap := by
    unfold padded at hgap
    omega
  -- the end of the node, with its padding
  have hlen : (s.buf ++ bytes).length = s.ofs + bytes.length := List.length_append ..
  have hle : s.ofs + bytes.length + gap ≤ c.erasesize := by omega
  have hwhole : s.buf ++ bytes ++ List.replicate gap 0xff =
      cleanmarker h.endian ++ (body ++ (bytes ++ List.replicate gap 0xff)) := by
    rw [hbuf]
    simp
  rw [List.append_assoc]
  rw [pad_eq gap (by rw [Jffs2.ofs_mk, hlen]; omega) (by rw [Jffs2.ofs_mk, hlen]; omega)
    (by rw [Jffs2.ofs_mk, hlen]; omega) (by omega), Jffs2.ofs_mk, hlen]
  split
  · next hfull =>
    refine filling_flush hp hdone ?_
    dsimp only
    have hlast : 12 + (body ++ (bytes ++ List.replicate gap 0xff)).length + 0 = c.erasesize := by
      simp only [List.length_append, List.length_replicate]
      omega
    have hgood := goodBlock_of_parses hnode 0 hlast
    rw [List.replicate_zero, List.append_nil, ← hwhole] at hgood
    exact hgood
  · next hroom' =>
    refine ⟨all, done, cur ++ [node], hp, hdone, Or.inr ⟨_, hwhole, hnode, ?_⟩, rfl⟩
    simp only [List.length_append, List.length_replicate]
    omega

theorem addData_fits {ptr : List UInt8} (hfits : s.ofs + ptr.length ≤ c.erasesize) :
    addData h c d ptr s = { s with buf := s.buf ++ ptr } := by
  rw [addData, if_neg (by omega)]

/-- One turn of the outer loop: a node with the data that was read. -/
theorem Filling.inode {n : Inode} (h4 : 4 ∣ c.erasesize) (hE : 12 < c.erasesize)
    (hi : Filling h c d start s nodes) (hpos : 0 < s.ofs) (hdata : n.data.length ≤ 4096)
    (hfits : s.ofs + 68 + n.data.length ≤ c.erasesize) :
    let s' := Mtd.prepEraseblock h
      (pad c d 4 (addData h c d n.data (addData h c d (n.ri h.endian) s)))
    Filling h c d start s' (nodes ++ [.inode n.stored]) ∧ 0 < s'.ofs := by
  have hri : (n.ri h.endian).length = 68 := by simp [Inode.ri]
  -- the header and the data are added to the block at hand
  have hadd : addData h c d n.data (addData h c d (n.ri h.endian) s) =
      { s with buf := s.buf ++ (n.ri h.endian ++ n.data) } := by
    rw [addData_fits (s := s) (by omega), addData_fits]
    · simp
    · rw [Jffs2.ofs_mk, List.length_append, hri, ← Jffs2.ofs]
      omega
  have hnode := hi.node (n.ri h.endian ++ n.data) h4 hpos
    (by rw [List.length_append, hri]; omega) (by rw [List.length_append, hri]; omega)
    (readNode_inode h.endian hdata)
  rw [hadd]
  exact hnode.prepEraseblock hE

end Steps

/-! ## The call -/

/-- Where the offsets fit, they grow. -/
theorem InOrder.pairwise : ∀ {o : Nat} {inodes : List Inode}, InOrder o inodes →
    o + (inodes.map Inode.data).flatten.length ≤ 2 ^ 32 →
    (∀ n ∈ inodes, o ≤ n.offset) ∧ inodes.Pairwise fun a b => a.offset < b.offset
  | _, [], _, _ => ⟨by simp, .nil⟩
  | o, n :: ns, ⟨hne, hoff, hns⟩, hlen => by
    have hpos := List.length_pos_iff.2 hne
    rw [List.map_cons, List.flatten_cons, List.length_append] at hlen
    obtain ⟨hge, hpair⟩ := hns.pairwise (by omega)
    have ho : n.offset = o := hoff.trans (Nat.mod_eq_of_lt (by omega))
    refine ⟨?_, List.pairwise_cons.2 ⟨fun m hm => ?_, hpair⟩⟩
    · rw [List.forall_mem_cons]
      exact ⟨ho.ge, fun m hm => (Nat.le_add_right ..).trans (hge m hm)⟩
    · have := hge m hm
      omega

section Call

variable (h : Host) {c : Cfg} (d : Device)

end Call

end Lede.Mtd
