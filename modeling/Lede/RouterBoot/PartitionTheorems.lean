/-
Lede.RouterBoot.PartitionTheorems — what `routerboot_partitions_parse` returns when it
succeeds.

A partition is compared with the end of the one before it, and with the end of the device, by
sums: of the fields, which have 64 bits, and in `size_t`. If no sum in `size_t` wraps, the
partitions follow each other inside the device; one that wraps below the size of the device, and
does not lie in it, is returned all the same (`parse_sound_iff`).
-/
import Lede.RouterBoot.Partition

namespace Lede.RouterBoot

/-- A byte of the partition. -/
def Partition.Has (p : Partition) (x : Nat) : Prop := p.offset ≤ x ∧ x < p.offset + p.size

/-- Ascending, pairwise disjoint, and inside a device of `size` bytes. -/
structure SoundParts (size : Nat) (parts : List Partition) : Prop where
  ascending : parts.Pairwise (fun p q => p.offset ≤ q.offset)
  disjoint : parts.Pairwise (fun p q => ∀ x, ¬ (p.Has x ∧ q.Has x))
  inside : ∀ p ∈ parts, p.offset + p.size ≤ size

namespace Master

variable (m : Master)

/-- Where the nodes are placed: offset and size. -/
def entries (dyn : List Dynpart) : Nat → List DtNode → List (Nat × Nat)
  | _, [] => []
  | masterOfs, pp :: pps =>
    match m.place dyn masterOfs pp with
    | none => []
    | some e => e :: entries dyn (m.align (m.add e.1 e.2)) pps

/-- The end of a node does not wrap in `size_t`, or lies in the device anyway. -/
def EndFits (e : Nat × Nat) : Prop := e.1 + e.2 < 2 ^ m.w ∨ e.1 + e.2 ≤ m.size

end Master

section Parse

variable {m : Master} {dyn : List Dynpart} {prev : Option Partition} {masterOfs offset size : Nat}
  {pp : DtNode} {nodes : List DtNode} {parts : List Partition}

/-- What an iteration checks, and what the rest of the loop gets. -/
theorem parseLoop_cons (h : m.parseLoop dyn prev masterOfs (pp :: nodes) = some parts) :
    ∃ offset size rest, m.place dyn masterOfs pp = some (offset, size) ∧
      (∀ p ∈ prev, (p.offset + p.size) % 2 ^ 64 ≤ offset) ∧ m.add offset size ≤ m.size ∧
      m.parseLoop dyn (some ⟨pp.partname, offset, size, pp.readOnly, pp.lock⟩)
        (m.align (m.add offset size)) nodes = some rest ∧
      parts = (prev.map (·.fixEnd offset)).toList ++ rest := by
  rw [Master.parseLoop] at h
  split at h
  · cases h
  · next offset size hplace =>
    split at h
    · cases h
    · next hover =>
      split at h
      · cases h
      · next hend =>
        obtain ⟨rest, hrest, rfl⟩ := Option.map_eq_some_iff.mp h
        refine ⟨offset, size, rest, hplace, fun p hp => ?_, Nat.le_of_not_lt hend, hrest, rfl⟩
        obtain rfl := Option.mem_def.mp hp
        simpa using hover

/-- A partition is placed as its node says, and may get a size from the next one. -/
def PlacedAt (p : Partition) (e : Nat × Nat) : Prop := p.offset = e.1 ∧ (p.size = e.2 ∨ e.2 = 0)

theorem placed_fixEnd (p : Partition) (offset : Nat) : PlacedAt (p.fixEnd offset) (p.offset, p.size) := by
  unfold Partition.fixEnd
  split
  · next h => exact ⟨rfl, Or.inr h⟩
  · exact ⟨rfl, Or.inl rfl⟩

theorem parseLoop_placed (h : m.parseLoop dyn prev masterOfs nodes = some parts) :
    List.Forall₂ PlacedAt parts
      ((prev.map (fun p => (p.offset, p.size))).toList ++ m.entries dyn masterOfs nodes) := by
  induction nodes generalizing prev masterOfs parts with
  | nil =>
    rw [Master.parseLoop] at h
    cases h
    cases prev with
    | none => exact List.Forall₂.nil
    | some p => exact List.Forall₂.cons ⟨rfl, Or.inl rfl⟩ List.Forall₂.nil
  | cons pp nodes ih =>
    obtain ⟨offset, size, rest, hplace, -, -, hrest, rfl⟩ := parseLoop_cons h
    have hih := ih hrest
    rw [Master.entries, hplace]
    cases prev with
    | none => exact hih
    | some p => exact List.Forall₂.cons (placed_fixEnd p offset) hih

/-- Of two lists related entry by entry, a member of the second comes from one of the first. -/
theorem exists_of_forall₂ {α β : Type*} {R : α → β → Prop} {l : List α} {l' : List β}
    (h : List.Forall₂ R l l') {b : β} (hb : b ∈ l') : ∃ a ∈ l, R a b := by
  induction h with
  | nil => cases hb
  | cons hab _ ih =>
    rcases List.mem_cons.mp hb with rfl | hb
    · exact ⟨_, List.mem_cons_self, hab⟩
    · obtain ⟨a, ha, hrel⟩ := ih hb
      exact ⟨a, List.mem_cons_of_mem _ ha, hrel⟩

/-- The end of the previous partition is the next offset at most. -/
theorem fixEnd_end_le {p : Partition} (h : p.offset + p.size ≤ offset) :
    (p.fixEnd offset).offset + (p.fixEnd offset).size ≤ offset := by
  unfold Partition.fixEnd
  split
  · dsimp only
    omega
  · exact h

theorem fixEnd_offset (p : Partition) (offset : Nat) : (p.fixEnd offset).offset = p.offset := by
  unfold Partition.fixEnd
  split <;> rfl

/-- If no end wraps, each partition ends where the next begins at the latest, and inside the
device. -/
theorem parseLoop_sound (h : m.parseLoop dyn prev masterOfs nodes = some parts)
    (hprev : ∀ p ∈ prev, p.offset + p.size ≤ m.size)
    (hfits : ∀ e ∈ m.entries dyn masterOfs nodes, m.EndFits e) :
    parts.Pairwise (fun p q => p.offset + p.size ≤ q.offset) ∧
      (∀ q ∈ parts, q.offset + q.size ≤ m.size) ∧ ∀ p ∈ prev, ∀ q ∈ parts, p.offset ≤ q.offset := by
  induction nodes generalizing prev masterOfs parts with
  | nil =>
    rw [Master.parseLoop] at h
    cases h
    cases prev with
    | none => simp
    | some p => simpa using hprev p rfl
  | cons pp nodes ih =>
    obtain ⟨offset, size, rest, hplace, hover, hend, hrest, rfl⟩ := parseLoop_cons h
    rw [Master.entries, hplace, List.forall_mem_cons] at hfits
    obtain ⟨hfit, hfits⟩ := hfits
    have hin : offset + size ≤ m.size := by
      rcases hfit with hlt | hle
      · rwa [Master.add, Nat.mod_eq_of_lt hlt] at hend
      · exact hle
    obtain ⟨hpair, hinside, hafter⟩ := ih hrest (by simpa using hin) hfits
    have hge : ∀ q ∈ rest, offset ≤ q.offset := hafter _ rfl
    cases prev with
    | none => exact ⟨hpair, hinside, by simp⟩
    | some p =>
      have hlt := m.lt
      have hp := hprev p rfl
      have hle : p.offset + p.size ≤ offset := by
        have := hover p rfl
        rwa [Nat.mod_eq_of_lt (by omega)] at this
      have hfix := fixEnd_end_le hle
      have hofs := fixEnd_offset p offset
      refine ⟨List.pairwise_cons.mpr ⟨fun q hq => Nat.le_trans hfix (hge q hq), hpair⟩, ?_, ?_⟩
      · intro q hq
        rcases List.mem_cons.mp hq with rfl | hq
        · exact Nat.le_trans hfix (by omega)
        · exact hinside q hq
      · intro p' hp' q hq
        obtain rfl := Option.mem_some_iff.mp hp'
        rcases List.mem_cons.mp hq with rfl | hq
        · exact Nat.le_of_eq hofs.symm
        · have := hge q hq
          omega

end Parse

/-- For every device, every table the scan can leave and every device tree: the partitions of a parse
that succeeds are in ascending order, pairwise disjoint and inside the device exactly if no node's
end wraps in `size_t`, those aside that lie in the device anyway. -/
theorem parse_sound_iff (m : Master) (dyn : List Dynpart) (nodes : List DtNode) (parts : List Partition)
    (h : m.routerbootPartitionsParse dyn nodes = some parts) :
    SoundParts m.size parts ↔ ∀ e ∈ m.entries dyn 0 nodes, m.EndFits e := by
  constructor
  · intro hs e he
    obtain ⟨p, hp, hofs, hsize⟩ := exists_of_forall₂ (parseLoop_placed h) he
    have hin := hs.inside p hp
    refine Or.inr ?_
    rcases hsize with hsize | hsize <;> omega
  · intro hfits
    obtain ⟨hpair, hinside, -⟩ := parseLoop_sound h (by simp) hfits
    refine ⟨hpair.imp fun h => by omega, hpair.imp fun hle x hx => ?_, hinside⟩
    obtain ⟨⟨hp, hpx⟩, hq, hqx⟩ := hx
    omega

/-! ## Samples -/

/-- A flash of 16 MiB on a 32-bit machine. -/
def sampleMaster : Master := ⟨32, word32_ge, by decide, 0x1000000, by decide⟩

/-- A node for a well-known partition, and one that gives address and length in a cell each. -/
def dynNode (name : String) : DtNode := ⟨none, none, name, none, none, 1, 1, false, false⟩
def fixedNode (name : String) (offset size : BitVec 32) : DtNode :=
  ⟨none, none, name, some [offset, size], none, 1, 1, true, false⟩

theorem parse_sound_sample :
    SoundParts sampleMaster.size [⟨"boot", 0, 0x10000, true, false⟩, ⟨"firmware", 0x10000, 0xff0000, true, false⟩] ↔
      ∀ e ∈ sampleMaster.entries rbDynparts 0 [fixedNode "boot" 0 0, fixedNode "firmware" 0x10000 0xff0000],
        sampleMaster.EndFits e :=
  parse_sound_iff sampleMaster rbDynparts _ _ rfl

/-- A header in flash with a `totalsize` so large that the end of the partition wraps: the partition is
returned, and lies outside the device. -/
theorem parse_wrapped :
    sampleMaster.routerbootPartitionsParse
        [⟨"dtb_config", 0xedfe0dd0, some routerbootDtbsfixup, 0x20000, 0xffff0000, true⟩]
        [dynNode "dtb_config"] = some [⟨"dtb_config", 0x20000, 0xffff0000, false, false⟩] ∧
      ¬ SoundParts sampleMaster.size [⟨"dtb_config", 0x20000, 0xffff0000, false, false⟩] := by
  refine ⟨rfl, fun h => ?_⟩
  exact absurd (h.inside _ List.mem_cons_self) (by decide)

end Lede.RouterBoot
