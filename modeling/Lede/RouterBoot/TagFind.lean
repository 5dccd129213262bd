/-
Lede.RouterBoot.TagFind — the tag list of RouterBOOT configuration data, as
`routerboot.c` walks it.

A buffer holds 32-bit nodes, each followed by its payload: the low half of a
node is the tag, the high half the length of the payload in bytes. A null node
ends the list. Nodes lie at multiples of 4 and are in the byte order of the
CPU; a little-endian one here.

Offsets and lengths leave `routerboot_tag_find` as `u16`. The walk checks that a
node, and the first byte behind it, lie before the end of the buffer. It does
not check that a payload does.
-/
import Lede.Lib.Bytes

namespace Lede.RouterBoot

open Lede.Lib

/-- A found tag: `pld_ofs` and `pld_len`. -/
structure Payload where
  ofs : Nat
  len : Nat
  deriving DecidableEq, Repr

/-- `ALIGN(len, sizeof(*datum))` in a `u16`. -/
def alignLen (len : Nat) : Nat := (len + 3) / 4 * 4 % 65536

/-- The loop of `routerboot_tag_find` over the buffer at `m`, with the next node at
offset `o` and at most `n` nodes left. -/
def tagFindLoop (m : Nat → UInt8) (buflen tagId : Nat) : Nat → Nat → Option Payload
  | 0, _ => none
  | n + 1, o =>
    if o < buflen then
      let node := get32 m o
      if node = 0 then none
      else if tagId = node % 65536 then
        if buflen ≤ o + 4 then none else some ⟨(o + 4) % 65536, node / 65536⟩
      else tagFindLoop m buflen tagId n (o + 4 + alignLen (node / 65536))
    else none

/-- `routerboot_tag_find`; `none` stands for an error. Every node takes 4 bytes, so
the length of the buffer bounds their number. -/
def routerbootTagFind (m : Nat → UInt8) (buflen tagId : Nat) : Option Payload :=
  if tagId = 0 then none else tagFindLoop m buflen tagId buflen 0

/-! ## Where tags lie -/

/-- `Node m o o'`: the walk over the nodes at `m` reaches the node at `o'` from the
one at `o`. -/
inductive Node (m : Nat → UInt8) : Nat → Nat → Prop
  | refl (o : Nat) : Node m o o
  | next {o o' : Nat} : Node m (o + 4 + alignLen (get32 m o / 65536)) o' → Node m o o'

section Walk

variable {m : Nat → UInt8} {buflen tagId : Nat}

theorem Node.le {o o' : Nat} (h : Node m o o') : o ≤ o' := by
  induction h with
  | refl => exact Nat.le_refl _
  | next _ ih => omega

/-- Of two nodes of one walk, one is reached from the other. -/
theorem Node.linear {o a b : Nat} (ha : Node m o a) (hb : Node m o b) : Node m a b ∨ Node m b a := by
  induction ha with
  | refl o => exact Or.inl hb
  | next ha ih =>
    cases hb with
    | refl => exact Or.inr (Node.next ha)
    | next hb => exact ih hb

/-- A tag that was found is a node of the walk. -/
theorem tagFindLoop_node : ∀ (n o : Nat) {p : Payload}, tagFindLoop m buflen tagId n o = some p →
    ∃ o', Node m o o' ∧ o' + 4 < buflen ∧ p.ofs = (o' + 4) % 65536 ∧ p.len = get32 m o' / 65536 ∧
      get32 m o' % 65536 = tagId
  | 0, _, _, h => absurd h (by simp [tagFindLoop])
  | n + 1, o, p, h => by
      rw [tagFindLoop] at h
      split at h
      · dsimp only at h
        split at h
        · exact absurd h (by simp)
        · split at h
          · next htag =>
            split at h
            · exact absurd h (by simp)
            · next hlt =>
              obtain rfl := Option.some.inj h
              exact ⟨o, Node.refl o, by omega, rfl, rfl, htag.symm⟩
          · obtain ⟨o', hnode, hrest⟩ := tagFindLoop_node n _ h
            exact ⟨o', Node.next hnode, hrest⟩
      · exact absurd h (by simp)

/-- `routerboot_tag_find` reports a node of the buffer with the tag asked for. -/
theorem routerbootTagFind_node {p : Payload} (h : routerbootTagFind m buflen tagId = some p) :
    ∃ o, Node m 0 o ∧ o + 4 < buflen ∧ p.ofs = (o + 4) % 65536 ∧ p.len = get32 m o / 65536 ∧
      get32 m o % 65536 = tagId := by
  unfold routerbootTagFind at h
  split at h
  · exact absurd h (by simp)
  · exact tagFindLoop_node _ _ h

/-- Two different tags with payloads of one word do not overlap. -/
theorem Node.apart {a b : Nat} (ha : Node m 0 a) (hb : Node m 0 b)
    (hla : get32 m a / 65536 = 4) (hlb : get32 m b / 65536 = 4) (hne : a ≠ b) :
    a + 8 ≤ b ∨ b + 8 ≤ a := by
  have hstep : ∀ {x y : Nat}, Node m x y → x ≠ y → get32 m x / 65536 = 4 → x + 8 ≤ y := by
    intro x y hxy hne hlen
    cases hxy with
    | refl => exact absurd rfl hne
    | next hxy =>
      have hle := hxy.le
      rw [hlen] at hle
      exact hle
  rcases ha.linear hb with hab | hba
  · exact Or.inl (hstep hab hne hla)
  · exact Or.inr (hstep hba (Ne.symm hne) hlb)

end Walk

end Lede.RouterBoot
