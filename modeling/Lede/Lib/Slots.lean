/-
Lede.Lib.Slots — places that name slots, each slot held by one place.

A place holds a key and names the slot that the value of the key is kept in; a bitmap has the
slots in use. `Exact` says that such a store is what it should be when `want` gives the value of
each key: the slots in use are the named ones, no two places have a key or a slot in common, a
named slot has the value of its key, and a key has a place unless its value is `empty`. Changing
a value, claiming a free slot and releasing one each keep it, with `want` changed at one key.
-/
import Mathlib.Logic.Function.Basic
import Mathlib.Logic.ExistsUnique

namespace Lede.Lib.Slots

variable {P K G M : Type*}

structure Store (P K G M : Type*) where
  ref : P → Option (K × G)
  used : G → Bool
  val : G → M

structure Store.Exact (s : Store P K G M) (empty : M) (want : K → M) : Prop where
  used : ∀ g, s.used g = true ↔ ∃ p k, s.ref p = some (k, g)
  slot_inj : ∀ {p q k l g}, s.ref p = some (k, g) → s.ref q = some (l, g) → p = q
  key_inj : ∀ {p q k g h}, s.ref p = some (k, g) → s.ref q = some (k, h) → p = q
  val : ∀ {p k g}, s.ref p = some (k, g) → s.val g = want k
  held : ∀ {k}, want k ≠ empty → ∃ p g, s.ref p = some (k, g)

variable {s : Store P K G M} {empty : M} {want : K → M} {p : P} {k : K} {g : G}

theorem Store.Exact.existsUnique (h : s.Exact empty want) (g : G) :
    s.used g = true ↔ ∃! p, ∃ k, s.ref p = some (k, g) := by
  rw [h.used]
  constructor
  · rintro ⟨p, k, hp⟩
    refine ⟨p, ⟨k, hp⟩, ?_⟩
    rintro q ⟨l, hq⟩
    exact h.slot_inj hq hp
  · rintro ⟨p, ⟨k, hp⟩, -⟩
    exact ⟨p, k, hp⟩

section Steps

variable [DecidableEq G]

def Store.set (s : Store P K G M) (g : G) (m : M) : Store P K G M :=
  { s with val := Function.update s.val g m }

theorem Store.Exact.set [DecidableEq K] (h : s.Exact empty want) (hp : s.ref p = some (k, g))
    (m : M) :
    (s.set g m).Exact empty (Function.update want k m) where
  used := h.used
  slot_inj := h.slot_inj
  key_inj := h.key_inj
  val := by
    intro q l g' (hq : s.ref q = some (l, g'))
    by_cases hg : g' = g
    · subst hg
      obtain rfl := h.slot_inj hp hq
      obtain ⟨rfl, -⟩ : l = k ∧ g' = g' := by simpa [hp, eq_comm] using hq
      simp [Store.set]
    · have hl : l ≠ k := by
        rintro rfl
        obtain rfl := h.key_inj hp hq
        rw [hp, Option.some_inj, Prod.mk.injEq] at hq
        exact hg hq.2.symm
      simpa [Store.set, hg, hl] using h.val hq
  held := by
    intro l hl
    by_cases hlk : l = k
    · subst hlk
      exact ⟨p, g, hp⟩
    · rw [Function.update_of_ne hlk] at hl
      exact h.held hl

variable [DecidableEq P]

def Store.claim (s : Store P K G M) (p : P) (k : K) (g : G) (m : M) : Store P K G M where
  ref := Function.update s.ref p (some (k, g))
  used := Function.update s.used g true
  val := Function.update s.val g m

def Store.release (s : Store P K G M) (p : P) (g : G) (m : M) : Store P K G M where
  ref := Function.update s.ref p none
  used := Function.update s.used g false
  val := Function.update s.val g m

theorem Store.claim_ref {q : P} {l : K} {g' : G} {m : M} :
    (s.claim p k g m).ref q = some (l, g') ↔
      q = p ∧ k = l ∧ g = g' ∨ q ≠ p ∧ s.ref q = some (l, g') := by
  by_cases hq : q = p
  · subst hq
    simp [Store.claim]
  · simp [Store.claim, hq]

theorem Store.release_ref {q : P} {l : K} {g' : G} {m : M} :
    (s.release p g m).ref q = some (l, g') ↔ q ≠ p ∧ s.ref q = some (l, g') := by
  by_cases hq : q = p
  · subst hq
    simp [Store.release]
  · simp [Store.release, hq]

variable [DecidableEq K]

theorem Store.Exact.claim (h : s.Exact empty want) (hp : s.ref p = none)
    (hk : ∀ q g, s.ref q ≠ some (k, g)) (hg : s.used g = false) (m : M) :
    (s.claim p k g m).Exact empty (Function.update want k m) := by
  have hfree : ∀ q l, s.ref q ≠ some (l, g) := by
    intro q l hq
    rw [(h.used g).mpr ⟨q, l, hq⟩] at hg
    cases hg
  refine ⟨?_, ?_, ?_, ?_, ?_⟩
  · intro g'
    by_cases hgg : g' = g
    · subst hgg
      simp only [Store.claim, Function.update_self, true_iff]
      exact ⟨p, k, Function.update_self ..⟩
    · simp only [Store.claim_ref, Ne.symm hgg, and_false, false_or]
      simp only [Store.claim, Function.update_of_ne hgg]
      rw [h.used]
      constructor
      · rintro ⟨q, l, hq⟩
        refine ⟨q, l, ?_, hq⟩
        rintro rfl
        rw [hp] at hq
        cases hq
      · rintro ⟨q, l, -, hq⟩
        exact ⟨q, l, hq⟩
  · intro q r l l' g' hq hr
    rcases Store.claim_ref.mp hq with ⟨hqp, -, hgq⟩ | ⟨-, hq'⟩ <;>
      rcases Store.claim_ref.mp hr with ⟨hrp, -, hgr⟩ | ⟨-, hr'⟩
    · rw [hqp, hrp]
    · subst hgq
      exact absurd hr' (hfree r l')
    · subst hgr
      exact absurd hq' (hfree q l)
    · exact h.slot_inj hq' hr'
  · intro q r l g₁ g₂ hq hr
    rcases Store.claim_ref.mp hq with ⟨hqp, hlq, -⟩ | ⟨-, hq'⟩ <;>
      rcases Store.claim_ref.mp hr with ⟨hrp, hlr, -⟩ | ⟨-, hr'⟩
    · rw [hqp, hrp]
    · subst hlq
      exact absurd hr' (hk r g₂)
    · subst hlr
      exact absurd hq' (hk q g₁)
    · exact h.key_inj hq' hr'
  · intro q l g' hq
    rcases Store.claim_ref.mp hq with ⟨-, rfl, rfl⟩ | ⟨-, hq'⟩
    · simp [Store.claim]
    · have hgg : g' ≠ g := by
        rintro rfl
        exact hfree q l hq'
      have hlk : l ≠ k := by
        rintro rfl
        exact hk q g' hq'
      simpa [Store.claim, hgg, hlk] using h.val hq'
  · intro l hl
    by_cases hlk : l = k
    · exact ⟨p, g, Store.claim_ref.mpr (.inl ⟨rfl, hlk.symm, rfl⟩)⟩
    · rw [Function.update_of_ne hlk] at hl
      obtain ⟨q, g', hq⟩ := h.held hl
      refine ⟨q, g', Store.claim_ref.mpr (.inr ⟨?_, hq⟩)⟩
      rintro rfl
      rw [hp] at hq
      cases hq

theorem Store.Exact.release (h : s.Exact empty want) (hp : s.ref p = some (k, g)) (m : M) :
    (s.release p g m).Exact empty (Function.update want k empty) := by
  refine ⟨?_, ?_, ?_, ?_, ?_⟩
  · intro g'
    simp only [Store.release_ref]
    by_cases hgg : g' = g
    · subst hgg
      simp only [Store.release, Function.update_self, Bool.false_eq_true, false_iff]
      rintro ⟨q, l, hne, hq⟩
      exact hne (h.slot_inj hq hp)
    · simp only [Store.release, Function.update_of_ne hgg]
      rw [h.used]
      constructor
      · rintro ⟨q, l, hq⟩
        refine ⟨q, l, ?_, hq⟩
        rintro rfl
        rw [hp, Option.some_inj, Prod.mk.injEq] at hq
        exact hgg hq.2.symm
      · rintro ⟨q, l, -, hq⟩
        exact ⟨q, l, hq⟩
  · intro q r l l' g' hq hr
    exact h.slot_inj (Store.release_ref.mp hq).2 (Store.release_ref.mp hr).2
  · intro q r l g₁ g₂ hq hr
    exact h.key_inj (Store.release_ref.mp hq).2 (Store.release_ref.mp hr).2
  · intro q l g' hq
    obtain ⟨hne, hq'⟩ := Store.release_ref.mp hq
    have hgg : g' ≠ g := by
      rintro rfl
      exact hne (h.slot_inj hq' hp)
    have hlk : l ≠ k := by
      rintro rfl
      exact hne (h.key_inj hq' hp)
    simpa [Store.release, hgg, hlk] using h.val hq'
  · intro l hl
    by_cases hlk : l = k
    · subst hlk
      exact absurd (Function.update_self ..) hl
    · rw [Function.update_of_ne hlk] at hl
      obtain ⟨q, g', hq⟩ := h.held hl
      refine ⟨q, g', Store.release_ref.mpr ⟨?_, hq⟩⟩
      rintro rfl
      rw [hp, Option.some_inj, Prod.mk.injEq] at hq
      exact hlk hq.1.symm

end Steps

end Lede.Lib.Slots
