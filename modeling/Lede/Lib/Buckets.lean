/-
Lede.Lib.Buckets — hash tables with chaining.

A chain is a list of entries, in which a key stands once. Setting a key replaces its entry
where it stands, or puts a new one in front; the first entry of a key is what a lookup
finds. A table has a chain for each bucket, and `Table.Ok` says that a key is only in the
bucket it hashes to.
-/
import Mathlib.Algebra.GroupWithZero.Nat
import Mathlib.Data.List.Nodup
import Mathlib.Data.List.Basic

namespace Lede.Lib

variable {κ β : Type} [DecidableEq κ]

/-! ## Chains -/

/-- The chain with another value for a key that is in it. -/
def replaceKey (k : κ) (v : β) : List (κ × β) → Option (List (κ × β))
  | [] => none
  | e :: l => if e.1 = k then some ((k, v) :: l) else (replaceKey k v l).map (e :: ·)

/-- Replace the value, or put a new entry in front. -/
def setKey (k : κ) (v : β) (l : List (κ × β)) : List (κ × β) := (replaceKey k v l).getD ((k, v) :: l)

/-- The chain without the first entry of a key. -/
def unsetKey (k : κ) (l : List (κ × β)) : List (κ × β) := l.eraseP (·.1 = k)

/-- A chain in which no key stands twice. -/
def KeysNodup (l : List (κ × β)) : Prop := (l.map Prod.fst).Nodup

section Chains

variable {k k' : κ} {v v' : β} {l l' : List (κ × β)}

theorem lookup_cons' (e : κ × β) : List.lookup k (e :: l) = if e.1 = k then some e.2 else List.lookup k l := by
  rw [List.lookup_cons]
  by_cases h : e.1 = k
  · rw [if_pos h, h, beq_self_eq_true]
  · rw [if_neg h, beq_false_of_ne (Ne.symm h)]

theorem replaceKey_eq_none : replaceKey k v l = none ↔ k ∉ l.map Prod.fst := by
  induction l with
  | nil => simp [replaceKey]
  | cons e l ih =>
    rw [replaceKey, List.map_cons, List.mem_cons, not_or]
    by_cases h : e.1 = k
    · rw [if_pos h]
      simp [h]
    · rw [if_neg h, Option.map_eq_none_iff, ih]
      exact ⟨fun hl => ⟨Ne.symm h, hl⟩, fun hl => hl.2⟩

/-- Replacing keeps the keys. -/
theorem replaceKey_keys (h : replaceKey k v l = some l') : l'.map Prod.fst = l.map Prod.fst := by
  induction l generalizing l' with
  | nil => cases h
  | cons e l ih =>
    rw [replaceKey] at h
    by_cases he : e.1 = k
    · rw [if_pos he] at h
      cases h
      rw [List.map_cons, List.map_cons, he]
    · rw [if_neg he, Option.map_eq_some_iff] at h
      obtain ⟨l₁, hl₁, rfl⟩ := h
      rw [List.map_cons, List.map_cons, ih hl₁]

theorem replaceKey_lookup (h : replaceKey k v l = some l') :
    List.lookup k' l' = if k' = k then some v else List.lookup k' l := by
  induction l generalizing l' with
  | nil => cases h
  | cons e l ih =>
    rw [replaceKey] at h
    by_cases he : e.1 = k
    · rw [if_pos he] at h
      cases h
      rw [lookup_cons', lookup_cons', he]
      by_cases hk : k = k'
      · rw [if_pos hk, if_pos hk.symm]
      · rw [if_neg hk, if_neg (Ne.symm hk), if_neg hk]
    · rw [if_neg he, Option.map_eq_some_iff] at h
      obtain ⟨l₁, hl₁, rfl⟩ := h
      rw [lookup_cons', lookup_cons', ih hl₁]
      by_cases hk : e.1 = k'
      · rw [if_pos hk, if_pos hk, if_neg (fun hkk => he (hk.trans hkk))]
      · rw [if_neg hk, if_neg hk]

/-- What is found after a set. -/
theorem lookup_setKey : List.lookup k' (setKey k v l) = if k' = k then some v else List.lookup k' l := by
  unfold setKey
  cases h : replaceKey k v l with
  | some l' => exact replaceKey_lookup h
  | none =>
    rw [Option.getD_none, lookup_cons']
    by_cases hk : k = k'
    · rw [if_pos hk, if_pos hk.symm]
    · rw [if_neg hk, if_neg (Ne.symm hk)]

theorem KeysNodup.set (h : KeysNodup l) : KeysNodup (setKey k v l) := by
  unfold setKey
  cases hr : replaceKey k v l with
  | some l' =>
    rw [Option.getD_some, KeysNodup, replaceKey_keys hr]
    exact h
  | none => exact List.nodup_cons.mpr ⟨replaceKey_eq_none.mp hr, h⟩

theorem mem_setKey {e : κ × β} (h : e ∈ setKey k v l) : e = (k, v) ∨ e ∈ l := by
  unfold setKey at h
  cases hr : replaceKey k v l with
  | none =>
    rw [hr, Option.getD_none, List.mem_cons] at h
    exact h
  | some l' =>
    rw [hr, Option.getD_some] at h
    induction l generalizing l' with
    | nil => cases hr
    | cons a l ih =>
      rw [replaceKey] at hr
      by_cases ha : a.1 = k
      · rw [if_pos ha] at hr
        cases hr
        rcases List.mem_cons.mp h with h | h
        · exact Or.inl h
        · exact Or.inr (List.mem_cons_of_mem _ h)
      · rw [if_neg ha, Option.map_eq_some_iff] at hr
        obtain ⟨l₁, hl₁, rfl⟩ := hr
        rcases List.mem_cons.mp h with rfl | h
        · exact Or.inr List.mem_cons_self
        · rcases ih l₁ h hl₁ with h | h
          · exact Or.inl h
          · exact Or.inr (List.mem_cons_of_mem _ h)

theorem KeysNodup.unset (h : KeysNodup l) : KeysNodup (unsetKey k l) :=
  h.sublist (List.Sublist.map _ List.eraseP_sublist)

/-- In a chain of distinct keys the entries are what is found. -/
theorem KeysNodup.lookup_iff (h : KeysNodup l) : List.lookup k l = some v ↔ (k, v) ∈ l := by
  induction l with
  | nil => simp
  | cons e l ih =>
    obtain ⟨hnot, hl⟩ := List.nodup_cons.mp h
    rw [lookup_cons', List.mem_cons]
    by_cases he : e.1 = k
    · rw [if_pos he, Option.some_inj]
      constructor
      · rintro rfl
        exact Or.inl (by rw [← he])
      · rintro (rfl | hmem)
        · rfl
        · exact absurd (List.mem_map_of_mem hmem) (he ▸ hnot)
    · rw [if_neg he, ih hl]
      constructor
      · exact Or.inr
      · rintro (rfl | hmem)
        · exact absurd rfl he
        · exact hmem

end Chains

/-! ## Tables -/

/-- A chain for each bucket. -/
abbrev Table (κ β : Type) := Nat → List (κ × β)

namespace Table

variable (slot : κ → Nat)

def get (t : Table κ β) (k : κ) : Option β := List.lookup k (t (slot k))

def set (t : Table κ β) (k : κ) (v : β) : Table κ β := fun i =>
  if i = slot k then setKey k v (t i) else t i

def unset (t : Table κ β) (k : κ) : Table κ β := fun i =>
  if i = slot k then unsetKey k (t i) else t i

/-- All entries of the first `n` buckets, in the order of a walk through the table. -/
def entries (n : Nat) (t : Table κ β) : List (κ × β) := (List.range n).flatMap t

/-- Keys stand once, and in the bucket they hash to. -/
structure Ok (t : Table κ β) : Prop where
  nodup : ∀ i, KeysNodup (t i)
  slot : ∀ i, ∀ e ∈ t i, slot e.1 = i

variable {slot} {t : Table κ β} {k k' : κ} {v v' : β} {n : Nat}

omit [DecidableEq κ] in
theorem ok_empty : Ok slot (fun _ => ([] : List (κ × β))) :=
  ⟨fun _ => List.nodup_nil, fun _ _ he => absurd he List.not_mem_nil⟩

theorem get_set : get slot (set slot t k v) k' = if k' = k then some v else get slot t k' := by
  unfold get set
  by_cases hs : slot k' = slot k
  · rw [if_pos hs, lookup_setKey]
  · rw [if_neg hs, if_neg (fun hk => hs (by rw [hk]))]

theorem Ok.set (h : Ok slot t) (k : κ) (v : β) : Ok slot (Table.set slot t k v) := by
  constructor
  · intro i
    unfold Table.set
    split
    · exact (h.nodup i).set
    · exact h.nodup i
  · intro i e he
    unfold Table.set at he
    split at he
    · next hi =>
      rcases mem_setKey he with rfl | he
      · exact hi.symm
      · exact h.slot i e he
    · exact h.slot i e he

theorem Ok.unset (h : Ok slot t) (k : κ) : Ok slot (Table.unset slot t k) := by
  constructor
  · intro i
    unfold Table.unset
    split
    · exact (h.nodup i).unset
    · exact h.nodup i
  · intro i e he
    unfold Table.unset at he
    split at he
    · exact h.slot i e (List.mem_of_mem_eraseP he)
    · exact h.slot i e he

/-- The entries are what is found. -/
theorem Ok.get_iff (h : Ok slot t) (hslot : slot k < n) : get slot t k = some v ↔ (k, v) ∈ entries n t := by
  unfold get entries
  rw [(h.nodup _).lookup_iff, List.mem_flatMap]
  constructor
  · intro hmem
    exact ⟨slot k, List.mem_range.mpr hslot, hmem⟩
  · rintro ⟨i, -, hmem⟩
    have hi : slot k = i := h.slot i _ hmem
    rw [hi]
    exact hmem

end Table

end Lede.Lib
