/-
Lede.Lib.Perl — scalars, hashes and files as Perl scripts use them.

A hash is an association list without repeated keys, in the order in which
`keys` lists it. `lookup_foldl` is the rule for a loop over a hash whose body
touches only the key at hand: the order does not matter.
-/
import Mathlib.Data.Char
import Mathlib.Data.List.AList
import Mathlib.Data.List.Lex

namespace Lede.Lib

abbrev Text := List Char

/-- A scalar is true unless it is undefined, empty or the text `0`. -/
def truthy : Option Text → Bool
  | none => false
  | some v => v ≠ [] && v ≠ ['0']

@[simp] theorem truthy_none : truthy none = false := rfl

@[simp] theorem truthy_some (v : Text) : truthy (some v) = true ↔ v ≠ [] ∧ v ≠ ['0'] := by
  simp [truthy]

/-! ## Hashes -/

abbrev Hash (α : Type) := AList (fun _ : Text => α)

section Hashes

variable {α β : Type}

theorem lookup_insert (h : Hash α) (k x : Text) (v : α) :
    (h.insert k v).lookup x = if x = k then some v else h.lookup x := by
  split
  · next hx => rw [hx, AList.lookup_insert]
  · next hx => rw [AList.lookup_insert_ne hx]

/-- An assignment under a condition. -/
theorem lookup_insert_if (c : Prop) [Decidable c] (h : Hash α) (k x : Text) (v : α) :
    (if c then h.insert k v else h).lookup x =
      if x = k then if c then some v else h.lookup k else h.lookup x := by
  by_cases hx : x = k
  · subst hx
    split <;> simp
  · split <;> simp [hx]

/-- The loop rule, over the entries that are left. -/
theorem lookup_foldl_entries {f : Hash β → Text → α → Hash β}
    {g : Text → α → Option β → Option β}
    (hf : ∀ h k v x, (f h k v).lookup x = if x = k then g k v (h.lookup k) else h.lookup x) :
    ∀ (l : List (Σ _ : Text, α)), l.NodupKeys → ∀ (h : Hash β) (x : Text),
      (l.foldl (fun h e => f h e.1 e.2) h).lookup x =
        match l.dlookup x with
        | some v => g x v (h.lookup x)
        | none => h.lookup x
  | [], _, h, x => by simp
  | ⟨k, v⟩ :: l, hl, h, x => by
      rw [List.nodupKeys_cons] at hl
      rw [List.foldl_cons, lookup_foldl_entries hf l hl.2]
      by_cases hx : x = k
      · subst hx
        rw [List.dlookup_eq_none.2 hl.1, List.dlookup_cons_eq]
        simp [hf]
      · rw [List.dlookup_cons_ne l ⟨k, v⟩ hx]
        simp [hf, hx]

theorem lookup_foldl {f : Hash β → Text → α → Hash β} {g : Text → α → Option β → Option β}
    (hf : ∀ h k v x, (f h k v).lookup x = if x = k then g k v (h.lookup k) else h.lookup x)
    (m : Hash α) (h : Hash β) (x : Text) :
    (m.foldl f h).lookup x =
      match m.lookup x with
      | some v => g x v (h.lookup x)
      | none => h.lookup x :=
  lookup_foldl_entries hf m.entries m.nodupKeys h x

end Hashes

/-! ## Files -/

/-- The lines that `<FILE>` reads, after `chomp`. -/
def fileLines : Text → List Text
  | [] => []
  | c :: cs =>
    if c = '\n' then [] :: fileLines cs
    else match fileLines cs with
      | [] => [[c]]
      | l :: ls => (c :: l) :: ls

theorem fileLines_line (rest : Text) :
    ∀ (l : Text), '\n' ∉ l → fileLines (l ++ '\n' :: rest) = l :: fileLines rest
  | [], _ => by simp [fileLines]
  | c :: l, h => by
      simp only [List.mem_cons, not_or] at h
      rw [List.cons_append, fileLines, if_neg (Ne.symm h.1), fileLines_line rest l h.2]

theorem fileLines_flatMap {γ : Type} {line : γ → Text} :
    ∀ (l : List γ), (∀ x ∈ l, '\n' ∉ line x) →
      fileLines (l.flatMap fun x => line x ++ ['\n']) = l.map line
  | [], _ => rfl
  | x :: l, h => by
      rw [List.flatMap_cons, List.append_assoc, List.singleton_append,
        fileLines_line _ _ (h x (List.mem_cons_self ..)),
        fileLines_flatMap l fun y hy => h y (List.mem_cons_of_mem _ hy), List.map_cons]

end Lede.Lib
