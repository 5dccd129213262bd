/-
Lede.Metadata.Condition — whether a condition implies a dependency
(`condition_implies_dep` of `scripts/package-metadata.pl`).
-/
import Lede.Metadata.Package
import Lede.Lib.Tristate

namespace Lede.Metadata

open Lede.Lib Lede.Lib.Tristate

/-! ## The code -/

/-- The loop over the characters: `term` is the text since `$start`, and `none`
is the return at a `||`. -/
def scanTerms (depth : Int) (term : Text) : Text → Option (List Text)
  | [] => some [term]
  | char :: rest =>
    let depth := if char = '(' then depth + 1 else depth
    let depth := if char = ')' then depth - 1 else depth
    if depth ≠ 0 then scanTerms depth (term ++ [char]) rest
    else
      match char, rest with
      -- a dependency in only one alternative is not implied
      | '|', '|' :: _ => none
      | '&', '&' :: rest => (scanTerms depth [] rest).map (term :: ·)
      | char, rest => scanTerms depth (term ++ [char]) rest

/-- `s/^\s+|\s+$//g` -/
def strip (term : Text) : Text := trimRight (term.dropWhile isSpace)

def condition_implies_dep (condition : Option Text) (depend : Text) : Bool :=
  match condition with
  | none => false
  | some condition =>
    if condition = depend ∨ condition = '(' :: (depend ++ [')']) then true
    else
      match scanTerms 0 [] condition with
      | none => false
      | some terms =>
        terms.any fun term => strip term = depend ∨ strip term = '(' :: (depend ++ [')'])

/-! ## The scan -/

theorem scanTerms_cons_of_ne {depth : Int} {term : Text} {char : Char} {rest : Text}
    (h : nest depth char ≠ 0 ∨ char ≠ '&' ∧ char ≠ '|') :
    scanTerms depth term (char :: rest) =
      scanTerms (nest depth char) (term ++ [char]) rest := by
  have hdepth : (if char = ')' then (if char = '(' then depth + 1 else depth) - 1
      else if char = '(' then depth + 1 else depth) = nest depth char := by
    by_cases hc : char = '('
    · subst hc
      rfl
    · simp [nest, hc]
  rw [scanTerms.eq_def]
  dsimp only
  rw [hdepth]
  split
  · rfl
  · next h0 =>
    obtain h | ⟨hand, hor⟩ := h
    · exact absurd h h0
    · split
      · exact absurd rfl hor
      · exact absurd rfl hand
      · rfl

/-- The characters of a quiet text join the term at hand. -/
theorem scanTerms_quiet : ∀ {t : Text} {depth : Int} {term rest : Text},
    Quiet '&' depth t → Quiet '|' depth t →
      scanTerms depth term (t ++ rest) = scanTerms (t.foldl nest depth) (term ++ t) rest
  | [], _, _, _, _, _ => by simp
  | c :: cs, depth, term, rest, hand, hor => by
    have hc : nest depth c ≠ 0 ∨ c ≠ '&' ∧ c ≠ '|' := by
      by_cases h0 : nest depth c = 0
      · exact Or.inr ⟨hand.1 h0, hor.1 h0⟩
      · exact Or.inl h0
    rw [List.cons_append, scanTerms_cons_of_ne hc, scanTerms_quiet hand.2 hor.2]
    simp

section Scan

variable {t u : Text} {e : Expr}

theorem scanTerms_primary (h : Reads Plain .primary t e) (term rest : Text) :
    scanTerms 0 term (t ++ rest) = scanTerms 0 (term ++ t) rest := by
  obtain ⟨hdepth, hquiet⟩ := h.calm 0 le_rfl
  rw [scanTerms_quiet (hquiet _ (Or.inl rfl) fun _ => rfl) (hquiet _ (Or.inr rfl) fun _ => rfl),
    hdepth]

/-- A conjunction is cut into readings whose values bound its own. -/
theorem scanTerms_conj (h : Reads Plain .conj t e) : ∃ terms, scanTerms 0 [] t = some terms ∧
    ∀ x ∈ terms, ∃ e', Reads Plain .primary x e' ∧ ∀ v, e.value v ≤ e'.value v := by
  generalize hl : Level.conj = l at h
  induction h with
  | symbol | not | paren | disj | or => cases hl
  | @conj t e h =>
    refine ⟨[t], ?_, fun x hx => ⟨e, ?_, fun _ => le_rfl⟩⟩
    · have hscan := scanTerms_primary h [] []
      rw [List.append_nil] at hscan
      exact hscan
    · rwa [List.mem_singleton.1 hx]
  | @and t u a b ha hb _ ih =>
    obtain ⟨terms, hscan, hterms⟩ := ih rfl
    refine ⟨t :: terms, ?_, fun x hx => ?_⟩
    · rw [scanTerms_primary ha]
      simp [scanTerms, hscan]
    · obtain rfl | hx := List.mem_cons.1 hx
      · exact ⟨a, ha, fun _ => min_le_left _ _⟩
      · obtain ⟨e', hread, hle⟩ := hterms x hx
        exact ⟨e', hread, fun v => (min_le_right _ _).trans (hle v)⟩

/-- The scan stops at the first `||` after a conjunction. -/
theorem scanTerms_or (h : Reads Plain .conj t e) (rest : Text) :
    scanTerms 0 [] (t ++ '|' :: '|' :: rest) = none := by
  generalize hl : Level.conj = l at h
  induction h with
  | symbol | not | paren | disj | or => cases hl
  | conj h =>
    rw [scanTerms_primary h]
    simp [scanTerms]
  | and t u ha _ _ ih =>
    rw [List.append_assoc, scanTerms_primary ha]
    simp [scanTerms, ih rfl]

end Scan

/-! ## Soundness -/

/-- A text is its stripped text between blanks. -/
theorem exists_strip (t : Text) :
    ∃ b b', Blanks b ∧ Blanks b' ∧ t = b ++ (strip t ++ b') := by
  have hright : (t.dropWhile blank).rdropWhile blank ++ (t.dropWhile blank).rtakeWhile blank =
      t.dropWhile blank := List.rdropWhile_append_rtakeWhile ..
  refine ⟨t.takeWhile blank, (t.dropWhile blank).rtakeWhile blank, fun c hc => ?_, fun c hc => ?_,
    ?_⟩
  · exact List.mem_takeWhile_imp hc
  · exact List.mem_rtakeWhile_imp hc
  · calc t = t.takeWhile blank ++ t.dropWhile blank := (List.takeWhile_append_dropWhile ..).symm
      _ = _ := congrArg _ hright.symm

section Sound

variable {condition depend t : Text} {c d e : Expr} {l : Level}

/-- The two texts that the code compares with read as the dependency does. -/
theorem reads_depend (hd : Reads Word .disj depend d)
    (h : t = depend ∨ t = '(' :: (depend ++ [')'])) : Reads Word .disj t d := by
  obtain rfl | rfl := h
  · exact hd
  · exact .disj (.conj (.paren [] depend [] blanks_nil blanks_nil hd))

theorem value_of_strip (ht : Reads Plain l t e) (hd : Reads Word .disj depend d)
    (h : strip t = depend ∨ strip t = '(' :: (depend ++ [')'])) (v : Text → Fin 3) :
    e.value v = d.value v := by
  obtain ⟨b, b', hb, hb', hstrip⟩ := exists_strip t
  have hhides : hides none (strip t) = false := by
    have hall := ht.not_hides
    rw [hstrip, (closed_blanks hb).hides_append, hides_append, Bool.or_eq_false_iff,
      Bool.or_eq_false_iff] at hall
    exact hall.2.1
  have hread : Reads Plain .disj (b ++ (strip t ++ b')) d :=
    (((reads_depend hd h).plain hhides).pad_right hb').pad_left hb
  rw [← hstrip] at hread
  exact ht.value_eq hread v

/-- A condition is at most a dependency that it implies, in every valuation. -/
theorem condition_implies_dep_sound (hc : Reads Word .disj condition c)
    (hd : Reads Word .disj depend d) (hstrings : hides none condition = false)
    (h : condition_implies_dep (some condition) depend = true) (v : Text → Fin 3) :
    c.value v ≤ d.value v := by
  have hplain := hc.plain hstrings
  unfold condition_implies_dep at h
  dsimp only at h
  split at h
  · next heq =>
    have hread := (reads_depend hd heq).plain hstrings
    exact (hplain.value_eq hread v).le
  · cases hplain with
    | or t u ha hb =>
      rw [scanTerms_or ha u] at h
      exact absurd h Bool.false_ne_true
    | disj hconj =>
      obtain ⟨terms, hscan, hterms⟩ := scanTerms_conj hconj
      rw [hscan] at h
      obtain ⟨x, hx, heq⟩ := List.any_eq_true.1 h
      obtain ⟨e, hread, hle⟩ := hterms x hx
      calc c.value v ≤ e.value v := hle v
        _ = d.value v := value_of_strip hread hd (by simpa using heq) v

end Sound

/-- `A && (B || C)` implies `B || C`. -/
theorem condition_implies_dep_sound_paren :
    condition_implies_dep
        (some ['A', ' ', '&', '&', ' ', '(', 'B', ' ', '|', '|', ' ', 'C', ')'])
        ['B', ' ', '|', '|', ' ', 'C'] = true ∧
      Expr.value (fun _ => 1) (.and (.symbol ['A']) (.or (.symbol ['B']) (.symbol ['C']))) ≤
        Expr.value (fun _ => 1) (.or (.symbol ['B']) (.symbol ['C'])) := by
  have hspace : Blanks [' '] := by simp [Blanks, blank]
  have hword : ∀ c, c = 'A' ∨ c = 'B' ∨ c = 'C' → Word [c] := by
    rintro c (rfl | rfl | rfl) <;>
      exact ⟨by simp, by simp [blank], by simp [blank], rfl, rfl⟩
  have ha : Reads Word .primary ['A', ' '] (.symbol ['A']) :=
    .symbol [] ['A'] [' '] blanks_nil hspace (hword _ (Or.inl rfl))
  have hb : Reads Word .primary ['B', ' '] (.symbol ['B']) :=
    .symbol [] ['B'] [' '] blanks_nil hspace (hword _ (Or.inr (Or.inl rfl)))
  have hc : Reads Word .primary [' ', 'C'] (.symbol ['C']) :=
    .symbol [' '] ['C'] [] hspace blanks_nil (hword _ (Or.inr (Or.inr rfl)))
  have hor : Reads Word .disj ['B', ' ', '|', '|', ' ', 'C']
      (.or (.symbol ['B']) (.symbol ['C'])) :=
    .or ['B', ' '] [' ', 'C'] (.conj hb) (.disj (.conj hc))
  have hcond : Reads Word .disj
      ['A', ' ', '&', '&', ' ', '(', 'B', ' ', '|', '|', ' ', 'C', ')']
      (.and (.symbol ['A']) (.or (.symbol ['B']) (.symbol ['C']))) :=
    .disj (.and ['A', ' '] _ ha (.conj (.paren [' '] _ [] hspace blanks_nil hor)))
  have himp : condition_implies_dep
      (some ['A', ' ', '&', '&', ' ', '(', 'B', ' ', '|', '|', ' ', 'C', ')'])
      ['B', ' ', '|', '|', ' ', 'C'] = true := by decide +kernel
  have hstrings : hides none
      ['A', ' ', '&', '&', ' ', '(', 'B', ' ', '|', '|', ' ', 'C', ')'] = false := rfl
  exact ⟨himp, condition_implies_dep_sound hcond hor hstrings himp (fun _ => 1)⟩

/-- `A="x&&B&&y"` compares with a string; it does not imply `B`. -/
theorem condition_implies_dep_string :
    ¬ ∀ (condition depend : Text) (c d : Expr), Reads Word .disj condition c →
      Reads Word .disj depend d → condition_implies_dep (some condition) depend = true →
      ∀ v : Text → Fin 3, c.value v ≤ d.value v := by
  intro hall
  have hc : Reads Word .disj ['A', '=', '"', 'x', '&', '&', 'B', '&', '&', 'y', '"']
      (.symbol ['A', '=', '"', 'x', '&', '&', 'B', '&', '&', 'y', '"']) :=
    .disj (.conj (.symbol [] ['A', '=', '"', 'x', '&', '&', 'B', '&', '&', 'y', '"'] []
      blanks_nil blanks_nil ⟨by simp, by simp [blank], by simp [blank], rfl, rfl⟩))
  have hd : Reads Word .disj ['B'] (.symbol ['B']) :=
    .disj (.conj (.symbol [] ['B'] [] blanks_nil blanks_nil
      ⟨by simp, by simp [blank], by simp [blank], rfl, rfl⟩))
  have hle := hall _ _ _ _ hc hd (by decide) fun t => if t = ['B'] then 0 else 2
  revert hle
  decide

end Lede.Metadata
