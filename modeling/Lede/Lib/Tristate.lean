/-
Lede.Lib.Tristate — conditions over tristate symbols: how a text is read and
what its value is.

`Reads` is the grammar; the words of it are its parameter, so that a reading
can be asked to keep operators out of quoted strings. A text has one value,
whichever way it is read (`Reads.value_eq`).
-/
import Lede.Lib.Perl
import Mathlib.Algebra.GroupWithZero.Nat
import Mathlib.Data.List.DropRight
import Mathlib.Order.Fin.Basic

namespace Lede.Lib.Tristate

/-! ## Expressions -/

inductive Expr where
  | symbol (name : Text)
  | not (e : Expr)
  | and (a b : Expr)
  | or (a b : Expr)
  deriving DecidableEq

instance valuesNeZero : NeZero 3 := ⟨by decide⟩

/-- `n`, `m` and `y` are 0, 1 and 2. -/
def Expr.value (v : Text → Fin 3) : Expr → Fin 3
  | symbol name => v name
  | not e => 2 - e.value v
  | and a b => min (a.value v) (b.value v)
  | or a b => max (a.value v) (b.value v)

/-! ## Words -/

def blank (c : Char) : Bool := c = ' ' || (9 ≤ c.toNat && c.toNat ≤ 13)

/-- The characters that are operators of their own outside a quoted string. -/
def special (c : Char) : Bool := c = '(' || c = ')' || c = '&' || c = '|'

/-- The quote of the string that a place of a text is in, and whether the last
character was a backslash. -/
abbrev Quote := Option (Char × Bool)

def quoteStep : Quote → Char → Quote
  | none, c => if c = '"' ∨ c = '\'' then some (c, false) else none
  | some (q, true), _ => some (q, false)
  | some (q, false), c =>
    if c = '\\' then some (q, true) else if c = q then none else some (q, false)

/-- Every quoted string ends. -/
def Closed (t : Text) : Prop := t.foldl quoteStep none = none

/-- Special characters stand in quoted strings only. -/
def sheltered : Quote → Text → Bool
  | _, [] => true
  | q, c :: cs => (q.isSome || !special c) && sheltered (quoteStep q c) cs

/-- A special character stands in a quoted string. -/
def hides : Quote → Text → Bool
  | _, [] => false
  | q, c :: cs => (q.isSome && special c) || hides (quoteStep q c) cs

/-- A symbol, a quoted string or a comparison of two. -/
structure Word (t : Text) : Prop where
  ne_nil : t ≠ []
  head : ∀ c ∈ t.head?, blank c = false ∧ c ≠ '!'
  last : ∀ c ∈ t.getLast?, blank c = false
  closed : Closed t
  sheltered : sheltered none t = true

/-- A word without any special character. -/
structure Plain (t : Text) : Prop extends Word t where
  plain : ∀ c ∈ t, special c = false

def Blanks (b : Text) : Prop := ∀ c ∈ b, blank c = true

/-! ## Readings -/

inductive Level where
  | primary | conj | disj
  deriving DecidableEq

/-- `&&` binds tighter than `||`, and `!` tighter than both. -/
inductive Reads (word : Text → Prop) : Level → Text → Expr → Prop
  | symbol (b t b' : Text) (hb : Blanks b) (hb' : Blanks b') (h : word t) :
      Reads word .primary (b ++ (t ++ b')) (.symbol t)
  | not (b t : Text) {e : Expr} (hb : Blanks b) (h : Reads word .primary t e) :
      Reads word .primary (b ++ '!' :: t) (.not e)
  | paren (b t b' : Text) {e : Expr} (hb : Blanks b) (hb' : Blanks b')
      (h : Reads word .disj t e) : Reads word .primary (b ++ '(' :: (t ++ ')' :: b')) e
  | conj {t : Text} {e : Expr} (h : Reads word .primary t e) : Reads word .conj t e
  | and (t u : Text) {a b : Expr} (ha : Reads word .primary t a) (hb : Reads word .conj u b) :
      Reads word .conj (t ++ '&' :: '&' :: u) (.and a b)
  | disj {t : Text} {e : Expr} (h : Reads word .conj t e) : Reads word .disj t e
  | or (t u : Text) {a b : Expr} (ha : Reads word .conj t a) (hb : Reads word .disj u b) :
      Reads word .disj (t ++ '|' :: '|' :: u) (.or a b)

section Grammar

variable {word : Text → Prop} {l : Level} {t : Text} {e : Expr}

theorem blanks_nil : Blanks [] := by simp [Blanks]

theorem blanks_append {a b : Text} (ha : Blanks a) (hb : Blanks b) : Blanks (a ++ b) := by
  intro c hc
  obtain h | h := List.mem_append.1 hc
  · exact ha c h
  · exact hb c h

theorem Reads.pad_left {b : Text} (hb : Blanks b) (h : Reads word l t e) :
    Reads word l (b ++ t) e := by
  induction h with
  | symbol b₁ t b₂ h₁ h₂ h =>
    rw [← List.append_assoc]
    exact .symbol _ t b₂ (blanks_append hb h₁) h₂ h
  | not b₁ t h₁ h =>
    rw [← List.append_assoc]
    exact .not _ t (blanks_append hb h₁) h
  | paren b₁ t b₂ h₁ h₂ h =>
    rw [← List.append_assoc]
    exact .paren _ t b₂ (blanks_append hb h₁) h₂ h
  | conj h ih => exact .conj ih
  | and t u ha hu iha =>
    rw [← List.append_assoc]
    exact .and _ u iha hu
  | disj h ih => exact .disj ih
  | or t u ha hu iha =>
    rw [← List.append_assoc]
    exact .or _ u iha hu

theorem Reads.pad_right {b : Text} (hb : Blanks b) (h : Reads word l t e) :
    Reads word l (t ++ b) e := by
  induction h with
  | symbol b₁ t b₂ h₁ h₂ h =>
    rw [List.append_assoc, List.append_assoc]
    exact .symbol b₁ t _ h₁ (blanks_append h₂ hb) h
  | not b₁ t h₁ h ih =>
    rw [List.append_assoc]
    exact .not b₁ _ h₁ ih
  | paren b₁ t b₂ h₁ h₂ h =>
    rw [List.append_assoc, List.cons_append, List.append_assoc]
    exact .paren b₁ t _ h₁ (blanks_append h₂ hb) h
  | conj h ih => exact .conj ih
  | and t u ha hu iha ihu =>
    rw [List.append_assoc]
    exact .and t _ ha ihu
  | disj h ih => exact .disj ih
  | or t u ha hu iha ihu =>
    rw [List.append_assoc]
    exact .or t _ ha ihu

end Grammar

/-! ## Quoted strings -/

theorem Closed.append {a b : Text} (ha : Closed a) (hb : Closed b) : Closed (a ++ b) := by
  rw [Closed, List.foldl_append, ha, hb]

theorem hides_append {a : Text} (b : Text) : ∀ q : Quote,
    hides q (a ++ b) = (hides q a || hides (a.foldl quoteStep q) b) := by
  induction a with
  | nil => simp [hides]
  | cons c cs ih => simp [hides, ih, Bool.or_assoc]

theorem Closed.hides_append {a : Text} (ha : Closed a) (b : Text) :
    hides none (a ++ b) = (hides none a || hides none b) := by
  rw [Tristate.hides_append, ha]

theorem quoteStep_of_blank {c : Char} (h : blank c = true) : quoteStep none c = none := by
  rw [quoteStep, if_neg]
  rintro (rfl | rfl) <;> exact absurd h (by decide)

theorem closed_blanks : ∀ {b : Text}, Blanks b → Closed b
  | [], _ => rfl
  | c :: cs, h => by
    rw [Closed, List.foldl_cons, quoteStep_of_blank (h c (List.mem_cons_self ..))]
    exact closed_blanks fun c hc => h c (List.mem_cons_of_mem _ hc)

theorem hides_blanks : ∀ {b : Text}, Blanks b → hides none b = false
  | [], _ => rfl
  | c :: cs, h => by
    rw [hides, quoteStep_of_blank (h c (List.mem_cons_self ..)),
      hides_blanks fun c hc => h c (List.mem_cons_of_mem _ hc)]
    rfl

/-- Outside strings, what is not hidden is not there. -/
theorem not_special_of_not_hides : ∀ {t : Text} {q : Quote},
    sheltered q t = true → hides q t = false → ∀ c ∈ t, special c = false
  | [], _, _, _ => by simp
  | c :: cs, q, hs, hh => by
    simp only [sheltered, hides, Bool.and_eq_true, Bool.or_eq_false_iff] at hs hh
    intro d hd
    obtain rfl | hd := List.mem_cons.1 hd
    · cases q <;> simp_all
    · exact not_special_of_not_hides hs.2 hh.2 d hd

theorem not_hides_of_not_special : ∀ {t : Text} (q : Quote),
    (∀ c ∈ t, special c = false) → hides q t = false
  | [], _, _ => rfl
  | c :: cs, q, h => by
    rw [hides, h c (List.mem_cons_self ..), Bool.and_false, Bool.false_or]
    exact not_hides_of_not_special _ fun c hc => h c (List.mem_cons_of_mem _ hc)

section Quotes

variable {l : Level} {t : Text} {e : Expr}

theorem Reads.closed (h : Reads Word l t e) : Closed t := by
  induction h with
  | symbol b t b' hb hb' h => exact (closed_blanks hb).append (h.closed.append (closed_blanks hb'))
  | not b t hb _ ih => exact (closed_blanks hb).append (Closed.append (a := ['!']) rfl ih)
  | paren b t b' hb hb' _ ih =>
    exact (closed_blanks hb).append (Closed.append (a := ['(']) rfl
      (ih.append (Closed.append (a := [')']) rfl (closed_blanks hb'))))
  | conj _ ih => exact ih
  | and t u _ _ iha ihb => exact iha.append (Closed.append (a := ['&', '&']) rfl ihb)
  | disj _ ih => exact ih
  | or t u _ _ iha ihb => exact iha.append (Closed.append (a := ['|', '|']) rfl ihb)

theorem Reads.mono {word word' : Text → Prop} (hw : ∀ t, word t → word' t)
    (h : Reads word l t e) : Reads word' l t e := by
  induction h with
  | symbol b t b' hb hb' h => exact .symbol b t b' hb hb' (hw t h)
  | not b t hb _ ih => exact .not b t hb ih
  | paren b t b' hb hb' _ ih => exact .paren b t b' hb hb' ih
  | conj _ ih => exact .conj ih
  | and t u _ _ iha ihb => exact .and t u iha ihb
  | disj _ ih => exact .disj ih
  | or t u _ _ iha ihb => exact .or t u iha ihb

theorem Reads.closed_of_plain (h : Reads Plain l t e) : Closed t :=
  (h.mono fun _ h => h.toWord).closed

/-- The words of a text that hides nothing hide nothing. -/
theorem Reads.plain (h : Reads Word l t e) : hides none t = false → Reads Plain l t e := by
  induction h with
  | symbol b t b' hb hb' h =>
    intro hh
    rw [(closed_blanks hb).hides_append, h.closed.hides_append, Bool.or_eq_false_iff,
      Bool.or_eq_false_iff] at hh
    exact .symbol b t b' hb hb' ⟨h, not_special_of_not_hides h.sheltered hh.2.1⟩
  | not b t hb _ ih =>
    intro hh
    rw [(closed_blanks hb).hides_append, Bool.or_eq_false_iff] at hh
    exact .not b t hb (ih hh.2)
  | paren b t b' hb hb' h ih =>
    intro hh
    rw [(closed_blanks hb).hides_append, Bool.or_eq_false_iff] at hh
    have ht : hides none (t ++ ')' :: b') = false := hh.2
    rw [h.closed.hides_append, Bool.or_eq_false_iff] at ht
    exact .paren b t b' hb hb' (ih ht.1)
  | conj _ ih => exact fun hh => .conj (ih hh)
  | and t u ha _ iha ihb =>
    intro hh
    rw [ha.closed.hides_append, Bool.or_eq_false_iff] at hh
    exact .and t u (iha hh.1) (ihb hh.2)
  | disj _ ih => exact fun hh => .disj (ih hh)
  | or t u ha _ iha ihb =>
    intro hh
    rw [ha.closed.hides_append, Bool.or_eq_false_iff] at hh
    exact .or t u (iha hh.1) (ihb hh.2)

theorem Reads.not_hides (h : Reads Plain l t e) : hides none t = false := by
  induction h with
  | symbol b t b' hb hb' h =>
    rw [(closed_blanks hb).hides_append, h.closed.hides_append, hides_blanks hb,
      hides_blanks hb', not_hides_of_not_special none h.plain]
    rfl
  | not b t hb _ ih =>
    rw [(closed_blanks hb).hides_append, hides_blanks hb]
    exact ih
  | paren b t b' hb hb' h ih =>
    have ht : hides none (t ++ ')' :: b') = false := by
      rw [h.closed_of_plain.hides_append, ih]
      exact (Closed.hides_append (a := [')']) rfl b').trans (hides_blanks hb')
    rw [(closed_blanks hb).hides_append, hides_blanks hb]
    exact ht
  | conj _ ih => exact ih
  | and t u ha _ iha ihb =>
    rw [ha.closed_of_plain.hides_append, iha]
    exact ihb
  | disj _ ih => exact ih
  | or t u ha _ iha ihb =>
    rw [ha.closed_of_plain.hides_append, iha]
    exact ihb

end Quotes

/-! ## Parentheses -/

def nest (d : Int) (c : Char) : Int := if c = '(' then d + 1 else if c = ')' then d - 1 else d

/-- No `op` stands outside all parentheses, where the text starts at depth `d`. -/
def Quiet (op : Char) : Int → Text → Prop
  | _, [] => True
  | d, c :: cs => (nest d c = 0 → c ≠ op) ∧ Quiet op (nest d c) cs

theorem quiet_append {op : Char} : ∀ {d : Int} {t u : Text},
    Quiet op d (t ++ u) ↔ Quiet op d t ∧ Quiet op (t.foldl nest d) u
  | _, [], _ => by simp [Quiet]
  | _, c :: cs, _ => by simp [Quiet, quiet_append, and_assoc]

theorem nest_of_not_special {d : Int} {c : Char} (h : special c = false) : nest d c = d := by
  simp only [special, Bool.or_eq_false_iff, decide_eq_false_iff_not] at h
  simp [nest, h]

/-- The operators that a text of a level may have outside all parentheses. -/
def Level.free : Level → Char → Bool
  | primary, _ => false
  | conj, op => op = '&'
  | disj, op => op = '&' || op = '|'

/-- A text leaves the depth as it is, and shows the operators of its level. -/
def Calm (l : Level) (t : Text) : Prop :=
  ∀ d : Int, 0 ≤ d → t.foldl nest d = d ∧
    ∀ op, op = '&' ∨ op = '|' → (d = 0 → l.free op = false) → Quiet op d t

section Depth

variable {l : Level} {t u : Text} {e : Expr}

theorem calm_of_not_special : ∀ {t : Text}, (∀ c ∈ t, special c = false) → Calm l t
  | [], _ => fun _ _ => ⟨rfl, fun _ _ _ => trivial⟩
  | c :: cs, h => by
    intro d hd
    have hc := h c (List.mem_cons_self ..)
    have hcs := calm_of_not_special (fun c hc => h c (List.mem_cons_of_mem _ hc)) d hd
    refine ⟨by rw [List.foldl_cons, nest_of_not_special hc]; exact hcs.1, fun op hop hl => ?_⟩
    rw [Quiet, nest_of_not_special hc]
    refine ⟨fun _ => ?_, hcs.2 op hop hl⟩
    rintro rfl
    obtain rfl | rfl := hop <;> exact absurd hc (by decide)

theorem special_of_blank {c : Char} (h : blank c = true) : special c = false := by
  by_contra hs
  simp only [special, Bool.not_eq_false, Bool.or_eq_true, decide_eq_true_eq] at hs
  obtain ((rfl | rfl) | rfl) | rfl := hs <;> exact absurd h (by decide)

theorem calm_blanks {b : Text} (hb : Blanks b) : Calm l b :=
  calm_of_not_special fun c hc => special_of_blank (hb c hc)

theorem Calm.append (ht : Calm l t) (hu : Calm l u) : Calm l (t ++ u) := by
  intro d hd
  rw [List.foldl_append, (ht d hd).1]
  refine ⟨(hu d hd).1, fun op hop hl => quiet_append.2 ⟨(ht d hd).2 op hop hl, ?_⟩⟩
  rw [(ht d hd).1]
  exact (hu d hd).2 op hop hl

theorem Calm.mono {l' : Level} (hl : ∀ op, l'.free op = false → l.free op = false)
    (h : Calm l t) : Calm l' t :=
  fun d hd => ⟨(h d hd).1, fun op hop ho => (h d hd).2 op hop fun hd => hl op (ho hd)⟩

theorem Calm.paren (h : Calm .disj t) : Calm l ('(' :: (t ++ [')'])) := by
  intro d hd
  obtain ⟨hdepth, hquiet⟩ := h (d + 1) (by omega)
  have hclose : nest (d + 1) ')' = d := by simp [nest]
  refine ⟨?_, fun op hop _ => ⟨fun _ => ?_, quiet_append.2 ⟨?_, ?_⟩⟩⟩
  · rw [List.foldl_cons, List.foldl_append, show nest d '(' = d + 1 from rfl, hdepth]
    exact hclose
  · obtain rfl | rfl := hop <;> decide
  · exact hquiet op hop fun h0 => absurd h0 (by omega)
  · rw [show nest d '(' = d + 1 from rfl, hdepth]
    refine ⟨fun _ => ?_, trivial⟩
    obtain rfl | rfl := hop <;> decide

/-- An operator between two texts, at a level that has it. -/
theorem calm_op {op : Char} (hop : op = '&' ∨ op = '|') (hl : l.free op = true) :
    Calm l [op, op] := by
  intro d hd
  have hn : nest d op = d := by obtain rfl | rfl := hop <;> simp [nest]
  refine ⟨by simp [hn], fun o _ ho => ?_⟩
  have hne : d = 0 → op ≠ o := by
    rintro h0 rfl
    exact absurd (ho h0) (by simp [hl])
  simp only [Quiet, hn]
  exact ⟨hne, hne, trivial⟩

theorem Reads.calm (h : Reads Plain l t e) : Calm l t := by
  induction h with
  | symbol b t b' hb hb' h =>
    exact (calm_blanks hb).append ((calm_of_not_special h.plain).append (calm_blanks hb'))
  | not b t hb _ ih =>
    exact (calm_blanks hb).append ((calm_of_not_special (t := ['!']) (by simp [special])).append ih)
  | paren b t b' hb hb' _ ih =>
    have hcalm : Calm .primary (b ++ ('(' :: (t ++ [')']) ++ b')) :=
      (calm_blanks hb).append (ih.paren.append (calm_blanks hb'))
    simpa using hcalm
  | conj _ ih => exact ih.mono fun _ _ => rfl
  | and t u _ _ iha ihb =>
    exact (iha.mono fun _ _ => rfl).append ((calm_op (Or.inl rfl) rfl).append ihb)
  | disj _ ih => exact ih.mono fun op h => by simp_all [Level.free]
  | or t u _ _ iha ihb =>
    exact (iha.mono fun op h => by simp_all [Level.free]).append
      ((calm_op (Or.inr rfl) rfl).append ihb)

end Depth

/-! ## The value of a text -/

/-- The text around the first `op op` outside all parentheses. -/
def cut (op : Char) : Int → Text → Option (Text × Text)
  | _, [] => none
  | d, c :: cs =>
    if nest d c = 0 ∧ c = op ∧ cs.head? = some op then some ([], cs.tail)
    else (cut op (nest d c) cs).map fun p => (c :: p.1, p.2)

def valueOf (v : Text → Fin 3) : Nat → Text → Fin 3
  | 0, _ => 0
  | n + 1, t =>
    match cut '|' 0 t with
    | some (a, b) => max (valueOf v n a) (valueOf v n b)
    | none =>
      match cut '&' 0 t with
      | some (a, b) => min (valueOf v n a) (valueOf v n b)
      | none =>
        match t.dropWhile blank with
        | '!' :: r => 2 - valueOf v n r
        | '(' :: r => valueOf v n (r.rdropWhile blank).dropLast
        | r => v (r.rdropWhile blank)

theorem cut_quiet {op : Char} : ∀ {d : Int} {t : Text}, Quiet op d t → cut op d t = none
  | _, [], _ => rfl
  | d, c :: cs, h => by
    rw [cut, if_neg fun hc => h.1 hc.1 hc.2.1, cut_quiet h.2]
    rfl

theorem cut_append {op : Char} (hop : op = '&' ∨ op = '|') (u : Text) : ∀ {d : Int} {t : Text},
    Quiet op d t → t.foldl nest d = 0 → cut op d (t ++ op :: op :: u) = some (t, u)
  | d, [], _, hd => by
    have hn : nest d op = 0 := by
      rw [← hd]
      obtain rfl | rfl := hop <;> simp [nest]
    simp [cut, hn]
  | d, c :: cs, h, hd => by
    rw [List.cons_append, cut, if_neg fun hc => h.1 hc.1 hc.2.1, cut_append hop u h.2 hd]
    rfl

theorem dropWhile_blanks {b : Text} (hb : Blanks b) (t : Text) :
    (b ++ t).dropWhile blank = t.dropWhile blank :=
  List.dropWhile_append_of_pos hb

theorem rdropWhile_blanks {t b : Text} (hb : Blanks b) (ht : ∀ c ∈ t.getLast?, blank c = false) :
    (t ++ b).rdropWhile blank = t := by
  have hrev : Blanks b.reverse := fun c hc => hb c (List.mem_reverse.1 hc)
  rw [List.rdropWhile, List.reverse_append, List.dropWhile_append_of_pos hrev]
  refine List.rdropWhile_eq_self_iff.2 fun hl => ?_
  simp [ht _ (List.getLast?_eq_getLast_of_ne_nil hl)]

/-- However a text is read, its value is the one that its outermost operators give. -/
theorem Reads.valueOf_eq {l : Level} {t : Text} {e : Expr} (v : Text → Fin 3)
    (h : Reads Plain l t e) : ∀ n, t.length < n → valueOf v n t = e.value v := by
  have quiet : ∀ {l : Level} {t : Text} {e : Expr}, Reads Plain l t e →
      ∀ op, op = '&' ∨ op = '|' → l.free op = false → Quiet op 0 t :=
    fun h op hop hl => (h.calm 0 le_rfl).2 op hop fun _ => hl
  -- a text without operators outside parentheses
  have leaf : ∀ {t : Text} {e : Expr} (n : Nat), Reads Plain .primary t e →
      valueOf v (n + 1) t = match t.dropWhile blank with
        | '!' :: r => 2 - valueOf v n r
        | '(' :: r => valueOf v n (r.rdropWhile blank).dropLast
        | r => v (r.rdropWhile blank) := by
    intro t e n h
    rw [valueOf, cut_quiet (quiet h _ (Or.inr rfl) rfl), cut_quiet (quiet h _ (Or.inl rfl) rfl)]
  induction h with
  | symbol b t b' hb hb' h =>
    rintro (_ | n) hn
    · exact absurd hn (Nat.not_lt_zero _)
    rw [leaf n (.symbol b t b' hb hb' h), dropWhile_blanks hb]
    obtain ⟨c, cs, rfl⟩ := List.exists_cons_of_ne_nil h.ne_nil
    obtain ⟨hc, hnot⟩ := h.head c rfl
    rw [List.cons_append, List.dropWhile_cons_of_neg (by simp [hc])]
    split
    · next heq => exact absurd (List.cons.inj heq).1 hnot
    · next heq =>
      have := h.plain c (List.mem_cons_self ..)
      rw [(List.cons.inj heq).1] at this
      exact absurd this (by decide)
    · rw [← List.cons_append, rdropWhile_blanks hb' h.last]
      rfl
  | not b t hb h ih =>
    rintro (_ | n) hn
    · exact absurd hn (Nat.not_lt_zero _)
    rw [leaf n (.not b t hb h), dropWhile_blanks hb, List.dropWhile_cons_of_neg (by decide)]
    have hlen : t.length < n := by simp at hn; omega
    simp only [Expr.value, ih n hlen]
  | paren b t b' hb hb' h ih =>
    rintro (_ | n) hn
    · exact absurd hn (Nat.not_lt_zero _)
    rw [leaf n (.paren b t b' hb hb' h), dropWhile_blanks hb,
      List.dropWhile_cons_of_neg (by decide)]
    have hlen : t.length < n := by simp at hn; omega
    have hcore : ((t ++ ')' :: b').rdropWhile blank).dropLast = t := by
      rw [show t ++ ')' :: b' = (t ++ [')']) ++ b' by simp, rdropWhile_blanks hb' (by simp; decide),
        List.dropLast_concat]
    simp only [hcore, ih n hlen]
  | conj _ ih => exact ih
  | and t u ha hu iha ihu =>
    rintro (_ | n) hn
    · exact absurd hn (Nat.not_lt_zero _)
    have hlen : t.length < n ∧ u.length < n := by simp at hn; omega
    rw [valueOf, cut_quiet (quiet (.and t u ha hu) _ (Or.inr rfl) rfl),
      cut_append (Or.inl rfl) u (quiet ha _ (Or.inl rfl) rfl) (ha.calm 0 le_rfl).1]
    simp only [Expr.value, iha n hlen.1, ihu n hlen.2]
  | disj _ ih => exact ih
  | or t u ha hu iha ihu =>
    rintro (_ | n) hn
    · exact absurd hn (Nat.not_lt_zero _)
    have hlen : t.length < n ∧ u.length < n := by simp at hn; omega
    rw [valueOf, cut_append (Or.inr rfl) u (quiet ha _ (Or.inr rfl) rfl) (ha.calm 0 le_rfl).1]
    simp only [Expr.value, iha n hlen.1, ihu n hlen.2]

/-- A text has one value. -/
theorem Reads.value_eq {l l' : Level} {t : Text} {e e' : Expr} (h : Reads Plain l t e)
    (h' : Reads Plain l' t e') (v : Text → Fin 3) : e.value v = e'.value v := by
  rw [← h.valueOf_eq v (t.length + 1) (Nat.lt_succ_self _),
    h'.valueOf_eq v (t.length + 1) (Nat.lt_succ_self _)]

end Lede.Lib.Tristate
