/-
Lede.Otto.PolicyRules — when the policy rules leave forwarding to the switch
(`otto_l3_rules_allow` in `rtl83xx/l3.c`).

The switch knows one table. The driver scans the rules of the kernel and lets
it forward only when a forwarded packet would be looked up in the local table
and then in main. The kernel's own tests of a rule are parameters (`RuleOps`);
`met` is the kernel's walk, which the scan is compared with.
-/
import Lede.Otto.Family

namespace Lede.Otto

inductive FibAction where
  | unspec | toTable | goto | nop | blackhole | unreachable | prohibit
deriving DecidableEq

def RT_TABLE_DEFAULT : Nat := 253
def RT_TABLE_MAIN : Nat := 254
def RT_TABLE_LOCAL : Nat := 255
def LOOPBACK_IFINDEX : Nat := 1

/-- An attribute that a family reports of a rule. -/
inductive FibAttr where
  | dscp
  | other (type : Nat)
deriving DecidableEq

/-- A policy rule; `sel` is every selector the driver does not look at. -/
structure FibRule (σ : Type) where
  pref : Nat
  table : Nat
  action : FibAction
  target : Nat
  iifindex : Nat
  invert : Bool
  ip_proto : Nat
  mark_mask : Nat
  suppresses : Bool
  sel : σ

/-- What the rules see of a packet. -/
structure Flow (π : Type) where
  iif : Nat
  rest : π

/-- `struct fib_rules_ops` and the kernel's tests of a rule: `isDefault` is
`fib4_rule_default` or `fib6_rule_default`, `fill` has no result when there is no
memory or the family refuses, and `selects` are the selectors other than the
incoming interface. -/
structure RuleOps (σ π : Type) where
  isDefault : FibRule σ → Bool
  fill : FibRule σ → Option (List FibAttr)
  selects : FibRule σ → Flow π → Bool

variable {σ π : Type}

/-! ## The scan -/

/-- A rule that cannot be read out counts as having a dscp selector. -/
def ruleDscp (ops : RuleOps σ π) (rule : FibRule σ) : Bool :=
  match ops.fill rule with
  | none => true
  | some attrs => attrs.contains .dscp

def ruleDefault (ops : RuleOps σ π) (rule : FibRule σ) : Bool :=
  if rule.ip_proto ≠ 0 ∨ rule.mark_mask ≠ 0 then false
  else ops.isDefault rule && !ruleDscp ops rule

/-- The loop of `otto_l3_rules_allow`; the first argument is `main_pref` once
main was seen. -/
def rulesScan (ops : RuleOps σ π) : Option Nat → List (FibRule σ) → Bool
  | mainSeen, [] => mainSeen.isSome
  | some mainPref, rule :: _ => rule.pref ≠ mainPref
  | none, rule :: rules =>
    if ruleDefault ops rule then
      if rule.table = RT_TABLE_MAIN then rulesScan ops (some rule.pref) rules
      else if rule.table ≠ RT_TABLE_LOCAL then false
      else rulesScan ops none rules
    else if rule.iifindex = LOOPBACK_IFINDEX ∧ rule.invert = false then rulesScan ops none rules
    else false

/-- `rules` is missing in a kernel without policy routing. -/
def rulesAllow (ops : RuleOps σ π) (rules : Option (List (FibRule σ))) : Bool :=
  match rules with
  | none => true
  | some rules => rulesScan ops none rules

/-! ## The kernel's walk -/

/-- `fib_rule_match` -/
def RuleOps.applies (ops : RuleOps σ π) (rule : FibRule σ) (p : Flow π) : Bool :=
  ((rule.iifindex = 0 || p.iif = rule.iifindex) && ops.selects rule p) ^^ rule.invert

/-- A place where a packet can be decided: a table, whose result the rule may
suppress, or an action that ends the walk. -/
inductive Stop where
  | table (t : Nat) (suppresses : Bool)
  | act (a : FibAction)
deriving DecidableEq

/-- The stops of a packet in order, as long as no table decides it. A `goto`
whose target does not exist is passed over. -/
def stops (ops : RuleOps σ π) (p : Flow π) : List (FibRule σ) → List Stop
  | [] => []
  | rule :: rules =>
    if ops.applies rule p then
      match rule.action with
      | .toTable => .table rule.table rule.suppresses :: stops ops p rules
      | .nop => stops ops p rules
      | .goto =>
        if rules.any (·.pref = rule.target) then
          stops ops p (rules.dropWhile (·.pref ≠ rule.target))
        else stops ops p rules
      | a => [.act a]
    else stops ops p rules
termination_by rules => rules.length
decreasing_by
  all_goals
    simp only [List.length_cons]
    have := (List.dropWhile_sublist (p := fun r : FibRule σ => decide (r.pref ≠ rule.target))
      (l := rules)).length_le
    omega

/-- Without policy routing the lookup is local, then main. -/
def met (ops : RuleOps σ π) (rules : Option (List (FibRule σ))) (p : Flow π) : List Stop :=
  match rules with
  | none => [.table RT_TABLE_LOCAL false, .table RT_TABLE_MAIN false]
  | some rules => stops ops p rules

/-- What decides the packet: the first stop that has an answer. -/
def lookup {ρ : Type} (ops : RuleOps σ π) (find : Nat → Bool → Option ρ)
    (rules : Option (List (FibRule σ))) (p : Flow π) : Option (ρ ⊕ FibAction) :=
  (met ops rules p).findSome? fun
    | .table t suppresses => (find t suppresses).map .inl
    | .act a => some (.inr a)

/-! ## The scan against the walk -/

/-- The rule looks every packet up in one table and keeps what it finds. -/
structure FibRule.Unconditional (ops : RuleOps σ π) (rule : FibRule σ) : Prop where
  action : rule.action = .toTable
  table : rule.table = RT_TABLE_LOCAL ∨ rule.table = RT_TABLE_MAIN ∨ rule.table = RT_TABLE_DEFAULT
  iifindex : rule.iifindex = 0
  invert : rule.invert = false
  suppresses : rule.suppresses = false
  selects : ∀ p, ops.selects rule p = true

/-- The kernel's test recognises the unconditional rules among those without a
protocol, a mark or a dscp, which it does not look at. -/
def RuleOps.Recognises (ops : RuleOps σ π) : Prop :=
  ∀ rule, rule.ip_proto = 0 → rule.mark_mask = 0 →
    (∃ attrs, ops.fill rule = some attrs ∧ FibAttr.dscp ∉ attrs) →
    (ops.isDefault rule = true ↔ rule.Unconditional ops)

section Scan

variable {ops : RuleOps σ π} {rule : FibRule σ} {rules : List (FibRule σ)} {p : Flow π}

theorem ruleDefault_unconditional (hops : ops.Recognises) (h : ruleDefault ops rule = true) :
    rule.Unconditional ops := by
  unfold ruleDefault at h
  split_ifs at h with hsel
  simp only [not_or, not_not] at hsel
  obtain ⟨hdef, hdscp⟩ := Bool.and_eq_true_iff.1 h
  refine (hops rule hsel.1 hsel.2 ?_).1 hdef
  unfold ruleDscp at hdscp
  cases hf : ops.fill rule with
  | none => simp [hf] at hdscp
  | some attrs => exact ⟨attrs, rfl, by simpa [hf] using hdscp⟩

theorem FibRule.Unconditional.applies (h : rule.Unconditional ops) (p : Flow π) :
    ops.applies rule p = true := by
  simp [RuleOps.applies, h.iifindex, h.invert, h.selects]

theorem FibRule.Unconditional.stops (h : rule.Unconditional ops) :
    stops ops p (rule :: rules) = .table rule.table false :: stops ops p rules := by
  rw [Otto.stops, if_pos (h.applies p), h.action, h.suppresses]

/-- A rule for what the box sends itself is not for a forwarded packet. -/
theorem stops_loopback (hiif : rule.iifindex = LOOPBACK_IFINDEX) (hinv : rule.invert = false)
    (hp : p.iif ≠ LOOPBACK_IFINDEX) : stops ops p (rule :: rules) = stops ops p rules := by
  have hno : ops.applies rule p = false := by
    have hne : ¬ p.iif = 1 := hp
    simp [RuleOps.applies, hiif, hinv, hne, LOOPBACK_IFINDEX]
  rw [stops, hno, if_neg Bool.false_ne_true]

/-- The scan goes over local rules, loopback rules and then one for main. -/
theorem rulesScan_stops (hops : ops.Recognises) (h : rulesScan ops none rules = true) :
    ∃ n, ∀ p : Flow π, p.iif ≠ LOOPBACK_IFINDEX → ∃ rest,
      stops ops p rules =
        List.replicate n (.table RT_TABLE_LOCAL false) ++ .table RT_TABLE_MAIN false :: rest := by
  induction rules with
  | nil => simp [rulesScan] at h
  | cons rule rules ih =>
    simp only [rulesScan] at h
    split_ifs at h with hdef hmain hlocal hloop
    · have hu := ruleDefault_unconditional hops hdef
      exact ⟨0, fun p _ => ⟨stops ops p rules, by simp [hu.stops, hmain]⟩⟩
    · -- the local table comes first, once more than in the rest
      have hu := ruleDefault_unconditional hops hdef
      obtain ⟨n, ih⟩ := ih h
      refine ⟨n + 1, fun p hp => ?_⟩
      obtain ⟨rest, hrest⟩ := ih p hp
      exact ⟨rest, by simp [hu.stops, hrest, not_not.1 hlocal, List.replicate_succ]⟩
    · obtain ⟨n, ih⟩ := ih h
      refine ⟨n, fun p hp => ?_⟩
      obtain ⟨rest, hrest⟩ := ih p hp
      exact ⟨rest, by rw [stops_loopback hloop.1 hloop.2 hp, hrest]⟩

theorem findSome?_replicate_append {α β : Type} (f : α → Option β) (a b : α) (n : Nat)
    (rest : List α) {y : β} (hb : f b = some y) :
    (List.replicate n a ++ b :: rest).findSome? f = f a ∧ (f a).isSome ∨
      (List.replicate n a ++ b :: rest).findSome? f = some y := by
  cases n with
  | zero => exact .inr (by simp [hb])
  | succ n =>
    cases ha : f a with
    | some x => exact .inl ⟨by simp [List.replicate_succ, ha], rfl⟩
    | none => exact .inr (by simp [List.findSome?_append, ha, hb])

end Scan

/-- When the rules are allowed, every forwarded packet meets the local table,
if anything, and then main; so a destination in main is decided by one of the
two, whatever the other tables and rules say. -/
theorem rulesAllow_met (ops : RuleOps σ π) (hops : ops.Recognises)
    (rules : Option (List (FibRule σ))) (h : rulesAllow ops rules = true) :
    (∃ n, ∀ p : Flow π, p.iif ≠ LOOPBACK_IFINDEX → ∃ rest,
      met ops rules p =
        List.replicate n (.table RT_TABLE_LOCAL false) ++ .table RT_TABLE_MAIN false :: rest) ∧
    ∀ (ρ : Type) (find : Nat → Bool → Option ρ) (p : Flow π) (route : ρ),
      p.iif ≠ LOOPBACK_IFINDEX → find RT_TABLE_MAIN false = some route →
        (∃ r, find RT_TABLE_LOCAL false = some r ∧ lookup ops find rules p = some (.inl r)) ∨
          lookup ops find rules p = some (.inl route) := by
  have hmet : ∃ n, ∀ p : Flow π, p.iif ≠ LOOPBACK_IFINDEX → ∃ rest,
      met ops rules p =
        List.replicate n (.table RT_TABLE_LOCAL false) ++ .table RT_TABLE_MAIN false :: rest := by
    cases rules with
    | none => exact ⟨1, fun _ _ => ⟨[], rfl⟩⟩
    | some rules => exact rulesScan_stops hops h
  refine ⟨hmet, fun ρ find p route hp hmain => ?_⟩
  obtain ⟨n, hn⟩ := hmet
  obtain ⟨rest, hrest⟩ := hn p hp
  rw [lookup, hrest]
  rcases findSome?_replicate_append (fun
    | Stop.table t suppresses => (find t suppresses).map Sum.inl
    | .act a => some (.inr a)) (.table RT_TABLE_LOCAL false) (.table RT_TABLE_MAIN false) n rest
    (y := .inl route) (by simp [hmain]) with ⟨h1, h2⟩ | h1
  · obtain ⟨r, hr⟩ := Option.isSome_iff_exists.1 (by simpa using h2)
    exact .inl ⟨r, hr, by simp [h1, hr]⟩
  · exact .inr h1

/-! ## A rule set -/

/-- A family whose rules can select a destination, reported as attribute 1. -/
def destOps : RuleOps (Option Nat) Nat where
  isDefault rule := rule.action = .toTable ∧
    (rule.table = RT_TABLE_LOCAL ∨ rule.table = RT_TABLE_MAIN ∨ rule.table = RT_TABLE_DEFAULT) ∧
    rule.iifindex = 0 ∧ rule.invert = false ∧ rule.suppresses = false ∧ rule.sel = none
  fill rule := some (if rule.sel = none then [] else [.other 1])
  selects rule p := rule.sel = none ∨ rule.sel = some p.rest

theorem destOps_recognises : destOps.Recognises := by
  intro rule _ _ _
  simp only [destOps, decide_eq_true_eq]
  constructor
  · rintro ⟨ha, ht, hi, hv, hs, hsel⟩
    exact ⟨ha, ht, hi, hv, hs, fun p => by simp [hsel]⟩
  · rintro ⟨ha, ht, hi, hv, hs, hsel⟩
    refine ⟨ha, ht, hi, hv, hs, ?_⟩
    cases hd : rule.sel with
    | none => rfl
    | some d => simpa [hd] using hsel ⟨0, d + 1⟩

def tableRule (pref table : Nat) : FibRule (Option Nat) :=
  ⟨pref, table, .toTable, 0, 0, false, 0, 0, false, none⟩

/-- The rules of a fresh kernel and one for what the box sends to 7. -/
def bootRules : List (FibRule (Option Nat)) :=
  [tableRule 0 RT_TABLE_LOCAL,
    { tableRule 100 77 with iifindex := LOOPBACK_IFINDEX, sel := some 7 },
    tableRule 32766 RT_TABLE_MAIN, tableRule 32767 RT_TABLE_DEFAULT]

theorem bootRules_met : rulesAllow destOps (some bootRules) = true ∧
    ∃ n, ∀ p : Flow Nat, p.iif ≠ LOOPBACK_IFINDEX → ∃ rest, met destOps (some bootRules) p =
      List.replicate n (.table RT_TABLE_LOCAL false) ++ .table RT_TABLE_MAIN false :: rest := by
  have h : rulesAllow destOps (some bootRules) = true := by decide
  exact ⟨h, (rulesAllow_met destOps destOps_recognises (some bootRules) h).1⟩

end Lede.Otto
