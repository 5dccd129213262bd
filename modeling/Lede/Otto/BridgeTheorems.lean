/-
Lede.Otto.BridgeTheorems — the masks of the ports are what the bridges ask for.

`updatePortMember_spec` says what one call of `rtldsa_update_port_member` leaves in every mask
and every row of the isolation table. From it, each call of the DSA core keeps
`IsolationOk` (`IsolationOk.step`), and so does every run.
-/
import Lede.Otto.Bridge

namespace Lede.Otto

variable {f : Family} {ports : SwitchPorts f}

/-! ## The loop over the other ports -/

/-- The loop looks at this port. -/
def Met (s : BridgeState) (port : Nat) (bridgeDev : Option Nat) (o : Nat) : Prop :=
  o ≠ port ∧ s.bridge o = bridgeDev

instance (s : BridgeState) (port : Nat) (bridgeDev : Option Nat) (o : Nat) :
    Decidable (Met s port bridgeDev o) :=
  inferInstanceAs (Decidable (_ ∧ _))

/-- The two ports are to be in each other's masks. -/
def joins (s : BridgeState) (port : Nat) (join : Bool) (o : Nat) : Bool :=
  join && !((s.ports port).isolated && (s.ports o).isolated)

/-- The mask of another port after the loop. -/
def otherPm (s : BridgeState) (port : Nat) (join : Bool) (o : Nat) : PortMask :=
  if joins s port join o then insert port (s.ports o).pm else (s.ports o).pm.erase port

/-- What the loop has done after the ports of a list. -/
structure LoopSpec (f : Family) (port : Nat) (bridgeDev : Option Nat) (join : Bool) (l : List Nat)
    (s : BridgeState) (mask : PortMask) (r : PortMask × BridgeState) : Prop where
  bridge : r.2.bridge = s.bridge
  ports : ∀ o, r.2.ports o = if o ∈ l ∧ Met s port bridgeDev o
    then { s.ports o with pm := otherPm s port join o } else s.ports o
  portIso : ∀ o, r.2.portIso o =
    if (o ∈ l ∧ Met s port bridgeDev o) ∧ (s.ports o).enable = true
    then trafficMask f o (otherPm s port join o) else s.portIso o
  mask : ∀ o, o ∈ r.1 ↔ o ∈ mask ∨ (o ∈ l ∧ Met s port bridgeDev o ∧ joins s port join o = true)

theorem updateOther_skip {port : Nat} {bridgeDev : Option Nat} (join : Bool)
    (r : PortMask × BridgeState) {x : Nat} (hx : ¬ Met r.2 port bridgeDev x) :
    updateOther f port bridgeDev join r x = r := by
  unfold updateOther
  dsimp only
  split
  · rfl
  · rename_i hne
    rw [if_pos (fun hb => hx ⟨fun heq => hne heq.symm, hb⟩)]

/-- The port that the loop meets gets its mask and its row. -/
theorem updateOther_met {port : Nat} {bridgeDev : Option Nat} (join : Bool)
    (r : PortMask × BridgeState) {x : Nat} (hx : Met r.2 port bridgeDev x) :
    updateOther f port bridgeDev join r x =
      (if joins r.2 port join x then insert x r.1 else r.1,
       { ports := Function.update r.2.ports x { r.2.ports x with pm := otherPm r.2 port join x },
         bridge := r.2.bridge,
         portIso := if (r.2.ports x).enable
           then Function.update r.2.portIso x (trafficMask f x (otherPm r.2 port join x))
           else r.2.portIso }) := by
  unfold updateOther
  dsimp only
  rw [if_neg (fun heq => hx.1 heq.symm), if_neg (not_not.mpr hx.2)]
  congr 1
  split
  · rfl
  · rfl

/-- One more port. Meeting a port again changes nothing. -/
theorem LoopSpec.snoc {port : Nat} {bridgeDev : Option Nat} {join : Bool} {l : List Nat}
    {s : BridgeState} {mask : PortMask} {r : PortMask × BridgeState}
    (h : LoopSpec f port bridgeDev join l s mask r) (x : Nat) :
    LoopSpec f port bridgeDev join (l ++ [x]) s mask (updateOther f port bridgeDev join r x) := by
  have hmet : Met r.2 port bridgeDev x ↔ Met s port bridgeDev x := by
    rw [Met, h.bridge, Met]
  by_cases hx : Met s port bridgeDev x
  · have hiso : ∀ o, (r.2.ports o).isolated = (s.ports o).isolated := by
      intro o
      rw [h.ports o]
      split <;> rfl
    have hjoins : joins r.2 port join x = joins s port join x := by
      rw [joins, hiso, hiso, joins]
    have hseen : (r.2.ports x).pm = otherPm s port join x ∨ (r.2.ports x).pm = (s.ports x).pm := by
      rw [h.ports x]
      split
      · exact .inl rfl
      · exact .inr rfl
    have hpm : otherPm r.2 port join x = otherPm s port join x := by
      obtain hseen | hseen := hseen
      · rw [otherPm, hjoins, hseen]
        unfold otherPm
        cases joins s port join x <;> simp
      · rw [otherPm, hjoins, hseen, otherPm]
    have henable : (r.2.ports x).enable = (s.ports x).enable := by
      rw [h.ports x]
      split <;> rfl
    have hport : { r.2.ports x with pm := otherPm r.2 port join x } =
        { s.ports x with pm := otherPm s port join x } := by
      rw [hpm, h.ports x]
      split <;> rfl
    rw [updateOther_met join r (hmet.mpr hx), hport, hpm, hjoins, henable]
    refine ⟨h.bridge, ?_, ?_, ?_⟩
    · intro o
      by_cases ho : o = x
      · subst ho
        simp [hx]
      · simp only [Function.update_of_ne ho, h.ports o, List.mem_append, List.mem_singleton, ho, or_false]
    · intro o
      by_cases ho : o = x
      · subst ho
        by_cases hen : (s.ports o).enable = true
        · simp [hx, hen]
        · simp [hen, h.portIso o]
      · by_cases hen : (s.ports x).enable = true
        · simp [hen, ho, h.portIso o]
        · simp [hen, ho, h.portIso o]
    · intro o
      by_cases hj : joins s port join x = true
      · rw [if_pos hj, Finset.mem_insert, h.mask, List.mem_append, List.mem_singleton]
        grind
      · rw [if_neg hj, h.mask, List.mem_append, List.mem_singleton]
        grind
  · rw [updateOther_skip join r (fun hc => hx (hmet.mp hc))]
    have hmem : ∀ o, (o ∈ l ++ [x] ∧ Met s port bridgeDev o) ↔ (o ∈ l ∧ Met s port bridgeDev o) := by
      intro o
      simp only [List.mem_append, List.mem_singleton]
      constructor
      · rintro ⟨ho | rfl, hmo⟩
        · exact ⟨ho, hmo⟩
        · exact absurd hmo hx
      · rintro ⟨ho, hmo⟩
        exact ⟨.inl ho, hmo⟩
    refine ⟨h.bridge, ?_, ?_, ?_⟩
    · intro o
      simp only [hmem]
      exact h.ports o
    · intro o
      simp only [hmem]
      exact h.portIso o
    · intro o
      rw [h.mask, ← and_assoc, ← and_assoc, hmem]

theorem foldl_loopSpec (port : Nat) (bridgeDev : Option Nat) (join : Bool) (l : List Nat)
    (s : BridgeState) (mask : PortMask) :
    LoopSpec f port bridgeDev join l s mask
      (l.foldl (updateOther f port bridgeDev join) (mask, s)) := by
  induction l using List.reverseRecOn with
  | nil => exact ⟨rfl, by simp, by simp, by simp⟩
  | append_singleton l x ih =>
    rw [List.foldl_append]
    exact ih.snoc x

/-! ## `rtldsa_update_port_member` -/

/-- The row of the isolation table is the one of the mask. -/
def RowOk (f : Family) (s : BridgeState) (o : Nat) : Prop :=
  (s.ports o).enable = true → s.portIso o = trafficMask f o (s.ports o).pm

/-- What `rtldsa_update_port_member` changes. -/
structure UpdateSpec (ports : SwitchPorts f) (s : BridgeState) (port : Nat) (bridgeDev : Option Nat)
    (join : Bool) (s' : BridgeState) : Prop where
  bridge : s'.bridge = s.bridge
  isolated : ∀ o, (s'.ports o).isolated = (s.ports o).isolated
  own : ∀ x, x ∈ (s'.ports port).pm ↔
    x = f.cpuPort ∨ (x ∈ ports.userPorts ∧ Met s port bridgeDev x ∧ joins s port join x = true)
  other : ∀ o, o ≠ port → (s'.ports o).pm =
    if o ∈ ports.userPorts ∧ s.bridge o = bridgeDev then otherPm s port join o else (s.ports o).pm
  row : ∀ o, RowOk f s o → RowOk f s' o

theorem updatePortMember_spec (ports : SwitchPorts f) (s : BridgeState) (port : Nat) (bridgeDev : Option Nat) (join : Bool) :
    UpdateSpec ports s port bridgeDev join (updatePortMember f ports s port bridgeDev join) := by
  have hloop := foldl_loopSpec (f := f) port bridgeDev join ports.userPorts s {f.cpuPort}
  unfold updatePortMember
  dsimp only
  generalize ports.userPorts.foldl (updateOther f port bridgeDev join) ({f.cpuPort}, s) = r at hloop
  have hport : r.2.ports port = s.ports port := by
    rw [hloop.ports port, if_neg (fun hc => hc.2.1 rfl)]
  -- the state is the same whether the row of the port is written or not
  have hports : ∀ o, ((if (r.2.ports port).enable = true
      then trafficSet f (r.2.setPort port { r.2.ports port with pm := r.1 }) port r.1
      else r.2.setPort port { r.2.ports port with pm := r.1 }).ports o) =
      if o = port then { s.ports port with pm := r.1 } else r.2.ports o := by
    intro o
    rw [hport]
    split
    · simp [trafficSet, BridgeState.setPort, Function.update_apply]
    · simp [BridgeState.setPort, Function.update_apply]
  refine ⟨?_, ?_, ?_, ?_, ?_⟩
  · split
    · exact hloop.bridge
    · exact hloop.bridge
  · intro o
    rw [hports]
    split
    · rename_i ho
      rw [ho]
    · rw [hloop.ports o]
      split <;> rfl
  · intro x
    rw [hports, if_pos rfl]
    simpa using hloop.mask x
  · intro o ho
    rw [hports, if_neg ho, hloop.ports o]
    by_cases hb : o ∈ ports.userPorts ∧ s.bridge o = bridgeDev
    · rw [if_pos ⟨hb.1, ho, hb.2⟩, if_pos hb]
    · rw [if_neg (fun hc => hb ⟨hc.1, hc.2.2⟩), if_neg hb]
  · intro o hrow henable
    rw [hports] at henable ⊢
    by_cases ho : o = port
    · subst ho
      rw [if_pos rfl] at henable ⊢
      rw [hport, if_pos henable]
      simp [trafficSet]
    · rw [if_neg ho] at henable ⊢
      have hiso : ((if (r.2.ports port).enable = true
          then trafficSet f (r.2.setPort port { r.2.ports port with pm := r.1 }) port r.1
          else r.2.setPort port { r.2.ports port with pm := r.1 }).portIso o) = r.2.portIso o := by
        split
        · simp [trafficSet, BridgeState.setPort, Function.update_of_ne ho]
        · rfl
      rw [hiso, hloop.portIso o]
      rw [hloop.ports o] at henable ⊢
      by_cases hmet : o ∈ ports.userPorts ∧ Met s port bridgeDev o
      · rw [if_pos hmet] at henable ⊢
        rw [if_pos ⟨hmet, henable⟩]
      · rw [if_neg hmet] at henable ⊢
        rw [if_neg (fun hc => hmet hc.1)]
        exact hrow henable

theorem Membership.Linked.symm {m : Membership} {p q : Nat} (h : m.Linked p q) : m.Linked q p := by
  obtain ⟨hne, ⟨b, hp, hq⟩, hiso⟩ := h
  exact ⟨hne.symm, ⟨b, hq, hp⟩, fun hc => hiso ⟨hc.2, hc.1⟩⟩

theorem Membership.linked_comm (m : Membership) (p q : Nat) : m.Linked p q ↔ m.Linked q p :=
  ⟨fun h => h.symm, fun h => h.symm⟩

/-- The masks of the user ports are what the bridges ask for. -/
def MasksOk (ports : SwitchPorts f) (m : Membership) (s : BridgeState) : Prop :=
  ∀ p ∈ ports.userPorts, ∀ q ∈ ports.userPorts, q ∈ (s.ports p).pm ↔ m.Linked p q

/-- Only the pairs with the port itself have to be put right. -/
theorem UpdateSpec.masksOk {s s' : BridgeState} {port : Nat} {bridgeDev : Option Nat} {join : Bool}
    (h : UpdateSpec ports s port bridgeDev join s') {m : Membership}
    (hpairs : ∀ p ∈ ports.userPorts, ∀ q ∈ ports.userPorts, p ≠ port → q ≠ port →
      (q ∈ (s.ports p).pm ↔ m.Linked p q))
    (haway : ∀ p ∈ ports.userPorts, p ≠ port → s.bridge p ≠ bridgeDev →
      port ∉ (s.ports p).pm ∧ ¬ m.Linked p port)
    (hmet : ∀ p ∈ ports.userPorts, p ≠ port → s.bridge p = bridgeDev →
      (m.Linked p port ↔ joins s port join p = true)) : MasksOk ports m s' := by
  intro p hp q hq
  by_cases hpp : p = port
  · subst hpp
    have hcpu : q ≠ f.cpuPort := Nat.ne_of_lt (ports.user_lt q hq)
    rw [h.own]
    by_cases hqp : q = p
    · subst hqp
      exact iff_of_false (by rintro (hc | ⟨-, hc, -⟩); exacts [hcpu hc, hc.1 rfl]) (fun hc => hc.1 rfl)
    · rw [m.linked_comm]
      by_cases hb : s.bridge q = bridgeDev
      · rw [hmet q hq hqp hb]
        simp [hcpu, hq, Met, hqp, hb]
      · refine iff_of_false ?_ (haway q hq hqp hb).2
        rintro (hc | ⟨-, hc, -⟩)
        · exact hcpu hc
        · exact hb hc.2
  · rw [h.other p hpp]
    by_cases hb : s.bridge p = bridgeDev
    · rw [if_pos ⟨hp, hb⟩, otherPm]
      by_cases hqp : q = port
      · subst hqp
        rw [hmet p hp hpp hb]
        split
        · rename_i hj
          simp [hj]
        · rename_i hj
          simp [hj]
      · rw [← hpairs p hp q hq hpp hqp]
        split
        · simp [hqp]
        · simp [hqp]
    · rw [if_neg (fun hc => hb hc.2)]
      by_cases hqp : q = port
      · subst hqp
        exact iff_of_false (haway p hp hpp hb).1 (haway p hp hpp hb).2
      · exact hpairs p hp q hq hpp hqp

/-- The CPU port stays in a mask, and gets into that of the port itself. -/
theorem UpdateSpec.cpu {s s' : BridgeState} {port : Nat} {bridgeDev : Option Nat} {join : Bool}
    (h : UpdateSpec ports s port bridgeDev join s') (hport : port ∈ ports.userPorts) {p : Nat}
    (hp : p ≠ port → f.cpuPort ∈ (s.ports p).pm) : f.cpuPort ∈ (s'.ports p).pm := by
  by_cases hpp : p = port
  · subst hpp
    exact (h.own _).mpr (.inl rfl)
  · have hne : f.cpuPort ≠ port := Nat.ne_of_gt (ports.user_lt port hport)
    rw [h.other p hpp]
    split
    · rw [otherPm]
      split
      · exact Finset.mem_insert_of_mem (hp hpp)
      · exact Finset.mem_erase.mpr ⟨hne, hp hpp⟩
    · exact hp hpp

/-! ## Calls -/

/-- The driver and the isolation table agree with the bridges. -/
structure IsolationOk (ports : SwitchPorts f) (m : Membership) (s : BridgeState) : Prop where
  bridge : s.bridge = m.bridge
  isolated : ∀ p, (s.ports p).isolated = m.isolated p
  masks : MasksOk ports m s
  cpu : ∀ p ∈ m.updated, f.cpuPort ∈ (s.ports p).pm
  rows : ∀ p, p ≠ f.cpuPort → RowOk f s p

theorem Membership.linked_congr {m m' : Membership} {p q : Nat} (hp : m'.bridge p = m.bridge p)
    (hq : m'.bridge q = m.bridge q) (hip : m'.isolated p = m.isolated p)
    (hiq : m'.isolated q = m.isolated q) : m'.Linked p q ↔ m.Linked p q := by
  unfold Membership.Linked
  rw [hp, hq, hip, hiq]

theorem Membership.not_linked_of_ne {m : Membership} {p q : Nat} (h : m.bridge p ≠ m.bridge q) :
    ¬ m.Linked p q := by
  rintro ⟨-, ⟨b, hp, hq⟩, -⟩
  exact h (hp.trans hq.symm)

/-- Settings of the port that the matrix does not depend on. -/
theorem IsolationOk.congr {m : Membership} {s s' : BridgeState} (h : IsolationOk ports m s)
    (hbridge : s'.bridge = s.bridge) (hiso : ∀ o, (s'.ports o).isolated = (s.ports o).isolated)
    (hpm : ∀ o, (s'.ports o).pm = (s.ports o).pm)
    (hrow : ∀ o, o ≠ f.cpuPort → RowOk f s o → RowOk f s' o) : IsolationOk ports m s' := by
  refine ⟨hbridge.trans h.bridge, fun p => (hiso p).trans (h.isolated p), ?_, ?_, ?_⟩
  · intro p hp q hq
    rw [hpm]
    exact h.masks p hp q hq
  · intro p hp
    rw [hpm]
    exact h.cpu p hp
  · intro p hp
    exact hrow p hp (h.rows p hp)

/-- `rtldsa_update_port_member` puts right what changed at one port of the bridges. -/
theorem IsolationOk.update {m m' : Membership} {s s₁ : BridgeState} (h : IsolationOk ports m s)
    {port : Nat} (hport : port ∈ ports.userPorts) (bridgeDev : Option Nat) (join : Bool)
    (hbridge : s₁.bridge = m'.bridge) (hiso : ∀ o, (s₁.ports o).isolated = m'.isolated o)
    (hpm : ∀ o, (s₁.ports o).pm = (s.ports o).pm) (hrow : ∀ o, RowOk f s o → RowOk f s₁ o)
    (hb : ∀ o, o ≠ port → m'.bridge o = m.bridge o) (hi : ∀ o, o ≠ port → m'.isolated o = m.isolated o)
    (hupdated : m'.updated = insert port m.updated)
    (haway : ∀ p, p ≠ port → m.bridge p ≠ bridgeDev → ¬ m.Linked p port ∧ ¬ m'.Linked p port)
    (hmet : ∀ p, p ≠ port → m.bridge p = bridgeDev →
      (m'.Linked p port ↔ joins s₁ port join p = true)) :
    IsolationOk ports m' (updatePortMember f ports s₁ port bridgeDev join) := by
  have hspec := updatePortMember_spec ports s₁ port bridgeDev join
  have hsame : ∀ o, o ≠ port → s₁.bridge o = m.bridge o := fun o ho => by rw [hbridge, hb o ho]
  refine ⟨hspec.bridge.trans hbridge, fun p => (hspec.isolated p).trans (hiso p), ?_, ?_, ?_⟩
  · apply hspec.masksOk
    · intro p hp q hq hpp hqp
      rw [hpm, h.masks p hp q hq]
      exact (Membership.linked_congr (hb p hpp) (hb q hqp) (hi p hpp) (hi q hqp)).symm
    · intro p hp hpp hne
      rw [hsame p hpp] at hne
      rw [hpm, h.masks p hp port hport]
      exact haway p hpp hne
    · intro p hp hpp heq
      rw [hsame p hpp] at heq
      exact hmet p hpp heq
  · intro p hp
    rw [hupdated] at hp
    apply hspec.cpu hport
    intro hpp
    rw [hpm]
    exact h.cpu p (Finset.mem_of_mem_insert_of_ne hp hpp)
  · intro p hp
    exact hspec.row p (hrow p (h.rows p hp))

theorem setPort_isolated {s : BridgeState} {port : Nat} {p : RtldsaPort}
    (hp : p.isolated = (s.ports port).isolated) (o : Nat) :
    ((s.setPort port p).ports o).isolated = (s.ports o).isolated := by
  by_cases ho : o = port
  · subst ho
    simpa [BridgeState.setPort] using hp
  · simp [BridgeState.setPort, Function.update_of_ne ho]

theorem setPort_pm {s : BridgeState} {port : Nat} {p : RtldsaPort}
    (hp : p.pm = (s.ports port).pm) (o : Nat) :
    ((s.setPort port p).ports o).pm = (s.ports o).pm := by
  by_cases ho : o = port
  · subst ho
    simpa [BridgeState.setPort] using hp
  · simp [BridgeState.setPort, Function.update_of_ne ho]

theorem RowOk.setPort {s : BridgeState} {o : Nat} (h : RowOk f s o) {port : Nat} {p : RtldsaPort}
    (henable : p.enable = (s.ports port).enable) (hpm : p.pm = (s.ports port).pm) :
    RowOk f (s.setPort port p) o := by
  by_cases ho : o = port
  · subst ho
    simpa [RowOk, BridgeState.setPort, henable, hpm] using h
  · simpa [RowOk, BridgeState.setPort, Function.update_of_ne ho] using h

theorem IsolationOk.join {m : Membership} {s : BridgeState} (h : IsolationOk ports m s)
    {port : Nat} (hport : port ∈ ports.userPorts) (hnone : m.bridge port = none) (bridge : Nat)
    (proto : VlanProto) :
    IsolationOk ports (m.step f (.join port bridge proto))
      (bridgeStep f ports s (.join port bridge proto)) := by
  unfold bridgeStep portBridgeJoin Membership.step
  by_cases hrefused : joinRefused f proto = true
  · simp only [hrefused, if_true]
    rw [if_pos (by decide)]
    refine h.congr ?_ (fun _ => rfl) (fun _ => rfl) (fun _ _ hrow => hrow)
    have : s.bridge port = none := by rw [h.bridge, hnone]
    simp [← this]
  · simp only [hrefused, if_false, Bool.false_eq_true]
    rw [if_neg (by simp)]
    apply h.update hport
    · simp [BridgeState.setPort, h.bridge]
    · intro o
      by_cases ho : o = port
      · subst ho
        simp [BridgeState.setPort]
      · simp [BridgeState.setPort, Function.update_of_ne ho, h.isolated]
    · exact setPort_pm (s := { s with bridge := _ }) rfl
    · intro o hrow
      exact RowOk.setPort (s := { s with bridge := _ }) hrow rfl rfl
    · intro o ho
      exact Function.update_of_ne ho _ _
    · intro o ho
      exact Function.update_of_ne ho _ _
    · rfl
    · intro p hp hne
      refine ⟨?_, Membership.not_linked_of_ne ?_⟩
      · rintro ⟨-, ⟨b, -, hb⟩, -⟩
        rw [hnone] at hb
        cases hb
      · simpa [Function.update_of_ne hp] using hne
    · intro p hp heq
      simp [Membership.Linked, joins, BridgeState.setPort, hp, heq]

theorem IsolationOk.leave {m : Membership} {s : BridgeState} (h : IsolationOk ports m s)
    {port : Nat} (hport : port ∈ ports.userPorts) (hbridged : m.bridge port ≠ none) :
    IsolationOk ports (m.step f (.leave port)) (bridgeStep f ports s (.leave port)) := by
  obtain ⟨b, hb⟩ := Option.ne_none_iff_exists'.mp hbridged
  have hsb : s.bridge port = some b := by rw [h.bridge, hb]
  unfold bridgeStep portBridgeLeave
  simp only [hsb]
  have hupdate : IsolationOk ports (m.step f (.leave port)) (updatePortMember f ports
      { s with bridge := Function.update s.bridge port none } port (some b) false) := by
    apply h.update hport
    · simp [Membership.step, h.bridge]
    · exact h.isolated
    · exact fun _ => rfl
    · exact fun _ hrow => hrow
    · intro o ho
      exact Function.update_of_ne ho _ _
    · exact fun _ _ => rfl
    · rfl
    · intro p hp hne
      refine ⟨Membership.not_linked_of_ne (by rwa [hb]), ?_⟩
      rintro ⟨-, ⟨c, -, hc⟩, -⟩
      simp [Membership.step] at hc
    · intro p hp heq
      simp [Membership.Linked, joins, Membership.step]
  apply hupdate.congr
  · rfl
  · exact setPort_isolated rfl
  · exact setPort_pm rfl
  · intro o _ hrow
    exact hrow.setPort rfl rfl

theorem IsolationOk.flags {m : Membership} {s : BridgeState} (h : IsolationOk ports m s)
    {port : Nat} (hport : port ∈ ports.userPorts) (hbridged : m.bridge port ≠ none)
    (mask val : BrFlag → Bool) :
    IsolationOk ports (m.step f (.flags port mask val))
      (bridgeStep f ports s (.flags port mask val)) := by
  obtain ⟨b, hb⟩ := Option.ne_none_iff_exists'.mp hbridged
  unfold bridgeStep portBridgeFlags Membership.step
  dsimp only
  by_cases hmask : mask .isolated = true
  · simp only [hmask, if_true]
    have hsb : s.bridge port = some b := by rw [h.bridge, hb]
    simp only [BridgeState.setPort, Function.update_idem, hsb]
    apply h.update hport
    · exact h.bridge
    · intro o
      simp only [Function.update_apply]
      split
      · rfl
      · exact h.isolated o
    · exact setPort_pm rfl
    · intro o hrow
      exact hrow.setPort rfl rfl
    · exact fun _ _ => rfl
    · intro o ho
      exact Function.update_of_ne ho _ _
    · rfl
    · intro p hp hne
      rw [← hb] at hne
      exact ⟨Membership.not_linked_of_ne hne, Membership.not_linked_of_ne hne⟩
    · intro p hp heq
      -- the two ports are in one bridge, so that only the flags count
      cases hiso : m.isolated p <;>
        simp [Membership.Linked, joins, hp, hb, heq, h.isolated, hiso]
  · simp only [hmask, if_false, Bool.false_eq_true]
    apply h.congr
    · rfl
    · exact setPort_isolated rfl
    · exact setPort_pm rfl
    · intro o _ hrow
      exact hrow.setPort rfl rfl

theorem IsolationOk.enable {m : Membership} {s : BridgeState} (h : IsolationOk ports m s) (port : Nat) :
    IsolationOk ports m (portEnable f s port) := by
  have hset : ∀ o, ((s.setPort port { s.ports port with enable := true }).ports o).isolated =
      (s.ports o).isolated := setPort_isolated rfl
  have hpm : ∀ o, ((s.setPort port { s.ports port with enable := true }).ports o).pm =
      (s.ports o).pm := setPort_pm rfl
  unfold portEnable
  dsimp only
  split
  · rename_i hcpu
    refine h.congr ?_ hset hpm ?_
    · rfl
    intro o ho hrow
    have hne : o ≠ port := fun heq => ho (heq.trans hcpu)
    simpa [RowOk, BridgeState.setPort, Function.update_of_ne hne] using hrow
  · refine h.congr ?_ hset hpm ?_
    · rfl
    intro o ho hrow
    by_cases heq : o = port
    · subst heq
      simp [RowOk, trafficSet, trafficEnable, BridgeState.setPort]
    · simpa [RowOk, trafficSet, trafficEnable, BridgeState.setPort, Function.update_of_ne heq,
        Function.update_of_ne ho] using hrow

theorem IsolationOk.disable {m : Membership} {s : BridgeState} (h : IsolationOk ports m s) (port : Nat) :
    IsolationOk ports m (portDisable f ports s port) := by
  unfold portDisable
  dsimp only
  split
  · exact h
  · refine h.congr rfl (setPort_isolated (s := trafficSet f _ port ∅) rfl)
      (setPort_pm (s := trafficSet f _ port ∅) rfl) ?_
    intro o ho hrow
    by_cases heq : o = port
    · subst heq
      simp [RowOk, BridgeState.setPort]
    · simpa [RowOk, trafficSet, trafficDisable, BridgeState.setPort, Function.update_of_ne heq,
        Function.update_of_ne ho] using hrow

/-- Every call of the DSA core keeps the matrix. -/
theorem IsolationOk.step {m : Membership} {s : BridgeState} (h : IsolationOk ports m s) {c : BridgeCall}
    (hc : c.Made ports m) : IsolationOk ports (m.step f c) (bridgeStep f ports s c) := by
  cases c with
  | join port bridge proto => exact h.join hc.1 hc.2 bridge proto
  | leave port => exact h.leave hc.1 hc.2
  | flags port mask val => exact h.flags hc.1 hc.2 mask val
  | enable port => exact h.enable port
  | disable port => exact h.disable port

/-! ## Runs -/

/-- The DSA core makes each call of the list. -/
def AllMade (ports : SwitchPorts f) : Membership → List BridgeCall → Prop
  | _, [] => True
  | m, c :: calls => c.Made ports m ∧ AllMade ports (m.step f c) calls

theorem IsolationOk.run {m : Membership} {s : BridgeState} (h : IsolationOk ports m s)
    {calls : List BridgeCall} (hcalls : AllMade ports m calls) :
    IsolationOk ports (m.run f calls) (bridgeRun f ports s calls) := by
  induction calls generalizing m s with
  | nil => exact h
  | cons c calls ih => exact ih (h.step hcalls.1) hcalls.2

theorem bridgeSetup_isolationOk (portIso : Nat → PortMask) :
    IsolationOk ports noBridges (bridgeSetup f ports portIso) := by
  refine ⟨rfl, fun _ => rfl, ?_, ?_, ?_⟩
  · intro p hp q hq
    have hne : q ≠ f.cpuPort := Nat.ne_of_lt (ports.user_lt q hq)
    refine iff_of_false ?_ ?_
    · simp only [bridgeSetup]
      split <;> simp [hne]
    · rintro ⟨-, ⟨b, hb, -⟩, -⟩
      cases hb
  · intro p hp
    simp [noBridges] at hp
  · intro p hp henable
    simp [bridgeSetup, hp] at henable

/-- **After every call the masks say which ports share a bridge and are not both isolated, and
the isolation table holds them**, together with the port itself on the RTL839x. -/
theorem bridgeRun_isolation (f : Family) (ports : SwitchPorts f) (portIso : Nat → PortMask)
    (calls : List BridgeCall) (hcalls : AllMade ports noBridges calls) :
    let m := noBridges.run f calls
    let s := bridgeRun f ports (bridgeSetup f ports portIso) calls
    (∀ p ∈ ports.userPorts, ∀ q ∈ ports.userPorts, q ∈ (s.ports p).pm ↔ m.Linked p q) ∧
    (∀ p ∈ m.updated, f.cpuPort ∈ (s.ports p).pm) ∧
    (∀ p ∈ ports.userPorts, ∀ q ∈ ports.userPorts, q ∈ (s.ports p).pm ↔ p ∈ (s.ports q).pm) ∧
    (∀ p ∈ ports.userPorts, (s.ports p).enable = true →
      s.portIso p = if f = .rtl839x then insert p (s.ports p).pm else (s.ports p).pm) := by
  intro m s
  have h : IsolationOk ports m s := (bridgeSetup_isolationOk portIso).run hcalls
  refine ⟨h.masks, h.cpu, ?_, ?_⟩
  · intro p hp q hq
    rw [h.masks p hp q hq, h.masks q hq p hp]
    exact m.linked_comm p q
  · intro p hp
    exact h.rows p (Nat.ne_of_lt (ports.user_lt p hp))

/-- A switch with four user ports. -/
def fourPorts (f : Family) : SwitchPorts f where
  userPorts := [0, 1, 2, 3]
  hasPhy := fun _ => true
  user_lt := by
    intro p hp
    have : p < 4 := by
      simp at hp
      omega
    cases f <;> simp [Family.cpuPort] <;> omega

/-- Three ports join a bridge, two of them become isolated, and the third leaves. -/
def someCalls : List BridgeCall :=
  [.enable 0, .join 0 7 .ethP8021Q, .join 1 7 .ethP8021Q, .join 2 7 .ethP8021Q,
   .flags 0 (fun _ => true) (fun _ => true), .flags 1 (fun _ => true) (fun _ => true), .leave 2, .enable 1]

theorem someCalls_isolation :
    AllMade (fourPorts .rtl930x) noBridges someCalls ∧
      (1 ∈ ((bridgeRun .rtl930x (fourPorts .rtl930x)
        (bridgeSetup .rtl930x (fourPorts .rtl930x) (fun _ => ∅)) someCalls).ports 0).pm ↔
        (noBridges.run .rtl930x someCalls).Linked 0 1) := by
  have hmade : AllMade (fourPorts .rtl930x) noBridges someCalls := by
    simp [AllMade, someCalls, BridgeCall.Made, fourPorts, Membership.step, noBridges, joinRefused]
  refine ⟨hmade, ?_⟩
  exact (bridgeRun_isolation .rtl930x (fourPorts .rtl930x) (fun _ => ∅) someCalls hmade).1
    0 (by simp [fourPorts]) 1 (by simp [fourPorts])

/-- An enabled port of an RTL839x has itself in its row, and not in its mask. -/
theorem enable_rtl839x :
    let s := bridgeRun .rtl839x (fourPorts .rtl839x)
      (bridgeSetup .rtl839x (fourPorts .rtl839x) (fun _ => ∅)) [.enable 0]
    AllMade (fourPorts .rtl839x) noBridges [.enable 0] ∧ 0 ∈ (fourPorts .rtl839x).userPorts ∧
      (s.ports 0).enable = true ∧ (s.ports 0).pm = {52} ∧ s.portIso 0 = {0, 52} ∧
      s.portIso 0 ≠ (s.ports 0).pm := by
  refine ⟨⟨trivial, trivial⟩, ?_⟩
  decide

end Lede.Otto
