/-
Lede.Otto.ShapingTheorems — the registers follow the qdiscs.

`ShapingOk` says which shapers are on and what the scheduler holds. `tbfApply_spec` and
`etsApply_ok` say what the two functions that touch the registers do, and every command keeps
`ShapingOk` by them (`ShapingOk.step`), whatever `egress_shaper_set` refuses.

A shaper that cannot be switched off is a different matter: `otto_tc_tbf_apply` does not look at
that result. `shapingRun_ok` leaves it out.
-/
import Lede.Otto.Shaping

namespace Lede.Otto

variable {token : Nat} {fails : Failures} {s : ShapingPort}

/-! ## One shaper -/

/-- A shaper and the mark of its TBF are set, and nothing else. -/
def setShaper (s : ShapingPort) (id : ShaperId) (sh : Shaper) (offloaded : Bool) : ShapingPort :=
  { s with shaper := Function.update s.shaper id sh,
           tbf := Function.update s.tbf id ((s.tbf id).setOffloaded offloaded) }

/-- Switching on leaves a shaper that is on, or refuses and changes nothing. -/
theorem egressShaperSet_on (token : Nat) (fails : Failures) (s : ShapingPort) (id : ShaperId)
    {rate : Nat} (hrate : rate ≠ 0) (burst : Nat) :
    (∃ sh, sh.enable = true ∧ egressShaperSet token fails s id rate burst =
      (0, { s with shaper := Function.update s.shaper id sh })) ∨
    ((egressShaperSet token fails s id rate burst).1 ≠ 0 ∧
      (egressShaperSet token fails s id rate burst).2 = s) := by
  unfold egressShaperSet
  dsimp only
  rw [if_neg hrate]
  split
  · exact .inr ⟨(by decide : -EINVAL ≠ 0), rfl⟩
  · split
    · exact .inr ⟨(by decide : - EIO ≠ 0), rfl⟩
    · exact .inl ⟨_, rfl, rfl⟩

theorem egressShaperSet_off (token : Nat) {id : ShaperId} (hoff : fails.off id = false)
    (s : ShapingPort) : (egressShaperSet token fails s id 0 0).2 =
      { s with shaper := Function.update s.shaper id { s.shaper id with enable := false } } := by
  simp [egressShaperSet, hoff]

/-- `otto_tc_tbf_apply` marks a TBF only if it may be offloaded and its shaper is on, and
otherwise leaves a shaper that it had switched on switched off. -/
theorem tbfApply_spec (token : Nat) {id : ShaperId} (hoff : fails.off id = false) (s : ShapingPort)
    (allowed : Bool) : ∃ sh o, tbfApply token fails s id allowed = setShaper s id sh o ∧
      (o = true → allowed = true ∧ (s.tbf id).wanted = true ∧ sh.enable = true) ∧
      (o = false → sh = if (s.tbf id).offloaded then { s.shaper id with enable := false } else s.shaper id) := by
  by_cases hwant : allowed = true ∧ (s.tbf id).wanted = true
  · have hrate : (s.tbf id).rateBytesPs ≠ 0 := by
      have := hwant.2
      simp only [Tbf.wanted, Bool.and_eq_true, bne_iff_ne] at this
      exact this.1.2
    obtain ⟨sh, hen, heq⟩ | ⟨herr, hsame⟩ :=
      egressShaperSet_on token fails s id hrate (s.tbf id).burst
    · refine ⟨sh, true, ?_, fun _ => ⟨hwant.1, hwant.2, hen⟩, by simp⟩
      simp [tbfApply, hwant.1, hwant.2, heq, setShaper]
    · have hzero : ((egressShaperSet token fails s id (s.tbf id).rateBytesPs (s.tbf id).burst).1 == 0) =
          false := by simpa using herr
      refine ⟨_, false, ?_, by simp, fun _ => rfl⟩
      cases hofl : (s.tbf id).offloaded <;>
        simp [tbfApply, hwant.1, hwant.2, hzero, hsame, hofl, setShaper, egressShaperSet_off token hoff]
  · have hno : (allowed && (s.tbf id).wanted) = false := by
      simpa using hwant
    refine ⟨_, false, ?_, by simp, fun _ => rfl⟩
    cases hofl : (s.tbf id).offloaded <;>
      simp [tbfApply, hno, hofl, setShaper, egressShaperSet_off token hoff]

/-! ## All queues -/

/-- The shaper of every queue is on exactly if its TBF is marked. -/
def QueuesMarked (s : ShapingPort) : Prop :=
  ∀ q : Fin 8, (s.shaper (some q)).enable = (s.tbf (some q)).offloaded

/-- What a round of `otto_tc_tbf_apply` over some queues leaves as it was. -/
structure SameQdiscs (s s' : ShapingPort) : Prop where
  police : s'.ratePoliceEgress = s.ratePoliceEgress
  etsHandle : s'.etsHandle = s.etsHandle
  etsChildren : s'.etsChildren = s.etsChildren
  etsOffloadable : s'.etsOffloadable = s.etsOffloadable
  etsWeights : s'.etsWeights = s.etsWeights
  root : s'.tbf none = s.tbf none
  rootShaper : s'.shaper none = s.shaper none
  wanted : ∀ id, (s'.tbf id).wanted = (s.tbf id).wanted
  handle : ∀ id, (s'.tbf id).handle = (s.tbf id).handle

theorem SameQdiscs.rfl (s : ShapingPort) : SameQdiscs s s :=
  ⟨Eq.refl _, Eq.refl _, Eq.refl _, Eq.refl _, Eq.refl _, Eq.refl _, Eq.refl _, fun _ => Eq.refl _,
    fun _ => Eq.refl _⟩

theorem SameQdiscs.trans {a b c : ShapingPort} (h : SameQdiscs a b) (k : SameQdiscs b c) :
    SameQdiscs a c where
  police := k.police.trans h.police
  etsHandle := k.etsHandle.trans h.etsHandle
  etsChildren := k.etsChildren.trans h.etsChildren
  etsOffloadable := k.etsOffloadable.trans h.etsOffloadable
  etsWeights := k.etsWeights.trans h.etsWeights
  root := k.root.trans h.root
  rootShaper := k.rootShaper.trans h.rootShaper
  wanted := fun id => (k.wanted id).trans (h.wanted id)
  handle := fun id => (k.handle id).trans (h.handle id)

theorem setShaper_sameQdiscs (s : ShapingPort) (q : Fin 8) (sh : Shaper) (o : Bool) :
    SameQdiscs s (setShaper s (some q) sh o) := by
  refine ⟨Eq.refl _, Eq.refl _, Eq.refl _, Eq.refl _, Eq.refl _, ?_, ?_, ?_, ?_⟩
  · simp [setShaper]
  · simp [setShaper]
  · intro id
    by_cases hid : id = some q
    · subst hid
      simp [setShaper, Tbf.setOffloaded, Tbf.wanted]
    · simp [setShaper, Function.update_of_ne hid]
  · intro id
    by_cases hid : id = some q
    · subst hid
      simp [setShaper, Tbf.setOffloaded]
    · simp [setShaper, Function.update_of_ne hid]

/-- A round over the queues of a list. -/
structure RoundSpec (allowed : Bool) (l : List (Fin 8)) (s s' : ShapingPort) : Prop where
  same : SameQdiscs s s'
  marked : QueuesMarked s'
  offloaded : ∀ q ∈ l, (s'.tbf (some q)).offloaded = true → allowed = true ∧ (s.tbf (some q)).wanted = true

/-- One more queue: it is put right, and no other queue is touched. -/
theorem RoundSpec.snoc {allowed : Bool} {l : List (Fin 8)} {s' : ShapingPort}
    (h : RoundSpec allowed l s s') {x : Fin 8} (hoff : fails.off (some x) = false) :
    RoundSpec allowed (l ++ [x]) s (tbfApply token fails s' (some x) allowed) := by
  obtain ⟨sh, o, heq, hon, hout⟩ := tbfApply_spec token hoff s' allowed
  rw [heq]
  refine ⟨h.same.trans (setShaper_sameQdiscs s' x sh o), ?_, ?_⟩
  · intro q
    by_cases hq : q = x
    · subst hq
      have hmark := h.marked q
      cases o with
      | true => simp [setShaper, Tbf.setOffloaded, (hon rfl).2.2]
      | false =>
        cases hofl : (s'.tbf (some q)).offloaded with
        | true => simp [setShaper, Tbf.setOffloaded, hout rfl, hofl]
        | false => simp [setShaper, Tbf.setOffloaded, hout rfl, hofl, hmark]
    · simpa [setShaper, hq] using h.marked q
  · intro q hq hofl
    by_cases hqx : q = x
    · subst hqx
      have ho : o = true := by simpa [setShaper, Tbf.setOffloaded] using hofl
      rw [← h.same.wanted]
      exact ⟨(hon ho).1, (hon ho).2.1⟩
    · have hl : q ∈ l := by simpa [hqx] using hq
      refine h.offloaded q hl ?_
      simpa [setShaper, hqx] using hofl

theorem foldl_roundSpec (token : Nat) (hoff : ∀ id, fails.off id = false) (hmarked : QueuesMarked s)
    (allowed : Bool) (l : List (Fin 8)) :
    RoundSpec allowed l s (l.foldl (fun s q => tbfApply token fails s (some q) allowed) s) := by
  induction l using List.reverseRecOn with
  | nil => exact ⟨SameQdiscs.rfl s, hmarked, by simp⟩
  | append_singleton l x ih =>
    rw [List.foldl_append]
    exact ih.snoc (hoff (some x))

/-! ## The scheduler -/

/-- What the scheduler holds for a queue of the ETS qdisc: its weight, or strict priority. -/
def etsSched (w : Weight) : QueueSched := if w ≠ 0 then ⟨w, false⟩ else ⟨1, true⟩

theorem foldl_sched (g : Fin 8 → QueueSched) (s : ShapingPort) (l : List (Fin 8)) :
    l.foldl (fun s q => { s with sched := Function.update s.sched q (g q) }) s =
      { s with sched := fun q => if q ∈ l then g q else s.sched q } := by
  induction l using List.reverseRecOn with
  | nil => simp
  | append_singleton l x ih =>
    rw [List.foldl_append, ih]
    simp only [List.foldl_cons, List.foldl_nil, ShapingPort.mk.injEq, true_and]
    funext q
    by_cases hq : q = x
    · subst hq
      simp
    · simp [hq]

theorem queueSchedReset_eq (s : ShapingPort) :
    queueSchedReset s = { s with sched := fun _ => ⟨1, false⟩ } := by
  have h := foldl_sched (fun _ => ⟨1, false⟩) s (List.finRange 8)
  simpa [queueSchedReset, queueSchedSet] using h

theorem etsSchedSet_eq (s : ShapingPort) (q : Fin 8) :
    etsSchedSet s q = { s with sched := Function.update s.sched q (etsSched (s.etsWeights q)) } := by
  have hlt : (s.etsWeights q : Nat) % 128 = s.etsWeights q := by omega
  unfold etsSchedSet etsSched queueSchedSet
  split
  · simp [hlt]
  · simp

theorem foldl_etsSchedSet (s : ShapingPort) :
    (List.finRange 8).foldl etsSchedSet s =
      { s with sched := fun q => etsSched (s.etsWeights q) } := by
  have hfold : ∀ l : List (Fin 8), ∀ t : ShapingPort, t.etsWeights = s.etsWeights →
      l.foldl etsSchedSet t =
        l.foldl (fun t q => { t with sched := Function.update t.sched q (etsSched (s.etsWeights q)) }) t := by
    intro l
    induction l with
    | nil => exact fun _ _ => rfl
    | cons x l ih =>
      intro t ht
      rw [List.foldl_cons, List.foldl_cons, etsSchedSet_eq, ht]
      exact ih _ rfl
  rw [hfold _ s rfl, foldl_sched (fun q => etsSched (s.etsWeights q))]
  simp

/-! ## `otto_tc_ets_apply` -/

theorem etsOffloaded_iff (s : ShapingPort) :
    etsOffloaded s = true ↔ s.etsOffloadable = true ∧ s.etsChildren = ∅ ∧
      ∀ q : Fin 8, (s.tbf (some q)).handle ≠ 0 → (s.tbf (some q)).offloaded = true := by
  simp [etsOffloaded, and_assoc, or_iff_not_imp_left]

/-- The queues and the scheduler are in line with the ETS qdisc and its TBFs. -/
structure QueuesOk (s : ShapingPort) : Prop where
  marked : QueuesMarked s
  wanted : ∀ q : Fin 8, (s.tbf (some q)).offloaded = true →
    etsOffloaded s = true ∧ (s.tbf (some q)).wanted = true
  schedEts : etsOffloaded s = true → ∀ q, s.sched q = etsSched (s.etsWeights q)
  schedReset : etsOffloaded s = false → ∀ q, s.sched q = ⟨1, false⟩

theorem SameQdiscs.sched (h : SameQdiscs s s') (sched : Fin 8 → QueueSched) :
    SameQdiscs s { s' with sched := sched } :=
  ⟨h.police, h.etsHandle, h.etsChildren, h.etsOffloadable, h.etsWeights, h.root, h.rootShaper,
    h.wanted, h.handle⟩

theorem etsApply_ok (token : Nat) (hoff : ∀ id, fails.off id = false) (hmarked : QueuesMarked s) :
    QueuesOk (etsApply token fails s) ∧ SameQdiscs s (etsApply token fails s) := by
  have h₁ := foldl_roundSpec token hoff hmarked (s.etsOffloadable && decide (s.etsChildren = ∅))
    (List.finRange 8)
  have happly : etsApply token fails s =
      let t := (List.finRange 8).foldl (fun t q => tbfApply token fails t (some q)
        (s.etsOffloadable && decide (s.etsChildren = ∅))) s
      if etsOffloaded t then (List.finRange 8).foldl etsSchedSet t
      else queueSchedReset
        ((List.finRange 8).foldl (fun t q => tbfApply token fails t (some q) false) t) := rfl
  rw [happly]
  generalize (List.finRange 8).foldl (fun t q => tbfApply token fails t (some q)
    (s.etsOffloadable && decide (s.etsChildren = ∅))) s = t at h₁
  dsimp only
  by_cases hets : etsOffloaded t = true
  · rw [if_pos hets, foldl_etsSchedSet]
    refine ⟨⟨h₁.marked, ?_, fun _ _ => rfl, ?_⟩, h₁.same.sched _⟩
    · intro q hq
      refine ⟨hets, ?_⟩
      exact (h₁.same.wanted (some q)).trans (h₁.offloaded q (List.mem_finRange q) hq).2
    · intro hno
      have hno : etsOffloaded t = false := hno
      rw [hets] at hno
      cases hno
  · -- a TBF stayed out, so that all of them go
    rw [if_neg hets, queueSchedReset_eq]
    have h₂ := foldl_roundSpec token hoff h₁.marked false (List.finRange 8)
    generalize (List.finRange 8).foldl (fun t q => tbfApply token fails t (some q) false) t = u at h₂
    have hnone : ∀ q : Fin 8, (u.tbf (some q)).offloaded = false := by
      intro q
      cases hq : (u.tbf (some q)).offloaded with
      | false => rfl
      | true => exact absurd (h₂.offloaded q (List.mem_finRange q) hq).1 (by decide)
    have hno : etsOffloaded u = false := by
      rw [Bool.eq_false_iff]
      intro hu
      obtain ⟨hable, hchildren, htbfs⟩ := (etsOffloaded_iff u).mp hu
      apply hets
      rw [etsOffloaded_iff]
      refine ⟨h₂.same.etsOffloadable ▸ hable, h₂.same.etsChildren ▸ hchildren, fun q hq => ?_⟩
      have := htbfs q (by rw [h₂.same.handle]; exact hq)
      rw [hnone q] at this
      cases this
    refine ⟨⟨h₂.marked, ?_, ?_, fun _ _ => rfl⟩, (h₁.same.trans h₂.same).sched _⟩
    · intro q hq
      have hq : (u.tbf (some q)).offloaded = true := hq
      rw [hnone q] at hq
      cases hq
    · intro hu
      have hu : etsOffloaded u = true := hu
      rw [hno] at hu
      cases hu

/-! ## Commands -/

/-- What is said of the shaper of the port. -/
structure PortOk (s : ShapingPort) : Prop where
  portShaper : (s.shaper none).enable = true ↔ (s.tbf none).offloaded = true ∨ s.ratePoliceEgress ≠ 0
  notBoth : ¬ ((s.tbf none).offloaded = true ∧ s.ratePoliceEgress ≠ 0)
  rootWanted : (s.tbf none).offloaded = true → (s.tbf none).wanted = true

/-- What the registers of a port hold. -/
structure ShapingOk (s : ShapingPort) : Prop extends QueuesOk s, PortOk s

theorem QueuesOk.shapingOk (h : QueuesOk s) (k : PortOk s) : ShapingOk s := ⟨h, k⟩

theorem PortOk.congr {s s' : ShapingPort} (h : PortOk s) (htbf : s'.tbf none = s.tbf none)
    (hshaper : s'.shaper none = s.shaper none) (hpolice : s'.ratePoliceEgress = s.ratePoliceEgress) :
    PortOk s' := by
  refine ⟨?_, ?_, ?_⟩
  · rw [hshaper, htbf, hpolice]
    exact h.portShaper
  · rw [htbf, hpolice]
    exact h.notBoth
  · rw [htbf]
    exact h.rootWanted

/-- `otto_tc_ets_apply` on a state in which only the qdiscs changed. -/
theorem ShapingOk.etsApply (h : ShapingOk s) (token : Nat) (hoff : ∀ id, fails.off id = false)
    {t : ShapingPort} (hmarked : QueuesMarked t) (htbf : t.tbf none = s.tbf none)
    (hshaper : t.shaper none = s.shaper none) (hpolice : t.ratePoliceEgress = s.ratePoliceEgress) :
    ShapingOk (etsApply token fails t) := by
  obtain ⟨hqueues, hsame⟩ := etsApply_ok token hoff hmarked
  refine hqueues.shapingOk (h.toPortOk.congr ?_ ?_ ?_)
  · rw [hsame.root, htbf]
  · rw [hsame.rootShaper, hshaper]
  · rw [hsame.police, hpolice]

theorem ShapingOk.etsFinish (h : ShapingOk s) (token : Nat) (hoff : ∀ id, fails.off id = false)
    (oldHandle : UInt32) (destroy : Bool) {t : ShapingPort} (htbf : t.tbf = s.tbf)
    (hshaper : t.shaper = s.shaper) (hpolice : t.ratePoliceEgress = s.ratePoliceEgress) :
    ShapingOk (etsFinish token fails oldHandle destroy t).2 := by
  unfold Otto.etsFinish
  dsimp only
  split
  · apply h.etsApply token hoff
    · intro q
      simpa [forgetQueueTbfs, htbf, hshaper] using h.marked q
    · simp [forgetQueueTbfs, htbf]
    · simp [forgetQueueTbfs, hshaper]
    · simpa [forgetQueueTbfs] using hpolice
  · apply h.etsApply token hoff
    · intro q
      simpa [htbf, hshaper] using h.marked q
    · rw [htbf]
    · rw [hshaper]
    · exact hpolice

theorem ShapingOk.setupQdiscEts (h : ShapingOk s) (f : Family) (token : Nat)
    (hoff : ∀ id, fails.off id = false) (handle parent : UInt32) (command : EtsCommand) :
    ShapingOk (setupQdiscEts f token fails s handle parent command).2 := by
  unfold Otto.setupQdiscEts
  split
  · exact h
  cases command with
  | replace p => exact h.etsFinish token hoff _ _ rfl rfl rfl
  | destroy =>
    dsimp only
    split
    · exact h
    · exact h.etsFinish token hoff _ _ rfl rfl rfl
  | stats =>
    dsimp only
    split
    · exact h
    · exact h
  | graft band child =>
    dsimp only
    split
    · exact h
    · exact h.etsFinish token hoff _ _ rfl rfl rfl
  | other => exact h

/-- `otto_tc_tbf_apply` for the shaper of the port, which is not that of a police. -/
theorem tbfApply_portOk (token : Nat) (hoff : ∀ id, fails.off id = false) {allowed : Bool}
    (henable : (s.shaper none).enable = true ↔ (s.tbf none).offloaded = true ∨ s.ratePoliceEgress ≠ 0)
    (hnot : ¬ ((s.tbf none).offloaded = true ∧ s.ratePoliceEgress ≠ 0))
    (hallowed : allowed = true → s.ratePoliceEgress = 0) :
    PortOk (tbfApply token fails s none allowed) := by
  obtain ⟨sh, o, heq, hon, hout⟩ := tbfApply_spec token (hoff none) s allowed
  rw [heq]
  cases o with
  | true =>
    obtain ⟨ha, hwant, hen⟩ := hon rfl
    refine ⟨?_, ?_, ?_⟩
    · simp [setShaper, Tbf.setOffloaded, hen]
    · simp [setShaper, hallowed ha]
    · simpa [setShaper, Tbf.setOffloaded, Tbf.wanted] using hwant
  | false =>
    refine ⟨?_, by simp [setShaper, Tbf.setOffloaded], by simp [setShaper, Tbf.setOffloaded]⟩
    cases hofl : (s.tbf none).offloaded with
    | true =>
      have hpolice : s.ratePoliceEgress = 0 := by
        by_contra hne
        exact hnot ⟨hofl, hne⟩
      simp [setShaper, Tbf.setOffloaded, hout rfl, hofl, hpolice]
    | false => simp [setShaper, Tbf.setOffloaded, hout rfl, hofl, henable]

/-- A change of the root TBF says nothing about the queues. -/
theorem QueuesOk.congr_root {s t : ShapingPort} (h : QueuesOk s)
    (htbf : ∀ q : Fin 8, t.tbf (some q) = s.tbf (some q))
    (hshaper : ∀ q : Fin 8, t.shaper (some q) = s.shaper (some q)) (hsched : t.sched = s.sched)
    (hable : t.etsOffloadable = s.etsOffloadable) (hchildren : t.etsChildren = s.etsChildren)
    (hweights : t.etsWeights = s.etsWeights) : QueuesOk t := by
  have hets : etsOffloaded t = etsOffloaded s := by
    simp [etsOffloaded, htbf, hable, hchildren]
  refine ⟨?_, ?_, ?_, ?_⟩
  · intro q
    rw [hshaper, htbf]
    exact h.marked q
  · intro q
    rw [hets, htbf]
    exact h.wanted q
  · rw [hets, hsched, hweights]
    exact h.schedEts
  · rw [hets, hsched]
    exact h.schedReset

theorem tbfApply_none_queues (token : Nat) (hoff : ∀ id, fails.off id = false) (allowed : Bool)
    (h : QueuesOk s) : QueuesOk (tbfApply token fails s none allowed) := by
  obtain ⟨sh, o, heq, -⟩ := tbfApply_spec token (hoff none) s allowed
  rw [heq]
  apply h.congr_root
  · intro q
    simp [setShaper]
  · intro q
    simp [setShaper]
  all_goals rfl

/-- The end of a TBF command keeps the registers right if the marks are as they were. -/
theorem ShapingOk.tbfFinish (h : ShapingOk s) (token : Nat) (hoff : ∀ id, fails.off id = false)
    (id : ShaperId) (destroy : Bool) {tbf : Tbf} (htbf : tbf.offloaded = (s.tbf id).offloaded) :
    ShapingOk (tbfFinish token fails id destroy (s.setTbf id tbf)).2 := by
  unfold Otto.tbfFinish
  cases id with
  | none =>
    dsimp only
    have hqueues : QueuesOk (s.setTbf none tbf) := by
      apply h.toQueuesOk.congr_root
      · intro q
        simp [ShapingPort.setTbf]
      all_goals intros; rfl
    refine (tbfApply_none_queues token hoff _ hqueues).shapingOk (tbfApply_portOk token hoff ?_ ?_ ?_)
    · simpa [ShapingPort.setTbf, htbf] using h.portShaper
    · simpa [ShapingPort.setTbf, htbf] using h.notBoth
    · simp [ShapingPort.setTbf]
  | some q =>
    dsimp only
    apply h.etsApply token hoff
    · intro p
      by_cases hp : p = q
      · subst hp
        simpa [ShapingPort.setTbf, htbf] using h.marked p
      · simpa [ShapingPort.setTbf, hp] using h.marked p
    · simp [ShapingPort.setTbf]
    · rfl
    · rfl

theorem ShapingOk.setupQdiscTbf (h : ShapingOk s) (f : Family) (token : Nat)
    (hoff : ∀ id, fails.off id = false) (handle parent : UInt32) (command : TbfCommand) :
    ShapingOk (setupQdiscTbf f token fails s handle parent command).2 := by
  unfold Otto.setupQdiscTbf
  split
  · exact h
  split
  · exact h
  rename_i id _
  cases command with
  | replace p => exact h.tbfFinish token hoff id _ rfl
  | destroy =>
    dsimp only
    split
    · exact h
    · exact h.tbfFinish token hoff id _ rfl
  | stats => exact h
  | graft =>
    dsimp only
    split
    · exact h
    · exact h.tbfFinish token hoff id _ rfl
  | other => exact h

theorem ShapingOk.policeAdd (h : ShapingOk s) (f : Family) {cookie : Nat} (hcookie : cookie ≠ 0)
    (rate burst : Nat) : ShapingOk (policeAdd f s cookie rate burst).2 := by
  unfold Otto.policeAdd
  split
  · exact h
  split
  · exact h
  rename_i hfree
  -- a TBF without a handle is not in the shaper
  have hhandle : (s.tbf none).handle = 0 := by
    simp only [Bool.or_eq_true, decide_eq_true_eq, not_or, not_not] at hfree
    exact hfree.2
  have hroot : (s.tbf none).offloaded = false := by
    cases hofl : (s.tbf none).offloaded with
    | false => rfl
    | true =>
      have := h.rootWanted hofl
      simp [Tbf.wanted, hhandle] at this
  refine QueuesOk.shapingOk ?_ ⟨?_, ?_, ?_⟩
  · apply h.toQueuesOk.congr_root
    · exact fun _ => rfl
    · intro q
      simp
    all_goals rfl
  · simp [hcookie]
  · simp [hroot]
  · simp [hroot]

theorem ShapingOk.policeDel (h : ShapingOk s) (f : Family) (token : Nat)
    (hoff : ∀ id, fails.off id = false) {cookie : Nat} (hcookie : cookie ≠ 0) :
    ShapingOk (policeDel f token fails s cookie).2 := by
  unfold Otto.policeDel
  split
  · exact h
  split
  · exact h
  rename_i heq
  have hpolice : s.ratePoliceEgress ≠ 0 := by
    rw [not_not] at heq
    rwa [heq]
  have hroot : (s.tbf none).offloaded = false := by
    cases hofl : (s.tbf none).offloaded with
    | false => rfl
    | true => exact absurd ⟨hofl, hpolice⟩ h.notBoth
  dsimp only
  refine (tbfApply_none_queues token hoff _ ?_).shapingOk (tbfApply_portOk token hoff ?_ ?_ ?_)
  · apply h.toQueuesOk.congr_root
    · exact fun _ => rfl
    · intro q
      simp
    all_goals rfl
  · simp [hroot]
  · simp
  · simp

/-- Every command keeps the registers right. -/
theorem ShapingOk.step (h : ShapingOk s) (f : Family) (token : Nat)
    (hoff : ∀ id, fails.off id = false) (c : ShapingCommand) :
    ShapingOk (shapingStep f token s c fails).2 := by
  cases c with
  | ets handle parent command => exact h.setupQdiscEts f token hoff handle parent command
  | tbf handle parent command => exact h.setupQdiscTbf f token hoff handle parent command
  | policeAdd cookie rate burst => exact h.policeAdd f cookie.2 rate burst
  | policeDel cookie => exact h.policeDel f token hoff cookie.2

/-! ## Replacing a qdisc -/

/-- A family without shapers takes no qdisc. -/
def Untouched (f : Family) (s : ShapingPort) : Prop :=
  f.hasShaper = false → s.etsOffloadable = false ∧
    ∀ id, (s.tbf id).handle = 0 ∧ (s.tbf id).offloaded = false

theorem Untouched.step {f : Family} (h : Untouched f s) (token : Nat)
    (hoff : ∀ id, fails.off id = false) (c : ShapingCommand) :
    Untouched f (shapingStep f token s c fails).2 := by
  intro hf
  obtain ⟨hable, htbf⟩ := h hf
  cases c with
  | ets handle parent command =>
    simp only [shapingStep, setupQdiscEts, hf]
    exact ⟨hable, htbf⟩
  | tbf handle parent command =>
    simp only [shapingStep, setupQdiscTbf, hf]
    exact ⟨hable, htbf⟩
  | policeAdd cookie rate burst =>
    unfold shapingStep policeAdd
    dsimp only
    split
    · exact ⟨hable, htbf⟩
    split
    · exact ⟨hable, htbf⟩
    · exact ⟨hable, htbf⟩
  | policeDel cookie =>
    unfold shapingStep policeDel
    dsimp only
    split
    · exact ⟨hable, htbf⟩
    split
    · exact ⟨hable, htbf⟩
    · generalize hs : ({ s with shaper := _, ratePoliceEgress := 0 } : ShapingPort) = t
      have hroot : t.tbf = s.tbf := by rw [← hs]
      obtain ⟨sh, o, heq, hon, -⟩ := tbfApply_spec token (hoff none) t true
      rw [heq]
      have ho : o = false := by
        cases o with
        | false => rfl
        | true =>
          have := (hon rfl).2.1
          simp [Tbf.wanted, hroot, (htbf none).1] at this
      refine ⟨by rw [← hs]; exact hable, fun id => ?_⟩
      by_cases hid : id = none
      · subst hid
        simp [setShaper, Tbf.setOffloaded, hroot, (htbf none).1, ho]
      · simpa [setShaper, Function.update_of_ne hid, hroot] using htbf id

/-- The qdisc that a replace names is in the hardware afterwards exactly if it returns 0. -/
def ReplaceLaw (s : ShapingPort) (c : ShapingCommand) (r : Int × ShapingPort) : Prop :=
  match c with
  | .ets handle parent (.replace _) =>
    r.1 = 0 ↔ parent = tcHRoot ∧ r.2.etsHandle = handle ∧ etsOffloaded r.2 = true
  | .tbf handle parent (.replace _) =>
    r.1 = 0 ↔ ∃ id, tbfTarget s parent = some id ∧ (r.2.tbf id).handle = handle ∧
      (r.2.tbf id).offloaded = true
  | _ => True

theorem ShapingOk.etsFinish_replace (h : ShapingOk s) (token : Nat) (hoff : ∀ id, fails.off id = false)
    (oldHandle : UInt32) {t : ShapingPort} (htbf : t.tbf = s.tbf) (hshaper : t.shaper = s.shaper) :
    ((Otto.etsFinish token fails oldHandle false t).1 = 0 ↔
      etsOffloaded (Otto.etsFinish token fails oldHandle false t).2 = true) ∧
    (Otto.etsFinish token fails oldHandle false t).2.etsHandle = t.etsHandle := by
  have hmarked : QueuesMarked (if t.etsHandle ≠ oldHandle then forgetQueueTbfs t else t) := by
    intro q
    split
    · simpa [forgetQueueTbfs, htbf, hshaper] using h.marked q
    · simpa [htbf, hshaper] using h.marked q
  have hsame := (etsApply_ok token hoff hmarked).2
  unfold Otto.etsFinish
  dsimp only
  refine ⟨?_, ?_⟩
  · cases etsOffloaded (Otto.etsApply token fails (if t.etsHandle ≠ oldHandle then forgetQueueTbfs t else t)) <;>
      simp [EOPNOTSUPP]
  · rw [hsame.etsHandle]
    split
    · rfl
    · rfl

theorem ShapingOk.tbfFinish_replace (h : ShapingOk s) (token : Nat) (hoff : ∀ id, fails.off id = false)
    (id : ShaperId) {tbf : Tbf} (htbf : tbf.offloaded = (s.tbf id).offloaded) :
    ((Otto.tbfFinish token fails id false (s.setTbf id tbf)).1 = 0 ↔
      ((Otto.tbfFinish token fails id false (s.setTbf id tbf)).2.tbf id).offloaded = true) ∧
    ((Otto.tbfFinish token fails id false (s.setTbf id tbf)).2.tbf id).handle = tbf.handle := by
  unfold Otto.tbfFinish
  dsimp only
  constructor
  · split <;> simp_all [EOPNOTSUPP]
  cases id with
  | none =>
    obtain ⟨sh, o, heq, -⟩ := tbfApply_spec token (hoff none) (s.setTbf none tbf)
      ((s.setTbf none tbf).ratePoliceEgress == 0)
    dsimp only
    rw [heq]
    simp [setShaper, ShapingPort.setTbf, Tbf.setOffloaded]
  | some q =>
    have hmarked : QueuesMarked (s.setTbf (some q) tbf) := by
      intro p
      by_cases hp : p = q
      · subst hp
        simpa [ShapingPort.setTbf, htbf] using h.marked p
      · simpa [ShapingPort.setTbf, hp] using h.marked p
    rw [(etsApply_ok token hoff hmarked).2.handle]
    simp [ShapingPort.setTbf]

theorem setupQdiscEts_replace {f : Family} (hf : f.hasShaper = true) (token : Nat) (fails : Failures)
    (s : ShapingPort) (handle : UInt32) (p : EtsReplace) :
    ∃ t, (t.tbf = s.tbf ∧ t.shaper = s.shaper ∧ t.etsHandle = handle) ∧
      setupQdiscEts f token fails s handle tcHRoot (.replace p) =
        etsFinish token fails s.etsHandle false t := by
  let r := etsBands p 8 (p.bands == 8) s.etsWeights
  let children := (if s.etsHandle ≠ handle then ∅ else s.etsChildren).filter (· < p.bands)
  refine ⟨⟨s.ratePoliceEgress, handle, children, r.1, r.2, s.tbf, s.shaper, s.sched⟩, ⟨rfl, rfl, rfl⟩, ?_⟩
  simp [setupQdiscEts, hf, r, children]

theorem setupQdiscTbf_replace {f : Family} (hf : f.hasShaper = true) (token : Nat) (fails : Failures)
    {s : ShapingPort} {parent : UInt32} {id : ShaperId} (hid : tbfTarget s parent = some id)
    (handle : UInt32) (p : TbfReplace) :
    ∃ tbf, (tbf.offloaded = (s.tbf id).offloaded ∧ tbf.handle = handle) ∧
      setupQdiscTbf f token fails s handle parent (.replace p) =
        tbfFinish token fails id false (s.setTbf id tbf) := by
  let rate := if p.overhead ≠ 0 || p.mpu ≠ 0 || p.linklayerAtm then 0 else p.rateBytesPs
  let child := if (s.tbf id).handle ≠ handle then false else (s.tbf id).child
  refine ⟨⟨handle, rate, p.maxSize, child, (s.tbf id).offloaded⟩, ⟨rfl, rfl⟩, ?_⟩
  simp [setupQdiscTbf, hf, hid, rate, child]

theorem ShapingOk.replaceLaw (h : ShapingOk s) {f : Family} (hf : Untouched f s) (token : Nat)
    (hoff : ∀ id, fails.off id = false) (c : ShapingCommand) :
    ReplaceLaw s c (shapingStep f token s c fails) := by
  cases c with
  | policeAdd cookie rate burst => trivial
  | policeDel cookie => trivial
  | ets handle parent command =>
    cases command with
    | destroy => trivial
    | stats => trivial
    | graft band child => trivial
    | other => trivial
    | replace p =>
      show (Otto.setupQdiscEts f token fails s handle parent (.replace p)).1 = 0 ↔ parent = tcHRoot ∧
        (Otto.setupQdiscEts f token fails s handle parent (.replace p)).2.etsHandle = handle ∧
        etsOffloaded (Otto.setupQdiscEts f token fails s handle parent (.replace p)).2 = true
      by_cases hshaper : f.hasShaper = true
      · by_cases hparent : parent = tcHRoot
        · subst hparent
          obtain ⟨t, ⟨htbf, hsh, hhandle⟩, heq⟩ := setupQdiscEts_replace hshaper token fails s handle p
          obtain ⟨hret, hkept⟩ := h.etsFinish_replace token hoff s.etsHandle htbf hsh
          rw [heq, hret, hkept, hhandle]
          simp
        · simp [Otto.setupQdiscEts, hparent, EOPNOTSUPP]
      · have hable := (hf (by simpa using hshaper)).1
        simp [Otto.setupQdiscEts, hshaper, EOPNOTSUPP, etsOffloaded_iff, hable]
  | tbf handle parent command =>
    cases command with
    | destroy => trivial
    | stats => trivial
    | graft => trivial
    | other => trivial
    | replace p =>
      show (Otto.setupQdiscTbf f token fails s handle parent (.replace p)).1 = 0 ↔
        ∃ id, tbfTarget s parent = some id ∧
          ((Otto.setupQdiscTbf f token fails s handle parent (.replace p)).2.tbf id).handle = handle ∧
          ((Otto.setupQdiscTbf f token fails s handle parent (.replace p)).2.tbf id).offloaded = true
      by_cases hshaper : f.hasShaper = true
      · cases htarget : tbfTarget s parent with
        | none => simp [Otto.setupQdiscTbf, hshaper, htarget, EOPNOTSUPP]
        | some id =>
          obtain ⟨tbf, ⟨hofl, hhandle⟩, heq⟩ :=
            setupQdiscTbf_replace hshaper token fails htarget handle p
          obtain ⟨hret, hkept⟩ := h.tbfFinish_replace token hoff id hofl
          rw [heq, hret]
          constructor
          · intro hon
            exact ⟨id, rfl, hkept.trans hhandle, hon⟩
          · rintro ⟨_, hid, -, hon⟩
            cases hid
            exact hon
      · have htbf := (hf (by simpa using hshaper)).2
        simp [Otto.setupQdiscTbf, hshaper, EOPNOTSUPP, htbf]

/-! ## Runs -/

theorem shapingInit_ok (shaper : ShaperId → Shaper) : ShapingOk (shapingInit shaper) := by
  have hets : etsOffloaded (shapingInit shaper) = false := by
    simp [etsOffloaded, shapingInit]
  refine QueuesOk.shapingOk ⟨fun _ => rfl, ?_, ?_, fun _ _ => rfl⟩ ⟨?_, ?_, ?_⟩
  · intro q hq
    cases hq
  · intro hon
    rw [hets] at hon
    cases hon
  · simp [shapingInit]
  · simp [shapingInit]
  · intro hq
    cases hq

theorem ShapingOk.run {f : Family} (h : ShapingOk s) (hf : Untouched f s) (token : Nat)
    {commands : List (ShapingCommand × Failures)}
    (hoff : ∀ c ∈ commands, ∀ id, c.2.off id = false) :
    ShapingOk (shapingRun f token s commands) ∧ Untouched f (shapingRun f token s commands) := by
  induction commands generalizing s with
  | nil => exact ⟨h, hf⟩
  | cons c commands ih =>
    have hc := hoff c List.mem_cons_self
    exact ih (h.step f token hc c.1) (hf.step token hc c.1)
      (fun d hd => hoff d (List.mem_cons_of_mem c hd))

/-- **The registers of a port after every run in which no shaper refuses to be switched off**, and
the answer to a replace that is next. -/
theorem shapingRun_ok (f : Family) (token : Nat) (shaper : ShaperId → Shaper)
    (commands : List (ShapingCommand × Failures))
    (hoff : ∀ c ∈ commands, ∀ id, c.2.off id = false) :
    let s := shapingRun f token (shapingInit shaper) commands
    ((s.shaper none).enable = true ↔ (s.tbf none).offloaded = true ∨ s.ratePoliceEgress ≠ 0) ∧
    ¬ ((s.tbf none).offloaded = true ∧ s.ratePoliceEgress ≠ 0) ∧
    (∀ q : Fin 8, (s.shaper (some q)).enable = true ↔ (s.tbf (some q)).offloaded = true) ∧
    (∀ q : Fin 8, (s.tbf (some q)).offloaded = true → etsOffloaded s = true ∧
      (s.tbf (some q)).handle ≠ 0 ∧ (s.tbf (some q)).rateBytesPs ≠ 0 ∧ (s.tbf (some q)).child = false) ∧
    (∀ q, s.sched q = if etsOffloaded s then etsSched (s.etsWeights q) else ⟨1, false⟩) ∧
    (∀ c fails, (∀ id, fails.off id = false) → ReplaceLaw s c (shapingStep f token s c fails)) := by
  intro s
  have hstart : Untouched f (shapingInit shaper) := fun _ => ⟨rfl, fun _ => ⟨rfl, rfl⟩⟩
  obtain ⟨h, hf⟩ : ShapingOk s ∧ Untouched f s := (shapingInit_ok shaper).run hstart token hoff
  refine ⟨h.portShaper, h.notBoth, ?_, ?_, ?_, ?_⟩
  · intro q
    rw [h.marked q]
  · intro q hq
    obtain ⟨hets, hwant⟩ := h.wanted q hq
    simp only [Tbf.wanted, Bool.and_eq_true, bne_iff_ne, Bool.not_eq_true'] at hwant
    exact ⟨hets, hwant.1.1, hwant.1.2, hwant.2⟩
  · intro q
    cases hets : etsOffloaded s with
    | true => simpa using h.schedEts hets q
    | false => simpa using h.schedReset hets q
  · intro c fails hc
    exact h.replaceLaw hf token hc c

/-- Nothing fails. -/
def noFailures : Failures := ⟨fun _ => false, fun _ => false⟩

/-- A TBF of 10 MByte/s at the root. -/
def rootTbf : ShapingCommand := .tbf 0x10000 tcHRoot (.replace ⟨10000000, 0, 0, false, 20000⟩)

theorem rootTbf_ok :
    let s := shapingRun .rtl930x 100 (shapingInit (fun _ => ⟨false, 0, 0⟩)) [(rootTbf, noFailures)]
    (s.shaper none).enable = true ∧
      ((s.shaper none).enable = true ↔ (s.tbf none).offloaded = true ∨ s.ratePoliceEgress ≠ 0) := by
  refine ⟨by decide, ?_⟩
  exact (shapingRun_ok .rtl930x 100 (fun _ => ⟨false, 0, 0⟩) [(rootTbf, noFailures)]
    (by simp [noFailures])).1

/-- The TBF is destroyed and its shaper cannot be switched off: it stays on for no qdisc. -/
theorem rootTbf_stays_on :
    let s := shapingRun .rtl930x 100 (shapingInit (fun _ => ⟨false, 0, 0⟩))
      [(rootTbf, noFailures), (.tbf 0x10000 tcHRoot .destroy, ⟨fun _ => false, fun _ => true⟩)]
    (s.shaper none).enable = true ∧ (s.tbf none).offloaded = false ∧ s.ratePoliceEgress = 0 := by
  decide

end Lede.Otto
