/-
Lede.Otto.Shaping — egress shaping of one port (`tc.c`, `qos.c`).

A port has a shaper of its own and one for each of its eight queues, and a scheduler that serves the
queues by weight. A TBF at the root or an egress police uses the shaper of the port, a TBF on a
band of the ETS qdisc the shaper of its queue, and the ETS qdisc the scheduler. Each command of the
kernel changes what the driver knows of the qdiscs and then brings the registers in line.

`egress_shaper_set` refuses rates and bursts that the shaper cannot hold. That it may fail for
another reason is an input of each command (`Failures`).
-/
import Lede.Otto.Family
import Mathlib.Algebra.GroupWithZero.Nat
import Mathlib.Data.List.FinRange
import Mathlib.Logic.Function.Basic

namespace Lede.Otto

/-- The shaper of the port, or that of one queue. -/
abbrev ShaperId := Option (Fin 8)

/-- `struct rtldsa_tbf` -/
structure Tbf where
  handle : UInt32
  rateBytesPs : Nat
  burst : Nat
  child : Bool
  offloaded : Bool
deriving DecidableEq

/-- A `BANDWIDTH_CTRL` register and the burst behind it. -/
structure Shaper where
  enable : Bool
  rate : Nat
  burst : Nat
deriving DecidableEq

/-- A `SCHED_PORT_Q_CTRL` register. -/
structure QueueSched where
  weight : Nat
  strict : Bool
deriving DecidableEq

/-- A weight in percent, as the kernel hands it over. -/
abbrev Weight := Fin 101

instance weightNeZero : NeZero 101 := ⟨by decide⟩

/-- The qdiscs of a port as the driver knows them (`struct rtldsa_port`), and the registers.
`tbf none` is `pp->tbf` and `tbf (some q)` is `pp->queue_tbf[q]`. -/
structure ShapingPort where
  ratePoliceEgress : Nat
  etsHandle : UInt32
  etsChildren : Finset Nat
  etsOffloadable : Bool
  etsWeights : Fin 8 → Weight
  tbf : ShaperId → Tbf
  shaper : ShaperId → Shaper
  sched : Fin 8 → QueueSched

/-- Which calls of `egress_shaper_set` fail during a command: those that switch a shaper on, and
those that switch it off. -/
structure Failures where
  on : ShaperId → Bool
  off : ShaperId → Bool

/-- `priv->r->egress_shaper_set` and `priv->r->queue_sched_set` are there. -/
def Family.hasShaper : Family → Bool
  | .rtl838x => false
  | .rtl839x => false
  | .rtl930x => true
  | .rtl931x => false

def maxFrame : Nat := 12288

/-- `RTL93XX_BANDWIDTH_CTRL_RATE_MAX` -/
def rateMax : Nat := 0xfffff

/-! ## Registers -/

/-- `otto_tc_930x_egress_shaper_set`; `token` is what `RTL930X_EGBW_LB_CTRL` says. -/
def egressShaperSet (token : Nat) (fails : Failures) (s : ShapingPort) (id : ShaperId)
    (rateBytesPs burst : Nat) : Int × ShapingPort :=
  let rate := rateBytesPs / 2000
  if rateBytesPs = 0 then
    if fails.off id then (- EIO, s)
    else (0, { s with shaper := Function.update s.shaper id { s.shaper id with enable := false } })
  else
    let burst := min burst (65535 - maxFrame)
    if rate = 0 || burst < 3 * token then (-EINVAL, s)
    else if fails.on id then (- EIO, s)
    else (0, { s with shaper := Function.update s.shaper id ⟨true, min rate rateMax, burst⟩ })

/-- `otto_qos_930x_queue_sched_set` -/
def queueSchedSet (s : ShapingPort) (queue : Fin 8) (weight : Nat) (strict : Bool) : ShapingPort :=
  { s with sched := Function.update s.sched queue ⟨weight % 128, strict⟩ }

/-- `otto_qos_queue_sched_reset` -/
def queueSchedReset (s : ShapingPort) : ShapingPort :=
  (List.finRange 8).foldl (fun s q => queueSchedSet s q 1 false) s

/-! ## Bringing the registers in line -/

def Tbf.setOffloaded (t : Tbf) (offloaded : Bool) : Tbf := { t with offloaded := offloaded }

/-- The TBF can be in a shaper. -/
def Tbf.wanted (t : Tbf) : Bool := t.handle != 0 && t.rateBytesPs != 0 && !t.child

/-- `otto_tc_tbf_apply` -/
def tbfApply (token : Nat) (fails : Failures) (s : ShapingPort) (id : ShaperId) (allowed : Bool) :
    ShapingPort :=
  let tbf := s.tbf id
  let offload := allowed && tbf.wanted
  let r := if offload then egressShaperSet token fails s id tbf.rateBytesPs tbf.burst else (0, s)
  let offload := offload && r.1 == 0
  let s := r.2
  let s := if !offload && tbf.offloaded then (egressShaperSet token fails s id 0 0).2 else s
  { s with tbf := Function.update s.tbf id (tbf.setOffloaded offload) }

/-- `otto_tc_ets_offloaded` -/
def etsOffloaded (s : ShapingPort) : Bool :=
  s.etsOffloadable && decide (s.etsChildren = ∅) &&
    (List.finRange 8).all (fun q => !((s.tbf (some q)).handle != 0 && !(s.tbf (some q)).offloaded))

/-- The scheduler of a queue under the ETS qdisc. -/
def etsSchedSet (s : ShapingPort) (queue : Fin 8) : ShapingPort :=
  if s.etsWeights queue ≠ 0 then queueSchedSet s queue (s.etsWeights queue) false
  else queueSchedSet s queue 1 true

/-- `otto_tc_ets_apply` -/
def etsApply (token : Nat) (fails : Failures) (s : ShapingPort) : ShapingPort :=
  let offload := s.etsOffloadable && decide (s.etsChildren = ∅)
  let s := (List.finRange 8).foldl (fun s q => tbfApply token fails s (some q) offload) s
  if etsOffloaded s then (List.finRange 8).foldl etsSchedSet s
  else
    queueSchedReset ((List.finRange 8).foldl (fun s q => tbfApply token fails s (some q) false) s)

/-! ## Commands -/

/-- `TC_H_ROOT` -/
def tcHRoot : UInt32 := 0xffffffff

/-- `TC_H_MAJ` -/
def tcHMaj (h : UInt32) : UInt32 := h &&& 0xffff0000

/-- `TC_H_MIN` -/
def tcHMin (h : UInt32) : Nat := (h &&& 0xffff).toNat

/-- `struct tc_ets_qopt_offload_replace_params`. The kernel has one to sixteen bands. -/
structure EtsReplace where
  bands : Nat
  priomap : Nat → Nat
  quanta : Nat → Nat
  weights : Nat → Weight

inductive EtsCommand where
  | replace (params : EtsReplace)
  | destroy
  | stats
  | graft (band : Nat) (childHandle : UInt32)
  | other

/-- `struct tc_tbf_qopt_offload_replace_params` -/
structure TbfReplace where
  rateBytesPs : Nat
  overhead : Nat
  mpu : Nat
  linklayerAtm : Bool
  maxSize : Nat

inductive TbfCommand where
  | replace (params : TbfReplace)
  | destroy
  | stats
  | graft
  | other

/-- The queue of a band: band 0 is served first, and so is queue 7. -/
def bandQueue (band : Nat) (h : band < 8) : Fin 8 := ⟨7 - band, by omega⟩

/-- The loop of `TC_ETS_REPLACE` over the bands from `band` on. -/
def etsBands (p : EtsReplace) : (left : Nat) → Bool → (Fin 8 → Weight) → Bool × (Fin 8 → Weight)
  | 0, offloadable, weights => (offloadable, weights)
  | left + 1, offloadable, weights =>
    if !offloadable then (offloadable, weights)
    else
      let band := 7 - left
      let queue := bandQueue band (by omega)
      etsBands p left
        (p.priomap queue == band && (p.quanta band == 0 || p.weights band != 0))
        (Function.update weights queue (if p.quanta band ≠ 0 then p.weights band else 0))

/-- The TBFs on the bands of another ETS are forgotten. -/
def forgetQueueTbfs (s : ShapingPort) : ShapingPort :=
  { s with tbf := fun id => match id with
    | none => s.tbf none
    | some q => { s.tbf (some q) with handle := 0 } }

/-- The end of `otto_tc_setup_qdisc_ets`. -/
def etsFinish (token : Nat) (fails : Failures) (oldHandle : UInt32) (destroy : Bool)
    (s : ShapingPort) : Int × ShapingPort :=
  let s := if s.etsHandle ≠ oldHandle then forgetQueueTbfs s else s
  let s := etsApply token fails s
  (if etsOffloaded s || destroy then 0 else -EOPNOTSUPP, s)

/-- The band is kept out of the hardware by a child that is not the TBF of its queue. -/
def foreignChild (s : ShapingPort) (band : Nat) (child : UInt32) : Bool :=
  child != 0 && (if h : band < 8 then child != (s.tbf (some (bandQueue band h))).handle else true)

/-- `otto_tc_setup_qdisc_ets` -/
def setupQdiscEts (f : Family) (token : Nat) (fails : Failures) (s : ShapingPort)
    (handle parent : UInt32) (command : EtsCommand) : Int × ShapingPort :=
  if !f.hasShaper || parent ≠ tcHRoot then (-EOPNOTSUPP, s)
  else
    match command with
    | .replace p =>
      let children := if s.etsHandle ≠ handle then ∅ else s.etsChildren
      let r := etsBands p 8 (p.bands == 8) s.etsWeights
      etsFinish token fails s.etsHandle false
        { s with etsChildren := children.filter (· < p.bands), etsHandle := handle,
                 etsOffloadable := r.1, etsWeights := r.2 }
    | .destroy =>
      if s.etsHandle ≠ handle then (0, s)
      else etsFinish token fails s.etsHandle true { s with etsHandle := 0, etsOffloadable := false }
    | .stats =>
      if s.etsHandle ≠ handle then (-EOPNOTSUPP, s)
      else (if etsOffloaded s then 0 else -EOPNOTSUPP, s)
    | .graft band child =>
      if s.etsHandle ≠ handle then (-EOPNOTSUPP, s)
      else
        etsFinish token fails s.etsHandle false
          { s with etsChildren :=
            if foreignChild s band child then insert band s.etsChildren else s.etsChildren.erase band }
    | .other => (-EOPNOTSUPP, s)

/-- The TBF that a command of this parent is for. -/
def tbfTarget (s : ShapingPort) (parent : UInt32) : Option ShaperId :=
  if parent = tcHRoot then some none
  else if h : (s.etsHandle ≠ 0 ∧ tcHMaj parent = s.etsHandle) ∧ tcHMin parent ≠ 0 ∧ tcHMin parent ≤ 8 then
    some (some ⟨8 - tcHMin parent, by omega⟩)
  else none

/-- The end of `otto_tc_setup_qdisc_tbf`. -/
def tbfFinish (token : Nat) (fails : Failures) (id : ShaperId) (destroy : Bool) (s : ShapingPort) :
    Int × ShapingPort :=
  let s := match id with
    | none => tbfApply token fails s none (s.ratePoliceEgress == 0)
    | some _ => etsApply token fails s
  (if (s.tbf id).offloaded || destroy then 0 else -EOPNOTSUPP, s)

def ShapingPort.setTbf (s : ShapingPort) (id : ShaperId) (tbf : Tbf) : ShapingPort :=
  { s with tbf := Function.update s.tbf id tbf }

/-- `otto_tc_setup_qdisc_tbf` -/
def setupQdiscTbf (f : Family) (token : Nat) (fails : Failures) (s : ShapingPort)
    (handle parent : UInt32) (command : TbfCommand) : Int × ShapingPort :=
  if !f.hasShaper then (-EOPNOTSUPP, s)
  else
    match tbfTarget s parent with
    | none => (-EOPNOTSUPP, s)
    | some id =>
      let tbf := s.tbf id
      match command with
      | .replace p =>
        tbfFinish token fails id false (s.setTbf id
          { tbf with
            child := if tbf.handle ≠ handle then false else tbf.child
            handle := handle
            rateBytesPs := if p.overhead ≠ 0 || p.mpu ≠ 0 || p.linklayerAtm then 0 else p.rateBytesPs
            burst := p.maxSize })
      | .destroy =>
        if tbf.handle ≠ handle then (0, s)
        else tbfFinish token fails id true (s.setTbf id { tbf with handle := 0 })
      | .stats => (if tbf.handle = handle && tbf.offloaded then 0 else -EOPNOTSUPP, s)
      | .graft =>
        if tbf.handle ≠ handle then (-EOPNOTSUPP, s)
        else tbfFinish token fails id false (s.setTbf id { tbf with child := true })
      | .other => (-EOPNOTSUPP, s)

/-- `otto_tc_cls_flower_add` with an egress police on all frames of the port. The cookie is the
address of the filter. -/
def policeAdd (f : Family) (s : ShapingPort) (cookie rateBytesPs burst : Nat) : Int × ShapingPort :=
  if !f.is93xx then (-EOPNOTSUPP, s)
  else if s.ratePoliceEgress ≠ 0 || (s.tbf none).handle ≠ 0 then (-EOPNOTSUPP, s)
  else
    let burst := if f = .rtl930x then min burst (65535 - maxFrame) else min burst 65535
    (0, { s with shaper := Function.update s.shaper none ⟨true, min (rateBytesPs / 2000) rateMax, burst⟩,
                 ratePoliceEgress := cookie })

/-- `otto_tc_cls_flower_del` for the egress side. -/
def policeDel (f : Family) (token : Nat) (fails : Failures) (s : ShapingPort) (cookie : Nat) :
    Int × ShapingPort :=
  if !f.is93xx then (-EOPNOTSUPP, s)
  else if s.ratePoliceEgress ≠ cookie then (-ENOENT, s)
  else
    let s := { s with shaper := Function.update s.shaper none { s.shaper none with enable := false },
                      ratePoliceEgress := 0 }
    (0, tbfApply token fails s none true)

/-- A command of the kernel. A cookie is an address, and not 0. -/
inductive ShapingCommand where
  | ets (handle parent : UInt32) (command : EtsCommand)
  | tbf (handle parent : UInt32) (command : TbfCommand)
  | policeAdd (cookie : { c : Nat // c ≠ 0 }) (rateBytesPs burst : Nat)
  | policeDel (cookie : { c : Nat // c ≠ 0 })

def shapingStep (f : Family) (token : Nat) (s : ShapingPort) (c : ShapingCommand) (fails : Failures) :
    Int × ShapingPort :=
  match c with
  | .ets handle parent command => setupQdiscEts f token fails s handle parent command
  | .tbf handle parent command => setupQdiscTbf f token fails s handle parent command
  | .policeAdd cookie rate burst => policeAdd f s cookie rate burst
  | .policeDel cookie => policeDel f token fails s cookie

def shapingRun (f : Family) (token : Nat) (s : ShapingPort)
    (commands : List (ShapingCommand × Failures)) : ShapingPort :=
  commands.foldl (fun s c => (shapingStep f token s c.1 c.2).2) s

/-- A port after probe: no qdisc is known, no shaper is on, and the scheduler is reset. -/
def shapingInit (shaper : ShaperId → Shaper) : ShapingPort where
  ratePoliceEgress := 0
  etsHandle := 0
  etsChildren := ∅
  etsOffloadable := false
  etsWeights := fun _ => 0
  tbf := fun _ => ⟨0, 0, 0, false, false⟩
  shaper := fun id => { shaper id with enable := false }
  sched := fun _ => ⟨1, false⟩

end Lede.Otto
