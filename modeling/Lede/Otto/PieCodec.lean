/-
Lede.Otto.PieCodec — entries of the packet inspection engine, written and read back (`pie.c`).

`ruleRegs` adds to the words of a rule (`ruleWords`) what the engine does with a frame that
matches: the selectors of the actions and their data. `ruleRead` is the reader of the family. On
the RTL838x the data of the selected actions are packed, 16 bits each, from the end of word 16
downwards; on the RTL839x each has its place.
-/
import Lede.Otto.Pie

namespace Lede.Otto

open Lede.Lib.BitField Lede.Lib.Ternary

/-! ## Actions -/

/-- The actions that a rule can select, `fwd_sel`, `ovid_sel`, … -/
inductive PieAction where
  | fwd
  | ovid
  | ivid
  | flt
  | log
  | rmk
  | meter
  | tagst
  | mir
  | nopri
  | cpupri
  | otpid
  | itpid
  | shaper
  | mpls
  | bypass
deriving DecidableEq, Repr

/-- The part of `struct pie_rule` about actions: `sel` are its selectors and `data` is
`fwd_data`, `ovid_data`, …, with `mpls_lib_idx` for MPLS. -/
structure PieActs where
  ivalid : Bool := false
  drop : Bool := false
  sel : PieAction → Bool := fun _ => false
  data : PieAction → BitVec 16 := fun _ => 0
  fwdAct : BitVec 8 := 0
  ovidAct : BitVec 8 := 0
  ividAct : BitVec 8 := 0
  mplsAct : BitVec 8 := 0
  logOctets : Bool := false
  bypassAll : Bool := false
  bypassIgrStp : Bool := false
  bypassIbcSc : Bool := false

def PIE_ACT_REDIRECT_TO_PORT : BitVec 8 := 4
def PIE_ACT_ROUTE_UC : BitVec 8 := 6

/-! ## RTL838x -/

/-- The actions of the RTL838x, the one of bit 13 of word 17 first. -/
def order838x : List PieAction :=
  [.fwd, .ovid, .ivid, .flt, .log, .rmk, .meter, .tagst, .mir, .nopri, .cpupri, .otpid, .itpid,
    .shaper]

/-- The end of `otto_pie_838x_write_fixed_fields`. -/
def writeSelectors838x (r : Regs) (a : PieActs) : Regs :=
  Function.update (Function.update r 14 (r 14 ||| flag 27 a.ivalid)) 17
    ((if a.drop then (0x1 : BitVec 32) <<< 14 else 0) ||| flag 13 (a.sel .fwd) ||| flag 12 (a.sel .ovid) |||
      flag 11 (a.sel .ivid) ||| flag 10 (a.sel .flt) ||| flag 9 (a.sel .log) |||
      flag 8 (a.sel .rmk) ||| flag 7 (a.sel .meter) ||| flag 6 (a.sel .tagst) |||
      flag 5 (a.sel .mir) ||| flag 4 (a.sel .nopri) ||| flag 3 (a.sel .cpupri) |||
      flag 2 (a.sel .otpid) ||| flag 1 (a.sel .itpid) ||| flag 0 (a.sel .shaper))

/-- What `otto_pie_838x_write_action` stores for an action. -/
def actionWord838x (a : PieActs) : PieAction → BitVec 16
  | .fwd => (a.fwdAct.setWidth 16 <<< 13) ||| a.data .fwd ||| (flag 12 a.bypassAll).setWidth 16 |||
      (flag 11 a.bypassIbcSc).setWidth 16 ||| (flag 10 a.bypassIgrStp).setWidth 16
  | .ovid => (a.ovidAct.setWidth 16 &&& low 2) <<< 12 ||| a.data .ovid
  | .ivid => (a.ividAct.setWidth 16 &&& low 2) <<< 12 ||| a.data .ivid
  | .cpupri => a.data .nopri
  | x => a.data x

/-- The words that `*aif--` leaves, `none` when there are more than four. -/
def actionWords838x (a : PieActs) : Option (List (BitVec 16)) :=
  let used := (order838x.filter a.sel).map (actionWord838x a)
  if 4 < used.length then none else some used

/-- `otto_pie_838x_write_action`; the first word is the low half of `r[16]`. -/
def writeAction838x (r : Regs) (a : PieActs) : Option Regs :=
  (actionWords838x a).map fun (used : List (BitVec 16)) =>
    let r16 : BitVec 32 := (used.getD 0 0).setWidth 32 ||| (used.getD 1 0).setWidth 32 <<< 16
    let r15 : BitVec 32 := (used.getD 2 0).setWidth 32 ||| (used.getD 3 0).setWidth 32 <<< 16
    Function.update (Function.update r 16 r16) 15 r15

/-- `aif` after it was moved `k` times. -/
def aif (r : Regs) (k : Nat) : BitVec 16 := chunk (k % 2) (r (16 - k / 2))

/-- The number of selected actions before one. -/
def aifIndex (sel : PieAction → Bool) (x : PieAction) : Nat :=
  ((order838x.takeWhile (· ≠ x)).filter sel).length

/-- The end of `otto_pie_838x_read_fixed_fields`. -/
def readSelectors838x (r : Regs) : PieActs :=
  { ivalid := (r 14).getLsbD 27
    drop := (r 17 >>> 14) &&& low 2 != 0
    sel
      | .fwd => (r 17).getLsbD 13
      | .ovid => (r 17).getLsbD 12
      | .ivid => (r 17).getLsbD 11
      | .flt => (r 17).getLsbD 10
      | .log => (r 17).getLsbD 9
      | .rmk => (r 17).getLsbD 8
      | .meter => (r 17).getLsbD 7
      | .tagst => (r 17).getLsbD 6
      | .mir => (r 17).getLsbD 5
      | .nopri => (r 17).getLsbD 4
      | .cpupri => (r 17).getLsbD 3
      | .otpid => (r 17).getLsbD 2
      | .itpid => (r 17).getLsbD 1
      | .shaper => (r 17).getLsbD 0
      | .mpls => false
      | .bypass => false }

/-- `otto_pie_838x_read_action`; the word of `cpupri` ends up in `nopri_data`. -/
def readAction838x (r : Regs) (a : PieActs) : PieActs :=
  let word (x : PieAction) : BitVec 16 := aif r (aifIndex a.sel x)
  let a : PieActs := { a with
    data := fun x =>
      if x = .nopri ∧ a.sel .cpupri then word .cpupri
      else if x ≠ .cpupri ∧ x ∈ order838x ∧ a.sel x then word x
      else a.data x }
  if a.sel .fwd then
    { a with
      fwdAct := (word .fwd >>> 13).setWidth 8
      bypassAll := (word .fwd).getLsbD 12
      bypassIbcSc := (word .fwd).getLsbD 11
      bypassIgrStp := (word .fwd).getLsbD 10
      sel := fun x => if x = .bypass ∧
        ((word .fwd).getLsbD 12 || (word .fwd).getLsbD 11 || (word .fwd).getLsbD 10) then true
        else a.sel x }
  else a

/-! ## RTL839x -/

/-- `otto_pie_839x_write_action` -/
def writeAction839x (r : Regs) (a : PieActs) : Regs :=
  let r13 := r 13 ||| (if a.drop then 0x9 ||| 0x8
      else flag 3 (a.sel .fwd) ||| a.fwdAct.setWidth 32) |||
    flag 11 (a.sel .bypass) ||| flag 10 (a.sel .mpls) ||| flag 9 (a.sel .nopri) |||
    flag 8 (a.sel .ovid) ||| flag 7 (a.sel .ivid) ||| flag 6 (a.sel .meter) |||
    flag 5 (a.sel .mir) ||| flag 4 (a.sel .log)
  let r14 := r 14 ||| ((a.data .fwd).setWidth 32 &&& low 14) <<< 18 ||| flag 17 a.logOctets |||
    ((a.data .log).setWidth 32 &&& low 11) <<< 6 ||| ((a.data .mir).setWidth 32 &&& low 2) <<< 3 |||
    ((a.data .meter).setWidth 32 >>> 7 &&& low 3)
  let r15 := r 15 ||| (a.data .meter).setWidth 32 <<< 26 |||
    (a.ividAct.setWidth 32 <<< 23 &&& 0x3) ||| ((a.data .ivid).setWidth 32 <<< 9 &&& 0xfff) |||
    (a.ovidAct.setWidth 32 <<< 6 &&& 0x3) ||| ((a.data .ovid).setWidth 32 >>> 4 &&& 0xff)
  let r16 := r 16 ||| ((a.data .ovid).setWidth 32 &&& 0xf) <<< 28 |||
    ((a.data .nopri).setWidth 32 &&& 0x7) <<< 20 ||| (a.mplsAct.setWidth 32 &&& 0x7) <<< 20 |||
    ((a.data .mpls).setWidth 32 &&& 0x7) <<< 20 ||| flag 9 a.bypassAll ||| flag 8 a.bypassIgrStp |||
    flag 7 a.bypassIbcSc
  Function.update (Function.update (Function.update (Function.update r 13 r13) 14 r14) 15 r15) 16
    r16

/-- `otto_pie_839x_read_action` into an empty rule. -/
def readAction839x (r : Regs) : PieActs :=
  let act : BitVec 32 := r 13 &&& low 3
  let fwd := (r 13).getLsbD 3
  { drop := fwd && act == 1
    sel
      | .fwd => fwd && act != 1
      | .bypass => (r 13).getLsbD 11
      | .mpls => (r 13).getLsbD 10
      | .nopri => (r 13).getLsbD 9
      | .ovid => (r 13).getLsbD 8
      | .ivid => (r 13).getLsbD 7
      | .meter => (r 13).getLsbD 6
      | .mir => (r 13).getLsbD 5
      | .log => (r 13).getLsbD 4
      | _ => false
    fwdAct := if fwd && act != 1 then act.setWidth 8 else 0
    data
      | .fwd => (r 14 >>> 18).setWidth 16
      | .log => ((r 14 >>> 6) &&& low 11).setWidth 16
      | .mir => ((r 14 >>> 3) &&& low 2).setWidth 16
      | _ => 0
    bypassAll := (r 16).getLsbD 9
    bypassIgrStp := (r 16).getLsbD 8
    bypassIbcSc := (r 16).getLsbD 7 }

/-! ## Entries -/

/-- The words of `rule_write` for a rule that is valid; `none` is "Rule actions too complex". -/
def ruleRegs (f : PieFamily) (pr : PieRule) (a : PieActs) (fields : List TemplateField) :
    Option Regs :=
  match f with
  | .rtl838x => writeAction838x (writeSelectors838x (ruleWords f pr fields) a) a
  | .rtl839x => some (writeAction839x (ruleWords f pr fields) a)

/-- `read_fixed_fields`, the fields that are matched. -/
def readFixedFields (f : PieFamily) (r : Regs) : PieRule :=
  let d := (entryFixed f r).data
  let m := (entryFixed f r).mask
  let conds : BitVec 32 := match f with
    | .rtl838x => r 14 >>> 28
    | .rtl839x => r 13 >>> 12
  { spmmaskFix := ⟨((d >>> 22) &&& low 2).setWidth 8, ((m >>> 22) &&& low 2).setWidth 8⟩
    spn := ⟨((d >>> 16) &&& low 6).setWidth 8, ((m >>> 16) &&& low 6).setWidth 8⟩
    mgntVlan := ⟨(d >>> 15).setWidth 1, (m >>> 15).setWidth 1⟩
    dmacHitSw := ⟨(d >>> 14).setWidth 1, (m >>> 14).setWidth 1⟩
    notFirstFrag := ⟨(d >>> 13).setWidth 1, (m >>> 13).setWidth 1⟩
    frameTypeL4 := ⟨((d >>> 10) &&& low 3).setWidth 8, ((m >>> 10) &&& low 3).setWidth 8⟩
    frameType := ⟨((d >>> 8) &&& low 2).setWidth 8, ((m >>> 8) &&& low 2).setWidth 8⟩
    otagFmt := ⟨(d >>> 7).setWidth 1, (m >>> 7).setWidth 1⟩
    itagFmt := ⟨(d >>> 6).setWidth 1, (m >>> 6).setWidth 1⟩
    otagExist := ⟨(d >>> 5).setWidth 1, (m >>> 5).setWidth 1⟩
    itagExist := ⟨(d >>> 4).setWidth 1, (m >>> 4).setWidth 1⟩
    frameTypeL2 := ⟨((d >>> 2) &&& low 2).setWidth 8, ((m >>> 2) &&& low 2).setWidth 8⟩
    tid := ⟨(d &&& low 2).setWidth 8, (m &&& low 2).setWidth 8⟩
    valid := conds.getLsbD 3
    condNot := conds.getLsbD 2
    condAnd1 := conds.getLsbD 1
    condAnd2 := conds.getLsbD 0 }

/-- The word `k` of a value, replaced. -/
def setChunk {w : Nat} (k : Nat) (x : BitVec w) (v : BitVec 16) : BitVec w :=
  (x &&& ~~~(low 16 <<< (16 * k))) ||| v.setWidth w <<< (16 * k)

/-- The address of the RTL838x and of the source on the RTL839x: the words arrive lowest first,
each of the first two moves the one before up, and the third takes the rest of the address from
the words of the entry. -/
def readAddress (r : Regs) (i k : Nat) (x : Field 16) (isIpv6 : Bool) (v4 : Field 32)
    (v6 : Field 128) : Bool × Field 32 × Field 128 :=
  match k with
  | 0 => (isIpv6, ⟨x.data.setWidth 32, x.mask.setWidth 32⟩, v6)
  | 1 =>
    let d := v4.data <<< 16 ||| x.data.setWidth 32
    (isIpv6, ⟨d, d <<< 16 ||| x.mask.setWidth 32⟩, v6)
  | 2 =>
    (true, v4, ⟨v4.data ++ r (5 - i / 2) ++ r (4 - i / 2) ++ r (3 - i / 2),
      v4.mask ++ r (5 - i / 2) ++ r (4 - i / 2) ++ r (3 - i / 2)⟩)
  | _ => (isIpv6, v4, v6)

/-- The destination address on the RTL839x. -/
def readDip839x (k : Nat) (x : Field 16) (pr : PieRule) : PieRule :=
  let dip6 : Field 128 := ⟨setChunk k pr.dip6.data x.data, setChunk k pr.dip6.mask x.mask⟩
  if k < 2 then
    { pr with dip := ⟨setChunk k pr.dip.data x.data, setChunk k pr.dip.mask x.mask⟩, dip6 := dip6 }
  else { pr with isIpv6 := true, dip6 := dip6 }

/-- One turn of the loop of `read_templated`. -/
def readField (f : PieFamily) (r : Regs) (pr : PieRule) (i : Nat) (field : TemplateField) :
    PieRule :=
  let x := entryField f r i
  match field with
  | .spm 0 =>
    let spn : BitVec 64 := pr.spn.data.setWidth 64 <<< 16
    { pr with spm := ⟨spn ||| x.data.setWidth 64, spn ||| x.mask.setWidth 64⟩ }
  | .spm 1 => { pr with spm := ⟨x.data.setWidth 64, x.mask.setWidth 64⟩ }
  | .spm _ => pr
  | .otag => { pr with otag := x }
  | .smac k =>
    { pr with smac := ⟨setChunk k pr.smac.data x.data, setChunk k pr.smac.mask x.data⟩ }
  | .dmac k =>
    { pr with dmac := ⟨setChunk k pr.dmac.data x.data, setChunk k pr.dmac.mask x.data⟩ }
  | .ethertype => { pr with ethertype := x }
  | .itag => { pr with itag := x }
  | .rangeChk => { pr with fieldRangeCheck := x }
  | .sip k =>
    let (isIpv6, sip, sip6) := readAddress r i k x pr.isIpv6 pr.sip pr.sip6
    { pr with isIpv6 := isIpv6, sip := sip, sip6 := sip6 }
  | .dip k =>
    match f with
    | .rtl838x =>
      let (isIpv6, dip, dip6) := readAddress r i k x pr.isIpv6 pr.dip pr.dip6
      { pr with isIpv6 := isIpv6, dip := dip, dip6 := dip6 }
    | .rtl839x => readDip839x k x pr
  | .ipTosProto => { pr with tosProto := x }
  | .l4Sport => { pr with sport := x }
  | .l4Dport => { pr with dport := x }
  | .icmpIgmp => { pr with icmpIgmp := x }

/-- `otto_pie_838x_read_templated`, `otto_pie_839x_read_templated` -/
def readTemplated (f : PieFamily) (r : Regs) (pr : PieRule) (fields : List TemplateField) :
    PieRule :=
  fields.zipIdx.foldl (fun pr x => readField f r pr x.2 x.1) pr

/-- The template that a block names for the template number of a rule. -/
def selectedTemplate (f : PieFamily) (tSelect : BitVec 32) (tid : BitVec 8) : List TemplateField :=
  fixedTemplate f ((tSelect >>> (tid.toNat * 3)) &&& 0x7).toNat

/-- What is read of the actions. -/
def readAction (f : PieFamily) (r : Regs) : PieActs :=
  match f with
  | .rtl838x => readAction838x r (readSelectors838x r)
  | .rtl839x => readAction839x r

/-- `otto_pie_838x_rule_read`, `otto_pie_839x_rule_read` -/
def ruleRead (f : PieFamily) (tSelect : BitVec 32) (r : Regs) : PieRule × PieActs :=
  let pr := readFixedFields f r
  if !pr.valid then
    (pr, match f with
      | .rtl838x => readSelectors838x r
      | .rtl839x => {})
  else (readTemplated f r pr (selectedTemplate f tSelect pr.tid.data), readAction f r)

/-- `otto_pie_838x_rule_write`, `otto_pie_839x_rule_write`: the words of the entry and whether
they are those of the rule. -/
def ruleWrite (f : PieFamily) (tSelect : BitVec 32) (pr : PieRule) (a : PieActs) : Bool × Regs :=
  if !pr.valid then (f = .rtl839x, fun _ => 0)
  else
    match ruleRegs f pr a (selectedTemplate f tSelect pr.tid.data) with
    | some r => (true, r)
    | none => (false, fun _ => 0)

end Lede.Otto
