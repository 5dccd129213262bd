/-
Lede.Otto.PieActionTheorems — actions of PIE entries, read back (`pie.c`).

On the RTL838x the words of the selected actions are counted down from the end of word 16, and
reader and writer count the same (`aif_writeAction838x`). What is in a word is not always the data
of its action (`actsBack838x_iff`), and on the RTL839x the reader leaves most of the data out
(`actsBack839x_iff`). `roundTrip_iff` puts the parts of an entry together.
-/
import Lede.Otto.PieCodecTheorems

namespace Lede.Otto

open Lede.Lib.BitField Lede.Lib.Packed Lede.Lib.Ternary

/-! ## RTL838x -/

/-- The actions that the writer of the RTL838x stores are back. -/
structure ActsBack838x (a back : PieActs) : Prop where
  ivalid : back.ivalid = a.ivalid
  drop : back.drop = a.drop
  sel : ∀ x ∈ order838x, back.sel x = a.sel x
  data : ∀ x ∈ order838x, a.sel x = true → back.data x = a.data x
  fwd : a.sel .fwd = true → back.fwdAct = a.fwdAct ∧ back.bypassAll = a.bypassAll ∧
    back.bypassIbcSc = a.bypassIbcSc ∧ back.bypassIgrStp = a.bypassIgrStp
  ovid : a.sel .ovid = true → back.ovidAct = a.ovidAct
  ivid : a.sel .ivid = true → back.ividAct = a.ividAct

/-- The data of the forwarding action begin with the action and its bypass flags, there is no
action for a VID, and no data for the priority of the CPU. -/
structure ActsReadable838x (a : PieActs) : Prop where
  fwd : a.sel .fwd = true → a.fwdAct = (a.data .fwd >>> 13).setWidth 8 ∧
    a.bypassAll = (a.data .fwd).getLsbD 12 ∧ a.bypassIbcSc = (a.data .fwd).getLsbD 11 ∧
    a.bypassIgrStp = (a.data .fwd).getLsbD 10
  ovid : a.sel .ovid = true → a.ovidAct = 0
  ivid : a.sel .ivid = true → a.ividAct = 0
  cpupri : a.sel .cpupri = true → a.data .cpupri = 0

/-- The place of an element among those of a kind. -/
theorem getElem?_filter_takeWhile {α : Type} [DecidableEq α] {l : List α} {p : α → Bool} {x : α}
    (hx : x ∈ l) (hp : p x = true) :
    (l.filter p)[((l.takeWhile (· ≠ x)).filter p).length]? = some x := by
  induction l with
  | nil => cases hx
  | cons y l ih =>
    by_cases hy : y = x
    · subst hy
      simp [hp]
    · have hmem : x ∈ l := (List.mem_cons.1 hx).resolve_left (Ne.symm hy)
      rw [List.takeWhile_cons_of_pos (by simpa using hy)]
      by_cases hpy : p y = true
      · simp only [List.filter_cons_of_pos hpy, List.length_cons, List.getElem?_cons_succ]
        exact ih hmem
      · simp only [List.filter_cons_of_neg hpy]
        exact ih hmem

section Rtl838x

variable {a : PieActs} {r r' : Regs}

/-- The reader finds the word of a selected action where the writer left it. -/
theorem aif_writeAction838x (h : writeAction838x r a = some r') {x : PieAction}
    (hx : x ∈ order838x) (hs : a.sel x = true) :
    aif r' (aifIndex a.sel x) = actionWord838x a x := by
  simp only [writeAction838x, actionWords838x, Option.map_eq_some_iff] at h
  obtain ⟨used, hused, rfl⟩ := h
  split at hused
  · cases hused
  · rename_i hlen
    cases hused
    have hget := congrArg (Option.map (actionWord838x a)) (getElem?_filter_takeWhile hx hs)
    rw [← List.getElem?_map] at hget
    have hn := (List.getElem?_eq_some_iff.1 hget).1
    have hd : ((order838x.filter a.sel).map (actionWord838x a)).getD (aifIndex a.sel x) 0 =
        actionWord838x a x := by
      rw [List.getD_eq_getElem?_getD]
      exact congrArg (Option.getD · 0) hget
    have hlt : aifIndex a.sel x < 4 := by
      unfold aifIndex
      omega
    rw [← hd]
    generalize aifIndex a.sel x = n at hlt
    generalize (order838x.filter a.sel).map (actionWord838x a) = used
    -- two words to a register, the lower half first
    have h16 : ∀ u v : BitVec 16, u.setWidth 32 ||| v.setWidth 32 <<< 16 = pairWord u v :=
      fun _ _ => rfl
    interval_cases n <;> simp [aif, h16]

/-- The selectors of `r[17]`. -/
def selParts838x (a : PieActs) : List (Part 32) :=
  [⟨14, 2, if a.drop then 1 else 0⟩, flagPart 13 (a.sel .fwd), flagPart 12 (a.sel .ovid),
    flagPart 11 (a.sel .ivid), flagPart 10 (a.sel .flt), flagPart 9 (a.sel .log),
    flagPart 8 (a.sel .rmk), flagPart 7 (a.sel .meter), flagPart 6 (a.sel .tagst),
    flagPart 5 (a.sel .mir), flagPart 4 (a.sel .nopri), flagPart 3 (a.sel .cpupri),
    flagPart 2 (a.sel .otpid), flagPart 1 (a.sel .itpid), flagPart 0 (a.sel .shaper)]

theorem selParts838x_laid (a : PieActs) : Laid (selParts838x a) := of_decide_eq_true rfl

theorem selectors_eq_pack (r : Regs) (a : PieActs) :
    writeSelectors838x r a 17 = pack (selParts838x a) := by
  have hdrop : (if a.drop then (0x1 : BitVec 32) <<< 14 else 0) =
      (⟨14, 2, if a.drop then 1 else 0⟩ : Part 32).word := by
    cases a.drop <;> decide
  simp only [writeSelectors838x, Function.update_self, hdrop, selParts838x, pack_cons,
    List.foldl_cons, List.foldl_nil, flagPart_word]

/-- The selectors are read back. -/
theorem readSelectors838x_write (h : writeAction838x (writeSelectors838x r a) a = some r')
    (h14 : (r 14).getLsbD 27 = false) :
    (readSelectors838x r').ivalid = a.ivalid ∧ (readSelectors838x r').drop = a.drop ∧
      ∀ x ∈ order838x, (readSelectors838x r').sel x = a.sel x := by
  simp only [writeAction838x, Option.map_eq_some_iff] at h
  obtain ⟨used, hused, rfl⟩ := h
  have h17 : Function.update (Function.update (writeSelectors838x r a) 16
      ((used.getD 0 0).setWidth 32 ||| (used.getD 1 0).setWidth 32 <<< 16)) 15
      ((used.getD 2 0).setWidth 32 ||| (used.getD 3 0).setWidth 32 <<< 16) 17 =
      pack (selParts838x a) := selectors_eq_pack r a
  refine ⟨?_, ?_, ?_⟩
  · have h14' : writeSelectors838x r a 14 = r 14 ||| flag 27 a.ivalid := rfl
    simp only [readSelectors838x, ne_eq, Function.update_of_ne, show (14 : Nat) ≠ 15 by decide,
      show (14 : Nat) ≠ 16 by decide, not_false_eq_true, h14', BitVec.getLsbD_or, h14,
      getLsbD_flag]
    rfl
  · simp only [readSelectors838x, h17]
    rw [read_pack (selParts838x_laid a) (x := ⟨14, 2, if a.drop then 1 else 0⟩)
      (by simp [selParts838x])]
    cases a.drop <;> decide
  · have hflag : ∀ p b, flagPart p b ∈ selParts838x a → (pack (selParts838x a)).getLsbD p = b :=
      fun p b => getLsbD_pack_flag (selParts838x_laid a)
    intro x hx
    simp only [readSelectors838x, h17]
    cases x with
    | mpls => simp [order838x] at hx
    | bypass => simp [order838x] at hx
    | _ => exact hflag _ _ (by simp [selParts838x])

/-- The bits of the word of a forwarding action. -/
theorem fwdWord_iff (a : PieActs) :
    (actionWord838x a .fwd = a.data .fwd ∧ a.fwdAct = (actionWord838x a .fwd >>> 13).setWidth 8 ∧
        a.bypassAll = (actionWord838x a .fwd).getLsbD 12 ∧
        a.bypassIbcSc = (actionWord838x a .fwd).getLsbD 11 ∧
        a.bypassIgrStp = (actionWord838x a .fwd).getLsbD 10) ↔
      a.fwdAct = (a.data .fwd >>> 13).setWidth 8 ∧ a.bypassAll = (a.data .fwd).getLsbD 12 ∧
        a.bypassIbcSc = (a.data .fwd).getLsbD 11 ∧ a.bypassIgrStp = (a.data .fwd).getLsbD 10 := by
  constructor
  · rintro ⟨hw, h⟩
    rwa [hw] at h
  · rintro ⟨hact, h12, h11, h10⟩
    have hw : actionWord838x a .fwd = a.data .fwd := by
      apply BitVec.eq_of_getLsbD_eq
      intro i hi
      simp only [actionWord838x, hact, h12, h11, h10, BitVec.getLsbD_or, BitVec.getLsbD_shiftLeft,
        BitVec.getLsbD_setWidth, BitVec.getLsbD_ushiftRight, getLsbD_flag]
      grind
    rw [hw]
    exact ⟨rfl, hact, h12, h11, h10⟩

section Read

variable (r : Regs) (b : PieActs)

theorem readAction838x_rest :
    (readAction838x r b).ivalid = b.ivalid ∧ (readAction838x r b).drop = b.drop ∧
      (readAction838x r b).ovidAct = b.ovidAct ∧ (readAction838x r b).ividAct = b.ividAct := by
  simp only [readAction838x]
  split <;> exact ⟨rfl, rfl, rfl, rfl⟩

theorem readAction838x_sel {x : PieAction} (hx : x ∈ order838x) :
    (readAction838x r b).sel x = b.sel x := by
  have hne : x ≠ .bypass := by
    rintro rfl
    simp [order838x] at hx
  simp only [readAction838x]
  split
  · exact if_neg fun h => hne h.1
  · rfl

theorem readAction838x_data (x : PieAction) :
    (readAction838x r b).data x =
      if x = .nopri ∧ b.sel .cpupri then aif r (aifIndex b.sel .cpupri)
      else if x ≠ .cpupri ∧ x ∈ order838x ∧ b.sel x then aif r (aifIndex b.sel x)
      else b.data x := by
  simp only [readAction838x]
  split <;> rfl

theorem readAction838x_fwd (h : b.sel .fwd = true) :
    (readAction838x r b).fwdAct = (aif r (aifIndex b.sel .fwd) >>> 13).setWidth 8 ∧
      (readAction838x r b).bypassAll = (aif r (aifIndex b.sel .fwd)).getLsbD 12 ∧
      (readAction838x r b).bypassIbcSc = (aif r (aifIndex b.sel .fwd)).getLsbD 11 ∧
      (readAction838x r b).bypassIgrStp = (aif r (aifIndex b.sel .fwd)).getLsbD 10 := by
  simp [readAction838x, h]

end Read

/-- The actions of the RTL838x come back exactly when they are readable. -/
theorem actsBack838x_iff (h : writeAction838x (writeSelectors838x r a) a = some r')
    (h14 : (r 14).getLsbD 27 = false) :
    ActsBack838x a (readAction838x r' (readSelectors838x r')) ↔ ActsReadable838x a := by
  obtain ⟨hivalid, hdrop, hsel⟩ := readSelectors838x_write h h14
  obtain ⟨hr1, hr2, hr3, hr4⟩ := readAction838x_rest r' (readSelectors838x r')
  have hword : ∀ x ∈ order838x, a.sel x = true →
      aif r' (aifIndex (readSelectors838x r').sel x) = actionWord838x a x := by
    intro x hx hs
    have hindex : aifIndex (readSelectors838x r').sel x = aifIndex a.sel x := by
      unfold aifIndex
      rw [List.filter_congr fun y hy => hsel y ((List.takeWhile_sublist _).subset hy)]
    rw [hindex, aif_writeAction838x h hx hs]
  have hfwd : .fwd ∈ order838x := by decide
  have hdata : ∀ x ∈ order838x, a.sel x = true →
      (readAction838x r' (readSelectors838x r')).data x =
        if x = .cpupri then 0 else if x = .nopri then a.data .nopri else actionWord838x a x := by
    intro x hx hs
    rw [readAction838x_data]
    by_cases hc : x = .cpupri
    · subst hc
      simp [readSelectors838x]
    · rw [if_neg hc]
      by_cases hn : x = .nopri
      · subst hn
        rw [if_pos rfl]
        split
        · rename_i hcpu
          rw [hword .cpupri (by decide) ((hsel _ (by decide)).symm.trans hcpu.2)]
          rfl
        · rw [if_pos ⟨by decide, hx, (hsel _ hx).trans hs⟩, hword _ hx hs]
          rfl
      · rw [if_neg fun h => hn h.1, if_pos ⟨hc, hx, (hsel _ hx).trans hs⟩, if_neg hn, hword _ hx hs]
  have hback : a.sel .fwd = true → _ := fun hs =>
    readAction838x_fwd r' (readSelectors838x r') ((hsel _ hfwd).trans hs)
  constructor
  · intro hb
    refine ⟨fun hs => ?_, fun hs => ?_, fun hs => ?_, fun hs => ?_⟩
    · obtain ⟨h1, h2, h3, h4⟩ := hback hs
      obtain ⟨h1', h2', h3', h4'⟩ := hb.fwd hs
      rw [hword _ hfwd hs] at h1 h2 h3 h4
      exact (fwdWord_iff a).1 ⟨(hdata _ hfwd hs).symm.trans (hb.data _ hfwd hs), h1'.symm.trans h1,
        h2'.symm.trans h2, h3'.symm.trans h3, h4'.symm.trans h4⟩
    · exact (hb.ovid hs).symm.trans hr3
    · exact (hb.ivid hs).symm.trans hr4
    · exact (hb.data .cpupri (by decide) hs).symm.trans (hdata _ (by decide) hs)
  · intro hread
    refine ⟨hr1.trans hivalid, hr2.trans hdrop, fun x hx => ?_, fun x hx hs => ?_, fun hs => ?_,
      fun hs => hr3.trans (hread.ovid hs).symm, fun hs => hr4.trans (hread.ivid hs).symm⟩
    · exact (readAction838x_sel r' _ hx).trans (hsel x hx)
    · rw [hdata x hx hs]
      cases x with
      | fwd => exact ((fwdWord_iff a).2 (hread.fwd hs)).1
      | ovid => simp [actionWord838x, hread.ovid hs]
      | ivid => simp [actionWord838x, hread.ivid hs]
      | cpupri => exact (hread.cpupri hs).symm
      | _ => rfl
    · obtain ⟨h1, h2, h3, h4⟩ := hback hs
      rw [hword _ hfwd hs] at h1 h2 h3 h4
      obtain ⟨-, h1', h2', h3', h4'⟩ := (fwdWord_iff a).2 (hread.fwd hs)
      exact ⟨h1.trans h1'.symm, h2.trans h2'.symm, h3.trans h3'.symm, h4.trans h4'.symm⟩

end Rtl838x

/-! ## RTL839x -/

/-- The actions that the writer of the RTL839x stores are back. -/
structure ActsBack839x (a back : PieActs) : Prop where
  drop : back.drop = a.drop
  fwd : a.drop = false → back.sel .fwd = a.sel .fwd ∧
    (a.sel .fwd = true → back.fwdAct = a.fwdAct ∧ back.data .fwd = a.data .fwd)
  sel : ∀ x ∈ [PieAction.bypass, .mpls, .nopri, .ovid, .ivid, .meter, .mir, .log],
    back.sel x = a.sel x
  data : ∀ x ∈ [PieAction.mpls, .nopri, .ovid, .ivid, .meter, .mir, .log], a.sel x = true →
    back.data x = a.data x
  ovid : a.sel .ovid = true → back.ovidAct = a.ovidAct
  ivid : a.sel .ivid = true → back.ividAct = a.ividAct
  mpls : a.sel .mpls = true → back.mplsAct = a.mplsAct
  log : a.sel .log = true → back.logOctets = a.logOctets
  bypass : a.sel .bypass = true → back.bypassAll = a.bypassAll ∧
    back.bypassIgrStp = a.bypassIgrStp ∧ back.bypassIbcSc = a.bypassIbcSc

/-- What the reader of the RTL839x needs: a forwarding action of three bits that is not the one of
drops, none when nothing is forwarded that would set selectors, data that fit, and none at all for
the actions that are not read. -/
structure ActsReadable839x (a : PieActs) : Prop where
  fwd : a.drop = false → a.sel .fwd = true → a.fwdAct.toNat < 8 ∧ a.fwdAct ≠ 1 ∧
    (a.data .fwd).toNat < 2 ^ 14
  idle : a.drop = false → a.sel .fwd = false → a.fwdAct.getLsbD 3 = false ∧
    (a.fwdAct.getLsbD 4 = true → a.sel .log = true) ∧
    (a.fwdAct.getLsbD 5 = true → a.sel .mir = true) ∧
    (a.fwdAct.getLsbD 6 = true → a.sel .meter = true) ∧
    (a.fwdAct.getLsbD 7 = true → a.sel .ivid = true)
  data : ∀ x ∈ [PieAction.mpls, .nopri, .ovid, .ivid, .meter], a.sel x = true → a.data x = 0
  mir : a.sel .mir = true → (a.data .mir).toNat < 2 ^ 2
  log : a.sel .log = true → (a.data .log).toNat < 2 ^ 11 ∧ a.logOctets = false
  ovid : a.sel .ovid = true → a.ovidAct = 0
  ivid : a.sel .ivid = true → a.ividAct = 0
  mpls : a.sel .mpls = true → a.mplsAct = 0

section Rtl839x

variable {a : PieActs} {r : Regs}

/-- The data of `r[14]`. -/
def dataParts839x (a : PieActs) : List (Part 32) :=
  [⟨18, 14, (a.data .fwd).setWidth 32⟩, flagPart 17 a.logOctets,
    ⟨6, 11, (a.data .log).setWidth 32⟩, ⟨3, 2, (a.data .mir).setWidth 32⟩,
    ⟨0, 3, (a.data .meter).setWidth 32 >>> 7⟩]

theorem dataParts839x_laid (a : PieActs) : Laid (dataParts839x a) := of_decide_eq_true rfl

theorem data_eq_pack (h14 : r 14 = 0) : writeAction839x r a 14 = pack (dataParts839x a) := by
  have h : writeAction839x r a 14 = r 14 ||| ((a.data .fwd).setWidth 32 &&& low 14) <<< 18 |||
      flag 17 a.logOctets ||| ((a.data .log).setWidth 32 &&& low 11) <<< 6 |||
      ((a.data .mir).setWidth 32 &&& low 2) <<< 3 |||
      ((a.data .meter).setWidth 32 >>> 7 &&& low 3) := rfl
  rw [h, h14]
  simp [dataParts839x, pack_cons, flagPart_word, word_mk]

theorem cut_setWidth {w : Nat} {x : BitVec 16} :
    (x.setWidth 32 &&& low w).setWidth 16 = x &&& low w := by
  apply BitVec.eq_of_getLsbD_eq
  intro i hi
  simp only [BitVec.getLsbD_setWidth, BitVec.getLsbD_and, getLsbD_low, hi, decide_true,
    Bool.true_and, show i < 32 by omega]

/-- The data that are read, cut to their bits. -/
theorem readAction839x_data (h14 : r 14 = 0) :
    (readAction839x (writeAction839x r a)).data .fwd = a.data .fwd &&& low 14 ∧
      (readAction839x (writeAction839x r a)).data .log = a.data .log &&& low 11 ∧
      (readAction839x (writeAction839x r a)).data .mir = a.data .mir &&& low 2 := by
  have hlaid := dataParts839x_laid a
  have hfwd := read_pack hlaid (x := ⟨18, 14, (a.data .fwd).setWidth 32⟩) (by simp [dataParts839x])
  have hlog := read_pack hlaid (x := ⟨6, 11, (a.data .log).setWidth 32⟩) (by simp [dataParts839x])
  have hmir := read_pack hlaid (x := ⟨3, 2, (a.data .mir).setWidth 32⟩) (by simp [dataParts839x])
  have htop : pack (dataParts839x a) >>> 18 &&& low 14 = pack (dataParts839x a) >>> 18 := by
    apply BitVec.eq_of_getLsbD_eq
    intro i hi
    simp only [BitVec.getLsbD_and, BitVec.getLsbD_ushiftRight, getLsbD_low]
    by_cases h : i < 14
    · simp [hi, h]
    · rw [BitVec.getLsbD_of_ge _ (18 + i) (by omega)]
      rfl
  simp only [readAction839x, data_eq_pack h14, hlog, hmir]
  rw [← htop, hfwd]
  exact ⟨cut_setWidth, cut_setWidth, cut_setWidth⟩

/-- The bits of the selectors; an action that is not masked reaches into them. -/
theorem getLsbD_action839x (h13 : ∀ i < 12, (r 13).getLsbD i = false) {i : Nat} (hi : i < 12) :
    (writeAction839x r a 13).getLsbD i =
      ((if a.drop then decide (i = 0 ∨ i = 3)
        else (decide (i = 3) && a.sel .fwd) || a.fwdAct.getLsbD i) ||
        (decide (i = 11) && a.sel .bypass) || (decide (i = 10) && a.sel .mpls) ||
        (decide (i = 9) && a.sel .nopri) || (decide (i = 8) && a.sel .ovid) ||
        (decide (i = 7) && a.sel .ivid) || (decide (i = 6) && a.sel .meter) ||
        (decide (i = 5) && a.sel .mir) || (decide (i = 4) && a.sel .log)) := by
  have hi' : i < 32 := by omega
  have h9 : ∀ i < 12, ((0x9 : BitVec 32) ||| 0x8).getLsbD i = decide (i = 0 ∨ i = 3) := by decide
  have hw : writeAction839x r a 13 = r 13 ||| (if a.drop then 0x9 ||| 0x8
      else flag 3 (a.sel .fwd) ||| a.fwdAct.setWidth 32) |||
    flag 11 (a.sel .bypass) ||| flag 10 (a.sel .mpls) ||| flag 9 (a.sel .nopri) |||
    flag 8 (a.sel .ovid) ||| flag 7 (a.sel .ivid) ||| flag 6 (a.sel .meter) |||
    flag 5 (a.sel .mir) ||| flag 4 (a.sel .log) := rfl
  simp only [hw, BitVec.getLsbD_or, h13 i hi, getLsbD_flag, hi', decide_true, Bool.true_and,
    Bool.false_or]
  cases a.drop with
  | true => simp only [if_true, h9 i hi]
  | false => simp [hi']

/-- The selectors that are read, but for forwarding. -/
theorem readAction839x_sel (h13 : ∀ i < 12, (r 13).getLsbD i = false) :
    (∀ x ∈ [PieAction.bypass, .mpls, .nopri, .ovid],
      (readAction839x (writeAction839x r a)).sel x = a.sel x) ∧
    ((readAction839x (writeAction839x r a)).sel .ivid =
      (!a.drop && a.fwdAct.getLsbD 7 || a.sel .ivid)) ∧
    ((readAction839x (writeAction839x r a)).sel .meter =
      (!a.drop && a.fwdAct.getLsbD 6 || a.sel .meter)) ∧
    ((readAction839x (writeAction839x r a)).sel .mir =
      (!a.drop && a.fwdAct.getLsbD 5 || a.sel .mir)) ∧
    (readAction839x (writeAction839x r a)).sel .log =
      (!a.drop && a.fwdAct.getLsbD 4 || a.sel .log) := by
  have hbit : ∀ i < 12, _ := fun i hi => getLsbD_action839x (a := a) h13 hi
  refine ⟨?_, ?_, ?_, ?_, ?_⟩
  · intro x hx
    simp only [List.mem_cons, List.not_mem_nil, or_false] at hx
    rcases hx with rfl | rfl | rfl | rfl
    · exact (hbit 11 (by decide)).trans (by simp)
    · exact (hbit 10 (by decide)).trans (by simp)
    · exact (hbit 9 (by decide)).trans (by simp)
    · exact (hbit 8 (by decide)).trans (by simp)
  · exact (hbit 7 (by decide)).trans (by cases a.drop <;> simp)
  · exact (hbit 6 (by decide)).trans (by cases a.drop <;> simp)
  · exact (hbit 5 (by decide)).trans (by cases a.drop <;> simp)
  · exact (hbit 4 (by decide)).trans (by cases a.drop <;> simp)

/-- The forwarding action that is read. -/
theorem readAction839x_fwd (h13 : ∀ i < 12, (r 13).getLsbD i = false) :
    (a.drop = true → (readAction839x (writeAction839x r a)).drop = true) ∧
    (a.drop = false →
      (readAction839x (writeAction839x r a)).drop =
        ((a.sel .fwd || a.fwdAct.getLsbD 3) && a.fwdAct &&& low 3 == 1) ∧
      (readAction839x (writeAction839x r a)).sel .fwd =
        ((a.sel .fwd || a.fwdAct.getLsbD 3) && a.fwdAct &&& low 3 != 1) ∧
      (readAction839x (writeAction839x r a)).fwdAct =
        if (a.sel .fwd || a.fwdAct.getLsbD 3) && a.fwdAct &&& low 3 != 1 then a.fwdAct &&& low 3
        else 0) := by
  have hbit : ∀ i < 12, _ := fun i hi => getLsbD_action839x (a := a) h13 hi
  have h3 := hbit 3 (by decide)
  have hact : writeAction839x r a 13 &&& low 3 =
      if a.drop then 1 else (a.fwdAct &&& low 3).setWidth 32 := by
    apply BitVec.eq_of_getLsbD_eq
    intro i hi
    rw [BitVec.getLsbD_and, getLsbD_low]
    by_cases hlt : i < 3
    · rw [hbit i (by omega)]
      cases a.drop with
      | true => interval_cases i <;> simp
      | false => interval_cases i <;> simp
    · cases a.drop with
      | true =>
        simp [hlt]
        omega
      | false => simp [hlt]
  constructor
  · intro hd
    simp only [hd, if_true] at h3 hact
    simp [readAction839x, h3, hact]
  · intro hd
    have hone : ∀ x : BitVec 8, (x.setWidth 32 == (1 : BitVec 32)) = (x == 1) := by decide +kernel
    have hback : ∀ x : BitVec 8, (x.setWidth 32).setWidth 8 = x := by simp
    have h3' : (writeAction839x r a 13).getLsbD 3 = (a.sel .fwd || a.fwdAct.getLsbD 3) := by
      rw [h3]
      simp [hd]
    simp only [hd, Bool.false_eq_true, if_false] at hact
    simp only [readAction839x, h3', hact, bne, hone, hback, true_and]

/-- The bypass flags are read back. -/
theorem readAction839x_bypass (h16 : r 16 = 0) :
    (readAction839x (writeAction839x r a)).bypassAll = a.bypassAll ∧
      (readAction839x (writeAction839x r a)).bypassIgrStp = a.bypassIgrStp ∧
      (readAction839x (writeAction839x r a)).bypassIbcSc = a.bypassIbcSc := by
  have hw : writeAction839x r a 16 = r 16 ||| ((a.data .ovid).setWidth 32 &&& 0xf) <<< 28 |||
    ((a.data .nopri).setWidth 32 &&& 0x7) <<< 20 ||| (a.mplsAct.setWidth 32 &&& 0x7) <<< 20 |||
    ((a.data .mpls).setWidth 32 &&& 0x7) <<< 20 ||| flag 9 a.bypassAll ||| flag 8 a.bypassIgrStp |||
    flag 7 a.bypassIbcSc := rfl
  refine ⟨?_, ?_, ?_⟩ <;> simp [readAction839x, hw, h16]

/-- The actions of the RTL839x come back exactly when they are readable. -/
theorem actsBack839x_iff (h13 : ∀ i < 12, (r 13).getLsbD i = false) (h14 : r 14 = 0)
    (h16 : r 16 = 0) :
    ActsBack839x a (readAction839x (writeAction839x r a)) ↔ ActsReadable839x a := by
  obtain ⟨hsel, hivid, hmeter, hmir, hlog⟩ := readAction839x_sel (a := a) h13
  obtain ⟨hdrop, hfwd⟩ := readAction839x_fwd (a := a) h13
  obtain ⟨hdataFwd, hdataLog, hdataMir⟩ := readAction839x_data (a := a) h14
  have hbypass := readAction839x_bypass (a := a) h16
  have hzero : ∀ x ∈ [PieAction.mpls, .nopri, .ovid, .ivid, .meter],
      (readAction839x (writeAction839x r a)).data x = 0 := by
    intro x hx
    simp only [List.mem_cons, List.not_mem_nil, or_false] at hx
    rcases hx with rfl | rfl | rfl | rfl | rfl <;> rfl
  have hand : ∀ w, a.fwdAct &&& low w = a.fwdAct ↔ a.fwdAct.toNat < 2 ^ w := fun _ => and_low_eq_iff
  constructor
  · intro hb
    have hbit : a.drop = false → ∀ i x, x ∈ [PieAction.bypass, .mpls, .nopri, .ovid, .ivid, .meter,
        .mir, .log] → (readAction839x (writeAction839x r a)).sel x =
          (!a.drop && a.fwdAct.getLsbD i || a.sel x) → a.fwdAct.getLsbD i = true →
        a.sel x = true := by
      intro hd i x hx h hi
      rw [← hb.sel x hx, h, hd, hi]
      rfl
    exact
      { fwd := by
          intro hd hs
          obtain ⟨h1, -, h3⟩ := hfwd hd
          obtain ⟨-, hback⟩ := hb.fwd hd
          obtain ⟨hact, hdata⟩ := hback hs
          have hone : (a.fwdAct &&& low 3 == 1) = false := by
            have hfalse := h1.symm.trans (hb.drop.trans hd)
            rwa [hs, Bool.true_or, Bool.true_and] at hfalse
          have hcut : a.fwdAct &&& low 3 = a.fwdAct := by
            rw [hs, bne, hone] at h3
            exact h3.symm.trans hact
          exact ⟨(hand 3).1 hcut, fun h => ne_of_beq_false hone (hcut.trans h),
            and_low_eq_iff.1 (hdataFwd.symm.trans hdata)⟩
        idle := by
          intro hd hs
          obtain ⟨h1, h2, -⟩ := hfwd hd
          have h1' := h1.symm.trans (hb.drop.trans hd)
          have h2' := h2.symm.trans ((hb.fwd hd).1.trans hs)
          refine ⟨?_, hbit hd 4 .log (by simp) hlog, hbit hd 5 .mir (by simp) hmir,
            hbit hd 6 .meter (by simp) hmeter, hbit hd 7 .ivid (by simp) hivid⟩
          rw [hs, Bool.false_or] at h1' h2'
          cases hone : (a.fwdAct &&& low 3 == 1) with
          | true => rwa [hone, Bool.and_true] at h1'
          | false => rwa [bne, hone, Bool.not_false, Bool.and_true] at h2'
        data := fun x hx hs =>
          (hb.data x (by revert hx; cases x <;> simp) hs).symm.trans (hzero x hx)
        mir := fun hs => and_low_eq_iff.1 (hdataMir.symm.trans (hb.data .mir (by simp) hs))
        log := fun hs =>
          ⟨and_low_eq_iff.1 (hdataLog.symm.trans (hb.data .log (by simp) hs)), (hb.log hs).symm⟩
        ovid := fun hs => (hb.ovid hs).symm
        ivid := fun hs => (hb.ivid hs).symm
        mpls := fun hs => (hb.mpls hs).symm }
  · intro hread
    have hlt : ∀ i, 3 ≤ i → a.drop = false → a.sel .fwd = true → a.fwdAct.getLsbD i = false :=
      fun i hi hd hs => getLsbD_eq_false (hread.fwd hd hs).1 i hi
    have hsel' : ∀ i x, 3 ≤ i →
        (a.drop = false → a.sel .fwd = false → a.fwdAct.getLsbD i = true → a.sel x = true) →
        (!a.drop && a.fwdAct.getLsbD i || a.sel x) = a.sel x := by
      intro i x hi h
      cases hd : a.drop with
      | true => rfl
      | false =>
        cases hs : a.sel .fwd with
        | true => rw [hlt i hi hd hs]; rfl
        | false =>
          cases hb : a.fwdAct.getLsbD i with
          | true => rw [h hd hs hb]; rfl
          | false => rfl
    have hfirst : a.drop = false → (a.sel .fwd || a.fwdAct.getLsbD 3) = a.sel .fwd := by
      intro hd
      cases hs : a.sel .fwd with
      | true => rfl
      | false => exact (hread.idle hd hs).1
    have hact : a.drop = false → a.sel .fwd = true → a.fwdAct &&& low 3 = a.fwdAct :=
      fun hd hs => (hand 3).2 (hread.fwd hd hs).1
    have hone : a.drop = false → a.sel .fwd = true → (a.fwdAct &&& low 3 == 1) = false :=
      fun hd hs => beq_false_of_ne ((hact hd hs).symm ▸ (hread.fwd hd hs).2.1)
    exact
      { drop := by
          cases hd : a.drop with
          | true => exact hdrop hd
          | false =>
            rw [(hfwd hd).1, hfirst hd]
            cases hs : a.sel .fwd with
            | true => exact hone hd hs
            | false => rfl
        fwd := by
          intro hd
          obtain ⟨-, h2, h3⟩ := hfwd hd
          rw [hfirst hd] at h2 h3
          refine ⟨?_, fun hs => ⟨?_, ?_⟩⟩
          · rw [h2]
            cases hs : a.sel .fwd with
            | true => rw [bne, hone hd hs]; rfl
            | false => rfl
          · rw [h3, hs, bne, hone hd hs]
            exact hact hd hs
          · exact hdataFwd.trans (and_low_eq_iff.2 (hread.fwd hd hs).2.2)
        sel := by
          intro x hx
          simp only [List.mem_cons, List.not_mem_nil, or_false] at hx
          rcases hx with rfl | rfl | rfl | rfl | rfl | rfl | rfl | rfl
          · exact hsel .bypass (by simp)
          · exact hsel .mpls (by simp)
          · exact hsel .nopri (by simp)
          · exact hsel .ovid (by simp)
          · exact hivid.trans (hsel' 7 .ivid (by decide) fun hd hs => (hread.idle hd hs).2.2.2.2)
          · exact hmeter.trans (hsel' 6 .meter (by decide) fun hd hs => (hread.idle hd hs).2.2.2.1)
          · exact hmir.trans (hsel' 5 .mir (by decide) fun hd hs => (hread.idle hd hs).2.2.1)
          · exact hlog.trans (hsel' 4 .log (by decide) fun hd hs => (hread.idle hd hs).2.1)
        data := by
          intro x hx hs
          by_cases hm : x = .mir
          · subst hm
            exact hdataMir.trans (and_low_eq_iff.2 (hread.mir hs))
          · by_cases hl : x = .log
            · subst hl
              exact hdataLog.trans (and_low_eq_iff.2 (hread.log hs).1)
            · have hx' : x ∈ [PieAction.mpls, .nopri, .ovid, .ivid, .meter] := by
                simpa [hm, hl] using hx
              exact (hzero x hx').trans (hread.data x hx' hs).symm
        ovid := fun hs => (hread.ovid hs).symm
        ivid := fun hs => (hread.ivid hs).symm
        mpls := fun hs => (hread.mpls hs).symm
        log := fun hs => (hread.log hs).2.symm
        bypass := fun _ => hbypass }

end Rtl839x

/-! ## Entries -/

/-- The actions that the writer of the family stores are back. -/
def ActsBack : PieFamily → PieActs → PieActs → Prop
  | .rtl838x => ActsBack838x
  | .rtl839x => ActsBack839x

def ActsReadable : PieFamily → PieActs → Prop
  | .rtl838x => ActsReadable838x
  | .rtl839x => ActsReadable839x

/-- What is read of an entry is its rule: the fixed fields, the fields of the template, and the
actions. -/
structure RoundTrip (f : PieFamily) (tSelect : BitVec 32) (pr : PieRule) (a : PieActs)
    (back : PieRule × PieActs) : Prop where
  fixed : FixedBack pr back.1
  templated : ∀ x ∈ selectedTemplate f tSelect pr.tid.data,
    fieldAs pr.isIpv6 back.1 x = fieldData pr x
  acts : ActsBack f a back.2

section Entry

variable {f : PieFamily} {tSelect : BitVec 32} {pr : PieRule} {a : PieActs}
  {fields : List TemplateField} {r : Regs}

/-- The words that the actions are added to have no bits there. -/
theorem ruleWords_actions (hv : pr.valid = true) (hl : fields.length = 12) :
    (ruleWords .rtl838x pr fields 14).getLsbD 27 = false ∧
      (∀ i < 12, (ruleWords .rtl839x pr fields 13).getLsbD i = false) ∧
      ruleWords .rtl839x pr fields 14 = 0 ∧ ruleWords .rtl839x pr fields 16 = 0 := by
  obtain ⟨a₀, a₁, a₂, a₃, a₄, a₅, a₆, a₇, a₈, a₉, a₁₀, a₁₁, rfl⟩ := exists_twelve hl
  simp only [ruleWords, hv, if_true, writeTemplated_twelve]
  refine ⟨?_, ?_, ?_, ?_⟩
  · simp [writePair_rtl838x, writeFixedFields, conditions]
  · intro i hi
    simp [writePair_rtl839x, writeFixedFields, conditions, show i < 16 by omega,
      show i ≠ 15 by omega, show i ≠ 14 by omega, show i ≠ 13 by omega, show i ≠ 12 by omega]
  · simp [writePair_rtl839x, writeFixedFields]
  · simp [writePair_rtl839x, writeFixedFields]

theorem actsBack_iff (h : ruleRegs f pr a fields = some r) (hv : pr.valid = true)
    (hl : fields.length = 12) :
    ActsBack f a (readAction f r) ↔ ActsReadable f a := by
  obtain ⟨h838, h13, h14, h16⟩ := ruleWords_actions hv hl
  cases f with
  | rtl838x => exact actsBack838x_iff h h838
  | rtl839x =>
    simp only [ruleRegs, Option.some.injEq] at h
    subst h
    exact actsBack839x_iff h13 h14 h16

/-- An entry reads back as its rule exactly when its fixed fields fit, the fields of the template
are readable, and so are the actions. -/
theorem roundTrip_iff (f : PieFamily) (tSelect : BitVec 32) (pr : PieRule) (a : PieActs)
    (hv : pr.valid = true) (ht : ((tSelect >>> (pr.tid.data.toNat * 3)) &&& 0x7).toNat < 5)
    (hw : (ruleWrite f tSelect pr a).1 = true) :
    RoundTrip f tSelect pr a (ruleRead f tSelect (ruleWrite f tSelect pr a).2) ↔
      FixedFits pr ∧ TemplatedReadable f (selectedTemplate f tSelect pr.tid.data) pr ∧
        ActsReadable f a := by
  have hl := length_fixedTemplate f ht
  obtain ⟨r, hr, hwrite⟩ : ∃ r, ruleRegs f pr a (selectedTemplate f tSelect pr.tid.data) = some r ∧
      (ruleWrite f tSelect pr a).2 = r := by
    simp only [ruleWrite, hv, Bool.not_true, Bool.false_eq_true, if_false] at hw ⊢
    cases hr : ruleRegs f pr a (selectedTemplate f tSelect pr.tid.data) with
    | some r => exact ⟨r, rfl, rfl⟩
    | none =>
      rw [hr] at hw
      cases hw
  have hfixed := fixedBack_iff hr hv hl
  have hacts := actsBack_iff hr hv hl
  have hvalid := (conds_ruleRegs hr hv hl).1.trans hv
  have hfield : ∀ x ∈ (selectedTemplate f tSelect pr.tid.data).zipIdx,
      entryField f r x.2 = fieldData pr x.1 := by
    rintro ⟨x, i⟩ hx
    obtain ⟨hi, hx⟩ := List.mem_zipIdx' hx
    rw [entryField_ruleRegs hr hv hl i hi, ← hx]
  have htempl := templatedBack_iff (readFixedFields f r) ht rfl rfl hfield
  have hread : ruleRead f tSelect r = (readTemplated f r (readFixedFields f r)
      (selectedTemplate f tSelect (readFixedFields f r).tid.data), readAction f r) := by
    simp only [ruleRead, hvalid, Bool.not_true, Bool.false_eq_true, if_false]
  have hpart := fixedPart_readTemplated f r (readFixedFields f r)
  rw [hwrite, hread]
  constructor
  · rintro ⟨h1, h2, h3⟩
    have hfix := fixedBack_congr (hpart _) h1
    rw [hfix.tid] at h2
    exact ⟨hfixed.1 hfix, htempl.1 h2, hacts.1 h3⟩
  · rintro ⟨h1, h2, h3⟩
    have hfix := hfixed.2 h1
    rw [hfix.tid]
    exact ⟨fixedBack_congr (hpart _).symm hfix, htempl.2 h2, hacts.2 h3⟩

/-- A rule that drops the frames of a VLAN. -/
def vlanRule : PieRule := { valid := true, itag := ⟨5, 0xfff⟩, tid := ⟨0, 3⟩ }

theorem vlanRule_back :
    RoundTrip .rtl838x 0 vlanRule { drop := true }
      (ruleRead .rtl838x 0 (ruleWrite .rtl838x 0 vlanRule { drop := true }).2) :=
  (roundTrip_iff .rtl838x 0 vlanRule { drop := true } rfl (by decide) (by decide +kernel)).2
    ⟨by constructor <;> simp [vlanRule, Within],
      by constructor <;> simp [vlanRule, fieldData, Field.chunk, chunk, AddressReadable,
        selectedTemplate, fixedTemplate, fixedTemplates838x],
      by constructor <;> simp⟩

/-- A rule for the frames of one station. -/
def stationRule : PieRule :=
  { valid := true, smac := ⟨0x020000000001, 0xffffffffffff⟩, tid := ⟨0, 3⟩ }

/-- The mask of its address comes back as the address. -/
theorem stationRule_not_back :
    stationRule.valid = true ∧ (ruleWrite .rtl838x 0 stationRule { drop := true }).1 = true ∧
      selectedTemplate .rtl838x 0 stationRule.tid.data = fixedTemplate .rtl838x 0 ∧
      ¬RoundTrip .rtl838x 0 stationRule { drop := true }
        (ruleRead .rtl838x 0 (ruleWrite .rtl838x 0 stationRule { drop := true }).2) := by
  refine ⟨rfl, by decide +kernel, rfl, fun h => ?_⟩
  have hmac := h.templated (.smac 0) (by decide)
  have hne : fieldAs false (ruleRead .rtl838x 0
      (ruleWrite .rtl838x 0 stationRule { drop := true }).2).1 (.smac 0) ≠
      fieldData stationRule (.smac 0) := by
    decide +kernel
  exact hne hmac

end Entry

end Lede.Otto
