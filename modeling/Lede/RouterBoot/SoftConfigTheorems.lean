/-
Lede.RouterBoot.SoftConfigTheorems — the status file of the soft_config driver, and
the images it writes.

"clean" is the CRC word of the buffer being non-zero. Every path that changes the
buffer alone, or leaves the chip in doubt, clears that word, so "clean" can be
trusted (`SeqReach.inSync`). The other direction has two gaps: the CRC of the
buffer may itself be 0, and a discard takes over whatever word the chip holds.

An image carries the right CRC when the word it was computed over was 0. The test
for that and the computation are two critical sections, and a second commit may
come between them (`writtenTwice`).
-/
import Lede.RouterBoot.SoftConfig

namespace Lede.RouterBoot

open Lede.Lib

section Words

variable {s : SoftConfig} {n o : Nat} {new old : Nat → UInt8}

theorem overlay_of_lt (h : o < n) : overlay n new old o = new o := if_pos h

theorem get32_overlay (h : o + 4 ≤ n) : get32 (overlay n new old) o = get32 new o := by
  apply get32_congr
  intro i hi
  exact overlay_of_lt (by omega)

@[simp] theorem getCrc_clrCrc : getCrc (clrCrc s) = 0 := get32_put32_self s.buf 4 0

@[simp] theorem clrCrc_flash : (clrCrc s).flash = s.flash := rfl

@[simp] theorem clrCrc_buflen : (clrCrc s).buflen = s.buflen := rfl

@[simp] theorem clrCrc_attrs : (clrCrc s).attrs = s.attrs := rfl

theorem getCrc_setCrc : getCrc (setCrc s) = scCrc s.buf s.buflen := by
  have hlt : scCrc s.buf s.buflen < 2 ^ 32 := BitVec.isLt _
  unfold getCrc setCrc
  rw [get32_put32_self, Nat.mod_eq_of_lt hlt]

end Words

/-! ## The status file -/

/-- The buffer is what the chip holds. -/
def InSync (s : SoftConfig) : Prop := ∀ a < s.buflen, s.buf a = s.flash a

/-- The states accesses one after the other reach from `s₀`. -/
inductive SeqReach (soc : Soc) (s₀ : SoftConfig) : SoftConfig → Prop
  | init : SeqReach soc s₀ s₀
  | op {s : SoftConfig} (o : Op) : SeqReach soc s₀ s → SeqReach soc s₀ (o.apply soc s)

/-- The word that marks the buffer as clean is not 0: for a commit the CRC of the
buffer, for a discard the CRC word on the chip. -/
def MarkNonzero (s : SoftConfig) (flush : Bool) : Prop :=
  if flush then scCrc s.buf s.buflen ≠ 0 else get32 s.flash 4 ≠ 0

/-- The invariant: the buffer has a CRC word, and a non-zero one tells the truth. -/
structure Sound (s : SoftConfig) : Prop where
  buflen_ge : 8 ≤ s.buflen
  sync : getCrc s ≠ 0 → InSync s

section Status

variable {soc : Soc} {s s' s₀ : SoftConfig}

theorem Sound.attrStored (h : Sound s) (capable : Bool) (tag : ScTag) (buf : String) :
    Sound (attrStored soc s capable tag buf) := by
  unfold RouterBoot.attrStored
  split
  · exact h
  · exact ⟨h.buflen_ge, fun hne => absurd getCrc_clrCrc hne⟩

/-- What a critical section leaves when it succeeds. -/
theorem commitCritical_true {flush : Bool} {a : MtdAnswer} (hlen : 8 ≤ s.buflen)
    (h : commitCritical flush s a = (true, s')) :
    s'.buflen = s.buflen ∧ InSync s' ∧ getCrc s' = if flush then scCrc s.buf s.buflen else get32 s.flash 4 := by
  cases flush with
  | true =>
    have h' : commitFlush s a = (true, s') := h
    unfold commitFlush at h'
    dsimp only at h'
    split at h'
    · exact absurd h' (by simp)
    · split at h'
      · obtain ⟨-, rfl⟩ := Prod.mk.inj h'
        refine ⟨rfl, fun x hx => ?_, getCrc_setCrc⟩
        exact (overlay_of_lt hx).symm
      · exact absurd h' (by simp)
  | false =>
    have h' : commitReread s a = (true, s') := h
    unfold commitReread at h'
    split at h'
    · obtain ⟨-, rfl⟩ := Prod.mk.inj h'
      refine ⟨rfl, fun x hx => overlay_of_lt hx, ?_⟩
      exact get32_overlay hlen
    · exact absurd h' (by simp)

/-- A commit changes the CRC word of the buffer and the chip, nothing else. -/
theorem commitFlush_frame {a : MtdAnswer} {r : Bool} (h : commitFlush s a = (r, s')) :
    s'.buflen = s.buflen ∧ s'.attrs = s.attrs ∧ s'.buf = (setCrc s).buf := by
  unfold commitFlush at h
  dsimp only at h
  split at h
  · obtain ⟨-, rfl⟩ := Prod.mk.inj h
    exact ⟨rfl, rfl, rfl⟩
  · split at h
    · obtain ⟨-, rfl⟩ := Prod.mk.inj h
      exact ⟨rfl, rfl, rfl⟩
    · obtain ⟨-, rfl⟩ := Prod.mk.inj h
      exact ⟨rfl, rfl, rfl⟩

theorem commitCritical_frame {flush : Bool} {a : MtdAnswer} {r : Bool}
    (h : commitCritical flush s a = (r, s')) : s'.buflen = s.buflen ∧ s'.attrs = s.attrs := by
  cases flush with
  | true =>
    obtain ⟨h₁, h₂, -⟩ := commitFlush_frame h
    exact ⟨h₁, h₂⟩
  | false =>
    have h' : commitReread s a = (r, s') := h
    unfold commitReread at h'
    split at h'
    · obtain ⟨-, rfl⟩ := Prod.mk.inj h'
      exact ⟨rfl, rfl⟩
    · obtain ⟨-, rfl⟩ := Prod.mk.inj h'
      exact ⟨rfl, rfl⟩

/-- A commit that had something to do and succeeded. -/
theorem scCommitStore_true {buf : String} {mtd : Option MtdAnswer} {flush : Bool} (hlen : 8 ≤ s.buflen)
    (hcrc : getCrc s = 0) (hbuf : kstrtobool buf = some flush)
    (h : scCommitStore s buf mtd = (true, s')) :
    InSync s' ∧ getCrc s' = if flush then scCrc s.buf s.buflen else get32 s.flash 4 := by
  unfold scCommitStore at h
  rw [if_neg (by simpa using hcrc), hbuf] at h
  cases mtd with
  | none => exact absurd h (by simp)
  | some a =>
    dsimp only at h
    rcases hcrit : commitCritical flush s a with ⟨_ | _, s₁⟩
    · rw [hcrit] at h
      exact absurd h (by simp)
    · rw [hcrit] at h
      obtain ⟨-, rfl⟩ := Prod.mk.inj h
      exact (commitCritical_true hlen hcrit).2

theorem Sound.commit (h : Sound s) (buf : String) (mtd : Option MtdAnswer) :
    Sound (scCommitStore s buf mtd).2 := by
  unfold scCommitStore
  split
  · exact h
  · cases kstrtobool buf with
    | none => exact h
    | some flush =>
      cases mtd with
      | none => exact h
      | some a =>
        dsimp only
        rcases hcrit : commitCritical flush s a with ⟨_ | _, s₁⟩
        · have hlen := (commitCritical_frame hcrit).1
          exact ⟨hlen ▸ h.buflen_ge, fun hne => absurd getCrc_clrCrc hne⟩
        · obtain ⟨hlen, hsync, -⟩ := commitCritical_true h.buflen_ge hcrit
          exact ⟨hlen ▸ h.buflen_ge, fun _ => hsync⟩

theorem rbSoftconfigInit_sound {part : SoftPart} {mem : Nat → UInt8} {a : MtdAnswer}
    (h : rbSoftconfigInit part mem a = some s₀) : Sound s₀ := by
  unfold rbSoftconfigInit at h
  split at h
  · exact absurd h (by simp)
  · dsimp only at h
    split at h
    · exact absurd h (by simp)
    · obtain rfl := Option.some.inj h
      exact ⟨part.size_ge, fun _ x hx => overlay_of_lt hx⟩

/-- Every state a run reaches is sound. -/
theorem SeqReach.sound (h₀ : Sound s₀) (h : SeqReach soc s₀ s) : Sound s := by
  induction h with
  | init => exact h₀
  | op o _ ih =>
    cases o with
    | store capable tag buf => exact ih.attrStored capable tag buf
    | commit buf mtd => exact ih.commit buf mtd

/-- The status law. "clean" is always true; and after a commit or a discard of
pending changes the file reads "clean" exactly when the word that marks it is not 0. -/
theorem scCommitShow_law {part : SoftPart} {mem : Nat → UInt8} {a : MtdAnswer}
    (hinit : rbSoftconfigInit part mem a = some s₀) (h : SeqReach soc s₀ s) :
    (scCommitShow s = true → InSync s) ∧
    ∀ (buf : String) (flush : Bool) (mtd : Option MtdAnswer) (s' : SoftConfig),
      scCommitShow s = false → kstrtobool buf = some flush → scCommitStore s buf mtd = (true, s') →
      (scCommitShow s' = true ↔ MarkNonzero s flush) := by
  have hsound := h.sound (rbSoftconfigInit_sound hinit)
  refine ⟨fun hclean => hsound.sync (by simpa [scCommitShow] using hclean), ?_⟩
  intro buf flush mtd s' hdirty hbuf hok
  have hcrc : getCrc s = 0 := by simpa [scCommitShow] using hdirty
  obtain ⟨-, hmark⟩ := scCommitStore_true hsound.buflen_ge hcrc hbuf hok
  have hshow : scCommitShow s' = true ↔ getCrc s' ≠ 0 := by simp [scCommitShow]
  rw [hshow, hmark]
  unfold MarkNonzero
  cases flush with
  | true => exact Iff.rfl
  | false => exact Iff.rfl

/-- A chip with one tag, `boot_delay`, and `crc` in the first byte of its CRC word. -/
def oneTagPart (crc : UInt8) : SoftPart where
  size := 20
  size_ge := by decide
  dvd_size := by decide
  flash := fun a =>
    [0x53, 0x6f, 0x66, 0x74, crc, 0, 0, 0, 2, 0, 4, 0, 1, 0, 0, 0, 0, 0, 0, 0].getD a 0xff

/-- Everything works, and 20 bytes are moved. -/
def allMoved : MtdAnswer := { eraseOk := true, ok := true, bytes := 20, left := fun _ => 0xff }

/-- The driver on a chip with a CRC, and on one without. -/
def markedDriver : SoftConfig := (rbSoftconfigInit (oneTagPart 7) (fun _ => 0) allMoved).get (by decide)

def unmarkedDriver : SoftConfig := (rbSoftconfigInit (oneTagPart 0) (fun _ => 0) allMoved).get (by decide)

/-- A new boot delay, discarded: the chip has a CRC, and the file reads "clean". -/
theorem scCommitShow_law_marked :
    scCommitShow (scCommitStore (attrStored .other markedDriver true .bootDelay "5") "n"
      (some allMoved)).2 = true := by
  have hreach : SeqReach .other markedDriver (attrStored .other markedDriver true .bootDelay "5") :=
    SeqReach.op (.store true .bootDelay "5") SeqReach.init
  have hlaw := scCommitShow_law (Option.some_get _).symm hreach
  have hmark : MarkNonzero (attrStored .other markedDriver true .bootDelay "5") false := by
    show get32 (attrStored .other markedDriver true .bootDelay "5").flash 4 ≠ 0
    decide
  exact (hlaw.2 "n" false (some allMoved) _ (by decide) (by decide) rfl).mpr hmark

/-- The same on a chip whose CRC word is 0: the discard succeeds, and the file reads
"dirty". -/
theorem scCommitShow_unmarked : ¬ ∀ (soc : Soc) (part : SoftPart) (mem : Nat → UInt8) (a : MtdAnswer)
    (s₀ s : SoftConfig), rbSoftconfigInit part mem a = some s₀ → SeqReach soc s₀ s →
    (scCommitShow s = true → InSync s) ∧
    ∀ (buf : String) (flush : Bool) (mtd : Option MtdAnswer) (s' : SoftConfig),
      scCommitShow s = false → kstrtobool buf = some flush → scCommitStore s buf mtd = (true, s') →
      scCommitShow s' = true := by
  intro hall
  have hreach : SeqReach .other unmarkedDriver (attrStored .other unmarkedDriver true .bootDelay "5") :=
    SeqReach.op (.store true .bootDelay "5") SeqReach.init
  have hlaw := (hall .other (oneTagPart 0) (fun _ => 0) allMoved unmarkedDriver _
    (Option.some_get _).symm hreach).2 "n" false (some allMoved) _ (by decide) (by decide) rfl
  exact absurd hlaw (by decide)

end Status

/-! ## Images -/

/-- The CRC word of an image is the CRC of the image with that word cleared. -/
def CrcOk (buflen : Nat) (img : Nat → UInt8) : Prop := get32 img 4 = scCrc (put32 img 4 0) buflen

/-- The values in the buffer that tag stores have put there, after a step: a store
replaces the value of its tag, a discard drops all of them. -/
def pending (soc : Soc) (y : Sys) (p : ScTag → Option Nat) : Act → ScTag → Option Nat
  | .store capable tag buf =>
    match scAttrStore soc y.sc capable tag buf with
    | .error _ => p
    | .ok data => fun t => if t = tag then some data else p t
  | .critical pid _ => if y.phase pid = .tested false then fun _ => none else p
  | _ => p

/-- The states any interleaving reaches, with the stores that are pending in them. -/
inductive Reach (soc : Soc) (s₀ : SoftConfig) : Sys → (ScTag → Option Nat) → Prop
  | init : Reach soc s₀ { sc := s₀, phase := fun _ => .idle } fun _ => none
  | step {y y' : Sys} {p : ScTag → Option Nat} (a : Act) : Reach soc s₀ y p → step soc y a = some y' →
      Reach soc s₀ y' (pending soc y p a)

section Images

variable {soc : Soc} {s s' s₀ : SoftConfig} {y y' : Sys}

/-- Where stores go: behind the CRC word, and no two tags to one place. -/
structure Placed (attrs : ScTag → Payload) : Prop where
  behind : ∀ tag, (attrs tag).len = 4 → 8 ≤ (attrs tag).ofs
  apart : ∀ tag tag', (attrs tag).len = 4 → (attrs tag').len = 4 → tag ≠ tag' →
    (attrs tag).ofs + 4 ≤ (attrs tag').ofs ∨ (attrs tag').ofs + 4 ≤ (attrs tag).ofs

theorem tagId_injective {t t' : ScTag} (h : t.tagId = t'.tagId) : t = t' := by
  cases t <;> cases t' <;> first | rfl | exact absurd h (by decide)

/-- The payload of a tag, from its node in the list. -/
theorem rbSoftconfigInit_node {part : SoftPart} {mem : Nat → UInt8} {a : MtdAnswer}
    (hsize : part.size ≤ 65536) (h : rbSoftconfigInit part mem a = some s₀) {tag : ScTag}
    (hlen : (s₀.attrs tag).len = 4) :
    ∃ o, Node (fun i => s₀.buf (8 + i)) 0 o ∧ (s₀.attrs tag).ofs = o + 12 ∧
      get32 (fun i => s₀.buf (8 + i)) o / 65536 = 4 ∧
      get32 (fun i => s₀.buf (8 + i)) o % 65536 = tag.tagId := by
  unfold rbSoftconfigInit at h
  split at h
  · exact absurd h (by simp)
  · dsimp only at h
    split at h
    · exact absurd h (by simp)
    · obtain rfl := Option.some.inj h
      dsimp only at hlen ⊢
      split at hlen
      · exact absurd hlen (by decide)
      · next q hq =>
        obtain ⟨o, hnode, hlt, hofs, hl, hid⟩ := routerbootTagFind_node hq
        refine ⟨o, hnode, ?_, hl.symm.trans hlen, hid⟩
        show (q.ofs + 8) % 65536 = o + 12
        omega

theorem rbSoftconfigInit_placed {part : SoftPart} {mem : Nat → UInt8} {a : MtdAnswer}
    (hsize : part.size ≤ 65536) (h : rbSoftconfigInit part mem a = some s₀) : Placed s₀.attrs := by
  refine ⟨fun tag hlen => ?_, fun tag tag' hlen hlen' hne => ?_⟩
  · obtain ⟨o, -, hofs, -⟩ := rbSoftconfigInit_node hsize h hlen
    omega
  · obtain ⟨o, hnode, hofs, hl, hid⟩ := rbSoftconfigInit_node hsize h hlen
    obtain ⟨o', hnode', hofs', hl', hid'⟩ := rbSoftconfigInit_node hsize h hlen'
    have hoo : o ≠ o' := by
      intro he
      subst he
      exact hne (tagId_injective (hid.symm.trans hid'))
    have hapart := hnode.apart hnode' hl hl' hoo
    omega

/-- A store that succeeds has a payload of one word. -/
theorem scAttrStore_len {capable : Bool} {tag : ScTag} {buf : String} {data : Nat}
    (h : scAttrStore soc s capable tag buf = .ok data) : (s.attrs tag).len = 4 := by
  have htvs : ∀ {tvs : Option (List (Nat × String))} {len : Nat},
      scTagStoreU32tvs tvs len buf = .ok data → len = 4 := by
    intro tvs len hok
    unfold scTagStoreU32tvs at hok
    split at hok
    · exact absurd hok (by simp)
    · split at hok
      · exact absurd hok (by simp)
      · next hlen => exact Decidable.not_not.mp hlen
  have hbts : ∀ {f t : String} {len : Nat}, scTagStoreBoolts f t len buf = .ok data → len = 4 := by
    intro f t len hok
    unfold scTagStoreBoolts at hok
    split at hok
    · exact absurd hok (by simp)
    · next hlen => exact Decidable.not_not.mp hlen
  unfold scAttrStore at h
  split at h
  · exact absurd h (by simp)
  · split at h
    · exact absurd h (by simp)
    · next tstore hstore =>
      split at h
      · exact absurd h (by simp)
      · cases tag with
        | uartSpeed => exact htvs (by rw [← h, ← Option.some.inj hstore])
        | bootDelay =>
          rw [← Option.some.inj hstore] at h
          unfold scTagStoreBootdelays at h
          split at h
          · exact absurd h (by simp)
          · next hlen => exact Decidable.not_not.mp hlen
        | bootDevice => exact htvs (by rw [← h, ← Option.some.inj hstore])
        | bootKey => exact hbts (by rw [← h, ← Option.some.inj hstore])
        | cpuMode => exact hbts (by rw [← h, ← Option.some.inj hstore])
        | biosVersion => exact absurd hstore (by simp [scTagStore])
        | bootProto => exact hbts (by rw [← h, ← Option.some.inj hstore])
        | cpufreqIndex =>
          have hcpu : (if soc = .other then none else some (scTagStoreU32tvs (scCpufreqIndexes soc)))
              = some tstore := hstore
          split at hcpu
          · exact absurd hcpu (by simp)
          · exact htvs (by rw [← h, ← Option.some.inj hcpu])
        | booter => exact hbts (by rw [← h, ← Option.some.inj hstore])
        | silentBoot => exact hbts (by rw [← h, ← Option.some.inj hstore])

/-- The CRC word lies before every stored word. -/
theorem get32_putCrc {m : Nat → UInt8} {o : Nat} (h : 8 ≤ o) (c : Nat) :
    get32 (put32 m 4 c) o = get32 m o :=
  get32_put32_of_disjoint m c (Or.inr h)

/-- The pending stores are in the buffer, whoever ran in between. -/
structure Kept (s₀ : SoftConfig) (y : Sys) (p : ScTag → Option Nat) : Prop where
  attrs : y.sc.attrs = s₀.attrs
  buflen : y.sc.buflen = s₀.buflen
  len : ∀ tag v, p tag = some v → (s₀.attrs tag).len = 4
  word : ∀ tag v, p tag = some v → get32 y.sc.buf (s₀.attrs tag).ofs = v % 2 ^ 32

theorem Kept.putCrc {p : ScTag → Option Nat} (hp : Placed s₀.attrs) (h : Kept s₀ y p) {sc : SoftConfig}
    {c : Nat} (hattrs : sc.attrs = y.sc.attrs) (hlen : sc.buflen = y.sc.buflen)
    (hbuf : sc.buf = put32 y.sc.buf 4 c) (phase : Nat → Phase) :
    Kept s₀ { sc := sc, phase := phase } p := by
  refine ⟨hattrs.trans h.attrs, hlen.trans h.buflen, h.len, fun tag v hv => ?_⟩
  show get32 sc.buf _ = _
  rw [hbuf, get32_putCrc (hp.behind tag (h.len tag v hv)), h.word tag v hv]

theorem Kept.store {p : ScTag → Option Nat} (hp : Placed s₀.attrs) (h : Kept s₀ y p) (capable : Bool)
    (tag : ScTag) (buf : String) :
    Kept s₀ { y with sc := attrStored soc y.sc capable tag buf }
      (pending soc y p (.store capable tag buf)) := by
  cases hst : scAttrStore soc y.sc capable tag buf with
  | error e =>
    simp only [pending, attrStored, hst]
    exact ⟨h.attrs, h.buflen, h.len, h.word⟩
  | ok data =>
    simp only [pending, attrStored, hst]
    have hlen : (s₀.attrs tag).len = 4 := h.attrs ▸ scAttrStore_len hst
    refine ⟨h.attrs, h.buflen, fun t v hv => ?_, fun t v hv => ?_⟩
    · split at hv
      · next ht => rw [ht, hlen]
      · exact h.len t v hv
    · have hbehind := hp.behind tag hlen
      show get32 (put32 (put32 y.sc.buf (y.sc.attrs tag).ofs data) 4 0) (s₀.attrs t).ofs = v % 2 ^ 32
      rw [h.attrs]
      split at hv
      · next ht =>
        obtain rfl := Option.some.inj hv
        rw [ht, get32_putCrc hbehind, get32_put32_self]
      · next ht =>
        have hlt := h.len t v hv
        rw [get32_putCrc (hp.behind t hlt), get32_put32_of_disjoint _ _ (hp.apart t tag hlt hlen ht),
          h.word t v hv]

/-- One step of any process. -/
theorem Kept.step {p : ScTag → Option Nat} (hp : Placed s₀.attrs) (h : Kept s₀ y p) {a : Act}
    (hstep : step soc y a = some y') : Kept s₀ y' (pending soc y p a) := by
  cases a with
  | store capable tag buf =>
    obtain rfl := Option.some.inj hstep
    exact h.store hp capable tag buf
  | test pid buf found =>
    rw [RouterBoot.step] at hstep
    split at hstep
    · exact absurd hstep (by simp)
    · split at hstep
      · obtain rfl := Option.some.inj hstep
        exact h
      · split at hstep
        · obtain rfl := Option.some.inj hstep
          exact h
        · split at hstep
          · obtain rfl := Option.some.inj hstep
            exact ⟨h.attrs, h.buflen, h.len, h.word⟩
          · obtain rfl := Option.some.inj hstep
            exact h
  | critical pid a =>
    rw [RouterBoot.step] at hstep
    split at hstep
    · next flush hphase =>
      rcases hcrit : commitCritical flush y.sc a with ⟨ok, sc⟩
      rw [hcrit] at hstep
      obtain rfl := Option.some.inj hstep
      cases flush with
      | true =>
        obtain ⟨hlen, hattrs, hbuf⟩ := commitFlush_frame hcrit
        have hnot : ¬ y.phase pid = .tested false := by
          rw [hphase]
          decide
        rw [pending, if_neg hnot]
        exact h.putCrc hp hattrs hlen hbuf _
      | false =>
        obtain ⟨hlen, hattrs⟩ := commitCritical_frame hcrit
        rw [pending, if_pos hphase]
        exact ⟨hattrs.trans h.attrs, hlen.trans h.buflen, fun _ _ hv => absurd hv (by simp),
          fun _ _ hv => absurd hv (by simp)⟩
    · exact absurd hstep (by simp)
  | fail pid =>
    rw [RouterBoot.step] at hstep
    split at hstep
    · obtain rfl := Option.some.inj hstep
      have hbuf : (clrCrc y.sc).buf = put32 y.sc.buf 4 0 := rfl
      exact h.putCrc hp clrCrc_attrs clrCrc_buflen hbuf _
    · exact absurd hstep (by simp)

/-- Any number of steps. -/
theorem Reach.kept (hp : Placed s₀.attrs) {p : ScTag → Option Nat} (h : Reach soc s₀ y p) :
    Kept s₀ y p := by
  induction h with
  | init => exact ⟨rfl, rfl, fun _ _ hv => absurd hv (by simp), fun _ _ hv => absurd hv (by simp)⟩
  | step a _ hstep ih => exact ih.step hp hstep

/-- A word that is 0 may be cleared. -/
theorem put32_zero_of_get32 {m : Nat → UInt8} {o : Nat} (h : get32 m o = 0) : put32 m o 0 = m := by
  have hbyte : ∀ i < 4, m (o + i) = 0 := by
    intro i hi
    unfold get32 get16 at h
    apply UInt8.toNat_inj.mp
    show (m (o + i)).toNat = 0
    interval_cases i
    · rw [Nat.add_zero]
      omega
    · omega
    · omega
    · have h3 : o + 2 + 1 = o + 3 := by omega
      rw [h3] at h
      omega
  funext a
  unfold put32
  split
  · next ha =>
    have := hbyte (a - o) (by omega)
    rw [Nat.add_sub_cancel' ha.1] at this
    rw [this]
    simp [leByte]
  · rfl

theorem put32_put32 (m : Nat → UInt8) (o v w : Nat) : put32 (put32 m o v) o w = put32 m o w := by
  funext a
  unfold put32
  split
  · rfl
  · rfl

/-- The CRC word that is set over a cleared one is right. -/
theorem setCrc_crcOk (h : getCrc s = 0) : CrcOk s.buflen (setCrc s).buf := by
  have hcrc : get32 (setCrc s).buf 4 = scCrc s.buf s.buflen := getCrc_setCrc
  have hclear : put32 (setCrc s).buf 4 0 = s.buf := by
    show put32 (put32 s.buf 4 _) 4 0 = s.buf
    rw [put32_put32, put32_zero_of_get32 h]
  unfold CrcOk
  rw [hcrc, hclear]

/-- Every image that is written while the CRC word was still cleared when its critical
section began carries the right CRC, and every pending store. -/
theorem written_crc_and_stores {part : SoftPart} {mem : Nat → UInt8} {a : MtdAnswer}
    {p : ScTag → Option Nat} {act : Act} {img : Nat → UInt8}
    (hinit : rbSoftconfigInit part mem a = some s₀) (hsize : part.size ≤ 65536)
    (h : Reach soc s₀ y p) (hw : written y act = some img) (hcrc : getCrc y.sc = 0) :
    CrcOk s₀.buflen img ∧
      ∀ tag v, p tag = some v → get32 img (s₀.attrs tag).ofs = v % 2 ^ 32 := by
  have hp := rbSoftconfigInit_placed hsize hinit
  have hkept := h.kept hp
  cases act with
  | critical pid ans =>
    rw [written] at hw
    split at hw
    · obtain rfl := Option.some.inj hw
      refine ⟨hkept.buflen ▸ setCrc_crcOk hcrc, fun tag v hv => ?_⟩
      show get32 (put32 y.sc.buf 4 _) _ = _
      rw [get32_putCrc (hp.behind tag (hkept.len tag v hv)), hkept.word tag v hv]
    · exact absurd hw (by simp)
  | store capable tag buf => exact absurd hw (by simp [written])
  | test pid buf found => exact absurd hw (by simp [written])
  | fail pid => exact absurd hw (by simp [written])

theorem step_test {pid : Nat} {buf : String} {flush : Bool} (hidle : y.phase pid = .idle)
    (hcrc : getCrc y.sc = 0) (hbuf : kstrtobool buf = some flush) :
    step soc y (.test pid buf true) = some (setPhase y pid (.tested flush)) := by
  rw [step, if_neg (by simpa using hidle), if_neg (by simpa using hcrc), hbuf]
  rfl

/-- A new boot delay is stored; processes 1 and 2 find the buffer dirty. -/
def stored : Sys where
  sc := attrStored .other markedDriver true .bootDelay "5"
  phase := fun _ => .idle

def bothTested : Sys := setPhase (setPhase stored 1 (.tested true)) 2 (.tested true)

theorem reach_bothTested :
    Reach .other markedDriver bothTested fun t => if t = .bootDelay then some 5 else none := by
  have h₁ : Reach .other markedDriver stored fun t => if t = .bootDelay then some 5 else none :=
    Reach.step (.store true .bootDelay "5") Reach.init rfl
  have hyes : kstrtobool "y" = some true := by decide
  have h₂ := Reach.step (.test 1 "y" true) h₁ (step_test rfl (by decide) hyes)
  exact Reach.step (.test 2 "y" true) h₂ (step_test rfl (by decide) hyes)

/-- The first of the two images. -/
theorem written_crc_and_stores_first :
    CrcOk 20 (setCrc bothTested.sc).buf ∧ get32 (setCrc bothTested.sc).buf 12 = 5 := by
  have hw : written bothTested (.critical 1 allMoved) = some (setCrc bothTested.sc).buf := rfl
  have h := written_crc_and_stores (Option.some_get _).symm (by decide) reach_bothTested hw (by decide)
  exact ⟨h.1, h.2 .bootDelay 5 (if_pos rfl)⟩

/-- Process 1 has committed; process 2 is about to. -/
def onceCommitted : Sys :=
  setPhase { bothTested with sc := (commitCritical true bothTested.sc allMoved).2 } 1 .idle

/-- The second image carries a CRC computed over the first CRC. -/
theorem writtenTwice : ¬ ∀ (soc : Soc) (part : SoftPart) (mem : Nat → UInt8) (a : MtdAnswer)
    (s₀ : SoftConfig) (y : Sys) (p : ScTag → Option Nat) (act : Act) (img : Nat → UInt8),
    rbSoftconfigInit part mem a = some s₀ → Reach soc s₀ y p → written y act = some img →
    CrcOk s₀.buflen img ∧
      ∀ tag v, p tag = some v → get32 img (s₀.attrs tag).ofs = v % 2 ^ 32 := by
  intro hall
  have hreach : Reach .other markedDriver onceCommitted _ :=
    Reach.step (.critical 1 allMoved) reach_bothTested rfl
  have h := (hall .other (oneTagPart 7) (fun _ => 0) allMoved markedDriver onceCommitted _
    (.critical 2 allMoved) _ (Option.some_get _).symm hreach rfl).1
  have hno : ¬ get32 (setCrc onceCommitted.sc).buf 4
      = scCrc (put32 (setCrc onceCommitted.sc).buf 4 0) 20 := by decide +kernel
  exact hno h

end Images

end Lede.RouterBoot
