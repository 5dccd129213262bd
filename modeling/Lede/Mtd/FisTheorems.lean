/-
Lede.Mtd.FisTheorems — what a remap of the FIS directory should do, and when it does.

`Remapped` says what it should do: keep every other entry, in order, and put the new ones
one after the other in the flash the old ones had. The code cuts out all of the table from
the first old entry to the last, and takes the flash from the lower of these two to the
next entry behind the higher one to be free. So it does what it should exactly if the old
entries stand together in the table, and the new ones fit in the table and in the flash
(`Fits`, `fisRemap_iff`).
-/
import Lede.Mtd.FisTableTheorems
import Mathlib.Algebra.GroupWithZero.Nat
import Mathlib.Order.CompletePartialOrder
import Mathlib.Order.Interval.Set.Disjoint

namespace Lede.Mtd.Fis

/-! ## The new entries in the flash -/

/-- The flash a descriptor describes. -/
def Desc.range (d : Desc) : Set Nat :=
  Set.Ico d.flashBase.toNat (d.flashBase.toNat + d.size.toNat)

/-- Entries that lie one after the other, from address `a` on. -/
def Laid : Nat → List Desc → Prop
  | _, [] => True
  | a, d :: ds => d.flashBase.toNat = a ∧ Laid (a + d.size.toNat) ds

/-- The flash some entries take together. -/
def total (ds : List Desc) : Nat := (ds.map (·.size.toNat)).sum

section Flash

variable {ps : List Part} {ds : List Desc} {offset size : UInt32} {a : Nat}

theorem total_cons (d : Desc) (ds : List Desc) : total (d :: ds) = d.size.toNat + total ds := by
  rw [total, List.map_cons, List.sum_cons]
  rfl

/-- As long as the addresses do not wrap, the new entries lie one after the other. -/
theorem laid_newDescs (h : offset.toNat + total (newDescs ps offset size) < 2 ^ 32) :
    Laid offset.toNat (newDescs ps offset size) := by
  induction ps generalizing offset size with
  | nil => trivial
  | cons p ps ih =>
    rw [newDescs, total_cons] at h
    refine ⟨rfl, ?_⟩
    have hadd : (offset + (newDesc p offset size).size).toNat =
        offset.toNat + (newDesc p offset size).size.toNat := by
      rw [UInt32.toNat_add, Nat.mod_eq_of_lt (by omega)]
    rw [← hadd]
    exact ih (by omega)

/-- An entry lies between the start and the end of all. -/
theorem Laid.range_subset (h : Laid a ds) {d : Desc} (hd : d ∈ ds) :
    d.range ⊆ Set.Ico a (a + total ds) := by
  induction ds generalizing a with
  | nil => exact absurd hd List.not_mem_nil
  | cons e ds ih =>
    obtain ⟨he, hrest⟩ := h
    rw [total_cons]
    rcases List.mem_cons.mp hd with rfl | hd
    · unfold Desc.range
      rw [he]
      exact Set.Ico_subset_Ico_right (by omega)
    · refine (ih hrest hd).trans ?_
      rw [Nat.add_assoc]
      exact Set.Ico_subset_Ico_left (by omega)

theorem Laid.pairwise (h : Laid a ds) : ds.Pairwise (fun d e => Disjoint d.range e.range) := by
  induction ds generalizing a with
  | nil => exact List.Pairwise.nil
  | cons d ds ih =>
    obtain ⟨hd, hrest⟩ := h
    refine List.Pairwise.cons (fun e he => ?_) (ih hrest)
    refine Set.disjoint_of_subset_right (hrest.range_subset he) ?_
    unfold Desc.range
    rw [hd]
    exact Set.Ico_disjoint_Ico_same

/-- What is apart from every entry is apart from the whole. -/
theorem Laid.disjoint_iff (h : Laid a ds) (s : Set Nat) :
    (∀ d ∈ ds, Disjoint d.range s) ↔ Disjoint (Set.Ico a (a + total ds)) s := by
  constructor
  · intro hall
    induction ds generalizing a with
    | nil =>
      rw [total, List.map_nil, List.sum_nil, Nat.add_zero, Set.Ico_self]
      exact Set.empty_disjoint s
    | cons d ds ih =>
      obtain ⟨hd, hrest⟩ := h
      have hfirst := hall d List.mem_cons_self
      have hlater := ih hrest (fun e he => hall e (List.mem_cons_of_mem d he))
      unfold Desc.range at hfirst
      rw [hd] at hfirst
      rw [total_cons, ← Nat.add_assoc,
        ← Set.Ico_union_Ico_eq_Ico (Nat.le_add_right a d.size.toNat) (Nat.le_add_right _ (total ds))]
      exact Set.disjoint_union_left.mpr ⟨hfirst, hlater⟩
  · intro hwhole d hd
    exact Set.disjoint_of_subset_left (h.range_subset hd) hwhole

/-- The sizes that were asked for. -/
def asked (new : List Part) : Nat := (new.map (·.size.toNat)).sum

/-- The last partition finds its size itself. -/
def automatic (new : List Part) : Bool := new.getLast?.any (fun p => p.size == 0)

theorem size_newDesc {p : Part} (h : p.size ≠ 0) : (newDesc p offset size).size = p.size := by
  have hpos : 0 < p.size := UInt32.pos_iff_ne_zero.mpr h
  unfold newDesc
  dsimp only
  rw [if_pos hpos]

theorem size_newDesc_automatic {p : Part} (h : p.size = 0) : (newDesc p offset size).size = size := by
  unfold newDesc
  dsimp only
  rw [h, if_neg (by decide)]

theorem asked_cons (p : Part) (ps : List Part) : asked (p :: ps) = p.size.toNat + asked ps := by
  rw [asked, List.map_cons, List.sum_cons]
  rfl

/-- Partitions with a size take what they ask for. -/
theorem total_of_sizes (h : ∀ p ∈ ps, p.size ≠ 0) : total (newDescs ps offset size) = asked ps := by
  induction ps generalizing offset size with
  | nil => rfl
  | cons p ps ih =>
    rw [newDescs, total_cons, asked_cons, ih (fun q hq => h q (List.mem_cons_of_mem p hq)),
      size_newDesc (h p List.mem_cons_self)]

/-- With a last one without, they take all there is, unless more is asked for. -/
theorem total_of_automatic {p : Part} (h : ∀ p ∈ ps, p.size ≠ 0) (hp : p.size = 0) :
    (asked ps ≤ size.toNat → total (newDescs (ps ++ [p]) offset size) = size.toNat) ∧
      (size.toNat < asked ps → 2 ^ 32 ≤ total (newDescs (ps ++ [p]) offset size)) := by
  induction ps generalizing offset size with
  | nil =>
    rw [List.nil_append, newDescs, newDescs, total_cons, size_newDesc_automatic hp]
    exact ⟨fun _ => rfl, fun hlt => absurd hlt (Nat.not_lt_zero _)⟩
  | cons q ps ih =>
    rw [List.cons_append, newDescs, total_cons, asked_cons, size_newDesc (h q List.mem_cons_self)]
    obtain ⟨hfits, hover⟩ := @ih (offset + q.size) (size - q.size)
      (fun x hx => h x (List.mem_cons_of_mem q hx))
    have hq := q.size.toNat_lt
    have hsz := size.toNat_lt
    have hsub : (size - q.size).toNat = (2 ^ 32 - q.size.toNat + size.toNat) % 2 ^ 32 :=
      UInt32.toNat_sub ..
    by_cases hle : q.size.toNat ≤ size.toNat
    · have hleft : (size - q.size).toNat = size.toNat - q.size.toNat := by omega
      rw [hleft] at hfits hover
      constructor
      · intro hask
        rw [hfits (by omega)]
        omega
      · intro hask
        have := hover (by omega)
        omega
    · -- what is left has wrapped
      have hleft : (size - q.size).toNat = 2 ^ 32 + size.toNat - q.size.toNat := by omega
      rw [hleft] at hfits hover
      refine ⟨fun hask => by omega, fun hask => ?_⟩
      by_cases hmore : asked ps ≤ 2 ^ 32 + size.toNat - q.size.toNat
      · have := hfits hmore
        omega
      · have := hover (by omega)
        omega

end Flash

/-! ## What a remap should do -/

/-- A descriptor made from a new partition. -/
structure Describes (p : Part) (d : Desc) : Prop where
  name : d.name = p.name
  memBase : d.memBase = p.loadaddr
  entryPoint : d.entryPoint = p.loadaddr
  crc : d.crcFile = p.crc
  size : p.size ≠ 0 → d.size = p.size
  dataLength : d.dataLength = if p.length ≠ 0 then p.length else d.size

/-- The entries that are not old. -/
def kept (t : List Desc) (old : List Part) : List Desc := (live t).filter (fun d => !named old d)

/-- The kept entries stand as they stood, with `news` between them where the first old entry
was; `news` describe the new partitions, and lie one after the other from `a` on, in the
flash between the lowest and the highest address of an old entry, and apart from each other
and from what is kept. -/
structure RemappedAt (t t' : List Desc) (old new : List Part) (post news : List Desc) (a : Nat) :
    Prop where
  table : live t' = (live t).takeWhile (fun d => !named old d) ++ (news ++ post)
  kept : (live t).takeWhile (fun d => !named old d) ++ post = kept t old
  new : List.Forall₂ Describes new news
  laid : Laid a news
  lower : ∃ o ∈ live t, named old o = true ∧ o.flashBase.toNat ≤ a
  upper : ∃ o ∈ live t, named old o = true ∧ a + total news ≤ o.flashBase.toNat + o.size.toNat
  apart : news.Pairwise (fun d e => Disjoint d.range e.range)
  clear : ∀ d ∈ news, ∀ k ∈ Fis.kept t old, Disjoint d.range k.range

def Remapped (t t' : List Desc) (old new : List Part) : Prop :=
  ∃ post news a, RemappedAt t t' old new post news a

/-- A directory: its entries end below 4 GiB, and do not overlap. -/
structure Directory (t : List Desc) : Prop where
  ends : ∀ d ∈ live t, d.flashBase.toNat + d.size.toNat < 2 ^ 32
  apart : (live t).Pairwise (fun d e => Disjoint d.range e.range)

/-- The flash the code takes to be free: from the lower address of the first and the last old
entry to the next entry behind the higher one. -/
def avail (t mid : List Desc) : Nat :=
  nextBase (live t) (highBase mid).toNat - (lowBase mid).toNat

/-- The flash the new partitions take. -/
def need (t mid : List Desc) (new : List Part) : Nat :=
  if automatic new then avail t mid else asked new

/-- When a remap does what it should. -/
structure FitsAt (t : List Desc) (old new : List Part) (pre mid post : List Desc) : Prop where
  /-- The old entries stand together in the table. -/
  eq : live t = pre ++ (mid ++ post)
  pre_not : ∀ d ∈ pre, named old d = false
  mid_old : ∀ d ∈ mid, named old d = true
  mid_ne : mid ≠ []
  post_not : ∀ d ∈ post, named old d = false
  /-- The table has room for the new ones. -/
  slots : pre.length + new.length + post.length ≤ t.length
  names : ∀ p ∈ new, liveName p.name = true
  /-- They end before an old entry does, and no kept one is among them. -/
  asked : automatic new = true → asked new ≤ avail t mid
  flash : (∃ o ∈ mid, (lowBase mid).toNat + need t mid new ≤ o.flashBase.toNat + o.size.toNat) ∧
    ∀ k ∈ pre ++ post,
      Disjoint (Set.Ico (lowBase mid).toNat ((lowBase mid).toNat + need t mid new)) k.range

def Fits (t : List Desc) (old new : List Part) : Prop :=
  ∃ pre mid post, FitsAt t old new pre mid post

section Remap

variable {t : List Desc} {old new : List Part} {pre mid post : List Desc}

theorem describes_newDescs (ps : List Part) (offset size : UInt32) :
    List.Forall₂ Describes ps (newDescs ps offset size) := by
  induction ps generalizing offset size with
  | nil => exact List.Forall₂.nil
  | cons p ps ih =>
    refine List.Forall₂.cons ⟨rfl, rfl, rfl, rfl, size_newDesc, ?_⟩ (ih _ _)
    unfold newDesc
    dsimp only
    by_cases h : p.length = 0
    · rw [h, if_neg (by decide), if_neg (not_not.mpr rfl)]
    · rw [if_pos (UInt32.pos_iff_ne_zero.mpr h), if_pos h]

theorem exists_of_forall₂ {ps : List Part} {ds : List Desc} (h : List.Forall₂ Describes ps ds)
    {d : Desc} (hd : d ∈ ds) : ∃ p ∈ ps, Describes p d := by
  induction h with
  | nil => exact absurd hd List.not_mem_nil
  | cons hpd _ ih =>
    rcases List.mem_cons.mp hd with rfl | hd
    · exact ⟨_, List.mem_cons_self, hpd⟩
    · obtain ⟨p, hp, hdesc⟩ := ih hd
      exact ⟨p, List.mem_cons_of_mem _ hp, hdesc⟩

theorem nextBase_ge (ds : List Desc) (above : Nat) : above ≤ nextBase ds above := by
  unfold nextBase
  cases hmin : ((ds.map (·.flashBase.toNat)).filter (above < ·)).min? with
  | none => exact Nat.le_refl _
  | some m =>
    rw [List.min?_eq_some_iff] at hmin
    have := (List.mem_filter.mp hmin.1).2
    simp only [decide_eq_true_eq] at this
    exact Nat.le_of_lt this

theorem lowBase_le_highBase (mid : List Desc) : (lowBase mid).toNat ≤ (highBase mid).toNat := by
  unfold lowBase highBase
  split
  · next h => exact Nat.le_of_lt (UInt32.lt_iff_toNat_lt.mp h)
  · next h => exact UInt32.le_iff_toNat_le.mp (UInt32.not_lt.mp h)

/-- Both addresses are those of old entries. -/
theorem Span.bases (hs : Span old (live t) pre mid post) :
    (∃ d ∈ mid, named old d = true ∧ d.flashBase = lowBase mid) ∧
      (∃ d ∈ mid, named old d = true ∧ d.flashBase = highBase mid) := by
  have hhead : ∃ d ∈ mid, named old d = true ∧ d = mid.headD blank := by
    obtain ⟨d, l, rfl, hd⟩ := hs.head
    exact ⟨d, List.mem_cons_self, hd, rfl⟩
  have hlast : ∃ d ∈ mid, named old d = true ∧ d = mid.getLastD blank := by
    obtain ⟨d, l, rfl, hd⟩ := hs.last
    refine ⟨d, List.mem_append_right _ (List.mem_singleton.mpr rfl), hd, ?_⟩
    simp
  obtain ⟨x, hx, hxold, hxeq⟩ := hhead
  obtain ⟨y, hy, hyold, hyeq⟩ := hlast
  unfold lowBase highBase
  rw [← hxeq, ← hyeq]
  split
  · exact ⟨⟨y, hy, hyold, rfl⟩, ⟨x, hx, hxold, rfl⟩⟩
  · exact ⟨⟨x, hx, hxold, rfl⟩, ⟨y, hy, hyold, rfl⟩⟩

/-- The room the code finds is what is available. -/
theorem Span.room_toNat (hs : Span old (live t) pre mid post) : (room t mid old).toNat = avail t mid := by
  obtain ⟨-, d, hd, -, hbase⟩ := hs.bases
  have hend := @findEnd_findOld old (live t) (highBase mid) ⟨d, by
    rw [hs.eq]
    exact List.mem_append_right _ (List.mem_append_left _ hd), hbase⟩
  have hge := nextBase_ge (live t) (highBase mid).toNat
  have hle := lowBase_le_highBase mid
  unfold room avail
  rw [UInt32.toNat_sub_of_le _ _ (UInt32.le_iff_toNat_le.mpr (by omega)), hend]

theorem asked_append (ps qs : List Part) : asked (ps ++ qs) = asked ps + asked qs := by
  rw [asked, List.map_append, List.sum_append]
  rfl

/-- What the new entries take, if it is not too much. -/
theorem Span.total_eq (hs : Span old (live t) pre mid post) (hv : fisValidate t old new = true) :
    ((automatic new = true → asked new ≤ avail t mid) →
        total (newDescs new (lowBase mid) (room t mid old)) = need t mid new) ∧
      (total (newDescs new (lowBase mid) (room t mid old)) < 2 ^ 32 →
        automatic new = true → asked new ≤ avail t mid) := by
  have hroom := hs.room_toNat
  rcases List.eq_nil_or_concat new with rfl | ⟨qs, p, hnew⟩
  · exact ⟨fun _ => rfl, fun _ hauto => absurd hauto (by decide)⟩
  · have hnew : new = qs ++ [p] := by rw [hnew, List.concat_eq_append]
    have hqs : ∀ q ∈ qs, q.size ≠ 0 := by
      have hall := (Bool.and_eq_true_iff.mp hv).1
      rw [hnew, List.dropLast_concat, List.all_eq_true] at hall
      exact fun q hq => bne_iff_ne.mp (hall q hq)
    have hauto : automatic new = (p.size == 0) := by
      rw [automatic, hnew, List.getLast?_concat]
      rfl
    unfold need
    by_cases hp : p.size = 0
    · have hask : asked new = asked qs := by
        rw [hnew, asked_append, asked_cons, hp]
        rfl
      obtain ⟨hfits, hover⟩ := @total_of_automatic qs (lowBase mid) (room t mid old) p hqs hp
      rw [hroom] at hfits hover
      rw [hauto, hask, hp, hnew]
      refine ⟨fun hle => ?_, fun hlt _ => ?_⟩
      · rw [if_pos (by rfl)]
        exact hfits (hle rfl)
      · by_contra hgt
        exact absurd (hover (by omega)) (by omega)
    · have hfalse : automatic new = false := by
        rw [hauto]
        exact beq_false_of_ne hp
      have hsizes : ∀ q ∈ new, q.size ≠ 0 := by
        rw [hnew]
        intro q hq
        rcases List.mem_append.mp hq with hq | hq
        · exact hqs q hq
        · rw [List.mem_singleton.mp hq]
          exact hp
      rw [hfalse, total_of_sizes hsizes]
      exact ⟨fun _ => rfl, fun _ h => (by cases h)⟩

theorem takeWhile_span (hs : Span old (live t) pre mid post) :
    (live t).takeWhile (fun d => !named old d) = pre := by
  obtain ⟨d, l, hmid, hd⟩ := hs.head
  rw [hs.eq, List.takeWhile_append_of_pos (fun x hx => by rw [hs.pre_not x hx]; rfl), hmid,
    List.cons_append, List.takeWhile_cons_of_neg (by rw [hd]; decide), List.append_nil]

theorem kept_span (hs : Span old (live t) pre mid post) :
    kept t old = pre ++ (mid.filter (fun d => !named old d) ++ post) := by
  have hpre : pre.filter (fun d => !named old d) = pre :=
    List.filter_eq_self.mpr (fun x hx => by rw [hs.pre_not x hx]; rfl)
  have hpost : post.filter (fun d => !named old d) = post :=
    List.filter_eq_self.mpr (fun x hx => by rw [hs.post_not x hx]; rfl)
  rw [kept, hs.eq, List.filter_append, List.filter_append, hpre, hpost]

/-- An old entry is one of those in the middle. -/
theorem Span.mem_mid (hs : Span old (live t) pre mid post) {o : Desc} (ho : o ∈ live t)
    (hold : named old o = true) : o ∈ mid := by
  rw [hs.eq] at ho
  rcases List.mem_append.mp ho with ho | ho
  · rw [hs.pre_not o ho] at hold
    cases hold
  · rcases List.mem_append.mp ho with ho | ho
    · exact ho
    · rw [hs.post_not o ho] at hold
      cases hold

theorem FitsAt.span (hf : FitsAt t old new pre mid post) : Span old (live t) pre mid post := by
  refine ⟨hf.eq, hf.pre_not, hf.post_not, ?_, ?_⟩
  · obtain ⟨d, l, rfl⟩ := List.exists_cons_of_ne_nil hf.mid_ne
    exact ⟨d, l, rfl, hf.mid_old d List.mem_cons_self⟩
  · rcases List.eq_nil_or_concat mid with hnil | ⟨l, d, hmid⟩
    · exact absurd hnil hf.mid_ne
    · rw [List.concat_eq_append] at hmid
      refine ⟨d, l, hmid, hf.mid_old d ?_⟩
      rw [hmid]
      exact List.mem_append_right _ (List.mem_singleton.mpr rfl)

/-- With old entries that stand together and room for the new ones, a remap does what it should. -/
theorem FitsAt.remapped (hf : FitsAt t old new pre mid post) (hv : fisValidate t old new = true)
    (hd : Directory t) : ∃ t', fisRemap t old new = some t' ∧ Remapped t t' old new := by
  have hs := hf.span
  have hslots := hf.slots
  have hneed := (hs.total_eq hv).1 hf.asked
  have hlen : (newDescs new (lowBase mid) (room t mid old)).length = new.length := length_newDescs ..
  have hdescribes := describes_newDescs new (lowBase mid) (room t mid old)
  have hmid : mid.filter (fun d => !named old d) = [] :=
    List.filter_eq_nil_iff.mpr (fun x hx => by rw [hf.mid_old x hx]; decide)
  have hkept : kept t old = pre ++ post := by rw [kept_span hs, hmid, List.nil_append]
  obtain ⟨o, ho, hupper⟩ := hf.flash.1
  have hoLive : o ∈ live t := by
    rw [hf.eq]
    exact List.mem_append_right _ (List.mem_append_left _ ho)
  have hend := hd.ends o hoLive
  have hlaid : Laid (lowBase mid).toNat (newDescs new (lowBase mid) (room t mid old)) :=
    laid_newDescs (by rw [hneed]; omega)
  have hlive : live (pre ++ (newDescs new (lowBase mid) (room t mid old) ++
      movedTail t (pre.length + new.length) (pre.length + mid.length))) =
      pre ++ (newDescs new (lowBase mid) (room t mid old) ++ post) := by
    rw [live_of_live (fun x hx => liveName_of_mem (by rw [hf.eq]; exact List.mem_append_left _ hx)),
      live_of_live ?_, hs.live_movedTail, List.take_of_length_le (by omega)]
    intro x hx
    obtain ⟨p, hp, hdesc⟩ := exists_of_forall₂ hdescribes hx
    rw [hdesc.name]
    exact hf.names p hp
  refine ⟨_, by rw [hs.fisRemap_eq, if_neg (by omega)], post, _, (lowBase mid).toNat, ?_, ?_, hdescribes,
    hlaid, ?_, ?_, hlaid.pairwise, ?_⟩
  · rw [takeWhile_span hs]
    exact hlive
  · rw [takeWhile_span hs, hkept]
  · obtain ⟨⟨x, hx, hold, hbase⟩, -⟩ := hs.bases
    refine ⟨x, ?_, hold, by rw [hbase]⟩
    rw [hf.eq]
    exact List.mem_append_right _ (List.mem_append_left _ hx)
  · rw [hneed]
    exact ⟨o, hoLive, hf.mid_old o ho, hupper⟩
  · intro d hd' k hk
    rw [hkept] at hk
    refine (hlaid.disjoint_iff k.range).mpr ?_ d hd'
    rw [hneed]
    exact hf.flash.2 k hk

theorem exists_of_forall₂_left {ps : List Part} {ds : List Desc} (h : List.Forall₂ Describes ps ds)
    {p : Part} (hp : p ∈ ps) : ∃ d ∈ ds, Describes p d := by
  induction h with
  | nil => exact absurd hp List.not_mem_nil
  | cons hpd _ ih =>
    rcases List.mem_cons.mp hp with rfl | hp
    · exact ⟨_, List.mem_cons_self, hpd⟩
    · obtain ⟨d, hd, hdesc⟩ := ih hp
      exact ⟨d, List.mem_cons_of_mem _ hd, hdesc⟩

/-- A remap that comes to an end has found an old entry. -/
theorem exists_span_of_remap {t' : List Desc} (hr : fisRemap t old new = some t') :
    ∃ pre mid post, Span old (live t) pre mid post := by
  refine exists_span ?_
  by_contra hnot
  have hnone : ∀ d ∈ live t, named old d = false := by
    intro d hd
    cases hd' : named old d with
    | false => rfl
    | true => exact absurd ⟨d, hd, hd'⟩ hnot
  unfold fisRemap at hr
  simp only [findOld_none hnone] at hr
  cases hr

/-- What is seen of the table after a remap tells where the old entries stood, and that there was
room for the new ones. -/
theorem Span.table_of_remapped {t' post' news : List Desc} {a : Nat}
    (hs : Span old (live t) pre mid post) (hr : fisRemap t old new = some t')
    (hR : RemappedAt t t' old new post' news a) :
    (∀ d ∈ mid, named old d = true) ∧ pre.length + new.length + post.length ≤ t.length ∧
      news = newDescs new (lowBase mid) (room t mid old) := by
  rw [hs.fisRemap_eq] at hr
  split at hr
  · cases hr
  · next hroom =>
    have hlen : (newDescs new (lowBase mid) (room t mid old)).length = new.length := length_newDescs ..
    have hnews : news.length = new.length := hR.new.length_eq.symm
    have htable := hR.table
    have hkept := hR.kept
    rw [takeWhile_span hs] at htable hkept
    rw [kept_span hs, List.append_cancel_left_eq] at hkept
    cases hr
    -- no more entries are live than there is room for
    have hcount := length_takeWhile_append_le (fun d => liveName d.name) pre
      (newDescs new (lowBase mid) (room t mid old) ++
        movedTail t (pre.length + new.length) (pre.length + mid.length))
    have hcount' := length_takeWhile_append_le (fun d => liveName d.name)
      (newDescs new (lowBase mid) (room t mid old))
      (movedTail t (pre.length + new.length) (pre.length + mid.length))
    have htail : ((movedTail t (pre.length + new.length) (pre.length + mid.length)).takeWhile
        (fun d => liveName d.name)).length = min (t.length - (pre.length + new.length)) post.length := by
      have hlive := hs.live_movedTail (pre.length + new.length)
      unfold live at hlive
      rw [hlive, List.length_take]
    have htotal := congrArg List.length htable
    unfold live at htotal
    rw [List.length_append, List.length_append, hnews, hkept, List.length_append] at htotal
    refine ⟨fun d hd => ?_, by omega, ?_⟩
    · have hnil : mid.filter (fun d => !named old d) = [] := List.length_eq_zero_iff.mp (by omega)
      have := List.filter_eq_nil_iff.mp hnil d hd
      simpa using this
    · have hpre : pre ++ (news ++ post') <+: pre ++ (newDescs new (lowBase mid) (room t mid old) ++
          movedTail t (pre.length + new.length) (pre.length + mid.length)) := by
        rw [← htable]
        exact List.takeWhile_prefix _
      obtain ⟨z, hz⟩ := (List.prefix_append_right_inj pre).mp hpre
      rw [List.append_assoc] at hz
      exact List.append_inj_left hz (by rw [hnews, hlen])

/-- A remap that does what it should had the room for it. -/
theorem fits_of_remapped {t' : List Desc} (hv : fisValidate t old new = true) (hd : Directory t)
    (hr : fisRemap t old new = some t') (hR : Remapped t t' old new) : Fits t old new := by
  obtain ⟨post', news, a, hR⟩ := hR
  obtain ⟨pre, mid, post, hs⟩ := exists_span_of_remap hr
  obtain ⟨hmid, hslots, rfl⟩ := hs.table_of_remapped hr hR
  have hnil : mid.filter (fun d => !named old d) = [] :=
    List.filter_eq_nil_iff.mpr (fun x hx => by rw [hmid x hx]; decide)
  have hkept : kept t old = pre ++ post := by rw [kept_span hs, hnil, List.nil_append]
  have hne : mid ≠ [] := by
    obtain ⟨d, l, rfl, -⟩ := hs.head
    exact List.cons_ne_nil d l
  have hnames : ∀ p ∈ new, liveName p.name = true := by
    intro p hp
    obtain ⟨d, hd', hdesc⟩ := exists_of_forall₂_left hR.new hp
    rw [← hdesc.name]
    refine @liveName_of_mem t' d ?_
    rw [hR.table]
    exact List.mem_append_right _ (List.mem_append_left _ hd')
  obtain ⟨o, ho, hold, hupper⟩ := hR.upper
  have hend := hd.ends o ho
  obtain ⟨hfits, hasked⟩ := hs.total_eq hv
  have hask := hasked (by omega)
  have hneed := hfits hask
  refine ⟨pre, mid, post, hs.eq, hs.pre_not, hmid, hne, hs.post_not, hslots, hnames, hask, ?_⟩
  cases new with
  | nil =>
    -- nothing is needed, and nothing is in the way of nothing
    have hzero : need t mid [] = 0 := rfl
    obtain ⟨⟨x, hx, -, hbase⟩, -⟩ := hs.bases
    rw [hzero, Nat.add_zero]
    refine ⟨⟨x, hx, by rw [hbase]; exact Nat.le_add_right ..⟩, fun k _ => ?_⟩
    rw [Set.Ico_self]
    exact Set.empty_disjoint _
  | cons p ps =>
    have hlow : (lowBase mid).toNat = a := hR.laid.1
    rw [hneed] at hupper
    rw [hlow]
    refine ⟨⟨o, hs.mem_mid ho hold, hupper⟩, fun k hk => ?_⟩
    rw [← hneed]
    refine (hR.laid.disjoint_iff k.range).mp (fun d hd' => hR.clear d hd' k ?_)
    rw [hkept]
    exact hk

end Remap

/-! ## Two directories -/

def nameOf (b : UInt8) : Vector UInt8 16 := (Vector.replicate 16 0).set 0 b name_pos

/-- A partition with a name of one character. -/
def part (b : UInt8) (size : UInt32) : Part := ⟨nameOf b, 0, size, 0, 0⟩

def entry (b : UInt8) (flashBase size : UInt32) : Desc := newDesc (part b size) flashBase 0

theorem disjoint_Ico_range {a n : Nat} {k : Desc}
    (h : a + n ≤ k.flashBase.toNat ∨ k.flashBase.toNat + k.size.toNat ≤ a) :
    Disjoint (Set.Ico a (a + n)) k.range := by
  unfold Desc.range
  rw [Set.disjoint_left]
  intro x hx hx'
  rw [Set.mem_Ico] at hx hx'
  omega

/-- A table with some entries and free slots. -/
def tableOf (ds : List Desc) : List Desc := ds ++ List.replicate 13 blank

theorem live_tableOf {ds : List Desc} (h : ∀ d ∈ ds, liveName d.name = true) : live (tableOf ds) = ds := by
  have hfree : live (List.replicate 13 blank) = [] := List.takeWhile_cons_of_neg (by decide)
  rw [tableOf, live_of_live h, hfree, List.append_nil]

/-- A boot loader, a partition and the directory itself. -/
def plainEntries : List Desc :=
  [entry 0x62 0x0 0x30000, entry 0x6c 0x30000 0xc0000, entry 0x66 0xf0000 0x10000]

/-- An entry that is kept between two that are not. -/
def mixedEntries : List Desc :=
  [entry 0x61 0x0 0x10000, entry 0x6b 0x20000 0x10000, entry 0x62 0x10000 0x10000]

theorem directory_tableOf {ds : List Desc} (hlive : live (tableOf ds) = ds)
    (hends : ∀ d ∈ ds, d.flashBase.toNat + d.size.toNat < 2 ^ 32)
    (hapart : ds.Pairwise (fun d e => d.flashBase.toNat + d.size.toNat ≤ e.flashBase.toNat ∨
      e.flashBase.toNat + e.size.toNat ≤ d.flashBase.toNat)) : Directory (tableOf ds) := by
  refine ⟨?_, ?_⟩
  · rw [hlive]
    exact hends
  · rw [hlive]
    exact hapart.imp disjoint_Ico_range

/-! ## Remapping -/

/-- For every directory and every lists of partitions `fis_validate` accepts: `fis_remap` keeps the
other entries, and puts the new ones in the place of the old ones, exactly if the old ones stand
together and there is room for the new ones in the table and in the flash. -/
theorem fisRemap_iff (t : List Desc) (old new : List Part) (hv : fisValidate t old new = true)
    (hd : Directory t) :
    (∃ t', fisRemap t old new = some t' ∧ Remapped t t' old new) ↔ Fits t old new := by
  constructor
  · rintro ⟨t', hr, hR⟩
    exact fits_of_remapped hv hd hr hR
  · rintro ⟨pre, mid, post, hf⟩
    exact hf.remapped hv hd

/-- The partition of the plain directory is replaced by two, the second with what is left. -/
theorem fisRemap_iff_plain :
    ∃ t', fisRemap (tableOf plainEntries) [part 0x6c 0] [part 0x6b 0x40000, part 0x72 0] = some t' ∧
      Remapped (tableOf plainEntries) t' [part 0x6c 0] [part 0x6b 0x40000, part 0x72 0] := by
  have hlive : live (tableOf plainEntries) = plainEntries := live_tableOf (by decide)
  have hdir : Directory (tableOf plainEntries) := directory_tableOf hlive (by decide) (by decide)
  have hv : fisValidate (tableOf plainEntries) [part 0x6c 0] [part 0x6b 0x40000, part 0x72 0] = true := by
    unfold fisValidate
    rw [hlive]
    decide
  refine (fisRemap_iff _ _ _ hv hdir).mpr
    ⟨[entry 0x62 0x0 0x30000], [entry 0x6c 0x30000 0xc0000], [entry 0x66 0xf0000 0x10000], hlive,
      by decide, by decide, by decide, by decide, by decide, by decide, ?_, ?_⟩
  · unfold avail
    rw [hlive]
    decide
  · have hneed : need (tableOf plainEntries) [entry 0x6c 0x30000 0xc0000]
        [part 0x6b 0x40000, part 0x72 0] = 0xc0000 := by
      unfold need avail
      rw [hlive]
      decide
    rw [hneed]
    refine ⟨by decide, fun k hk => disjoint_Ico_range ?_⟩
    revert k
    decide

/-- The entry between the two old ones is gone after the remap. -/
theorem fisRemap_drops_kept :
    fisValidate (tableOf mixedEntries) [part 0x61 0, part 0x62 0] [part 0x6e 0x20000] = true ∧
      Directory (tableOf mixedEntries) ∧
      ¬ ∃ t', fisRemap (tableOf mixedEntries) [part 0x61 0, part 0x62 0] [part 0x6e 0x20000] = some t' ∧
        Remapped (tableOf mixedEntries) t' [part 0x61 0, part 0x62 0] [part 0x6e 0x20000] := by
  have hlive : live (tableOf mixedEntries) = mixedEntries := live_tableOf (by decide)
  refine ⟨?_, directory_tableOf hlive (by decide) (by decide), ?_⟩
  · unfold fisValidate
    rw [hlive]
    decide
  · rintro ⟨t', hr, post, news, a, hR⟩
    have hgone : (fisRemap (tableOf mixedEntries) [part 0x61 0, part 0x62 0] [part 0x6e 0x20000]).map
        (fun t => (live t).any (fun d => d.name == nameOf 0x6b)) = some false := by
      decide +kernel
    have hmem : entry 0x6b 0x20000 0x10000 ∈ live t' := by
      have hkept : entry 0x6b 0x20000 0x10000 ∈
          kept (tableOf mixedEntries) [part 0x61 0, part 0x62 0] := by
        unfold kept
        rw [hlive]
        exact List.mem_filter.mpr ⟨List.mem_cons_of_mem _ List.mem_cons_self, by decide⟩
      rw [← hR.kept] at hkept
      rw [hR.table]
      rcases List.mem_append.mp hkept with h | h
      · exact List.mem_append_left _ h
      · exact List.mem_append_right _ (List.mem_append_right _ h)
    rw [hr, Option.map_some, Option.some_inj, List.any_eq_false] at hgone
    exact hgone _ hmem (by decide)

end Lede.Mtd.Fis
