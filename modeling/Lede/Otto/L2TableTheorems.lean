/-
Lede.Otto.L2TableTheorems — what the search in the L2 table finds and what a write leaves.

The row that is read at a position of a bucket is the one whose index is handed out
(`readIndex_eq`), and the value of a unicast row is its seed whatever it was read into
(`UcRow.read`). `findHashEntry_cases` says what the search can return: the row of the seed, a
free row of its bucket, or none. `rowInfo_written` says what a row holds that was written.
-/
import Lede.Otto.L2EntryTheorems
import Lede.Otto.L2Table

namespace Lede.Otto

open Lede.Lib.BitField

/-! ## The rows of a bucket -/

theorem seedBits_eq_false (seed : BitVec 64) {p w i : Nat} (h : w ≤ i) :
    (seedBits seed p w).getLsbD i = false := by
  have : ¬ i < w := by omega
  simp [seedBits, this]

theorem swapBits_eq_false (h : BitVec 32) {lw l r hw i : Nat} (h1 : lw + l ≤ i) (h2 : hw ≤ i) :
    (swapBits h lw l r hw).getLsbD i = false := by
  have h3 : ¬ i - l < lw := by omega
  have h4 : ¬ i < hw := by omega
  simp [swapBits, h3, h4]

theorem hashKey838x_eq_false (ctrl : BitVec 32) (seed : BitVec 64) {i : Nat} (hi : 11 ≤ i) :
    (hashKey838x ctrl seed).getLsbD i = false := by
  unfold hashKey838x
  split <;>
    simp (disch := omega) only [BitVec.getLsbD_xor, seedBits_eq_false, swapBits_eq_false,
      Bool.xor_false]

theorem hashKey839x_eq_false (ctrl : BitVec 32) (seed : BitVec 64) {i : Nat} (hi : 12 ≤ i) :
    (hashKey839x ctrl seed).getLsbD i = false := by
  unfold hashKey839x
  split <;>
    simp (disch := omega) [seedBits_eq_false]

theorem hashes930x_lt (seed : BitVec 64) :
    (hashes930x seed).1.toNat < 2 ^ 11 ∧ (hashes930x seed).2.toNat < 2 ^ 11 := by
  constructor <;> refine toNat_lt_of_getLsbD fun i hi => ?_
  all_goals
    simp (disch := omega) only [hashes930x, BitVec.getLsbD_xor, seedBits_eq_false,
      swapBits_eq_false, Bool.xor_false]

theorem hashes931x_lt (seed : BitVec 64) :
    (hashes931x seed).1.toNat < 2 ^ 12 ∧ (hashes931x seed).2.toNat < 2 ^ 12 := by
  constructor <;> refine toNat_lt_of_getLsbD fun i hi => ?_
  all_goals
    simp (disch := omega) only [hashes931x, BitVec.getLsbD_xor, seedBits_eq_false,
      swapBits_eq_false, Bool.xor_false]

theorem toNat_if_lt {c : Bool} {k : BitVec 32 × BitVec 32} {n : Nat}
    (hk : k.1.toNat < n ∧ k.2.toNat < n) : (if c then k.2 else k.1).toNat < n := by
  split
  · exact hk.2
  · exact hk.1

/-- The key of one block does not reach into the bits that the other's rows start at. -/
theorem bothKeys_gap (ctrl offset : BitVec 32) {k : BitVec 32 × BitVec 32}
    (hk : k.1.toNat < 2 ^ 12 ∧ k.2.toNat < 2 ^ 12) (ho : offset.toNat ≤ 4096) {i : Nat}
    (hi : i = 14 ∨ i = 15 ∨ i = 30 ∨ i = 31) : (bothKeys ctrl offset k).getLsbD i = false := by
  have hlow := toNat_if_lt (c := ctrl.getLsbD 0) hk
  have hhigh : ((if ctrl.getLsbD 1 then k.2 else k.1) + offset).toNat < 2 ^ 13 := by
    have := toNat_if_lt (c := ctrl.getLsbD 1) hk
    rw [BitVec.toNat_add]
    omega
  unfold bothKeys
  rw [BitVec.getLsbD_or, BitVec.getLsbD_shiftLeft, getLsbD_eq_false hlow i (by omega)]
  rcases Nat.lt_or_ge i 16 with h16 | h16
  · simp [h16]
  · rw [getLsbD_eq_false hhigh (i - 16) (by omega)]
    simp

/-- The bits of a key that a row index has no room for. -/
theorem hashKey_gap (f : Family) (ctrl : BitVec 32) (seed : BitVec 64) :
    if f.is93xx then
      ∀ i, i = 14 ∨ i = 15 ∨ i = 30 ∨ i = 31 → (hashKey f ctrl seed).getLsbD i = false
    else ∀ i, 14 ≤ i → (hashKey f ctrl seed).getLsbD i = false := by
  cases f with
  | rtl838x => exact fun i hi => hashKey838x_eq_false ctrl seed (by omega)
  | rtl839x => exact fun i hi => hashKey839x_eq_false ctrl seed (by omega)
  | rtl930x =>
    have hk := hashes930x_lt seed
    exact fun i hi => bothKeys_gap ctrl 2048 (by omega) (by decide) hi
  | rtl931x => exact fun i hi => bothKeys_gap ctrl 4096 (hashes931x_lt seed) (by decide) hi

/-- The row that is read at a position is the one whose index is handed out for it. -/
theorem readIndex_eq (f : Family) (ctrl : BitVec 32) (seed : BitVec 64) {pos : Nat}
    (hpos : pos < f.bucketSize) :
    readIndex f (hashKey f ctrl seed) pos = hashIndex (hashKey f ctrl seed) pos := by
  have hgap := hashKey_gap f ctrl seed
  generalize hashKey f ctrl seed = key at hgap
  unfold readIndex hashIndex
  cases hf : f.is93xx with
  | false =>
    have hlt : pos < 4 := by cases f <;> simp_all [Family.is93xx, Family.bucketSize]
    rw [hf] at hgap
    have hgap : ∀ i, 14 ≤ i → key.getLsbD i = false := hgap
    rw [if_neg Bool.false_ne_true, if_neg (by omega : ¬ 3 < pos)]
    congr 1
    have hbits := getLsbD_eq_false (x := BitVec.ofNat 32 pos) (w := 2) (by simp; omega)
    refine (low_of_lt (toNat_lt_of_getLsbD fun i hi => ?_)).symm
    rw [BitVec.getLsbD_or, BitVec.getLsbD_shiftLeft, hgap (i - 2) (by omega), hbits i (by omega),
      Bool.and_false, Bool.or_false]
  | true =>
    rw [hf] at hgap
    have hgap : ∀ i, i = 14 ∨ i = 15 ∨ i = 30 ∨ i = 31 → key.getLsbD i = false := hgap
    have hlt : pos < 8 := by cases f <;> simp_all [Family.is93xx, Family.bucketSize]
    rcases Nat.lt_or_ge 3 pos with hp | hp
    · rw [if_pos rfl, if_pos (by omega : 4 ≤ pos), if_pos hp]
      have hmod : pos % 4 = pos - 4 := by omega
      rw [hmod]
      congr 1
      congr 1
      apply BitVec.eq_of_getLsbD_eq
      intro i hi
      rw [BitVec.getLsbD_shiftLeft, BitVec.getLsbD_and, BitVec.getLsbD_ushiftRight,
        BitVec.getLsbD_ushiftRight, getLsbD_low]
      by_cases h2 : i < 2
      · rw [hgap (14 + i) (by omega)]
        simp [h2]
      · have hadd : 16 + (i - 2) = 14 + i := by omega
        rw [hadd]
        by_cases h16 : i < 16
        · simp [hi, h2, h16]
        · have hzero : key.getLsbD (14 + i) = false := by
            by_cases h18 : i < 18
            · exact hgap _ (by omega)
            · exact BitVec.getLsbD_of_ge _ _ (by omega)
          rw [hzero]
          simp
    · rw [if_pos rfl, if_neg (by omega : ¬ 4 ≤ pos), if_neg (by omega : ¬ 3 < pos)]
      have hpos4 : (BitVec.ofNat 32 pos).toNat < 2 ^ 16 := by
        rw [BitVec.toNat_ofNat]
        omega
      rw [low_or, low_of_lt hpos4]
      congr 2
      apply BitVec.eq_of_getLsbD_eq
      intro i hi
      rw [BitVec.getLsbD_shiftLeft, BitVec.getLsbD_and, BitVec.getLsbD_and, BitVec.getLsbD_shiftLeft,
        getLsbD_low, getLsbD_low]
      by_cases h2 : i < 2
      · simp [h2]
      · by_cases h16 : i < 16
        · have h14 : i - 2 < 16 := by omega
          have h32 : i - 2 < 32 := by omega
          simp [hi, h2, h16, h14, h32]
        · by_cases h18 : i < 18
          · rw [hgap (i - 2) (by omega)]
            simp
          · have h14 : ¬ i - 2 < 16 := by omega
            simp [h16, h14]

/-! ## What is read from a row -/

theorem getLsbD_etherAddrToU64 (m : Mac) (i : Nat) (hi : 48 ≤ i) :
    (etherAddrToU64 m).getLsbD i = false := by
  simp only [etherAddrToU64, BitVec.getLsbD_or, BitVec.getLsbD_shiftLeft, BitVec.getLsbD_setWidth]
  simp (disch := omega) only [BitVec.getLsbD_of_ge, Bool.and_false, Bool.or_false]

/-- The seed of an address and a VID has no bit that the comparison leaves out. -/
theorem seedOf_hashSeed (f : Family) (m : Mac) {vid : BitVec 16} (hv : vid.toNat < 2 ^ 12) :
    seedOf (hashSeed f (etherAddrToU64 m) vid) = hashSeed f (etherAddrToU64 m) vid := by
  have hm := getLsbD_etherAddrToU64 m
  have hvid := getLsbD_eq_false hv
  refine low_of_lt (toNat_lt_of_getLsbD fun i hi => ?_)
  cases f <;>
    simp (disch := omega) only [hashSeed, BitVec.getLsbD_or, BitVec.getLsbD_shiftLeft,
      BitVec.getLsbD_setWidth, hm, hvid, Bool.and_false, Bool.or_false]

/-- Whether a row is valid is not a matter of the entry that it is read into. -/
theorem fillEntry_valid (f : Family) (r : L2Row) (e₀ : L2Entry) :
    (fillEntry f r e₀).valid = (fillEntry f r .zero).valid := by
  cases f <;>
    simp only [fillEntry, fillEntry838x, fillEntry839x, fillEntry930x, fillEntry931x,
      apply_ite L2Entry.valid] <;>
    rfl

/-- The entries of an IP group are no unicast entries. -/
theorem ipMcType_ne {e : L2Entry} (h : e.type = .invalid) : ipMcType e ≠ .unicast := by
  unfold ipMcType
  rw [h]
  split
  · exact nofun
  · split <;> exact nofun

/-- The row is a valid unicast row. -/
def UcRow (f : Family) (r : L2Row) : Prop :=
  (fillEntry f r .zero).valid = true ∧ (fillEntry f r .zero).type = .unicast

theorem ucRow838x {r : L2Row} (h : UcRow .rtl838x r) (e₀ : L2Entry) :
    ∃ e₁ : L2Entry, e₁.isIpMc = false ∧ e₁.isIpv6Mc = false ∧
      fillEntry838x r e₀ = fillUnicast838x r (fillMac838x r e₁) := by
  have ht := h.2
  simp only [fillEntry, fillEntry838x] at ht ⊢
  split_ifs at ht with h1 h2
  · obtain ⟨h4, h6⟩ : r.r0.getLsbD 22 = false ∧ r.r0.getLsbD 21 = false := by simpa using h1
    exact ⟨_, h4, h6, by rw [if_pos h1, if_pos (by exact h2)]⟩
  · exact absurd ht (ipMcType_ne rfl)

theorem ucRow839x {r : L2Row} (h : UcRow .rtl839x r) (e₀ : L2Entry) :
    ∃ e₁ : L2Entry, e₁.isIpMc = false ∧ e₁.isIpv6Mc = false ∧
      fillEntry839x r e₀ = fillUnicast839x r (fillMac839x r e₁) := by
  have ht := h.2
  simp only [fillEntry, fillEntry839x] at ht ⊢
  split_ifs at ht with h1 h2
  · obtain ⟨h4, h6⟩ : r.r2.getLsbD 31 = false ∧ r.r2.getLsbD 30 = false := by simpa using h1
    exact ⟨_, h4, h6, by rw [if_pos h1, if_pos (by exact h2)]⟩
  · exact absurd ht (ipMcType_ne rfl)

theorem ucRow930x {r : L2Row} (h : UcRow .rtl930x r) (e₀ : L2Entry) :
    fillEntry930x r e₀ = fillUnicast930x r (fillMac930x r e₀) := by
  obtain ⟨hv, ht⟩ := h
  simp only [fillEntry, fillEntry930x] at hv ht ⊢
  split_ifs at hv ht with h1 h2
  rw [if_neg h1, if_pos (by exact h2)]

theorem ucRow931x {r : L2Row} (h : UcRow .rtl931x r) (e₀ : L2Entry) :
    fillEntry931x r e₀ = fillUnicast931x r (fillMac931x r e₀) := by
  obtain ⟨hv, ht⟩ := h
  simp only [fillEntry, fillEntry931x] at hv ht ⊢
  split_ifs at hv ht with h1 h2
  rw [if_neg h1, if_pos (by exact h2)]

theorem UcRow.not_multicast {f : Family} {r : L2Row} (h : UcRow f r) :
    (fillEntry f r .zero).mac.isMulticast = false := by
  obtain ⟨hv, ht⟩ := h
  cases f with
  | rtl838x =>
    simp only [fillEntry, fillEntry838x] at ht ⊢
    split_ifs at ht ⊢ with h1 h2
    · simpa [fillUnicast838x] using h2
    · exact absurd ht (ipMcType_ne rfl)
  | rtl839x =>
    simp only [fillEntry, fillEntry839x] at ht ⊢
    split_ifs at ht ⊢ with h1 h2
    · simpa [fillUnicast839x] using h2
    · exact absurd ht (ipMcType_ne rfl)
  | rtl930x =>
    simp only [fillEntry, fillEntry930x] at hv ht ⊢
    split_ifs at hv ht ⊢ with h1 h2
    simpa [fillUnicast930x] using h2
  | rtl931x =>
    simp only [fillEntry, fillEntry931x] at hv ht ⊢
    split_ifs at hv ht ⊢ with h1 h2
    simpa [fillUnicast931x] using h2

theorem toNat_low_lt {n w : Nat} (x : BitVec 32) : ((x &&& low w).setWidth n).toNat < 2 ^ w := by
  refine Nat.lt_pow_two_of_testBit _ fun i hi => ?_
  change BitVec.getLsbD _ i = false
  have : ¬ i < w := by omega
  simp [this]

theorem bits_lt (r : BitVec 32) (p w : Nat) : (bits r p w).toNat < 2 ^ w := by
  simpa only [bits, BitVec.setWidth_eq] using toNat_low_lt (n := 32) (w := w) (r >>> p)

/-- The seed of an entry. -/
def L2Entry.seed (f : Family) (e : L2Entry) : BitVec 64 := hashSeed f (etherAddrToU64 e.mac) e.rvid

/-- What is read from a unicast row, whatever it is read into. -/
structure ReadUc (f : Family) (r : L2Row) (e : L2Entry) : Prop extends e.Fits f where
  unicast : e.type = .unicast
  seed : e.seed f = (fillEntry f r .zero).seed f
  value : seedOf (hashValue f r e) = e.seed f
  nextHop : e.nextHop = (fillEntry f r .zero).nextHop
  isStatic : e.isStatic = (fillEntry f r .zero).isStatic

/-- The words of an RTL838x row hold the seed as it is. -/
theorem value838x (r : L2Row) (e₀ : L2Entry) :
    seedOf (r.r1.setWidth 64 <<< 32 ||| r.r2.setWidth 64) =
      (fillUnicast838x r (fillMac838x r e₀)).seed .rtl838x := by
  apply BitVec.eq_of_getLsbD_eq
  intro i hi
  simp only [seedOf, L2Entry.seed, fillUnicast838x, fillMac838x, etherAddrToU64, hashSeed,
    BitVec.getLsbD_and, BitVec.getLsbD_or, BitVec.getLsbD_shiftLeft, BitVec.getLsbD_setWidth,
    BitVec.getLsbD_ushiftRight, getLsbD_low]
  grind

theorem hashValue_valid {f : Family} {r : L2Row} {e : L2Entry} (hv : e.valid = true)
    (hf : f ≠ .rtl838x) : hashValue f r e = e.seed f := by
  cases f <;> first | exact absurd rfl hf | simp [hashValue, hv, L2Entry.seed]

theorem UcRow.read838x {r : L2Row} (h : UcRow .rtl838x r) (e₀ : L2Entry) :
    ReadUc .rtl838x r (fillEntry838x r e₀) := by
  obtain ⟨z, -, -, hz⟩ := ucRow838x h .zero
  obtain ⟨e₁, h4, h6, he⟩ := ucRow838x h e₀
  have hv := h.1
  have hm := h.not_multicast
  simp only [fillEntry, hz] at hv hm
  have hv : (fillUnicast838x r (fillMac838x r e₁)).valid = true := hv
  have hu : (fillUnicast838x r (fillMac838x r e₁)).type = .unicast := if_pos hv
  have hrv : ((r.r2 &&& low 12).setWidth 16).toNat < 2 ^ 12 := toNat_low_lt _
  rw [he]
  exact {
    valid := hv
    kind := by
      rw [L2Entry.OfKind, hu]
      exact ⟨h4, h6, hm⟩
    vid := by
      simp only [fillUnicast838x]
      split
      · exact hrv
      · exact toNat_low_lt _
    rvid := hrv
    port := fun _ _ => toNat_low_lt _
    age := fun _ => bits_lt _ _ _
    mcPortmaskIndex := fun hn => absurd hu hn
    unicast := hu
    seed := by
      simp only [fillEntry, hz]
      rfl
    value := by
      have : hashValue .rtl838x r (fillUnicast838x r (fillMac838x r e₁)) =
          r.r1.setWidth 64 <<< 32 ||| r.r2.setWidth 64 := by simp [hashValue, hv]
      rw [this]
      exact value838x r _
    nextHop := by
      simp only [fillEntry, hz]
      rfl
    isStatic := by
      simp only [fillEntry, hz]
      rfl }

theorem UcRow.read839x {r : L2Row} (h : UcRow .rtl839x r) (e₀ : L2Entry) :
    ReadUc .rtl839x r (fillEntry839x r e₀) := by
  obtain ⟨z, -, -, hz⟩ := ucRow839x h .zero
  obtain ⟨e₁, h4, h6, he⟩ := ucRow839x h e₀
  have hv := h.1
  have hm := h.not_multicast
  simp only [fillEntry, hz] at hv hm
  have hv : (fillUnicast839x r (fillMac839x r e₁)).valid = true := hv
  have hu : (fillUnicast839x r (fillMac839x r e₁)).type = .unicast := if_pos hv
  have hrv : ((bits r.r0 20 12).setWidth 16).toNat < 2 ^ 12 := toNat_low_lt _
  rw [he]
  exact {
    valid := hv
    kind := by
      rw [L2Entry.OfKind, hu]
      exact ⟨h4, h6, hm⟩
    vid := by
      simp only [fillUnicast839x]
      split
      · exact hrv
      · exact toNat_low_lt _
    rvid := hrv
    port := fun _ _ => toNat_low_lt _
    age := fun _ => bits_lt _ _ _
    mcPortmaskIndex := fun hn => absurd hu hn
    unicast := hu
    seed := by
      simp only [fillEntry, hz]
      rfl
    value := by
      rw [hashValue_valid hv (by decide)]
      exact seedOf_hashSeed _ _ hrv
    nextHop := by
      simp only [fillEntry, hz]
      rfl
    isStatic := by
      simp only [fillEntry, hz]
      rfl }

theorem and_0x3f_lt (x : BitVec 8) : (x &&& 0x3f).toNat < 2 ^ 6 := by
  rw [BitVec.toNat_and]
  exact lt_of_le_of_lt Nat.and_le_right (by decide)

theorem UcRow.read930x {r : L2Row} (h : UcRow .rtl930x r) (e₀ : L2Entry) :
    ReadUc .rtl930x r (fillEntry930x r e₀) := by
  have hm := h.not_multicast
  simp only [fillEntry, ucRow930x h] at hm
  have hrv : ((r.r1 &&& low 12).setWidth 16).toNat < 2 ^ 12 := toNat_low_lt _
  rw [ucRow930x h]
  exact {
    valid := rfl
    kind := ⟨rfl, rfl, hm⟩
    vid := by
      simp only [fillUnicast930x]
      split
      · decide
      · exact toNat_low_lt _
    rvid := hrv
    port := fun _ ht => by
      simp only [L2Entry.OnTrunk, fillUnicast930x, Family.is93xx, true_and, Bool.not_eq_true] at ht
      simp only [fillUnicast930x, ht]
      exact and_0x3f_lt _
    age := fun _ => bits_lt _ _ _
    mcPortmaskIndex := fun hn => absurd rfl hn
    unicast := rfl
    seed := by
      simp only [fillEntry, ucRow930x h]
      rfl
    value := by
      rw [hashValue_valid rfl (by decide)]
      exact seedOf_hashSeed _ _ hrv
    nextHop := by
      simp only [fillEntry, ucRow930x h]
      rfl
    isStatic := by
      simp only [fillEntry, ucRow930x h]
      rfl }

theorem UcRow.read931x {r : L2Row} (h : UcRow .rtl931x r) (e₀ : L2Entry) :
    ReadUc .rtl931x r (fillEntry931x r e₀) := by
  have hm := h.not_multicast
  simp only [fillEntry, ucRow931x h] at hm
  have hrv : ((bits r.r0 16 12).setWidth 16).toNat < 2 ^ 12 := toNat_low_lt _
  rw [ucRow931x h]
  exact {
    valid := rfl
    kind := ⟨rfl, rfl, hm⟩
    vid := hrv
    rvid := hrv
    port := fun _ ht => by
      simp only [L2Entry.OnTrunk, fillUnicast931x, Family.is93xx, true_and, Bool.not_eq_true] at ht
      simp only [fillUnicast931x, ht]
      exact and_0x3f_lt _
    age := fun _ => bits_lt _ _ _
    mcPortmaskIndex := fun hn => absurd rfl hn
    unicast := rfl
    seed := by
      simp only [fillEntry, ucRow931x h]
      rfl
    value := by
      rw [hashValue_valid rfl (by decide)]
      exact seedOf_hashSeed _ _ hrv
    nextHop := by
      simp only [fillEntry, ucRow931x h]
      rfl
    isStatic := by
      simp only [fillEntry, ucRow931x h]
      rfl }

/-- A unicast row gives the same address, flags and seed, whatever it is read into. -/
theorem UcRow.read {f : Family} {r : L2Row} (h : UcRow f r) (e₀ : L2Entry) :
    ReadUc f r (fillEntry f r e₀) := by
  cases f with
  | rtl838x => exact h.read838x e₀
  | rtl839x => exact h.read839x e₀
  | rtl930x => exact h.read930x e₀
  | rtl931x => exact h.read931x e₀

/-! ## Looking for a seed -/

/-- What a valid row says of an address. -/
structure RowInfo where
  seed : BitVec 64
  nextHop : Bool
  isStatic : Bool
deriving DecidableEq

/-- What a row says; nothing, when it is free. -/
def rowInfo (f : Family) (r : L2Row) : Option RowInfo :=
  let e := fillEntry f r .zero
  if e.valid then some ⟨e.seed f, e.nextHop, e.isStatic⟩ else none

/-- The seed that a row holds. -/
def rowSeed (f : Family) (r : L2Row) : Option (BitVec 64) := (rowInfo f r).map RowInfo.seed

/-- The value that is compared with a seed is the seed of the row, whatever it is read into. -/
def SeedRow (f : Family) (r : L2Row) : Prop :=
  ∀ e, seedOf (hashValue f r (fillEntry f r e)) = (fillEntry f r .zero).seed f

/-- All rows in use are found by their seed. -/
def SeedTable (f : Family) (rows : Nat → L2Row) : Prop :=
  ∀ idx, rowInfo f (rows idx) ≠ none → SeedRow f (rows idx)

/-- The rows that may hold a seed. -/
def bucket (f : Family) (ctrl : BitVec 32) (seed : BitVec 64) : List Nat :=
  (List.range f.bucketSize).map (hashIndex (hashKey f ctrl seed))

variable {f : Family} {ctrl : BitVec 32}

theorem rowInfo_eq_none {r : L2Row} : rowInfo f r = none ↔ (fillEntry f r .zero).valid = false := by
  simp [rowInfo]

theorem rowSeed_eq_none {r : L2Row} : rowSeed f r = none ↔ rowInfo f r = none := by
  simp [rowSeed]

theorem UcRow.seedRow {r : L2Row} (h : UcRow f r) : SeedRow f r := by
  intro e
  have hr := h.read e
  rw [hr.value, hr.seed]

/-- The seed of a row is the value that is compared with a seed. -/
theorem SeedTable.value_eq {rows : Nat → L2Row} (h : SeedTable f rows) {idx : Nat} (e : L2Entry)
    (hv : (fillEntry f (rows idx) e).valid = true) (seed : BitVec 64) :
    seedOf (hashValue f (rows idx) (fillEntry f (rows idx) e)) = seed ↔
      rowSeed f (rows idx) = some seed := by
  rw [fillEntry_valid] at hv
  have hused : rowInfo f (rows idx) ≠ none := by simp [rowInfo, hv]
  rw [h idx hused e]
  simp [rowSeed, rowInfo, hv]

/-- The loop ends at the seed, or has seen that no row holds it and which one is free. -/
theorem findHashLoop_spec {rows : Nat → L2Row} (h : SeedTable f rows) (key : BitVec 32)
    (seed : BitVec 64) (is : List Nat) (freeSlot : Option Nat) (e : L2Entry) :
    (∃ i ∈ is, ∃ e', rowSeed f (rows (readIndex f key i)) = some seed ∧
      ∃ fr, findHashLoop f rows key seed is freeSlot e =
        (some i, fr, fillEntry f (rows (readIndex f key i)) e')) ∨
    ((∀ i ∈ is, rowSeed f (rows (readIndex f key i)) ≠ some seed) ∧
      ∃ e', findHashLoop f rows key seed is freeSlot e =
        (none, freeSlot.or (is.find? fun i => rowSeed f (rows (readIndex f key i)) = none),
          e')) := by
  induction is generalizing freeSlot e with
  | nil => exact .inr ⟨by simp, e, by simp [findHashLoop]⟩
  | cons i is ih =>
    simp only [findHashLoop]
    cases hv : (fillEntry f (rows (readIndex f key i)) e).valid with
    | false =>
      have hfree : rowSeed f (rows (readIndex f key i)) = none := by
        rw [rowSeed_eq_none, rowInfo_eq_none, ← fillEntry_valid f _ e, hv]
      simp only [Bool.not_false, if_true]
      rcases ih (freeSlot.or (some i)) (fillEntry f (rows (readIndex f key i)) e) with
        ⟨j, hj, e', hs, fr, he⟩ | ⟨hno, e', he⟩
      · exact .inl ⟨j, List.mem_cons_of_mem _ hj, e', hs, fr, he⟩
      · refine .inr ⟨?_, e', ?_⟩
        · intro j hj
          rcases List.mem_cons.mp hj with rfl | hj
          · simp [hfree]
          · exact hno j hj
        · rw [he]
          simp [hfree]
    | true =>
      simp only [Bool.not_true, Bool.false_eq_true, if_false]
      by_cases hs : seedOf (hashValue f (rows (readIndex f key i))
        (fillEntry f (rows (readIndex f key i)) e)) = seed
      · rw [if_pos hs]
        exact .inl ⟨i, List.mem_cons_self, e, (h.value_eq e hv seed).mp hs, freeSlot, rfl⟩
      · rw [if_neg hs]
        have hs : rowSeed f (rows (readIndex f key i)) ≠ some seed :=
          mt (h.value_eq e hv seed).mpr hs
        have hused : rowSeed f (rows (readIndex f key i)) ≠ none := by
          rw [Ne, rowSeed_eq_none, rowInfo_eq_none, ← fillEntry_valid f _ e, hv]
          decide
        rcases ih freeSlot (fillEntry f (rows (readIndex f key i)) e) with
          ⟨j, hj, e', hs', fr, he⟩ | ⟨hno, e', he⟩
        · exact .inl ⟨j, List.mem_cons_of_mem _ hj, e', hs', fr, he⟩
        · refine .inr ⟨?_, e', ?_⟩
          · intro j hj
            rcases List.mem_cons.mp hj with rfl | hj
            · exact hs
            · exact hno j hj
          · rw [he]
            simp [hused]

theorem mem_bucket {seed : BitVec 64} {idx : Nat} :
    idx ∈ bucket f ctrl seed ↔
      ∃ i < f.bucketSize, readIndex f (hashKey f ctrl seed) i = idx := by
  simp only [bucket, List.mem_map, List.mem_range]
  constructor
  · rintro ⟨i, hi, rfl⟩
    exact ⟨i, hi, readIndex_eq f ctrl seed hi⟩
  · rintro ⟨i, hi, rfl⟩
    exact ⟨i, hi, (readIndex_eq f ctrl seed hi).symm⟩

theorem index_lt (key : BitVec 32) {slot n : Nat} (hn : 2 ≤ n) (hs : slot < 8)
    (hlow : slot < 4 → ∀ i, n ≤ i → i < 16 → key.getLsbD (i - 2) = false)
    (hhigh : 4 ≤ slot → ∀ i, n ≤ i → i < 16 → key.getLsbD (i + 14) = false) :
    hashIndex key slot < 2 ^ n := by
  unfold hashIndex
  split_ifs with h
  · refine toNat_lt_of_getLsbD fun i hi => ?_
    have hslot := getLsbD_eq_false (x := BitVec.ofNat 32 (slot % 4)) (w := 2) (by simp; omega) i
      (by omega)
    have hbit := hhigh (by omega) i hi
    rw [BitVec.getLsbD_or, BitVec.getLsbD_and, BitVec.getLsbD_ushiftRight, getLsbD_low, hslot,
      Bool.or_false, Nat.add_comm]
    by_cases h16 : i < 16
    · rw [hbit h16, Bool.false_and]
    · simp [h16]
  · refine toNat_lt_of_getLsbD fun i hi => ?_
    have hslot := getLsbD_eq_false (x := BitVec.ofNat 32 slot) (w := 2) (by simp; omega) i (by omega)
    have hbit := hlow (by omega) i hi
    rw [BitVec.getLsbD_and, BitVec.getLsbD_or, BitVec.getLsbD_shiftLeft, getLsbD_low, hslot,
      Bool.or_false]
    by_cases h16 : i < 16
    · rw [hbit h16, Bool.and_false, Bool.false_and]
    · simp [h16]

theorem index930x_lt (ctrl : BitVec 32) (seed : BitVec 64) {slot : Nat} (hs : slot < 8) :
    hashIndex (hashKey .rtl930x ctrl seed) slot < 2 ^ 14 := by
  have hk := hashes930x_lt seed
  refine index_lt _ (by omega) hs ?_ ?_
  · intro _ i hi hi16
    have := getLsbD_eq_false (toNat_if_lt (c := ctrl.getLsbD 0) hk) (i - 2) (by omega)
    have h16 : i - 2 < 16 := by omega
    simp only [hashKey, bothKeys, BitVec.getLsbD_or, this, BitVec.getLsbD_shiftLeft, h16,
      decide_true, Bool.not_true, Bool.and_false, Bool.false_and, Bool.or_self]
  · intro _ i hi hi16
    have h0 := getLsbD_eq_false (toNat_if_lt (c := ctrl.getLsbD 0) hk) (i + 14) (by omega)
    have hsum : ((if ctrl.getLsbD 1 then (hashes930x seed).2 else (hashes930x seed).1) +
        2048).toNat < 2 ^ 12 := by
      have := toNat_if_lt (c := ctrl.getLsbD 1) hk
      rw [BitVec.toNat_add]
      have h2 : (2048 : BitVec 32).toNat = 2048 := rfl
      omega
    have h1 := getLsbD_eq_false hsum (i + 14 - 16) (by omega)
    simp only [hashKey, bothKeys, BitVec.getLsbD_or, h0, BitVec.getLsbD_shiftLeft, h1]
    simp

/-- On all families but the RTL931x the map of references has an entry for every row. -/
theorem bucket_lt (hf : f ≠ .rtl931x) {seed : BitVec 64} {idx : Nat}
    (h : idx ∈ bucket f ctrl seed) : idx < f.fibEntries := by
  obtain ⟨slot, hs, rfl⟩ := List.mem_map.mp h
  have hs := List.mem_range.mp hs
  cases f with
  | rtl838x =>
    refine index_lt (n := 13) _ (by omega) (by simp [Family.bucketSize] at hs; omega) ?_ ?_
    · intro _ i hi _
      exact hashKey838x_eq_false ctrl seed (by omega)
    · intro _ i hi _
      exact hashKey838x_eq_false ctrl seed (by omega)
  | rtl839x =>
    refine index_lt (n := 14) _ (by omega) (by simp [Family.bucketSize] at hs; omega) ?_ ?_
    · intro _ i hi _
      exact hashKey839x_eq_false ctrl seed (by omega)
    · intro _ i hi _
      exact hashKey839x_eq_false ctrl seed (by omega)
  | rtl930x => exact index930x_lt ctrl seed hs
  | rtl931x => exact absurd rfl hf

/-- `otto_l2_find_hash_entry` finds the row that holds the seed, or settles for a free one. -/
theorem findHashEntry_cases (ctrl : BitVec 32) {s : L2State} (h : SeedTable f s.rows)
    (seed : BitVec 64) (mustExist : Bool) (e : L2Entry) :
    (∃ idx ∈ bucket f ctrl seed, rowSeed f (s.rows idx) = some seed ∧
      ∃ e', findHashEntry f ctrl s seed mustExist e = (some idx, fillEntry f (s.rows idx) e')) ∨
    ((∀ idx ∈ bucket f ctrl seed, rowSeed f (s.rows idx) ≠ some seed) ∧ mustExist = false ∧
      ∃ idx ∈ bucket f ctrl seed, rowSeed f (s.rows idx) = none ∧
        findHashEntry f ctrl s seed mustExist e = (some idx, .zero)) ∨
    ((∀ idx ∈ bucket f ctrl seed, rowSeed f (s.rows idx) ≠ some seed) ∧
      (mustExist = true ∨ ∀ idx ∈ bucket f ctrl seed, rowSeed f (s.rows idx) ≠ none) ∧
      ∃ e', findHashEntry f ctrl s seed mustExist e = (none, e')) := by
  have hspec := findHashLoop_spec h (hashKey f ctrl seed) seed (List.range f.bucketSize) none e
  unfold findHashEntry
  rcases hspec with ⟨i, hi, e', hs, fr, he⟩ | ⟨hno, e', he⟩
  · have hi := List.mem_range.mp hi
    refine .inl ⟨readIndex f (hashKey f ctrl seed) i, mem_bucket.mpr ⟨i, hi, rfl⟩, hs, e', ?_⟩
    simp only [he]
    rw [readIndex_eq f ctrl seed hi]
  · have hno' : ∀ idx ∈ bucket f ctrl seed, rowSeed f (s.rows idx) ≠ some seed := by
      intro idx hidx
      obtain ⟨i, hi, rfl⟩ := mem_bucket.mp hidx
      exact hno i (List.mem_range.mpr hi)
    simp only [he, Option.none_or]
    cases hfr : (List.range f.bucketSize).find?
        fun i => rowSeed f (s.rows (readIndex f (hashKey f ctrl seed) i)) = none with
    | none =>
      refine .inr (.inr ⟨hno', .inr ?_, e', rfl⟩)
      intro idx hidx
      obtain ⟨i, hi, rfl⟩ := mem_bucket.mp hidx
      simpa using List.find?_eq_none.mp hfr i (List.mem_range.mpr hi)
    | some i =>
      have hi := List.mem_range.mp (List.mem_of_find?_eq_some hfr)
      have hfree := List.find?_some hfr
      cases mustExist with
      | true => exact .inr (.inr ⟨hno', .inl rfl, e', rfl⟩)
      | false =>
        refine .inr (.inl ⟨hno', rfl, readIndex f (hashKey f ctrl seed) i,
          mem_bucket.mpr ⟨i, hi, rfl⟩, by simpa using hfree, ?_⟩)
        rw [readIndex_eq f ctrl seed hi]
        simp

/-! ## Writing a row -/

variable {e : L2Entry}

theorem and_eq_zero {x m : BitVec 32} (h : ∀ i < 32, m.getLsbD i = true → x.getLsbD i = false) :
    (x &&& m == 0) = true := by
  rw [beq_iff_eq]
  apply BitVec.eq_of_getLsbD_eq
  intro i hi
  cases hm : m.getLsbD i with
  | false => simp [hm]
  | true => simp [h i hi hm]

theorem free838x (h : e.Fits .rtl838x) (hf : e.ReadsAsFree .rtl838x) (e₀ : L2Entry) :
    (reread .rtl838x e e₀).valid = false := by
  obtain ⟨hu, hst, hda, hsa, hnh, hage⟩ := hf
  have hage : e.age.toNat < 2 ^ 1 := hage
  obtain ⟨hi4, hi6, hm⟩ := h.unicast hu
  have hvid := getLsbD_eq_false h.vid
  have hport := getLsbD_eq_false (h.port hu (not_onTrunk rfl))
  have hage := getLsbD_eq_false hage
  simp only [Family.portBits] at hport
  rw [reread838x_unicast h hu]
  simp only [fillUnicast838x, Bool.not_eq_false', Bool.and_eq_true]
  constructor
  · refine and_eq_zero fun i hi hmask => ?_
    rw [show (0x007c0000 : BitVec 32) = low 5 <<< 18 from by decide] at hmask
    simp only [BitVec.getLsbD_shiftLeft, getLsbD_low, Bool.and_eq_true, decide_eq_true_eq,
      Bool.not_eq_true', decide_eq_false_iff_not] at hmask
    have h6 : ¬ i - 12 < 6 := by omega
    simp only [fillRow838x, h.valid, hi4, hi6, hm, hst, hnh, Bool.not_true, Bool.not_false,
      Bool.and_self, Bool.false_eq_true, if_true, if_false, BitVec.getLsbD_or, getLsbD_flag,
      BitVec.getLsbD_shiftLeft, BitVec.getLsbD_and, BitVec.getLsbD_setWidth, getLsbD_low,
      BitVec.ofNat_eq_ofNat, BitVec.getLsbD_zero, hvid i (by omega), hage (i - 17) (by omega), h6,
      decide_false, Bool.and_false, Bool.false_and, Bool.or_false]
  · refine and_eq_zero fun i hi hmask => ?_
    rw [show (0xd0000000 : BitVec 32) = flag 31 true ||| flag 30 true ||| flag 28 true
      from by decide] at hmask
    simp only [BitVec.getLsbD_or, getLsbD_flag, Bool.and_true, Bool.or_eq_true, Bool.and_eq_true,
      decide_eq_true_eq] at hmask
    have h29 : ¬ i = 29 := by omega
    simp only [fillRow838x, h.valid, hi4, hi6, hm, hda, hsa, hnh, Bool.not_true, Bool.not_false,
      Bool.and_self, Bool.false_eq_true, if_true, if_false, BitVec.getLsbD_or, getLsbD_flag,
      BitVec.getLsbD_setWidth, BitVec.getLsbD_ushiftRight, getLsbD_etherAddrToU64 _ (20 + i) (by omega),
      h29, decide_false, Bool.and_false, Bool.false_and, Bool.or_false]

theorem free839x (h : e.Fits .rtl839x) (hf : e.ReadsAsFree .rtl839x) (e₀ : L2Entry) :
    (reread .rtl839x e e₀).valid = false := by
  obtain ⟨hu, hst, hda, hsa, hnh, hage⟩ := hf
  have hage : e.age = 0 := BitVec.eq_of_toNat_eq hage
  obtain ⟨hi4, hi6, hm⟩ := h.unicast hu
  have hvid := getLsbD_eq_false h.vid
  have hport := getLsbD_eq_false (h.port hu (not_onTrunk rfl))
  simp only [Family.portBits] at hport
  rw [reread839x_unicast h hu]
  simp only [fillUnicast839x, Bool.not_eq_false']
  refine and_eq_zero fun i hi hmask => ?_
  rw [show (0xc0fd0000 : BitVec 32) = low 2 <<< 30 ||| low 6 <<< 18 ||| flag 16 true
    from by decide] at hmask
  simp only [BitVec.getLsbD_or, BitVec.getLsbD_shiftLeft, getLsbD_low, getLsbD_flag,
    Bool.and_true, Bool.or_eq_true, Bool.and_eq_true, decide_eq_true_eq, Bool.not_eq_true',
    decide_eq_false_iff_not] at hmask
  have h17 : ¬ i = 17 := by omega
  have hport' : (decide (i < 32) && (!decide (i < 24) && (decide (i - 24 < 32) &&
      e.port.getLsbD (i - 24)))) = false := by
    by_cases h24 : i < 24
    · simp [h24]
    · simp [hport (i - 24) (by omega)]
  have hvid' : e.vid.getLsbD (i - 4) = false := hvid (i - 4) (by omega)
  simp only [fillRow839x, h.valid, hi4, hi6, hm, hst, hda, hsa, hnh, hage, Bool.not_true,
    Bool.not_false, Bool.and_self, Bool.false_eq_true, if_true, if_false, BitVec.getLsbD_or,
    getLsbD_flag, BitVec.getLsbD_shiftLeft, BitVec.getLsbD_and, BitVec.getLsbD_setWidth,
    BitVec.ofNat_eq_ofNat, BitVec.getLsbD_zero, Bool.and_assoc, hport', hvid', h17, decide_false,
    Bool.and_false, Bool.false_and, Bool.or_false]

/-- A unicast entry that reads as free leaves a free row. -/
theorem L2Entry.Fits.reread_free (h : e.Fits f) (hf : e.ReadsAsFree f) (e₀ : L2Entry) :
    (reread f e e₀).valid = false := by
  cases f with
  | rtl838x => exact free838x h hf e₀
  | rtl839x => exact free839x h hf e₀
  | rtl930x => exact hf.2.2.2.2.2.elim
  | rtl931x => exact hf.2.2.2.2.2.elim

/-- The row of a unicast entry says what the entry says. -/
theorem rowInfo_fillRow (h : e.Fits f) (hu : e.type = .unicast) (hf : ¬ e.ReadsAsFree f) :
    rowInfo f (fillRow f e) = some ⟨e.seed f, e.nextHop, e.isStatic⟩ ∧ UcRow f (fillRow f e) := by
  have hb := h.unicastBack hu hf .zero
  have hv : (fillEntry f (fillRow f e) .zero).valid = true := hb.valid
  have hs : (fillEntry f (fillRow f e) .zero).seed f = e.seed f := by
    unfold L2Entry.seed
    rw [show (fillEntry f (fillRow f e) .zero).mac = e.mac from hb.mac,
      show (fillEntry f (fillRow f e) .zero).rvid = e.rvid from hb.rvid]
  refine ⟨?_, hv, hb.type⟩
  simp only [rowInfo, hv, if_true, hs]
  rw [show (fillEntry f (fillRow f e) .zero).nextHop = e.nextHop from hb.nextHop,
    show (fillEntry f (fillRow f e) .zero).isStatic = e.isStatic from hb.isStatic]

theorem rowInfo_fillRow_invalid (h : e.valid = false) : rowInfo f (fillRow f e) = none :=
  rowInfo_eq_none.mpr (reread_invalid h .zero)

@[simp] theorem setHashMsb_valid (idx : Nat) (e : L2Entry) :
    (setHashMsb f ctrl idx e).valid = e.valid := by
  cases f <;> rfl

theorem setHashMsb_fits {idx : Nat} (h : e.Fits f) : (setHashMsb f ctrl idx e).Fits f := by
  cases f with
  | rtl838x => exact h
  | rtl839x => exact h
  | rtl930x => exact h
  | rtl931x => exact { h with }

/-- What a table says after a row was written: the entry's information in that row, or nothing
when the entry is not valid or reads as free. -/
theorem rowInfo_written (ctrl : BitVec 32) (idx : Nat) (h : e.Fits f) (hu : e.type = .unicast) :
    (rowInfo f (fillRow f (setHashMsb f ctrl idx e)) = none ∧ e.ReadsAsFree f) ∨
    (rowInfo f (fillRow f (setHashMsb f ctrl idx e)) = some ⟨e.seed f, e.nextHop, e.isStatic⟩ ∧
      UcRow f (fillRow f (setHashMsb f ctrl idx e)) ∧ ¬ e.ReadsAsFree f) := by
  have hh : (setHashMsb f ctrl idx e).Fits f := setHashMsb_fits h
  by_cases hf : e.ReadsAsFree f
  · refine .inl ⟨rowInfo_eq_none.mpr (hh.reread_free ?_ .zero), hf⟩
    cases f <;> exact hf
  · refine .inr ?_
    have hu' : (setHashMsb f ctrl idx e).type = .unicast := by cases f <;> exact hu
    have hf' : ¬ (setHashMsb f ctrl idx e).ReadsAsFree f := by cases f <;> exact hf
    obtain ⟨hi, hr⟩ := rowInfo_fillRow hh hu' hf'
    refine ⟨?_, hr, hf⟩
    rw [hi]
    cases f <;> rfl

/-! ## Whole tables -/

/-- A table of rows of one kind: each is in the bucket of its seed, and no two have the same. -/
structure Table (f : Family) (ctrl : BitVec 32) (Kind : L2Row → Prop) (rows : Nat → L2Row) :
    Prop where
  kind : ∀ idx, rowInfo f (rows idx) ≠ none → Kind (rows idx)
  home : ∀ {idx seed}, rowSeed f (rows idx) = some seed → idx ∈ bucket f ctrl seed
  unique : ∀ {i j seed}, rowSeed f (rows i) = some seed → rowSeed f (rows j) = some seed → i = j

variable {Kind : L2Row → Prop} {idx : Nat} {info : RowInfo}

theorem rowSeed_of_info {r : L2Row} (h : rowInfo f r = some info) :
    rowSeed f r = some info.seed := by
  simp [rowSeed, h]

theorem info_of_rowSeed {r : L2Row} {seed : BitVec 64} (h : rowSeed f r = some seed) :
    ∃ info, rowInfo f r = some info ∧ info.seed = seed := by
  simpa [rowSeed] using h

theorem Table.seedTable {rows : Nat → L2Row} (h : Table f ctrl Kind rows)
    (hk : ∀ {r}, Kind r → SeedRow f r) : SeedTable f rows :=
  fun idx hi => hk (h.kind idx hi)

theorem Table.update {rows : Nat → L2Row} (h : Table f ctrl Kind rows) (idx : Nat) {r : L2Row}
    (hr : rowInfo f r = none ∨ Kind r ∧ ∃ seed, rowSeed f r = some seed ∧
      idx ∈ bucket f ctrl seed ∧ ∀ k ≠ idx, rowSeed f (rows k) ≠ some seed) :
    Table f ctrl Kind (Function.update rows idx r) where
  kind := by
    intro k hk
    by_cases hki : k = idx
    · subst hki
      rw [Function.update_self] at hk ⊢
      rcases hr with hr | hr
      · exact absurd hr hk
      · exact hr.1
    · rw [Function.update_of_ne hki] at hk ⊢
      exact h.kind k hk
  home := by
    intro k seed hk
    by_cases hki : k = idx
    · subst hki
      rw [Function.update_self] at hk
      rcases hr with hr | ⟨-, sd, hsd, hb, -⟩
      · simp [rowSeed, hr] at hk
      · rw [hsd, Option.some_inj] at hk
        rwa [← hk]
    · rw [Function.update_of_ne hki] at hk
      exact h.home hk
  unique := by
    intro i j seed hi hj
    rcases hr with hr | ⟨-, sd, hsd, -, hno⟩
    · have hne : ∀ k, rowSeed f (Function.update rows idx r k) = some seed → k ≠ idx := by
        rintro k hk rfl
        rw [Function.update_self, rowSeed, hr] at hk
        simp at hk
      rw [Function.update_of_ne (hne i hi)] at hi
      rw [Function.update_of_ne (hne j hj)] at hj
      exact h.unique hi hj
    · by_cases hii : i = idx <;> by_cases hji : j = idx
      · rw [hii, hji]
      · subst hii
        rw [Function.update_self, hsd] at hi
        rw [Function.update_of_ne hji, ← hi] at hj
        exact absurd hj (hno j hji)
      · subst hji
        rw [Function.update_self, hsd] at hj
        rw [Function.update_of_ne hii, ← hj] at hi
        exact absurd hi (hno i hii)
      · rw [Function.update_of_ne hii] at hi
        rw [Function.update_of_ne hji] at hj
        exact h.unique hi hj

/-- The words of a row that are read with its seed are those of no other row. -/
theorem Table.only {rows : Nat → L2Row} (h : Table f ctrl Kind rows)
    (hi : rowInfo f (rows idx) = some info) {k : Nat} (hk : k ≠ idx) :
    rowSeed f (rows k) ≠ some info.seed :=
  fun hs => hk (h.unique hs (rowSeed_of_info hi))

/-- A table of which rows are dropped. -/
theorem Table.drop {rows rows' : Nat → L2Row} (h : Table f ctrl Kind rows)
    (hr : ∀ k, rows' k = rows k ∨ rowInfo f (rows' k) = none) : Table f ctrl Kind rows' := by
  have hold : ∀ {k seed}, rowSeed f (rows' k) = some seed → rows' k = rows k := by
    intro k seed hk
    rcases hr k with hk' | hk'
    · exact hk'
    · simp [rowSeed, hk'] at hk
  refine ⟨?_, ?_, ?_⟩
  · intro k hk
    rcases hr k with hk' | hk'
    · rw [hk'] at hk ⊢
      exact h.kind k hk
    · exact absurd hk' hk
  · intro k seed hk
    rw [hold hk] at hk
    exact h.home hk
  · intro i j seed hi hj
    rw [hold hi] at hi
    rw [hold hj] at hj
    exact h.unique hi hj

/-! ## Rows that the bridge writes -/

variable {s : L2State}

theorem u64ToEtherAddr_etherAddrToU64 (m : Mac) : u64ToEtherAddr (etherAddrToU64 m) = m := by
  obtain ⟨m0, m1, m2, m3, m4, m5⟩ := m
  simp (disch := decide) only [u64ToEtherAddr, etherAddrToU64, BitVec.ushiftRight_or_distrib,
    BitVec.setWidth_or, byte_self, byte_of_disjoint, byte_zero_of_shiftLeft, ushiftRight_setWidth,
    BitVec.setWidth_setWidth_of_le, BitVec.setWidth_eq, BitVec.zero_or,
    BitVec.or_zero]

theorem setupUcEntry_fits {port : BitVec 8} {addr : Mac} {vid : BitVec 16}
    (hp : port.toNat < 2 ^ f.portBits) (hm : addr.isMulticast = false) (hv : vid.toNat < 4096) :
    (setupUcEntry e port vid (etherAddrToU64 addr)).Fits f where
  valid := rfl
  kind := by
    simp only [L2Entry.OfKind, setupUcEntry, u64ToEtherAddr_etherAddrToU64]
    exact ⟨trivial, trivial, hm⟩
  vid := hv
  rvid := hv
  port := fun _ _ => hp
  age := fun _ => by
    change (3 : BitVec 32).toNat < _
    cases f <;> decide
  mcPortmaskIndex := fun hn => absurd rfl hn

theorem setupUcEntry_seed (e : L2Entry) (port : BitVec 8) (addr : Mac) (vid : BitVec 16) :
    (setupUcEntry e port vid (etherAddrToU64 addr)).seed f =
      hashSeed f (etherAddrToU64 addr) vid := by
  simp [L2Entry.seed, setupUcEntry, u64ToEtherAddr_etherAddrToU64]

theorem writeRow_rows (e : L2Entry) : (writeRow f ctrl s idx e).rows =
    Function.update s.rows idx (fillRow f (setHashMsb f ctrl idx e)) := rfl

@[simp] theorem setUc_rows (g : L2Uc → L2Uc) : (setUc f s idx g).rows = s.rows := by
  unfold setUc
  split <;> rfl

@[simp] theorem setUc_cam (g : L2Uc → L2Uc) : (setUc f s idx g).cam = s.cam := by
  unfold setUc
  split <;> rfl

/-- A change of the references of a row that leaves the count leaves all counts. -/
theorem setUc_l3Refcount {g : L2Uc → L2Uc}
    (hg : (g (s.ucMap idx)).l3Refcount = (s.ucMap idx).l3Refcount) (k : Nat) :
    ((setUc f s idx g).ucMap k).l3Refcount = (s.ucMap k).l3Refcount := by
  unfold setUc
  split
  · by_cases hk : k = idx
    · subst hk
      simp [hg]
    · simp [hk]
  · rfl

/-- The row of a static entry that the bridge writes. -/
theorem setup_written (ctrl : BitVec 32) (idx : Nat) {port : BitVec 8} {addr : Mac}
    {vid : BitVec 16} (hp : port.toNat < 2 ^ f.portBits) (hm : addr.isMulticast = false)
    (hv : vid.toNat < 4096) (e : L2Entry) :
    rowInfo f (fillRow f (setHashMsb f ctrl idx (setupUcEntry e port vid (etherAddrToU64 addr)))) =
        some ⟨hashSeed f (etherAddrToU64 addr) vid, e.valid && e.nextHop, true⟩ ∧
      UcRow f
        (fillRow f (setHashMsb f ctrl idx (setupUcEntry e port vid (etherAddrToU64 addr)))) := by
  have hfits : (setupUcEntry e port vid (etherAddrToU64 addr)).Fits f := setupUcEntry_fits hp hm hv
  rcases rowInfo_written ctrl idx hfits rfl with ⟨-, hfree⟩ | ⟨hw, hr, -⟩
  · exact absurd hfree.2.1 (by simp [setupUcEntry])
  · rw [setupUcEntry_seed] at hw
    exact ⟨hw, hr⟩

/-- The row that is left of a unicast row that the bridge deletes: a next hop that is referred
to, or none. -/
theorem delFdb_row {r : L2Row} {e : L2Entry} (hr : ReadUc f r e) (ctrl : BitVec 32) (idx : Nat)
    (referred : Bool) :
    if referred && e.nextHop then
      rowInfo f (fillRow f (setHashMsb f ctrl idx (delFdb f referred e))) =
          some ⟨e.seed f, true, e.isStatic⟩ ∧
        UcRow f (fillRow f (setHashMsb f ctrl idx (delFdb f referred e)))
    else rowInfo f (fillRow f (setHashMsb f ctrl idx (delFdb f referred e))) = none := by
  have hu := hr.unicast
  split
  · rename_i hk
    have hn : e.nextHop = true := (Bool.and_eq_true _ _ ▸ hk).2
    have hkeep : delFdb f referred e = { e with port := f.portIgnore, age := 0 } := by
      rw [delFdb, if_pos hk]
    have hfits : (delFdb f referred e).Fits f := by
      rw [hkeep]
      refine { hr.toFits with kind := ?_, port := fun _ _ => ?_, age := fun _ => ?_ }
      · have := hr.kind
        simp only [L2Entry.OfKind, hu] at this ⊢
        exact this
      · change f.portIgnore.toNat < 2 ^ f.portBits
        cases f <;> decide
      · exact Nat.two_pow_pos _
    rcases rowInfo_written ctrl idx hfits (by rw [hkeep]; exact hu) with ⟨-, hfree⟩ | ⟨hw, hrow, -⟩
    · have hno := hfree.2.2.2.2.1
      rw [hkeep] at hno
      rw [show e.nextHop = false from hno] at hn
      cases hn
    · refine ⟨?_, hrow⟩
      rw [hw, hkeep, ← hn]
      rfl
  · rename_i hk
    refine rowInfo_fillRow_invalid ?_
    rw [setHashMsb_valid, delFdb, if_neg hk]

end Lede.Otto
