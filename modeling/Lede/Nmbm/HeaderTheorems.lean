/-
Lede.Nmbm.HeaderTheorems — where the tables lie that a header names.

The offsets of the two tables come from the chip. `nmbm_check_info_table_header` compares their
differences with the sizes of the tables, and differences of `u32` values wrap: an offset behind
the table that it should lie before passes as well. `headerTables_inside_iff` says which headers
name tables inside the cache.
-/
import Lede.Nmbm.ReloadTheorems

namespace Lede.Nmbm

open Lede.Lib

variable (d : NmbmDesc) (m : Nat → UInt8)

/-- The tables that the header in `m` names end inside the `info_table_size` bytes of the cache:
these are the bytes that `nmbm_check_info_table` looks at and the loader copies. -/
structure TablesInside : Prop where
  state : get32 m 20 + d.stateTableSize ≤ d.infoTableSize
  map : get32 m 24 + d.mappingTableSize ≤ d.infoTableSize

/-- The offsets in a header with the magic and the size of a table: neither difference wraps, or
one does and the tables are inside or the header is refused nevertheless. -/
inductive OffsetsInOrder : Prop where
  | inOrder (hle : get32 m 20 ≤ get32 m 24) (hin : get32 m 24 ≤ d.infoTableSize)
  | stateBehind (hlt : get32 m 24 < get32 m 20) (hin : get32 m 24 ≤ d.infoTableSize)
      (hfits : get32 m 20 + d.stateTableSize ≤ d.infoTableSize ∨
        d.infoTableSize < get32 m 24 + d.mappingTableSize ∨
        2 ^ 32 + get32 m 24 < get32 m 20 + d.stateTableSize)
  | mapOutside (hle : get32 m 20 ≤ get32 m 24) (hout : d.infoTableSize < get32 m 24)
      (hshort : get32 m 24 < get32 m 20 + d.stateTableSize)

theorem subU32_of_le {a b : Nat} (ha : a < 2 ^ 32) (h : b ≤ a) : subU32 a b = a - b := by
  unfold subU32
  omega

theorem subU32_of_lt {a b : Nat} (hb : b < 2 ^ 32) (h : a < b) : subU32 a b = 2 ^ 32 + a - b := by
  unfold subU32
  omega

theorem nmbmCheckInfoTableHeader_iff : nmbmCheckInfoTableHeader d m = true ↔
    get32 m 0 = nmbmMagicInfoTable ∧ get32 m 8 = d.infoTableSize ∧
      d.stateTableSize ≤ subU32 (get32 m 24) (get32 m 20) ∧
      d.mappingTableSize ≤ subU32 d.infoTableSize (get32 m 24) := by
  simp [nmbmCheckInfoTableHeader, and_assoc]

/-- **The tables of every accepted header lie inside the cache exactly if the header has another
magic or size or its offsets are in order.** -/
theorem headerTables_inside_iff :
    (nmbmCheckInfoTableHeader d m = true → TablesInside d m) ↔
      (get32 m 0 = nmbmMagicInfoTable → get32 m 8 = d.infoTableSize → OffsetsInOrder d m) := by
  have h₁ := mappingTableOff_ge d
  have h₂ := infoTableSize_ge d
  have hstate := get32_lt m 20
  have hmap := get32_lt m 24
  rw [nmbmCheckInfoTableHeader_iff]
  constructor
  · intro h hmagic hsize
    have hlt : d.infoTableSize < 2 ^ 32 := hsize ▸ get32_lt m 8
    have h' := fun hs hm => h ⟨hmagic, hsize, hs, hm⟩
    by_cases hin : get32 m 24 ≤ d.infoTableSize
    · rw [subU32_of_le hlt hin] at h'
      by_cases hle : get32 m 20 ≤ get32 m 24
      · exact .inOrder hle hin
      · refine .stateBehind (by omega) hin ?_
        rw [subU32_of_lt hstate (by omega)] at h'
        by_cases hs : d.stateTableSize ≤ 2 ^ 32 + get32 m 24 - get32 m 20
        · by_cases hm : d.mappingTableSize ≤ d.infoTableSize - get32 m 24
          · exact .inl (h' hs hm).state
          · exact .inr (.inl (by omega))
        · exact .inr (.inr (by omega))
    · -- the mapping table is outside, so the header must be refused
      have hm : d.mappingTableSize ≤ subU32 d.infoTableSize (get32 m 24) := by
        rw [subU32_of_lt hmap (by omega)]
        omega
      have hs : ¬ d.stateTableSize ≤ subU32 (get32 m 24) (get32 m 20) := by
        intro hs
        have := (h' hs hm).map
        omega
      by_cases hle : get32 m 20 ≤ get32 m 24
      · rw [subU32_of_le hmap hle] at hs
        exact .mapOutside hle (by omega) (by omega)
      · rw [subU32_of_lt hstate (by omega)] at hs
        omega
  · rintro h ⟨hmagic, hsize, hs, hm⟩
    have hlt : d.infoTableSize < 2 ^ 32 := hsize ▸ get32_lt m 8
    cases h hmagic hsize with
    | inOrder hle hin =>
      rw [subU32_of_le hmap hle] at hs
      rw [subU32_of_le hlt hin] at hm
      exact ⟨by omega, by omega⟩
    | stateBehind hgt hin hfits =>
      rw [subU32_of_lt hstate hgt] at hs
      rw [subU32_of_le hlt hin] at hm
      exact ⟨by omega, by omega⟩
    | mapOutside hle hout hshort =>
      rw [subU32_of_le hmap hle] at hs
      omega

/-- A header whose mapping table begins half the address space behind the cache. -/
def farHeader : Nat → UInt8 :=
  putInfoTableHeader (fun _ => 0)
    { magic := nmbmMagicInfoTable, version := nmbmVer, size := 35328, checksum := 0, writeCount := 1,
      stateTableOff := 512, mappingTableOff := 0x80000000, padding := 0 }

/-- It is accepted. -/
theorem farHeader_outside :
    nmbmCheckInfoTableHeader smallBlockChip farHeader = true ∧ ¬ TablesInside smallBlockChip farHeader := by
  obtain ⟨hmagic, hsize, -, hstate, hmap⟩ := get32_putInfoTableHeader (fun _ => 0)
    { magic := nmbmMagicInfoTable, version := nmbmVer, size := 35328, checksum := 0, writeCount := 1,
      stateTableOff := 512, mappingTableOff := 0x80000000, padding := 0 }
  constructor
  · rw [nmbmCheckInfoTableHeader_iff, smallBlockChip_infoTableSize]
    unfold farHeader
    rw [hmagic, hsize, hstate, hmap]
    refine ⟨by decide, by decide, ?_, ?_⟩
    · rw [subU32_of_le (by decide) (by decide)]
      decide
    · rw [subU32_of_lt (by decide) (by decide)]
      decide
  · rintro ⟨-, hin⟩
    unfold farHeader at hin
    rw [hmap, smallBlockChip_infoTableSize] at hin
    exact absurd hin (by decide)

end Lede.Nmbm
