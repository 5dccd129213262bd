/-
Lede.Lib.Fields — the fields of a record as bytes, in the byte order of a machine.

A record is written as the concatenation of its fields; it is read from the front,
field after field. What was written is read back, whatever follows.
-/
import Lede.Lib.Checksum

namespace Lede.Lib

def bytes16 (e : Endian) (v : Nat) : List UInt8 :=
  match e with
  | .little => [UInt8.ofNat (v % 256), UInt8.ofNat (v / 256 % 256)]
  | .big => [UInt8.ofNat (v / 256 % 256), UInt8.ofNat (v % 256)]

def bytes32 (e : Endian) (v : Nat) : List UInt8 :=
  match e with
  | .little => bytes16 e (v % 65536) ++ bytes16 e (v / 65536 % 65536)
  | .big => bytes16 e (v / 65536 % 65536) ++ bytes16 e (v % 65536)

def read8 : List UInt8 → Option (Nat × List UInt8)
  | b :: r => some (b.toNat, r)
  | [] => none

def read16 (e : Endian) : List UInt8 → Option (Nat × List UInt8)
  | a :: b :: r =>
    match e with
    | .little => some (a.toNat + 256 * b.toNat, r)
    | .big => some (256 * a.toNat + b.toNat, r)
  | _ => none

def read32 (e : Endian) (l : List UInt8) : Option (Nat × List UInt8) := do
  let (a, r) ← read16 e l
  let (b, r) ← read16 e r
  match e with
  | .little => some (a + 65536 * b, r)
  | .big => some (65536 * a + b, r)

section Fields

variable (e : Endian) (v : Nat) (r : List UInt8)

@[simp] theorem length_bytes16 : (bytes16 e v).length = 2 := by cases e <;> rfl

@[simp] theorem length_bytes32 : (bytes32 e v).length = 4 := by cases e <;> simp [bytes32]

@[simp] theorem read8_cons (b : UInt8) : read8 (b :: r) = some (b.toNat, r) := rfl

@[simp] theorem read16_bytes16 : read16 e (bytes16 e v ++ r) = some (v % 65536, r) := by
  have hsplit : v % 65536 = v % 256 + 256 * (v / 256 % 256) := by omega
  cases e with
  | little => simp [bytes16, read16, hsplit]
  | big => simp [bytes16, read16, hsplit, Nat.add_comm]

@[simp] theorem read32_bytes32 : read32 e (bytes32 e v ++ r) = some (v % 2 ^ 32, r) := by
  have hsplit : v % 2 ^ 32 = v % 65536 + 65536 * (v / 65536 % 65536) := by omega
  rw [hsplit]
  cases e with
  | little => simp [bytes32, read32]
  | big => simp [bytes32, read32, Nat.add_comm]

/-! In a reader, field after field. -/

variable {β : Type}

theorem read8_bind (b : UInt8) (f : Nat × List UInt8 → Option β) :
    (read8 (b :: r) >>= f) = f (b.toNat, r) := rfl

theorem read16_bind (f : Nat × List UInt8 → Option β) :
    (read16 e (bytes16 e v ++ r) >>= f) = f (v % 65536, r) := by
  rw [read16_bytes16]
  rfl

theorem read32_bind (f : Nat × List UInt8 → Option β) :
    (read32 e (bytes32 e v ++ r) >>= f) = f (v % 2 ^ 32, r) := by
  rw [read32_bytes32]
  rfl

end Fields

end Lede.Lib
