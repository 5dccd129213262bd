/-
Lede.MtdSplit.Fit — the parser that splits a partition at a FIT image
(`drivers/mtd/mtdsplit/mtdsplit_fit.c`).

A FIT is a device tree blob. A large one has all its data in the blob, and the
root file system is looked for behind it. A small one may refer to data that
follows, and its tree is walked for the end of that data. The walk is libfdt's,
a parameter here: it is given the bytes of the buffer.

With each result comes the list of the reads, each with the size of the buffer
that it fills.
-/
import Lede.MtdSplit.Mtd
import Mathlib.Algebra.Group.Int.Defs

namespace Lede.MtdSplit

open Lede.Lib

/-! ## The tree -/

section Images

variable (w : SizeT) (fdt : Libfdt) (fit : Nat → UInt8) (noffset : Int)

end Images

/-! ## The parser -/

/-- The properties of the device node, and the kernel's command line. -/
structure FitNode where
  cmdlineMatch : Option (List Char) := none
  fitOffset : BitVec 32 := 0
  savedCommandLine : List Char := []

section Parser

variable (m : Machine) (mtd : MtdInfo) (flash : Flash) (fdt : Libfdt) (np : FitNode)

end Parser

end Lede.MtdSplit
