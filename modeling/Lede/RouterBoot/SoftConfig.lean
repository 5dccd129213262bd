/-
Lede.RouterBoot.SoftConfig — `rb_softconfig.c`: the RouterBOOT "soft_config"
segment behind sysfs.

The driver keeps one buffer `sc_buf`. Tag stores change it, and the `commit`
file writes it to the chip or reads the chip back. Whether the buffer has changes
that are not on the chip is not a flag: it is read off the CRC word of the
buffer, which every tag store clears.

What the chip answers is a parameter of each operation (`MtdAnswer`). An
operation that does not complete may leave anything behind. The chip is NOR: an
erase followed by a complete write leaves what was written.

With several processes an access is not one step. A tag store is one critical
section under the write lock. A commit has three: the test of the CRC under the
read lock, the work under the write lock, and on failure a store to the CRC word
without a lock (`Act`).
-/
import Lede.RouterBoot.TagFind
import Lede.Lib.Words

namespace Lede.RouterBoot

open Lede.Lib

/-! ## Tags -/

/-- The known tags, `sc_attrs`. -/
inductive ScTag where
  | uartSpeed
  | bootDelay
  | bootDevice
  | bootKey
  | cpuMode
  | biosVersion
  | bootProto
  | cpufreqIndex
  | booter
  | silentBoot
  deriving DecidableEq, Repr

/-- `tag_id`. -/
def ScTag.tagId : ScTag → Nat
  | uartSpeed => 0x01
  | bootDelay => 0x02
  | bootDevice => 0x03
  | bootKey => 0x04
  | cpuMode => 0x05
  | biosVersion => 0x06
  | bootProto => 0x09
  | cpufreqIndex => 0x0c
  | booter => 0x0d
  | silentBoot => 0x0f

/-- The SoCs the CPU frequency tag tells apart. -/
inductive Soc where
  | ar7161
  | ar71xx
  | ar724x
  | ar9344
  | qca953x
  | qca9556
  | qca9558
  | ath79
  | other
  deriving DecidableEq, Repr

/-- The errors the stores return. -/
inductive ScErr where
  | einval
  | enoent
  | eopnotsupp
  | eacces
  | erange
  | enodev
  | eio
  deriving DecidableEq, Repr

/-- `sysfs_streq`: equal but for one newline at the end. -/
def sysfsStreq (s₁ s₂ : String) : Bool := s₁ == s₂ || s₂ == s₁ ++ "\n" || s₁ == s₂ ++ "\n"

/-- `kstrtou32(buf, 10, ..)`. -/
def kstrtou32 (s : String) : Except ScErr Nat :=
  let cs := s.toList
  let cs := if cs.head? = some '+' then cs.tail else cs
  let cs := if cs.getLast? = some '\n' then cs.dropLast else cs
  if cs = [] ∨ ¬ cs.all Char.isDigit then .error .einval
  else
    let v := cs.foldl (fun v c => 10 * v + (c.toNat - 48)) 0
    if v < 2 ^ 32 then .ok v else .error .erange

/-- `kstrtobool`. -/
def kstrtobool (s : String) : Option Bool :=
  match s.toList with
  | [] => none
  | c :: rest =>
    if c ∈ ['y', 'Y', 't', 'T', '1'] then some true
    else if c ∈ ['n', 'N', 'f', 'F', '0'] then some false
    else if c ∈ ['o', 'O'] then
      match rest with
      | [] => none
      | c :: _ =>
        if c ∈ ['n', 'N'] then some true else if c ∈ ['f', 'F'] then some false else none
    else none

/-- `sc_uartspeeds`. -/
def scUartspeeds : List (Nat × String) :=
  [(8, "off"), (7, "1200"), (6, "2400"), (5, "4800"), (4, "9600"), (3, "19200"), (2, "38400"),
   (1, "57600"), (0, "115200")]

/-- `sc_bootdevices`. -/
def scBootdevices : List (Nat × String) :=
  [(0, "eth"), (1, "flasheth"), (3, "ethonce"), (5, "flash"), (7, "cfg"), (8, "cfgonce")]

/-- `sc_cpufreq_indexes_ath79_9x`. -/
def scCpufreqIndexesAth799x : List (Nat × String) :=
  [(0x00, "a"), (0x08, "b"), (0x10, "c"), (0x18, "d"), (0x20, "e"), (0x28, "f")]

/-- `sc_cpufreq_indexes_ath79_7x`. -/
def scCpufreqIndexesAth797x : List (Nat × String) :=
  [(0x000, "a"), (0x090, "b"), (0x120, "c"), (0x1b0, "d"), (0x240, "e"), (0x2d0, "f"), (0x360, "g"),
   (0x3f0, "h")]

/-- `sc_tag_cpufreq_ath79_arraysize`; `none` stands for -EOPNOTSUPP. -/
def scTagCpufreqAth79Arraysize : Soc → Option Nat
  | .ar7161 => some 8
  | .ar724x => some 4
  | .ar9344 => some 6
  | .qca953x => some 5
  | .qca9556 => some 3
  | .qca9558 => some 4
  | _ => none

/-- The table of `sc_tag_store_cpufreq_indexes`, cut to its length. -/
def scCpufreqIndexes (soc : Soc) : Option (List (Nat × String)) :=
  let tvs :=
    match soc with
    | .ar7161 | .ar71xx | .ar724x => scCpufreqIndexesAth797x
    | _ => scCpufreqIndexesAth799x
  (scTagCpufreqAth79Arraysize soc).map tvs.take

/-- `sc_tag_store_u32tvs`: the value it stores. -/
def scTagStoreU32tvs (tvs : Option (List (Nat × String))) (pldLen : Nat) (buf : String) :
    Except ScErr Nat :=
  match tvs with
  | none => .error .eopnotsupp
  | some tvs =>
    if pldLen ≠ 4 then .error .einval
    else
      match tvs.find? fun tv => sysfsStreq buf tv.2 with
      | some tv => .ok tv.1
      | none => .error .einval

/-- `sc_tag_store_boolts`. -/
def scTagStoreBoolts (strfalse strtrue : String) (pldLen : Nat) (buf : String) : Except ScErr Nat :=
  if pldLen ≠ 4 then .error .einval
  else if sysfsStreq buf strfalse then .ok 0
  else if sysfsStreq buf strtrue then .ok 1
  else .error .einval

/-- `sc_tag_store_bootdelays`. -/
def scTagStoreBootdelays (pldLen : Nat) (buf : String) : Except ScErr Nat :=
  if pldLen ≠ 4 then .error .einval
  else
    match kstrtou32 buf with
    | .error e => .error e
    | .ok data => if data < 1 ∨ 9 < data then .error .einval else .ok data

/-- `tstore` of the tags; `none` where it is NULL. -/
def scTagStore (soc : Soc) : ScTag → Option (Nat → String → Except ScErr Nat)
  | .uartSpeed => some (scTagStoreU32tvs (some scUartspeeds))
  | .bootDelay => some scTagStoreBootdelays
  | .bootDevice => some (scTagStoreU32tvs (some scBootdevices))
  | .bootKey => some (scTagStoreBoolts "any" "del")
  | .cpuMode => some (scTagStoreBoolts "powersave" "regular")
  | .biosVersion => none
  | .bootProto => some (scTagStoreBoolts "bootp" "dhcp")
  | .cpufreqIndex => if soc = .other then none else some (scTagStoreU32tvs (scCpufreqIndexes soc))
  | .booter => some (scTagStoreBoolts "regular" "backup")
  | .silentBoot => some (scTagStoreBoolts "off" "on")

/-! ## The driver -/

/-- `sc_buf` and its length, the payloads of the tags, and the chip. -/
structure SoftConfig where
  buflen : Nat
  attrs : ScTag → Payload
  buf : Nat → UInt8
  flash : Nat → UInt8

/-- The first `n` bytes of `new`, over `old`. -/
def overlay (n : Nat) (new old : Nat → UInt8) : Nat → UInt8 := fun a => if a < n then new a else old a

/-- `RB_SC_CLRCRC`. -/
def clrCrc (s : SoftConfig) : SoftConfig := { s with buf := put32 s.buf 4 0 }

/-- `RB_SC_GETCRC`. -/
def getCrc (s : SoftConfig) : Nat := get32 s.buf 4

/-- `sc_commit_show`: the file reads "clean". -/
def scCommitShow (s : SoftConfig) : Bool := getCrc s ≠ 0

/-- `~crc32(~0, sc_buf, sc_buflen)`. -/
def scCrc (buf : Nat → UInt8) (buflen : Nat) : Nat := (~~~ crc32Le (-1#32) buf 0 buflen).toNat

/-- The critical section of a tag store. -/
def storeWord (s : SoftConfig) (ofs data : Nat) : SoftConfig :=
  clrCrc { s with buf := put32 s.buf ofs data }

/-- `sc_attr_store`, up to the value and the place it is stored to. -/
def scAttrStore (soc : Soc) (s : SoftConfig) (capable : Bool) (tag : ScTag) (buf : String) :
    Except ScErr Nat :=
  if !capable then .error .eacces
  else
    match scTagStore soc tag with
    | none => .error .eopnotsupp
    | some tstore => if (s.attrs tag).len = 0 then .error .enoent else tstore (s.attrs tag).len buf

/-- The state after `sc_attr_store`. -/
def attrStored (soc : Soc) (s : SoftConfig) (capable : Bool) (tag : ScTag) (buf : String) : SoftConfig :=
  match scAttrStore soc s capable tag buf with
  | .error _ => s
  | .ok data => storeWord s (s.attrs tag).ofs data

/-- What the chip answers in one critical section: whether `mtd_erase` returns 0,
whether `mtd_write` or `mtd_read` does, the number of bytes that reports, and what
an operation that does not complete leaves behind. -/
structure MtdAnswer where
  eraseOk : Bool
  ok : Bool
  bytes : Nat
  left : Nat → UInt8

/-- The transfer is complete. -/
def MtdAnswer.complete (a : MtdAnswer) (buflen : Nat) : Bool := a.ok && a.bytes == buflen

/-- The critical section of `sc_commit_store` for a discard; `false` leads to
`mtdfail`. -/
def commitReread (s : SoftConfig) (a : MtdAnswer) : Bool × SoftConfig :=
  if a.complete s.buflen then (true, { s with buf := overlay s.buflen s.flash s.buf })
  else (false, { s with buf := overlay s.buflen a.left s.buf })

/-- The buffer with the CRC that `sc_commit_store` computes. -/
def setCrc (s : SoftConfig) : SoftConfig := { s with buf := put32 s.buf 4 (scCrc s.buf s.buflen) }

/-- The critical section of `sc_commit_store` for a commit. -/
def commitFlush (s : SoftConfig) (a : MtdAnswer) : Bool × SoftConfig :=
  let s := setCrc s
  if !a.eraseOk then (false, { s with flash := overlay s.buflen a.left s.flash })
  else if a.complete s.buflen then (true, { s with flash := overlay s.buflen s.buf s.flash })
  else (false, { s with flash := overlay s.buflen a.left s.flash })

/-- The critical section of `sc_commit_store`. -/
def commitCritical (flush : Bool) (s : SoftConfig) (a : MtdAnswer) : Bool × SoftConfig :=
  if flush then commitFlush s a else commitReread s a

/-- `sc_commit_store` when nothing runs beside it; `true` stands for `count`. `mtd`
is `none` when the device is not found. -/
def scCommitStore (s : SoftConfig) (buf : String) (mtd : Option MtdAnswer) : Bool × SoftConfig :=
  if getCrc s ≠ 0 then (true, s)
  else
    match kstrtobool buf, mtd with
    | none, _ => (false, s)
    | some _, none => (false, s)
    | some flush, some a =>
      match commitCritical flush s a with
      | (true, s) => (true, s)
      | (false, s) => (false, clrCrc s)

/-- A partition: at least the magic and the CRC, and a whole number of words. -/
structure SoftPart where
  size : Nat
  size_ge : 8 ≤ size
  dvd_size : 4 ∣ size
  flash : Nat → UInt8

/-- `RB_MAGIC_SOFT`. -/
def rbMagicSoft : Nat := 0x74666f53

/-- `rb_softconfig_init`, with the answer of `mtd_read` and the memory of `sc_buf`
before it. -/
def rbSoftconfigInit (part : SoftPart) (mem : Nat → UInt8) (a : MtdAnswer) : Option SoftConfig :=
  if !a.complete part.size then none
  else
    let buf := overlay part.size part.flash mem
    if get32 buf 0 ≠ rbMagicSoft then none
    else
      some {
        buflen := part.size
        buf := buf
        flash := part.flash
        attrs := fun tag =>
          match routerbootTagFind (fun i => buf (8 + i)) (part.size - 8) tag.tagId with
          | none => ⟨0, 0⟩
          | some p => ⟨(p.ofs + 8) % 65536, p.len⟩ }

/-! ## One process after the other -/

/-- The accesses through sysfs that change something. -/
inductive Op where
  | store (capable : Bool) (tag : ScTag) (buf : String)
  | commit (buf : String) (mtd : Option MtdAnswer)

/-- The state after an access. -/
def Op.apply (soc : Soc) (s : SoftConfig) : Op → SoftConfig
  | .store capable tag buf => attrStored soc s capable tag buf
  | .commit buf mtd => (scCommitStore s buf mtd).2

/-! ## Processes beside each other -/

/-- Where a process is in `sc_commit_store`. -/
inductive Phase where
  | idle
  | tested (flush : Bool)
  | failing
  deriving DecidableEq, Repr

/-- The driver and the processes in it. -/
structure Sys where
  sc : SoftConfig
  phase : Nat → Phase

/-- The atomic steps: a tag store, and the three critical sections of a commit. -/
inductive Act where
  | store (capable : Bool) (tag : ScTag) (buf : String)
  | test (pid : Nat) (buf : String) (found : Bool)
  | critical (pid : Nat) (a : MtdAnswer)
  | fail (pid : Nat)

/-- The phase of one process changes. -/
def setPhase (y : Sys) (pid : Nat) (p : Phase) : Sys :=
  { y with phase := fun q => if q = pid then p else y.phase q }

/-- A step; `none` when the process is not at that point. -/
def step (soc : Soc) (y : Sys) : Act → Option Sys
  | .store capable tag buf => some { y with sc := attrStored soc y.sc capable tag buf }
  | .test pid buf found =>
    if y.phase pid ≠ .idle then none
    else if getCrc y.sc ≠ 0 then some y
    else
      match kstrtobool buf with
      | none => some y
      | some flush => if found then some (setPhase y pid (.tested flush)) else some y
  | .critical pid a =>
    match y.phase pid with
    | .tested flush =>
      let (ok, sc) := commitCritical flush y.sc a
      some (setPhase { y with sc := sc } pid (if ok then .idle else .failing))
    | _ => none
  | .fail pid =>
    if y.phase pid = .failing then some (setPhase { y with sc := clrCrc y.sc } pid .idle) else none

/-- The image a step hands to `mtd_write`. -/
def written (y : Sys) : Act → Option (Nat → UInt8)
  | .critical pid a =>
    if y.phase pid = .tested true ∧ a.eraseOk = true then some (setCrc y.sc).buf else none
  | _ => none

end Lede.RouterBoot
