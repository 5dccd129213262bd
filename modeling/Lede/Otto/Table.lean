/-
Lede.Otto.Table — the switch tables behind their access registers (`realtek/otto_table.c`).

An access goes through the register map: the data window, a command, and the wait for it. What
the registers answer is a parameter of the access (`ExecRun`). Each call to the map may fail, and
a command that was sent and not seen to complete may have been carried out, or half of it, or not.
A table is held under its lock from `tableAcquire` on, so nobody else comes between two accesses.
-/
import Mathlib.Logic.Function.Basic
import Lede.Otto.Family

namespace Lede.Otto

/-- `OTTO_TBL_ID_BASE` -/
def tblIdBase : Int := 1000

/-- `OTTO_TBL_COUNT` -/
def tblCount : Int := 149

/-- A table of `n` rows of `w` words. `bound` says that `otto_map` is there, `writes` has the rows
a write was asked for, the last one first. -/
structure SwitchTable (w n : Nat) where
  bound : Bool
  rows : Fin n → Vector (BitVec 32) w
  writes : List Int := []

variable {w n : Nat}

/-! ## Handles -/

def tableIdToHandle (id : Int) : Int :=
  if id < tblIdBase ∨ tblIdBase + tblCount ≤ id then -EINVAL else id - tblIdBase

/-- `otto_table_reg`, as whether there is a register. -/
def tableReg (bound : Bool) (handle : Int) : Bool := bound && 0 ≤ handle && handle < tblCount

def tableAcquire (bound : Bool) (id : Int) : Int :=
  let handle := tableIdToHandle id
  if tableReg bound handle then handle else -EINVAL

/-- `otto_table_index_ok`, with the row it lets through. -/
def tableIndex (n : Nat) (idx : Int) : Option (Fin n) :=
  if h : 0 ≤ idx ∧ idx < n then some ⟨idx.toNat, by omega⟩ else none

/-! ## Commands -/

/-- The answers to one `otto_table_exec`: the poll before the command, the write of the control
register, and the poll after it. -/
structure ExecRun where
  idle : Int := 0
  sent : Int := 0
  done : Int := 0

/-- What became of a command. -/
inductive Command where
  | unsent
  | unsure
  | done
deriving DecidableEq, Repr

def tableExec (x : ExecRun) : Int × Command :=
  if x.idle ≠ 0 then (x.idle, .unsent)
  else if x.sent ≠ 0 then (x.sent, .unsure)
  else if x.done ≠ 0 then (x.done, .unsure)
  else (0, .done)

/-! ## Accesses to a whole row -/

/-- `data` is what `regmap_bulk_read` returns, `left` what a failed one leaves in the buffer. -/
structure ReadRun (w : Nat) where
  exec : ExecRun := {}
  data : Int := 0
  left : Vector (BitVec 32) w := Vector.replicate w 0

/-- `data` is what `regmap_bulk_write` returns, `left` what the row holds after a command nobody
saw complete; `none` is what it held before. -/
structure WriteRun (w : Nat) where
  data : Int := 0
  exec : ExecRun := {}
  left : Option (Vector (BitVec 32) w) := none

/-- `__otto_table_read_bytes` of a whole row: what it returns, and the buffer. -/
def tableRead (t : SwitchTable w n) (handle idx : Int) (run : ReadRun w) :
    Int × Vector (BitVec 32) w :=
  let cleared := Vector.replicate w 0
  if !tableReg t.bound handle then (-EINVAL, cleared)
  else
    match tableIndex n idx with
    | none => (-EINVAL, cleared)
    | some row =>
      let (ret, _) := tableExec run.exec
      if ret ≠ 0 then (ret, cleared)
      else if run.data ≠ 0 then (run.data, run.left)
      else (0, t.rows row)

def SwitchTable.put (t : SwitchTable w n) (row : Fin n) (v : Vector (BitVec 32) w) :
    SwitchTable w n :=
  { t with rows := Function.update t.rows row v }

/-- `__otto_table_write_bytes` of a whole row. -/
def tableWrite (t : SwitchTable w n) (handle idx : Int) (v : Vector (BitVec 32) w)
    (run : WriteRun w) : Int × SwitchTable w n :=
  let t := { t with writes := idx :: t.writes }
  if !tableReg t.bound handle then (-EINVAL, t)
  else
    match tableIndex n idx with
    | none => (-EINVAL, t)
    | some row =>
      if run.data ≠ 0 then (run.data, t)
      else
        match tableExec run.exec with
        | (ret, .unsent) => (ret, t)
        | (ret, .unsure) => (ret, (run.left.map (t.put row)).getD t)
        | (ret, .done) => (ret, t.put row v)

/-! ## What an access that succeeds did -/

/-- What the table holds at an index, nothing outside it. -/
def SwitchTable.cell (t : SwitchTable w n) (idx : Int) : Option (Vector (BitVec 32) w) :=
  (tableIndex n idx).map t.rows

theorem tableIndex_eq_some {idx : Int} {row : Fin n} :
    tableIndex n idx = some row ↔ (row : Int) = idx := by
  unfold tableIndex
  constructor
  · intro h
    split at h
    · obtain rfl := Option.some.inj h
      simp; omega
    · cases h
  · rintro rfl
    simp

@[simp] theorem tableIndex_row (row : Fin n) : tableIndex n row = some row :=
  tableIndex_eq_some.2 rfl

@[simp] theorem SwitchTable.cell_row (t : SwitchTable w n) (row : Fin n) :
    t.cell row = some (t.rows row) := by
  simp [cell]

theorem SwitchTable.cell_put (t : SwitchTable w n) (row : Fin n) (v : Vector (BitVec 32) w) :
    (t.put row v).cell = Function.update t.cell row (some v) := by
  funext idx
  by_cases hidx : idx = row
  · subst hidx
    simp [put]
  · rw [Function.update_of_ne hidx]
    unfold cell
    cases hrow : tableIndex n idx with
    | none => rfl
    | some row' =>
      have hne : row' ≠ row := by
        rintro rfl
        exact hidx (tableIndex_eq_some.1 hrow).symm
      simp [put, Function.update_of_ne hne]

theorem tableExec_done {x : ExecRun} {c : Command} (h : tableExec x = (0, c)) : c = .done := by
  unfold tableExec at h
  split at h
  · simp_all
  · split at h
    · simp_all
    · split at h
      · simp_all
      · simpa [eq_comm] using h

/-- A read that succeeds was of a row of the table, and hands back what the row holds. -/
theorem tableRead_ok {t : SwitchTable w n} {handle idx : Int} {run : ReadRun w}
    {v : Vector (BitVec 32) w} (h : tableRead t handle idx run = (0, v)) :
    ∃ row : Fin n, (row : Int) = idx ∧ v = t.rows row := by
  have hE : (-EINVAL : Int) ≠ 0 := by decide
  unfold tableRead at h
  split at h
  · exact absurd (congrArg Prod.fst h) hE
  · split at h
    · exact absurd (congrArg Prod.fst h) hE
    · rename_i row hrow
      refine ⟨row, tableIndex_eq_some.1 hrow, ?_⟩
      dsimp only at h
      split at h
      · exact absurd (congrArg Prod.fst h) ‹_›
      · split at h
        · exact absurd (congrArg Prod.fst h) ‹_›
        · exact (congrArg Prod.snd h).symm

/-- A write that succeeds was of a row of the table, and that row alone holds what it was given. -/
theorem tableWrite_ok {t t' : SwitchTable w n} {handle idx : Int} {v : Vector (BitVec 32) w}
    {run : WriteRun w} (h : tableWrite t handle idx v run = (0, t')) :
    ∃ row : Fin n, (row : Int) = idx ∧ t' = { t.put row v with writes := idx :: t.writes } := by
  have hE : (-EINVAL : Int) ≠ 0 := by decide
  unfold tableWrite at h
  dsimp only at h
  split at h
  · exact absurd (congrArg Prod.fst h) hE
  · split at h
    · exact absurd (congrArg Prod.fst h) hE
    · rename_i row hrow
      refine ⟨row, tableIndex_eq_some.1 hrow, ?_⟩
      split at h
      · exact absurd (congrArg Prod.fst h) ‹_›
      · cases hx : tableExec run.exec with
        | mk ret c =>
          have hret : ret = 0 := by
            rw [hx] at h
            cases c <;> exact congrArg Prod.fst h
          subst hret
          obtain rfl := tableExec_done hx
          rw [hx] at h
          exact (congrArg Prod.snd h).symm

/-! ## Accesses nothing fails in -/

def ExecRun.Ok (x : ExecRun) : Prop := x.idle = 0 ∧ x.sent = 0 ∧ x.done = 0
def ReadRun.Ok (run : ReadRun w) : Prop := run.exec.Ok ∧ run.data = 0
def WriteRun.Ok (run : WriteRun w) : Prop := run.exec.Ok ∧ run.data = 0

theorem ExecRun.Ok.done {x : ExecRun} (h : x.Ok) : tableExec x = (0, .done) := by
  obtain ⟨hidle, hsent, hdone⟩ := h
  simp [tableExec, hidle, hsent, hdone]

theorem tableReg_acquire (id : Int) (hid : tblIdBase ≤ id ∧ id < tblIdBase + tblCount) :
    tableAcquire true id = id - tblIdBase ∧ tableReg true (id - tblIdBase) = true := by
  have hreg : tableReg true (id - tblIdBase) = true := by
    simp [tableReg]
    omega
  have hhandle : tableIdToHandle id = id - tblIdBase := by
    rw [tableIdToHandle, if_neg (by omega)]
  simp [tableAcquire, hhandle, hreg]

theorem tableRead_of_ok {t : SwitchTable w n} {handle : Int} {run : ReadRun w}
    (hreg : tableReg t.bound handle = true) (hrun : run.Ok) (row : Fin n) :
    tableRead t handle row run = (0, t.rows row) := by
  simp [tableRead, hreg, hrun.1.done, hrun.2]

theorem tableWrite_of_ok {t : SwitchTable w n} {handle : Int} {run : WriteRun w}
    (hreg : tableReg t.bound handle = true) (hrun : run.Ok) (row : Fin n)
    (v : Vector (BitVec 32) w) :
    tableWrite t handle row v run = (0, { t.put row v with writes := row :: t.writes }) := by
  simp [tableWrite, hreg, hrun.1.done, hrun.2, SwitchTable.put]

end Lede.Otto
