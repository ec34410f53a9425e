import Mathlib.Algebra.Group.Fin.Basic
import Mathlib.Algebra.Order.Ring.Int
import VendorKernel.Lib.Bitmap

/-! The top-task tables of a runqueue: per window, how many tasks have a load in each bucket, a bitmap of the
occupied buckets in reversed order, and the highest one. -/
namespace VendorKernel.Walt

open Bitmap Function

-- Named, so that numerals of these `Fin` types are the same terms in every module.
instance neZeroOne : NeZero 1 := ⟨by decide⟩

instance neZeroTwo : NeZero 2 := ⟨by decide⟩

instance neZeroFour : NeZero 4 := ⟨by decide⟩

instance neZeroFive : NeZero 5 := ⟨by decide⟩

def numLoadIndices : ℕ := 1000

def schedLoadGranule : ℕ := 16000

def loadToIndex (load : ℕ) : ℕ := min (load / schedLoadGranule) (numLoadIndices - 1)

structure TopTable where
  count : ℕ → ℕ
  bitmap : ℕ → Bool
  /-- Not in the source: some count was decremented at zero. -/
  underflow : Bool

structure RankedTable extends TopTable where
  top : ℕ

structure TopTasks where
  topTasks : Fin 2 → TopTable
  currTable : Fin 2
  prevTop : ℕ
  currTop : ℕ

namespace TopTable

def dec (t : TopTable) (index : ℕ) : TopTable :=
  { t with
    count := update t.count index ((t.count index + 255) % 256)
    underflow := t.underflow || t.count index == 0 }

def inc (t : TopTable) (index : ℕ) : TopTable :=
  { t with count := update t.count index ((t.count index + 1) % 256) }

def clearBitIfZero (t : TopTable) (index : ℕ) : TopTable :=
  if t.count index = 0 then
    { t with bitmap := update t.bitmap (numLoadIndices - index - 1) false }
  else t

def setBitIfOne (t : TopTable) (index : ℕ) : TopTable :=
  if t.count index = 1 then
    { t with bitmap := update t.bitmap (numLoadIndices - index - 1) true }
  else t

/-- `clear_top_tasks_table` and `clear_top_tasks_bitmap`; one bit past the end stays set. -/
def clear (t : TopTable) : TopTable :=
  { t with count := fun _ => 0, bitmap := fun i => i == numLoadIndices }

end TopTable

def getTopIndex (bitmap : ℕ → Bool) (oldTop : ℕ) : ℕ :=
  let index := findNextBit bitmap numLoadIndices oldTop
  if index = numLoadIndices then 0 else numLoadIndices - 1 - index

namespace TopTasks

def init : TopTasks where
  topTasks _ := ⟨fun _ => 0, fun i => i == numLoadIndices, false⟩
  currTable := 0
  prevTop := 0
  currTop := 0

def curr (t : TopTasks) : RankedTable := ⟨t.topTasks t.currTable, t.currTop⟩

def prev (t : TopTasks) : RankedTable := ⟨t.topTasks (1 - t.currTable), t.prevTop⟩

def setCurr (t : TopTasks) (r : RankedTable) : TopTasks :=
  { t with topTasks := update t.topTasks t.currTable r.toTopTable, currTop := r.top }

def setPrev (t : TopTasks) (r : RankedTable) : TopTasks :=
  { t with topTasks := update t.topTasks (1 - t.currTable) r.toTopTable, prevTop := r.top }

end TopTasks

namespace RankedTable

def migrateSubtraction (r : RankedTable) (window : ℕ) : RankedTable :=
  if window = 0 then r
  else
    let index := loadToIndex window
    let table := (r.toTopTable.dec index).clearBitIfZero index
    if index = r.top ∧ table.count index = 0 then ⟨table, getTopIndex table.bitmap r.top⟩
    else ⟨table, r.top⟩

def migrateAddition (r : RankedTable) (window : ℕ) : RankedTable :=
  if window = 0 then r
  else
    let index := loadToIndex window
    ⟨(r.toTopTable.inc index).setBitIfOne index, if index > r.top then index else r.top⟩

/-- `update_top_tasks` on the current table when the task stays in its window. -/
def updateSameWindow (r : RankedTable) (oldCurrWindow currWindow : ℕ) : RankedTable :=
  let oldIndex := loadToIndex oldCurrWindow
  let newIndex := loadToIndex currWindow
  let zeroIndexUpdate := oldCurrWindow = 0 ∧ currWindow ≠ 0
  let r' : RankedTable :=
    if oldIndex ≠ newIndex ∨ zeroIndexUpdate then
      let table := if oldCurrWindow ≠ 0 then r.toTopTable.dec oldIndex else r.toTopTable
      let table := if currWindow ≠ 0 then table.inc newIndex else table
      ⟨table, if newIndex > r.top then newIndex else r.top⟩
    else r
  ⟨(r'.toTopTable.clearBitIfZero oldIndex).setBitIfOne newIndex, r'.top⟩

def updatePrevFull (r : RankedTable) (prevWindow : ℕ) : RankedTable :=
  let updateIndex := loadToIndex prevWindow
  let r' : RankedTable :=
    if prevWindow ≠ 0 then ⟨r.toTopTable.inc updateIndex, updateIndex⟩ else r
  ⟨r'.toTopTable.setBitIfOne updateIndex, r'.top⟩

/-- `update_top_tasks` on the previous table when the task enters the next window. -/
def updatePrevNext (r : RankedTable) (oldCurrWindow prevWindow : ℕ) : RankedTable :=
  let oldIndex := loadToIndex oldCurrWindow
  let updateIndex := loadToIndex prevWindow
  let zeroIndexUpdate := oldCurrWindow = 0 ∧ prevWindow ≠ 0
  if oldIndex ≠ updateIndex ∨ zeroIndexUpdate then
    let table := if oldCurrWindow ≠ 0 then r.toTopTable.dec oldIndex else r.toTopTable
    let table := table.inc updateIndex
    ⟨(table.clearBitIfZero oldIndex).setBitIfOne updateIndex,
      if updateIndex > r.top then updateIndex else r.top⟩
  else r

end RankedTable

namespace TopTasks

def migrateTopTasksSubtraction (t : TopTasks) (currWindow prevWindow : ℕ) : TopTasks :=
  let t := t.setCurr (t.curr.migrateSubtraction currWindow)
  t.setPrev (t.prev.migrateSubtraction prevWindow)

def migrateTopTasksAddition (t : TopTasks) (currWindow prevWindow : ℕ) : TopTasks :=
  let t := t.setCurr (t.curr.migrateAddition currWindow)
  t.setPrev (t.prev.migrateAddition prevWindow)

/-- `update_top_tasks`; the last block, the entry in the new current window, is what
`migrate_top_tasks_addition` does. -/
def updateTopTasks (t : TopTasks) (oldCurrWindow currWindow prevWindow : ℕ)
    (newWindow fullWindow : Bool) : TopTasks :=
  if oldCurrWindow = currWindow ∧ newWindow = false then t
  else if newWindow = false then t.setCurr (t.curr.updateSameWindow oldCurrWindow currWindow)
  else
    let t :=
      if fullWindow then t.setPrev (t.prev.updatePrevFull prevWindow)
      else t.setPrev (t.prev.updatePrevNext oldCurrWindow prevWindow)
    t.setCurr (t.curr.migrateAddition currWindow)

def rolloverTopTasks (t : TopTasks) (fullWindow : Bool) : TopTasks :=
  let prevTable := 1 - t.currTable
  let tables := update t.topTasks prevTable (t.topTasks prevTable).clear
  { topTasks :=
      if fullWindow then update tables t.currTable (t.topTasks t.currTable).clear
      else tables
    currTable := prevTable
    prevTop := if fullWindow then 0 else t.currTop
    currTop := 0 }

/-! ### Each operation acts on one table at a time -/

variable (t : TopTasks) (r : RankedTable)

theorem other_ne (c : Fin 2) : 1 - c ≠ c := by
  revert c
  decide

@[simp] theorem curr_setCurr : (t.setCurr r).curr = r := by
  simp [curr, setCurr]

@[simp] theorem prev_setCurr : (t.setCurr r).prev = t.prev := by
  simp [prev, setCurr, other_ne]

@[simp] theorem curr_setPrev : (t.setPrev r).curr = t.curr := by
  simp [curr, setPrev, (other_ne _).symm]

@[simp] theorem prev_setPrev : (t.setPrev r).prev = r := by
  simp [prev, setPrev]

@[simp] theorem setCurr_curr : t.setCurr t.curr = t := by
  simp [curr, setCurr]

@[simp] theorem setPrev_prev : t.setPrev t.prev = t := by
  simp [prev, setPrev]

section
variable (t : TopTasks) (oldCurrWindow currWindow prevWindow : ℕ) (fullWindow : Bool)

theorem updateTopTasks_same :
    (t.updateTopTasks oldCurrWindow currWindow prevWindow false fullWindow).curr =
        (if oldCurrWindow = currWindow then t.curr else t.curr.updateSameWindow oldCurrWindow currWindow) ∧
      (t.updateTopTasks oldCurrWindow currWindow prevWindow false fullWindow).prev = t.prev := by
  by_cases h : oldCurrWindow = currWindow <;> simp [updateTopTasks, h]

theorem updateTopTasks_new :
    (t.updateTopTasks oldCurrWindow currWindow prevWindow true fullWindow).curr =
        t.curr.migrateAddition currWindow ∧
      (t.updateTopTasks oldCurrWindow currWindow prevWindow true fullWindow).prev =
        if fullWindow then t.prev.updatePrevFull prevWindow
        else t.prev.updatePrevNext oldCurrWindow prevWindow := by
  cases fullWindow <;> simp [updateTopTasks]

theorem migrateTopTasksSubtraction_tables :
    (t.migrateTopTasksSubtraction currWindow prevWindow).curr = t.curr.migrateSubtraction currWindow ∧
      (t.migrateTopTasksSubtraction currWindow prevWindow).prev = t.prev.migrateSubtraction prevWindow := by
  simp [migrateTopTasksSubtraction]

theorem migrateTopTasksAddition_tables :
    (t.migrateTopTasksAddition currWindow prevWindow).curr = t.curr.migrateAddition currWindow ∧
      (t.migrateTopTasksAddition currWindow prevWindow).prev = t.prev.migrateAddition prevWindow := by
  simp [migrateTopTasksAddition]

end

theorem curr_rolloverTopTasks (t : TopTasks) (fullWindow : Bool) :
    (t.rolloverTopTasks fullWindow).curr = ⟨t.prev.toTopTable.clear, 0⟩ := by
  cases fullWindow <;> simp [rolloverTopTasks, curr, prev, other_ne]

theorem prev_rolloverTopTasks (t : TopTasks) (fullWindow : Bool) :
    (t.rolloverTopTasks fullWindow).prev =
      if fullWindow then ⟨t.curr.toTopTable.clear, 0⟩ else t.curr := by
  cases fullWindow <;> simp [rolloverTopTasks, curr, prev, (other_ne _).symm]

end TopTasks

end VendorKernel.Walt
