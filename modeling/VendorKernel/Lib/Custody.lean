import Mathlib.Data.List.Nodup

/-! Objects that are put on a shelf, taken off it by one of several holders, and disposed of by their
holder. The counters say how often. -/
namespace VendorKernel

open Nat List Function

structure Custody (ι η : Type*) where
  shelf : List ι
  holds : η → Option ι
  taken : ι → ℕ
  disposed : ι → ℕ

namespace Custody

variable {ι η : Type*}

def empty : Custody ι η := ⟨[], fun _ => none, fun _ => 0, fun _ => 0⟩

def put (c : Custody ι η) (o : ι) : Custody ι η := { c with shelf := o :: c.shelf }

def Once (c : Custody ι η) : Prop := ∀ o, c.taken o ≤ 1 ∧ c.disposed o ≤ 1

def Known (c : Custody ι η) (o : ι) : Prop := o ∈ c.shelf ∨ 0 < c.taken o

/-- A later state: the counters only go up, and what is known stays known. -/
structure Before (c c' : Custody ι η) : Prop where
  known : ∀ o, c.Known o → c'.Known o
  taken : ∀ o, c.taken o ≤ c'.taken o
  disposed : ∀ o, c.disposed o ≤ c'.disposed o

/-- An object is on the shelf, or in the hands of one holder, or disposed of. -/
structure Sound (c : Custody ι η) : Prop where
  nodup : c.shelf.Nodup
  shelf_new : ∀ o ∈ c.shelf, c.taken o = 0
  held : ∀ h, ∀ o ∈ c.holds h, c.taken o = 1 ∧ c.disposed o = 0
  unique : ∀ h h', ∀ o ∈ c.holds h, o ∈ c.holds h' → h = h'
  taken_le : ∀ o, c.taken o ≤ 1
  disposed_le : ∀ o, c.disposed o ≤ c.taken o

section
variable {c c' : Custody ι η} {h : η} {o : ι}

theorem Before.refl (c : Custody ι η) : c.Before c := ⟨fun _ h => h, fun _ => Nat.le_refl _, fun _ => Nat.le_refl _⟩

theorem Before.once (hb : c.Before c') (h : c'.Once) : c.Once :=
  fun o => ⟨Nat.le_trans (hb.taken o) (h o).1, Nat.le_trans (hb.disposed o) (h o).2⟩

theorem before_put (c : Custody ι η) (o : ι) : c.Before (c.put o) where
  known _ := Or.imp_left (mem_cons_of_mem o)
  taken _ := Nat.le_refl _
  disposed _ := Nat.le_refl _

theorem sound_empty : (empty : Custody ι η).Sound where
  nodup := nodup_nil
  shelf_new _ h := nomatch h
  held _ _ h := nomatch h
  unique _ _ _ h := nomatch h
  taken_le _ := Nat.zero_le 1
  disposed_le _ := Nat.le_refl 0

theorem Sound.once (hc : c.Sound) : c.Once :=
  fun o => ⟨hc.taken_le o, Nat.le_trans (hc.disposed_le o) (hc.taken_le o)⟩

theorem Sound.disposed_of_mem (hc : c.Sound) (ho : o ∈ c.shelf) : c.disposed o = 0 := by
  have hle := hc.disposed_le o
  rw [hc.shelf_new o ho] at hle
  exact le_zero.mp hle

theorem Sound.put (hc : c.Sound) (ho : o ∉ c.shelf) (htk : c.taken o = 0) : (c.put o).Sound where
  nodup := nodup_cons.mpr ⟨ho, hc.nodup⟩
  shelf_new := forall_mem_cons.mpr ⟨htk, hc.shelf_new⟩
  held := hc.held
  unique := hc.unique
  taken_le := hc.taken_le
  disposed_le := hc.disposed_le

end

variable [DecidableEq ι] [DecidableEq η] {c : Custody ι η} {h h' : η} {o o' : ι}

def take (c : Custody ι η) (h : η) (o : ι) : Custody ι η :=
  { c with shelf := c.shelf.erase o, holds := update c.holds h (some o), taken := update c.taken o (c.taken o + 1) }

def dispose (c : Custody ι η) (h : η) (o : ι) : Custody ι η :=
  { c with holds := update c.holds h none, disposed := update c.disposed o (c.disposed o + 1) }

theorem mem_holds_take : o' ∈ (c.take h o).holds h' ↔ if h' = h then o' = o else o' ∈ c.holds h' := by
  by_cases hsame : h' = h
  · simp [take, hsame, eq_comm]
  · simp [take, hsame]

theorem mem_holds_dispose : o' ∈ (c.dispose h o).holds h' ↔ h' ≠ h ∧ o' ∈ c.holds h' := by
  by_cases hsame : h' = h
  · simp [dispose, hsame]
  · simp [dispose, hsame]

theorem taken_take : (c.take h o).taken o' = if o' = o then c.taken o + 1 else c.taken o' :=
  update_apply ..

theorem disposed_dispose : (c.dispose h o).disposed o' = if o' = o then c.disposed o + 1 else c.disposed o' :=
  update_apply ..

theorem before_take (c : Custody ι η) (h : η) (o : ι) : c.Before (c.take h o) where
  known o' hknown := by
    rw [Known, taken_take]
    split_ifs with hsame
    · exact .inr (succ_pos _)
    · exact hknown.imp_left (mem_erase_of_ne hsame).mpr
  taken o' := by
    rw [taken_take]
    split_ifs with hsame
    · rw [hsame]
      exact Nat.le_succ _
    · exact Nat.le_refl _
  disposed _ := Nat.le_refl _

theorem before_dispose (c : Custody ι η) (h : η) (o : ι) : c.Before (c.dispose h o) where
  known _ hknown := hknown
  taken _ := Nat.le_refl _
  disposed o' := by
    rw [disposed_dispose]
    split_ifs with hsame
    · rw [hsame]
      exact Nat.le_succ _
    · exact Nat.le_refl _

theorem Sound.take (hc : c.Sound) (h : η) (ho : o ∈ c.shelf) : (c.take h o).Sound := by
  have hnew := hc.shelf_new o ho
  -- nobody has what is on the shelf
  have hfree : ∀ h', o ∉ c.holds h' := by
    intro h' hheld
    have hone := (hc.held h' o hheld).1
    omega
  refine ⟨hc.nodup.erase o, fun o' ho' => ?_, fun h' o' ho' => ?_, fun h₁ h₂ o' ho₁ ho₂ => ?_, fun o' => ?_,
    fun o' => ?_⟩
  · have hne : o' ≠ o := by
      rintro rfl
      exact hc.nodup.not_mem_erase ho'
    rw [taken_take, if_neg hne]
    exact hc.shelf_new o' (mem_of_mem_erase ho')
  · rw [mem_holds_take] at ho'
    split_ifs at ho' with hsame
    · rw [ho', taken_take, if_pos rfl, hnew]
      exact ⟨rfl, hc.disposed_of_mem ho⟩
    · have hne : o' ≠ o := fun heq => hfree h' (heq ▸ ho')
      rw [taken_take, if_neg hne]
      exact hc.held h' o' ho'
  · rw [mem_holds_take] at ho₁ ho₂
    split_ifs at ho₁ ho₂ with hsame₁ hsame₂
    · rw [hsame₁, hsame₂]
    · exact absurd (ho₁ ▸ ho₂) (hfree h₂)
    · exact absurd (ho₂ ▸ ho₁) (hfree h₁)
    · exact hc.unique h₁ h₂ o' ho₁ ho₂
  · rw [taken_take]
    split_ifs
    · omega
    · exact hc.taken_le o'
  · rw [taken_take]
    split_ifs with hsame
    · rw [hsame]
      exact le_succ_of_le (hc.disposed_le o)
    · exact hc.disposed_le o'

theorem Sound.dispose (hc : c.Sound) (ho : o ∈ c.holds h) : (c.dispose h o).Sound := by
  obtain ⟨htk, hdisposed⟩ := hc.held h o ho
  refine ⟨hc.nodup, hc.shelf_new, fun h' o' ho' => ?_, fun h₁ h₂ o' ho₁ ho₂ => ?_, hc.taken_le, fun o' => ?_⟩
  · obtain ⟨hne, hheld⟩ := mem_holds_dispose.mp ho'
    -- the object had one holder
    have hoth : o' ≠ o := fun heq => hne (hc.unique h' h o' hheld (heq ▸ ho))
    rw [disposed_dispose, if_neg hoth]
    exact hc.held h' o' hheld
  · exact hc.unique h₁ h₂ o' (mem_holds_dispose.mp ho₁).2 (mem_holds_dispose.mp ho₂).2
  · rw [disposed_dispose]
    split_ifs with hsame
    · rw [hsame, hdisposed]
      exact Nat.le_of_eq htk.symm
    · exact hc.disposed_le o'

end Custody

end VendorKernel
