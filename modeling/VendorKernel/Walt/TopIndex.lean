import VendorKernel.Walt.TopLedger

/-! The highest occupied bucket. `curr_top` and `prev_top` are kept incrementally; here is when that agrees
with the tables. -/
namespace VendorKernel.Walt

open Bitmap TopTasks RankedTable TopLedger

variable {τ : Type*}

def IsTopIndex (count : ℕ → ℕ) (top : ℕ) : Prop :=
  (∀ i, count i ≠ 0 → i ≤ top) ∧ (count top ≠ 0 ∨ top = 0)

def RankedTable.TopOk (r : RankedTable) : Prop := IsTopIndex r.count r.top

/-- The search restarts at bit `top` of the reversed bitmap, which skips the buckets between `999 - top` and `top`. -/
def RankedTable.SearchReaches (r : RankedTable) (window : ℕ) : Prop :=
  window ≠ 0 → loadToIndex window = r.top → r.count r.top = 1 →
    ∀ j, numLoadIndices - 1 - r.top < j → j < r.top → r.count j = 0

instance (r : RankedTable) (window : ℕ) : Decidable (r.SearchReaches window) :=
  inferInstanceAs (Decidable (_ → _ → _ → ∀ j, numLoadIndices - 1 - r.top + 1 ≤ j → j < r.top → r.count j = 0))

/-- What the search from an old top finds. -/
theorem getTopIndex_spec {t : TopTable} (h : t.BitsMatch) (oldTop : ℕ) :
    (∀ j, j ≤ numLoadIndices - 1 - oldTop → oldTop < numLoadIndices → t.count j ≠ 0 →
      j ≤ getTopIndex t.bitmap oldTop) ∧
      (t.count (getTopIndex t.bitmap oldTop) ≠ 0 ∨ getTopIndex t.bitmap oldTop = 0) := by
  have hcnt : ∀ j < numLoadIndices, t.bitmap (numLoadIndices - 1 - j) = false → t.count j = 0 := by
    intro j hj hbit
    by_contra hne
    rw [(h j hj).mpr hne] at hbit
    exact absurd hbit (by decide)
  unfold getTopIndex
  rcases findNextBit_cases t.bitmap numLoadIndices oldTop with
    ⟨hlo, hhi, hbit, hbef⟩ | ⟨heq, hnone⟩
  · rw [if_neg (by omega)]
    constructor
    · intro j hj hold hne
      by_contra hlt
      refine hne (hcnt j (by omega) (hbef _ (by omega) (by omega)))
    · refine .inl ((h _ (by omega)).mp ?_)
      rwa [show ∀ k < numLoadIndices, numLoadIndices - 1 - (numLoadIndices - 1 - k) = k by omega]
      exact hhi
  · rw [if_pos heq]
    refine ⟨?_, .inr rfl⟩
    intro j hj hold hne
    exact absurd (hcnt j (by omega) (hnone _ (by omega) (by omega))) hne

section
variable [Fintype τ] {load : τ → ℕ} {p : τ} {r r' : RankedTable}

theorem topOk_clear (t : TopTable) : (mk t.clear 0).TopOk :=
  ⟨fun _ hi => absurd rfl hi, .inr rfl⟩

variable [DecidableEq τ]

section
variable {x : ℕ} (h : Tracks r.toTopTable load)
  (h' : Tracks r'.toTopTable (Function.update load p x)) (hx : load p ≤ x)
  (hr' : r'.top = if ChangesBucket (load p) x then max r.top (loadToIndex x) else r.top)
include h h' hx hr'

omit hx hr' in
theorem count_grow (i : ℕ) :
    r'.count i + Tally.mark (InBucket i) (load p) = r.count i + Tally.mark (InBucket i) x := by
  rw [h.count_eq, h'.count_eq]
  exact Tally.tally_update _ load p x

omit hx in
theorem le_top_of_grow (hmax : ∀ i, r.count i ≠ 0 → i ≤ r.top) {j : ℕ} (hj : r'.count j ≠ 0) : j ≤ r'.top := by
  by_cases hold : r.count j = 0
  · have hrel := count_grow h h' j
    obtain ⟨hx0, rfl⟩ : InBucket j x := Tally.of_mark_ne_zero _ (by omega)
    have hchg : ChangesBucket (load p) x := by
      by_contra hsame
      obtain ⟨hsame, hzero⟩ := not_or.mp hsame
      have hp : load p ≠ 0 := fun h0 => hzero ⟨h0, hx0⟩
      exact h.count_ne_zero hp (not_not.mp hsame ▸ hold)
    rw [hr', if_pos hchg]
    omega
  · have := hmax j hold
    rw [hr']
    split <;> omega

/-- The old top is still occupied, unless the task was alone in it and then moved up. -/
theorem top_occupied_of_grow (htop : r.count r.top ≠ 0 ∨ r.top = 0) : r'.count r'.top ≠ 0 ∨ r'.top = 0 := by
  have hidx := loadToIndex_mono hx
  by_cases hmax : r'.top = loadToIndex x ∧ x ≠ 0
  · have hrel := count_grow h h' (loadToIndex x)
    have hmem := h.mark_le_count p (loadToIndex x)
    rw [mark_inBucket_self hmax.2] at hrel
    rw [hmax.1]
    omega
  · have hkeep : r'.top = r.top := by
      rw [hr']
      split
      · next hchg =>
        have hne : r'.top ≠ loadToIndex x := fun heq => hmax ⟨heq, hchg.new_ne_zero hx⟩
        rw [hr', if_pos hchg] at hne
        omega
      · rfl
    rw [hkeep]
    rcases htop with hne | h0
    · left
      intro hgone
      have hrel := count_grow h h' r.top
      obtain ⟨hp, hpt⟩ : InBucket r.top (load p) := Tally.of_mark_ne_zero _ (by omega)
      have hchg : ChangesBucket (load p) x := .inl (by omega)
      rw [if_pos hchg] at hr'
      omega
    · exact .inr h0

end

theorem topOk_grow (h : Tracks r.toTopTable load) {x : ℕ}
    (h' : Tracks r'.toTopTable (Function.update load p x)) (hx : load p ≤ x) (htop : r.TopOk)
    (hr' : r'.top = if ChangesBucket (load p) x then max r.top (loadToIndex x) else r.top) :
    r'.TopOk :=
  ⟨fun _ hj => le_top_of_grow h h' hr' htop.1 hj, top_occupied_of_grow h h' hx hr' htop.2⟩

section
variable (h : Tracks r.toTopTable load) (hfit : FitsU8 load) (hp : load p ≠ 0)
include h hfit hp

omit [DecidableEq τ] in
theorem count_subtract (j : ℕ) : (r.toTopTable.remove (loadToIndex (load p))).count j =
    if j = loadToIndex (load p) then r.count (loadToIndex (load p)) - 1 else r.count j :=
  TopTable.count_remove (h.count_ne_zero hp) (h.count_eq _ ▸ hfit _) j

omit [DecidableEq τ] in
theorem topOk_subtract_kept (htop : r.TopOk)
    (hlast : ¬(loadToIndex (load p) = r.top ∧
      (r.toTopTable.remove (loadToIndex (load p))).count (loadToIndex (load p)) = 0)) :
    (mk (r.toTopTable.remove (loadToIndex (load p))) r.top).TopOk := by
  have hcnt := count_subtract h hfit hp
  constructor
  · intro j hj
    rw [hcnt] at hj
    split at hj
    · next heq => exact htop.1 j (heq ▸ h.count_ne_zero hp)
    · exact htop.1 j hj
  · rw [hcnt]
    split
    · next heq =>
      left
      intro h0
      exact hlast ⟨heq.symm, by rw [hcnt, if_pos rfl]; exact h0⟩
    · exact htop.2

theorem topOk_subtract_last (htop : r.TopOk) (hsearch : r.SearchReaches (load p))
    (hidx : loadToIndex (load p) = r.top)
    (h0 : (r.toTopTable.remove (loadToIndex (load p))).count (loadToIndex (load p)) = 0) :
    (mk (r.toTopTable.remove (loadToIndex (load p)))
      (getTopIndex (r.toTopTable.remove (loadToIndex (load p))).bitmap r.top)).TopOk := by
  have hcnt := count_subtract h hfit hp
  have hpos := h.count_ne_zero hp
  obtain ⟨hmax, hin⟩ := getTopIndex_spec (h.remove hfit hp).bits r.top
  refine ⟨?_, hin⟩
  intro j hj
  rw [hcnt, if_pos rfl] at h0
  have hone : r.count r.top = 1 := by
    rw [← hidx]
    omega
  have hjr : r.count j ≠ 0 ∧ j ≠ r.top := by
    have hj' := hj
    rw [hcnt] at hj'
    split at hj'
    · exact absurd h0 hj'
    · next hne => exact ⟨hj', hidx ▸ hne⟩
  have hlt := htop.1 j hjr.1
  apply hmax j _ (hidx ▸ loadToIndex_lt _) hj
  by_contra hskip
  exact hjr.1 (hsearch hp hidx hone j (by omega) (by omega))

end

theorem topOk_migrateSubtraction (h : Tracks r.toTopTable load) (hfit : FitsU8 load)
    (htop : r.TopOk) (hsearch : r.SearchReaches (load p)) :
    (r.migrateSubtraction (load p)).TopOk := by
  unfold migrateSubtraction
  split
  · exact htop
  · next hp =>
    dsimp only
    split
    · next hlast => exact topOk_subtract_last h hfit hp htop hsearch hlast.1 hlast.2
    · next hlast => exact topOk_subtract_kept h hfit hp htop hlast

private theorem raise_eq_max (a b : ℕ) : (if b > a then b else a) = max a b := by
  split <;> omega

section
variable (r : RankedTable)

theorem top_updateSameWindow (old x : ℕ) :
    (r.updateSameWindow old x).top =
      if ChangesBucket old x then max r.top (loadToIndex x) else r.top := by
  rw [← raise_eq_max]
  exact apply_ite RankedTable.top ..

theorem top_updatePrevNext (old x : ℕ) :
    (r.updatePrevNext old x).top =
      if ChangesBucket old x then max r.top (loadToIndex x) else r.top := by
  rw [← raise_eq_max]
  exact apply_ite RankedTable.top ..

theorem top_migrateAddition (x : ℕ) :
    (r.migrateAddition x).top =
      if ChangesBucket 0 x then max r.top (loadToIndex x) else r.top := by
  unfold migrateAddition
  split
  · next hx =>
    subst hx
    rw [if_neg (by simp [ChangesBucket])]
  · next hx =>
    rw [if_pos (.inr ⟨rfl, hx⟩)]
    exact raise_eq_max ..

theorem top_updatePrevFull {x : ℕ} (h : x ≠ 0 → r.top ≤ loadToIndex x) :
    (r.updatePrevFull x).top =
      if ChangesBucket 0 x then max r.top (loadToIndex x) else r.top := by
  unfold updatePrevFull
  by_cases hx : x = 0
  · subst hx
    simp [ChangesBucket]
  · rw [if_pos (.inr ⟨rfl, hx⟩)]
    simp only [ne_eq, hx, not_false_eq_true, if_true]
    omega

end

def TopLedger.TopsOk (s : TopLedger τ) : Prop := s.tables.curr.TopOk ∧ s.tables.prev.TopOk

end

/-- The search after a removal reaches the next occupied bucket, and a full window's entry is not below
`prev_top`. -/
def TopOp.KeepsTop (s : TopLedger τ) : TopOp τ → Prop
  | .update _ _ _ prevWindow newWindow fullWindow =>
    newWindow = true → fullWindow = true → prevWindow ≠ 0 → s.tables.prevTop ≤ loadToIndex prevWindow
  | .subtraction p =>
    s.tables.curr.SearchReaches (s.curr p) ∧ s.tables.prev.SearchReaches (s.prev p)
  | _ => True

section
variable [Fintype τ] [DecidableEq τ] {s : TopLedger τ}

theorem topsOk_update {p : τ} {oldCurrWindow currWindow prevWindow : ℕ} {newWindow fullWindow : Bool}
    (h : s.Tracked) (htop : s.TopsOk)
    (h' : (topStep s (.update p oldCurrWindow currWindow prevWindow newWindow fullWindow)).Tracked)
    (hiss : UpdateIssued s p oldCurrWindow prevWindow newWindow fullWindow)
    (hwrap : (TopOp.update p oldCurrWindow currWindow prevWindow newWindow fullWindow).NoWrap)
    (hfull : (TopOp.update p oldCurrWindow currWindow prevWindow newWindow fullWindow).KeepsTop s) :
    (topStep s (.update p oldCurrWindow currWindow prevWindow newWindow fullWindow)).TopsOk := by
  rw [topStep] at h' ⊢
  rcases hiss.cases with ⟨rfl, rfl, rfl⟩ | ⟨rfl, rfl, hc, hp⟩ | ⟨rfl, rfl, hc, rfl⟩
  · have hle : s.curr p ≤ currWindow := by simpa [TopOp.NoWrap] using hwrap
    refine ⟨topOk_grow h.curr h'.curr hle htop.1 ?_, ?_⟩
    · rw [(updateTopTasks_same ..).1]
      split
      · next hsame =>
        rw [hsame]
        simp [ChangesBucket]
      · exact top_updateSameWindow ..
    · rw [(updateTopTasks_same ..).2]
      exact htop.2
  · refine ⟨topOk_grow h.curr h'.curr (by omega) htop.1 ?_,
      topOk_grow h.prev h'.prev (by omega) htop.2 ?_⟩
    · rw [(updateTopTasks_new ..).1, hc]
      exact top_migrateAddition ..
    · rw [(updateTopTasks_new ..).2, hp]
      exact top_updatePrevFull _ (hfull rfl rfl)
  · have hle : s.prev p ≤ prevWindow := by simpa [TopOp.NoWrap] using hwrap
    refine ⟨topOk_grow h.curr h'.curr (by omega) htop.1 ?_, topOk_grow h.prev h'.prev hle htop.2 ?_⟩
    · rw [(updateTopTasks_new ..).1, hc]
      exact top_migrateAddition ..
    · rw [(updateTopTasks_new ..).2]
      exact top_updatePrevNext ..

/-- With its counts right before and after, a table operation keeps the two tops. -/
theorem topsOk_step {op : TopOp τ} (h : s.Tracked) (hfit : s.Fits) (htop : s.TopsOk) (h' : (topStep s op).Tracked)
    (hiss : op.Issued s) (hwrap : op.NoWrap) (hkeep : op.KeepsTop s) : (topStep s op).TopsOk := by
  cases op with
  | update => exact topsOk_update h htop h' hiss hwrap hkeep
  | updateMigrating =>
    rw [topStep_updateMigrating h]
    exact htop
  | rollover fullWindow =>
    constructor
    · rw [topStep, curr_rolloverTopTasks]
      exact topOk_clear _
    · rw [topStep, prev_rolloverTopTasks]
      cases fullWindow with
      | false => exact htop.1
      | true => exact topOk_clear _
  | subtraction p =>
    constructor
    · rw [topStep, (migrateTopTasksSubtraction_tables ..).1]
      exact topOk_migrateSubtraction h.curr hfit.1 htop.1 hkeep.1
    · rw [topStep, (migrateTopTasksSubtraction_tables ..).2]
      exact topOk_migrateSubtraction h.prev hfit.2 htop.2 hkeep.2
  | addition p currWindow prevWindow =>
    obtain ⟨hc, hp⟩ := hiss
    refine ⟨topOk_grow h.curr h'.curr (by omega) htop.1 ?_,
      topOk_grow h.prev h'.prev (by omega) htop.2 ?_⟩
    · rw [hc]
      exact top_migrateAddition ..
    · rw [hp]
      exact top_migrateAddition ..

/-- The tables are right, and under `T` so are the two tops. -/
structure TopLedger.Kept (T : Prop) (s : TopLedger τ) : Prop extends s.Tracked where
  tops : T → s.TopsOk

omit [DecidableEq τ] in
theorem topKept_init (T : Prop) : (init : TopLedger τ).Kept T where
  toTracked := tracked_init
  tops _ := ⟨⟨fun _ hi => absurd rfl hi, .inr rfl⟩, ⟨fun _ hi => absurd rfl hi, .inr rfl⟩⟩

theorem topKept_step {T : Prop} {op : TopOp τ} (h : s.Kept T) (hfit : s.Fits) (hiss : op.Issued s) (hwrap : op.NoWrap)
    (hkeep : T → op.KeepsTop s) (hfit' : (topStep s op).Fits) : (topStep s op).Kept T := by
  have h' := tracked_step h.toTracked hfit hiss hwrap hfit'
  exact ⟨h', fun hT => topsOk_step h.toTracked hfit (h.tops hT) h' hiss hwrap (hkeep hT)⟩

end

end VendorKernel.Walt
