import VendorKernel.Iommu.FastMapping

/-! Lazy TLB invalidation is safe: what the calls own, which pages the TLB may still know, and what
`__fast_smmu_alloc_iova` hands out along every run. -/
namespace VendorKernel.Iommu.Fast
open Machine Bitmap Function Nat

namespace Task

def Covers : Task → ℕ → Prop
  | mapping r bit _, p | live r bit, p | unmapping r bit _, p => bit ≤ p ∧ p < bit + r.nbits
  | _, _ => False

/-- The pages of the call that have no entry yet, or none any more. -/
def Bare : Task → ℕ → Prop
  | mapping r bit k, p => bit + k ≤ p ∧ p < bit + r.nbits
  | unmapping r bit k, p => bit ≤ p ∧ p < bit + r.nbits ∧ p < bit + k
  | _, _ => False

def Current : Task → ℕ → Prop
  | mapping r bit _, p | live r bit, p => bit ≤ p ∧ p < bit + r.nbits
  | _, _ => False

def HoldsLock : Task → Prop
  | flushing _ | copying _ => True
  | mapping r _ _ | unmapping r _ _ => r.call.locked = true
  | _ => False

theorem Bare.covers {t : Task} {p : ℕ} (h : t.Bare p) : t.Covers p := by
  cases t with
  | mapping r bit k => exact ⟨le_trans (le_add_right bit k) h.1, h.2⟩
  | unmapping => exact ⟨h.1, h.2.1⟩
  | _ => exact h.elim

theorem Current.covers {t : Task} {p : ℕ} (h : t.Current p) : t.Covers p := by
  cases t with
  | mapping | live => exact h
  | _ => exact h.elim

end Task

/-- `bitmap` has the reserved pages and the pages of the calls, and no page has two owners. -/
structure Allocated (cfg : Config) (bitmap : ℕ → Bool) (task : ℕ → Task) : Prop where
  bit_iff : ∀ p, bitmap p = true ↔ cfg.reserved p = true ∨ ∃ m, (task m).Covers p
  inside : ∀ m p, (task m).Covers p → p < cfg.num4kPages ∧ cfg.reserved p = false
  alone : ∀ m m' p, (task m).Covers p → (task m').Covers p → m = m'

namespace Allocated
variable {cfg : Config} {bitmap : ℕ → Bool} {task : ℕ → Task} {m p bit k : ℕ} {t : Task}

section
variable (h : Allocated cfg bitmap task)
include h

theorem move (ht : ∀ p, t.Covers p ↔ (task m).Covers p) : Allocated cfg bitmap (update task m t) := by
  have hcov : ∀ m' p, (update task m t m').Covers p ↔ (task m').Covers p :=
    (forall_update_iff task
      (p := fun m' t => ∀ p, t.Covers p ↔ (task m').Covers p)).mpr
      ⟨ht, fun _ _ _ => Iff.rfl⟩
  refine ⟨fun p => ?_, fun m' p hp => ?_, fun m₁ m₂ p h₁ h₂ => ?_⟩
  · simp only [hcov]
    exact h.bit_iff p
  · exact h.inside m' p ((hcov m' p).mp hp)
  · exact h.alone m₁ m₂ p ((hcov m₁ p).mp h₁) ((hcov m₂ p).mp h₂)

theorem clear (hp : bitmap p = false) : cfg.reserved p = false ∧ ∀ m, ¬(task m).Covers p := by
  have hno : ¬(cfg.reserved p = true ∨ ∃ m, (task m).Covers p) := by
    rw [← h.bit_iff p, hp]
    exact Bool.false_ne_true
  refine ⟨Bool.eq_false_iff.mpr fun hr => hno (.inl hr), fun m hm => hno (.inr ⟨m, hm⟩)⟩

theorem set {r : Request} (harea : ∀ p, bit ≤ p → p < bit + r.nbits → bitmap p = false)
    (hin : bit + r.nbits ≤ cfg.num4kPages) (hm : ∀ p, ¬(task m).Covers p) :
    Allocated cfg (putBits true bitmap bit r.nbits) (update task m (.mapping r bit k)) := by
  have hcov : ∀ m' p, (update task m (.mapping r bit k) m').Covers p ↔
      m' = m ∧ (bit ≤ p ∧ p < bit + r.nbits) ∨ (task m').Covers p := by
    intro m' p
    by_cases hmm : m' = m
    · subst hmm
      rw [update_self, or_iff_left (hm p)]
      exact (and_iff_right rfl).symm
    · simp [hmm]
  have hfree : ∀ m' p, bit ≤ p ∧ p < bit + r.nbits → ¬(task m').Covers p := fun m' p hp =>
    (h.clear (harea p hp.1 hp.2)).2 m'
  refine ⟨fun p => ?_, fun m' p hp => ?_, fun m₁ m₂ p h₁ h₂ => ?_⟩
  · by_cases hp : bit ≤ p ∧ p < bit + r.nbits
    · simp only [putBits, if_pos hp, true_iff]
      exact .inr ⟨m, (hcov m p).mpr (.inl ⟨rfl, hp⟩)⟩
    · simp only [putBits, hcov, hp, and_false, false_or]
      exact h.bit_iff p
  · rcases (hcov m' p).mp hp with ⟨-, hp⟩ | hp
    · exact ⟨by omega, (h.clear (harea p hp.1 hp.2)).1⟩
    · exact h.inside m' p hp
  · rcases (hcov m₁ p).mp h₁ with ⟨hm₁, hp⟩ | hc₁
    · rcases (hcov m₂ p).mp h₂ with ⟨hm₂, -⟩ | hc₂
      · exact hm₁.trans hm₂.symm
      · exact absurd hc₂ (hfree m₂ p hp)
    · rcases (hcov m₂ p).mp h₂ with ⟨-, hp⟩ | hc₂
      · exact absurd hc₁ (hfree m₁ p hp)
      · exact h.alone m₁ m₂ p hc₁ hc₂

theorem free {r : Request} (hm : ∀ p, (task m).Covers p ↔ bit ≤ p ∧ p < bit + r.nbits) :
    Allocated cfg (putBits false bitmap bit r.nbits) (update task m .idle) := by
  have hcov : ∀ m' p, (update task m .idle m').Covers p ↔ m' ≠ m ∧ (task m').Covers p := by
    intro m' p
    by_cases hmm : m' = m
    · subst hmm
      simp [Task.Covers]
    · simp [hmm]
  refine ⟨fun p => ?_, fun m' p hp => h.inside m' p ((hcov m' p).mp hp).2, fun m₁ m₂ p h₁ h₂ =>
    h.alone m₁ m₂ p ((hcov m₁ p).mp h₁).2 ((hcov m₂ p).mp h₂).2⟩
  by_cases hp : bit ≤ p ∧ p < bit + r.nbits
  · have hmp := (hm p).mpr hp
    simp only [putBits, if_pos hp, Bool.false_eq_true, false_iff, not_or, not_exists, hcov]
    refine ⟨by simp [(h.inside m p hmp).2], fun m' hm' => hm'.1 (h.alone m' m p hm'.2 hmp)⟩
  · simp only [putBits, if_neg hp, hcov]
    rw [h.bit_iff p]
    refine or_congr_right (exists_congr fun m' => ?_)
    refine ⟨fun hm' => ⟨?_, hm'⟩, And.right⟩
    rintro rfl
    exact hp ((hm p).mp hm')

end

end Allocated

/-- Pages clear in `clean_bitmap` have no TLB entry, nor those clear in `bitmap` after a flush until it is copied. -/
structure Quarantined (bitmap cleanBitmap : ℕ → Bool) (haveStaleTlbs : Bool)
    (tlb : ℕ → Option Iopte) (task : ℕ → Task) : Prop where
  clean_of_bit : ∀ p, bitmap p = true → cleanBitmap p = true
  clean_eq : haveStaleTlbs = false → cleanBitmap = bitmap
  clean_tlb : ∀ p, cleanBitmap p = false → tlb p = none
  flushed : ∀ m r, task m = .copying r → ∀ p, bitmap p = false → tlb p = none

namespace Quarantined
variable {bitmap cleanBitmap : ℕ → Bool} {haveStaleTlbs : Bool} {tlb : ℕ → Option Iopte} {task : ℕ → Task} {m q : ℕ}
  {t : Task}

section
variable (h : Quarantined bitmap cleanBitmap haveStaleTlbs tlb task)
include h

theorem move (ht : ∀ r, t ≠ .copying r) : Quarantined bitmap cleanBitmap haveStaleTlbs tlb (update task m t) :=
  { h with
    flushed := (forall_update_iff task
      (p := fun _ t => ∀ r, t = .copying r → ∀ p, bitmap p = false → tlb p = none)).mpr
      ⟨fun r hr => absurd hr (ht r), fun m' _ => h.flushed m'⟩ }

theorem set (bit n : ℕ) :
    Quarantined (putBits true bitmap bit n) (putBits true cleanBitmap bit n) haveStaleTlbs tlb task where
  clean_of_bit p hp := by
    simp only [putBits] at hp ⊢
    split_ifs at hp ⊢
    · rfl
    · exact h.clean_of_bit p hp
  clean_eq hs := by rw [h.clean_eq hs]
  clean_tlb p hp := by
    simp only [putBits] at hp
    split_ifs at hp
    exact h.clean_tlb p hp
  flushed m r hm p hp := by
    simp only [putBits] at hp
    split_ifs at hp
    exact h.flushed m r hm p hp

theorem flush (task' : ℕ → Task) : Quarantined bitmap cleanBitmap haveStaleTlbs (fun _ => none) task' :=
  { h with clean_tlb := fun _ _ => rfl, flushed := fun _ _ _ _ _ => rfl }

theorem copy {r : Request} (hm : task m = .copying r) : Quarantined bitmap bitmap false tlb task :=
  { h with clean_of_bit := fun _ hp => hp, clean_eq := fun _ => rfl, clean_tlb := h.flushed m r hm }

theorem free (bit n : ℕ) (hno : ∀ m r, task m ≠ .copying r) :
    Quarantined (putBits false bitmap bit n) cleanBitmap true tlb task :=
  { h with
    clean_of_bit := fun p hp => by
      simp only [putBits] at hp
      split_ifs at hp
      exact h.clean_of_bit p hp
    clean_eq := nofun
    flushed := fun m r hm => absurd hm (hno m r) }

theorem fill (hq : bitmap q = true) (pte : Option Iopte) :
    Quarantined bitmap cleanBitmap haveStaleTlbs (update tlb q pte) task := by
  have hkeep : ∀ p, p ≠ q → tlb p = none → update tlb q pte p = none := by
    intro p hp htlb
    rwa [update_of_ne hp]
  refine { h with clean_tlb := fun p hp => hkeep p ?_ (h.clean_tlb p hp)
                  flushed := fun m r hm p hp => hkeep p ?_ (h.flushed m r hm p hp) }
  · rintro rfl
    rw [h.clean_of_bit p hq] at hp
    cases hp
  · rintro rfl
    rw [hq] at hp
    cases hp

theorem evict (q : ℕ) : Quarantined bitmap cleanBitmap haveStaleTlbs (update tlb q none) task := by
  have hkeep : ∀ p, tlb p = none → update tlb q none p = none := by
    intro p htlb
    by_cases hp : p = q
    · rw [hp, update_self]
    · rwa [update_of_ne hp]
  exact { h with clean_tlb := fun p hp => hkeep p (h.clean_tlb p hp)
                 flushed := fun m r hm p hp => hkeep p (h.flushed m r hm p hp) }

end

end Quarantined

/-- Only pages with an owner have an entry, and until its owner unmaps it the TLB knows at most that
entry for a page. -/
structure Tables (pmds tlb : ℕ → Option Iopte) (task : ℕ → Task) : Prop where
  covered : ∀ p, pmds p ≠ none → ∃ m, (task m).Covers p
  bare : ∀ m p, (task m).Bare p → pmds p = none
  coherent : ∀ m p, (task m).Current p → tlb p = none ∨ tlb p = pmds p

namespace Tables
variable {pmds tlb : ℕ → Option Iopte} {task : ℕ → Task} {m bit q : ℕ} {t : Task}

section
variable (h : Tables pmds tlb task)
include h

theorem move (hcov : ∀ p, pmds p ≠ none → (task m).Covers p → t.Covers p)
    (hbare : ∀ p, t.Bare p → pmds p = none) (hcur : ∀ p, t.Current p → tlb p = none ∨ tlb p = pmds p) :
    Tables pmds tlb (update task m t) where
  covered p hp := by
    obtain ⟨m', hm'⟩ := h.covered p hp
    refine ⟨m', ?_⟩
    by_cases hmm : m' = m
    · subst hmm
      rw [update_self]
      exact hcov p hp hm'
    · rwa [update_of_ne hmm]
  bare := (forall_update_iff task (p := fun _ t => ∀ p, t.Bare p → pmds p = none)).mpr ⟨hbare, fun m' _ => h.bare m'⟩
  coherent := (forall_update_iff task
    (p := fun _ t => ∀ p, t.Current p → tlb p = none ∨ tlb p = pmds p)).mpr
    ⟨hcur, fun m' _ => h.coherent m'⟩

theorem grant {r : Request} (hfree : ∀ p, bit ≤ p → p < bit + r.nbits → ∀ m', ¬(task m').Covers p)
    (htlb : ∀ p, bit ≤ p → p < bit + r.nbits → tlb p = none) (hm : ∀ p, ¬(task m).Covers p) :
    Tables pmds tlb (update task m (.mapping r bit 0)) := by
  refine h.move (fun p _ hc => absurd hc (hm p)) (fun p hp => ?_) fun p hp =>
    .inl (htlb p hp.1 hp.2)
  by_contra hne
  obtain ⟨m', hm'⟩ := h.covered p hne
  exact hfree p hp.1 hp.2 m' hm'

theorem put (pte : Iopte) (hcov : (task m).Covers q) (hbare : ∀ m', ¬(task m').Bare q) (htlb : tlb q = none) :
    Tables (update pmds q (some pte)) tlb task where
  covered p hp := by
    by_cases hpq : p = q
    · exact hpq ▸ ⟨m, hcov⟩
    · rw [update_of_ne hpq] at hp
      exact h.covered p hp
  bare m' p hp := by
    have hpq : p ≠ q := fun he => hbare m' (he ▸ hp)
    rw [update_of_ne hpq]
    exact h.bare m' p hp
  coherent m' p hp := by
    by_cases hpq : p = q
    · exact .inl (hpq ▸ htlb)
    · rw [update_of_ne hpq]
      exact h.coherent m' p hp

theorem drop (hcur : ∀ m', ¬(task m').Current q) : Tables (update pmds q none) tlb task where
  covered p hp := by
    by_cases hpq : p = q
    · rw [hpq, update_self] at hp
      exact absurd rfl hp
    · rw [update_of_ne hpq] at hp
      exact h.covered p hp
  bare m' p hp := by
    by_cases hpq : p = q
    · rw [hpq, update_self]
    · rw [update_of_ne hpq]
      exact h.bare m' p hp
  coherent m' p hp := by
    have hpq : p ≠ q := fun he => hcur m' (he ▸ hp)
    rw [update_of_ne hpq]
    exact h.coherent m' p hp

theorem cache {pte : Option Iopte} (hpte : pte = none ∨ pte = pmds q) : Tables pmds (update tlb q pte) task :=
  { h with
    coherent := fun m' p hp => by
      by_cases hpq : p = q
      · rw [hpq, update_self]
        exact hpte
      · rw [update_of_ne hpq]
        exact h.coherent m' p hp }

end

end Tables

/-! ### Steps and runs -/

structure Inv (cfg : Config) (s : State) : Prop where
  allocated : Allocated cfg s.bitmap s.task
  quarantined : Quarantined s.bitmap s.cleanBitmap s.haveStaleTlbs s.tlb s.task
  tables : Tables s.pmds s.tlb s.task
  held : ∀ m, (s.task m).HoldsLock → s.lock = some m

theorem inv_start (cfg : Config) : Inv cfg (start cfg) where
  allocated :=
    { bit_iff := fun p => by simp [start, Task.Covers]
      inside := nofun
      alone := nofun }
  quarantined :=
    { clean_of_bit := fun _ hp => hp
      clean_eq := fun _ => rfl
      clean_tlb := fun _ _ => rfl
      flushed := nofun }
  tables :=
    { covered := fun _ hp => absurd rfl hp
      bare := nofun
      coherent := nofun }
  held := nofun

section
variable {cfg : Config} {s : State} {m bit k p : ℕ} {r : Request}

theorem held_update {task : ℕ → Task} {t : Task} {lock : Option ℕ}
    (hm : t.HoldsLock → lock = some m) (hoth : ∀ m', m' ≠ m → (task m').HoldsLock → lock = some m') :
    ∀ m', (update task m t m').HoldsLock → lock = some m' :=
  (forall_update_iff task (p := fun m' t => t.HoldsLock → lock = some m')).mpr ⟨hm, hoth⟩

def Alone (s : State) (m : ℕ) : Prop := ∀ m', m' ≠ m → ¬(s.task m').HoldsLock

theorem Inv.alone_of_free (h : Inv cfg s) (hlock : s.lock = none) : Alone s m := by
  intro m' _ hm'
  have := h.held m' hm'
  rw [hlock] at this
  cases this

theorem Inv.alone_of_held (h : Inv cfg s) (hlock : s.lock = some m) : Alone s m := by
  intro m' hne hm'
  have := h.held m' hm'
  rw [hlock] at this
  exact hne (Option.some.inj this).symm

section
variable (h : Inv cfg s) (hlock : Alone s m) (hm : ∀ p, ¬(s.task m).Covers p)
include h hlock hm

theorem Inv.grant (harea : ZeroArea s.cleanBitmap cfg.num4kPages r.nbits (r.align cfg) bit) :
    Inv cfg (grant cfg s m r bit) := by
  obtain ⟨-, hin, hcln⟩ := harea
  have hbit : ∀ p, bit ≤ p → p < bit + r.nbits → s.bitmap p = false := by
    intro p hle hlt
    have := hcln p hle hlt
    exact Bool.eq_false_iff.mpr fun hp => by
      rw [h.quarantined.clean_of_bit p hp] at this
      cases this
  refine ⟨h.allocated.set hbit hin hm, (h.quarantined.set bit r.nbits).move nofun,
    h.tables.grant ?_ ?_ hm, held_update ?_ ?_⟩
  · exact fun p hle hlt => (h.allocated.clear (hbit p hle hlt)).2
  · exact fun p hle hlt => h.quarantined.clean_tlb p (hcln p hle hlt)
  · exact fun hl => if_pos hl
  · exact fun m' hne hm' => absurd hm' (hlock m' hne)

theorem Inv.refuse : Inv cfg (refuse s m r) where
  allocated := h.allocated.move fun p => ⟨False.elim, fun hc => absurd hc (hm p)⟩
  quarantined := h.quarantined.move nofun
  tables := h.tables.move (fun p _ hc => absurd hc (hm p)) (fun _ => False.elim) fun _ => False.elim
  held := held_update False.elim fun m' hne hm' => absurd hm' (hlock m' hne)

end

theorem allocIova_cases (cfg : Config) (s : State) (m : ℕ) (r : Request) :
    (∃ bit, ZeroArea s.cleanBitmap cfg.num4kPages r.nbits (r.align cfg) bit ∧
      allocIova cfg s m r = grant cfg s m r bit) ∨
    allocIova cfg s m r =
      { s with lock := some m, task := update s.task m (.flushing r) } ∨
    s.haveStaleTlbs = false ∧
      (∀ i, ¬ZeroArea s.cleanBitmap cfg.num4kPages r.nbits (r.align cfg) i) ∧
      allocIova cfg s m r = refuse s m r := by
  simp only [allocIova]
  rcases findNextZeroArea_cases s.cleanBitmap cfg.num4kPages s.nextStart r.nbits (r.align cfg)
    with ⟨hle, harea⟩ | ⟨hgt, -⟩
  · exact .inl ⟨_, harea, if_neg (not_lt.mpr hle)⟩
  rw [if_pos hgt]
  rcases findNextZeroArea_cases s.cleanBitmap cfg.num4kPages 0 r.nbits (r.align cfg) with ⟨hle, harea⟩ | ⟨hgt, hnone⟩
  · exact .inl ⟨_, harea, if_neg (not_lt.mpr hle)⟩
  rw [if_pos hgt]
  cases hstl : s.haveStaleTlbs with
  | true => exact .inr (.inl (if_pos rfl))
  | false => exact .inr (.inr ⟨rfl, fun i => hnone i (zero_le i), if_neg Bool.false_ne_true⟩)

theorem retryIova_cases (cfg : Config) (s : State) (m : ℕ) (r : Request) :
    (∃ bit, ZeroArea s.bitmap cfg.num4kPages r.nbits (r.align cfg) bit ∧
      retryIova cfg s m r = grant cfg { s with cleanBitmap := s.bitmap, haveStaleTlbs := false } m r bit) ∨
    (∀ i, ¬ZeroArea s.bitmap cfg.num4kPages r.nbits (r.align cfg) i) ∧
      retryIova cfg s m r = refuse { s with cleanBitmap := s.bitmap, haveStaleTlbs := false } m r := by
  rcases findNextZeroArea_cases s.bitmap cfg.num4kPages 0 r.nbits (r.align cfg) with ⟨hle, harea⟩ | ⟨hgt, hnone⟩
  · exact .inl ⟨_, harea, if_neg (not_lt.mpr hle)⟩
  · exact .inr ⟨fun i => hnone i (zero_le i), if_pos hgt⟩

section
variable (h : Inv cfg s)
include h

theorem Inv.allocIova (hlock : s.lock = none) (hm : s.task m = .idle) : Inv cfg (allocIova cfg s m r) := by
  have hcov : ∀ p, ¬(s.task m).Covers p := fun p hp => by rw [hm] at hp; exact hp
  have halo : Alone s m := h.alone_of_free hlock
  rcases allocIova_cases cfg s m r with ⟨bit, harea, heq⟩ | heq | ⟨-, -, heq⟩
  · exact heq ▸ h.grant halo hcov harea
  · rw [heq]
    exact
      { allocated := h.allocated.move fun p => ⟨False.elim, fun hc => absurd hc (hcov p)⟩
        quarantined := h.quarantined.move nofun
        tables := h.tables.move (fun p _ hc => absurd hc (hcov p)) (fun _ => False.elim)
          fun _ => False.elim
        held := held_update (fun _ => rfl) fun m' hne hm' => absurd hm' (halo m' hne) }
  · exact heq ▸ h.refuse halo hcov

theorem Inv.flushIotlbAll (hm : s.task m = .flushing r) : Inv cfg (flushIotlbAll s m r) where
  allocated := h.allocated.move fun p => by rw [hm]; exact Iff.rfl
  quarantined := h.quarantined.flush _
  tables :=
    { covered := (h.tables.move (fun p _ hc => by rw [hm] at hc; exact hc)
        (fun _ => False.elim) fun _ => False.elim).covered
      bare := (h.tables.move (fun p _ hc => by rw [hm] at hc; exact hc)
        (fun _ => False.elim) fun _ => False.elim).bare
      coherent := fun _ _ _ => .inl rfl }
  held := held_update (fun _ => h.held m (by rw [hm]; trivial)) fun m' _ hm' => h.held m' hm'

theorem Inv.retryIova (hm : s.task m = .copying r) : Inv cfg (retryIova cfg s m r) := by
  have hcov : ∀ p, ¬(s.task m).Covers p := fun p hp => by rw [hm] at hp; exact hp
  have halo : Alone s m := h.alone_of_held (h.held m (by rw [hm]; trivial))
  have hcopy : Inv cfg { s with cleanBitmap := s.bitmap, haveStaleTlbs := false } :=
    { h with quarantined := h.quarantined.copy hm }
  rcases retryIova_cases cfg s m r with ⟨bit, harea, heq⟩ | ⟨-, heq⟩
  · exact heq ▸ hcopy.grant halo hcov harea
  · exact heq ▸ hcopy.refuse halo hcov

/-- The entry of one more page is written. -/
theorem Inv.writePte {pte : Iopte} (hm : s.task m = .mapping r bit k) (hpte : r.call.ptes[k]? = some pte) :
    Inv cfg (writePte s m r bit k pte) := by
  unfold Fast.writePte
  obtain ⟨hk, -⟩ := List.getElem?_eq_some_iff.mp hpte
  rw [r.length_ptes] at hk
  generalize ht : (if k + 1 = r.nbits then Task.live r bit else .mapping r bit (k + 1)) = t
  have hcov : ∀ p, t.Covers p ↔ (s.task m).Covers p := by
    intro p
    rw [hm, ← ht]
    split_ifs <;> exact Iff.rfl
  have hbare : ∀ p, t.Bare p → (s.task m).Bare p ∧ p ≠ bit + k := by
    intro p hp
    rw [hm]
    rw [← ht] at hp
    split_ifs at hp
    · exact hp.elim
    · simp only [Task.Bare] at hp ⊢
      omega
  have hcur : ∀ p, t.Current p → (s.task m).Current p := by
    intro p hp
    rw [hm]
    rw [← ht] at hp
    split_ifs at hp <;> exact hp
  have hown : (s.task m).Covers (bit + k) := by rw [hm]; exact ⟨by omega, by omega⟩
  have hnone : s.pmds (bit + k) = none := h.tables.bare m _ (by rw [hm]; exact ⟨by omega, by omega⟩)
  have htlb : s.tlb (bit + k) = none := by
    have := h.tables.coherent m (bit + k) (by rw [hm]; exact ⟨by omega, by omega⟩)
    rwa [hnone, or_self] at this
  have hmoved := h.tables.move (fun p _ hc => (hcov p).mpr hc)
    (fun p hp => h.tables.bare m p (hbare p hp).1) fun p hp => h.tables.coherent m p (hcur p hp)
  refine ⟨h.allocated.move hcov, h.quarantined.move ?_, hmoved.put (m := m) pte ?_ ?_ htlb, ?_⟩
  · rw [← ht]
    split_ifs <;> exact nofun
  · rw [update_self]
    exact (hcov _).mpr hown
  · -- no other call owns this page, and this one has gone past it
    refine (forall_update_iff s.task (p := fun _ t => ¬t.Bare (bit + k))).mpr
      ⟨fun hp => (hbare _ hp).2 rfl, fun m' hne hp => hne ?_⟩
    exact h.allocated.alone m' m _ hp.covers hown
  · by_cases hlast : k + 1 = r.nbits ∧ r.call.locked = true
    · have halo : Alone s m := h.alone_of_held (h.held m (by rw [hm]; exact hlast.2))
      rw [← ht, if_pos hlast.1]
      exact held_update False.elim fun m' hne hm' => absurd hm' (halo m' hne)
    · rw [if_neg hlast]
      refine held_update (fun hl => h.held m ?_) fun m' _ hm' => h.held m' hm'
      rw [hm]
      rw [← ht] at hl
      split_ifs at hl
      · exact hl.elim
      · exact hl

theorem Inv.beginUnmap (hm : s.task m = .live r bit) (hlock : r.call.locked → s.lock = none) :
    Inv cfg (beginUnmap s m r bit) where
  allocated := h.allocated.move fun p => by rw [hm]; exact Iff.rfl
  quarantined := h.quarantined.move nofun
  tables := h.tables.move (fun p _ hc => by rwa [hm] at hc)
    (fun p hp => absurd hp.2.2 (not_lt.mpr hp.1)) fun _ => False.elim
  held := by
    refine held_update (fun hl => if_pos hl) fun m' hne hm' => ?_
    simp only [Fast.beginUnmap]
    split_ifs with hl
    · exact absurd hm' (h.alone_of_free (hlock hl) m' hne)
    · exact h.held m' hm'

theorem Inv.clearPte (hm : s.task m = .unmapping r bit k) (hk : k < r.nbits) : Inv cfg (clearPte s m r bit k) := by
  have hown : (s.task m).Covers (bit + k) := by rw [hm]; exact ⟨by omega, by omega⟩
  have hdrop : Tables (update s.pmds (bit + k) none) s.tlb s.task := by
    refine h.tables.drop fun m' hc => ?_
    obtain rfl := h.allocated.alone m' m _ hc.covers hown
    rw [hm] at hc
    exact hc
  refine ⟨h.allocated.move fun p => by rw [hm]; exact Iff.rfl, h.quarantined.move nofun,
    hdrop.move (fun p _ hc => by rwa [hm] at hc) (fun p hp => ?_) fun _ => False.elim,
    held_update (fun hl => h.held m (by rwa [hm])) fun m' _ hm' => h.held m' hm'⟩
  by_cases hpq : p = bit + k
  · rw [hpq, update_self]
  · refine hdrop.bare m p ?_
    rw [hm]
    simp only [Task.Bare] at hp ⊢
    omega

/-- Freed pages stay in quarantine. -/
theorem Inv.freeIova (hm : s.task m = .unmapping r bit r.nbits)
    (hlock : s.lock = if r.call.locked then some m else none) : Inv cfg (freeIova s m r bit) := by
  have halo : Alone s m := by
    split_ifs at hlock
    · exact h.alone_of_held hlock
    · exact h.alone_of_free hlock
  have hcov : ∀ p, (s.task m).Covers p ↔ bit ≤ p ∧ p < bit + r.nbits := fun p => by
    rw [hm]
    exact Iff.rfl
  refine ⟨h.allocated.free hcov, (h.quarantined.free bit r.nbits ?_).move nofun,
    h.tables.move (fun p hp hc => ?_) (fun _ => False.elim) fun _ => False.elim,
    held_update False.elim fun m' hne hm' => absurd hm' (halo m' hne)⟩
  · intro m' r' hm'
    by_cases hne : m' = m
    · rw [hne, hm] at hm'
      cases hm'
    · exact halo m' hne (by rw [hm']; trivial)
  · -- all entries of the call are cleared
    have hp' := (hcov p).mp hc
    refine absurd (h.tables.bare m p ?_) hp
    rw [hm]
    exact ⟨hp'.1, hp'.2, hp'.2⟩

theorem Inv.tlbFill {pte : Iopte} (hpte : s.pmds p = some pte) :
    Inv cfg { s with tlb := update s.tlb p (some pte) } := by
  have hbit : s.bitmap p = true :=
    (h.allocated.bit_iff p).mpr (.inr (h.tables.covered p (by rw [hpte]; exact nofun)))
  exact { h with quarantined := h.quarantined.fill hbit _, tables := h.tables.cache (.inr hpte.symm) }

end

end

variable {cfg : Config} {s s' : State} {m m' p i : ℕ} {r r' : Request} {ops : List Op}

theorem inv_step (cfg : Config) (s : State) (op : Op) (s' : State) (h : Inv cfg s)
    (hs : step cfg s op = some s') : Inv cfg s' := by
  cases step_moves hs with
  | allocIova hlock hm => exact h.allocIova hlock hm
  | flushIotlbAll hm => exact h.flushIotlbAll hm
  | retryIova hm => exact h.retryIova hm
  | writePte hm hpte => exact h.writePte hm hpte
  | beginUnmap hm hlock => exact h.beginUnmap hm hlock
  | clearPte hm hk => exact h.clearPte hm hk
  | freeIova hm hlock => exact h.freeIova hm hlock
  | tlbFill hpte => exact h.tlbFill hpte
  | tlbEvict p =>
    exact { h with quarantined := h.quarantined.evict p, tables := h.tables.cache (.inl rfl) }

theorem inv_run (hrun : run (step cfg) (start cfg) ops = some s) : Inv cfg s :=
  run_inv_always (inv_step cfg) (inv_start cfg) hrun

/-- A run of pages of the size and alignment that `r` asks for, none of them reserved or owned. -/
def FreeRun (cfg : Config) (s : State) (r : Request) (i : ℕ) : Prop :=
  i % 2 ^ getOrder cfg.pageShift r.call.len = 0 ∧ i + r.nbits ≤ cfg.num4kPages ∧
    ∀ p, i ≤ p → p < i + r.nbits → cfg.reserved p = false ∧ ∀ m, ¬(s.task m).Covers p

theorem FreeRun.zeroArea (hi : FreeRun cfg s r i) (h : Allocated cfg s.bitmap s.task) :
    ZeroArea s.bitmap cfg.num4kPages r.nbits (r.align cfg) i := by
  obtain ⟨hali, hin, hfree⟩ := hi
  refine ⟨?_, hin, fun p hle hlt => ?_⟩
  · rwa [Request.align, Nat.one_shiftLeft, Nat.sub_add_cancel Nat.one_le_two_pow]
  · obtain ⟨hres, hown⟩ := hfree p hle hlt
    refine Bool.eq_false_iff.mpr fun hp => ?_
    rcases (h.bit_iff p).mp hp with hr | ⟨m, hm⟩
    · rw [hres] at hr
      cases hr
    · exact hown m hm

theorem update_failed {task : ℕ → Task} {t : Task} (ht : t ≠ .failed r)
    (h : update task m' t m = .failed r) : task m = .failed r := by
  by_cases hmm : m = m'
  · subst hmm
    rw [update_self] at h
    exact absurd h ht
  · rwa [update_of_ne hmm] at h

theorem refuse_failed (hbef : s.task m ≠ .failed r) (h : (refuse s m' r').task m = .failed r) : r' = r := by
  by_contra hne
  exact hbef (update_failed (fun he => hne (Task.failed.inj he)) h)

/-- An allocation fails only if no run of pages is free. -/
theorem step_failed {op : Op} (h : Inv cfg s) (hs : step cfg s op = some s') (hbef : s.task m ≠ .failed r)
    (haf : s'.task m = .failed r) : ∀ i, ¬ZeroArea s.bitmap cfg.num4kPages r.nbits (r.align cfg) i := by
  have hno : ∀ {m' t}, t ≠ .failed r → update s.task m' t m ≠ .failed r :=
    fun ht he => hbef (update_failed ht he)
  cases step_moves hs with
  | @allocIova m' r' hlock hm =>
    rcases allocIova_cases cfg s m' r' with ⟨bit, -, heq⟩ | heq | ⟨hstl, hnone, heq⟩
    · rw [heq] at haf
      exact absurd haf (hno nofun)
    · rw [heq] at haf
      exact absurd haf (hno nofun)
    · rw [heq] at haf
      obtain rfl := refuse_failed hbef haf
      rwa [h.quarantined.clean_eq hstl] at hnone
  | @retryIova m' r' hm =>
    rcases retryIova_cases cfg s m' r' with ⟨bit, -, heq⟩ | ⟨hnone, heq⟩
    · rw [heq] at haf
      exact absurd haf (hno nofun)
    · rw [heq] at haf
      obtain rfl := refuse_failed hbef haf
      exact hnone
  | writePte =>
    refine absurd haf (hno ?_)
    split_ifs <;> exact nofun
  | flushIotlbAll | beginUnmap | clearPte | freeIova => exact absurd haf (hno nofun)
  | tlbFill | tlbEvict => exact absurd haf hbef

/-- When `__fast_smmu_alloc_iova` returns, its pages are inside the bitmap, have no entry in the page table,
no other owner and no entry in the TLB; and when it returns `DMA_MAPPING_ERROR`, no suitable run of pages is
free. -/
theorem alloc_iova_safe {cfg : Config} {ops : List Op} {s : State}
    (hrun : run (step cfg) (start cfg) ops = some s) :
    (∀ m r bit, s.task m = .mapping r bit 0 → ∀ p, bit ≤ p → p < bit + r.nbits →
      p < cfg.num4kPages ∧ cfg.reserved p = false ∧ s.pmds p = none ∧ s.tlb p = none ∧
      ∀ m', (s.task m').Covers p → m' = m) ∧
    ∀ op s' m r, step cfg s op = some s' → s.task m ≠ .failed r → s'.task m = .failed r →
      ∀ i, ¬FreeRun cfg s r i := by
  have h := inv_run hrun
  refine ⟨fun m r bit hm p hle hlt => ?_, fun op s' m r hs hbef haf i hi =>
    step_failed h hs hbef haf i (hi.zeroArea h.allocated)⟩
  have hown : (s.task m).Covers p := by rw [hm]; exact ⟨hle, hlt⟩
  have hnone : s.pmds p = none := h.tables.bare m p (by rw [hm]; exact ⟨hle, hlt⟩)
  have htlb := h.tables.coherent m p (by rw [hm]; exact ⟨hle, hlt⟩)
  rw [hnone, or_self] at htlb
  obtain ⟨hin, hres⟩ := h.allocated.inside m p hown
  exact ⟨hin, hres, hnone, htlb, fun m' hm' => h.allocated.alone m' m p hm' hown⟩

def twoPages : Config where
  num4kPages := 2
  pageShift := 12
  reserved _ := false

def bothPages : Request := ⟨.page 0x10010 8000 3, by decide, by decide⟩

def onePage : Request := ⟨.sg [(0x30000, 4096)] 3, by decide, by decide⟩

def reuse : List Op :=
  [.allocIova 0 bothPages, .writePte 0, .tlbFill 0, .writePte 0, .tlbFill 1, .beginUnmap 0,
    .clearPte 0, .clearPte 0, .freeIova 0, .allocIova 1 onePage, .flushIotlbAll 1, .retryIova 1]

/-- The page comes back without its TLB entry, and a call for both pages is rightly refused. -/
theorem alloc_iova_safe_reuse :
    ∃ s, run (step twoPages) (start twoPages) reuse = some s ∧ s.task 1 = .mapping onePage 0 0 ∧
      s.pmds 0 = none ∧ s.tlb 0 = none ∧ ∀ i, ¬FreeRun twoPages s bothPages i := by
  have hrun : (run (step twoPages) (start twoPages) reuse).map (fun s => (s.task 1, s.task 2,
      (step twoPages s (.allocIova 2 bothPages)).map fun s' => s'.task 2)) =
      some (.mapping onePage 0 0, .idle, some (.failed bothPages)) := by
    decide +kernel
  obtain ⟨s, hs, heq⟩ := Option.map_eq_some_iff.mp hrun
  obtain ⟨htask, hidle, hfail⟩ : s.task 1 = .mapping onePage 0 0 ∧ s.task 2 = .idle ∧
      (step twoPages s (.allocIova 2 bothPages)).map (fun s' => s'.task 2) = some (.failed bothPages) := by
    simpa only [Prod.mk.injEq] using heq
  obtain ⟨s', hs', haf⟩ := Option.map_eq_some_iff.mp hfail
  obtain ⟨hpages, herror⟩ := alloc_iova_safe hs
  obtain ⟨-, -, hpmd, htlb, -⟩ := hpages 1 onePage 0 htask 0 (le_refl 0) (by decide)
  exact ⟨s, hs, htask, hpmd, htlb, herror _ s' 2 bothPages hs' (by rw [hidle]; exact nofun) haf⟩

/-! ### What the device reads -/

def Task.Backed (pmds : ℕ → Option Iopte) : Task → Prop
  | mapping r bit k => ∀ i < k, i < r.nbits → pmds (bit + i) = r.call.ptes[i]?
  | live r bit => ∀ i < r.nbits, pmds (bit + i) = r.call.ptes[i]?
  | _ => True

theorem Task.Backed.put {pmds : ℕ → Option Iopte} {t : Task} (h : t.Backed pmds) (hp : ¬t.Covers p)
    (e : Option Iopte) : t.Backed (update pmds p e) := by
  have hne : ∀ {bit i n}, i < n → ¬(bit ≤ p ∧ p < bit + n) → update pmds p e (bit + i) = pmds (bit + i) := by
    intro bit i n hi hn
    rw [update_of_ne (by omega)]
  cases t with
  | mapping r bit k => exact fun i hi hn => (hne hn hp).trans (h i hi hn)
  | live r bit => exact fun i hn => (hne hn hp).trans (h i hn)
  | _ => trivial

theorem backed_step (h : ∀ m, (s.task m).Backed s.pmds) (hinv : Inv cfg s) {op : Op}
    (hs : step cfg s op = some s') : ∀ m, (s'.task m).Backed s'.pmds := by
  have hkeep : ∀ {m t}, t.Backed s.pmds → ∀ m', (update s.task m t m').Backed s.pmds := fun ht =>
    (forall_update_iff s.task (p := fun _ t => t.Backed s.pmds)).mpr ⟨ht, fun m' _ => h m'⟩
  -- no other call has the page
  have hput : ∀ {m t p e}, (s.task m).Covers p → t.Backed (update s.pmds p e) →
      ∀ m', (update s.task m t m').Backed (update s.pmds p e) := fun {m t p e} hp ht =>
    (forall_update_iff s.task (p := fun _ t => t.Backed (update s.pmds p e))).mpr
      ⟨ht, fun m' hne => (h m').put (fun hc => hne (hinv.allocated.alone m' m p hc hp)) e⟩
  cases step_moves hs with
  | allocIova =>
    rcases allocIova_cases cfg s _ _ with ⟨bit, -, heq⟩ | heq | ⟨-, -, heq⟩ <;> rw [heq]
    · exact hkeep nofun
    all_goals exact hkeep trivial
  | retryIova =>
    rcases retryIova_cases cfg s _ _ with ⟨bit, -, heq⟩ | ⟨-, heq⟩ <;> rw [heq]
    · exact hkeep nofun
    · exact hkeep trivial
  | @writePte m r bit k pte hm hpte =>
    have hk : k < r.nbits := r.length_ptes ▸ (List.getElem?_eq_some_iff.mp hpte).1
    have hold := h m
    rw [hm] at hold
    have hall : ∀ i < k + 1, update s.pmds (bit + k) (some pte) (bit + i) = r.call.ptes[i]? := by
      intro i hi
      by_cases hik : i = k
      · rw [hik, update_self, hpte]
      · rw [update_of_ne (by omega), hold i (by omega) (by omega)]
    refine hput (by rw [hm]; exact ⟨by omega, by omega⟩) ?_
    split_ifs with hlast
    · exact fun i hi => hall i (hlast ▸ hi)
    · exact fun i hi _ => hall i hi
  | clearPte hm hk => exact hput (by rw [hm]; exact ⟨by omega, by omega⟩) trivial
  | flushIotlbAll | beginUnmap | freeIova => exact hkeep trivial
  | tlbFill | tlbEvict => exact h

/-- From the end of a map call to the unmap call the page table has the pages of its buffer, and the TLB nothing else
for them. -/
theorem live_translation (hrun : run (step cfg) (start cfg) ops = some s) {bit : ℕ} (hm : s.task m = .live r bit) :
    ∀ i < r.nbits, s.pmds (bit + i) = r.call.ptes[i]? ∧
      (s.tlb (bit + i) = none ∨ s.tlb (bit + i) = r.call.ptes[i]?) := by
  have ⟨hinv, hb⟩ := run_inv_always (I := fun s => Inv cfg s ∧ ∀ m, (s.task m).Backed s.pmds)
    (fun s op s' h hs => ⟨inv_step cfg s op s' h.1 hs, backed_step h.2 h.1 hs⟩) ⟨inv_start cfg, fun _ => trivial⟩ hrun
  intro i hi
  have hcur : (s.task m).Current (bit + i) := by
    rw [hm]
    exact ⟨by omega, by omega⟩
  have hlive := hb m
  rw [hm] at hlive
  exact ⟨hlive i hi, hlive i hi ▸ hinv.tables.coherent m _ hcur⟩

/-- Both pages are mapped. -/
theorem live_translation_reuse :
    ∃ s, run (step twoPages) (start twoPages) (reuse.take 5) = some s ∧ s.pmds 1 = some ⟨0x11000, 3⟩ := by
  have hlive : (run (step twoPages) (start twoPages) (reuse.take 5)).map (·.task 0) = some (.live bothPages 0) := by
    decide +kernel
  obtain ⟨s, hs, hm⟩ := Option.map_eq_some_iff.mp hlive
  exact ⟨s, hs, (live_translation hs hm 1 (by decide)).1⟩

end VendorKernel.Iommu.Fast
