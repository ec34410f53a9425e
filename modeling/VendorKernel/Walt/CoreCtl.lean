import VendorKernel.Lib.Walk

/-! The choice of CPUs by core_ctl (`core_ctl.c`): `try_to_pause` and `try_to_resume` go over the CPUs of a
cluster in the order of last use, `core_ctl_resume_cpus` resumes what was chosen. -/
namespace VendorKernel.Walt

open Walk List

/-- `struct cluster_data` with the `struct cpu_data` of its CPUs. `num_cpus` is the length of `lru`, and
`nr_not_preferred_cpus` the number of flags. -/
structure Cluster where
  lru : List ℕ
  nodup : lru.Nodup
  activeCpus : ℕ
  maxCpus : ℕ
  minPartialCpus : ℕ
  isActive : ℕ → Bool
  disabled : ℕ → Bool
  isBusy : ℕ → Bool
  notPreferred : ℕ → Bool

structure PausedByUs where
  paused : Finset ℕ
  partPaused : Finset ℕ
deriving DecidableEq

namespace Cluster

def nrNotPreferredCpus (cl : Cluster) : ℕ := cl.lru.countP cl.notPreferred

def pass (cl : Cluster) (enter : ℕ → Bool) (full : ℕ → Bool) (pick : ℕ → Bool) (r : List ℕ × Finset ℕ × ℕ) :
    List ℕ × Finset ℕ × ℕ :=
  walk (select enter full pick) cl.lru.length 0 r.1 r.2

def resumable (cl : Cluster) (us : PausedByUs) (force : Bool) (cpu : ℕ) : Bool :=
  (cpu ∈ us.paused || cpu ∈ us.partPaused) && !cl.isActive cpu && (force || !cl.notPreferred cpu)

def tryToResumePass (cl : Cluster) (us : PausedByUs) (need : ℕ) (force : Bool) (lru : List ℕ) (unpause : Finset ℕ) :
    List ℕ × Finset ℕ × ℕ :=
  cl.pass (cl.resumable us force) (fun nr => cl.activeCpus + nr = need) (fun _ => true) (lru, unpause, 0)

/-- `try_to_resume` with empty sets: `unpause_cpus` and `part_unpause_cpus`. -/
def tryToResume (cl : Cluster) (us : PausedByUs) (need : ℕ) : Finset ℕ × Finset ℕ :=
  let r := cl.tryToResumePass us need false cl.lru ∅
  if cl.activeCpus + r.2.2 = need then (r.2.1, ∅)
  else
    let unpause := (cl.tryToResumePass us need true r.1 r.2.1).2.1
    (unpause, unpause ∩ us.partPaused)

def enabled (cl : Cluster) (cpu : ℕ) : Bool := !cl.disabled cpu && cl.isActive cpu

def tryToPauseIdle (cl : Cluster) (need : ℕ) : List ℕ × Finset ℕ × ℕ :=
  cl.pass cl.enabled (fun nr => cl.activeCpus - nr = need)
    (fun cpu => !cl.isBusy cpu && (cl.nrNotPreferredCpus = 0 || cl.notPreferred cpu)) (cl.lru, ∅, 0)

def firstPass (cl : Cluster) : Bool := cl.nrNotPreferredCpus ≠ 0

def tryToPauseForced (cl : Cluster) (firstPass : Bool) (r : List ℕ × Finset ℕ × ℕ) : List ℕ × Finset ℕ × ℕ :=
  cl.pass cl.enabled (fun nr => cl.activeCpus - nr ≤ cl.maxCpus) (fun cpu => !firstPass || cl.notPreferred cpu) r

def tryToPauseAll (cl : Cluster) (need : ℕ) : List ℕ × Finset ℕ × ℕ :=
  let r := cl.tryToPauseIdle need
  if cl.activeCpus - r.2.2 ≤ cl.maxCpus then r
  else
    let r := cl.tryToPauseForced cl.firstPass r
    if cl.firstPass = true ∧ cl.maxCpus < cl.activeCpus - r.2.2 then cl.tryToPauseForced false r else r

/-- The body of `try_to_partial_pause`: `pause_cpus`, `part_pause_cpus` and `num_cpus`. -/
def partialPause (us : PausedByUs) (s : Finset ℕ × Finset ℕ × ℤ) (cpu : ℕ) :
    Option (Bool × Finset ℕ × Finset ℕ × ℤ) :=
  if s.2.2 ≤ 0 then none
  else if cpu ∈ s.1 ∧ cpu ∉ us.partPaused then some (true, s.1.erase cpu, insert cpu s.2.1, s.2.2 - 1)
  else some (false, s)

/-- With `try_to_partial_pause`. An entry that was moved is visited again and not moved again. -/
def tryToPause (cl : Cluster) (us : PausedByUs) (need : ℕ) : Finset ℕ × Finset ℕ :=
  let r := cl.tryToPauseAll need
  let s := (walk (partialPause us) (2 * r.1.length) 0 r.1 (r.2.1, ∅, (cl.minPartialCpus : ℤ) - us.partPaused.card)).2
  (s.1, s.2.1)

end Cluster

/-- `core_ctl_resume_cpus` where the calls of WALT succeed. -/
def coreCtlResumeCpus (us : PausedByUs) (unpause partUnpause : Finset ℕ) : PausedByUs :=
  ⟨us.paused \ (unpause ∩ us.paused), us.partPaused \ (partUnpause ∩ us.partPaused)⟩

variable {cl : Cluster} {us : PausedByUs} {need : ℕ}

namespace Cluster

theorem pass_spec (enter full pick : ℕ → Bool) (nr k : ℕ) {rest done : List ℕ} (hperm : (rest ++ done).Perm cl.lru)
    (hfull : ∀ j ≤ k, full (nr + j) = true ↔ j = k) (hdone : ∀ cpu ∈ done, picks enter pick cpu = true) :
    let picked := rest.filter (picks enter pick)
    let r := cl.pass enter full pick (rest ++ done, done.toFinset, nr)
    r.2 = ((done ++ picked.take k).toFinset, nr + min k (picked.length + done.length)) ∧
      r.2.1.card = done.length + min k picked.length ∧ (∀ cpu ∈ r.2.1, cpu ∈ cl.lru ∧ enter cpu = true) ∧
      (picked.length + done.length ≤ k →
        r = (rest.filter (fun cpu => !picks enter pick cpu) ++ (picked ++ done), (picked ++ done).toFinset,
          nr + (picked.length + done.length))) := by
  obtain ⟨hsta, hall⟩ := walk_select enter full pick hfull rest hdone
  rw [hperm.length_eq] at hsta hall
  have hlast := perm_append_comm.trans hperm
  have hsub := ((take_sublist k (rest.filter (picks enter pick))).trans filter_sublist).append_left done
  refine ⟨hsta, ?_, fun cpu hcpu => ?_, hall⟩
  · rw [pass, hsta, toFinset_card_of_nodup ((hlast.nodup_iff.mpr cl.nodup).sublist hsub), length_append, length_take]
  · rw [pass, hsta, mem_toFinset] at hcpu
    refine ⟨hlast.subset (hsub.subset hcpu), Bool.and_elim_left ((mem_append.mp hcpu).elim (hdone cpu) ?_)⟩
    exact fun hcpu => of_mem_filter (p := picks enter pick) (mem_of_mem_take hcpu)

theorem pass_spec_first (enter full pick : ℕ → Bool) (k : ℕ) (hfull : ∀ j ≤ k, full j = true ↔ j = k) :
    let picked := cl.lru.filter (picks enter pick)
    let r := cl.pass enter full pick (cl.lru, ∅, 0)
    r.2 = ((picked.take k).toFinset, min k picked.length) ∧ r.2.1.card = min k picked.length ∧
      (∀ cpu ∈ r.2.1, cpu ∈ cl.lru ∧ enter cpu = true) ∧ (picked.length ≤ k →
        r = (cl.lru.filter (fun cpu => !picks enter pick cpu) ++ picked, picked.toFinset, picked.length)) := by
  have hspec := @pass_spec cl enter full pick 0 k cl.lru [] (by simp) (by simpa using hfull) nofun
  simpa only [append_nil, toFinset_nil, nil_append, length_nil, Nat.add_zero, Nat.zero_add] using hspec

theorem filter_last (p : ℕ → Bool) (l : List ℕ) : (l.filter (fun cpu => !p cpu) ++ l.filter p).Perm l :=
  perm_append_comm.trans (filter_append_perm _ _)

def preferred (cl : Cluster) (us : PausedByUs) : List ℕ := cl.lru.filter (cl.resumable us false)

def others (cl : Cluster) (us : PausedByUs) : List ℕ :=
  (cl.lru.filter fun cpu => !cl.resumable us false cpu).filter (cl.resumable us true)

theorem resumable_preferred : ∀ cpu ∈ cl.preferred us, cl.resumable us true cpu = true := by
  intro cpu hcpu
  have hcpu := of_mem_filter hcpu
  simp_all [resumable]

/-- The preferred CPUs are enough, or they are all chosen and as many of the others as were needed before. -/
theorem tryToResume_cases (us : PausedByUs) (hneed : cl.activeCpus ≤ need) :
    let k := need - cl.activeCpus
    let r := cl.tryToResume us need
    k ≤ (cl.preferred us).length ∧ r = (((cl.preferred us).take k).toFinset, ∅) ∧ r.1.card = k ∨
      (cl.preferred us).length < k ∧ r.2 = r.1 ∩ us.partPaused ∧
        r.1.card = (cl.preferred us).length + min k (cl.others us).length := by
  intro k r
  have hfull : ∀ j ≤ k, decide (cl.activeCpus + j = need) = true ↔ j = k := by
    intro j hj
    rw [decide_eq_true_iff]
    omega
  obtain ⟨hsta, hcard, -, hall⟩ := @pass_spec_first cl (cl.resumable us false) _ (fun _ => true) k hfull
  rw [picks_true, ← preferred, ← tryToResumePass] at hsta hcard hall
  by_cases hen : k ≤ (cl.preferred us).length
  · rw [Nat.min_eq_left hen] at hsta hcard
    have hr : r = _ := if_pos (by rw [hsta]; omega)
    rw [hr, hcard, hsta]
    exact .inl ⟨hen, rfl, rfl⟩
  · have hall := hall (Nat.le_of_not_le hen)
    obtain ⟨-, hcard', -⟩ := pass_spec (cl.resumable us true) (fun nr => cl.activeCpus + nr = need)
      (fun _ => true) 0 k (filter_last (cl.resumable us false) cl.lru) (by simpa using hfull)
      (by rw [picks_true]; exact resumable_preferred)
    rw [picks_true] at hcard'
    have hr : r = _ := if_neg (by rw [hall]; dsimp only; omega)
    rw [hr, hall]
    exact .inr ⟨Nat.lt_of_not_le hen, rfl, hcard'⟩

end Cluster

open Cluster

/-- The number of CPUs that are resumed is right unless there are preferred CPUs, too few, and others: the second
pass counts from zero. -/
theorem try_to_resume_marks_iff (cl : Cluster) (us : PausedByUs) (need : ℕ) (hneed : cl.activeCpus < need) :
    let k := need - cl.activeCpus
    let marked := (cl.tryToResume us need).1.card
    let resumable := (cl.lru.filter (cl.resumable us true)).length
    (marked ≤ k ∧ (k ≤ resumable → marked = k)) ↔
      (cl.preferred us = [] ∨ k ≤ (cl.preferred us).length ∨ resumable ≤ k) := by
  intro k marked resumable
  have hsum : resumable = (cl.others us).length + (cl.preferred us).length := by
    have hperm := (filter_last (cl.resumable us false) cl.lru).filter (cl.resumable us true)
    rw [filter_append, ← preferred, filter_eq_self.mpr resumable_preferred] at hperm
    exact hperm.length_eq.symm.trans length_append
  rw [← length_eq_zero_iff]
  obtain ⟨hen, -, hcard⟩ | ⟨hfew, -, hcard⟩ := tryToResume_cases us hneed.le
  · omega
  · omega

theorem try_to_resume_marks_three_of_two :
    let cl : Cluster := ⟨[0, 1, 2, 3], by decide, 1, 4, 0, (· = 3), fun _ => false, fun _ => false, (· ≠ 0)⟩
    let us : PausedByUs := ⟨{0, 1, 2}, ∅⟩
    cl.activeCpus < 3 ∧ 3 - cl.activeCpus < (cl.tryToResume us 3).1.card := by
  decide

theorem try_to_resume_marks_two_of_two :
    let cl : Cluster := ⟨[0, 1, 2, 3], by decide, 1, 4, 0, (· = 3), fun _ => false, fun _ => false, (· = 2)⟩
    let us : PausedByUs := ⟨{0, 1, 2}, ∅⟩
    (cl.tryToResume us 3).1.card = 2 :=
  ((try_to_resume_marks_iff
    ⟨[0, 1, 2, 3], by decide, 1, 4, 0, (· = 3), fun _ => false, fun _ => false, (· = 2)⟩
    ⟨{0, 1, 2}, ∅⟩ 3 (by decide)).mpr (by decide)).2 (by decide)

/-- The CPUs that were chosen are no longer paused, unless a pass that was enough chose a CPU that is partially
paused: `try_to_resume` then returns without the second set. -/
theorem try_to_resume_unpauses_iff (cl : Cluster) (us : PausedByUs) (need : ℕ) :
    let r := cl.tryToResume us need
    let us' := coreCtlResumeCpus us r.1 r.2
    (∀ cpu ∈ r.1, cpu ∉ us'.paused ∧ cpu ∉ us'.partPaused) ↔
      (cl.activeCpus ≤ need → need - cl.activeCpus ≤ (cl.preferred us).length →
        ∀ cpu ∈ (cl.preferred us).take (need - cl.activeCpus), cpu ∉ us.partPaused) := by
  intro r us'
  have hlate (hr : r.2 = r.1 ∩ us.partPaused) : ∀ cpu ∈ r.1, cpu ∉ us'.paused ∧ cpu ∉ us'.partPaused := by
    intro cpu hcpu
    simp [us', hr, coreCtlResumeCpus, hcpu]
  by_cases hneed : cl.activeCpus ≤ need
  · obtain ⟨hen, hr, -⟩ | ⟨hfew, hr, -⟩ := tryToResume_cases us hneed
    · simp +contextual [us', r, hr, coreCtlResumeCpus, hneed, hen]
    · exact iff_of_true (hlate hr) fun _ hen => absurd hen (Nat.not_le_of_lt hfew)
  · have hr : r = _ := if_neg (by omega)
    exact iff_of_true (hlate (by rw [hr])) fun hneed' => absurd hneed' hneed

theorem try_to_resume_leaves_partially_paused :
    let cl : Cluster := ⟨[0, 1], by decide, 1, 4, 0, (· = 1), fun _ => false, fun _ => false, fun _ => false⟩
    let us : PausedByUs := ⟨∅, {0}⟩
    let r := cl.tryToResume us 2
    0 ∈ r.1 ∧ 0 ∈ (coreCtlResumeCpus us r.1 r.2).partPaused := by
  decide

namespace Cluster

/-- The CPUs that the first loop of `try_to_pause` may choose, and those a forced pass may choose. -/
def idle (cl : Cluster) : ℕ → Bool :=
  picks cl.enabled fun cpu => !cl.isBusy cpu && (cl.nrNotPreferredCpus = 0 || cl.notPreferred cpu)

def forced (cl : Cluster) (firstPass : Bool) : ℕ → Bool :=
  picks cl.enabled fun cpu => !firstPass || cl.notPreferred cpu

def idleCpus (cl : Cluster) : List ℕ := cl.lru.filter cl.idle

def busyCpus (cl : Cluster) : List ℕ := (cl.lru.filter fun cpu => !cl.idle cpu).filter (cl.forced cl.firstPass)

def otherCpus (cl : Cluster) : List ℕ :=
  ((cl.lru.filter fun cpu => !cl.idle cpu).filter fun cpu => !cl.forced cl.firstPass cpu).filter (cl.forced false)

theorem forced_idle : ∀ cpu ∈ cl.idleCpus, cl.forced cl.firstPass cpu = true := by
  intro cpu hcpu
  have hcpu := of_mem_filter hcpu
  simp_all [idle, forced, firstPass, picks]

theorem forced_pass : ∀ cpu ∈ cl.busyCpus ++ cl.idleCpus, cl.forced false cpu = true := by
  intro cpu hcpu
  have hcpu : cl.forced cl.firstPass cpu = true :=
    (mem_append.mp hcpu).elim of_mem_filter (forced_idle cpu)
  simp_all [forced, picks]

theorem perm_idle (cl : Cluster) : ((cl.lru.filter fun cpu => !cl.idle cpu) ++ cl.idleCpus).Perm cl.lru :=
  filter_last _ _

theorem perm_pass (cl : Cluster) : ((cl.lru.filter fun cpu => !cl.idle cpu).filter
    (fun cpu => !cl.forced cl.firstPass cpu) ++ (cl.busyCpus ++ cl.idleCpus)).Perm cl.lru := by
  rw [← append_assoc]
  exact ((filter_last _ _).append_right _).trans cl.perm_idle

theorem length_forced (cl : Cluster) : (cl.lru.filter (cl.forced false)).length =
    cl.otherCpus.length + (cl.busyCpus.length + cl.idleCpus.length) := by
  rw [← (cl.perm_pass.filter _).length_eq, filter_append, filter_eq_self.mpr forced_pass, ← otherCpus,
    length_append, length_append]

theorem tryToPauseForced_spec (f : Bool) (nr : ℕ) {rest done : List ℕ} (hperm : (rest ++ done).Perm cl.lru)
    (hdone : ∀ cpu ∈ done, cl.forced f cpu = true) :
    let picked := rest.filter (cl.forced f)
    let k := cl.activeCpus - nr - cl.maxCpus
    let r := cl.tryToPauseForced f (rest ++ done, done.toFinset, nr)
    r.2.2 = nr + min k (picked.length + done.length) ∧ r.2.1.card = done.length + min k picked.length ∧
      (∀ cpu ∈ r.2.1, cpu ∈ cl.lru ∧ cl.enabled cpu = true) ∧
      (picked.length + done.length ≤ k →
        r = (rest.filter (fun cpu => !cl.forced f cpu) ++ (picked ++ done), (picked ++ done).toFinset,
          nr + (picked.length + done.length))) := by
  obtain ⟨hsta, hspec⟩ := pass_spec cl.enabled (fun nr => cl.activeCpus - nr ≤ cl.maxCpus)
    (fun cpu => !f || cl.notPreferred cpu) nr (cl.activeCpus - nr - cl.maxCpus) hperm
    (fun j hj => by rw [decide_eq_true_iff]; omega) hdone
  exact ⟨congrArg Prod.snd hsta, hspec⟩

/-- How many CPUs are chosen: the first loop is enough; a forced pass ends the search; or a second one is made. -/
theorem tryToPauseAll_cases (hneed : need < cl.activeCpus) (hmax : need ≤ cl.maxCpus) :
    let nrIdle := cl.idleCpus.length
    let nrBusy := cl.busyCpus.length
    let again := cl.firstPass = true ∧ cl.maxCpus + 2 * nrIdle + nrBusy < cl.activeCpus
    let chosen := (cl.tryToPauseAll need).2.1
    (∀ cpu ∈ chosen, cpu ∈ cl.lru ∧ cl.enabled cpu = true) ∧
      (cl.activeCpus ≤ cl.maxCpus + nrIdle ∧ chosen.card = min (cl.activeCpus - need) nrIdle ∨
        cl.maxCpus + nrIdle < cl.activeCpus ∧ ¬again ∧
          chosen.card = nrIdle + min (cl.activeCpus - nrIdle - cl.maxCpus) nrBusy ∨
        again ∧ chosen.card = nrBusy + nrIdle +
          min (cl.activeCpus - (nrIdle + (nrBusy + nrIdle)) - cl.maxCpus) cl.otherCpus.length) := by
  intro nrIdle nrBusy again chosen
  obtain ⟨hsta, hcard, hsub, hkept⟩ := @pass_spec_first cl cl.enabled (fun nr => cl.activeCpus - nr = need)
    (fun cpu => !cl.isBusy cpu && (cl.nrNotPreferredCpus = 0 || cl.notPreferred cpu)) (cl.activeCpus - need)
    fun j hj => by rw [decide_eq_true_iff]; omega
  rw [← idle, ← idleCpus, ← tryToPauseIdle] at hsta hcard hkept
  by_cases hidle : cl.activeCpus ≤ cl.maxCpus + nrIdle
  · have hr : cl.tryToPauseAll need = _ := if_pos (by rw [hsta]; omega)
    simp only [chosen, hr]
    exact ⟨hsub, .inl ⟨hidle, hcard⟩⟩
  · have hr : cl.tryToPauseAll need = _ := if_neg (by rw [hkept (by omega)]; dsimp only; omega)
    obtain ⟨hnr, hcard, hsub, hkept'⟩ := tryToPauseForced_spec cl.firstPass cl.idleCpus.length
      cl.perm_idle forced_idle
    rw [← busyCpus] at hnr hcard hkept'
    rw [hkept (by omega)] at hr
    by_cases hag : again
    · obtain ⟨-, hcard, hsub, -⟩ := tryToPauseForced_spec false (nrIdle + (nrBusy + nrIdle)) cl.perm_pass forced_pass
      rw [hkept' (by omega), if_pos ⟨hag.1, by dsimp only; omega⟩] at hr
      simp only [chosen, hr]
      exact ⟨hsub, .inr (.inr ⟨hag, hcard.trans (by rw [length_append, ← otherCpus])⟩)⟩
    · rw [if_neg (fun h => hag ⟨h.1, by omega⟩)] at hr
      simp only [chosen, hr]
      exact ⟨hsub, .inr (.inl ⟨by omega, hag, hcard⟩)⟩

end Cluster

theorem tryToPause_union (cl : Cluster) (us : PausedByUs) (need : ℕ) :
    (cl.tryToPause us need).1 ∪ (cl.tryToPause us need).2 = (cl.tryToPauseAll need).2.1 := by
  refine walk_inv (I := fun s : Finset ℕ × Finset ℕ × ℤ => s.1 ∪ s.2.1 = (cl.tryToPauseAll need).2.1)
    (fun s cpu moved s' h hs => ?_) _ _ _ _ (Finset.union_empty _)
  unfold partialPause at hs
  split_ifs at hs with hnum hcpu
  · cases hs
    rw [← h]
    ext c
    by_cases hc : c = cpu <;> simp [hc, hcpu]
  · cases hs
    exact h

/-- Pausing leaves enough CPUs. It leaves too many if a forced pass comes back to CPUs that were chosen before, for
want of others that are not preferred, and counts them again. -/
theorem try_to_pause_limits_iff (cl : Cluster) (us : PausedByUs) (need : ℕ) (hneed : need < cl.activeCpus)
    (hmax : need ≤ cl.maxCpus) :
    let chosen := (cl.tryToPause us need).1 ∪ (cl.tryToPause us need).2
    let nrIdle := cl.lru.countP fun cpu => cl.enabled cpu && (!cl.isBusy cpu && cl.notPreferred cpu)
    let nrBusy := cl.lru.countP fun cpu => cl.enabled cpu && (cl.isBusy cpu && cl.notPreferred cpu)
    let nrPreferred := cl.lru.countP fun cpu => cl.enabled cpu && !cl.notPreferred cpu
    need + chosen.card ≤ cl.activeCpus ∧
      ((cl.activeCpus - chosen.card ≤ cl.maxCpus ∨ ∀ cpu ∈ cl.lru, cl.enabled cpu = true → cpu ∈ chosen) ↔
        nrIdle = 0 ∨ nrPreferred = 0 ∨ cl.activeCpus ≤ cl.maxCpus + nrIdle + nrBusy ∨
          cl.maxCpus + 2 * nrIdle + nrBusy + nrPreferred ≤ cl.activeCpus) := by
  intro chosen nrIdle nrBusy nrPreferred
  obtain ⟨hsub, hcs⟩ := tryToPauseAll_cases hneed hmax
  have hchosen : chosen = (cl.tryToPauseAll need).2.1 := tryToPause_union cl us need
  rw [← hchosen] at hsub hcs
  have hall : (∀ cpu ∈ cl.lru, cl.enabled cpu = true → cpu ∈ chosen) ↔
      (cl.lru.filter (cl.forced false)).length ≤ chosen.card := by
    have hsub : chosen ⊆ (cl.lru.filter (cl.forced false)).toFinset := by
      intro cpu hcpu
      simpa [forced] using hsub cpu hcpu
    rw [← toFinset_card_of_nodup (cl.nodup.filter _), Finset.eq_iff_card_le_of_subset hsub, subset_antisymm_iff,
      and_iff_right hsub, Finset.subset_iff]
    simp [forced]
  rw [hall, length_forced]
  have hcnt {p q : ℕ → Bool} (h : ∀ cpu, p cpu = q cpu) : (cl.lru.filter p).length = cl.lru.countP q := by
    rw [countP_eq_length_filter, funext h]
  cases hfst : cl.firstPass with
  | false =>
    have hnone : cl.nrNotPreferredCpus = 0 := by simpa [firstPass] using hfst
    have hidle : nrIdle = 0 := by
      simp +contextual [nrIdle, countP_eq_zero, countP_eq_zero.mp hnone]
    have hoth : cl.otherCpus.length = 0 := by
      simp +contextual [otherCpus, hfst]
    omega
  | true =>
    have hsome : cl.nrNotPreferredCpus ≠ 0 := by simpa [firstPass] using hfst
    have hidle : cl.idleCpus.length = nrIdle := hcnt fun cpu => by simp [Cluster.idle, picks, hsome]
    have hrest : cl.busyCpus.length = nrBusy ∧ cl.otherCpus.length = nrPreferred := by
      rw [busyCpus, otherCpus, filter_filter, filter_filter, filter_filter]
      refine ⟨hcnt fun cpu => ?_, hcnt fun cpu => ?_⟩
      all_goals
        simp only [forced, Cluster.idle, picks, hfst, hsome]
        cases cl.enabled cpu <;> cases cl.isBusy cpu <;> cases cl.notPreferred cpu <;> rfl
    simp only [hfst, true_and] at hcs
    omega

/-- A CPU is counted by both passes, and two are left. -/
theorem try_to_pause_counts_twice :
    let cl : Cluster := ⟨[0, 1, 2, 3], by decide, 4, 1, 0, fun _ => true, fun _ => false, fun _ => false, (· < 2)⟩
    let us : PausedByUs := ⟨∅, ∅⟩
    cl.maxCpus < cl.activeCpus - ((cl.tryToPause us 1).1 ∪ (cl.tryToPause us 1).2).card ∧
      2 ∉ (cl.tryToPause us 1).1 ∪ (cl.tryToPause us 1).2 := by
  decide

theorem try_to_pause_limits_four :
    let cl : Cluster := ⟨[0, 1, 2, 3], by decide, 4, 2, 0, fun _ => true, fun _ => false, fun _ => false, (· < 2)⟩
    1 + ((cl.tryToPause ⟨∅, ∅⟩ 1).1 ∪ (cl.tryToPause ⟨∅, ∅⟩ 1).2).card ≤ 4 :=
  (try_to_pause_limits_iff
    ⟨[0, 1, 2, 3], by decide, 4, 2, 0, fun _ => true, fun _ => false, fun _ => false, (· < 2)⟩ ⟨∅, ∅⟩ 1
    (by decide) (by decide)).1

end VendorKernel.Walt
