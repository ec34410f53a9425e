import Mathlib.Data.Nat.Notation
import Mathlib.Logic.Basic

/-! Runs of a deterministic machine whose steps may stop it (a panic, a failed
assertion), and the rule that carries an invariant along every run. -/
namespace VendorKernel.Machine

open List

variable {σ α τ : Type*}

/-- The state after a list of actions, or `none` once a step stops the machine. -/
def run (step : σ → α → Option σ) : σ → List α → Option σ
  | s, [] => some s
  | s, a :: as =>
    match step s a with
    | none => none
    | some s' => run step s' as

/-- Every action of the list meets `ok` in the state it is taken from. -/
def Meets (step : σ → α → Option σ) (ok : σ → α → Prop) : σ → List α → Prop
  | _, [] => True
  | s, a :: as => ok s a ∧
    match step s a with
    | none => True
    | some s' => Meets step ok s' as

instance decidableMeets (step : σ → α → Option σ) (ok : σ → α → Prop)
    [∀ s a, Decidable (ok s a)] : ∀ s as, Decidable (Meets step ok s as)
  | _, [] => .isTrue trivial
  | s, a :: as =>
    match h : step s a with
    | none => decidable_of_iff (ok s a) (by simp [Meets, h])
    | some s' =>
      have := decidableMeets step ok s' as
      decidable_of_iff (ok s a ∧ Meets step ok s' as) (by simp [Meets, h])

section
variable {step : σ → α → Option σ} {ok ok' : σ → α → Prop} {s s' s'' : σ} {a wake work : α} {as bs : List α}
  {I safe done idle live : σ → Prop}

@[simp] theorem run_nil (s : σ) : run step s [] = some s := rfl

theorem run_cons (h : run step s (a :: as) = some s'') : ∃ s', step s a = some s' ∧ run step s' as = some s'' := by
  cases hs : step s a with
  | none => simp [run, hs] at h
  | some s' => exact ⟨s', rfl, by simpa [run, hs] using h⟩

theorem run_append (has : run step s as = some s') (hbs : run step s' bs = some s'') :
    run step s (as ++ bs) = some s'' := by
  induction as generalizing s with
  | nil =>
    cases has
    exact hbs
  | cons a as ih =>
    obtain ⟨t, ht, has⟩ := run_cons has
    simp only [cons_append, run, ht]
    exact ih has

theorem Meets.head (h : Meets step ok s (a :: as)) : ok s a := h.1

theorem Meets.tail (h : Meets step ok s (a :: as)) (hs : step s a = some s') : Meets step ok s' as := by
  simpa [hs] using h.2

theorem Meets.and :
    ∀ {as : List α} {s : σ}, Meets step ok s as → Meets step ok' s as → Meets step (fun s a => ok s a ∧ ok' s a) s as
  | [], _, _, _ => trivial
  | a :: as, s, h, h' => by
    refine ⟨⟨h.head, h'.head⟩, ?_⟩
    cases hs : step s a with
    | none => trivial
    | some t => exact (h.tail hs).and (h'.tail hs)

theorem Meets.mono (hok : ∀ s a, ok s a → ok' s a) :
    ∀ {as : List α} {s : σ}, Meets step ok s as → Meets step ok' s as
  | [], _, _ => trivial
  | a :: as, s, h => by
    refine ⟨hok s a h.head, ?_⟩
    cases hs : step s a with
    | none => trivial
    | some t => exact (h.tail hs).mono hok

theorem run_inv (hstep : ∀ s a s', I s → ok s a → step s a = some s' → I s') :
    ∀ {as : List α} {s s' : σ}, I s → Meets step ok s as → run step s as = some s' → I s'
  | [], s, s', hi, _, hr => by
    obtain rfl : s = s' := by simpa using hr
    exact hi
  | a :: as, s, s', hi, hm, hr => by
    obtain ⟨t, ht, hr⟩ := run_cons hr
    exact run_inv hstep (hstep s a t hi hm.head ht) (hm.tail ht) hr

theorem run_some (hstep : ∀ s a, I s → ok s a → ∃ s', step s a = some s' ∧ I s') :
    ∀ {s : σ}, I s → Meets step ok s as → ∃ s', run step s as = some s' ∧ I s' := by
  induction as with
  | nil => exact fun {s} hi _ => ⟨s, rfl, hi⟩
  | cons a as ih =>
    intro s hi hm
    obtain ⟨s', hs, hi'⟩ := hstep s a hi hm.head
    obtain ⟨s'', hrun, hi''⟩ := ih hi' (hm.tail hs)
    exact ⟨s'', by rw [run, hs]; exact hrun, hi''⟩

theorem Meets.mono_inv (hok : ∀ s a, I s → ok s a → ok' s a)
    (hstep : ∀ s a s', I s → ok s a → step s a = some s' → I s') :
    ∀ {as : List α} {s : σ}, Meets step ok s as → I s → Meets step ok' s as
  | [], _, _, _ => trivial
  | a :: as, s, h, hi => by
    refine ⟨hok s a hi h.head, ?_⟩
    cases hs : step s a with
    | none => trivial
    | some t => exact (h.tail hs).mono_inv hok hstep (hstep s a t hi h.head hs)

theorem meets_of_forall (h : ∀ s a, ok s a) : ∀ (as : List α) (s : σ), Meets step ok s as
  | [], _ => trivial
  | a :: as, s => by
    refine ⟨h s a, ?_⟩
    cases step s a with
    | none => trivial
    | some t => exact meets_of_forall h as t

theorem run_inv_always (hstep : ∀ s a s', I s → step s a = some s' → I s') (hi : I s)
    (hr : run step s as = some s') : I s' :=
  run_inv (fun s a s' hs _ h => hstep s a s' hs h) hi (meets_of_forall (fun _ _ => trivial) as s) hr

theorem meets_iff (hiff : ∀ s a, I s → (ok s a ↔ ok' s a))
    (hstep : ∀ s a s', I s → ok s a → step s a = some s' → I s') :
    ∀ {as : List α} {s : σ}, I s → (Meets step ok s as ↔ Meets step ok' s as)
  | [], _, _ => Iff.rfl
  | a :: as, s, hi => by
    rw [Meets, Meets, ← hiff s a hi]
    apply and_congr_right
    intro ha
    cases hs : step s a with
    | none => exact Iff.rfl
    | some s' => exact meets_iff hiff hstep (hstep s a s' hi ha hs)

theorem meets_of_end (hstep : ∀ s a s', I s → step s a = some s' → I s')
    (hback : ∀ s a s', I s → step s a = some s' → safe s' → safe s ∧ ok s a) :
    ∀ {s s' : σ}, I s → run step s as = some s' → safe s' → safe s ∧ Meets step ok s as := by
  induction as with
  | nil =>
    intro s s' _ hr hsafe
    cases hr
    exact ⟨hsafe, trivial⟩
  | cons a as ih =>
    intro s s' hi hr hsafe
    obtain ⟨t, ht, hr⟩ := run_cons hr
    obtain ⟨hsafe, hm⟩ := ih (hstep s a t hi ht) hr hsafe
    obtain ⟨hsafe, hok⟩ := hback s a t hi ht hsafe
    refine ⟨hsafe, hok, ?_⟩
    simpa only [ht] using hm

theorem run_refines {spec : τ → α → τ} {R : σ → τ → Prop}
    (hstep : ∀ s t a, R s t → ∃ s', step s a = some s' ∧ R s' (spec t a)) (as : List α) :
    ∀ {s : σ} {t : τ}, R s t → ∃ s', run step s as = some s' ∧ R s' (as.foldl spec t) := by
  induction as with
  | nil => exact fun {s} _ h => ⟨s, rfl, h⟩
  | cons a as ih =>
    intro s t h
    obtain ⟨s', hs', h'⟩ := hstep s t a h
    obtain ⟨s'', hs'', h''⟩ := ih h'
    exact ⟨s'', by rw [run, hs']; exact hs'', h''⟩

theorem run_until (μ : σ → ℕ) (hstep : ∀ s, I s → ¬done s → ∃ s', step s a = some s' ∧ I s' ∧ μ s' < μ s) (hi : I s) :
    ∃ n s', run step s (replicate n a) = some s' ∧ I s' ∧ done s' := by
  induction hk : μ s using Nat.strongRecOn generalizing s with
  | _ k ih =>
    by_cases hdone : done s
    · exact ⟨0, s, rfl, hi, hdone⟩
    · obtain ⟨s', hs', hi', hlt⟩ := hstep s hi hdone
      obtain ⟨n, s'', hrun, hi'', hdone'⟩ := ih (μ s') (hk ▸ hlt) hi' rfl
      exact ⟨n + 1, s'', by rw [replicate_succ, run, hs']; exact hrun, hi'', hdone'⟩

/-- A machine that is woken up if need be works until it is idle. -/
theorem run_woken (μ : σ → ℕ) (hwork : ∀ s, I s → ¬idle s → ∃ s', step s work = some s' ∧ I s' ∧ μ s' < μ s)
    (hawake : ¬idle s → I s) (hwake : idle s → ∃ s', step s wake = some s' ∧ I s') :
    ∃ as s', (∀ a ∈ as, a = wake ∨ a = work) ∧ run step s as = some s' ∧ I s' ∧ idle s' := by
  have hworks : ∀ n, ∀ a ∈ replicate n work, a = wake ∨ a = work :=
    fun n a ha => .inr (eq_of_mem_replicate ha)
  by_cases hidle : idle s
  · obtain ⟨s', hs', hi⟩ := hwake hidle
    obtain ⟨n, s'', hrun, hend⟩ := run_until μ hwork hi
    refine ⟨wake :: replicate n work, s'', forall_mem_cons.mpr ⟨.inl rfl, hworks n⟩, ?_, hend⟩
    rw [run, hs']
    exact hrun
  · obtain ⟨n, s', hrun, hend⟩ := run_until μ hwork (hawake hidle)
    exact ⟨_, s', hworks n, hrun, hend⟩

theorem run_stops (μ : σ → ℕ) (hstep : ∀ s a s', I s → ok s a → step s a = some s' → I s' ∧ μ s' < μ s) :
    ∀ {s : σ}, I s → Meets step ok s as → μ s < as.length → run step s as = none := by
  induction as with
  | nil => exact fun _ _ hlt => absurd hlt (Nat.not_lt_zero _)
  | cons a as ih =>
    intro s hi hm hlt
    cases hs : step s a with
    | none => simp [run, hs]
    | some s' =>
      obtain ⟨hi', hμ⟩ := hstep s a s' hi hm.head hs
      simp only [run, hs]
      exact ih hi' (hm.tail hs) (Nat.lt_of_lt_of_le hμ (Nat.le_of_lt_succ hlt))

theorem run_stay (h : ∀ a ∈ as, step s a = some s) : run step s as = some s := by
  induction as with
  | nil => rfl
  | cons a as ih =>
    simp only [run, h a (mem_cons_self ..)]
    exact ih fun b hb => h b (mem_cons_of_mem a hb)

theorem meets_of_stops (hstuck : ∀ s a, ¬live s → step s a = some s) :
    ∀ {s : σ}, run step s as = none → Meets step (fun s _ => live s) s as := by
  induction as with
  | nil => exact nofun
  | cons a as ih =>
    intro s h
    have hlive : live s := by
      refine Classical.byContradiction fun hs => ?_
      rw [run_stay fun b _ => hstuck s b hs] at h
      cases h
    refine ⟨hlive, ?_⟩
    cases hs : step s a with
    | none => trivial
    | some s' => exact ih (by simpa [run, hs] using h)

end

end VendorKernel.Machine
