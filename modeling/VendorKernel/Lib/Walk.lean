import Mathlib.Data.Finset.Card

/-! A loop over a linked list that remembers the next entry before its body runs, so that the body may move
the entry to the tail. -/
namespace VendorKernel.Walk

open List Nat

variable {σ α : Type*}

/-- The body stops the loop, or tells whether it has moved the entry. -/
def walk (body : σ → α → Option (Bool × σ)) : ℕ → ℕ → List α → σ → List α × σ
  | 0, _, l, s => (l, s)
  | num + 1, i, l, s =>
    match l[i]? with
    | none => (l, s)
    | some c =>
      match body s c with
      | none => (l, s)
      | some (false, s) => walk body num (i + 1) l s
      | some (true, s) => if i + 1 < l.length then walk body num i (l.eraseIdx i ++ [c]) s else (l, s)

theorem walk_inv {body : σ → α → Option (Bool × σ)} {I : σ → Prop}
    (hbody : ∀ s c moved s', I s → body s c = some (moved, s') → I s') (num i : ℕ) (l : List α) (s : σ) (h : I s) :
    I (walk body num i l s).2 := by
  induction num generalizing i l s with
  | zero => exact h
  | succ num ih =>
    rw [walk]
    split
    · exact h
    · next c hc =>
      split
      · exact h
      · next s' hs => exact ih _ _ _ (hbody _ _ _ _ h hs)
      · next s' hs =>
        split
        · exact ih _ _ _ (hbody _ _ _ _ h hs)
        · exact hbody _ _ _ _ h hs

variable [DecidableEq α] (enter : α → Bool) (full : ℕ → Bool) (pick : α → Bool)

/-- A body that selects entries until their number is reached: the number is tested before each pick. -/
def select (s : Finset α × ℕ) (c : α) : Option (Bool × (Finset α × ℕ)) :=
  if enter c = false then some (false, s)
  else if full s.2 then none
  else if pick c = false then some (false, s)
  else some (true, (insert c s.1, s.2 + 1))

def picks (c : α) : Bool := enter c && pick c

omit [DecidableEq α] in
@[simp] theorem picks_true : (picks enter fun _ => true) = enter := funext fun _ => Bool.and_true _

variable {nr k : ℕ}

/-- The first `k` entries that can be picked are, and if these are all, they end up behind the others. -/
theorem walk_select_append (hfull : ∀ j ≤ k, full (nr + j) = true ↔ j = k) (kept todo moved : List α) (m : Finset α) :
    let picked := todo.filter (picks enter pick)
    let r := walk (select enter full pick) todo.length kept.length (kept ++ (todo ++ moved)) (m, nr)
    r.2 = (m ∪ (picked.take k).toFinset, nr + (picked.take k).length) ∧
      (picked.length ≤ k → r.1 = kept ++ (todo.filter (fun c => !picks enter pick c) ++ (moved ++ picked))) := by
  induction todo generalizing kept moved nr k m with
  | nil => simp [walk]
  | cons c todo ih =>
    have hskip := ih hfull (kept ++ [c]) moved m
    rw [length_cons, walk, cons_append, getElem?_append_right le_rfl, Nat.sub_self, getElem?_cons_zero]
    dsimp only [select]
    by_cases hen : enter c = false
    · have hc : picks enter pick c = false := by simp [picks, hen]
      simpa [hen, hc] using hskip
    rw [if_neg hen]
    cases k with
    | zero =>
      have hstop : full nr = true := (hfull 0 le_rfl).mpr rfl
      rw [if_pos hstop]
      refine ⟨by simp, fun hnone => ?_⟩
      rw [le_zero, length_eq_zero_iff] at hnone
      have hself : (c :: todo).filter (fun c => !picks enter pick c) = c :: todo :=
        filter_eq_self.mpr fun a ha => by simpa using filter_eq_nil_iff.mp hnone a ha
      rw [hnone, hself, append_nil]
      rfl
    | succ k =>
      have hmore : ¬full nr = true := mt (hfull 0 (zero_le _)).mp (succ_ne_zero k).symm
      rw [if_neg hmore]
      by_cases hpick : pick c = false
      · have hc : picks enter pick c = false := by simp [picks, hpick]
        simpa [hpick, hc] using hskip
      have hc : picks enter pick c = true := by simp_all [picks]
      rw [if_neg hpick]
      have hnext : ∀ j ≤ k, full (nr + 1 + j) = true ↔ j = k := by
        intro j hj
        rw [Nat.add_assoc, Nat.add_comm 1, hfull (j + 1) (by omega), Nat.add_left_inj]
      -- the entry behind the last one is the head of the list, and the loop ends also if the entry is moved
      by_cases hlast : todo ++ moved = []
      · obtain ⟨rfl, rfl⟩ := append_eq_nil_iff.mp hlast
        simp [hc]
      · have hpos := length_pos_iff.mpr hlast
        rw [length_append] at hpos
        simpa [if_pos (by omega : 1 < todo.length + (moved.length + 1)), hc, eraseIdx_append_of_length_le,
          Nat.add_right_comm nr 1, Nat.add_assoc] using ih hnext kept (moved ++ [c]) (insert c m)

/-- Entries that were picked before stand behind the others, and are picked again if the number is not reached;
they count, but add nothing. -/
theorem walk_select (hfull : ∀ j ≤ k, full (nr + j) = true ↔ j = k) (rest : List α) {done : List α}
    (hdone : ∀ c ∈ done, picks enter pick c = true) :
    let picked := rest.filter (picks enter pick)
    let r := walk (select enter full pick) (rest ++ done).length 0 (rest ++ done) (done.toFinset, nr)
    r.2 = ((done ++ picked.take k).toFinset, nr + min k (picked.length + done.length)) ∧
      (picked.length + done.length ≤ k →
        r = (rest.filter (fun c => !picks enter pick c) ++ (picked ++ done), (picked ++ done).toFinset,
          nr + (picked.length + done.length))) := by
  have hall : (rest ++ done).filter (picks enter pick) = rest.filter (picks enter pick) ++ done := by
    rw [filter_append, filter_eq_self.mpr hdone]
  have hnone : done.filter (fun c => !picks enter pick c) = [] :=
    filter_eq_nil_iff.mpr fun c hc => by simp [hdone c hc]
  obtain ⟨hsta, hkept⟩ := walk_select_append enter full pick hfull [] (rest ++ done) [] done.toFinset
  simp only [hall, length_nil, nil_append, append_nil, length_append, length_take, filter_append, hnone] at *
  have hset : done.toFinset ∪ ((rest.filter (picks enter pick) ++ done).take k).toFinset =
      (done ++ (rest.filter (picks enter pick)).take k).toFinset := by
    ext c
    have hsub : c ∈ done.take (k - (rest.filter (picks enter pick)).length) → c ∈ done := mem_of_mem_take
    simp only [take_append, Finset.mem_union, mem_toFinset, mem_append]
    tauto
  rw [hset] at hsta
  refine ⟨hsta, fun hle => Prod.ext (hkept hle) ?_⟩
  rw [hsta, take_of_length_le (by omega), min_eq_right hle, toFinset_append, toFinset_append,
    Finset.union_comm]

end VendorKernel.Walk
