import Mathlib.Algebra.Order.Ring.Int
import Mathlib.Data.List.Dedup

/-! The statistics of SMP2P (`smp2p.c`): which values remote processors have sent, and how often. -/
namespace VendorKernel.Smp2p

open List Option UInt32

def OPLUS_SMP2P_STATE_MAX_SIZE : ℕ := 50

abbrev Observation := UInt32 × UInt32 × UInt32

structure OplusState where
  key : Observation
  count : UInt32

structure Statistics where
  switch : Bool
  states : List OplusState
  /-- Not in the source: what has been recorded since the last reset. -/
  recorded : List Observation

inductive StatisticsOp where
  | reset (switchState : ℤ)
  | update (localPid remotePid val : UInt32) (alloc : Bool)

/-- The loop of `update_oplus_smp2p_state`, if it returns: whether it has counted, and the list. -/
def search (key : Observation) (len : ℕ) : List OplusState → Option (Bool × List OplusState)
  | [] => none
  | state :: states =>
    if state.key = key then some (true, { state with count := state.count + 1 } :: states)
    else if OPLUS_SMP2P_STATE_MAX_SIZE ≤ len then some (false, state :: states)
    else (search key len states).map fun r => (r.1, state :: r.2)

namespace Statistics

def start : Statistics := ⟨false, [], []⟩

def step (s : Statistics) : StatisticsOp → Statistics
  | .reset switchState => ⟨0 < switchState, [], []⟩
  | .update localPid remotePid val alloc =>
    let key := (localPid, remotePid, (val >>> 16) &&& 0xFFFF)
    if s.switch = false then s
    else
      -- `len` starts with 0 and is not incremented
      match search key 0 s.states with
      | some (counted, states) =>
        { s with states := states, recorded := if counted then key :: s.recorded else s.recorded }
      | none =>
        if alloc then { s with states := s.states ++ [⟨key, 1⟩], recorded := key :: s.recorded } else s

structure Exact (s : Statistics) : Prop where
  bounded : s.states.length ≤ OPLUS_SMP2P_STATE_MAX_SIZE
  once : (s.states.map OplusState.key).Nodup
  count : ∀ state ∈ s.states, state.count.toNat = s.recorded.count state.key

structure Tallied (s : Statistics) : Prop where
  once : (s.states.map OplusState.key).Nodup
  mem : ∀ key, key ∈ s.states.map OplusState.key ↔ key ∈ s.recorded
  count : ∀ state ∈ s.states, state.count = .ofNat (s.recorded.count state.key)

def bump (key : Observation) (state : OplusState) : OplusState :=
  if state.key = key then { state with count := state.count + 1 } else state

theorem bump_key (key : Observation) (state : OplusState) : (bump key state).key = state.key := by
  unfold bump
  split <;> rfl

theorem search_eq {key : Observation} {states : List OplusState} (honce : (states.map OplusState.key).Nodup) :
    search key 0 states =
      if key ∈ states.map OplusState.key then some (true, states.map (bump key)) else none := by
  induction states with
  | nil => rfl
  | cons state states ih =>
    obtain ⟨hnew, honce⟩ := nodup_cons.mp honce
    by_cases hkey : state.key = key
    · have hrest : states.map (bump key) = states.map id := by
        refine map_congr_left fun old hold => if_neg fun heq => hnew ?_
        exact hkey ▸ heq ▸ mem_map_of_mem hold
      simp [search, hkey, hrest, bump]
    · by_cases hmem : key ∈ states.map OplusState.key <;>
        simp [search, hkey, ih honce, hmem, Ne.symm hkey, OPLUS_SMP2P_STATE_MAX_SIZE, bump]

/-- An update counts its triple, or appends it. -/
theorem Tallied.step {s : Statistics} (h : s.Tallied) (op : StatisticsOp) : (s.step op).Tallied := by
  fun_cases Statistics.step s op with
  | case1 => exact ⟨nodup_nil, by simp, by simp⟩
  | case2 => exact h
  | case3 localPid remotePid val alloc key hon counted states hsearch =>
    rw [search_eq h.once] at hsearch
    obtain ⟨hmem, heq⟩ := ite_none_right_eq_some.mp hsearch
    obtain ⟨rfl, rfl⟩ := Prod.mk.inj (some.inj heq)
    have hkeys : (s.states.map (bump key)).map OplusState.key = s.states.map OplusState.key := by
      simp [Function.comp_def, bump_key]
    refine ⟨hkeys ▸ h.once, fun k => ?_, forall_mem_map.mpr fun state hstate => ?_⟩
    · rw [hkeys, h.mem]
      exact ⟨mem_cons_of_mem _, (mem_cons.mp · |>.elim (· ▸ (h.mem _).mp hmem) id)⟩
    · rw [bump_key, bump, if_pos rfl]
      by_cases hkey : state.key = key
      · rw [if_pos hkey, hkey, count_cons_self, ofNat_add, ← hkey, ← h.count state hstate]
        rfl
      · rw [if_neg hkey, count_cons_of_ne (Ne.symm hkey), h.count state hstate]
  | case4 localPid remotePid val key hon hsearch =>
    have hnew : key ∉ s.states.map OplusState.key := by simpa [search_eq h.once] using hsearch
    refine ⟨?_, fun k => ?_, forall_mem_append.mpr ⟨fun state hstate => ?_, ?_⟩⟩
    · rw [map_append]
      exact h.once.append (nodup_singleton _) (by simpa using hnew)
    · simp [← h.mem, or_comm]
    · have hne : key ≠ state.key := fun heq => hnew (heq ▸ mem_map_of_mem hstate)
      rw [count_cons_of_ne hne, h.count state hstate]
    · simp [count_eq_zero_of_not_mem (mt (h.mem _).mpr hnew)]
  | case5 => exact h

/-- The list is what it should be as long as no more than fifty triples are recorded; nothing else bounds it. -/
theorem statistics_exact_iff (ops : List StatisticsOp) :
    (ops.foldl step start).Exact ↔
      (ops.foldl step start).recorded.dedup.length ≤ OPLUS_SMP2P_STATE_MAX_SIZE ∧
        ∀ key, (ops.foldl step start).recorded.count key < 2 ^ 32 := by
  have h : (ops.foldl step start).Tallied :=
    foldlRecOn ops step ⟨nodup_nil, by simp [start], by simp [start]⟩ fun s hs op _ => hs.step op
  generalize ops.foldl step start = s at h ⊢
  have hperm : s.states.map OplusState.key ~ s.recorded.dedup :=
    (perm_ext_iff_of_nodup h.once (nodup_dedup _)).mpr fun key => by rw [h.mem, mem_dedup]
  have hlen : s.states.length = s.recorded.dedup.length := by rw [← hperm.length_eq, length_map]
  constructor
  · rintro ⟨hbd, -, hcnt⟩
    refine ⟨hlen ▸ hbd, fun key => ?_⟩
    by_cases hkey : key ∈ s.recorded
    · obtain ⟨state, hstate, rfl⟩ := mem_map.mp ((h.mem key).mpr hkey)
      exact hcnt state hstate ▸ state.count.toNat_lt
    · rw [count_eq_zero_of_not_mem hkey]
      decide
  · rintro ⟨hbd, hcnt⟩
    refine ⟨hlen ▸ hbd, h.once, fun state hstate => ?_⟩
    rw [h.count state hstate, toNat_ofNat_of_lt' (hcnt state.key)]

/-- Fifty-one values of one remote processor. -/
theorem statistics_unbounded :
    (((range 51).map fun i => StatisticsOp.update 0 1 (.ofNat (i <<< 16)) true).foldl step
      (start.step (.reset 1))).states.length = 51 := by
  decide +kernel

end Statistics

end VendorKernel.Smp2p
