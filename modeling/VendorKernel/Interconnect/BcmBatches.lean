import Mathlib.Data.List.GetD
import VendorKernel.Interconnect.BcmVoter

/-! The batches of `tcs_list_gen`: read as `rpmh_write_batch` documents its counts, they deliver every
list that the arrays of `commit_rpmh` have room for. -/
namespace VendorKernel.Interconnect

open Rpmh List Function Nat

def MAX_BCMS : ℕ := 64

def batchesOf {α : Type*} : List ℕ → List α → List (List α)
  | [], _ => []
  | n :: counts, cmds => if n = 0 then [] else cmds.take n :: batchesOf counts (cmds.drop n)

section
variable {α β : Type*}

theorem batchesOf_map_length {bs : List (List β)} {k : ℕ} {cmds : List α} (hpos : ∀ b ∈ bs, b ≠ [])
    (hlen : cmds.length = bs.flatten.length) :
    (batchesOf (bs.map length ++ replicate k 0) cmds).flatten = cmds ∧
      (batchesOf (bs.map length ++ replicate k 0) cmds).map length = bs.map length := by
  induction bs generalizing cmds with
  | nil =>
    obtain rfl : cmds = [] := length_eq_zero_iff.mp (by simpa using hlen)
    cases k <;> simp [replicate_succ, batchesOf]
  | cons b bs ih =>
    have hb : b.length ≠ 0 := fun h => hpos b mem_cons_self (length_eq_zero_iff.mp h)
    rw [flatten_cons, length_append] at hlen
    have hrest : (cmds.drop b.length).length = bs.flatten.length := by
      rw [length_drop]
      omega
    obtain ⟨hflat, hmap⟩ := ih (fun b' hb' => hpos b' (mem_cons_of_mem b hb')) hrest
    simp only [map_cons, cons_append, batchesOf, hb, if_false, flatten_cons, hflat, hmap,
      take_append_drop, length_take, true_and]
    rw [min_eq_left (by omega)]

theorem length_le_of_isChain : ∀ {bs : List (List β)},
    (bs.IsChain fun b b' => MAX_RPMH_PAYLOAD ≤ b.length + b'.length) → 8 * bs.length ≤ bs.flatten.length + 8
  | [], _ => zero_le _
  | [_], _ => by simp
  | b :: b' :: bs, h => by
    obtain ⟨hpair, htail⟩ := isChain_cons_cons.mp h
    have ih := length_le_of_isChain htail.tail
    simp only [length_cons, flatten_cons, length_append, tail_cons, MAX_RPMH_PAYLOAD] at hpair ih ⊢
    omega

end

namespace ListGen

variable {gen : ListGen} {wait : Bool} {bucket : Bucket} {bcm : Bcm}
  {rest front run list : List Bcm} {closed : List (List Bcm)}

def Apart (list list' : List Bcm) : Prop := ∀ a ∈ list, ∀ b ∈ list', a.vcd ≠ b.vcd

theorem apart_append (list list' more : List Bcm) :
    Apart list (list' ++ more) ↔ Apart list list' ∧ Apart list more := by
  simp only [Apart, forall_mem_append, forall_and]

def counts (closed : List (List Bcm)) (i : ℕ) : ℕ := (closed.map length).getD i 0

theorem counts_concat (closed : List (List Bcm)) (b : List Bcm) :
    counts (closed ++ [b]) = update (counts closed) closed.length b.length := by
  funext i
  rw [counts, map_append, map_singleton, update_apply, counts]
  rcases Nat.lt_trichotomy i closed.length with hlt | rfl | hgt
  · rw [getD_append _ _ _ _ (by simpa using hlt), if_neg (Nat.ne_of_lt hlt)]
  · simp
  · rw [if_neg (Nat.ne_of_gt hgt), getD_eq_default _ _ (by simp; omega), getD_eq_default _ _ (by simp; omega)]

/-- The loop before `rest`: the closed batches, and the open one with the BCMs at its end whose VCD
goes on in `rest`. -/
structure Cut (gen : ListGen) (rest : List Bcm) (closed : List (List Bcm)) (front run : List Bcm) :
    Prop where
  batch : gen.batch = closed.length
  count : gen.n = counts (closed ++ [front ++ run])
  size : gen.curVcdSize = run.length
  pos : ∀ b ∈ closed, b ≠ []
  room : (front ++ run).length < MAX_RPMH_PAYLOAD
  chain : closed.IsChain fun b b' => MAX_RPMH_PAYLOAD ≤ b.length + b'.length
  last : ∀ b ∈ closed.getLast?, MAX_RPMH_PAYLOAD ≤ b.length + (if front = [] then run else front).length
  apart : closed.Pairwise Apart
  closed : ∀ b ∈ closed, Apart b (front ++ run ++ rest)
  front : Apart front (run ++ rest)
  run : ∀ a ∈ run, ∃ next ∈ rest.head?, a.vcd = next.vcd

theorem cut_start (list : List Bcm) : start.Cut list [] [] [] where
  batch := rfl
  count := by
    funext i
    cases i <;> rfl
  size := rfl
  pos := by simp
  room := by decide
  chain := by simp
  last := by simp
  apart := by simp
  closed := by simp
  front := by simp [Apart]
  run := by simp

/-- A round puts the BCM behind the open batch, and closes what is finished of it if it is full. -/
theorem Cut.advance (h : gen.Cut (bcm :: rest) closed front run) (commit : Bool) (front' run' : List Bcm)
    (hspl : front' ++ run' = front ++ run ++ [bcm]) (hsize : (if commit then 0 else run.length + 1) = run'.length)
    (hlast : (if front = [] then run else front).length ≤ (if front' = [] then run' else front').length)
    (hfro : Apart front' (run' ++ rest)) (hrun : ∀ a ∈ run', ∃ next ∈ rest.head?, a.vcd = next.vcd)
    (hroom : run'.length < MAX_RPMH_PAYLOAD) :
    ∃ closed' front'', (gen.next wait bucket bcm commit).Cut rest closed' front'' run' ∧
      closed'.flatten ++ front'' = closed.flatten ++ front' := by
  have hcnt : gen.n gen.batch = front.length + run.length := by
    rw [h.count, h.batch, counts_concat, update_self, length_append]
  have hlen : front'.length + run'.length = front.length + run.length + 1 := by
    rw [← length_append, hspl, length_append, length_append, length_singleton]
  have hcur : (gen.next wait bucket bcm commit).curVcdSize = run'.length := by
    rw [← hsize, ← h.size, ListGen.next]
    split_ifs <;> rfl
  have hall : ∀ b ∈ closed, Apart b (front' ++ (run' ++ rest)) := by
    intro b hb
    rw [← append_assoc, hspl, append_assoc]
    exact h.closed b hb
  rcases lt_or_ge (front.length + run.length + 1) MAX_RPMH_PAYLOAD with hlt | hfull
  · obtain ⟨hn, hba⟩ := next_of_lt wait bucket bcm commit (by omega : gen.n gen.batch + 1 < MAX_RPMH_PAYLOAD)
    refine ⟨closed, front', ⟨hba.trans h.batch, ?_, hcur, h.pos, ?_, h.chain,
      fun b hb => (h.last b hb).trans (Nat.add_le_add_left hlast _), h.apart, fun b hb => ?_, hfro, hrun⟩, rfl⟩
    · rw [hn, hcnt, h.batch, h.count, counts_concat, counts_concat, update_idem, length_append, hlen]
    · rwa [length_append, hlen]
    · rw [append_assoc]
      exact hall b hb
  · have hne : front' ≠ [] := by
      rintro rfl
      rw [length_nil] at hlen
      omega
    rw [if_neg hne] at hlast
    -- the counts are the same with and without a VCD that goes on
    have hnext : (gen.next wait bucket bcm commit).batch = closed.length + 1 ∧
        (gen.next wait bucket bcm commit).n = counts (closed ++ [front'] ++ [run']) := by
      rw [counts_concat, counts_concat, length_append, length_singleton]
      cases commit with
      | true =>
        obtain ⟨hn, hba⟩ := next_of_full wait bucket bcm (by omega : MAX_RPMH_PAYLOAD ≤ gen.n gen.batch + 1)
        rw [if_pos rfl] at hsize
        refine ⟨by rw [hba, h.batch], ?_⟩
        rw [hn, hcnt, h.batch, h.count, counts_concat, update_idem, ← hlen, ← hsize, Nat.add_zero, eq_comm,
          update_eq_self_iff, update_of_ne (by omega), counts, getD_eq_default _ _ (by simp)]
      | false =>
        obtain ⟨hn, hba⟩ := next_of_full_open wait bucket bcm (by omega : MAX_RPMH_PAYLOAD ≤ gen.n gen.batch + 1)
        rw [if_neg Bool.false_ne_true] at hsize
        refine ⟨by rw [hba, h.batch], ?_⟩
        rw [hn, hcnt, h.size, h.batch, h.count, counts_concat, update_idem, hsize,
          show front.length + run.length + 1 - run'.length = front'.length by omega]
    refine ⟨closed ++ [front'], [], ⟨by simpa using hnext.1, hnext.2, hcur, ?_, hroom, ?_, ?_, ?_, ?_, nofun, hrun⟩,
      by simp⟩
    · exact forall_mem_append.mpr ⟨h.pos, by simpa using hne⟩
    · refine isChain_append.mpr ⟨h.chain, isChain_singleton _, fun b hb c hc => ?_⟩
      obtain rfl : front' = c := by simpa using hc
      exact (h.last b hb).trans (Nat.add_le_add_left hlast _)
    · intro b hb
      obtain rfl : front' = b := by simpa using hb
      rw [if_pos rfl]
      omega
    · refine pairwise_append.mpr ⟨h.apart, pairwise_singleton _ _, fun b hb c hc => ?_⟩
      exact mem_singleton.mp hc ▸ ((apart_append _ _ _).mp (hall b hb)).1
    · exact forall_mem_append.mpr ⟨fun b hb => ((apart_append _ _ _).mp (hall b hb)).2, by simpa using hfro⟩

theorem isLast_eq_false (h : isLast bcm rest = false) : ∃ next ∈ rest.head?, bcm.vcd = next.vcd := by
  cases rest with
  | nil => cases h
  | cons next later => exact ⟨next, rfl, by simpa [isLast] using h⟩

/-- A BCM goes into the open batch, or begins one with its VCD. -/
theorem Cut.next (h : gen.Cut (bcm :: rest) closed front run)
    (hsrt : (bcm :: rest).Pairwise fun a b => a.vcd.toNat ≤ b.vcd.toNat)
    (hvcd : isLast bcm rest = false → run.length + 1 < MAX_RPMH_PAYLOAD) :
    ∃ closed' front' run', (gen.next wait bucket bcm (isLast bcm rest)).Cut rest closed' front' run' ∧
      closed'.flatten ++ front' ++ run' = closed.flatten ++ front ++ run ++ [bcm] := by
  have hsame : ∀ a ∈ run, a.vcd = bcm.vcd := by simpa using h.run
  cases hlast : isLast bcm rest with
  | true =>
    rw [isLast_eq hsrt, decide_eq_true_eq] at hlast
    have hdone : Apart (front ++ run ++ [bcm]) rest := by
      have hfro := (apart_append front (run ++ [bcm]) rest).mp (by simpa using h.front)
      simp only [Apart, append_assoc, forall_mem_append]
      refine ⟨hfro.2, fun a ha c hc => ?_, by simpa using fun c hc => (hlast c hc).symm⟩
      rw [hsame a ha]
      exact (hlast c hc).symm
    obtain ⟨closed', front', hcut, hflat⟩ := h.advance true _ [] (append_nil _) rfl (by
      rw [if_neg (concat_ne_nil _ _)]
      split_ifs
      · simp
        omega
      · simp) hdone nofun (by decide)
    exact ⟨closed', front', [], hcut, by simp [hflat]⟩
  | false =>
    obtain ⟨next, hnext, heq⟩ := isLast_eq_false hlast
    obtain ⟨closed', front', hcut, hflat⟩ := h.advance false front (run ++ [bcm]) (by simp) (by simp)
      (by split_ifs <;> simp) (by simpa using h.front) (forall_mem_append.mpr
        ⟨fun a ha => ⟨next, hnext, (hsame a ha).trans heq⟩, by simpa using ⟨next, hnext, heq⟩⟩)
      (by simpa using hvcd hlast)
    exact ⟨closed', front', _, hcut, by simp [hflat]⟩

/-- The loop cuts the list between VCDs. -/
theorem Cut.loop (wait : Bool) (bucket : Bucket) (h : gen.Cut rest closed front run)
    (hlist : closed.flatten ++ front ++ run ++ rest = list)
    (hsrt : list.Pairwise fun a b => a.vcd.toNat ≤ b.vcd.toNat)
    (hvcd : ∀ bcm ∈ list, list.countP (·.vcd = bcm.vcd) ≤ MAX_RPMH_PAYLOAD) :
    ∃ closed' front', (gen.loop wait bucket rest).Cut [] closed' front' [] ∧ closed'.flatten ++ front' = list := by
  induction rest generalizing gen closed front run with
  | nil =>
    obtain rfl : run = [] := eq_nil_iff_forall_not_mem.mpr fun a ha => by simpa using h.run a ha
    exact ⟨closed, front, h, by simpa using hlist⟩
  | cons bcm rest ih =>
    have hsub : (bcm :: rest).Sublist list := by
      rw [← hlist]
      exact sublist_append_right _ _
    have hlong : isLast bcm rest = false → run.length + 1 < MAX_RPMH_PAYLOAD := by
      intro hlast
      -- the BCMs of `run`, this one and the next are of one VCD
      obtain ⟨next, hnext, heq⟩ := isLast_eq_false hlast
      obtain ⟨later, rfl⟩ := head?_eq_some_iff.mp hnext
      have hrun : run.countP (·.vcd = bcm.vcd) = run.length := countP_eq_length.mpr (by simpa using h.run)
      have hcnt := hvcd bcm (hsub.subset mem_cons_self)
      rw [← hlist] at hcnt
      simp only [countP_append, hrun, countP_cons, heq.symm, decide_true, if_true] at hcnt
      omega
    obtain ⟨closed', front', run', hcut, hflat⟩ := h.next (hsrt.sublist hsub) hlong
    exact ih hcut (by rw [hflat, ← hlist]; simp)

end ListGen

theorem ListGen.map_counts {bs : List (List Bcm)} {k : ℕ} (h : bs.length ≤ k) :
    (range k).map (counts bs) = bs.map length ++ replicate (k - bs.length) 0 := by
  refine ext_getElem (by simp; omega) fun i hi _ => ?_
  rw [getElem_map, getElem_range, getElem_append, counts]
  split_ifs with hlt
  · exact getD_eq_getElem _ _ hlt
  · rw [getElem_replicate]
    exact getD_eq_default _ _ (Nat.le_of_not_lt hlt)

theorem ListGen.Cut.commitIdx_eq {gen : ListGen} {closed : List (List Bcm)} {front : List Bcm}
    (h : gen.Cut [] closed front []) (hmax : (closed.flatten ++ front).length ≤ MAX_BCMS) :
    ∃ (bs : List (List Bcm)) (k : ℕ), (∀ b ∈ bs, b ≠ []) ∧ bs.Pairwise Apart ∧
      bs.flatten = closed.flatten ++ front ∧ gen.commitIdx = bs.map length ++ replicate k 0 := by
  rw [MAX_BCMS, length_append] at hmax
  rw [ListGen.commitIdx, h.count, append_nil]
  by_cases hnil : front = []
  · have hfew := length_le_of_isChain h.chain
    rw [map_counts (by simp [MAX_VCD]; omega), hnil]
    exact ⟨closed, MAX_VCD + 1 - (closed ++ [[]]).length + 1, h.pos, h.apart, by simp, by simp [replicate_succ]⟩
  · have hlast := h.last
    rw [if_neg hnil] at hlast
    have hchain : (closed ++ [front]).IsChain fun b b' => MAX_RPMH_PAYLOAD ≤ b.length + b'.length := by
      refine isChain_append.mpr ⟨h.chain, isChain_singleton _, fun b hb b' hb' => ?_⟩
      obtain rfl : front = b' := by simpa using hb'
      exact hlast b hb
    have hfew := length_le_of_isChain hchain
    simp only [length_append, length_singleton, flatten_append, flatten_singleton] at hfew
    rw [map_counts (by simp [MAX_VCD]; omega)]
    refine ⟨closed ++ [front], _, forall_mem_append.mpr ⟨h.pos, by simpa using hnil⟩, pairwise_append.mpr ⟨h.apart,
      pairwise_singleton _ _, fun b hb c hc => ?_⟩, by simp, rfl⟩
    simpa [mem_singleton.mp hc] using h.closed b hb

/-- Read by its counts, the payload delivers the list. -/
theorem tcsListGen_delivers (wait : Bool) (bucket : Bucket) (list : List Bcm) (hmax : list.length ≤ MAX_BCMS)
    (hvcd : ∀ bcm ∈ list, list.countP (·.vcd = bcm.vcd) ≤ MAX_RPMH_PAYLOAD) :
    Delivers wait bucket list (batchesOf (tcsListGen wait bucket (sortVcd list)).commitIdx
      (tcsListGen wait bucket (sortVcd list)).tcsList) := by
  have hvcd' : ∀ bcm ∈ sortVcd list, (sortVcd list).countP (·.vcd = bcm.vcd) ≤ MAX_RPMH_PAYLOAD := by
    intro bcm hbcm
    rw [perm_sortVcd.countP_eq]
    exact hvcd bcm (perm_sortVcd.mem_iff.mp hbcm)
  have hini : [].flatten ++ [] ++ [] ++ sortVcd list = sortVcd list := rfl
  obtain ⟨closed, front, hcut, hflat⟩ :=
    ListGen.Cut.loop wait bucket (ListGen.cut_start (sortVcd list)) hini sorted_sortVcd hvcd'
  obtain ⟨bs, k, hpos, hap, hbs, hidx⟩ := hcut.commitIdx_eq (by rwa [hflat, length_sortVcd])
  rw [hflat] at hbs
  have hlen : (commands wait bucket (sortVcd list)).length = bs.flatten.length := by
    rw [length_commands, hbs]
  obtain ⟨hcmds, hlens⟩ := batchesOf_map_length hpos hlen
  rw [tcsListGen_tcsList sorted_sortVcd, tcsListGen, hidx]
  refine ⟨bs, ?_, ?_, hlens, ?_, hap⟩
  · rw [hbs]
    exact perm_sortVcd
  · rw [hbs]
    exact sorted_sortVcd
  · rw [hcmds, hbs]

/-- The seventeen BCMs of which `rpmh_write_batch` sends sixteen. -/
theorem tcsListGen_delivers_seventeen :
    ∃ requests, Delivers true .amc (BcmVoter.voterOf 16).commitList requests ∧ requests.length = 2 :=
  ⟨_, tcsListGen_delivers true .amc _ (by decide) (by decide), by decide +kernel⟩

end VendorKernel.Interconnect
