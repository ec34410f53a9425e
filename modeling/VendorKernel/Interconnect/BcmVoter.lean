import Mathlib.Data.List.Sort
import VendorKernel.Interconnect.BcmAggregate
import VendorKernel.Rpmh.Cache

/-! The commit of a BCM voter (`bcm-voter.c`): the commands of the BCMs, the batches they are cut
into, and the requests that `rpmh_write_batch` makes of them. -/
namespace VendorKernel.Interconnect

open Rpmh List Function RpmhCtrlr Option Nat

def MAX_VCD : ℕ := 10

def BCM_TCS_CMD_VOTE_MASK : ℕ := 0x3fff

def BCM_TCS_CMD (commit valid : Bool) (voteX voteY : ℕ) : ℕ :=
  commit.toNat <<< 30 ||| valid.toNat <<< 29 ||| voteX <<< 14 ||| voteY

structure Bcm where
  addr : UInt32
  vcd : UInt8
  vote : Bucket → Vote

structure BcmVoter where
  commitList : List Bcm
  wsList : List Bcm
  tcsWait : Bucket → Bool
  hasAmc : Bool

def sortVcd (list : List Bcm) : List Bcm := list.insertionSort fun a b => a.vcd.toNat ≤ b.vcd.toNat

def tcsCmdGen (vote : Vote) (addr : UInt32) (commit wait : Bool) : TcsCmd :=
  { addr := addr
    data := UInt32.ofNat (BCM_TCS_CMD commit (vote.x ≠ 0 ∨ vote.y ≠ 0) (min vote.x BCM_TCS_CMD_VOTE_MASK)
      (min vote.y BCM_TCS_CMD_VOTE_MASK))
    wait := wait }

structure ListGen where
  tcsList : List TcsCmd
  n : ℕ → ℕ
  batch : ℕ
  curVcdSize : ℕ

namespace ListGen

def start : ListGen := { tcsList := [], n := fun _ => 0, batch := 0, curVcdSize := 0 }

def isLast (bcm : Bcm) (rest : List Bcm) : Bool :=
  match rest with
  | [] => true
  | next :: _ => bcm.vcd ≠ next.vcd

def next (gen : ListGen) (wait : Bool) (bucket : Bucket) (bcm : Bcm) (commit : Bool) : ListGen :=
  let curVcdSize := if commit then 0 else gen.curVcdSize + 1
  let cmd := tcsCmdGen (bcm.vote bucket) bcm.addr commit (commit && wait)
  let count := gen.n gen.batch + 1
  if MAX_RPMH_PAYLOAD ≤ count then
    { tcsList := gen.tcsList ++ [cmd]
      n := if commit then update gen.n gen.batch count
        else update (update gen.n gen.batch (count - curVcdSize)) (gen.batch + 1) curVcdSize
      batch := gen.batch + 1
      curVcdSize := curVcdSize }
  else
    { tcsList := gen.tcsList ++ [cmd]
      n := update gen.n gen.batch count
      batch := gen.batch
      curVcdSize := curVcdSize }

def loop (wait : Bool) (bucket : Bucket) : ListGen → List Bcm → ListGen
  | gen, [] => gen
  | gen, bcm :: rest => loop wait bucket (gen.next wait bucket bcm (isLast bcm rest)) rest

def commitIdx (gen : ListGen) : List ℕ := (range (MAX_VCD + 1)).map gen.n

end ListGen

def tcsListGen (wait : Bool) (bucket : Bucket) (list : List Bcm) : ListGen :=
  ListGen.start.loop wait bucket list

structure Commit where
  voter : BcmVoter
  rsc : RpmhCtrlr
  ret : ℤ
  /-- Not in the source: the requests that the RSC was given for each state. -/
  handed : RpmhState → List (List TcsCmd)

namespace BcmVoter

/-- `tcs_list_gen` and `rpmh_write_batch` for one bucket, with the requests that the RSC is given. -/
def writeBucket (voter : BcmVoter) (s : RpmhCtrlr) (state : RpmhState) (bucket : Bucket)
    (list : List Bcm) (idle : ℕ → Bool) : Option (RpmhCtrlr × ℤ × List (List TcsCmd)) :=
  let gen := tcsListGen (voter.tcsWait bucket) bucket list
  (s.rpmhWriteBatch state gen.tcsList gen.commitIdx idle).map fun (s', ret) =>
    (s', ret, if s.rpmhStandalone = false ∧ ret = 0 then [gen.tcsList.take (gen.n 0)] else [])

def wsCommit (voter : BcmVoter) : List Bcm :=
  voter.wsList.filter fun bcm =>
    voter.hasAmc = false ∨ (bcm.vote .wake).x ≠ (bcm.vote .sleep).x ∨ (bcm.vote .wake).y ≠ (bcm.vote .sleep).y

def commitWakeSleep (voter : BcmVoter) (s : RpmhCtrlr) (ret : ℤ) (active : List (List TcsCmd))
    (idle : ℕ → Bool) : Option Commit :=
  let s := s.rpmhInvalidate
  let list := sortVcd voter.wsCommit
  let voter' := { voter with commitList := list, wsList := voter.wsCommit }
  if list = [] then some ⟨voter', s, ret, update (fun _ => []) .activeOnly active⟩
  else
    match voter'.writeBucket s .wakeOnly .wake list idle with
    | none => none
    | some (s, ret, wake) =>
      if ret ≠ 0 then some ⟨voter', s, ret, fun
        | .activeOnly => active
        | .wakeOnly => wake
        | .sleep => []⟩
      else
        match voter'.writeBucket s .sleep .sleep list idle with
        | none => none
        | some (s, ret, sleep) => some ⟨voter', s, ret, fun
          | .activeOnly => active
          | .wakeOnly => wake
          | .sleep => sleep⟩

/-- `commit_rpmh`; `none` while an active request waits for a TCS. -/
def commitRpmh (voter : BcmVoter) (s : RpmhCtrlr) (idle : ℕ → Bool) : Option Commit :=
  if voter.hasAmc then
    let list := sortVcd voter.commitList
    let voter' := { voter with commitList := list }
    if (tcsListGen (voter.tcsWait .amc) .amc list).n 0 = 0 then some ⟨voter', s, 0, fun _ => []⟩
    else
      match voter'.writeBucket s .activeOnly .amc list idle with
      | none => none
      | some (s, ret, active) =>
        if ret ≠ 0 ∧ ret ≠ -EBUSY then some ⟨voter', s, ret, update (fun _ => []) .activeOnly active⟩
        else voter'.commitWakeSleep s ret active idle
  else voter.commitWakeSleep s 0 [] idle

end BcmVoter

def commands (wait : Bool) (bucket : Bucket) : List Bcm → List TcsCmd
  | [] => []
  | bcm :: rest =>
    let commit := decide (∀ later ∈ rest, later.vcd ≠ bcm.vcd)
    tcsCmdGen (bcm.vote bucket) bcm.addr commit (commit && wait) :: commands wait bucket rest

/-- A command for every BCM in the order of the VCDs, with commit on the last one of each, and no VCD in two requests.
-/
def Delivers (wait : Bool) (bucket : Bucket) (list : List Bcm) (requests : List (List TcsCmd)) : Prop :=
  ∃ batches : List (List Bcm), batches.flatten.Perm list ∧
    (batches.flatten.Pairwise fun a b => a.vcd.toNat ≤ b.vcd.toNat) ∧
    requests.map length = batches.map length ∧
    requests.flatten = commands wait bucket batches.flatten ∧
    batches.Pairwise fun batch batch' => ∀ a ∈ batch, ∀ b ∈ batch', a.vcd ≠ b.vcd

section
variable {wait : Bool} {bucket : Bucket} {list : List Bcm}

@[simp] theorem length_commands : (commands wait bucket list).length = list.length := by
  induction list with
  | nil => rfl
  | cons bcm rest ih => simp [commands, ih]

instance : Std.Total fun a b : Bcm => a.vcd.toNat ≤ b.vcd.toNat := ⟨fun _ _ => le_total _ _⟩

instance : IsTrans Bcm fun a b => a.vcd.toNat ≤ b.vcd.toNat := ⟨fun _ _ _ => le_trans⟩

theorem perm_sortVcd : (sortVcd list).Perm list := perm_insertionSort _ list

theorem sorted_sortVcd : (sortVcd list).Pairwise fun a b => a.vcd.toNat ≤ b.vcd.toNat :=
  pairwise_insertionSort _ list

@[simp] theorem length_sortVcd : (sortVcd list).length = list.length := perm_sortVcd.length_eq

/-- In a sorted list the next BCM tells the last of a VCD. -/
theorem isLast_eq {bcm : Bcm} (h : (bcm :: list).Pairwise fun a b => a.vcd.toNat ≤ b.vcd.toNat) :
    ListGen.isLast bcm list = decide (∀ later ∈ list, later.vcd ≠ bcm.vcd) := by
  cases list with
  | nil => rfl
  | cons next rest =>
    obtain ⟨hbcm, hnext⟩ := pairwise_cons.mp h
    obtain ⟨hrest, -⟩ := pairwise_cons.mp hnext
    simp only [ListGen.isLast, decide_eq_decide]
    constructor
    · intro hne later hlater heq
      have hle : bcm.vcd.toNat ≤ next.vcd.toNat := hbcm next mem_cons_self
      rcases mem_cons.mp hlater with rfl | hmem
      · exact hne heq.symm
      · have hge := hrest later hmem
        rw [heq] at hge
        exact hne (UInt8.toNat.inj (le_antisymm hle hge))
    · exact fun hall => (hall next mem_cons_self).symm

namespace ListGen

variable {gen : ListGen} {bcm : Bcm}

@[simp] theorem next_tcsList (commit : Bool) : (gen.next wait bucket bcm commit).tcsList =
    gen.tcsList ++ [tcsCmdGen (bcm.vote bucket) bcm.addr commit (commit && wait)] := by
  unfold next
  by_cases hfull : MAX_RPMH_PAYLOAD ≤ gen.n gen.batch + 1 <;> simp [hfull]

section
variable (wait : Bool) (bucket : Bucket) (bcm : Bcm)

theorem next_of_lt (commit : Bool) (h : gen.n gen.batch + 1 < MAX_RPMH_PAYLOAD) :
    (gen.next wait bucket bcm commit).n = update gen.n gen.batch (gen.n gen.batch + 1) ∧
      (gen.next wait bucket bcm commit).batch = gen.batch := by
  unfold next
  simp [not_le.mpr h]

theorem next_of_full (h : MAX_RPMH_PAYLOAD ≤ gen.n gen.batch + 1) :
    (gen.next wait bucket bcm true).n = update gen.n gen.batch (gen.n gen.batch + 1) ∧
      (gen.next wait bucket bcm true).batch = gen.batch + 1 := by
  unfold next
  simp [h]

theorem next_of_full_open (h : MAX_RPMH_PAYLOAD ≤ gen.n gen.batch + 1) :
    (gen.next wait bucket bcm false).n =
        update (update gen.n gen.batch (gen.n gen.batch + 1 - (gen.curVcdSize + 1)))
          (gen.batch + 1) (gen.curVcdSize + 1) ∧
      (gen.next wait bucket bcm false).batch = gen.batch + 1 := by
  unfold next
  simp [h]

end

theorem loop_tcsList (gen : ListGen) (h : list.Pairwise fun a b => a.vcd.toNat ≤ b.vcd.toNat) :
    (gen.loop wait bucket list).tcsList = gen.tcsList ++ commands wait bucket list := by
  induction list generalizing gen with
  | nil => simp [loop, commands]
  | cons bcm rest ih =>
    rw [loop, ih _ (pairwise_cons.mp h).2, isLast_eq h, commands]
    simp

def FirstFits (gen : ListGen) : Prop :=
  gen.n 0 ≤ MAX_RPMH_PAYLOAD ∧ (gen.batch = 0 → gen.n 0 < MAX_RPMH_PAYLOAD)

theorem FirstFits.next (h : gen.FirstFits) (bcm : Bcm) (commit : Bool) :
    (gen.next wait bucket bcm commit).FirstFits := by
  obtain ⟨hle, hopen⟩ := h
  rcases lt_or_ge (gen.n gen.batch + 1) MAX_RPMH_PAYLOAD with hlt | hfull
  · obtain ⟨hn, hba⟩ := next_of_lt wait bucket bcm commit hlt
    rw [FirstFits, hn, hba]
    by_cases hzero : gen.batch = 0
    · rw [hzero] at hlt ⊢
      simp only [update_self]
      omega
    · rw [update_of_ne (Ne.symm hzero)]
      exact ⟨hle, hopen⟩
  · have hcnt : ∀ k, update gen.n gen.batch (gen.n gen.batch + 1 - k) 0 ≤ MAX_RPMH_PAYLOAD := by
      intro k
      by_cases hzero : gen.batch = 0
      · rw [hzero, update_self]
        omega
      · rw [update_of_ne (Ne.symm hzero)]
        exact hle
    cases commit with
    | true =>
      obtain ⟨hn, hba⟩ := next_of_full wait bucket bcm hfull
      rw [FirstFits, hn, hba]
      exact ⟨hcnt 0, fun h => absurd h (succ_ne_zero _)⟩
    | false =>
      obtain ⟨hn, hba⟩ := next_of_full_open wait bucket bcm hfull
      rw [FirstFits, hn, hba]
      exact ⟨hcnt (gen.curVcdSize + 1), fun h => absurd h (succ_ne_zero _)⟩

theorem FirstFits.loop (h : gen.FirstFits) : (gen.loop wait bucket list).FirstFits := by
  induction list generalizing gen with
  | nil => exact h
  | cons bcm rest ih => exact ih (h.next bcm _)

theorem loop_n_zero (hba : gen.batch = 0) (hlen : gen.n 0 + list.length ≤ MAX_RPMH_PAYLOAD) :
    (gen.loop wait bucket list).n 0 = gen.n 0 + list.length := by
  induction list generalizing gen with
  | nil => rfl
  | cons bcm rest ih =>
    rw [length_cons] at hlen ⊢
    rcases lt_or_ge (gen.n gen.batch + 1) MAX_RPMH_PAYLOAD with hlt | hfull
    · obtain ⟨hn, hnext⟩ := next_of_lt wait bucket bcm (isLast bcm rest) hlt
      have hone : (gen.next wait bucket bcm (isLast bcm rest)).n 0 = gen.n 0 + 1 := by
        rw [hn, hba, update_self]
      rw [loop, ih (hnext.trans hba) (by omega)]
      omega
    · -- the batch is full, so this was the last BCM
      rw [hba] at hfull
      obtain rfl : rest = [] := length_eq_zero_iff.mp (by omega)
      rw [← hba] at hfull
      obtain ⟨hn, -⟩ := next_of_full wait bucket bcm hfull
      rw [loop, loop, isLast, hn, hba]
      rfl

end ListGen

theorem tcsListGen_tcsList (h : list.Pairwise fun a b => a.vcd.toNat ≤ b.vcd.toNat) :
    (tcsListGen wait bucket list).tcsList = commands wait bucket list :=
  ListGen.loop_tcsList ListGen.start h

theorem tcsListGen_n_zero_le (wait : Bool) (bucket : Bucket) (list : List Bcm) :
    (tcsListGen wait bucket list).n 0 ≤ MAX_RPMH_PAYLOAD :=
  (ListGen.FirstFits.loop ⟨zero_le _, fun _ => by decide⟩).1

theorem tcsListGen_n_zero (h : list.length ≤ MAX_RPMH_PAYLOAD) : (tcsListGen wait bucket list).n 0 = list.length := by
  have hini : ListGen.start.n 0 = 0 := rfl
  rw [tcsListGen, ListGen.loop_n_zero rfl (by omega), hini, zero_add]

theorem Delivers.length_eq {requests : List (List TcsCmd)} (h : Delivers wait bucket list requests) :
    requests.flatten.length = list.length := by
  obtain ⟨batches, hperm, -, -, hflat, -⟩ := h
  rw [hflat, length_commands, hperm.length_eq]

/-- One request delivers only a list that fits in it. -/
theorem delivers_first_batch : Delivers wait bucket list
      [(tcsListGen wait bucket (sortVcd list)).tcsList.take ((tcsListGen wait bucket (sortVcd list)).n 0)] ↔
    list.length ≤ MAX_RPMH_PAYLOAD := by
  rw [tcsListGen_tcsList sorted_sortVcd]
  constructor
  · intro hdlv
    have hlen := hdlv.length_eq
    have hfst := tcsListGen_n_zero_le wait bucket (sortVcd list)
    simp only [flatten_cons, flatten_nil, append_nil, length_take] at hlen
    omega
  · intro hle
    have hall : (commands wait bucket (sortVcd list)).take ((tcsListGen wait bucket (sortVcd list)).n 0) =
        commands wait bucket (sortVcd list) := by
      rw [tcsListGen_n_zero (by rwa [length_sortVcd])]
      exact take_of_length_le (by simp)
    rw [hall]
    refine ⟨[sortVcd list], ?_, ?_, ?_, ?_, pairwise_singleton _ _⟩
    · simpa using perm_sortVcd
    · simpa using sorted_sortVcd
    · simp
    · simp

theorem delivers_nil : Delivers wait bucket list [] ↔ list = [] := by
  constructor
  · rintro ⟨batches, hperm, -, hlen, -, -⟩
    obtain rfl : batches = [] := by simpa using hlen.symm
    exact (nil_perm.mp hperm)
  · rintro rfl
    exact ⟨[], List.Perm.refl _, List.Pairwise.nil, rfl, rfl, List.Pairwise.nil⟩

end

namespace BcmVoter

variable {voter : BcmVoter} {s s' : RpmhCtrlr} {idle : ℕ → Bool} {ret : ℤ} {list : List Bcm} {bucket : Bucket}
  {requests active : List (List TcsCmd)}

def Accepts (s : RpmhCtrlr) : Prop := s.inSolverMode = false ∧ s.rpmhRscGetChannel ≠ none

def firstRequest (voter : BcmVoter) (bucket : Bucket) (list : List Bcm) : List TcsCmd :=
  let gen := tcsListGen (voter.tcsWait bucket) bucket list
  gen.tcsList.take (gen.n 0)

theorem headD_commitIdx (gen : ListGen) : gen.commitIdx.headD 0 = gen.n 0 := rfl

theorem writeBucket_cached {state : RpmhState} (hrsc : s.rpmhStandalone = false)
    (hsta : state ≠ .activeOnly)
    (h : voter.writeBucket s state bucket list idle = some (s', 0, requests)) :
    requests = [voter.firstRequest bucket list] ∧
      s'.batchCache = update s.batchCache state (voter.firstRequest bucket list) ∧
      s'.rpmhStandalone = false := by
  obtain ⟨⟨t, ret⟩, hwr, heq⟩ := map_eq_some_iff.mp h
  obtain ⟨rfl, rfl, rfl⟩ := heq
  have hcheck : s.checkCtrlrState state = false := by simp [checkCtrlrState, hsta]
  simp only [rpmhWriteBatch, hrsc, hcheck, hsta, Bool.false_eq_true, if_false,
    some.injEq, Prod.mk.injEq, headD_commitIdx] at hwr
  obtain ⟨rfl, hret⟩ := hwr
  by_cases hfill : fillRpmhMsgFails ((tcsListGen (voter.tcsWait bucket) bucket list).n 0) = true
  · simp only [hfill, if_true] at hret
    exact absurd hret (by decide)
  · simp [hfill, hrsc, firstRequest]

theorem rpmhRscSendData_cases {msg : TcsRequest} {ch : ℕ}
    (h : s.rpmhRscSendData msg ch idle = some (s', ret)) :
    s'.rpmhStandalone = s.rpmhStandalone ∧
      (s.inSolverMode = false ∧ ret = 0 ∨ s.inSolverMode = true ∧ ret = -EBUSY) := by
  revert h
  fun_cases RpmhCtrlr.rpmhRscSendData s msg ch idle with
  | case1 hslv =>
    rintro ⟨⟩
    exact ⟨rfl, .inr ⟨hslv, rfl⟩⟩
  | case2 => exact nofun
  | case3 hslv =>
    rintro ⟨⟩
    exact ⟨rfl, .inl ⟨Bool.eq_false_iff.mpr hslv, rfl⟩⟩

theorem rpmhWriteBatch_active {cmd : List TcsCmd} {n : List ℕ} (hrsc : s.rpmhStandalone = false)
    (hn : fillRpmhMsgFails (n.headD 0) = false)
    (h : s.rpmhWriteBatch .activeOnly cmd n idle = some (s', ret)) :
    s'.rpmhStandalone = s.rpmhStandalone ∧
      ((Accepts s ∧ ret = 0 ∧
          ∃ ch, s.rpmhRscSendData ⟨.activeOnly, true, cmd.take (n.headD 0)⟩ ch idle = some (s', 0)) ∨
        (¬Accepts s ∧ ret = -EBUSY)) := by
  simp only [rpmhWriteBatch, hrsc, hn, Bool.false_eq_true, if_false, if_true] at h
  by_cases hcheck : s.checkCtrlrState .activeOnly = true
  · simp only [hcheck, if_true] at h
    cases h
    refine ⟨rfl, .inr ⟨fun hacc => ?_, rfl⟩⟩
    simp [checkCtrlrState, hacc.1] at hcheck
  · simp only [hcheck, Bool.false_eq_true, if_false, sendActive] at h
    split at h
    · next hch =>
      cases h
      exact ⟨rfl, .inr ⟨fun hacc => hacc.2 hch, rfl⟩⟩
    · next ch hch =>
      obtain ⟨hsame, ⟨hmode, rfl⟩ | ⟨hmode, hret⟩⟩ := rpmhRscSendData_cases h
      · exact ⟨hsame, .inl ⟨⟨hmode, by simp [hch]⟩, rfl, ch, h⟩⟩
      · exact ⟨hsame, .inr ⟨fun hacc => by simp [hacc.1] at hmode, hret⟩⟩

theorem writeBucket_active (hrsc : s.rpmhStandalone = false)
    (hn : (tcsListGen (voter.tcsWait bucket) bucket list).n 0 ≠ 0)
    (h : voter.writeBucket s .activeOnly bucket list idle = some (s', ret, requests)) :
    s'.rpmhStandalone = s.rpmhStandalone ∧
      ((Accepts s ∧ ret = 0 ∧ requests = [voter.firstRequest bucket list] ∧
          ∃ ch, s.rpmhRscSendData ⟨.activeOnly, true, voter.firstRequest bucket list⟩ ch idle = some (s', 0)) ∨
        (¬Accepts s ∧ ret = -EBUSY ∧ requests = [])) := by
  obtain ⟨⟨t, code⟩, hwr, heq⟩ := map_eq_some_iff.mp h
  obtain ⟨rfl, rfl, rfl⟩ := heq
  have hfill : fillRpmhMsgFails ((tcsListGen (voter.tcsWait bucket) bucket list).commitIdx.headD 0) = false := by
    have hle := tcsListGen_n_zero_le (voter.tcsWait bucket) bucket list
    rw [headD_commitIdx]
    exact decide_eq_false (by omega)
  obtain ⟨hsame, ⟨hacc, rfl, hsend⟩ | ⟨hbusy, rfl⟩⟩ := rpmhWriteBatch_active hrsc hfill hwr
  · refine ⟨hsame, .inl ⟨hacc, rfl, ?_, hsend⟩⟩
    simp [hrsc, firstRequest]
  · refine ⟨hsame, .inr ⟨hbusy, rfl, ?_⟩⟩
    simp [EBUSY]

def Delivered (voter : BcmVoter) (commit : Commit) : Prop :=
  (voter.hasAmc = true → Delivers (voter.tcsWait .amc) .amc voter.commitList (commit.handed .activeOnly)) ∧
  (voter.hasAmc = false ∨ voter.commitList ≠ [] →
    Delivers (voter.tcsWait .wake) .wake voter.wsCommit (commit.handed .wakeOnly) ∧
      Delivers (voter.tcsWait .sleep) .sleep voter.wsCommit (commit.handed .sleep))

/-- Each list that is sent is one batch, and the RSC takes active requests. -/
def OneBatch (voter : BcmVoter) (s : RpmhCtrlr) : Prop :=
  (voter.hasAmc = true → voter.commitList.length ≤ MAX_RPMH_PAYLOAD ∧ (voter.commitList ≠ [] → Accepts s)) ∧
  (voter.hasAmc = false ∨ voter.commitList ≠ [] → voter.wsCommit.length ≤ MAX_RPMH_PAYLOAD)

def Kept (s : RpmhCtrlr) (idle : ℕ → Bool) (commit : Commit) : Prop :=
  (∀ request ∈ commit.handed .activeOnly,
    ∃ ch s', s.rpmhRscSendData ⟨.activeOnly, true, request⟩ ch idle = some (s', 0)) ∧
  ∀ state, state ≠ .activeOnly → ∀ request ∈ commit.handed state, commit.rsc.batchCache state = request

/-- The wake and sleep votes are cached if one request holds them. -/
theorem commitWakeSleep_delivers {commit : Commit} (hrsc : s.rpmhStandalone = false)
    (h : voter.commitWakeSleep s ret active idle = some commit) (hret : commit.ret = 0) :
    commit.handed .activeOnly = active ∧
    (Delivers (voter.tcsWait .wake) .wake voter.wsCommit (commit.handed .wakeOnly) ∧
        Delivers (voter.tcsWait .sleep) .sleep voter.wsCommit (commit.handed .sleep) ↔
      voter.wsCommit.length ≤ MAX_RPMH_PAYLOAD) ∧
    ∀ state, state ≠ .activeOnly → ∀ request ∈ commit.handed state, commit.rsc.batchCache state = request := by
  have hinv : s.rpmhInvalidate.rpmhStandalone = false := by simp [rpmhInvalidate, hrsc]
  revert h
  fun_cases commitWakeSleep voter s ret active idle with
  | case1 _ list _ hnil =>
    rintro ⟨⟩
    have hemp : voter.wsCommit = [] := perm_nil.mp (hnil ▸ perm_sortVcd.symm)
    refine ⟨by simp, by simp [delivers_nil, hemp], fun state hsta request hmem => ?_⟩
    simp [hsta] at hmem
  | case2 | case4 => exact nofun
  | case3 _ _ _ _ _ _ _ _ hfail =>
    rintro ⟨⟩
    exact absurd hret hfail
  | case5 _ _ _ _ s₁ ret₁ wake hwake hok s₂ ret₂ sleep hsle =>
    rintro ⟨⟩
    obtain rfl : ret₁ = 0 := not_not.mp hok
    obtain rfl : ret₂ = 0 := hret
    obtain ⟨rfl, hcache₁, hrsc₁⟩ := writeBucket_cached hinv (by decide) hwake
    obtain ⟨rfl, hcache₂, -⟩ := writeBucket_cached hrsc₁ (by decide) hsle
    refine ⟨rfl, (and_congr delivers_first_batch delivers_first_batch).trans and_self_iff, ?_⟩
    intro state hsta request hmem
    cases state with
    | activeOnly => exact absurd rfl hsta
    | wakeOnly | sleep =>
      rw [mem_singleton.mp hmem]
      simp [hcache₂, hcache₁]

/-- A commit that succeeds delivers its lists exactly if each of them is one batch. -/
theorem commit_rpmh_delivers (voter : BcmVoter) (s : RpmhCtrlr) (idle : ℕ → Bool) (commit : Commit)
    (h : voter.commitRpmh s idle = some commit) (hret : commit.ret = 0) (hrsc : s.rpmhStandalone = false) :
    (voter.Delivered commit ↔ voter.OneBatch s) ∧ Kept s idle commit := by
  unfold commitRpmh at h
  cases hamc : voter.hasAmc with
  | false =>
    simp only [hamc, Bool.false_eq_true, if_false] at h
    obtain ⟨hact, hws, hkept⟩ := commitWakeSleep_delivers hrsc h hret
    refine ⟨?_, by simp [hact], hkept⟩
    simpa [Delivered, OneBatch, hamc] using hws
  | true =>
    rw [if_pos hamc] at h
    by_cases hn : (tcsListGen (voter.tcsWait .amc) .amc (sortVcd voter.commitList)).n 0 = 0
    · simp only [hn, if_true] at h
      cases h
      refine ⟨?_, by simp [Kept]⟩
      -- nothing is sent: the list is empty, or its first VCD alone is too long for a request
      have hemp : voter.commitList = [] ↔ voter.commitList.length ≤ MAX_RPMH_PAYLOAD := by
        refine ⟨fun hnil => by simp [hnil], fun hle => ?_⟩
        rw [tcsListGen_n_zero (by rwa [length_sortVcd]), length_sortVcd] at hn
        exact length_eq_zero_iff.mp hn
      simp only [Delivered, OneBatch, hamc, delivers_nil, ← hemp]
      tauto
    · simp only [hn, if_false] at h
      have hne : voter.commitList ≠ [] := by
        intro hnil
        rw [hnil] at hn
        exact hn rfl
      split at h
      · cases h
      next s₁ ret₁ active hwr =>
      obtain ⟨hsame, hact⟩ := writeBucket_active hrsc hn hwr
      have hcode : ¬(ret₁ ≠ 0 ∧ ret₁ ≠ -EBUSY) := by
        rcases hact with ⟨-, rfl, -⟩ | ⟨-, rfl, -⟩ <;> simp
      rw [if_neg hcode] at h
      obtain ⟨rfl, hws, hkept⟩ := commitWakeSleep_delivers (hsame.trans hrsc) h hret
      rcases hact with ⟨hacc, -, hfst, ch, hsend⟩ | ⟨hbusy, -, hnone⟩
      · refine ⟨?_, ?_, hkept⟩
        · simp only [Delivered, OneBatch, hamc, hne, ne_eq, not_false_eq_true, or_true, true_implies, hacc,
            and_true]
          refine and_congr ?_ hws
          rw [hfst]
          exact delivers_first_batch
        · intro request hmem
          rw [hfst] at hmem
          rw [mem_singleton.mp hmem]
          exact ⟨ch, s₁, hsend⟩
      · refine ⟨iff_of_false ?_ ?_, by simp [hnone], hkept⟩
        · rintro ⟨hdlv, -⟩
          have hnil := hdlv hamc
          rw [hnone, delivers_nil] at hnil
          exact hne hnil
        · exact fun hone => hbusy ((hone.1 hamc).2 hne)

def bcmOf (addr : UInt32) (vcd : UInt8) : Bcm :=
  { addr := addr, vcd := vcd, vote := fun
      | .sleep => ⟨0, 0⟩
      | _ => ⟨1, 1⟩ }

/-- `qcom_icc_bcm_voter_add` has put the BCMs on both lists. -/
def voterOf (count : ℕ) : BcmVoter :=
  let bcms := bcmOf 0x50000 1 :: (range count).map fun i => bcmOf (UInt32.ofNat (0x50004 + 4 * i)) 0
  { commitList := bcms, wsList := bcms, tcsWait := fun bucket => bucket = .amc, hasAmc := true }

def rsc : RpmhCtrlr := .start false false false false 1 (fun _ _ => 2) 16 0

/-- Three BCMs in two VCDs. -/
theorem commit_rpmh_delivers_three :
    ∃ commit, (voterOf 2).commitRpmh rsc (fun _ => true) = some commit ∧ commit.ret = 0 ∧
      (voterOf 2).Delivered commit := by
  have hrun : ((voterOf 2).commitRpmh rsc fun _ => true).map (·.ret) = some 0 := by decide
  obtain ⟨commit, hcm, hret⟩ := map_eq_some_iff.mp hrun
  refine ⟨commit, hcm, hret, ?_⟩
  refine (commit_rpmh_delivers _ _ _ commit hcm hret rfl).1.mpr ⟨fun _ => ⟨by decide, fun _ => ?_⟩, fun _ => ?_⟩
  · exact ⟨rfl, by decide⟩
  · decide

/-- Seventeen BCMs in two VCDs: the commit succeeds, and the RSC gets sixteen commands. -/
theorem commit_rpmh_drops_batch :
    (voterOf 16).commitList.length ≤ 64 ∧
      (∀ bcm ∈ (voterOf 16).commitList, (voterOf 16).commitList.countP (·.vcd = bcm.vcd) ≤ MAX_RPMH_PAYLOAD) ∧
      ∃ commit, (voterOf 16).commitRpmh rsc (fun _ => true) = some commit ∧ commit.ret = 0 ∧
        ¬(voterOf 16).Delivered commit := by
  have hrun : ((voterOf 16).commitRpmh rsc fun _ => true).map
      (fun commit => (commit.ret, (commit.handed .activeOnly).flatten.length)) = some (0, 16) := by
    decide +kernel
  obtain ⟨commit, hcm, heq⟩ := map_eq_some_iff.mp hrun
  obtain ⟨hret, hlen⟩ := Prod.mk.inj heq
  refine ⟨by decide, by decide, commit, hcm, hret, fun hdlv => ?_⟩
  have hall := (hdlv.1 rfl).length_eq
  rw [hlen] at hall
  exact absurd hall (by decide)

end BcmVoter

end VendorKernel.Interconnect
