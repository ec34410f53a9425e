import VendorKernel.Glink.Transmit

/-! The receive loop of GLINK. Every command has its own rule for what it takes from the FIFO and whether it
reports an error. What the handlers find in the tables of channels and intents is an input of each iteration.
-/
namespace VendorKernel.Glink

open LittleEndian Machine RingBuffer List Holds

inductive Cmd where
  | version
  | versionAck
  | openCmd
  | close
  | openAck
  | intent
  | rxDone
  | rxIntentReq
  | rxIntentReqAck
  | txData
  | txDataZeroCopy
  | closeAck
  | txDataCont
  | readNotif
  | rxDoneWReuse
  | signals
deriving DecidableEq

def Cmd.all : List Cmd :=
  [.version, .versionAck, .openCmd, .close, .openAck, .intent, .rxDone, .rxIntentReq,
    .rxIntentReqAck, .txData, .txDataZeroCopy, .closeAck, .txDataCont, .readNotif, .rxDoneWReuse,
    .signals]

def Cmd.decode (n : ℕ) : Option Cmd := Cmd.all[n]?

structure Lookup where
  intentless : Bool
  lcids : ℕ → Bool
  rcids : ℕ → Bool
  liids : ℕ → ℕ → Bool

inductive RxRet where
  | ok
  | enxio
  | einval
  | eagain
  | enoent
deriving DecidableEq

/-- The local state of `qcom_glink_native_rx`, the FIFO and the commands left to the worker. -/
structure RxLoop where
  pipe : Pipe
  retry : ℕ
  rxQueue : List (List UInt8)

namespace RxLoop

def start (pipe : Pipe) : RxLoop := ⟨pipe, 0, []⟩

def rxAvail (s : RxLoop) : ℕ := glinkSmemRxAvail s.pipe

def avail (s : RxLoop) : ℕ := u32 s.rxAvail

def rxPeek (s : RxLoop) (count : ℕ) : ℕ → UInt8 := glinkSmemRxPeek s.pipe (fun _ => 0) 0 count

def rxAdvance (s : RxLoop) (count : ℕ) : RxLoop :=
  { s with pipe := glinkSmemRxAdvance s.pipe count }

def cmd (s : RxLoop) : ℕ := readLE (s.rxPeek 8) 0 2

def param1 (s : RxLoop) : ℕ := readLE (s.rxPeek 8) 2 2

def param2 (s : RxLoop) : ℕ := readLE (s.rxPeek 8) 4 4

def chunkSize (s : RxLoop) : ℕ := readLE (s.rxPeek 16) 8 4

def qcomGlinkRxDefer (s : RxLoop) (extra : ℕ) : RxLoop × RxRet :=
  let extra := align8 extra
  if s.rxAvail < 8 + extra then (s, .enxio)
  else
    let dcmd := slice (s.rxPeek (8 + extra)) 0 (8 + extra)
    ({ s with rxQueue := s.rxQueue ++ [dcmd] }.rxAdvance (8 + extra), .ok)

def qcomGlinkRxOpenAck (s : RxLoop) (env : Lookup) (lcid : ℕ) : RxLoop × RxRet :=
  let s := s.rxAdvance 8
  if env.lcids lcid then (s, .ok) else (s, .einval)

/-- What becomes of the payload does not change what is taken from the FIFO. -/
def qcomGlinkRxData (s : RxLoop) (env : Lookup) (avail : ℕ) : RxLoop × RxRet :=
  if avail < 16 then (s, .eagain)
  else if avail < 16 + s.chunkSize then (s, .eagain)
  else
    let ret := if env.rcids s.param1 = true ∧ env.intentless = false ∧
      env.liids s.param1 s.param2 = false then .enoent else .ok
    (s.rxAdvance (align8 (16 + s.chunkSize)), ret)

/-- All its errors after the first one are dropped. -/
def qcomGlinkRxDataZeroCopy (s : RxLoop) (avail : ℕ) : RxLoop × RxRet :=
  if avail < 24 then (s, .eagain) else (s.rxAdvance 24, .ok)

/-- Returns nothing, also when the message is not complete. -/
def qcomGlinkHandleIntent (s : RxLoop) (count avail : ℕ) : RxLoop :=
  let msglen := 8 + 8 * count
  if avail < msglen then s else s.rxAdvance (align8 msglen)

def dispatch (s : RxLoop) (env : Lookup) (avail : ℕ) : Cmd → RxLoop × RxRet
  | .version | .versionAck | .close | .closeAck | .rxIntentReq => s.qcomGlinkRxDefer 0
  | .openAck => s.qcomGlinkRxOpenAck env s.param1
  | .openCmd => s.qcomGlinkRxDefer s.param2
  | .txData | .txDataCont => s.qcomGlinkRxData env avail
  | .txDataZeroCopy => s.qcomGlinkRxDataZeroCopy avail
  | .intent => (s.qcomGlinkHandleIntent s.param2 avail, .ok)
  -- these take the header and report nothing, whatever they find
  | .readNotif | .rxDone | .rxDoneWReuse | .rxIntentReqAck | .signals => (s.rxAdvance 8, .ok)

/-- One iteration of the loop of `qcom_glink_native_rx`; `none` when it leaves the loop. -/
def iter (s : RxLoop) (env : Lookup) : Option RxLoop :=
  if s.avail < 8 then none
  else
    match Cmd.decode s.cmd with
    | some cmd =>
      let (s, ret) := s.dispatch env s.avail cmd
      if ret = .ok then some s else none
    | none =>
      let retry := s.retry + 1
      if retry < 5 then some { s with retry := retry } else none

def TruncatedIntent (s : RxLoop) : Prop :=
  8 ≤ s.avail ∧ Cmd.decode s.cmd = some .intent ∧ s.avail < 8 + 8 * s.param2

def PaddingReadable (s : RxLoop) : Prop :=
  (Cmd.decode s.cmd = some .txData ∨ Cmd.decode s.cmd = some .txDataCont) →
    16 + s.chunkSize ≤ s.rxAvail → align8 (16 + s.chunkSize) ≤ s.rxAvail

instance (s : RxLoop) : Decidable s.TruncatedIntent :=
  inferInstanceAs (Decidable (_ ∧ _ ∧ _))

instance (s : RxLoop) : Decidable s.PaddingReadable :=
  inferInstanceAs (Decidable (_ → _ → _))

/-- Head and tail are cells of a FIFO that 32-bit sums can address. -/
structure Inside (pipe : Pipe) : Prop where
  length_le : pipe.length ≤ 2 ^ 31
  head_lt : pipe.head < pipe.length
  tail_lt : pipe.tail < pipe.length

theorem Inside.advance {pipe : Pipe} (h : Inside pipe) {n : ℕ} (hn : n ≤ glinkSmemRxAvail pipe) :
    Inside (glinkSmemRxAdvance pipe n) ∧
      glinkSmemRxAvail (glinkSmemRxAdvance pipe n) = glinkSmemRxAvail pipe - n := by
  obtain ⟨q, hq⟩ := @of_cells _ _ _ _ pipe.fifo h.head_lt h.tail_lt
  rw [rxAvail_of_holds hq h.length_le] at hn ⊢
  have hnext := rxAdvance_holds hq h.length_le hn
  constructor
  · exact ⟨h.length_le, h.head_lt, hnext.tail_lt⟩
  · rw [@rxAvail_of_holds (glinkSmemRxAdvance pipe n) _ hnext h.length_le, length_drop]

theorem Inside.avail_lt {pipe : Pipe} (h : Inside pipe) : glinkSmemRxAvail pipe < 2 ^ 31 := by
  obtain ⟨q, hq⟩ := @of_cells _ _ _ _ pipe.fifo h.head_lt h.tail_lt
  have hroom := hq.room
  have hle := h.length_le
  rw [rxAvail_of_holds hq h.length_le]
  omega

structure Took (s s' : RxLoop) (n : ℕ) : Prop where
  pipe_eq : s'.pipe = glinkSmemRxAdvance s.pipe n
  retry_eq : s'.retry = s.retry
  header_le : 8 ≤ n
  le_avail : n ≤ s.rxAvail
  aligned : 8 ∣ n

theorem rxAdvance_took (s : RxLoop) {n : ℕ} (hmin : 8 ≤ n) (hn : n ≤ s.rxAvail)
    (hal : 8 ∣ n) : Took s (s.rxAdvance n) n := ⟨rfl, rfl, hmin, hn, hal⟩

section
variable {s s' : RxLoop} {env : Lookup}

theorem rxDefer_took {extra : ℕ} (h : s.qcomGlinkRxDefer extra = (s', .ok)) : ∃ n, Took s s' n := by
  simp only [qcomGlinkRxDefer] at h
  split_ifs at h with hav
  · cases h
  · obtain rfl := (Prod.mk.inj h).1
    exact ⟨_, rfl, rfl, by omega, by omega, Nat.dvd_add (dvd_refl 8) (dvd_align8 extra)⟩

theorem rxOpenAck_took (hav : 8 ≤ s.rxAvail) {lcid : ℕ}
    (h : s.qcomGlinkRxOpenAck env lcid = (s', .ok)) : ∃ n, Took s s' n := by
  unfold qcomGlinkRxOpenAck at h
  split_ifs at h
  · obtain rfl := (Prod.mk.inj h).1
    exact ⟨8, s.rxAdvance_took le_rfl hav (dvd_refl 8)⟩
  · cases h

theorem rxData_took (hpad : 16 + s.chunkSize ≤ s.rxAvail → align8 (16 + s.chunkSize) ≤ s.rxAvail)
    (h : s.qcomGlinkRxData env s.rxAvail = (s', .ok)) : ∃ n, Took s s' n := by
  have hle := le_align8 (16 + s.chunkSize)
  unfold qcomGlinkRxData at h
  by_cases hhdr : s.rxAvail < 16
  · simp [hhdr] at h
  by_cases hck2 : s.rxAvail < 16 + s.chunkSize
  · simp [hhdr, hck2] at h
  rw [if_neg hhdr, if_neg hck2] at h
  obtain rfl := (Prod.mk.inj h).1
  exact ⟨_, s.rxAdvance_took (by omega) (hpad (by omega)) (dvd_align8 _)⟩

theorem rxDataZeroCopy_took (h : s.qcomGlinkRxDataZeroCopy s.rxAvail = (s', .ok)) : ∃ n, Took s s' n := by
  unfold qcomGlinkRxDataZeroCopy at h
  split_ifs at h with hav
  · cases h
  · obtain rfl := (Prod.mk.inj h).1
    exact ⟨24, s.rxAdvance_took (by omega) (by omega) (by decide)⟩

theorem handleIntent_took {count : ℕ} (hcnt : 8 + 8 * count ≤ s.rxAvail) :
    ∃ n, Took s (s.qcomGlinkHandleIntent count s.rxAvail) n := by
  have hle := le_align8 (8 + 8 * count)
  have hali : align8 (8 + 8 * count) ≤ 8 + 8 * count := align8_le le_rfl (by omega)
  rw [qcomGlinkHandleIntent, if_neg (by omega)]
  exact ⟨_, s.rxAdvance_took (by omega) (by omega) (dvd_align8 _)⟩

/-- Every handler that reports no error has taken its message, but for a list of intents that is
not complete. -/
theorem dispatch_cases {cmd : Cmd} (hcmd : Cmd.decode s.cmd = some cmd)
    (hu32 : s.avail = s.rxAvail) (hav : 8 ≤ s.rxAvail) (hpad : s.PaddingReadable)
    (h : s.dispatch env s.rxAvail cmd = (s', .ok)) :
    s.TruncatedIntent ∧ s' = s ∨ ∃ n, Took s s' n := by
  cases cmd with
  | version | versionAck | close | closeAck | rxIntentReq | openCmd => exact .inr (rxDefer_took h)
  | openAck => exact .inr (rxOpenAck_took hav h)
  | txData => exact .inr (rxData_took (hpad (.inl hcmd)) h)
  | txDataCont => exact .inr (rxData_took (hpad (.inr hcmd)) h)
  | txDataZeroCopy => exact .inr (rxDataZeroCopy_took h)
  | intent =>
    obtain rfl := (Prod.mk.inj h).1
    by_cases hcnt : s.rxAvail < 8 + 8 * s.param2
    · left
      exact ⟨⟨by omega, hcmd, by omega⟩, if_pos hcnt⟩
    · exact .inr (handleIntent_took (by omega))
  | readNotif | rxDone | rxDoneWReuse | rxIntentReqAck | signals =>
    obtain rfl := (Prod.mk.inj h).1
    exact .inr ⟨8, s.rxAdvance_took le_rfl hav (dvd_refl 8)⟩

theorem Inside.avail_eq (h : Inside s.pipe) : s.avail = s.rxAvail := by
  apply u32_of_lt
  have := h.avail_lt
  change glinkSmemRxAvail s.pipe < _
  omega

/-- An iteration takes bytes, or retries, or stays at a truncated INTENT. -/
theorem iter_cases (hin : Inside s.pipe) (hpad : s.PaddingReadable) (h : s.iter env = some s') :
    (s.TruncatedIntent ∧ s' = s) ∨ (s.retry + 1 < 5 ∧ s' = { s with retry := s.retry + 1 }) ∨ ∃ n, Took s s' n := by
  have hu32 := hin.avail_eq
  simp only [iter, hu32] at h
  by_cases hav : s.rxAvail < 8
  · simp [hav] at h
  cases hcmd : Cmd.decode s.cmd with simp only [hcmd] at h
  | none =>
    split_ifs at h with hretry
    exact .inr (.inl ⟨hretry, (Option.some.inj h).symm⟩)
  | some cmd =>
    cases hd : s.dispatch env s.rxAvail cmd with | mk t ret
    simp only [hd] at h
    split_ifs at h with hret
    cases h
    obtain hstay | htook := dispatch_cases hcmd hu32 (by omega) hpad (hret ▸ hd)
    · exact .inl hstay
    · exact .inr (.inr htook)

def budget (s : RxLoop) : ℕ := s.rxAvail / 8 + (5 - s.retry)

theorem iter_budget (hin : Inside s.pipe) (hpad : s.PaddingReadable)
    (hint : ¬s.TruncatedIntent) (h : s.iter env = some s') :
    Inside s'.pipe ∧ s'.budget < s.budget := by
  obtain ⟨htrunc, -⟩ | ⟨hretry, rfl⟩ | ⟨n, htook⟩ := iter_cases hin hpad h
  · exact absurd htrunc hint
  · refine ⟨hin, ?_⟩
    simp only [budget, rxAvail]
    omega
  · obtain ⟨hin', hav'⟩ := hin.advance htook.le_avail
    rw [← htook.pipe_eq] at hin' hav'
    have hmin := htook.header_le
    have hmax := htook.le_avail
    simp only [budget, rxAvail, htook.retry_eq] at hmax ⊢
    exact ⟨hin', by omega⟩

theorem iter_of_truncated (h : s.TruncatedIntent) : s.iter env = some s := by
  obtain ⟨hav, hcmd, hcnt⟩ := h
  simp only [iter, if_neg (by omega : ¬s.avail < 8), hcmd, dispatch, qcomGlinkHandleIntent,
    if_pos hcnt, if_true]

end

structure Words (pipe : Pipe) : Prop extends Inside pipe where
  length_aligned : 8 ∣ pipe.length
  head_aligned : 8 ∣ pipe.head
  tail_aligned : 8 ∣ pipe.tail

theorem Words.paddingReadable {s : RxLoop} (h : Words s.pipe) : s.PaddingReadable := by
  intro _ hle
  obtain ⟨q, hq⟩ := @of_cells _ _ _ _ s.pipe.fifo h.head_lt h.tail_lt
  have hcs := hq.head_cases
  have hlth := h.length_aligned
  have hhead := h.head_aligned
  have htail := h.tail_aligned
  have hav : s.rxAvail = q.length := rxAvail_of_holds hq h.length_le
  apply align8_le hle
  omega

theorem Words.iter {s s' : RxLoop} {env : Lookup} (h : Words s.pipe) (hs : s.iter env = some s') : Words s'.pipe := by
  obtain ⟨-, rfl⟩ | ⟨-, rfl⟩ | ⟨n, htook⟩ := iter_cases h.toInside h.paddingReadable hs
  · exact h
  · exact h
  · have hle := htook.le_avail
    have hadvance := (h.toInside.advance hle).1
    rw [htook.pipe_eq]
    refine ⟨hadvance, h.length_aligned, h.head_aligned, ?_⟩
    obtain ⟨q, hq⟩ := @of_cells _ _ _ _ s.pipe.fifo h.head_lt h.tail_lt
    have hroom := hq.room
    have hav : s.rxAvail = q.length := rxAvail_of_holds hq h.length_le
    rw [rxAdvance_tail h.length_le h.tail_lt (by omega)]
    exact (Nat.dvd_mod_iff h.length_aligned).mpr (Nat.dvd_add h.tail_aligned htook.aligned)

theorem Words.meets {s : RxLoop} (h : Words s.pipe) (envs : List Lookup) :
    Meets RxLoop.iter (fun s _ => s.PaddingReadable) s envs := by
  have htrue : Meets RxLoop.iter (fun _ _ => True) s envs :=
    meets_of_forall (fun _ _ => trivial) envs s
  refine (meets_iff (I := fun s => Words s.pipe) ?_ ?_ h).mp htrue
  · exact fun s env hs => ⟨fun _ => hs.paddingReadable, fun _ => trivial⟩
  · exact fun s env s' hs _ hstep => hs.iter hstep

end RxLoop

open RxLoop in
/-- With head and tail inside the FIFO, and as long as the padding of each data command is readable, the loop
ends within one iteration per eight readable bytes and six more if and only if it does not meet a list of
intents that is not complete. -/
theorem glink_rx_loop_ends_iff (pipe : Pipe) (hin : Inside pipe) (envs : List Lookup)
    (hlong : glinkSmemRxAvail pipe / 8 + 6 ≤ envs.length)
    (hpad : Words pipe ∨ Meets iter (fun s _ => s.PaddingReadable) (start pipe) envs) :
    run iter (start pipe) envs = none ↔ Meets iter (fun s _ => ¬s.TruncatedIntent) (start pipe) envs := by
  have hpad : Meets iter (fun s _ => s.PaddingReadable) (start pipe) envs := by
    obtain hwords | hpad := hpad
    · exact hwords.meets envs
    · exact hpad
  constructor
  · apply meets_of_stops
    intro s env hs
    exact iter_of_truncated (not_not.mp hs)
  · intro hintent
    apply run_stops (I := fun s => Inside s.pipe) budget _ hin (hpad.and hintent)
    · change glinkSmemRxAvail pipe / 8 + 5 < _
      omega
    · intro s env s' hs hok h
      exact iter_budget hs hok.1 hok.2 h

def fifoOf (length head : ℕ) (bytes : List UInt8) : Pipe := ⟨length, head, 0, fun i => bytes.getD i 0⟩

def twoCommands : Pipe :=
  fifoOf 64 24 [0, 0, 1, 0, 0, 0, 0, 0, 5, 0, 7, 0, 1, 0, 0, 0, 0, 1, 0, 0, 2, 0, 0, 0]

def Lookup.empty : Lookup := ⟨false, fun _ => false, fun _ => false, fun _ _ => false⟩

/-- A VERSION command and a list of one intent, both complete. -/
theorem glink_rx_loop_ends_two : run RxLoop.iter (.start twoCommands) (List.replicate 9 .empty) = none :=
  (glink_rx_loop_ends_iff twoCommands ⟨by decide, by decide, by decide⟩ (replicate 9 .empty)
    (by decide) (.inl ⟨⟨by decide, by decide, by decide⟩, by decide, by decide, by decide⟩)).mpr
    (by decide)

/-- Three FIFOs in which the loop makes no progress: an INTENT command with only its header readable; a data
command of one byte at an odd readable length, whose padding takes the tail once around; a head one past the
last cell. -/
theorem glink_rx_loop_endless :
    (∀ envs, run RxLoop.iter (.start (fifoOf 64 8 [5, 0, 7, 0, 1, 0, 0, 0])) envs =
        some (.start (fifoOf 64 8 [5, 0, 7, 0, 1, 0, 0, 0]))) ∧
      (∀ n, run RxLoop.iter (.start (fifoOf 24 17 [9, 0, 7, 0, 0, 0, 0, 0, 1]))
          (List.replicate n .empty) = some (.start (fifoOf 24 17 [9, 0, 7, 0, 0, 0, 0, 0, 1]))) ∧
      (∀ envs, run RxLoop.iter (.start (fifoOf 8 8 [13])) envs = some (.start (fifoOf 8 8 [13]))) := by
  refine ⟨fun envs => ?_, fun n => ?_, fun envs => ?_⟩
  · exact run_stay fun env _ => RxLoop.iter_of_truncated (by decide)
  · apply run_stay
    intro env henv
    rw [eq_of_mem_replicate henv]
    rfl
  · exact run_stay fun env _ => rfl

end VendorKernel.Glink
