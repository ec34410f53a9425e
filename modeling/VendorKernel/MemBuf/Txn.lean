import Mathlib.Data.Int.Notation
import Mathlib.Data.List.Basic
import VendorKernel.Lib.Machine

/-! Transactions of mem-buf (`mem-buf-msgq.c`, `mem-buf-gh.c`): requests that wait for a response with their
id, the table that responses are looked up in, and the receive thread. -/
namespace VendorKernel.MemBuf

open Machine Function List Option Nat

def ETIMEDOUT : ℤ := 110

def EPERM : ℤ := 1

structure AllocResp where
  /-- Not in the source: its number among the allocation responses. -/
  serial : ℕ
  hdl : ℕ
  objId : ℕ
deriving DecidableEq

inductive CallPlace where
  | start
  | inited
  | waiting
  | removed (ret : ℤ)
  | returned (ret : ℤ)
deriving DecidableEq

structure Txn where
  place : CallPlace
  txnId : ℕ
  /-- `resp_buf` is the descriptor of an allocation; it is `NULL` for a relinquish request. -/
  alloc : Bool
  /-- Not in the source: a relinquish request gives back the handle of this response. -/
  gives : Option AllocResp
  txnRet : ℤ
  txnDone : Bool
  membuf : Option AllocResp
deriving DecidableEq

def Txn.destroyed (t : Txn) : Bool :=
  match t.place with
  | .returned _ => true
  | .start | .inited | .waiting | .removed _ => false

def Txn.Open (t : Txn) : Prop := t.place = .inited ∨ t.place = .waiting

/-- The call returns the response that it has: it is yet to return and will succeed, or has done so. -/
def Txn.Delivers (t : Txn) : Prop :=
  t.txnRet = 0 ∧ (t.txnDone = true ∧ t.Open ∨ t.place = .removed 0 ∨ t.place = .returned 0)

theorem Txn.Open.not_destroyed {t : Txn} (h : t.Open) : t.destroyed = false := by
  rcases h with h | h <;> simp [Txn.destroyed, h]

theorem Txn.Open.ne_start {t : Txn} (h : t.Open) : t.place ≠ .start := by
  rcases h with h | h <;> simp [h]

def Txn.Gives (t : Txn) (resp : AllocResp) : Prop := t.place = .inited ∧ t.gives = some resp

/-- Transactions are named by the calls they are made by. -/
structure Txns where
  consumer : Bool
  txnIdr : ℕ → Option ℕ
  txn : ℕ → Txn
  /-- Not in the source: the allocation responses so far, with their return values. -/
  received : List (ℤ × AllocResp)
  /-- Not in the source: the responses whose handles were given to `relinquish_memparcel_hdl`. -/
  relinquished : List AllocResp
  /-- Not in the source: those whose relinquish request has no transaction yet. -/
  owed : List AllocResp
  /-- Not in the source: those whose relinquish request was sent. -/
  sent : List AllocResp
  /-- Not in the source: a handler wrote to a transaction that was freed, or through `NULL`. -/
  fault : Bool

namespace Txns

def init (consumer : Bool) : Txns :=
  ⟨consumer, fun _ => none, fun _ => ⟨.start, 0, false, none, 0, false, none⟩, [], [], [], [], false⟩

def notOwed (s : Txns) : Option AllocResp → List AllocResp
  | none => s.owed
  | some resp => s.owed.erase resp

def setTxn (s : Txns) (c : ℕ) (t : Txn) : Txns := { s with txn := update s.txn c t }

/-- `mem_buf_alloc_resp_hdlr`; `none` if it writes through `NULL`. -/
def memBufAllocRespHdlr (consumer : Bool) (t : Txn) (ret : ℤ) (resp : AllocResp) : Option Txn :=
  if consumer = false then some { t with txnRet := -EPERM }
  else if ret < 0 then some { t with txnRet := ret }
  else if t.alloc = false then none
  else some { t with membuf := some resp, txnRet := ret }

def memBufProcessAllocResp (s : Txns) (id : ℕ) (ret : ℤ) (resp : AllocResp) : Txns :=
  match s.txnIdr id with
  | none =>
    if ret = 0 then { s with relinquished := s.relinquished ++ [resp], owed := s.owed ++ [resp] } else s
  | some c =>
    if (s.txn c).destroyed then { s with fault := true }
    else
      match memBufAllocRespHdlr s.consumer (s.txn c) ret resp with
      | none => { s with fault := true }
      | some t => s.setTxn c { t with txnDone := true }

def memBufProcessRelinquishResp (s : Txns) (id : ℕ) : Txns :=
  match s.txnIdr id with
  | none => s
  | some c =>
    if (s.txn c).destroyed then { s with fault := true } else s.setTxn c { s.txn c with txnDone := true }

def memBufTxnWait (s : Txns) (c : ℕ) (timedOut : Bool) : Txns :=
  let t := s.txn c
  let ret := if timedOut = true ∧ t.txnDone = false then -ETIMEDOUT else 0
  { s.setTxn c { t with place := .removed ret } with txnIdr := update s.txnIdr t.txnId none }

inductive TxnOp where
  /-- `mem_buf_init_txn`, with the id that `idr_alloc_cyclic` gives, for a request that may be the
  relinquish request for a response. -/
  | initTxn (c : ℕ) (alloc : Bool) (gives : Option AllocResp) (id : ℕ)
  | initFail (c : ℕ) (gives : Option AllocResp) (errno : ℕ)
  | constructFail (c : ℕ) (errno : ℕ)
  | send (c : ℕ) (errno : ℕ)
  | finishWait (c : ℕ) (timedOut : Bool)
  | destroyTxn (c : ℕ)
  | allocResp (id : ℕ) (ret : ℤ) (hdl objId : ℕ)
  | relinquishResp (id : ℕ)

open TxnOp

variable {resp : AllocResp} {t : Txn} {ret : ℤ}

def step (s : Txns) : TxnOp → Option Txns
  | initTxn c alloc gives id =>
    -- `mem_buf_alloc` is for consumers only
    if (s.txn c).place = .start ∧ s.txnIdr id = none ∧ (alloc = true → s.consumer = true) ∧
        ∀ resp ∈ gives, alloc = false ∧ resp ∈ s.owed then
      some { s.setTxn c ⟨.inited, id, alloc, gives, 0, false, none⟩ with
        txnIdr := update s.txnIdr id (some c), owed := s.notOwed gives }
    else none
  | initFail c gives errno =>
    if (s.txn c).place = .start ∧ ∀ resp ∈ gives, resp ∈ s.owed then
      some { s.setTxn c { s.txn c with place := .returned (-errno) } with owed := s.notOwed gives }
    else none
  | constructFail c errno =>
    if (s.txn c).place = .inited then some (s.setTxn c { s.txn c with place := .returned (-errno) }) else none
  | send c errno =>
    if (s.txn c).place = .inited then
      -- a relinquish request waits all the same
      some { s.setTxn c { s.txn c with
          place := if (s.txn c).alloc = true ∧ errno ≠ 0 then .returned (-errno) else .waiting } with
        sent := if errno = 0 then s.sent ++ (s.txn c).gives.toList else s.sent }
    else none
  | finishWait c timedOut =>
    if (s.txn c).place = .waiting ∧ (timedOut = false → (s.txn c).txnDone = true) then
      some (s.memBufTxnWait c timedOut)
    else none
  | destroyTxn c =>
    match (s.txn c).place with
    | .removed ret =>
      some (s.setTxn c { s.txn c with place := .returned (if ret ≠ 0 then ret else (s.txn c).txnRet) })
    | .start | .inited | .waiting | .returned _ => none
  | allocResp id ret hdl objId =>
    let resp : AllocResp := ⟨s.received.length, hdl, objId⟩
    some { s.memBufProcessAllocResp id ret resp with received := s.received ++ [(ret, resp)] }
  | relinquishResp id => some (s.memBufProcessRelinquishResp id)

def Receives (s : Txns) (c : ℕ) (resp : AllocResp) : Prop :=
  (s.txn c).membuf = some resp ∧ (s.txn c).Delivers

def Answered (txn : ℕ → Txn) (owed sent : List AllocResp) (resp : AllocResp) : Prop :=
  resp ∈ sent ∨ (∃ c, (txn c).Gives resp) ∨ resp ∈ owed

/-- No destroyed transaction is in the table or written to, and a successful response goes to one caller or is
relinquished. -/
structure Sound (s : Txns) : Prop where
  live : ∀ id, ∀ c ∈ s.txnIdr id, (s.txn c).destroyed = false
  no_fault : s.fault = false
  consumed : ∀ resp, (0, resp) ∈ s.received →
    Answered s.txn s.owed s.sent resp ∧ (∀ c, ¬s.Receives c resp) ∨ resp ∉ s.relinquished ∧ ∃! c, s.Receives c resp

def Supplied (s : Txns) (c : ℕ) : Prop := ∃ resp ∈ (s.txn c).membuf, (0, resp) ∈ s.received

instance (s : Txns) (c : ℕ) : Decidable (s.Supplied c) :=
  inferInstanceAs (Decidable (∃ resp ∈ (s.txn c).membuf, _))

/-- Messages can be made and sent, and an allocation response is for an allocation that has no handle yet. -/
def Regular (s : Txns) : TxnOp → Prop
  | initFail _ gives _ => gives = none
  | constructFail .. => False
  | send c errno => (s.txn c).alloc = true ∨ (s.txn c).gives ≠ none → errno = 0
  | allocResp id ret _ _ => ∀ c ∈ s.txnIdr id, ¬s.Supplied c ∧ (0 ≤ ret → (s.txn c).alloc = true)
  | _ => True

instance (s : Txns) (op : TxnOp) : Decidable (s.Regular op) := by
  cases op <;> unfold Txns.Regular <;> infer_instance

theorem Answered.update {txn : ℕ → Txn} {owed owed' sent sent' : List AllocResp} {c : ℕ}
    (h : Answered txn owed sent resp) (hsent : sent ⊆ sent')
    (hc : (txn c).Gives resp → t.Gives resp ∨ resp ∈ sent')
    (howed : resp ∈ owed → t.Gives resp ∨ resp ∈ owed') :
    Answered (update txn c t) owed' sent' resp := by
  have hself (ht : t.Gives resp) : ∃ d, (Function.update txn c t d).Gives resp := ⟨c, by simpa using ht⟩
  obtain hr | ⟨d, hd⟩ | hr := h
  · exact .inl (hsent hr)
  · by_cases hdc : d = c
    · subst hdc
      exact (hc hd).elim (fun ht => .inr (.inl (hself ht))) .inl
    · exact .inr (.inl ⟨d, by rwa [update_of_ne hdc]⟩)
  · exact .inr ((howed hr).imp_left hself)

theorem mem_notOwed {s : Txns} {gives : Option AllocResp} (hg : gives ≠ some resp) (h : resp ∈ s.owed) :
    resp ∈ s.notOwed gives := by
  cases gives with
  | none => exact h
  | some r =>
    have hne : resp ≠ r := fun heq => hg (congrArg some heq.symm)
    exact (mem_erase_of_ne hne).mpr h

theorem memBufAllocRespHdlr_neg (consumer : Bool) (t : Txn) (resp : AllocResp) (hret : ret < 0) :
    ∃ txnRet, memBufAllocRespHdlr consumer t ret resp = some { t with txnRet := txnRet } := by
  unfold memBufAllocRespHdlr
  by_cases hcons : consumer = false
  · exact ⟨_, if_pos hcons⟩
  · exact ⟨ret, by rw [if_neg hcons, if_pos hret]⟩

theorem memBufAllocRespHdlr_nonneg {consumer : Bool} (hcons : consumer = true) (hret : ¬ret < 0)
    (hac : t.alloc = true) :
    memBufAllocRespHdlr consumer t ret resp = some { t with membuf := some resp, txnRet := ret } := by
  simp [memBufAllocRespHdlr, hcons, hret, hac]

structure Tabled (idr : ℕ → Option ℕ) (txn : ℕ → Txn) : Prop where
  indexed : ∀ id, ∀ c ∈ idr id, (txn c).txnId = id ∧ (txn c).Open
  listed : ∀ c, (txn c).Open → idr (txn c).txnId = some c

namespace Tabled
variable {idr : ℕ → Option ℕ} {txn : ℕ → Txn} {c id : ℕ} {t : Txn}

section
variable (h : Tabled idr txn)
include h

theorem openTxn (hc : idr id = some c) : (txn c).Open := (h.indexed id c hc).2

theorem enter (hid : idr id = none) (hc : ¬(txn c).Open) (htid : t.txnId = id) (ht : t.Open) :
    Tabled (update idr id (some c)) (update txn c t) where
  indexed i d hd := by
    by_cases hi : i = id
    · obtain rfl : c = d := by simpa [hi] using hd
      simp [htid, ht, hi]
    · have hd : idr i = some d := by simpa [update_of_ne hi] using hd
      have hne : d ≠ c := fun hdc => hc (hdc ▸ h.openTxn hd)
      simpa [update_of_ne hne] using h.indexed i d hd
  listed := by
    refine (forall_update_iff txn fun d t => t.Open → update idr id (some c) t.txnId = some d).mpr
      ⟨fun _ => by rw [htid, update_self], fun d _ hd => ?_⟩
    have hl := h.listed d hd
    have hne : (txn d).txnId ≠ id := by
      intro heq
      simp [heq, hid] at hl
    rwa [update_of_ne hne]

theorem stay (hid : t.txnId = (txn c).txnId) (ht : t.Open ↔ (txn c).Open) : Tabled idr (update txn c t) where
  indexed i d hd := by
    have hi := h.indexed i d hd
    by_cases hdc : d = c
    · subst hdc
      simpa [hid, ht] using hi
    · rwa [update_of_ne hdc]
  listed := (forall_update_iff txn fun d t => t.Open → idr t.txnId = some d).mpr
    ⟨fun hopen => hid ▸ h.listed c (ht.mp hopen), fun d _ => h.listed d⟩

theorem leave (hc : (txn c).Open) (ht : ¬t.Open) : Tabled (update idr (txn c).txnId none) (update txn c t) where
  indexed i d hd := by
    have hne : i ≠ (txn c).txnId := by
      rintro rfl
      simp at hd
    have hi : idr i = some d := by simpa [update_of_ne hne] using hd
    have hdc : d ≠ c := by
      rintro rfl
      exact hne (h.indexed i d hi).1.symm
    simpa [update_of_ne hdc] using h.indexed i d hi
  listed := by
    refine (forall_update_iff txn fun d t => t.Open → update idr (txn c).txnId none t.txnId = some d).mpr
      ⟨fun hopen => absurd hopen ht, fun d hdc hd => ?_⟩
    have hl := h.listed d hd
    have hne : (txn d).txnId ≠ (txn c).txnId := by
      intro heq
      rw [heq, h.listed c hc] at hl
      exact hdc (some.inj hl).symm
    rwa [update_of_ne hne]

end

end Tabled

structure Placed (txn : ℕ → Txn) (received : List (ℤ × AllocResp)) (relinquished : List AllocResp) : Prop where
  fresh : ∀ c, (txn c).place = .start → (txn c).membuf = none
  numbered : ∀ r ∈ received, received[r.2.serial]? = some r
  came : ∀ c, ∀ resp ∈ (txn c).membuf, ∃ ret, (ret, resp) ∈ received
  single : ∀ c d, ∀ resp ∈ (txn c).membuf, resp ∈ (txn d).membuf → c = d
  delivers : ∀ c, ∀ resp ∈ (txn c).membuf, (0, resp) ∈ received → (txn c).Delivers
  given_back : ∀ resp ∈ relinquished, (0, resp) ∈ received ∧ ∀ c, resp ∉ (txn c).membuf
  accounted : ∀ resp, (0, resp) ∈ received → resp ∈ relinquished ∨ ∃ c, resp ∈ (txn c).membuf

namespace Placed
variable {txn : ℕ → Txn} {received : List (ℤ × AllocResp)} {relinquished : List AllocResp} {c : ℕ} {t : Txn} {ret : ℤ}
  {resp r : AllocResp}

section
variable (h : Placed txn received relinquished)
include h

theorem fresh_update (hpc : t.place ≠ .start) :
    ∀ d, (update txn c t d).place = .start → (update txn c t d).membuf = none :=
  (forall_update_iff txn fun _ t => t.place = .start → t.membuf = none).mpr
    ⟨fun hini => absurd hini hpc, fun d _ => h.fresh d⟩

theorem setTxn (hpc : t.place ≠ .start) (hm : t.membuf = (txn c).membuf)
    (hd : (∃ resp ∈ (txn c).membuf, (0, resp) ∈ received) → (txn c).Delivers → t.Delivers) :
    Placed (update txn c t) received relinquished := by
  have hmem : ∀ d, (update txn c t d).membuf = (txn d).membuf := by
    intro d
    by_cases hdc : d = c
    · simp [hdc, hm]
    · rw [update_of_ne hdc]
  refine
    { fresh := h.fresh_update hpc, numbered := h.numbered, came := ?_, single := ?_, delivers := ?_,
      given_back := ?_, accounted := ?_ }
  · simpa only [hmem] using h.came
  · simpa only [hmem] using h.single
  · intro d resp hresp hsucc
    rw [hmem] at hresp
    have hdel := h.delivers d resp hresp hsucc
    by_cases hdc : d = c
    · subst hdc
      simpa using hd ⟨resp, hresp, hsucc⟩ hdel
    · rwa [update_of_ne hdc]
  · simpa only [hmem] using h.given_back
  · simpa only [hmem] using h.accounted

theorem serial_lt (hr : (ret, resp) ∈ received) : resp.serial < received.length := by
  by_contra hlt
  have hnum := h.numbered _ hr
  simp [getElem?_eq_none (Nat.le_of_not_lt hlt)] at hnum

theorem numbered_snoc (hresp : resp.serial = received.length) :
    ∀ r ∈ received ++ [(ret, resp)], (received ++ [(ret, resp)])[r.2.serial]? = some r := by
  intro r hr
  rcases mem_append.mp hr with hr | hr
  · rw [getElem?_append_left (h.serial_lt hr)]
    exact h.numbered r hr
  · obtain rfl := mem_singleton.mp hr
    simp [hresp]

theorem not_held (hresp : resp.serial = received.length) : resp ∉ (txn c).membuf := by
  intro hc
  obtain ⟨r, hr⟩ := h.came c resp hc
  exact Nat.ne_of_lt (h.serial_lt hr) hresp

end

theorem snoc_iff : (0, r) ∈ received ++ [(ret, resp)] ↔ (0, r) ∈ received ∨ ret = 0 ∧ r = resp := by
  simp [eq_comm]

section
variable (h : Placed txn received relinquished)
include h

section
variable (hresp : resp.serial = received.length)
include hresp

theorem fail (hret : ret ≠ 0) : Placed txn (received ++ [(ret, resp)]) relinquished where
  fresh := h.fresh
  numbered := h.numbered_snoc hresp
  came c r hr := (h.came c r hr).imp fun _ => mem_append_left _
  single := h.single
  delivers c r hr hsucc := h.delivers c r hr ((snoc_iff.mp hsucc).resolve_right fun hr => hret hr.1)
  given_back r hr := ⟨mem_append_left _ (h.given_back r hr).1, (h.given_back r hr).2⟩
  accounted r hr := h.accounted r ((snoc_iff.mp hr).resolve_right fun hr => hret hr.1)

theorem giveBack : Placed txn (received ++ [(0, resp)]) (relinquished ++ [resp]) where
  fresh := h.fresh
  numbered := h.numbered_snoc hresp
  came c r hr := (h.came c r hr).imp fun _ => mem_append_left _
  single := h.single
  delivers c r hr hsucc := by
    rcases snoc_iff.mp hsucc with hsucc | ⟨-, rfl⟩
    · exact h.delivers c r hr hsucc
    · exact absurd hr (h.not_held hresp)
  given_back r hr := by
    rcases mem_append.mp hr with hr | hr
    · exact ⟨mem_append_left _ (h.given_back r hr).1, (h.given_back r hr).2⟩
    · obtain rfl := mem_singleton.mp hr
      exact ⟨by simp, fun c => h.not_held hresp⟩
  accounted r hr := by
    rcases snoc_iff.mp hr with hr | ⟨-, rfl⟩
    · exact (h.accounted r hr).imp_left (mem_append_left _)
    · simp

theorem supply (hc : ¬∃ r ∈ (txn c).membuf, (0, r) ∈ received) (ht : t.membuf = some resp)
    (hpc : t.place ≠ .start) (hdel : ret = 0 → t.Delivers) :
    Placed (update txn c t) (received ++ [(ret, resp)]) relinquished where
  fresh := h.fresh_update hpc
  numbered := h.numbered_snoc hresp
  came d r hr := by
    by_cases hdc : d = c
    · exact ⟨ret, by simp_all⟩
    · exact (h.came d r (by rwa [update_of_ne hdc] at hr)).imp fun _ => mem_append_left _
  single d e r hd he := by
    have hoth : ∀ i, i ≠ c → r ∈ (update txn c t i).membuf → r ≠ resp := by
      rintro i hi hr rfl
      rw [update_of_ne hi] at hr
      exact h.not_held hresp hr
    have hself : r ∈ (update txn c t c).membuf → r = resp := by simp [ht, eq_comm]
    by_cases hdc : d = c
    · by_cases hec : e = c
      · rw [hdc, hec]
      · subst hdc
        exact absurd (hself hd) (hoth e hec he)
    · by_cases hec : e = c
      · subst hec
        exact absurd (hself he) (hoth d hdc hd)
      · rw [update_of_ne hdc] at hd
        rw [update_of_ne hec] at he
        exact h.single d e r hd he
  delivers d r hr hsucc := by
    by_cases hdc : d = c
    · subst hdc
      obtain rfl : resp = r := by simpa [ht] using hr
      rcases snoc_iff.mp hsucc with hsucc | ⟨hret, -⟩
      · exact absurd hresp (Nat.ne_of_lt (h.serial_lt hsucc))
      · simpa using hdel hret
    · rw [update_of_ne hdc] at hr ⊢
      rcases snoc_iff.mp hsucc with hsucc | ⟨-, rfl⟩
      · exact h.delivers d r hr hsucc
      · exact absurd hr (h.not_held hresp)
  given_back r hr := by
    obtain ⟨hsucc, hoth⟩ := h.given_back r hr
    refine ⟨mem_append_left _ hsucc,
      (forall_update_iff txn fun _ t => r ∉ t.membuf).mpr ⟨fun hc => ?_, fun d _ => hoth d⟩⟩
    obtain rfl : resp = r := by simpa [ht] using hc
    exact Nat.ne_of_lt (h.serial_lt hsucc) hresp
  accounted r hr := by
    rcases snoc_iff.mp hr with hr | ⟨-, rfl⟩
    · refine (h.accounted r hr).imp_right ?_
      rintro ⟨d, hd⟩
      have hdc : d ≠ c := by
        rintro rfl
        exact hc ⟨r, hd, hr⟩
      exact ⟨d, by rwa [update_of_ne hdc]⟩
    · exact .inr ⟨c, by simp [ht]⟩

end

end

end Placed

structure Kept (s : Txns) : Prop where
  tabled : Tabled s.txnIdr s.txn
  capable : ∀ c, (s.txn c).alloc = true → s.consumer = true
  no_fault : s.fault = false
  placed : Placed s.txn s.received s.relinquished
  answers : ∀ resp ∈ s.relinquished, Answered s.txn s.owed s.sent resp

namespace Kept
variable {s s' : Txns} {c : ℕ} {t : Txn}

theorem init (consumer : Bool) : Kept (init consumer) where
  tabled := ⟨nofun, nofun⟩
  capable := nofun
  no_fault := rfl
  placed := ⟨fun _ _ => rfl, nofun, nofun, nofun, nofun, nofun, nofun⟩
  answers := nofun

section
variable (h : Kept s)
include h

variable {id errno : ℕ}

theorem capable_update (ht : t.alloc = true → s.consumer = true) (d : ℕ)
    (hd : (update s.txn c t d).alloc = true) : s.consumer = true := by
  exact (forall_update_iff s.txn fun _ t => t.alloc = true → s.consumer = true).mpr ⟨ht, fun d _ => h.capable d⟩ d hd

theorem setTxn (hid : t.txnId = (s.txn c).txnId) (hopen : t.Open ↔ (s.txn c).Open)
    (hac : t.alloc = (s.txn c).alloc) (hpc : t.place ≠ .start) (hm : t.membuf = (s.txn c).membuf)
    (hd : s.Supplied c → (s.txn c).Delivers → t.Delivers)
    (hgives : ∀ resp, (s.txn c).Gives resp → t.Gives resp) : Kept (s.setTxn c t) where
  tabled := h.tabled.stay hid hopen
  capable := h.capable_update (hac ▸ h.capable c)
  no_fault := h.no_fault
  placed := h.placed.setTxn hpc hm hd
  answers resp hresp := (h.answers resp hresp).update (fun _ => id) (fun hc => .inl (hgives resp hc)) .inr

theorem initTxn {alloc : Bool} {gives : Option AllocResp} (hini : (s.txn c).place = .start)
    (hid : s.txnIdr id = none) (hcons : alloc = true → s.consumer = true) :
    Kept { s.setTxn c ⟨.inited, id, alloc, gives, 0, false, none⟩ with
      txnIdr := update s.txnIdr id (some c), owed := s.notOwed gives } where
  tabled := h.tabled.enter hid (by simp [Txn.Open, hini]) rfl (.inl rfl)
  capable := h.capable_update hcons
  no_fault := h.no_fault
  placed := h.placed.setTxn nofun (h.placed.fresh c hini).symm fun ⟨_, hr, _⟩ => by
    simp [h.placed.fresh c hini] at hr
  answers resp hresp := by
    refine (h.answers resp hresp).update (fun _ hr => hr) (fun hc => ?_) fun how => ?_
    · exact absurd (hini.symm.trans hc.1) nofun
    · by_cases hg : gives = some resp
      · exact .inl ⟨rfl, hg⟩
      · exact .inr (mem_notOwed hg how)

theorem send (hinit : (s.txn c).place = .inited) (hreg : s.Regular (.send c errno)) :
    Kept { s.setTxn c { s.txn c with
        place := if (s.txn c).alloc = true ∧ errno ≠ 0 then .returned (-errno) else .waiting } with
      sent := if errno = 0 then s.sent ++ (s.txn c).gives.toList else s.sent } := by
  have hwait : ¬((s.txn c).alloc = true ∧ errno ≠ 0) := fun hfail => hfail.2 (hreg (.inl hfail.1))
  rw [if_neg hwait]
  refine ⟨h.tabled.stay rfl (by simp [Txn.Open, hinit]), h.capable_update (h.capable c), h.no_fault,
    h.placed.setTxn nofun rfl fun _ hdel => ?_, fun resp hresp => ?_⟩
  · obtain ⟨hret, ⟨hdone, -⟩ | hp | hp⟩ := hdel
    · exact ⟨hret, .inl ⟨hdone, .inr rfl⟩⟩
    · simp [hinit] at hp
    · simp [hinit] at hp
  · refine (h.answers resp hresp).update (fun r hr => ?_) (fun hc => .inr ?_) .inr
    · split
      · exact mem_append_left _ hr
      · exact hr
    · -- the message for this response has to go out
      have herr : errno = 0 := hreg (.inr (by simp [hc.2]))
      simp [herr, hc.2]

theorem memBufTxnWait {timedOut : Bool} (hwait : (s.txn c).place = .waiting) : Kept (s.memBufTxnWait c timedOut) where
  tabled := h.tabled.leave (.inr hwait) (by simp [Txn.Open])
  capable := h.capable_update (h.capable c)
  no_fault := h.no_fault
  placed := by
    refine h.placed.setTxn nofun rfl fun _ hdel => ?_
    obtain ⟨hret, ⟨hdone, -⟩ | hp | hp⟩ := hdel
    · exact ⟨hret, .inr (.inl (by simp [hdone]))⟩
    · simp [hwait] at hp
    · simp [hwait] at hp
  answers resp hresp := by
    refine (h.answers resp hresp).update (fun _ hr => hr) (fun hc => ?_) .inr
    exact absurd (hwait.symm.trans hc.1) nofun

theorem destroyTxn (hrem : (s.txn c).place = .removed ret) :
    Kept (s.setTxn c { s.txn c with place := .returned (if ret ≠ 0 then ret else (s.txn c).txnRet) }) := by
  refine h.setTxn rfl (by simp [Txn.Open, hrem]) rfl nofun rfl (fun _ hdel => ?_)
    fun _ hc => absurd (hrem.symm.trans hc.1) nofun
  obtain ⟨hret, ⟨-, hp⟩ | hp | hp⟩ := hdel
  · simp [Txn.Open, hrem] at hp
  · obtain rfl : ret = 0 := by simpa [hrem] using hp
    exact ⟨hret, .inr (.inr (by simp [hret]))⟩
  · simp [hrem] at hp

theorem memBufProcessRelinquishResp (id : ℕ) : Kept (s.memBufProcessRelinquishResp id) := by
  unfold Txns.memBufProcessRelinquishResp
  split
  · exact h
  · rename_i c hc
    have hopen := h.tabled.openTxn hc
    rw [if_neg (by simp [hopen.not_destroyed])]
    exact h.setTxn rfl .rfl rfl hopen.ne_start rfl (fun _ hdel => ⟨hdel.1, .inl ⟨rfl, hopen⟩⟩) fun _ hc => hc

/-- The handle goes to the caller, or is given back. -/
theorem allocResp (hresp : resp.serial = s.received.length)
    (hreg : ∀ c ∈ s.txnIdr id, ¬s.Supplied c ∧ (0 ≤ ret → (s.txn c).alloc = true)) :
    Kept { s.memBufProcessAllocResp id ret resp with received := s.received ++ [(ret, resp)] } := by
  unfold memBufProcessAllocResp
  split
  case h_1 hid =>
    -- nobody waits for it
    by_cases hret : ret = 0
    · subst hret
      refine ⟨h.tabled, h.capable, h.no_fault, h.placed.giveBack hresp, fun r hr => ?_⟩
      rcases mem_append.mp hr with hr | hr
      · exact (h.answers r hr).imp_right (.imp_right (mem_append_left _))
      · exact .inr (.inr (mem_append_right _ hr))
    · rw [if_neg hret]
      exact { h with placed := h.placed.fail hresp hret }
  case h_2 c hid =>
    have hopen := h.tabled.openTxn hid
    obtain ⟨hsup, hac⟩ := hreg c hid
    rw [if_neg (by simp [hopen.not_destroyed])]
    by_cases hret : ret < 0
    · obtain ⟨txnRet, hhdlr⟩ := memBufAllocRespHdlr_neg s.consumer (s.txn c) resp hret
      have hpl : Placed (update s.txn c { s.txn c with txnRet, txnDone := true }) s.received s.relinquished :=
        h.placed.setTxn hopen.ne_start rfl fun hc => absurd hc hsup
      rw [hhdlr]
      exact
        { tabled := h.tabled.stay rfl .rfl
          capable := h.capable_update (h.capable c)
          no_fault := h.no_fault
          placed := hpl.fail hresp (Int.ne_of_lt hret)
          answers := fun r hr => (h.answers r hr).update (fun _ hs => hs) .inl .inr }
    · have hac := hac (Int.not_lt.mp hret)
      rw [memBufAllocRespHdlr_nonneg (h.capable c hac) hret hac]
      exact
        { tabled := h.tabled.stay rfl .rfl
          capable := h.capable_update (h.capable c)
          no_fault := h.no_fault
          placed := h.placed.supply hresp hsup rfl hopen.ne_start fun hret => ⟨hret, .inl ⟨rfl, hopen⟩⟩
          answers := fun r hr => (h.answers r hr).update (fun _ hs => hs) .inl .inr }

/-- Regular steps keep every response in one place. -/
theorem step {op : TxnOp} (hreg : s.Regular op) (hs : s.step op = some s') : Kept s' := by
  cases op with
  | initTxn c alloc gives id =>
    obtain ⟨⟨hini, hid, hcons, -⟩, ⟨⟩⟩ := ite_none_right_eq_some.mp hs
    exact h.initTxn hini hid hcons
  | initFail c gives errno =>
    obtain ⟨⟨hini, -⟩, ⟨⟩⟩ := ite_none_right_eq_some.mp hs
    obtain rfl : gives = none := hreg
    refine h.setTxn rfl (by simp [Txn.Open, hini]) rfl nofun rfl (fun ⟨_, hr, _⟩ => ?_)
      fun _ hc => absurd (hini.symm.trans hc.1) nofun
    simp [h.placed.fresh c hini] at hr
  | constructFail c errno => exact hreg.elim
  | send c errno =>
    obtain ⟨hinit, ⟨⟩⟩ := ite_none_right_eq_some.mp hs
    exact h.send hinit hreg
  | finishWait c timedOut =>
    obtain ⟨⟨hwait, -⟩, ⟨⟩⟩ := ite_none_right_eq_some.mp hs
    exact h.memBufTxnWait hwait
  | destroyTxn c =>
    simp only [Txns.step] at hs
    split at hs
    case h_1 ret hrem =>
      cases hs
      exact h.destroyTxn hrem
    all_goals cases hs
  | allocResp id ret hdl objId =>
    cases hs
    exact h.allocResp rfl hreg
  | relinquishResp id =>
    cases hs
    exact h.memBufProcessRelinquishResp id

theorem sound : Sound s where
  live _ _ hc := (h.tabled.openTxn hc).not_destroyed
  no_fault := h.no_fault
  consumed resp hresp := by
    rcases h.placed.accounted resp hresp with hrel | ⟨c, hc⟩
    · exact .inl ⟨h.answers resp hrel, fun c hc => (h.placed.given_back resp hrel).2 c hc.1⟩
    · refine .inr ⟨fun hrel => (h.placed.given_back resp hrel).2 c hc, c,
        ⟨hc, h.placed.delivers c resp hc hresp⟩, ?_⟩
      intro d hd
      exact h.placed.single d c resp hd.1 hc

end

end Kept

/-- As long as messages can be made and sent and responses are for what was asked, no destroyed transaction
is in the table, and every successful response reaches one caller or is relinquished. -/
theorem run_sound {consumer : Bool} {s : Txns} {ops : List TxnOp} (hreg : Meets step Regular (init consumer) ops)
    (hrun : run step (init consumer) ops = some s) : Sound s :=
  (run_inv (fun _ _ _ h hok hs => h.step hok hs) (Kept.init consumer) hreg hrun).sound

/-- One response is taken, another comes between the timeout and the lock, a third after it; the last call
gives its handle back. -/
theorem run_sound_late_response :
    ∃ s, run step (init true)
      [initTxn 0 true none 5, send 0 0, allocResp 5 0 7 70, finishWait 0 false, destroyTxn 0,
        initTxn 1 true none 6, send 1 0, allocResp 6 0 8 80, finishWait 1 true, allocResp 6 0 9 90, destroyTxn 1,
        initTxn 2 false (some ⟨2, 9, 90⟩) 6, send 2 0, relinquishResp 6, finishWait 2 false, destroyTxn 2] = some s ∧
          Sound s := by
  have hrun : (run step (init true)
      [initTxn 0 true none 5, send 0 0, allocResp 5 0 7 70, finishWait 0 false, destroyTxn 0,
        initTxn 1 true none 6, send 1 0, allocResp 6 0 8 80, finishWait 1 true, allocResp 6 0 9 90, destroyTxn 1,
        initTxn 2 false (some ⟨2, 9, 90⟩) 6, send 2 0, relinquishResp 6, finishWait 2 false, destroyTxn 2]).map
      (fun s => s.sent) = some [⟨2, 9, 90⟩] := by decide
  obtain ⟨s, hs, -⟩ := map_eq_some_iff.mp hrun
  exact ⟨s, hs, run_sound (by decide) hs⟩

/-- An allocation request cannot be sent: its transaction is freed and stays in the table, and a response
with its id is written to it. -/
theorem send_failure_leaves_txn :
    ¬∀ s ∈ run step (init true) [initTxn 0 true none 5, send 0 11, allocResp 5 0 7 70], Sound s := by
  intro h
  have hrun : (run step (init true) [initTxn 0 true none 5, send 0 11, allocResp 5 0 7 70]).map
      (fun s => (s.txnIdr 5, (s.txn 0).destroyed)) = some (some 0, true) := by decide
  obtain ⟨s, hs, heq⟩ := map_eq_some_iff.mp hrun
  obtain ⟨hidr, hdest⟩ := Prod.mk.inj heq
  have hlive := (h s hs).live 5 0 hidr
  rw [hdest] at hlive
  exact Bool.noConfusion hlive

end Txns

end VendorKernel.MemBuf
