import Mathlib.Algebra.Order.Ring.Int
import VendorKernel.Lib.Machine

/-! A pending `qcom_glink_request_intent`: what arrives for it, and what it returns. -/
namespace VendorKernel.Glink

open Machine

def ETIMEDOUT : ℤ := 110

def ECANCELED : ℤ := 125

inductive RequestPlace where
  | waiting
  | woken
  | returned (ret : ℤ)
deriving DecidableEq

/-- The request has been sent; `granted` and `refused` are not in the source: such an answer has arrived. -/
structure IntentRequest where
  intentReqResult : ℤ
  intentReceived : Bool
  abortTx : Bool
  place : RequestPlace
  granted : Bool
  refused : Bool

inductive RequestOp where
  | handleIntentReqAck (granted : Bool)
  | handleIntent
  | handleRxDone (found reuse : Bool)
  | abort
  | wake
  | timeout
  | finish

namespace IntentRequest
variable {s s' : IntentRequest} {op : RequestOp}

def sent : IntentRequest := ⟨-1, false, false, .waiting, false, false⟩

def Answered (s : IntentRequest) : Prop := 0 ≤ s.intentReqResult ∧ s.intentReceived = true ∨ s.abortTx = true

instance (s : IntentRequest) : Decidable s.Answered := inferInstanceAs (Decidable (_ ∨ _))

/-- Once the call has returned, nothing is for it. The wait times out only if a last look finds no answer. -/
def step (s : IntentRequest) (op : RequestOp) : Option IntentRequest :=
  match s.place, op with
  | .returned _, _ => none
  | _, .handleIntentReqAck granted =>
    some { s with
      intentReqResult := if granted then 1 else 0
      granted := s.granted || granted
      refused := s.refused || !granted }
  | _, .handleIntent => some { s with intentReceived := true }
  | _, .handleRxDone found reuse => some { s with intentReceived := s.intentReceived || found && reuse }
  | _, .abort => some { s with abortTx := true }
  | .waiting, .wake => if s.Answered then some { s with place := .woken } else none
  | .waiting, .timeout => if s.Answered then none else some { s with place := .returned (-ETIMEDOUT) }
  | .woken, .finish => some { s with place := .returned (if s.intentReqResult ≠ 0 then 0 else -ECANCELED) }
  | _, _ => none

structure Told (s : IntentRequest) : Prop where
  result : s.intentReqResult = -1 ∧ s.granted = false ∧ s.refused = false ∨
    s.intentReqResult = 0 ∧ s.refused = true ∨ s.intentReqResult = 1 ∧ s.granted = true
  woken : s.place = .woken → s.Answered
  returned : ∀ ret, s.place = .returned ret → if s.Answered then
    ret = (if s.intentReqResult ≠ 0 then 0 else -ECANCELED) else ret = -ETIMEDOUT

theorem told_step (h : s.Told) (hs : s.step op = some s') : s'.Told := by
  obtain ⟨hresult, hwoken, hret⟩ := h
  revert hs
  fun_cases step s op <;> rintro ⟨⟩
  -- what arrives changes neither the place nor an answer back to none
  all_goals constructor <;> grind [Answered]

structure Outcome (s : IntentRequest) (ret : ℤ) : Prop where
  canceled : s.refused = true → ret = -ECANCELED
  ok : ret = 0 → s.granted = true ∧ s.intentReceived = true
  timedOut : ret = -ETIMEDOUT → s.granted = false ∧ s.refused = false ∨ s.intentReceived = false

end IntentRequest

end VendorKernel.Glink
