import Mathlib.Data.List.Basic

/-! Packets sent as frames over a byte stream and cut out of it again. -/
namespace VendorKernel.Framing

open List

variable {π α : Type*} {data frame : π → List α}

/-- Of the packets `sent` and the one being sent, `done` were handed on as `posted`; what is `received` of the next,
`queued` and `unsent` are the frames of the others. -/
structure InTransit (data frame : π → List α) (posted : List (List α))
    (sent current done rest : List π) (received queued unsent : List α) : Prop where
  posted_eq : posted = done.map data
  packets : sent ++ current = done ++ rest
  bytes : received ++ queued ++ unsent = (rest.map frame).flatten

namespace InTransit

variable {posted : List (List α)} {sent current done rest tail rest' : List π} {p p' : π}
  {received queued unsent chunk pub : List α} {n : ℕ}

theorem begin (h : InTransit data frame posted sent [] done rest received queued []) (p : π) :
    InTransit data frame posted sent [p] done (rest ++ [p]) received queued (frame p) := by
  refine ⟨h.posted_eq, ?_, ?_⟩
  · rw [← append_assoc, ← h.packets, append_nil]
  · rw [map_append, flatten_append, ← h.bytes]
    simp

theorem publish
    (h : InTransit data frame posted sent current done rest received queued (chunk ++ unsent)) :
    InTransit data frame posted sent current done rest received (queued ++ chunk) unsent := by
  refine ⟨h.posted_eq, h.packets, ?_⟩
  rw [← h.bytes]
  simp

theorem finish (h : InTransit data frame posted sent [p] done rest received queued []) :
    InTransit data frame posted (sent ++ [p]) [] done rest received queued [] :=
  ⟨h.posted_eq, (append_nil _).trans h.packets, h.bytes⟩

section
variable (h : InTransit data frame posted sent [p] done rest received queued unsent) (hun : unsent ≠ [])
include h hun

theorem rest_eq : ∃ rest', rest = rest' ++ [p] ∧ sent = done ++ rest' := by
  have hpkt := h.packets
  obtain hnil | ⟨rest', last, hlast⟩ := eq_nil_or_concat rest
  · have hbs := h.bytes
    rw [hnil] at hbs
    exact absurd (append_eq_nil_iff.mp hbs).2 hun
  · rw [concat_eq_append] at hlast
    rw [hlast, ← append_assoc] at hpkt
    obtain ⟨hsent, hp⟩ := append_inj' hpkt rfl
    exact ⟨rest', hp ▸ hlast, hsent⟩

theorem queued_eq (hfr : frame p = pub ++ unsent) :
    ∃ rest', rest = rest' ++ [p] ∧ received ++ queued = (rest'.map frame).flatten ++ pub := by
  obtain ⟨rest', hrest, -⟩ := h.rest_eq hun
  have hbs := h.bytes
  rw [hrest] at hbs
  refine ⟨rest', hrest, ?_⟩
  simpa [hfr, ← append_assoc] using hbs

end

theorem giveUp (h : InTransit data frame posted sent [p] done rest received queued (frame p))
    (hfr : frame p ≠ []) :
    ∃ rest', rest = rest' ++ [p] ∧ InTransit data frame posted sent [] done rest' received queued [] := by
  obtain ⟨rest', hrest, hsent⟩ := h.rest_eq hfr
  obtain ⟨rest'', hrest', hqd⟩ := h.queued_eq hfr (nil_append _).symm
  obtain rfl : rest' = rest'' := append_cancel_right (hrest.symm.trans hrest')
  refine ⟨rest', hrest, h.posted_eq, (append_nil _).trans hsent, ?_⟩
  rw [hqd, append_nil, append_nil]

theorem collect (h : InTransit data frame posted sent current done rest received queued unsent)
    (n : ℕ) :
    InTransit data frame posted sent current done rest (received ++ queued.take n) (queued.drop n)
      unsent := by
  refine ⟨h.posted_eq, h.packets, ?_⟩
  rw [append_assoc received, take_append_drop]
  exact h.bytes

/-- With the length of its frame collected, the first packet is there and can be handed on. -/
theorem complete (h : InTransit data frame posted sent current done (p :: tail) received queued unsent)
    (hlen : received.length = (frame p).length) :
    received = frame p ∧
      InTransit data frame (posted ++ [data p]) sent current (done ++ [p]) tail [] queued unsent := by
  have hbs := h.bytes
  rw [append_assoc] at hbs
  obtain ⟨hfr, htail⟩ := append_inj hbs hlen
  refine ⟨hfr, ?_, ?_, htail⟩
  · rw [h.posted_eq, map_append]
    rfl
  · rw [append_assoc]
    exact h.packets

theorem head_eq (h : InTransit data frame posted sent current done rest received queued unsent)
    (hne : received ++ queued ++ unsent ≠ []) (hrest : rest' = rest ++ [p]) (hhead : rest' = p' :: tail) :
    ∃ tail', rest = p' :: tail' := by
  cases rest with
  | nil => exact absurd h.bytes hne
  | cons p'' tail' =>
    rw [hrest] at hhead
    exact ⟨tail', by rw [(cons.inj hhead).1]⟩

theorem first_of_queued
    (h : InTransit data frame posted sent current done rest [] queued unsent)
    (hqd : queued ≠ []) : ∃ p tail, rest = p :: tail ∧ queued ++ unsent = frame p ++ (tail.map frame).flatten := by
  cases rest with
  | nil => exact absurd (append_eq_nil_iff.mp h.bytes).1 hqd
  | cons p tail => exact ⟨p, tail, rfl, h.bytes⟩

theorem posted_prefix
    (h : InTransit data frame posted sent current done rest received queued unsent)
    (hcur : current = [] ∨ unsent ≠ [] ∧ ∃ p, current = [p]) : posted <+: sent.map data := by
  suffices hsent : ∃ rest', sent = done ++ rest' by
    obtain ⟨rest', hsent⟩ := hsent
    rw [h.posted_eq, hsent, map_append]
    exact prefix_append _ _
  obtain rfl | ⟨hun, p, rfl⟩ := hcur
  · exact ⟨rest, (append_nil _).symm.trans h.packets⟩
  · obtain ⟨rest', -, hsent⟩ := h.rest_eq hun
    exact ⟨rest', hsent⟩

theorem posted_all (h : InTransit data frame posted sent [] done rest received [] [])
    (hpos : ∀ p, frame p ≠ [])
    (hrecv : received ≠ [] → ∃ p tail, rest = p :: tail ∧ received.length < (frame p).length) :
    posted = sent.map data := by
  have hbs := h.bytes
  have hpkt := h.packets
  rw [append_nil, append_nil] at hbs
  rw [append_nil] at hpkt
  cases rest with
  | nil => rw [h.posted_eq, hpkt, append_nil]
  | cons p tail =>
    rw [map_cons, flatten_cons] at hbs
    have hne : received ≠ [] := by
      rw [hbs]
      exact append_ne_nil_of_left_ne_nil (hpos p) _
    obtain ⟨p', tail', hrest, hlt⟩ := hrecv hne
    rw [← (cons.inj hrest).1, hbs, length_append] at hlt
    omega

end InTransit

end VendorKernel.Framing
