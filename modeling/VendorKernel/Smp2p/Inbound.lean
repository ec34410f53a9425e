import VendorKernel.Lib.Machine
import VendorKernel.Lib.RingBuffer

/-! The inbound item of SMP2P (`smp2p.c`): `qcom_smp2p_start_in` and `qcom_smp2p_notify_in` look for names in
memory that the remote may change between any two of their reads. -/
namespace VendorKernel.Smp2p

open Function Machine RingBuffer Nat Option

def SMP2P_MAX_ENTRY : ℕ := 16

def SMP2P_MAX_ENTRY_NAME : ℕ := 16

/-- `struct smp2p_smem_item`, with what follows the entries in memory behind the last of them. -/
structure SmemItem where
  version : UInt8
  validEntries : UInt16
  name : ℕ → ℕ → UInt8
  value : ℕ → UInt32

structure Entry where
  name : List UInt8
  value : Option ℕ
  lastValue : UInt32

/-- `!strcmp(buf + k, name)`, and the number of bytes of `buf` that have been read in the end. -/
def strcmp (buf : ℕ → UInt8) : ℕ → List UInt8 → Bool × ℕ
  | k, [] => (buf k = 0, k + 1)
  | k, c :: name => if buf k = c then strcmp buf (k + 1) name else (false, k + 1)

/-- `memcpy(buf, name, sizeof(buf))`; behind `buf` is what is on the stack. -/
def copyName (name stack : ℕ → UInt8) (k : ℕ) : UInt8 :=
  if k < SMP2P_MAX_ENTRY_NAME then name k else stack k

def HasName (field : ℕ → UInt8) (name : List UInt8) : Prop :=
  name.length < SMP2P_MAX_ENTRY_NAME ∧ slice field 0 (name.length + 1) = name ++ [0]

instance (field : ℕ → UInt8) (name : List UInt8) : Decidable (HasName field name) :=
  inferInstanceAs (Decidable (_ ∧ _))

/-- In front of the test of the loop, of the comparisons of entry `i`, or of the values that are left. -/
inductive Place (n : ℕ) where
  | idle
  | test (start : Bool) (i : ℕ)
  | compare (start : Bool) (i : ℕ) (entries : List (Fin n))
  | fire (entries : List (Fin n))

structure QcomSmp2p (n : ℕ) where
  item : SmemItem
  validEntries : ℕ
  inbound : Fin n → Entry
  place : Place n
  /-- Not in the source: an entry behind the last one was accessed. -/
  outside : Bool
  /-- Not in the source: a comparison read past the copied bytes. -/
  overread : Bool
  /-- Not in the source: an entry was bound to one that does not have its name. -/
  misbound : Bool

inductive Op where
  | remote (item : SmemItem)
  | startIn
  | notifyIn
  | proceed (stack : ℕ → UInt8)

variable {n i : ℕ} {s s' : QcomSmp2p n}

def QcomSmp2p.compare (s : QcomSmp2p n) (stack : ℕ → UInt8) (start : Bool) (i : ℕ) (e : Fin n)
    (entries : List (Fin n)) : QcomSmp2p n :=
  let cmp := strcmp (copyName (s.item.name i) stack) 0 (s.inbound e).name
  let s := { s with
    outside := s.outside || SMP2P_MAX_ENTRY ≤ i
    overread := s.overread || SMP2P_MAX_ENTRY_NAME < cmp.2 }
  if cmp.1 then
    let lastValue := if start then s.item.value i else (s.inbound e).lastValue
    { s with
      inbound := update s.inbound e { s.inbound e with value := some i, lastValue := lastValue }
      misbound := s.misbound || ¬HasName (s.item.name i) (s.inbound e).name
      place := .test start (i + 1) }
  else { s with place := .compare start i entries }

def QcomSmp2p.fire (s : QcomSmp2p n) (e : Fin n) (entries : List (Fin n)) : QcomSmp2p n :=
  match (s.inbound e).value with
  | none => { s with place := .fire entries }
  | some i =>
    { s with
      inbound := update s.inbound e { s.inbound e with lastValue := s.item.value i }
      outside := s.outside || SMP2P_MAX_ENTRY ≤ i
      place := .fire entries }

def step (s : QcomSmp2p n) : Op → Option (QcomSmp2p n)
  | .remote item => some { s with item := item }
  | .startIn =>
    match s.place with
    | .idle => some (if s.item.version = 0 then s else { s with place := .test true s.validEntries })
    | _ => none
  | .notifyIn =>
    match s.place with
    | .idle => some { s with place := .test false s.validEntries }
    | _ => none
  | .proceed stack =>
    match s.place with
    | .idle => none
    | .test start i =>
      if i < s.item.validEntries.toNat then some { s with place := .compare start i (List.finRange n) }
      else some { s with validEntries := i, place := if start then .idle else .fire (List.finRange n) }
    | .compare start i [] => some { s with place := .test start (i + 1) }
    | .compare start i (e :: entries) => some (s.compare stack start i e entries)
    | .fire [] => some { s with place := .idle }
    | .fire (e :: entries) => some (s.fire e entries)

/-- The loop goes on only to entries of the item, and names compared are short or differ from the copy. -/
def Bounded (s : QcomSmp2p n) : Op → Prop
  | .proceed _ =>
    match s.place with
    | .test _ i => i < s.item.validEntries.toNat → i < SMP2P_MAX_ENTRY
    | .compare _ i (e :: _) => (s.inbound e).name.length < SMP2P_MAX_ENTRY_NAME ∨
      ∃ k < SMP2P_MAX_ENTRY_NAME, (s.inbound e).name[k]? ≠ some (s.item.name i k)
    | _ => True
  | _ => True

instance (s : QcomSmp2p n) (op : Op) : Decidable (Bounded s op) := by
  unfold Bounded
  repeat' split
  all_goals infer_instance

/-- A comparison stops at the first difference, and finds the name only with its terminator. -/
theorem strcmp_spec (buf : ℕ → UInt8) (k : ℕ) (name : List UInt8) :
    (strcmp buf k name).2 ≤ k + name.length + 1 ∧
      (∀ j < name.length, name[j]? ≠ some (buf (k + j)) → (strcmp buf k name).2 ≤ k + j + 1) ∧
      ((strcmp buf k name).1 = true → (strcmp buf k name).2 = k + name.length + 1 ∧
        slice buf k (name.length + 1) = name ++ [0]) := by
  induction name generalizing k with
  | nil => simp [strcmp, slice]
  | cons c name ih =>
    rw [strcmp, List.length_cons]
    split_ifs with hc
    · obtain ⟨hrds, hdiff, hsame⟩ := ih (k + 1)
      refine ⟨by omega, ?_, ?_⟩
      · intro j hj hne
        cases j with
        | zero => exact absurd (congrArg some hc.symm) hne
        | succ j =>
          have := hdiff j (by omega) (by rwa [add_assoc, add_comm 1])
          omega
      · intro h
        rw [slice, hc, (hsame h).1, (hsame h).2]
        exact ⟨by omega, rfl⟩
    · exact ⟨by omega, fun _ _ _ => by omega, by simp⟩

theorem strcmp_copyName {field stack : ℕ → UInt8} {name : List UInt8}
    (h : name.length < SMP2P_MAX_ENTRY_NAME ∨ ∃ k < SMP2P_MAX_ENTRY_NAME, name[k]? ≠ some (field k)) :
    (strcmp (copyName field stack) 0 name).2 ≤ SMP2P_MAX_ENTRY_NAME ∧
      ((strcmp (copyName field stack) 0 name).1 = true → HasName field name) := by
  obtain ⟨hrds, hdiff, hsame⟩ := strcmp_spec (copyName field stack) 0 name
  have hle : (strcmp (copyName field stack) 0 name).2 ≤ SMP2P_MAX_ENTRY_NAME := by
    by_cases hlen : name.length < SMP2P_MAX_ENTRY_NAME
    · omega
    · obtain ⟨k, hk, hne⟩ := h.resolve_left hlen
      have := hdiff k (by omega) (by rwa [zero_add, copyName, if_pos hk])
      omega
  refine ⟨hle, fun heq => ?_⟩
  obtain ⟨hread, hsl⟩ := hsame heq
  refine ⟨by omega, (slice_congr fun j hj => ?_).trans hsl⟩
  rw [copyName, if_pos (by omega)]

structure Sound (s : QcomSmp2p n) : Prop where
  compared : ∀ start i entries, s.place = .compare start i entries → i < SMP2P_MAX_ENTRY
  bound : ∀ e, ∀ i ∈ (s.inbound e).value, i < SMP2P_MAX_ENTRY
  inside : s.outside = false
  copied : s.overread = false
  named : s.misbound = false

namespace Sound

section
variable (h : Sound s)
include h

theorem move {place : Place n}
    (hpc : ∀ start i entries, place = .compare start i entries → i < SMP2P_MAX_ENTRY) (valid : ℕ) :
    Sound { s with place := place, validEntries := valid } :=
  { h with compared := hpc }

theorem bound_update (e : Fin n) {entry : Entry} (hey : ∀ i ∈ entry.value, i < SMP2P_MAX_ENTRY) :
    ∀ e', ∀ i ∈ (update s.inbound e entry e').value, i < SMP2P_MAX_ENTRY :=
  (forall_update_iff s.inbound fun _ x => ∀ i ∈ x.value, i < SMP2P_MAX_ENTRY).mpr ⟨hey, fun e' _ => h.bound e'⟩

theorem compare {start : Bool} {e : Fin n} {entries : List (Fin n)} (hi : i < SMP2P_MAX_ENTRY) (stack : ℕ → UInt8)
    (hname : (s.inbound e).name.length < SMP2P_MAX_ENTRY_NAME ∨ ∃ k < SMP2P_MAX_ENTRY_NAME,
      (s.inbound e).name[k]? ≠ some (s.item.name i k)) :
    Sound (s.compare stack start i e entries) := by
  obtain ⟨hrds, hsame⟩ := @strcmp_copyName _ stack _ hname
  have hin : (s.outside || decide (SMP2P_MAX_ENTRY ≤ i)) = false := by simp [h.inside, hi]
  have hcpd := h.copied
  rw [QcomSmp2p.compare]
  cases heq : (strcmp (copyName (s.item.name i) stack) 0 (s.inbound e).name).1 with
  | true =>
    refine ⟨nofun, h.bound_update e ?_, hin, by simp [hcpd, hrds], by simp [h.named, hsame heq]⟩
    rintro _ ⟨⟩
    exact hi
  | false =>
    refine ⟨?_, h.bound, hin, by simp [hcpd, hrds], h.named⟩
    rintro _ _ _ ⟨⟩
    exact hi

theorem fire (e : Fin n) (entries : List (Fin n)) : Sound (s.fire e entries) := by
  unfold QcomSmp2p.fire
  split
  · exact h.move (by nofun) _
  · next i hvl =>
    exact ⟨nofun, h.bound_update e (h.bound e), by simp [h.inside, h.bound e i hvl], h.copied, h.named⟩

/-- Bounded steps read inside the item. -/
theorem step {op : Op} (hop : Bounded s op) (hstep : step s op = some s') : Sound s' := by
  revert hstep
  fun_cases Smp2p.step s op
  all_goals rintro ⟨⟩
  · exact { h with }
  · split_ifs
    · exact h
    · exact h.move (by nofun) _
  · exact h.move (by nofun) _
  · next start i hpc hi =>
    rw [Bounded, hpc] at hop
    refine h.move ?_ _
    rintro _ _ _ ⟨⟩
    exact hop hi
  · split_ifs
    · exact h.move (by nofun) _
    · exact h.move (by nofun) _
  · exact h.move (by nofun) _
  · next start i e entries hpc =>
    rw [Bounded, hpc] at hop
    exact h.compare (h.compared _ _ _ hpc) _ hop
  · exact h.move (by nofun) _
  · exact h.fire ..

end

end Sound

def start (item : SmemItem) (name : Fin n → List UInt8) : QcomSmp2p n :=
  ⟨item, 0, fun e => ⟨name e, none, 0⟩, .idle, false, false, false⟩

/-- Over every run whose steps are bounded, only entries of the item are accessed, no comparison reads past
the copied bytes, and inbound entries are bound to entries with their names. -/
theorem smp2p_in_safe (item : SmemItem) (name : Fin n → List UInt8) {ops : List Op} {s : QcomSmp2p n}
    (hops : Meets step Bounded (start item name) ops) (hrun : run step (start item name) ops = some s) :
    s.outside = false ∧ s.overread = false ∧ s.misbound = false := by
  have hso : Sound s := run_inv (fun _ _ _ h hop => h.step hop) (by exact ⟨nofun, nofun, rfl, rfl, rfl⟩) hops hrun
  exact ⟨hso.inside, hso.copied, hso.named⟩

def itemOf (validEntries : UInt16) (length : ℕ) : SmemItem :=
  ⟨1, validEntries, fun _ k => if k < length then 97 else 0, fun _ => 5⟩

def scan (count : ℕ) : List Op := .startIn :: List.replicate count (.proceed fun _ => 0)

/-- An item in which every name is "aa" or, with no terminator, sixteen times "a". -/
theorem smp2p_in_safe_one :
    (run step (start (itemOf 1 2) fun _ : Fin 1 => [97, 97]) (scan 3)).map (·.outside) = some false := by
  obtain ⟨s, hs⟩ := isSome_iff_exists.mp
    (by decide : (run step (start (itemOf 1 2) fun _ : Fin 1 => [97, 97]) (scan 3)).isSome)
  rw [hs, map_some, (smp2p_in_safe _ _ (by decide) hs).1]

/-- The remote announces 17 entries, and a name of 16 bytes is compared with one that is not terminated. -/
theorem smp2p_in_unsafe :
    (run step (start (itemOf 17 2) fun _ : Fin 1 => [98]) (scan 51)).map (·.outside) = some true ∧
      (run step (start (itemOf 1 16) fun _ : Fin 1 => List.replicate 16 97) (scan 3)).map
        (fun s => (s.overread, s.misbound)) = some (true, true) := by
  decide

end VendorKernel.Smp2p
