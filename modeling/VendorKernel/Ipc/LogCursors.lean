import Mathlib.Tactic.Ring
import VendorKernel.Ipc.Log

/-! The pages of the log as one ring and its three cursors as positions of a byte stream: what
reading, dropping and writing a few bytes does to them. -/
namespace VendorKernel.Ipc

open RingBuffer LogContext Nat Prod

theorem logPageDataSize_pos : 0 < LOG_PAGE_DATA_SIZE := by decide

/-- The cursor stands at position `x`. The end of a page is never also the start of the next one. -/
structure At (N x : ℕ) (c : ℕ × ℕ) : Prop where
  page_lt : c.1 < N
  offset_le : c.2 ≤ LOG_PAGE_DATA_SIZE
  zero : c.2 = 0 → x = 0
  pos : ∃ laps, x = laps * (N * LOG_PAGE_DATA_SIZE) + (c.1 * LOG_PAGE_DATA_SIZE + c.2)

namespace At

variable {N x y p off n : ℕ} {c c' : ℕ × ℕ}

theorem modEq (h : At N x c) : x ≡ c.1 * LOG_PAGE_DATA_SIZE + c.2 [MOD N * LOG_PAGE_DATA_SIZE] := by
  obtain ⟨laps, hx⟩ := h.pos
  rw [hx, Nat.ModEq, mul_add_mod_self_right]

theorem page_end_le (h : At N x c) : c.1 * LOG_PAGE_DATA_SIZE + LOG_PAGE_DATA_SIZE ≤ N * LOG_PAGE_DATA_SIZE := by
  rw [← succ_mul]
  exact mul_le_mul_right _ h.page_lt

private theorem sub_one_mod (h : At N x c) (hoff : c.2 ≠ 0) :
    (x - 1) % (N * LOG_PAGE_DATA_SIZE) = c.1 * LOG_PAGE_DATA_SIZE + (c.2 - 1) := by
  obtain ⟨laps, hx⟩ := h.pos
  have hend := h.page_end_le
  have hle := h.offset_le
  have hsub : x - 1 = laps * (N * LOG_PAGE_DATA_SIZE) + (c.1 * LOG_PAGE_DATA_SIZE + (c.2 - 1)) := by omega
  rw [hsub, mul_add_mod_self_right, mod_eq_of_lt (by omega)]

private theorem eq_zero (h : At N 0 c) : c = (0, 0) := by
  obtain ⟨laps, hx⟩ := h.pos
  have hpage : c.1 * LOG_PAGE_DATA_SIZE = 0 := by omega
  have hoff : c.2 = 0 := by omega
  rcases Nat.mul_eq_zero.mp hpage with h0 | h0
  · exact Prod.ext h0 hoff
  · exact absurd h0 logPageDataSize_pos.ne'

theorem unique (h : At N x c) (h' : At N x c') : c = c' := by
  by_cases hx : x = 0
  · subst hx
    rw [h.eq_zero, h'.eq_zero]
  · have hoff : c.2 ≠ 0 := fun h0 => hx (h.zero h0)
    have hoff' : c'.2 ≠ 0 := fun h0 => hx (h'.zero h0)
    have hsame := (h.sub_one_mod hoff).symm.trans (h'.sub_one_mod hoff')
    have hlt : c.2 - 1 < LOG_PAGE_DATA_SIZE := by have := h.offset_le; omega
    have hlt' : c'.2 - 1 < LOG_PAGE_DATA_SIZE := by have := h'.offset_le; omega
    have hpage : c.1 = c'.1 := by
      have hdiv := congrArg (· / LOG_PAGE_DATA_SIZE) hsame
      rwa [mul_comm, mul_add_div logPageDataSize_pos, div_eq_of_lt hlt, mul_comm,
        mul_add_div logPageDataSize_pos, div_eq_of_lt hlt'] at hdiv
    rw [hpage] at hsame
    exact Prod.ext hpage (by omega)

theorem eq_iff (hx : At N x c) (hy : At N y c') (hxy : x ≤ y) (hlap : y < x + N * LOG_PAGE_DATA_SIZE) :
    decide (c = c') = true ↔ x = y := by
  rw [decide_eq_true_eq]
  constructor
  · rintro rfl
    by_contra hne
    exact mod_ne_of_lt (lt_of_le_of_ne hxy hne) hlap (hx.modEq.trans hy.modEq.symm)
  · rintro rfl
    exact hx.unique hy

theorem advance (h : At N x (p, off)) (hn : off + n ≤ LOG_PAGE_DATA_SIZE) : At N (x + n) (p, off + n) := by
  refine ⟨h.page_lt, hn, ?_, ?_⟩
  · intro h0
    have := h.zero (by omega)
    omega
  · obtain ⟨laps, hx⟩ := h.pos
    exact ⟨laps, by dsimp only at *; omega⟩

theorem wrap (h : At N x (p, off)) (hn : LOG_PAGE_DATA_SIZE < off + n) (hmax : n ≤ LOG_PAGE_DATA_SIZE) :
    At N (x + n) (if N - 1 = p then 0 else p + 1, off + n - LOG_PAGE_DATA_SIZE) := by
  have hp : p < N := h.page_lt
  have hoff : off ≤ LOG_PAGE_DATA_SIZE := h.offset_le
  obtain ⟨laps, hx⟩ := h.pos
  dsimp only at hx
  split_ifs with hlast
  · have hN : N * LOG_PAGE_DATA_SIZE = p * LOG_PAGE_DATA_SIZE + LOG_PAGE_DATA_SIZE := by
      rw [← succ_mul]
      congr 1
      omega
    refine ⟨by omega, by omega, by omega, laps + 1, ?_⟩
    rw [succ_mul]
    omega
  · refine ⟨by omega, by omega, by omega, laps, ?_⟩
    rw [succ_mul]
    omega

end At

namespace LogContext

variable {p off m N x n next j rest : ℕ} {ctx : LogContext} {pg : LogPage}

def flat (ctx : LogContext) : ℕ → UInt8 :=
  fun a => (ctx.page (a / LOG_PAGE_DATA_SIZE)).data (a % LOG_PAGE_DATA_SIZE)

theorem flat_page (ctx : LogContext) (p : ℕ) (hj : j < LOG_PAGE_DATA_SIZE) :
    ctx.flat (p * LOG_PAGE_DATA_SIZE + j) = (ctx.page p).data j := by
  rw [flat, mul_comm, mul_add_div logPageDataSize_pos, div_eq_of_lt hj, add_zero, mul_add_mod, mod_eq_of_lt hj]

theorem slice_page (ctx : LogContext) (h : off + m ≤ LOG_PAGE_DATA_SIZE) :
    slice (ctx.page p).data off m = slice ctx.flat (p * LOG_PAGE_DATA_SIZE + off) m := by
  apply slice_congr
  intro j hj
  rw [add_assoc, flat_page _ _ (by omega)]

theorem flat_setPage_of_data (h : pg.data = (ctx.page p).data) : (ctx.setPage p pg).flat = ctx.flat := by
  funext a
  by_cases ha : a / LOG_PAGE_DATA_SIZE = p
  · simp [flat, setPage, ha, h]
  · simp [flat, setPage, ha]

theorem flat_setPage_memcpy {src : ℕ → UInt8} (hoff : off + m ≤ LOG_PAGE_DATA_SIZE)
    (h : pg.data = memcpy (ctx.page p).data off src m) :
    (ctx.setPage p pg).flat = memcpy ctx.flat (p * LOG_PAGE_DATA_SIZE + off) src m := by
  funext a
  have ha : p * LOG_PAGE_DATA_SIZE ≤ a ∧ a < p * LOG_PAGE_DATA_SIZE + LOG_PAGE_DATA_SIZE ↔
      a / LOG_PAGE_DATA_SIZE = p := by
    rw [Nat.div_eq_iff logPageDataSize_pos]
    have := logPageDataSize_pos
    omega
  by_cases hp : a / LOG_PAGE_DATA_SIZE = p
  · obtain ⟨j, rfl⟩ := Nat.exists_eq_add_of_le (ha.mpr hp).1
    have hj : j < LOG_PAGE_DATA_SIZE := by omega
    rw [flat_page _ _ hj]
    simp only [setPage, Function.update_self, h]
    by_cases hin : off ≤ j ∧ j < off + m
    · rw [memcpy_inside _ _ hin.1 hin.2, memcpy_inside _ _ (by omega) (by omega)]
      congr 1
      omega
    · rw [memcpy_outside _ _ (by omega), memcpy_outside _ _ (by omega), flat_page _ _ hj]
  · rw [memcpy_outside _ _ (by omega)]
    simp [flat, setPage, hp]

theorem slice_eq_window_of_fit (ctx : LogContext) (h : At N x (p, off)) (hn : off + n ≤ LOG_PAGE_DATA_SIZE) :
    slice (ctx.page p).data off n = window (N * LOG_PAGE_DATA_SIZE) ctx.flat x n := by
  have hend := h.page_end_le
  rw [ctx.slice_page hn, slice_eq_window _ h.modEq (by omega)]

theorem modEq_page_start (h : At N (x + rest) (next, rest)) :
    x ≡ next * LOG_PAGE_DATA_SIZE + 0 [MOD N * LOG_PAGE_DATA_SIZE] := by
  have hmod := h.modEq
  rw [add_zero]
  exact Nat.ModEq.add_right_cancel' rest hmod

theorem slice_eq_window_of_wrap (ctx : LogContext) (h : At N x (p, off))
    (hnext : At N (x + n) (next, off + n - LOG_PAGE_DATA_SIZE)) (hn : LOG_PAGE_DATA_SIZE < off + n) :
    slice (ctx.page p).data off (LOG_PAGE_DATA_SIZE - off) ++
        slice (ctx.page next).data 0 (off + n - LOG_PAGE_DATA_SIZE) =
      window (N * LOG_PAGE_DATA_SIZE) ctx.flat x n := by
  have hoff : off ≤ LOG_PAGE_DATA_SIZE := h.offset_le
  have hrest : off + n - LOG_PAGE_DATA_SIZE ≤ LOG_PAGE_DATA_SIZE := hnext.offset_le
  have hend := hnext.page_end_le
  obtain ⟨k, hk⟩ : ∃ k, off + n - LOG_PAGE_DATA_SIZE = k := ⟨_, rfl⟩
  have hspl : n = (LOG_PAGE_DATA_SIZE - off) + k := by omega
  rw [hk] at hnext hrest ⊢
  rw [hspl, ← add_assoc] at hnext
  rw [hspl, window_add, ctx.slice_eq_window_of_fit h (by omega),
    ctx.slice_page (by omega : 0 + k ≤ LOG_PAGE_DATA_SIZE),
    slice_eq_window _ (modEq_page_start hnext) (by dsimp only at *; omega)]

section
variable (ctx : LogContext) (p off q : ℕ)

@[simp] theorem page_setReadOffset : (ctx.setReadOffset p off).page q =
    { ctx.page q with readOffset := if q = p then off else (ctx.page q).readOffset } := by
  by_cases hq : q = p
  · subst hq
    simp [setReadOffset, setPage]
  · simp [setReadOffset, setPage, hq]

@[simp] theorem page_setNdReadOffset : (ctx.setNdReadOffset p off).page q =
    { ctx.page q with ndReadOffset := if q = p then off else (ctx.page q).ndReadOffset } := by
  by_cases hq : q = p
  · subst hq
    simp [setNdReadOffset, setPage]
  · simp [setNdReadOffset, setPage, hq]

@[simp] theorem flat_setReadOffset : (ctx.setReadOffset p off).flat = ctx.flat :=
  flat_setPage_of_data rfl

@[simp] theorem flat_setNdReadOffset : (ctx.setNdReadOffset p off).flat = ctx.flat :=
  flat_setPage_of_data rfl

@[simp] theorem setReadOffset_fields : (ctx.setReadOffset p off).readPage = ctx.readPage ∧
    (ctx.setReadOffset p off).ndReadPage = ctx.ndReadPage ∧
    (ctx.setReadOffset p off).writePage = ctx.writePage ∧
    (ctx.setReadOffset p off).lastPage = ctx.lastPage ∧
    (ctx.setReadOffset p off).writeAvail = ctx.writeAvail :=
  ⟨rfl, rfl, rfl, rfl, rfl⟩

@[simp] theorem setNdReadOffset_fields : (ctx.setNdReadOffset p off).readPage = ctx.readPage ∧
    (ctx.setNdReadOffset p off).ndReadPage = ctx.ndReadPage ∧
    (ctx.setNdReadOffset p off).writePage = ctx.writePage ∧
    (ctx.setNdReadOffset p off).lastPage = ctx.lastPage ∧
    (ctx.setNdReadOffset p off).writeAvail = ctx.writeAvail :=
  ⟨rfl, rfl, rfl, rfl, rfl⟩

end

end LogContext

/-- What holds even while the read cursor is between two pages: `write_avail` is what is left of the lap. -/
structure LogFrame (N : ℕ) (ctx : LogContext) (r w : ℕ) : Prop where
  pages : ctx.lastPage + 1 = N
  fits : N * LOG_PAGE_DATA_SIZE < 2 ^ 32
  write : At N w ctx.writeCursor
  readOther : ∀ p ≠ ctx.readPage, (ctx.page p).readOffset = 0
  ndReadOther : ∀ p ≠ ctx.ndReadPage, (ctx.page p).ndReadOffset = 0
  le : r ≤ w
  lap : w < r + N * LOG_PAGE_DATA_SIZE
  avail : ctx.writeAvail = N * LOG_PAGE_DATA_SIZE - (w - r)

/-- The three cursors stand at `r ≤ nd ≤ w`, less than a lap apart. -/
structure LogInv (N : ℕ) (ctx : LogContext) (r nd w : ℕ) : Prop extends LogFrame N ctx r w where
  read : At N r ctx.readCursor
  ndRead : At N nd ctx.ndReadCursor
  read_le : r ≤ nd
  ndRead_le : nd ≤ w

namespace LogFrame

variable {N r w b n nd : ℕ} {ctx : LogContext}

section
variable (h : LogFrame N ctx r w)
include h

theorem getNextPage_eq (p : ℕ) : ctx.getNextPage p = if N - 1 = p then 0 else p + 1 := by
  rw [getNextPage, show ctx.lastPage = N - 1 by have := h.pages; omega]

theorem readOffset_cleared (p : ℕ) : ((ctx.setReadOffset ctx.readPage 0).page p).readOffset = 0 := by
  rw [page_setReadOffset]
  split_ifs with hsame
  · rfl
  · exact h.readOther p hsame

theorem ndReadOffset_cleared (p : ℕ) : ((ctx.setNdReadOffset ctx.ndReadPage 0).page p).ndReadOffset = 0 := by
  rw [page_setNdReadOffset]
  split_ifs with hsame
  · rfl
  · exact h.ndReadOther p hsame

theorem dropBytes_spec (hpush : ctx.isNdReadEqualRead = true → nd = r + n)
    (hkeep : ctx.isNdReadEqualRead = false → At N nd ctx.ndReadCursor)
    (hread : At N (r + n) (ctx.readPage, (ctx.page ctx.readPage).readOffset + b)) (hle : r + n ≤ nd)
    (hndle : nd ≤ w) : LogInv N (ctx.dropBytes b n) (r + n) nd w := by
  have hlap := h.lap
  have hfits := h.fits
  have hav : (ctx.writeAvail + n) % 2 ^ 32 = N * LOG_PAGE_DATA_SIZE - (w - (r + n)) := by
    rw [h.avail]
    omega
  unfold dropBytes
  dsimp only
  split_ifs with heql
  all_goals
    refine ⟨⟨h.pages, h.fits, by simpa [writeCursor] using h.write, fun p hp => ?_, ?_, by omega, by omega, hav⟩,
      by simpa [readCursor] using hread, ?_, hle, hndle⟩
    · simpa [show p ≠ ctx.readPage from hp] using h.readOther p hp
  · intro p hp
    simpa [show p ≠ ctx.ndReadPage from hp] using h.ndReadOther p hp
  · obtain ⟨hpage, hoff⟩ := mk.inj (of_decide_eq_true heql)
    rw [hpage] at hoff
    rw [hpush heql]
    simpa [ndReadCursor, hpage, hoff] using hread
  · simpa using h.ndReadOther
  · simpa [ndReadCursor] using hkeep (by simpa using heql)

end

end LogFrame

namespace LogInv

variable {N r nd w n : ℕ} {ctx : LogContext}

section
variable (h : LogInv N ctx r nd w)
include h

theorem isNdReadEmpty_iff : ctx.isNdReadEmpty = true ↔ nd = w := by
  have := h.lap
  have := h.read_le
  exact h.ndRead.eq_iff h.write h.ndRead_le (by omega)

theorem isReadEmpty_iff : ctx.isReadEmpty = true ↔ r = w := by
  exact h.read.eq_iff h.write (h.read_le.trans h.ndRead_le) h.lap

theorem isNdReadEqualRead_iff : ctx.isNdReadEqualRead = true ↔ nd = r := by
  have := h.lap
  have := h.ndRead_le
  rw [isNdReadEqualRead, @eq_comm _ nd, decide_eq_decide.mpr eq_comm]
  exact h.read.eq_iff h.ndRead h.read_le (by omega)

/-- A read returns the bytes at the second cursor. -/
theorem ipcLogRead_spec (hmax : n ≤ LOG_PAGE_DATA_SIZE) (hn : nd + n ≤ w) :
    (ctx.ipcLogRead n).1 = window (N * LOG_PAGE_DATA_SIZE) ctx.flat nd n ∧
      LogInv N (ctx.ipcLogRead n).2 r (nd + n) w ∧ (ctx.ipcLogRead n).2.flat = ctx.flat := by
  have hat := h.ndRead
  have hoff : (ctx.page ctx.ndReadPage).ndReadOffset ≤ LOG_PAGE_DATA_SIZE := hat.offset_le
  unfold ipcLogRead
  dsimp only
  by_cases hfit : (ctx.page ctx.ndReadPage).ndReadOffset + n ≤ LOG_PAGE_DATA_SIZE
  · have hmin : min (LOG_PAGE_DATA_SIZE - (ctx.page ctx.ndReadPage).ndReadOffset) n = n := by
      omega
    rw [hmin, if_neg (by simp)]
    refine ⟨ctx.slice_eq_window_of_fit hat hfit,
      ⟨⟨h.pages, h.fits, ?_, ?_, ?_, h.le, h.lap, h.avail⟩, ?_, ?_, by have := h.read_le; omega, hn⟩,
      ctx.flat_setNdReadOffset _ _⟩
    · simpa [writeCursor] using h.write
    · simpa using h.readOther
    · intro p hp
      simpa [show p ≠ ctx.ndReadPage from hp] using h.ndReadOther p hp
    · simpa [readCursor] using h.read
    · simpa [ndReadCursor] using hat.advance hfit
  · have hmin : min (LOG_PAGE_DATA_SIZE - (ctx.page ctx.ndReadPage).ndReadOffset) n =
        LOG_PAGE_DATA_SIZE - (ctx.page ctx.ndReadPage).ndReadOffset := by omega
    have hwrap := hat.wrap (by omega) hmax
    rw [← h.getNextPage_eq] at hwrap
    generalize hnext : ctx.getNextPage ctx.ndReadPage = next at hwrap ⊢
    have hrest : n - (LOG_PAGE_DATA_SIZE - (ctx.page ctx.ndReadPage).ndReadOffset) =
        (ctx.page ctx.ndReadPage).ndReadOffset + n - LOG_PAGE_DATA_SIZE := by omega
    rw [hmin, if_pos (by omega), h.ndReadOffset_cleared, hrest]
    refine ⟨by simpa using ctx.slice_eq_window_of_wrap hat hwrap (by omega),
      ⟨⟨h.pages, h.fits, ?_, ?_, ?_, h.le, h.lap, h.avail⟩, ?_, ?_, by have := h.read_le; omega, hn⟩,
      ?_⟩
    · simpa [writeCursor] using h.write
    · simpa using h.readOther
    · intro p hp
      rw [page_setNdReadOffset]
      simp only [if_neg (show p ≠ next from hp)]
      exact h.ndReadOffset_cleared p
    · simpa [readCursor] using h.read
    · simpa [ndReadCursor] using hwrap
    · rw [flat_setNdReadOffset]
      exact ctx.flat_setNdReadOffset _ _

theorem dropToNextPage_frame :
    LogFrame N ctx.dropToNextPage r w ∧ ctx.dropToNextPage.flat = ctx.flat ∧
      ctx.dropToNextPage.readPage = ctx.getNextPage ctx.readPage ∧
      ∀ p, (ctx.dropToNextPage.page p).readOffset = 0 ∧ (ctx.dropToNextPage.page p).data = (ctx.page p).data := by
  unfold dropToNextPage
  split_ifs with hpush
  all_goals
    refine ⟨⟨h.pages, h.fits, by simpa [writeCursor] using h.write, fun p _ => ?_, ?_, h.le, h.lap, h.avail⟩, ?_, rfl,
      fun p => ⟨?_, by simp⟩⟩
  · simpa using h.readOffset_cleared p
  · obtain ⟨hpage, -⟩ := mk.inj (of_decide_eq_true hpush)
    exact fun p _ => by simpa [hpage] using h.ndReadOffset_cleared p
  · change ((ctx.setReadOffset ctx.readPage 0).setNdReadOffset ctx.readPage 0).flat = _
    simp
  · simpa using h.readOffset_cleared p
  · exact h.readOffset_cleared p
  · simpa using h.ndReadOther
  · exact ctx.flat_setReadOffset _ _
  · exact h.readOffset_cleared p

theorem dropToNextPage_isNdReadEqualRead (hpos : nd ≠ r → 0 < nd) :
    ctx.dropToNextPage.isNdReadEqualRead = ctx.isNdReadEqualRead ∧
      (ctx.isNdReadEqualRead = false → ctx.dropToNextPage.ndReadCursor = ctx.ndReadCursor) := by
  obtain ⟨-, -, -, hclr⟩ := h.dropToNextPage_frame
  cases hpush : ctx.isNdReadEqualRead with
  | true =>
    obtain ⟨hpage, -⟩ := mk.inj (of_decide_eq_true hpush)
    have hnd := h.ndReadOffset_cleared
    rw [isNdReadEqualRead, decide_eq_true_eq, readCursor, (hclr _).1]
    simp only [dropToNextPage, hpush, ↓reduceIte, ndReadCursor, Prod.mk.injEq, true_and]
    simpa [hpage] using hnd _
  | false =>
    have hcrs : ctx.dropToNextPage.ndReadCursor = ctx.ndReadCursor := by
      simp [dropToNextPage, hpush, ndReadCursor]
    refine ⟨?_, fun _ => hcrs⟩
    rw [isNdReadEqualRead, decide_eq_false_iff_not, hcrs, readCursor, (hclr _).1]
    intro hzero
    have hne : nd ≠ r := by
      rw [ne_eq, ← h.isNdReadEqualRead_iff, hpush]
      simp
    exact (hpos hne).ne' (h.ndRead.zero (mk.inj hzero).2)

end

theorem flat_dropBytes (ctx : LogContext) (b n : ℕ) : (ctx.dropBytes b n).flat = ctx.flat := by
  unfold dropBytes
  dsimp only
  split_ifs
  · rw [flat_setNdReadOffset]
    exact ctx.flat_setReadOffset _ _
  · exact ctx.flat_setReadOffset _ _

/-- A drop takes the second cursor along if it has to. -/
theorem ipcLogDrop_spec (h : LogInv N ctx r nd w) (hmax : n ≤ LOG_PAGE_DATA_SIZE)
    (hn : r + n ≤ w) (hnd : nd = r ∨ r + n ≤ nd) :
    (ctx.ipcLogDrop n).1 = window (N * LOG_PAGE_DATA_SIZE) ctx.flat r n ∧
      LogInv N (ctx.ipcLogDrop n).2 (r + n) (max nd (r + n)) w ∧
      (ctx.ipcLogDrop n).2.flat = ctx.flat := by
  have hat := h.read
  have hoff : (ctx.page ctx.readPage).readOffset ≤ LOG_PAGE_DATA_SIZE := hat.offset_le
  have hndle : max nd (r + n) ≤ w := max_le h.ndRead_le hn
  have hpush : ctx.isNdReadEqualRead = true → max nd (r + n) = r + n := by
    intro heql
    rw [h.isNdReadEqualRead_iff.mp heql, max_eq_right (by omega)]
  have hkeep : ctx.isNdReadEqualRead = false → max nd (r + n) = nd := by
    rw [← Bool.not_eq_true, h.isNdReadEqualRead_iff]
    exact fun hne => max_eq_left (hnd.resolve_left hne)
  unfold ipcLogDrop
  dsimp only
  by_cases hfit : (ctx.page ctx.readPage).readOffset + n ≤ LOG_PAGE_DATA_SIZE
  · have hmin : min (LOG_PAGE_DATA_SIZE - (ctx.page ctx.readPage).readOffset) n = n := by omega
    rw [hmin, if_neg (by simp)]
    exact ⟨ctx.slice_eq_window_of_fit hat hfit,
      h.dropBytes_spec hpush (fun hne => by rw [hkeep hne]; exact h.ndRead) (hat.advance hfit) (le_max_right _ _)
        hndle,
      flat_dropBytes _ _ _⟩
  · have hmin : min (LOG_PAGE_DATA_SIZE - (ctx.page ctx.readPage).readOffset) n =
        LOG_PAGE_DATA_SIZE - (ctx.page ctx.readPage).readOffset := by omega
    have hwrap := hat.wrap (by omega) hmax
    rw [← h.getNextPage_eq] at hwrap
    obtain ⟨hfr, hflat, hpage, hclr⟩ := h.dropToNextPage_frame
    have hrest : n - (LOG_PAGE_DATA_SIZE - (ctx.page ctx.readPage).readOffset) =
        (ctx.page ctx.readPage).readOffset + n - LOG_PAGE_DATA_SIZE := by omega
    rw [hmin, if_pos (by omega), hrest, hpage, (hclr _).1, (hclr _).2]
    refine ⟨ctx.slice_eq_window_of_wrap hat hwrap (by omega), ?_, ?_⟩
    · have hread : At N (r + n) (ctx.dropToNextPage.readPage,
          (ctx.dropToNextPage.page ctx.dropToNextPage.readPage).readOffset +
            ((ctx.page ctx.readPage).readOffset + n - LOG_PAGE_DATA_SIZE)) := by
        rw [hpage, (hclr _).1, zero_add]
        exact hwrap
      obtain ⟨heql, hcrs⟩ := h.dropToNextPage_isNdReadEqualRead (by omega)
      rw [← heql] at hpush hkeep
      refine hfr.dropBytes_spec hpush (fun hne => ?_) hread (le_max_right _ _) hndle
      rw [hkeep hne, hcrs (heql ▸ hne)]
      exact h.ndRead
    · rw [flat_dropBytes, hflat]

end LogInv

structure SameReaders (ctx ctx' : LogContext) : Prop where
  lastPage : ctx'.lastPage = ctx.lastPage
  readPage : ctx'.readPage = ctx.readPage
  ndReadPage : ctx'.ndReadPage = ctx.ndReadPage
  readOffset : ∀ q, (ctx'.page q).readOffset = (ctx.page q).readOffset
  ndReadOffset : ∀ q, (ctx'.page q).ndReadOffset = (ctx.page q).ndReadOffset

theorem SameReaders.trans {a b c : LogContext} (h : SameReaders a b) (h' : SameReaders b c) : SameReaders a c :=
  ⟨h'.lastPage.trans h.lastPage, h'.readPage.trans h.readPage, h'.ndReadPage.trans h.ndReadPage,
    fun q => (h'.readOffset q).trans (h.readOffset q),
    fun q => (h'.ndReadOffset q).trans (h.ndReadOffset q)⟩

theorem SameReaders.setWritePage {a b : LogContext} (h : SameReaders a b) (p : ℕ) :
    SameReaders a { b with writePage := p } :=
  { h with }

namespace LogContext

variable {n m : ℕ} {ctx : LogContext} {ectxt : EncodeContext}

section
variable (ctx : LogContext)

theorem sameReaders_setPage (p : ℕ) {pg : LogPage} (hr : pg.readOffset = (ctx.page p).readOffset)
    (hnd : pg.ndReadOffset = (ctx.page p).ndReadOffset) : SameReaders ctx (ctx.setPage p pg) := by
  refine ⟨rfl, rfl, rfl, fun q => ?_, fun q => ?_⟩
  all_goals
    by_cases hq : q = p
    · subst hq
      simpa [setPage]
    · simp [setPage, hq]

theorem sameReaders_writeBytes (src : ℕ → UInt8) (n : ℕ) : SameReaders ctx (ctx.writeBytes src n) :=
  sameReaders_setPage ctx _ rfl rfl

theorem sameReaders_enterNextPage (tNow : ℕ) : SameReaders ctx (ctx.enterNextPage tNow) := by
  have hset : SameReaders ctx (ctx.setPage ctx.writePage { ctx.page ctx.writePage with endTime := tNow }) :=
    sameReaders_setPage ctx _ rfl rfl
  refine SameReaders.setWritePage (hset.trans ?_) (ctx.getNextPage ctx.writePage)
  exact sameReaders_setPage _ _ rfl rfl

theorem writeCursor_writeBytes (src : ℕ → UInt8) (n : ℕ) :
    (ctx.writeBytes src n).writeCursor = (ctx.writeCursor.1, ctx.writeCursor.2 + n) := by
  simp [writeCursor, writeBytes, setPage]

end

theorem flat_writeBytes (src : ℕ → UInt8) (hn : ctx.writeCursor.2 + n ≤ LOG_PAGE_DATA_SIZE) :
    (ctx.writeBytes src n).flat =
      memcpy ctx.flat (ctx.writeCursor.1 * LOG_PAGE_DATA_SIZE + ctx.writeCursor.2) src n :=
  flat_setPage_memcpy hn rfl

theorem enterNextPage_spec (ctx : LogContext) (tNow : ℕ) :
    (ctx.enterNextPage tNow).writeCursor = (ctx.getNextPage ctx.writePage, 0) ∧
      (ctx.enterNextPage tNow).flat = ctx.flat := by
  constructor
  · simp [enterNextPage, writeCursor, setPage]
  · have hflat : (ctx.setPage ctx.writePage
        { ctx.page ctx.writePage with endTime := tNow }).flat = ctx.flat :=
      flat_setPage_of_data rfl
    refine Eq.trans ?_ hflat
    exact flat_setPage_of_data rfl

theorem copyMessage_of_fit (tNow : ℕ) (hfit : ctx.writeCursor.2 + ectxt.offset ≤ LOG_PAGE_DATA_SIZE) :
    ctx.copyMessage ectxt tNow = ctx.writeBytes ectxt.buff ectxt.offset := by
  rw [writeCursor] at hfit
  have hmin : min (LOG_PAGE_DATA_SIZE - (ctx.page ctx.writePage).writeOffset) ectxt.offset =
      ectxt.offset := by omega
  rw [copyMessage, hmin, if_neg (by simp)]

theorem copyMessage_of_wrap (tNow : ℕ) (hm : ctx.writeCursor.2 + m = LOG_PAGE_DATA_SIZE) (hlt : m < ectxt.offset) :
    ctx.copyMessage ectxt tNow =
      ((ctx.writeBytes ectxt.buff m).enterNextPage tNow).writeBytes
        (fun i => ectxt.buff (m + i)) (ectxt.offset - m) := by
  rw [writeCursor] at hm
  have hmin : min (LOG_PAGE_DATA_SIZE - (ctx.page ctx.writePage).writeOffset) ectxt.offset = m := by
    omega
  rw [copyMessage, hmin, if_pos hlt.ne]

section
variable (ectxt : EncodeContext) (tNow : ℕ)

theorem commit_writeAvail :
    (ctx.commit ectxt tNow).writeAvail = (ctx.writeAvail + 2 ^ 32 - ectxt.offset) % 2 ^ 32 := by
  rw [commit]

theorem commit_flat : (ctx.commit ectxt tNow).flat = (ctx.copyMessage ectxt tNow).flat := by
  funext a
  rw [commit, flat, flat]

theorem commit_writeCursor : (ctx.commit ectxt tNow).writeCursor = (ctx.copyMessage ectxt tNow).writeCursor := by
  rw [commit, writeCursor, writeCursor]

end

end LogContext

theorem SameReaders.commit {ctx : LogContext} {ectxt : EncodeContext} {tNow : ℕ}
    (h : SameReaders ctx (ctx.copyMessage ectxt tNow)) :
    SameReaders ctx (ctx.commit ectxt tNow) := by
  rw [LogContext.commit]
  exact { h with }

/-- The write cursor after a message, the data it has copied and the data it has left alone. -/
theorem LogFrame.copyMessage_spec {N r w : ℕ} {ctx : LogContext} (h : LogFrame N ctx r w)
    (ectxt : EncodeContext) (tNow : ℕ) (hmax : ectxt.offset ≤ LOG_PAGE_DATA_SIZE) :
    SameReaders ctx (ctx.copyMessage ectxt tNow) ∧
      At N (w + ectxt.offset) (ctx.copyMessage ectxt tNow).writeCursor ∧
      window (N * LOG_PAGE_DATA_SIZE) (ctx.copyMessage ectxt tNow).flat w ectxt.offset =
        slice ectxt.buff 0 ectxt.offset ∧
      ∀ y n, y + n ≤ w → w + ectxt.offset ≤ y + N * LOG_PAGE_DATA_SIZE →
        window (N * LOG_PAGE_DATA_SIZE) (ctx.copyMessage ectxt tNow).flat y n =
          window (N * LOG_PAGE_DATA_SIZE) ctx.flat y n := by
  have hat : At N w (ctx.writeCursor.1, ctx.writeCursor.2) := h.write
  have hmod := h.write.modEq
  have hend := h.write.page_end_le
  by_cases hfit : ctx.writeCursor.2 + ectxt.offset ≤ LOG_PAGE_DATA_SIZE
  · rw [copyMessage_of_fit tNow hfit]
    refine ⟨ctx.sameReaders_writeBytes _ _, ?_, ?_, ?_⟩
    · rw [writeCursor_writeBytes]
      exact hat.advance hfit
    · rw [flat_writeBytes _ hfit, window_memcpy_self _ _ hmod (by omega)]
    · intro y n hy hlap
      rw [flat_writeBytes _ hfit, window_memcpy_frame _ _ hmod (by omega) hy hlap]
  · obtain ⟨m, hm⟩ := Nat.exists_eq_add_of_le h.write.offset_le
    obtain ⟨rest, hrest⟩ := Nat.exists_eq_add_of_le (by omega : m ≤ ectxt.offset)
    have hwrap := hat.wrap (by omega : LOG_PAGE_DATA_SIZE < _ + ectxt.offset) hmax
    rw [← h.getNextPage_eq, show ctx.writeCursor.2 + ectxt.offset - LOG_PAGE_DATA_SIZE = rest by
      omega, hrest, ← add_assoc] at hwrap
    have hini := modEq_page_start hwrap
    have hend' := hwrap.page_end_le
    rw [copyMessage_of_wrap tNow hm.symm (by omega), hrest, Nat.add_sub_cancel_left]
    obtain ⟨hcrs, hflat⟩ := (ctx.writeBytes ectxt.buff m).enterNextPage_spec tNow
    have hnext : (ctx.writeBytes ectxt.buff m).getNextPage (ctx.writeBytes ectxt.buff m).writePage =
      ctx.getNextPage ctx.writeCursor.1 := rfl
    rw [hnext] at hcrs
    rw [flat_writeBytes ectxt.buff (by omega)] at hflat
    have hflat' : (((ctx.writeBytes ectxt.buff m).enterNextPage tNow).writeBytes
        (fun i => ectxt.buff (m + i)) rest).flat = _ :=
      flat_writeBytes _ (by rw [hcrs]; omega)
    rw [hflat] at hflat'
    dsimp only at hflat' hend'
    rw [hflat', writeCursor_writeBytes, hcrs, zero_add, ← add_assoc]
    refine ⟨?_, hwrap, ?_, ?_⟩
    · exact (ctx.sameReaders_writeBytes _ _).trans
        ((sameReaders_enterNextPage _ _).trans (sameReaders_writeBytes _ _ _))
    · -- the second copy leaves the first one alone
      rw [window_add, window_memcpy_frame _ _ hini (by omega) le_rfl (by omega),
        window_memcpy_self _ _ hmod (by omega), window_memcpy_self _ _ hini (by omega), slice_add]
      congr 1
      exact slice_congr fun j _ => by rw [zero_add, zero_add]
    · intro y n hy hlap
      rw [window_memcpy_frame _ _ hini (by omega) (by omega) (by omega),
        window_memcpy_frame _ _ hmod (by omega) hy (by omega)]

namespace LogInv

variable {N r nd w n : ℕ} {ctx : LogContext}

theorem commit_spec (h : LogInv N ctx r nd w) (ectxt : EncodeContext) (tNow : ℕ)
    (hmax : ectxt.offset ≤ LOG_PAGE_DATA_SIZE) (hroom : ectxt.offset < ctx.writeAvail) :
    LogInv N (ctx.commit ectxt tNow) r nd (w + ectxt.offset) := by
  obtain ⟨hcopy, hwr, -, -⟩ := h.copyMessage_spec ectxt tNow hmax
  have hsame : SameReaders ctx (ctx.commit ectxt tNow) := hcopy.commit
  rw [← commit_writeCursor] at hwr
  have hav := h.avail
  have hfits := h.fits
  have hrw := h.le
  have hle := h.ndRead_le
  refine ⟨⟨by rw [hsame.lastPage, h.pages], h.fits, hwr, ?_, ?_, by omega, by omega, ?_⟩,
    ?_, ?_, h.read_le, by omega⟩
  · intro p hp
    rw [hsame.readOffset]
    exact h.readOther p (hsame.readPage ▸ hp)
  · intro p hp
    rw [hsame.ndReadOffset]
    exact h.ndReadOther p (hsame.ndReadPage ▸ hp)
  · rw [commit_writeAvail]
    have hmod : ctx.writeAvail + 2 ^ 32 - ectxt.offset = (ctx.writeAvail - ectxt.offset) + 2 ^ 32 := by omega
    rw [hmod]
    omega
  · rw [readCursor, hsame.readPage, hsame.readOffset]
    exact h.read
  · rw [ndReadCursor, hsame.ndReadPage, hsame.ndReadOffset]
    exact h.ndRead

end LogInv

end VendorKernel.Ipc
