import Colas.Library.Windows
import Colas.Utilities.Tag

/-!
# The throughput that the log parser prints

`TaskThroughput` reads a log line by line, takes the time of day from each line, and prints how many
lines there are in each minute. Times of day are records of `uint64`, and their distance is what
`GetTimeInterS` computes after `timeCompare` has said which of the two is the later one.

`timeCompare` returns after it has compared the hours. `GetTimeInterS` is therefore the distance of
two times, in either order, exactly if their hours differ or the times agree
(`interval_exact_iff`). The times of a log do not decrease, and then the windows are cut where they
should be, but the line that opens a window after the first is not counted
(`throughput_of_times`). Nothing is lost exactly in logs that fit into their first window and have
no line that is too long for the scanner (`losesNothing_iff`).

A file has fewer than `2 ^ 64` lines, so the count of a window is a natural number. A piece of a
line that is not there, and digits that `ParseUint` refuses, stop the program and are the absence of
a result.
-/

set_option autoImplicit false
set_option relaxedAutoImplicit false

namespace Colas.LogParser

open Windows

/-! ### Times of day -/

/-- `timeCustom`. -/
structure TimeCustom where
  /-- `Hour`. -/
  hour : UInt64
  /-- `Minute`. -/
  minute : UInt64
  /-- `Second`. -/
  second : UInt64
  /-- `Ms`. -/
  ms : UInt64
  /-- `Us`. -/
  us : UInt64
  deriving DecidableEq

/-- `timeCompare`. Both branches of its first comparison return, so that it never comes to the
others. -/
def timeCompare (lhs rhs : TimeCustom) : ℤ := if lhs.hour > rhs.hour then -1 else 1

/-- The seconds of a time in `uint64`, as `GetTimeInterS` computes them. -/
def TimeCustom.word (t : TimeCustom) : UInt64 := t.hour * 3600 + t.minute * 60 + t.second

/-- `GetTimeInterS`. -/
def getTimeInterS (s e : TimeCustom) : UInt64 :=
  let left := if timeCompare s e < 0 then e.word else s.word
  let right := if timeCompare s e < 0 then s.word else e.word
  right - left

/-- The record is a time of day. -/
def TimeCustom.IsTimeOfDay (t : TimeCustom) : Prop := t.hour < 24 ∧ t.minute < 60 ∧ t.second < 60

instance (t : TimeCustom) : Decidable t.IsTimeOfDay :=
  inferInstanceAs (Decidable (t.hour < 24 ∧ t.minute < 60 ∧ t.second < 60))

/-- The seconds since midnight. -/
def TimeCustom.seconds (t : TimeCustom) : ℕ :=
  t.hour.toNat * 3600 + t.minute.toNat * 60 + t.second.toNat

section Interval

variable {s e : TimeCustom}

theorem TimeCustom.IsTimeOfDay.toNat_lt (h : s.IsTimeOfDay) :
    s.hour.toNat < 24 ∧ s.minute.toNat < 60 ∧ s.second.toNat < 60 := h

theorem TimeCustom.IsTimeOfDay.seconds_lt (h : s.IsTimeOfDay) : s.seconds < 86400 := by
  obtain ⟨hhour, hminute, hsecond⟩ := h.toNat_lt
  rw [TimeCustom.seconds]
  omega

/-- The seconds of a time of day fit into `uint64`. -/
theorem TimeCustom.IsTimeOfDay.toNat_word (h : s.IsTimeOfDay) : s.word.toNat = s.seconds := by
  obtain ⟨hhour, hminute, hsecond⟩ := h.toNat_lt
  simp only [TimeCustom.word, TimeCustom.seconds, UInt64.toNat_add, UInt64.toNat_mul,
    UInt64.reduceToNat]
  omega

/-- A time with a later hour is later. -/
theorem seconds_lt_of_hour_lt (hs : s.IsTimeOfDay) (hlt : s.hour < e.hour) :
    s.seconds < e.seconds := by
  obtain ⟨-, hminute, hsecond⟩ := hs.toNat_lt
  have hhour : s.hour.toNat < e.hour.toNat := hlt
  simp only [TimeCustom.seconds]
  omega

/-- Two times of day agree if they are in the same hour and equally many seconds after midnight. -/
theorem minute_second_eq_iff (hs : s.IsTimeOfDay) (he : e.IsTimeOfDay) (hhour : s.hour = e.hour) :
    s.minute = e.minute ∧ s.second = e.second ↔ s.seconds = e.seconds := by
  obtain ⟨-, -, hs⟩ := hs.toNat_lt
  obtain ⟨-, -, he⟩ := he.toNat_lt
  simp only [TimeCustom.seconds, hhour, ← UInt64.toNat_inj]
  omega

/-- The seconds of the first time are subtracted if its hour is not the later one. -/
theorem getTimeInterS_of_hour_le (hle : s.hour ≤ e.hour) : getTimeInterS s e = e.word - s.word := by
  simp [getTimeInterS, timeCompare, UInt64.not_lt.mpr hle]

/-- The seconds of the second time are subtracted if its hour is earlier. -/
theorem getTimeInterS_of_hour_lt (hlt : e.hour < s.hour) : getTimeInterS s e = s.word - e.word := by
  simp [getTimeInterS, timeCompare, hlt]

/-- A difference that is not negative is computed as it is. -/
theorem toNat_word_sub (hs : s.IsTimeOfDay) (he : e.IsTimeOfDay) (hle : s.seconds ≤ e.seconds) :
    (e.word - s.word).toNat = e.seconds - s.seconds := by
  rw [UInt64.toNat_sub_of_le, hs.toNat_word, he.toNat_word]
  rw [UInt64.le_iff_toNat_le, hs.toNat_word, he.toNat_word]
  exact hle

/-- A difference that is negative wraps. -/
theorem toNat_word_sub_wraps (hs : s.IsTimeOfDay) (he : e.IsTimeOfDay)
    (hlt : e.seconds < s.seconds) :
    (e.word - s.word).toNat = 2 ^ 64 - (s.seconds - e.seconds) := by
  have hsmall := hs.seconds_lt
  rw [UInt64.toNat_sub, hs.toNat_word, he.toNat_word]
  omega

/-- Differences that agree in both directions are zero. -/
theorem seconds_eq_of_word_sub_eq (hs : s.IsTimeOfDay) (he : e.IsTimeOfDay)
    (h : e.word - s.word = s.word - e.word) : s.seconds = e.seconds := by
  have hssmall := hs.seconds_lt
  have hesmall := he.seconds_lt
  have heq := congrArg UInt64.toNat h
  rcases lt_trichotomy s.seconds e.seconds with hlt | heq' | hlt
  · rw [toNat_word_sub hs he hlt.le, toNat_word_sub_wraps he hs hlt] at heq
    omega
  · exact heq'
  · rw [toNat_word_sub_wraps hs he hlt, toNat_word_sub he hs hlt.le] at heq
    omega

/-- The interval from an earlier time to a later one. -/
theorem toNat_getTimeInterS (hs : s.IsTimeOfDay) (he : e.IsTimeOfDay)
    (hle : s.seconds ≤ e.seconds) : (getTimeInterS s e).toNat = e.seconds - s.seconds := by
  have hhour : s.hour ≤ e.hour := by
    by_contra hlt
    exact absurd (seconds_lt_of_hour_lt he (UInt64.not_le.mp hlt)) (not_lt.mpr hle)
  rw [getTimeInterS_of_hour_le hhour, toNat_word_sub hs he hle]

/-- The interval is the distance of the times and does not depend on their order exactly if the
hours differ or the times agree. -/
theorem interval_exact_iff (hs : s.IsTimeOfDay) (he : e.IsTimeOfDay) :
    ((getTimeInterS s e).toNat : ℤ) = |(s.seconds : ℤ) - e.seconds| ∧
        getTimeInterS s e = getTimeInterS e s ↔
      s.hour ≠ e.hour ∨ s.minute = e.minute ∧ s.second = e.second := by
  by_cases heq : s.hour = e.hour
  · rw [getTimeInterS_of_hour_le (heq ▸ UInt64.le_refl _),
      getTimeInterS_of_hour_le (heq ▸ UInt64.le_refl _),
      minute_second_eq_iff hs he heq]
    refine ⟨?_, ?_⟩
    · rintro ⟨-, hsymm⟩
      exact Or.inr (seconds_eq_of_word_sub_eq hs he hsymm)
    · rintro (hne | hseconds)
      · exact absurd heq hne
      · have hword : s.word = e.word := by
          rw [← UInt64.toNat_inj, hs.toNat_word, he.toNat_word, hseconds]
        rw [hword, hseconds]
        simp
  · have hne : s.hour.toNat ≠ e.hour.toNat := fun h ↦ heq (UInt64.toNat_inj.mp h)
    rcases hne.lt_or_gt with hlt | hlt
    · have hseconds := seconds_lt_of_hour_lt hs hlt
      rw [getTimeInterS_of_hour_le (UInt64.le_of_lt hlt), getTimeInterS_of_hour_lt hlt,
        toNat_word_sub hs he hseconds.le]
      refine iff_of_true ⟨?_, rfl⟩ (Or.inl heq)
      rw [abs_of_nonpos (by omega)]
      omega
    · have hseconds := seconds_lt_of_hour_lt he hlt
      rw [getTimeInterS_of_hour_lt hlt, getTimeInterS_of_hour_le (UInt64.le_of_lt hlt),
        toNat_word_sub he hs hseconds.le]
      refine iff_of_true ⟨?_, rfl⟩ (Or.inl heq)
      rw [abs_of_nonneg (by omega)]
      omega

/-- Two times half a minute apart, on both sides of a full hour. -/
theorem interval_exact_across_hours :
    ((getTimeInterS ⟨11, 0, 0, 0, 0⟩ ⟨10, 59, 30, 0, 0⟩).toNat : ℤ) =
        |((TimeCustom.mk 11 0 0 0 0).seconds : ℤ) - (TimeCustom.mk 10 59 30 0 0).seconds| ∧
      getTimeInterS ⟨11, 0, 0, 0, 0⟩ ⟨10, 59, 30, 0, 0⟩ =
        getTimeInterS ⟨10, 59, 30, 0, 0⟩ ⟨11, 0, 0, 0, 0⟩ :=
  (interval_exact_iff (by decide) (by decide)).mpr (by decide)

/-- Within an hour, the interval from a later time to an earlier one wraps. -/
theorem not_interval_exact :
    (TimeCustom.mk 10 0 5 0 0).IsTimeOfDay ∧ (TimeCustom.mk 10 0 0 0 0).IsTimeOfDay ∧
      getTimeInterS ⟨10, 0, 5, 0, 0⟩ ⟨10, 0, 0, 0, 0⟩ = 18446744073709551611 ∧
      getTimeInterS ⟨10, 0, 0, 0, 0⟩ ⟨10, 0, 5, 0, 0⟩ = 5 ∧
      ¬ (((getTimeInterS ⟨10, 0, 5, 0, 0⟩ ⟨10, 0, 0, 0, 0⟩).toNat : ℤ) =
            |((TimeCustom.mk 10 0 5 0 0).seconds : ℤ) - (TimeCustom.mk 10 0 0 0 0).seconds| ∧
          getTimeInterS ⟨10, 0, 5, 0, 0⟩ ⟨10, 0, 0, 0, 0⟩ =
            getTimeInterS ⟨10, 0, 0, 0, 0⟩ ⟨10, 0, 5, 0, 0⟩) := by
  decide

end Interval

/-! ### Lines of a log -/

/-- `strings.Split` for a separator that is not empty. The number counts the bytes of a separator
that are still to be skipped. -/
def splitAfter (sep : CString) : ℕ → CString → List CString
  | _, [] => [[]]
  | skip + 1, _ :: rest => splitAfter sep skip rest
  | 0, b :: rest =>
    if sep <+: b :: rest then [] :: splitAfter sep (sep.length - 1) rest
    else (splitAfter sep 0 rest).modifyHead (b :: ·)

/-- `strings.Split`. -/
def split (s : CString) (sep : List Char) : List CString := splitAfter (ascii sep) 0 s

/-- `strconv.ParseUint` with base 10 and 64 bits. -/
def parseUint (s : CString) : Option UInt64 :=
  if s ≠ [] ∧ s.all isDigit ∧ digitsValue s < 2 ^ 64 then
    some (UInt64.ofNat (digitsValue s).toNat)
  else none

/-- `parseTimeFromLog`. -/
def parseTimeFromLog (t : CString) : Option TimeCustom := do
  let a := split t ['.']
  let b := split (← a[0]?) [':']
  let hour ← parseUint (← b[0]?)
  let min ← parseUint (← b[1]?)
  let sec ← parseUint (← b[2]?)
  some ⟨hour, min, sec, 0, 0⟩

/-- The time of a line of `TaskThroughput`. -/
def lineTime (line : CString) : Option TimeCustom := do
  let lr := split line [' ', '-', ' ']
  let timeLine ← (split (← lr[0]?) [' '])[1]?
  let _logLine ← lr[1]?
  parseTimeFromLog timeLine

/-- The end of a line. -/
def newline : Byte := 10

/-- The lines of a file. The last one may have no end. -/
def fileLines (file : List Byte) : List CString :=
  let pieces := file.splitOn newline
  if pieces.getLast? = some [] then pieces.dropLast else pieces

/-- `bufio.MaxScanTokenSize`. -/
def maxScanTokenSize : ℕ := 65536

/-- `bufio.dropCR`. -/
def dropCR (line : CString) : CString := if line.getLast? = some 13 then line.dropLast else line

/-- The lines that `bufio.Scanner` returns: it stops, with an error for which `TaskThroughput` does
not ask, at a line that does not fit into its buffer together with its end. -/
def scanLines (file : List Byte) : List CString :=
  ((fileLines file).takeWhile fun line ↦ decide (line.length < maxScanTokenSize)).map dropCR

/-- The variables of `TaskThroughput` and what it has printed. -/
structure Throughput where
  /-- `baseTime`. -/
  baseTime : TimeCustom
  /-- `nTasks`. -/
  nTasks : ℕ
  /-- `firstLine`. -/
  firstLine : Bool
  /-- The numbers that have been printed. -/
  printed : List ℕ
  deriving DecidableEq

/-- The variables before the loop. -/
def Throughput.start : Throughput := ⟨⟨0, 0, 0, 0, 0⟩, 0, true, []⟩

/-- What the loop does with the time of a line. -/
def Throughput.count (s : Throughput) (t : TimeCustom) : Throughput :=
  let baseTime := if s.firstLine then t else s.baseTime
  if getTimeInterS baseTime t > 60 then ⟨t, 0, false, s.printed ++ [s.nTasks]⟩
  else ⟨baseTime, s.nTasks + 1, false, s.printed⟩

/-- One turn of the loop. -/
def Throughput.turn (s : Throughput) (line : CString) : Option Throughput := do
  let t ← lineTime line
  some (s.count t)

/-- `TaskThroughput`, with the variables at its end. -/
def taskThroughput (file : List Byte) : Option Throughput :=
  (scanLines file).foldlM Throughput.turn Throughput.start

/-! ### Windows -/

/-- A time is more than 60 seconds after another one. -/
def Late (first t : TimeCustom) : Prop := first.seconds + 60 < t.seconds

instance : DecidableRel Late := fun first t ↦
  inferInstanceAs (Decidable (first.seconds + 60 < t.seconds))

/-- The number of windows of a list of times that have been closed, where a time opens a window if
it is more than 60 seconds after the first time of the window before. -/
def closedWindows : List TimeCustom → ℕ
  | [] => 0
  | first :: rest => (windows Late first rest).closed.length

/-- The variables after the times of the windows: the window that is open has begun at `baseTime`,
one number has been printed for each window that is closed, and the time that has opened a window
after the first is not in any number. -/
structure Throughput.Counts (s : Throughput) (w : Windows TimeCustom) : Prop where
  /-- There has been a line. -/
  firstLine : s.firstLine = false
  /-- The open window has begun at `baseTime`. -/
  baseTime : s.baseTime = w.first
  /-- A number has been printed for each closed window. -/
  printed : s.printed.length = w.closed.length
  /-- The other times are in the numbers. -/
  sum : s.printed.sum + s.nTasks + w.closed.length = w.size

section Throughput

variable {s : Throughput} {w : Windows TimeCustom} {t first : TimeCustom} {times : List TimeCustom}
  {file : List Byte}

/-- `GetTimeInterS` finds the times that are late. -/
theorem interval_gt_iff (hs : first.IsTimeOfDay) (ht : t.IsTimeOfDay)
    (hle : first.seconds ≤ t.seconds) : getTimeInterS first t > 60 ↔ Late first t := by
  have hinterval := toNat_getTimeInterS hs ht hle
  have hword : (60 : UInt64).toNat = 60 := rfl
  rw [gt_iff_lt, UInt64.lt_iff_toNat_lt, hinterval, hword, Late]
  omega

theorem Throughput.Counts.count (h : s.Counts w) (hfirst : w.first.IsTimeOfDay)
    (ht : t.IsTimeOfDay) (hle : w.first.seconds ≤ t.seconds) :
    (s.count t).Counts (w.push Late t) := by
  have hlate := interval_gt_iff hfirst ht hle
  have hsum := h.sum
  have hprinted := h.printed
  have hcount : s.count t = if getTimeInterS w.first t > 60 then
      ⟨t, 0, false, s.printed ++ [s.nTasks]⟩ else ⟨w.first, s.nTasks + 1, false, s.printed⟩ := by
    simp [Throughput.count, h.firstLine, h.baseTime]
  by_cases hcloses : Late w.first t
  · rw [hcount, if_pos (hlate.mpr hcloses)]
    refine ⟨rfl, ?_, ?_, ?_⟩
    · rw [push_of_closes Late hcloses]
    · rw [push_of_closes Late hcloses]
      simp [all, hprinted]
    · rw [size_push, push_of_closes Late hcloses]
      simp only [List.sum_append, List.sum_singleton, all, List.length_append,
        List.length_singleton]
      omega
  · rw [hcount, if_neg fun hgt ↦ hcloses (hlate.mp hgt)]
    refine ⟨rfl, ?_, ?_, ?_⟩
    · rw [push_of_not_closes Late hcloses]
    · rw [push_of_not_closes Late hcloses]
      exact hprinted
    · rw [size_push, push_of_not_closes Late hcloses]
      dsimp only
      omega

/-- The first line opens a window and is counted. -/
theorem counts_start (ht : t.IsTimeOfDay) :
    (Throughput.start.count t).Counts (windows Late t []) := by
  have hnot : ¬ getTimeInterS t t > 60 := by
    rw [interval_gt_iff ht ht le_rfl, Late]
    omega
  have hcount : Throughput.start.count t = ⟨t, 1, false, []⟩ := by
    simp only [Throughput.count, Throughput.start, if_true, if_neg hnot]
  rw [hcount]
  exact ⟨rfl, rfl, rfl, rfl⟩

/-- What is printed for a list of times that do not decrease: a number for each closed window, and
all times but those that have closed one are in the numbers. -/
theorem throughput_of_times (hday : ∀ t ∈ times, t.IsTimeOfDay)
    (hsorted : times.Pairwise fun t t' ↦ t.seconds ≤ t'.seconds) :
    (times.foldl Throughput.count Throughput.start).printed.length = closedWindows times ∧
      (times.foldl Throughput.count Throughput.start).printed.sum +
        (times.foldl Throughput.count Throughput.start).nTasks + closedWindows times =
          times.length := by
  cases times with
  | nil => exact ⟨rfl, rfl⟩
  | cons first rest =>
    have hcounts : ((first :: rest).foldl Throughput.count Throughput.start).Counts
        (windows Late first rest) := by
      induction rest using List.reverseRecOn with
      | nil => exact counts_start (hday first List.mem_cons_self)
      | append_singleton rest t ih =>
        rw [← List.cons_append] at hday hsorted ⊢
        obtain ⟨hrest, -, hle⟩ := List.pairwise_append.mp hsorted
        have hmem := first_windows_mem Late first rest
        rw [List.foldl_append, windows_concat]
        refine (ih (fun t ht ↦ hday t (List.mem_append_left _ ht)) hrest).count ?_ ?_ ?_
        · exact hday _ (List.mem_append_left _ hmem)
        · exact hday t (List.mem_append_right _ (List.mem_singleton_self t))
        · exact hle _ hmem t (List.mem_singleton_self t)
    refine ⟨hcounts.printed, ?_⟩
    rw [closedWindows, hcounts.sum, size_windows, List.length_cons]

/-- The lines of a log have times of day that do not decrease. -/
structure IsLog (file : List Byte) (times : List TimeCustom) : Prop where
  /-- The times of the lines. -/
  lineTime : (fileLines file).map (fun line ↦ lineTime (dropCR line)) = times.map some
  /-- They are times of day. -/
  isTimeOfDay : ∀ t ∈ times, t.IsTimeOfDay
  /-- They do not decrease. -/
  sorted : times.Pairwise fun t t' ↦ t.seconds ≤ t'.seconds

/-- What is wanted of the windows of a log. -/
structure LosesNothing (file : List Byte) (times : List TimeCustom) : Prop where
  /-- Each line is in one of the numbers that are printed or in the one that is pending. -/
  counted : ∃ s, taskThroughput file = some s ∧
    s.printed.sum + s.nTasks = (fileLines file).length
  /-- After any number of lines, one number has been printed for each window that is closed: a
  window is closed exactly by the first line more than 60 seconds after its first line. -/
  closed : ∀ n ≤ (scanLines file).length, ∃ s,
    ((scanLines file).take n).foldlM Throughput.turn Throughput.start = some s ∧
      s.printed.length = closedWindows (times.take n)

/-- The loop over lines that have times. -/
theorem foldlM_turn {lines : List CString} (h : lines.map lineTime = times.map some) :
    lines.foldlM Throughput.turn s = some (times.foldl Throughput.count s) := by
  induction lines generalizing s times with
  | nil =>
    obtain rfl : times = [] := by simpa using h.symm
    rfl
  | cons line lines ih =>
    obtain ⟨t, times, rfl⟩ : ∃ t times', times = t :: times' := by
      cases times with
      | nil => simp at h
      | cons t times => exact ⟨t, times, rfl⟩
    obtain ⟨hline, hlines⟩ := List.cons.inj h
    rw [List.foldlM_cons, Throughput.turn, hline, List.foldl_cons]
    exact ih hlines

theorem IsLog.length_times (h : IsLog file times) : times.length = (fileLines file).length := by
  have hlengths := congrArg List.length h.lineTime
  rw [List.length_map, List.length_map] at hlengths
  exact hlengths.symm

theorem length_scanLines_le (file : List Byte) :
    (scanLines file).length ≤ (fileLines file).length := by
  rw [scanLines, List.length_map]
  exact (List.takeWhile_prefix _).length_le

/-- The lines that the scanner returns have the first times of the log. -/
theorem map_lineTime_take (h : IsLog file times) {n : ℕ} (hn : n ≤ (scanLines file).length) :
    ((scanLines file).take n).map lineTime = (times.take n).map some := by
  obtain ⟨rest, hrest⟩ := List.takeWhile_prefix (l := fileLines file)
    fun line ↦ decide (line.length < maxScanTokenSize)
  have hlength := hn
  rw [scanLines, List.length_map] at hlength
  rw [List.map_take (f := some), ← h.lineTime, ← List.map_take (f := fun line ↦ _), ← hrest,
    List.take_append_of_le_length hlength, scanLines, ← List.map_take, List.map_map]
  rfl

/-- All lines are scanned exactly if all fit into the buffer. -/
theorem length_scanLines_eq_iff :
    (scanLines file).length = (fileLines file).length ↔
      ∀ line ∈ fileLines file, line.length < maxScanTokenSize := by
  have hinitial := List.takeWhile_prefix (l := fileLines file)
    fun line ↦ decide (line.length < maxScanTokenSize)
  have hall := List.takeWhile_eq_self_iff (l := fileLines file)
    (p := fun line ↦ decide (line.length < maxScanTokenSize))
  simp only [decide_eq_true_eq] at hall
  rw [scanLines, List.length_map, ← hall]
  exact ⟨hinitial.eq_of_length, congrArg List.length⟩

/-- No window of a list is closed exactly if no time is late after the first one. -/
theorem closedWindows_eq_zero_iff :
    closedWindows times = 0 ↔
      ∀ first ∈ times.head?, ∀ t ∈ times, t.seconds ≤ first.seconds + 60 := by
  cases times with
  | nil => simp [closedWindows]
  | cons first rest =>
    rw [closedWindows, List.length_eq_zero_iff, closed_windows_eq_nil_iff]
    simp [Late]

/-- What is printed when the scanner has returned some of its lines. -/
theorem IsLog.throughput (h : IsLog file times) {n : ℕ} (hn : n ≤ (scanLines file).length) :
    ∃ s, ((scanLines file).take n).foldlM Throughput.turn Throughput.start = some s ∧
      s.printed.length = closedWindows (times.take n) ∧
        s.printed.sum + s.nTasks + closedWindows (times.take n) = n := by
  have hle : n ≤ times.length := by
    rw [h.length_times]
    exact hn.trans (length_scanLines_le file)
  obtain ⟨hprinted, hsum⟩ := throughput_of_times
    (fun t ht ↦ h.isTimeOfDay t (List.mem_of_mem_take ht))
    (h.sorted.sublist (List.take_sublist n times))
  rw [List.length_take, min_eq_left hle] at hsum
  exact ⟨_, foldlM_turn (map_lineTime_take h hn), hprinted, hsum⟩

/-- Nothing of a log is lost exactly if no line is too long for the scanner and no line is more than
60 seconds after the first one. -/
theorem losesNothing_iff (h : IsLog file times) :
    LosesNothing file times ↔ (∀ line ∈ fileLines file, line.length < maxScanTokenSize) ∧
      ∀ first ∈ times.head?, ∀ t ∈ times, t.seconds ≤ first.seconds + 60 := by
  obtain ⟨s, hs, -, hsum⟩ := h.throughput le_rfl
  rw [List.take_length, ← taskThroughput] at hs
  have htake : (scanLines file).length = (fileLines file).length →
      times.take (scanLines file).length = times := fun hlength ↦
    List.take_of_length_le (by rw [hlength, h.length_times])
  rw [← length_scanLines_eq_iff, ← closedWindows_eq_zero_iff]
  constructor
  · rintro ⟨⟨s', hs', hcounted⟩, -⟩
    obtain rfl := Option.some.inj (hs.symm.trans hs')
    have hle := length_scanLines_le file
    have hlength : (scanLines file).length = (fileLines file).length := by omega
    rw [htake hlength] at hsum
    exact ⟨hlength, by omega⟩
  · rintro ⟨hlength, hnone⟩
    rw [htake hlength, hnone] at hsum
    refine ⟨⟨s, hs, hsum.trans hlength⟩, fun n hn ↦ ?_⟩
    obtain ⟨s', hs', hprinted, -⟩ := h.throughput hn
    exact ⟨s', hs', hprinted⟩

/-- A log with two lines in its only window. -/
def shortLog : List Byte :=
  ascii ['d', ' ', '9', ':', '0', ':', '0', ' ', '-', ' ', 'x', '\n',
    'd', ' ', '9', ':', '1', ':', '0', ' ', '-', ' ', 'y', '\n']

/-- A log whose second line closes the first window. -/
def longLog : List Byte :=
  ascii ['d', ' ', '9', ':', '0', ':', '0', ' ', '-', ' ', 'x', '\n',
    'd', ' ', '9', ':', '2', ':', '0', ' ', '-', ' ', 'y', '\n']

theorem losesNothing_shortLog : LosesNothing shortLog [⟨9, 0, 0, 0, 0⟩, ⟨9, 1, 0, 0, 0⟩] :=
  (losesNothing_iff ⟨by decide +kernel, by decide, by decide⟩).mpr ⟨by decide +kernel, by decide⟩

/-- Of the two lines of the log, one is in the number that is printed, and none is pending. -/
theorem not_losesNothing : IsLog longLog [⟨9, 0, 0, 0, 0⟩, ⟨9, 2, 0, 0, 0⟩] ∧
    taskThroughput longLog = some ⟨⟨9, 2, 0, 0, 0⟩, 0, false, [1]⟩ ∧
      ¬ LosesNothing longLog [⟨9, 0, 0, 0, 0⟩, ⟨9, 2, 0, 0, 0⟩] := by
  have hresult : taskThroughput longLog = some ⟨⟨9, 2, 0, 0, 0⟩, 0, false, [1]⟩ := by
    decide +kernel
  refine ⟨⟨by decide +kernel, by decide, by decide⟩, hresult, fun h ↦ ?_⟩
  obtain ⟨s, hs, hcounted⟩ := h.counted
  obtain rfl := Option.some.inj (hresult.symm.trans hs)
  exact absurd hcounted (by decide +kernel)

end Throughput

end Colas.LogParser
