import Mathlib.Data.List.DropRight
import Wfe.Executor.ErrorHandler
import Wfe.Yaml.Compiler

/-!
# Durations

A duration is written in a specification, read as milliseconds, kept as nanoseconds, and added to
the clock when a pointer goes to sleep. Each of these has a limit of its own: the milliseconds are
an unsigned number of 64 bits, the ones added to the clock a signed number of 64 bits, and the time
must be one that can be represented.

## Main definitions

* `MillisWritten`: the number of milliseconds that a text writes
* `DateTime.plusMillis?`: the wake-up time, if its computation does not panic
* `Slept`: the ways in which a duration reaches a pointer

## Main results

* `parseDurationMs_eq_some_iff`: a duration is read modulo `2 ^ 64`
* `DateTime.plusMillis?_reaches_iff`: which durations are slept in full
* `durations_survive_iff`: which durations survive to the clock
-/

namespace Wfe

open Text

/-! ## Reading a duration -/

/-- The units of a duration, in milliseconds. -/
def durationUnits : List (String × Nat) := [("ms", 1), ("s", 1000), ("m", 60000), ("", 1)]

/-- `s` writes `ms` milliseconds: a number, and a unit. -/
def MillisWritten (s : String) (ms : Nat) : Prop :=
  ∃ n suffix unit v, (suffix, unit) ∈ durationUnits ∧ trim s = n ++ suffix ∧
    parseU64 (trim n) = some v ∧ ms = v * unit

section Parsing

variable {s n suffix : String} {v ms : Nat} {c : Char}

theorem stripSuffix_eq_some_iff : stripSuffix s suffix = some n ↔ s = n ++ suffix := by
  unfold stripSuffix
  constructor
  · intro h
    split_ifs at h with hsuffix
    obtain ⟨cs, hcs⟩ := List.isSuffixOf_iff_suffix.mp hsuffix
    obtain rfl := Option.some_inj.mp h
    apply String.ext
    rw [String.toList_append, String.toList_ofList, ← hcs]
    simp
  · rintro rfl
    simp [String.toList_append]

theorem trimChars_trimChars (cs : List Char) : trimChars (trimChars cs) = trimChars cs := by
  show ((trimChars cs).dropWhile isWhitespace).rdropWhile isWhitespace = trimChars cs
  -- Trimming on the right leaves the first character, which is no whitespace, if any is left.
  have hstart : (trimChars cs).dropWhile isWhitespace = trimChars cs := by
    obtain ⟨post, hpost⟩ := List.rdropWhile_prefix isWhitespace (cs.dropWhile isWhitespace)
    cases hm : trimChars cs with
    | nil => rfl
    | cons a m =>
      have ha := List.head?_dropWhile_not isWhitespace cs
      have hsplit : a :: m ++ post = cs.dropWhile isWhitespace := hm ▸ hpost
      rw [← hsplit] at ha
      exact List.dropWhile_cons_of_neg (by simpa using ha)
  rw [hstart]
  exact List.rdropWhile_idempotent isWhitespace _

theorem trim_trim (s : String) : trim (trim s) = trim s := by
  simp only [trim, String.toList_ofList, trimChars_trimChars]

theorem exists_digits_of_parseU64 (h : parseU64 s = some v) :
    ∃ digits, digits <:+ s.toList ∧ digits ≠ [] ∧ digits.all Char.isDigit = true := by
  unfold parseU64 at h
  dsimp only at h
  split at h
  · next rest hrest =>
    split_ifs at h with hdigits
    exact ⟨rest, hrest ▸ List.suffix_cons .., hdigits.1, hdigits.2.1⟩
  · split_ifs at h with hdigits
    exact ⟨s.toList, List.suffix_rfl, hdigits.1, hdigits.2.1⟩

/-- A number ends neither in a letter nor in a sign. -/
theorem parseU64_trim_push (hdigit : c.isDigit = false) (hspace : isWhitespace c = false)
    (n : String) : parseU64 (trim (n.push c)) = none := by
  rw [Option.eq_none_iff_forall_ne_some]
  intro v h
  obtain ⟨digits, hsuffix, hne, hall⟩ := exists_digits_of_parseU64 h
  have htrim : (trim (n.push c)).toList = n.toList.dropWhile isWhitespace ++ [c] := by
    have hdrop : (n.toList ++ [c]).dropWhile isWhitespace =
        n.toList.dropWhile isWhitespace ++ [c] := by
      rw [List.dropWhile_append]
      split_ifs with hempty
      · rw [List.isEmpty_iff.mp hempty]
        simp [hspace]
      · rfl
    rw [trim, String.toList_ofList, String.toList_push]
    show ((n.toList ++ [c]).dropWhile isWhitespace).rdropWhile isWhitespace = _
    rw [hdrop, List.rdropWhile_concat_neg _ _ _ (by simp [hspace])]
  -- The digits are not empty, so they end as the number does.
  obtain ⟨pre, hpre⟩ := hsuffix
  have hlast : digits.getLast? = some c := by
    rw [htrim] at hpre
    rw [← List.getLast?_append_of_ne_nil pre hne, hpre, List.getLast?_concat]
  have hc := List.all_eq_true.mp hall c (List.mem_of_getLast? hlast)
  rw [hdigit] at hc
  cases hc

/-- The number of milliseconds that a text writes, read off its suffix. -/
def writtenMillis (s : String) : Option Nat :=
  match stripSuffix (trim s) "ms" with
  | some n => parseU64 (trim n)
  | none =>
    match stripSuffix (trim s) "s" with
    | some n => (parseU64 (trim n)).map (· * 1000)
    | none =>
      match stripSuffix (trim s) "m" with
      | some n => (parseU64 (trim n)).map (· * 60000)
      | none => parseU64 (trim s)

theorem parseU64_lt (h : parseU64 s = some v) : v < 2 ^ 64 := by
  unfold parseU64 at h
  dsimp only at h
  split at h <;>
  · split_ifs at h with hdigits
    obtain rfl := Option.some_inj.mp h
    exact hdigits.2.2

theorem parseDurationMs_eq (s : String) :
    parseDurationMs s = (writtenMillis s).map (· % 2 ^ 64) := by
  have hnumber (t : String) : parseU64 t = (parseU64 t).map (· % 2 ^ 64) := by
    cases h : parseU64 t with
    | none => rfl
    | some v => rw [Option.map_some, Nat.mod_eq_of_lt (parseU64_lt h)]
  -- The product of three factors is reduced twice.
  have hmins (v : Nat) : v * 60 % 2 ^ 64 * 1000 % 2 ^ 64 = v * 60000 % 2 ^ 64 := by
    rw [Nat.mod_mul_mod, Nat.mul_assoc]
  unfold parseDurationMs writtenMillis
  dsimp only
  cases stripSuffix (trim s) "ms" with
  | some n => exact hnumber _
  | none =>
    cases stripSuffix (trim s) "s" with
    | some n => simp only [Option.map_map, Function.comp_def]
    | none =>
      cases stripSuffix (trim s) "m" with
      | some n => simp only [Option.map_map, Function.comp_def, hmins]
      | none => exact hnumber _

theorem append_units (n : String) :
    n ++ "ms" = (n.push 'm').push 's' ∧ n ++ "s" = n.push 's' ∧ n ++ "m" = n.push 'm' := by
  refine ⟨?_, ?_, ?_⟩ <;> apply String.ext <;> simp [String.toList_append, String.toList_push]

theorem MillisWritten.writtenMillis_eq (h : MillisWritten s ms) : writtenMillis s = some ms := by
  obtain ⟨n, suffix, unit, v, hunit, hs, hv, rfl⟩ := h
  -- A number ends in a digit, so no other unit can be read.
  have hletter (c : Char) (hdigit : c.isDigit = false) (hspace : isWhitespace c = false)
      (n' : String) : n ≠ n'.push c := by
    rintro rfl
    rw [parseU64_trim_push hdigit hspace] at hv
    cases hv
  have hm := hletter 'm' rfl rfl
  have hsec := hletter 's' rfl rfl
  have hnone {suffix : String} (h : ∀ n', trim s ≠ n' ++ suffix) :
      stripSuffix (trim s) suffix = none :=
    Option.eq_none_iff_forall_ne_some.mpr fun n' hn' => h n' (stripSuffix_eq_some_iff.mp hn')
  unfold writtenMillis
  simp only [durationUnits, List.mem_cons, Prod.mk.injEq, List.not_mem_nil, or_false] at hunit
  rcases hunit with ⟨rfl, rfl⟩ | ⟨rfl, rfl⟩ | ⟨rfl, rfl⟩ | ⟨rfl, rfl⟩
  · simp only [stripSuffix_eq_some_iff.mpr hs, hv, Nat.mul_one]
  · have hms : stripSuffix (trim s) "ms" = none := hnone fun n' h => by
      rw [hs, (append_units n).2.1, (append_units n').1, String.push_inj] at h
      exact hm n' h.1
    simp only [hms, stripSuffix_eq_some_iff.mpr hs, hv, Option.map_some]
  · have hms : stripSuffix (trim s) "ms" = none := hnone fun n' h => by
      rw [hs, (append_units n).2.2, (append_units n').1, String.push_inj] at h
      exact absurd h.2 (by decide)
    have hsecs : stripSuffix (trim s) "s" = none := hnone fun n' h => by
      rw [hs, (append_units n).2.2, (append_units n').2.1, String.push_inj] at h
      exact absurd h.2 (by decide)
    simp only [hms, hsecs, stripSuffix_eq_some_iff.mpr hs, hv, Option.map_some]
  · rw [String.append_empty] at hs
    have hms : stripSuffix (trim s) "ms" = none := hnone fun n' h =>
      hsec _ (hs.symm.trans (h.trans (append_units n').1))
    have hsecs : stripSuffix (trim s) "s" = none := hnone fun n' h =>
      hsec _ (hs.symm.trans (h.trans (append_units n').2.1))
    have hmins : stripSuffix (trim s) "m" = none := hnone fun n' h =>
      hm _ (hs.symm.trans (h.trans (append_units n').2.2))
    rw [← hs, trim_trim] at hv
    simp only [hms, hsecs, hmins, hv, Nat.mul_one]

theorem millisWritten_iff : MillisWritten s ms ↔ writtenMillis s = some ms := by
  refine ⟨MillisWritten.writtenMillis_eq, fun h => ?_⟩
  unfold writtenMillis at h
  split at h
  · next n hn =>
    exact ⟨n, "ms", 1, ms, by simp [durationUnits], stripSuffix_eq_some_iff.mp hn, h, by simp⟩
  · split at h
    · next n hn =>
      obtain ⟨v, hv, rfl⟩ := Option.map_eq_some_iff.mp h
      exact ⟨n, "s", 1000, v, by simp [durationUnits], stripSuffix_eq_some_iff.mp hn, hv, rfl⟩
    · split at h
      · next n hn =>
        obtain ⟨v, hv, rfl⟩ := Option.map_eq_some_iff.mp h
        exact ⟨n, "m", 60000, v, by simp [durationUnits], stripSuffix_eq_some_iff.mp hn, hv, rfl⟩
      · exact ⟨trim s, "", 1, ms, by simp [durationUnits], by simp, by rw [trim_trim, h], by simp⟩

/-- A duration is read modulo `2 ^ 64`. -/
theorem parseDurationMs_eq_some_iff {r : Nat} :
    parseDurationMs s = some r ↔ ∃ ms, MillisWritten s ms ∧ ms % 2 ^ 64 = r := by
  simp only [parseDurationMs_eq, Option.map_eq_some_iff, millisWritten_iff]

/-- What a duration is read as is what is written, unless this is out of range. -/
theorem parseDurationMs_exact_iff :
    (parseDurationMs s = none ∨ ∃ ms, MillisWritten s ms ∧ parseDurationMs s = some ms) ↔
      ∀ ms, MillisWritten s ms → ms < 2 ^ 64 := by
  constructor
  · rintro h ms hms
    have hread : parseDurationMs s = some (ms % 2 ^ 64) :=
      parseDurationMs_eq_some_iff.mpr ⟨ms, hms, rfl⟩
    rcases h with h | ⟨ms', hms', h⟩
    · rw [hread] at h
      cases h
    · -- A text writes one number only.
      obtain rfl : ms = ms' := Option.some_inj.mp
        (hms.writtenMillis_eq.symm.trans hms'.writtenMillis_eq)
      have hmod : ms % 2 ^ 64 = ms := Option.some_inj.mp (hread.symm.trans h)
      exact hmod ▸ Nat.mod_lt ms (by decide)
  · intro h
    cases hread : parseDurationMs s with
    | none => exact .inl rfl
    | some r =>
      obtain ⟨ms, hms, rfl⟩ := parseDurationMs_eq_some_iff.mp hread
      exact .inr ⟨ms, hms, by rw [Nat.mod_eq_of_lt (h ms hms)]⟩

end Parsing

/-! ## Sleeping for a duration -/

namespace DateTime

/-- `DateTime::<Utc>::MIN_UTC`: the beginning of the year -262143. -/
def minUtc : Int := -8334601228800 * 1000000000

/-- `DateTime::<Utc>::MAX_UTC`: the end of the year 262142. -/
def maxUtc : Int := 8210266876799 * 1000000000 + 999999999

/-- `d.as_millis() as i64`. -/
def castMillis (d : Duration) : Int := Int.bmod (d / 1000000 : Nat) (2 ^ 64)

/-- `t + chrono::Duration::milliseconds(d.as_millis() as i64)`, or nothing where it panics:
`milliseconds` does not accept the least number, and `+` no time out of range. -/
def plusMillis? (t : DateTime) (d : Duration) : Option DateTime :=
  if castMillis d = -(2 ^ 63 : Nat) then none
  else
    let sum : Int := t + castMillis d * 1000000
    if minUtc ≤ sum ∧ sum ≤ maxUtc then some sum else none

variable {t t' : Int} {d : Nat}

theorem plusMillis_eq_of_some (h : plusMillis? t d = some t') : plusMillis t d = t' := by
  unfold plusMillis? at h
  dsimp only at h
  split_ifs at h
  exact Option.some_inj.mp h

/-- The cast prolongs no duration. -/
theorem castMillis_le (d : Nat) : castMillis d ≤ (d / 1000000 : Nat) := by
  unfold castMillis
  generalize d / 1000000 = ms
  rw [Int.bmod_def]
  split_ifs <;> omega

theorem castMillis_of_lt (h : d / 1000000 < 2 ^ 63) : castMillis d = (d / 1000000 : Nat) := by
  unfold castMillis
  generalize d / 1000000 = ms at h ⊢
  exact Int.bmod_eq_of_le (by omega) (by omega)

/-- Which durations are slept in full, from a time that can be represented: whole milliseconds
that end at such a time. -/
theorem plusMillis?_reaches_iff (ht : minUtc ≤ t) :
    (∃ t', plusMillis? t d = some t' ∧ t ≤ t' ∧ t + d ≤ t') ↔
      d % 1000000 = 0 ∧ t + d ≤ maxUtc := by
  constructor
  · rintro ⟨t', h, -, hreach⟩
    have hle := castMillis_le d
    unfold plusMillis? at h
    dsimp only at h
    split_ifs at h with hmin hrange
    obtain rfl := Option.some_inj.mp h
    omega
  · rintro ⟨hmillis, hmax⟩
    -- The range of times is shorter than the range of the cast.
    have hcast : castMillis d = (d / 1000000 : Nat) := castMillis_of_lt (by
      simp only [minUtc, maxUtc] at ht hmax
      omega)
    have hsum : t + castMillis d * 1000000 = t + d := by omega
    refine ⟨t + d, ?_, by omega, Int.le_refl _⟩
    unfold plusMillis?
    dsimp only
    rw [hsum, if_neg (by omega), if_pos (by omega)]

end DateTime

open DateTime

/-- The pointer `p` has been put to sleep for `d`: by a retry, by a result that sleeps, or by one
that polls. -/
inductive Slept (env : Ambient) (d : Duration) : ExecutionPointer → Prop
  | retry (pointer : ExecutionPointer) (definition : WorkflowDefinition) (maxRetries : Nat)
      (hbehavior : errorBehaviorOf pointer definition = .retry d maxRetries)
      (hleft : ¬(0 < maxRetries ∧ maxRetries ≤ pointer.retryCount)) :
      Slept env d (handleError env pointer definition).1
  | sleep (pointer : ExecutionPointer) (definition : WorkflowDefinition) (workflowId : String)
      (result : ExecutionResult) (hproceed : result.proceed = false)
      (hbranch : result.branchValues = none) (hevent : result.eventName = none)
      (hsleep : result.sleepFor = some d) :
      Slept env d (processResult env result pointer definition workflowId).1
  | poll (pointer : ExecutionPointer) (definition : WorkflowDefinition) (workflowId : String)
      (result : ExecutionResult) (config : PollEndpointConfig) (hproceed : result.proceed = false)
      (hbranch : result.branchValues = none) (hevent : result.eventName = none)
      (hsleep : result.sleepFor = none) (hpoll : result.pollEndpoint = some config)
      (hd : config.interval = d) :
      Slept env d (processResult env result pointer definition workflowId).1

section Slept

variable {env : Ambient} {d : Duration} {p : ExecutionPointer}

/-- All three ways compute the wake-up time alike. -/
theorem Slept.sleepUntil (h : Slept env d p) : p.sleepUntil = some (env.now.plusMillis d) := by
  cases h with
  | retry pointer definition maxRetries hbehavior hleft =>
    simp only [handleError, hbehavior, if_neg hleft]
  | sleep pointer definition workflowId result hproceed hbranch hevent hsleep =>
    simp [processResult, hproceed, hbranch, hevent, hsleep]
  | poll pointer definition workflowId result config hproceed hbranch hevent hsleep hpoll hd =>
    simp [processResult, hproceed, hbranch, hevent, hsleep, hpoll, hd]

/-- The wake-up time of `p` is computed without a panic, and lies `d` or more ahead. -/
def SleepsInFull (env : Ambient) (d : Duration) (p : ExecutionPointer) : Prop :=
  ∃ t, plusMillis? env.now d = some t ∧ p.sleepUntil = some t ∧ env.now ≤ t ∧ env.now + d ≤ t

theorem Slept.sleepsInFull_iff (h : Slept env d p) (hnow : minUtc ≤ env.now) :
    SleepsInFull env d p ↔ d % 1000000 = 0 ∧ env.now + d ≤ maxUtc := by
  rw [← plusMillis?_reaches_iff hnow]
  constructor
  · rintro ⟨t, ht, -, hreach⟩
    exact ⟨t, ht, hreach⟩
  · rintro ⟨t, ht, hreach⟩
    exact ⟨t, ht, by rw [h.sleepUntil, plusMillis_eq_of_some ht], hreach⟩

/-- **Which durations survive to the clock**: those that fit into 64 bits as milliseconds are read
as they are written, and whole milliseconds that end at a time that can be represented are slept
in full. -/
theorem durations_survive_iff (s : String) (env : Ambient) (d : Duration) (p : ExecutionPointer)
    (hslept : Slept env d p) (hnow : minUtc ≤ env.now) :
    ((parseDurationMs s = none ∨ ∃ ms, MillisWritten s ms ∧ parseDurationMs s = some ms) ↔
      ∀ ms, MillisWritten s ms → ms < 2 ^ 64) ∧
    (SleepsInFull env d p ↔ d % 1000000 = 0 ∧ env.now + d ≤ maxUtc) :=
  ⟨parseDurationMs_exact_iff, hslept.sleepsInFull_iff hnow⟩

/-- The pointer that a step puts to sleep for `d` at the epoch. -/
def sleeper (d : Duration) : ExecutionPointer :=
  (processResult ⟨0, fun _ => ""⟩ { sleepFor := some d } (.new "p" 0) (.new "w" 1)
    "i").1

theorem slept_sleeper (d : Duration) : Slept ⟨0, fun _ => ""⟩ d (sleeper d) :=
  .sleep (.new "p" 0) (.new "w" 1) "i" { sleepFor := some d } rfl rfl rfl rfl

/-- `2m` is read in full, and a second is slept in full. -/
theorem durations_survive_two_minutes :
    (parseDurationMs "2m" = some 120000) ∧
    (∀ ms, MillisWritten "2m" ms → ms < 2 ^ 64) ∧
    SleepsInFull ⟨0, fun _ => ""⟩ 1000000000 (sleeper 1000000000) := by
  obtain ⟨hread, hsleep⟩ := durations_survive_iff "2m" ⟨0, fun _ => ""⟩ 1000000000
    (sleeper 1000000000) (slept_sleeper _) (by decide)
  have hparse : parseDurationMs "2m" = some 120000 := by decide
  refine ⟨hparse, hread.mp (.inr ⟨120000, ?_, hparse⟩), hsleep.mpr (by decide)⟩
  exact millisWritten_iff.mpr (by decide)

/-- An interval written in seconds wraps around to 384 milliseconds, and the longest interval in
milliseconds ends before it begins. -/
theorem durations_wrap :
    MillisWritten "18446744073709552s" 18446744073709552000 ∧
    parseDurationMs "18446744073709552s" = some 384 ∧
    ¬ (parseDurationMs "18446744073709552s" = none ∨
      ∃ ms, MillisWritten "18446744073709552s" ms ∧
        parseDurationMs "18446744073709552s" = some ms) ∧
    parseDurationMs "18446744073709551615ms" = some 18446744073709551615 ∧
    (sleeper (18446744073709551615 * 1000000)).sleepUntil = some (-1000000) ∧
    ¬ SleepsInFull ⟨0, fun _ => ""⟩ (18446744073709551615 * 1000000)
      (sleeper (18446744073709551615 * 1000000)) := by
  have hms : MillisWritten "18446744073709552s" 18446744073709552000 :=
    millisWritten_iff.mpr (by decide)
  have hsleep : (sleeper (18446744073709551615 * 1000000)).sleepUntil = some (-1000000) := by decide
  refine ⟨hms, by decide, fun h => ?_, by decide, hsleep, ?_⟩
  · exact absurd (parseDurationMs_exact_iff.mp h _ hms) (by decide)
  · rintro ⟨t, -, ht, hnow, -⟩
    obtain rfl := Option.some_inj.mp (hsleep.symm.trans ht)
    exact absurd hnow (by decide)

end Slept

end Wfe
