import CircuitIR.Log.Numbering
import CircuitIR.Log.Setup
import Mathlib.Data.List.Basic
import Mathlib.Data.List.Induction

/-!
# Call numbers

The counter of log entries advances once for every handler that an entry reaches. A single handler therefore
numbers the entries since the last reset 1, 2, 3, and so on. A file and the console together take turns: the
file has the odd numbers and the console the even ones, so both have gaps and no entry has one number.
-/

namespace CircuitIR

/-- The entries that are written after the last reset. -/
def sinceReset (events : List LogEvent) : List LogEntry :=
  events.foldl (fun entries event =>
    match event with
    | .reset => []
    | .written entry => entries ++ [entry]) []

theorem sinceReset_concat_reset (events : List LogEvent) : sinceReset (events ++ [.reset]) = [] := by
  rw [sinceReset, List.foldl_concat]

theorem sinceReset_concat_written (events : List LogEvent) (entry : LogEntry) :
    sinceReset (events ++ [.written entry]) = sinceReset events ++ [entry] := by
  rw [sinceReset, List.foldl_concat, ← sinceReset]

/-- The value of the counter after some events. -/
def counterAfter (k c : ℕ) (events : List LogEvent) : ℕ :=
  events.foldl (fun c event =>
    match event with
    | .reset => 0
    | .written _ => c + k) c

theorem numberEntries_append (k c : ℕ) (events later : List LogEvent) :
    numberEntries k c (events ++ later)
      = numberEntries k c events ++ numberEntries k (counterAfter k c events) later := by
  induction events generalizing c with
  | nil => rfl
  | cons event events ih =>
      cases event with
      | reset => exact ih 0
      | written entry => exact congrArg (_ :: ·) (ih (c + k))

theorem counterAfter_eq (k : ℕ) (events : List LogEvent) :
    counterAfter k 0 events = k * (sinceReset events).length := by
  induction events using List.reverseRecOn with
  | nil => rfl
  | append_singleton events event ih =>
      rw [counterAfter] at ih
      rw [counterAfter, List.foldl_concat, ih]
      cases event with
      | reset => rw [sinceReset_concat_reset, List.length_nil, Nat.mul_zero]
      | written entry =>
          rw [sinceReset_concat_written, List.length_append, List.length_singleton, Nat.mul_succ]

/-- The entry after `n` others since the last reset has the numbers `numbers n`, one for each handler. -/
def NumbersSinceReset (k : ℕ) (events : List LogEvent) (numbers : ℕ → List ℕ) : Prop :=
  ∃ earlier, numberEntries k 0 events
    = earlier ++ (sinceReset events).zipIdx.map fun e => ⟨numbers e.2, e.1⟩

/-- **Every handler advances the counter**: with `k` handlers an entry takes the next `k` numbers. -/
theorem numbersSinceReset (k : ℕ) (events : List LogEvent) :
    NumbersSinceReset k events fun n => (List.range k).map fun i => k * n + i + 1 := by
  induction events using List.reverseRecOn with
  | nil => exact ⟨[], rfl⟩
  | append_singleton events event ih =>
      obtain ⟨earlier, ih⟩ := ih
      rw [NumbersSinceReset, numberEntries_append, counterAfter_eq]
      cases event with
      | reset => exact ⟨_, by rw [sinceReset_concat_reset]; rfl⟩
      | written entry =>
          refine ⟨earlier, ?_⟩
          rw [sinceReset_concat_written, ih, List.append_assoc, List.zipIdx_append, List.map_append,
            Nat.zero_add]
          rfl

namespace Logging

/-- What can be attached: a file, the console, both, or a handler that writes nothing. -/
theorem handlers_cases (file : Option String) (env : Environment) :
    handlers file env = [.discard]
      ∨ (∃ h : LogHandler, h.isWriting = true ∧ handlers file env = [h])
      ∨ ∃ path, handlers file env = [.file path, .console] := by
  rw [handlers]
  by_cases hpath : file.getD (env.file.getD defaultFile) = ""
  · by_cases hconsole : (env.console.getD "false").map Char.toLower = "true"
    · exact Or.inr (Or.inl ⟨.console, rfl, by simp only [hpath, hconsole]; rfl⟩)
    · exact Or.inl (by simp only [hpath, hconsole]; rfl)
  · by_cases hconsole : (env.console.getD "false").map Char.toLower = "true"
    · exact Or.inr (Or.inr ⟨_, by simp only [hpath, hconsole]; rfl⟩)
    · exact Or.inr (Or.inl ⟨_, rfl, by simp only [hpath, hconsole]; rfl⟩)

/-- An entry of a logger reaches every handler: the logger takes it and passes it on, and no handler ignores
it. -/
structure Reaches (l : LoggerInfo) (hs : List LogHandler) : Prop where
  passesOn : l = rootLogger ∨ l.propagate = true
  taken : l.level ≤ debugLevel
  handled : ∀ h ∈ hs, h.level ≤ debugLevel

theorem reaches (name : String) (file : Option String) (env : Environment) :
    Reaches (logger name) (handlers file env) where
  passesOn := by
    simp only [logger]
    split
    · exact Or.inl rfl
    · split <;> exact Or.inr rfl
  taken := by
    simp only [logger]
    split
    · exact Nat.le_refl _
    · split <;> exact Nat.le_refl _
  handled h _ := by
    cases h with
    | discard => exact Nat.zero_le _
    | file | console => exact Nat.le_refl _

/-- **The numbers that handlers write.** Every entry reaches every handler. With a file or the console alone,
the entries since the last reset are numbered 1, 2, 3 and so on, whatever was written and reset before. With
both, the file writes the odd numbers and the console the even ones. -/
theorem numbers_outcome (file : Option String) (env : Environment) (events : List LogEvent) :
    (∀ name, Reaches (logger name) (handlers file env))
    ∧ (handlers file env = [.discard]
      ∨ (∃ h : LogHandler, h.isWriting = true ∧ handlers file env = [h]
        ∧ NumbersSinceReset (handlers file env).length events fun n => [n + 1])
      ∨ ∃ path, handlers file env = [.file path, .console]
        ∧ NumbersSinceReset (handlers file env).length events fun n => [2 * n + 1, 2 * n + 2]) := by
  refine ⟨fun name => reaches name file env, ?_⟩
  obtain h | ⟨h, hwriting, hs⟩ | ⟨path, hs⟩ := handlers_cases file env
  · exact Or.inl h
  · refine Or.inr (Or.inl ⟨h, hwriting, hs, ?_⟩)
    have hnumbers := numbersSinceReset 1 events
    simp only [List.range_one, List.map_singleton, Nat.one_mul, Nat.add_zero] at hnumbers
    rwa [hs]
  · refine Or.inr (Or.inr ⟨path, hs, ?_⟩)
    have hnumbers := numbersSinceReset 2 events
    rwa [hs]

/-- An entry about an empty circuit. -/
def emptyPass : LogEntry := ⟨.passes, some "Decomposed circuit of 0 into 0 operations"⟩

/-- A file and the console do not have the same numbers without a gap. -/
theorem numbers_fileAndConsole :
    handlers (some "run.log") ⟨none, some "true"⟩ = [.file "run.log", .console]
      ∧ ¬ NumbersSinceReset (handlers (some "run.log") ⟨none, some "true"⟩).length
        [.reset, .written emptyPass, .written emptyPass] fun n => [n + 1, n + 1] := by
  have hs : handlers (some "run.log") ⟨none, some "true"⟩ = [.file "run.log", .console] := by
    decide +kernel
  refine ⟨hs, ?_⟩
  rw [hs]
  rintro ⟨earlier, h⟩
  have h : ([⟨[1, 2], emptyPass⟩, ⟨[3, 4], emptyPass⟩] : List NumberedEntry)
      = (earlier ++ [⟨[1, 1], emptyPass⟩]) ++ [⟨[2, 2], emptyPass⟩] := by
    rw [List.append_assoc]
    exact h
  -- the second entry has the numbers 3 and 4
  have hlast := congrArg List.getLast? h
  rw [List.getLast?_concat] at hlast
  exact absurd hlast (by decide)

end Logging

end CircuitIR
