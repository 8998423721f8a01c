import CircuitIR.Decimal.Reading
import Mathlib.Tactic.IntervalCases

/-!
# Texts of integers

An integer is read back from its decimal text, unless the text has more digits than are read. The text has
neither blanks nor digits of other scripts, so the reader meets a sign and one run of digits.
-/

namespace CircuitIR

/-- The decimal digits of an integer without its sign. -/
def integerDigits (n : ℤ) : List Char := Nat.toDigits 10 n.natAbs

theorem toList_toString_int (n : ℤ) :
    (toString n).toList = (if n < 0 then ['-'] else []) ++ integerDigits n := by
  cases n with
  | ofNat m =>
      have hsign : ¬ (Int.ofNat m < 0) := Int.not_lt.2 (Int.natCast_nonneg m)
      rw [if_neg hsign]
      exact String.toList_ofList
  | negSucc m =>
      rw [if_pos (Int.negSucc_lt_zero m)]
      change ("-" ++ Nat.repr (m + 1)).toList = _
      rw [String.toList_append]
      exact congrArg ('-' :: ·) String.toList_ofList

namespace NumberReader

theorem exists_digitChar {c : Char} (h : c.isDigit = true) : ∃ d < 10, c = Nat.digitChar d := by
  have hrange : 48 ≤ c.toNat ∧ c.toNat ≤ 57 := Char.isDigit_iff_toNat.1 h
  obtain ⟨hlow, hhigh⟩ := hrange
  refine ⟨c.toNat - 48, by omega, ?_⟩
  rw [← Char.ofNat_toNat c]
  interval_cases c.toNat <;> rfl

/-- A sign or a digit is not blank and stands for itself. -/
theorem plain_of_mem {c : Char} (h : c = '-' ∨ c.isDigit = true) :
    CharacterClass.isSpace c = false ∧ (match CharacterClass.digitValue? c with
      | some d => Char.ofNat (48 + d)
      | none => c) = c := by
  rcases h with rfl | hdigit
  · decide +kernel
  · obtain ⟨d, hd, rfl⟩ := exists_digitChar hdigit
    interval_cases d <;> decide +kernel

theorem strip_eq_self {cs : List Char} (h : ∀ c ∈ cs, CharacterClass.isSpace c = false) :
    CharacterClass.strip cs = cs := by
  have hdrop : ∀ ds : List Char, (∀ c ∈ ds, CharacterClass.isSpace c = false) →
      ds.dropWhile CharacterClass.isSpace = ds := by
    intro ds hds
    cases ds with
    | nil => rfl
    | cons c ds => rw [List.dropWhile_cons, hds c List.mem_cons_self, if_neg Bool.false_ne_true]
  rw [CharacterClass.strip, hdrop cs h,
    hdrop cs.reverse fun c hc => h c (List.mem_reverse.1 hc), List.reverse_reverse]

theorem digitRun_of_digits {ds : List Char} (h : ∀ c ∈ ds, c.isDigit = true) :
    digitRun ds = (ds, []) := by
  have hunderscore : ∀ {c d : Char} {cs : List Char},
      ¬ ∀ e ∈ c :: '_' :: d :: cs, e.isDigit = true := by
    intro c d cs hall
    exact absurd (hall '_' (List.mem_cons_of_mem c List.mem_cons_self)) (by decide)
  fun_induction digitRun ds with
  | case1 => rfl
  | case2 c hc => rfl
  | case3 c hc => exact absurd (h c List.mem_cons_self) hc
  | case4 | case5 | case6 => exact absurd h hunderscore
  | case7 c cs _ _ hc ds rest hrun ih =>
      have hall := ih fun d hd => h d (List.mem_cons_of_mem c hd)
      obtain ⟨rfl, rfl⟩ := Prod.mk.inj (hrun.symm.trans hall)
      rfl
  | case8 c cs _ _ hc => exact absurd (h c List.mem_cons_self) hc

theorem digitRun_suffix (cs : List Char) : (digitRun cs).2 <:+ cs := by
  fun_induction digitRun cs with
  | case1 => exact List.suffix_rfl
  | case2 c hc => exact List.nil_suffix
  | case3 c hc => exact List.suffix_rfl
  | case4 c d cs hdigits ds rest hrun ih =>
      rw [hrun] at ih
      exact (ih.trans (List.suffix_cons _ _)).trans (List.suffix_cons _ _)
  | case5 c d cs hdigits hc => exact List.suffix_cons _ _
  | case6 c d cs hdigits hc => exact List.suffix_rfl
  | case7 c cs hshort hunderscore hc ds rest hrun ih =>
      rw [hrun] at ih
      exact ih.trans (List.suffix_cons _ _)
  | case8 c cs hshort hunderscore hc => exact List.suffix_rfl

theorem splitSign_suffix (cs : List Char) : (splitSign cs).2 <:+ cs := by
  fun_cases splitSign cs with
  | case1 cs => exact List.suffix_cons _ _
  | case2 cs => exact List.suffix_cons _ _
  | case3 => exact List.suffix_rfl

theorem natOfDigits_toDigits (n : ℕ) : natOfDigits (Nat.toDigits 10 n) = n := by
  have hfold : natOfDigits (Nat.toDigits 10 n) = Nat.ofDigitChars 10 (Nat.toDigits 10 n) 0 :=
    Nat.ofDigitChars_eq_foldl.symm
  rw [hfold, Nat.ofDigitChars_toDigits (by decide) le_rfl]

theorem splitSign_of_digits {ds : List Char} (h : ∀ c ∈ ds, c.isDigit = true) :
    splitSign ds = (false, ds) := by
  cases ds with
  | nil => rfl
  | cons c ds =>
      have hc := h c List.mem_cons_self
      have hminus : c ≠ '-' := by
        rintro rfl
        exact absurd hc (by decide)
      have hplus : c ≠ '+' := by
        rintro rfl
        exact absurd hc (by decide)
      rw [splitSign]
      · exact fun cs hcs => hminus (List.cons.inj hcs).1
      · exact fun cs hcs => hplus (List.cons.inj hcs).1

theorem isDigit_of_mem_integerDigits {n : ℤ} : ∀ c ∈ integerDigits n, c.isDigit = true :=
  fun _ hc => Nat.isDigit_of_mem_toDigits (by decide) le_rfl hc

theorem plain_toString (n : ℤ) : ∀ c ∈ (toString n).toList, c = '-' ∨ c.isDigit = true := by
  rw [toList_toString_int]
  intro c hc
  rcases List.mem_append.1 hc with hsign | hdigit
  · left
    by_cases hn : n < 0
    · simpa [hn] using hsign
    · simp [hn] at hsign
  · exact Or.inr (isDigit_of_mem_integerDigits c hdigit)

theorem splitSign_integerDigits (n : ℤ) :
    splitSign ((if n < 0 then ['-'] else []) ++ integerDigits n) = (decide (n < 0), integerDigits n) := by
  by_cases hn : n < 0
  · rw [if_pos hn, decide_eq_true hn]
    rfl
  · rw [if_neg hn, decide_eq_false hn, List.nil_append]
    exact splitSign_of_digits isDigit_of_mem_integerDigits

theorem signed_natAbs (n : ℤ) : (if decide (n < 0) then -(n.natAbs : ℤ) else n.natAbs) = n := by
  by_cases hn : n < 0
  · simp only [hn, decide_true, if_true]
    rw [Int.ofNat_natAbs_of_nonpos hn.le, neg_neg]
  · simp only [hn, decide_false, Bool.false_eq_true, if_false]
    rw [Int.natAbs_of_nonneg (Int.not_lt.1 hn)]

/-- **An integer is read back from its decimal text**, if it has no more digits than are read. -/
theorem readInt?_toString {n : ℤ} (hshort : (integerDigits n).length ≤ maxIntegerDigits) :
    readInt? (toString n) = some n := by
  have hstrip : CharacterClass.strip (toString n).toList = (toString n).toList :=
    strip_eq_self fun c hc => (plain_of_mem (plain_toString n c hc)).1
  have hnormal : normalizeDigits (toString n).toList = (toString n).toList :=
    (List.map_congr_left fun c hc => (plain_of_mem (plain_toString n c hc)).2).trans (List.map_id _)
  have hnat : natOfDigits (integerDigits n) = n.natAbs := natOfDigits_toDigits n.natAbs
  rw [readInt?, hstrip, hnormal, toList_toString_int, splitSign_integerDigits]
  simp only [digitRun_of_digits isDigit_of_mem_integerDigits]
  cases hcs : integerDigits n with
  | nil => exact absurd hcs Nat.toDigits_ne_nil
  | cons c cs =>
      rw [hcs] at hshort hnat
      change (if maxIntegerDigits < (c :: cs).length then none
        else some (if decide (n < 0) then -(natOfDigits (c :: cs) : ℤ) else natOfDigits (c :: cs)))
        = some n
      rw [if_neg (Nat.not_lt.2 hshort), hnat, signed_natAbs]

end NumberReader

end CircuitIR
