import CircuitIR.Formula.Meaning
import CircuitIR.Proofs.CallTokens

/-!
# Syntax of calls

The tokens of a call whose arguments are names are parsed as this call, and the call has the value of the
function on the values of the names.
-/

namespace CircuitIR.Formula

/-! ## Trees -/

/-- An operand ends before the tokens. -/
def EndsOperand (ts : List Token) : Prop := ts = [] ∨ ∃ us, ts = .op "," :: us ∨ ts = .op ")" :: us

section Grammar

variable {s : String} {ts r : List Token} {t : Tree}

theorem parsePower_name (hs : s ∉ reservedWords) (hr : EndsOperand r) (fuel : ℕ) :
    parsePower (fuel + 2) (.name s :: r) = some (.name s, r) := by
  have hatom : parseAtom (fuel + 1) (.name s :: r) = some (.name s, r) := by
    rw [parseAtom, if_neg (by simpa using hs)]
  rw [parsePower, hatom]
  obtain rfl | ⟨us, rfl | rfl⟩ := hr <;> rfl

/-- A sum or product that begins with a name and is followed by nothing that belongs to it is a complete
expression. -/
theorem parseExpression_of_parseBinary (hs : s ∉ reservedWords) (hr : EndsOperand r) (fuel : ℕ)
    (hbinary : parseBinary (fuel + 1) 1 (.name s :: ts) = some (t, r)) :
    parseExpression (fuel + 5) (.name s :: ts) = some (t, r) := by
  have hcomparisons : parseComparisons (fuel + 1) r = some ([], r) := by
    obtain rfl | ⟨us, rfl | rfl⟩ := hr <;> rfl
  have hnegation : parseNegation (fuel + 2) (.name s :: ts) = some (t, r) := by
    have hnot : s ≠ "not" := by
      rintro rfl
      exact hs (by decide)
    rw [parseNegation]
    · simp only [hbinary, hcomparisons]
    · rintro _ h
      exact hnot (Token.name.inj (List.cons.inj h).1)
  have hboth : parseBoth (fuel + 3) (.name s :: ts) = some (t, r) := by
    rw [parseBoth, hnegation]
    obtain rfl | ⟨us, rfl | rfl⟩ := hr <;> rfl
  have heither : parseEither (fuel + 4) (.name s :: ts) = some (t, r) := by
    rw [parseEither, hboth]
    obtain rfl | ⟨us, rfl | rfl⟩ := hr <;> rfl
  rw [parseExpression, heither]
  obtain rfl | ⟨us, rfl | rfl⟩ := hr <;> rfl

/-- An operand that begins with a name and is followed by nothing that belongs to it is a complete
expression. -/
theorem parseExpression_eq (hs : s ∉ reservedWords) (hr : EndsOperand r) (fuel : ℕ)
    (hpower : parsePower (fuel + 1) (.name s :: ts) = some (t, r)) :
    parseExpression (fuel + 7) (.name s :: ts) = some (t, r) := by
  have hfactor : parseFactor (fuel + 2) (.name s :: ts) = some (t, r) := by
    rw [parseFactor]
    · exact hpower
    · simp
  have hoperands : parseOperands (fuel + 2) 1 t r = some (t, r) := by
    obtain rfl | ⟨us, rfl | rfl⟩ := hr <;> rfl
  refine parseExpression_of_parseBinary hs hr (fuel + 2) ?_
  rw [parseBinary, hfactor]
  exact hoperands

/-- The arguments of a call whose arguments are names. -/
def nameArguments (ss : List String) : List (Option String × Tree) := ss.map fun s => (none, .name s)

theorem endsOperand_argumentParts (ss : List String) : EndsOperand (partTokens (argumentParts ss)) := by
  cases ss with
  | nil => exact .inr ⟨[], .inr rfl⟩
  | cons s ss => exact .inr ⟨_, .inl rfl⟩

theorem parseNamed_name (hs : s ∉ reservedWords) (hr : EndsOperand r) (fuel : ℕ) :
    parseNamed (fuel + 9) (.name s :: r) = some (.name s, r) := by
  have hexpression : parseExpression (fuel + 8) (.name s :: r) = some (.name s, r) :=
    parseExpression_eq hs hr (fuel + 1) (parsePower_name hs hr fuel)
  rw [parseNamed]
  · exact hexpression
  · rintro _ _ h
    obtain rfl | ⟨us, rfl | rfl⟩ := hr <;> simp at h

/-- The arguments of a call are read up to the closing parenthesis. -/
theorem parseArguments_eq {ss : List String} (hs : s ∉ reservedWords)
    (hss : ∀ s ∈ ss, s ∉ reservedWords) (fuel : ℕ) (hfuel : ss.length + 10 ≤ fuel) :
    parseArguments fuel (.name s :: partTokens (argumentParts ss)) = some (nameArguments (s :: ss), []) := by
  induction ss generalizing s fuel with
  | nil =>
      obtain ⟨fuel, rfl⟩ : ∃ k, fuel = k + 10 := ⟨fuel - 10, by omega⟩
      change parseArguments (fuel + 10) (.name s :: .op ")" :: []) = _
      have hnamed := parseNamed_name hs (.inr ⟨[], .inr rfl⟩) fuel
      rw [parseArguments]
      · simp only [hnamed]
        rfl
      all_goals simp
  | cons u us ih =>
      obtain ⟨fuel, rfl⟩ : ∃ k, fuel = k + 10 := ⟨fuel - 10, by omega⟩
      change parseArguments (fuel + 10) (.name s :: .op "," :: .name u :: partTokens (argumentParts us)) = _
      have hnamed : parseNamed (fuel + 9) (.name s :: .op "," :: .name u :: partTokens (argumentParts us))
          = some (.name s, .op "," :: .name u :: partTokens (argumentParts us)) :=
        parseNamed_name hs (endsOperand_argumentParts (u :: us)) fuel
      have hrest := ih (hss u (by simp)) (fun t ht => hss t (by simp [ht])) (fuel + 9)
        (by rw [List.length_cons] at hfuel; omega)
      rw [parseArguments]
      · simp only [hnamed, Option.map_some, hrest]
        rfl
      all_goals simp

theorem parse?_callParts {f : String} {ss : List String} (hf : f ∉ reservedWords)
    (hs : s ∉ reservedWords) (hss : ∀ s ∈ ss, s ∉ reservedWords) :
    parse? (partTokens (callParts f s ss)) = some (.call (.name f) (nameArguments (s :: ss))) := by
  have hlength : ss.length + 4 ≤ (partTokens (callParts f s ss)).length := by
    have harguments : ss.length + 1 ≤ (partTokens (argumentParts ss)).length := by
      clear hss
      induction ss with
      | nil => exact Nat.le_refl 1
      | cons u us ih =>
          change us.length + 1 + 1 ≤ (partTokens (argumentParts us)).length + 1 + 1
          omega
    exact Nat.add_le_add_right harguments 3
  obtain ⟨fuel, hfuel⟩ : ∃ k, 24 * ((partTokens (callParts f s ss)).length + 2) = k + 9 :=
    ⟨24 * ((partTokens (callParts f s ss)).length + 2) - 9, by omega⟩
  have hpower : parsePower (fuel + 3) (partTokens (callParts f s ss))
      = some (.call (.name f) (nameArguments (s :: ss)), []) := by
    have hatom : parseAtom (fuel + 2) (partTokens (callParts f s ss))
        = some (.name f, .op "(" :: .name s :: partTokens (argumentParts ss)) := by
      change parseAtom (fuel + 2) (.name f :: _) = _
      rw [parseAtom, if_neg (by simpa using hf)]
      rfl
    have htrailers : parseTrailers (fuel + 2) (.name f) (.op "(" :: .name s :: partTokens (argumentParts ss))
        = some (.call (.name f) (nameArguments (s :: ss)), []) := by
      rw [parseTrailers, parseArguments_eq hs hss (fuel + 1) (by omega)]
      rfl
    rw [parsePower, hatom]
    simp only [htrailers]
  have hexpression : parseExpression (fuel + 9) (partTokens (callParts f s ss))
      = some (.call (.name f) (nameArguments (s :: ss)), []) :=
    parseExpression_eq hf (.inl rfl) (fuel + 2) hpower
  rw [parse?, hfuel]
  simp only [hexpression]

theorem parse?_name (hs : s ∉ reservedWords) : parse? [.name s] = some (.name s) := by
  have hexpression : parseExpression 72 [.name s] = some (.name s, []) :=
    parseExpression_eq hs (.inl rfl) 65 (parsePower_name hs (.inl rfl) 64)
  rw [parse?]
  simp only [List.length_singleton, hexpression]

end Grammar

/-! ## Values -/

section Meaning

variable {scope : Scope}

theorem run_evaluate_name (scope : Scope) (s : String) :
    (evaluate (.name s)).run scope = (scope.value? s).map fun v => (v, scope) := by
  rw [evaluate]
  change (scope.value? s).bind _ = _
  cases scope.value? s <;> rfl

theorem evaluate_name {s : String} {v : Value} (hs : scope.value? s = some v) :
    (evaluate (.name s)).run scope = some (v, scope) := by
  rw [run_evaluate_name, hs]
  rfl

theorem evaluateArguments_eq {ss : List String} {vs : List Value}
    (hss : ss.map scope.value? = vs.map some) :
    (evaluateArguments (nameArguments ss)).run scope = some ((vs, none), scope) := by
  induction ss generalizing vs with
  | nil =>
      obtain rfl : vs = [] := by simpa using hss.symm
      rw [nameArguments, List.map_nil, evaluateArguments]
      rfl
  | cons s ss ih =>
      rcases vs with _ | ⟨v, vs⟩
      · simp at hss
      · rw [List.map_cons, List.map_cons, List.cons.injEq] at hss
        rw [nameArguments, List.map_cons, evaluateArguments]
        change (((evaluate (.name s)).run scope).bind fun p =>
          ((evaluateArguments (nameArguments ss)).run p.2).bind _) = _
        rw [evaluate_name hss.1]
        change ((evaluateArguments (nameArguments ss)).run scope).bind _ = _
        rw [ih hss.2]
        rfl

theorem evaluate_call {f : String} {ss : List String} {g : Value} {vs : List Value}
    (hf : scope.value? f = some g) (hss : ss.map scope.value? = vs.map some) :
    (evaluate (.call (.name f) (nameArguments ss))).run scope
      = (Value.call? g vs none).map fun v => (v, scope) := by
  rw [evaluate]
  · change (((evaluate (.name f)).run scope).bind fun p =>
      ((evaluateArguments (nameArguments ss)).run p.2).bind _) = _
    rw [evaluate_name hf]
    change ((evaluateArguments (nameArguments ss)).run scope).bind _ = _
    rw [evaluateArguments_eq hss]
    change (Value.call? g vs none).bind _ = _
    cases Value.call? g vs none <;> rfl
  · rintro _ _ - h
    cases ss <;> simp [nameArguments] at h

end Meaning

end CircuitIR.Formula
