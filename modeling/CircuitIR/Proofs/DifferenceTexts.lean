import CircuitIR.Proofs.ReadingCalls

/-!
# Texts of differences

The text of two names with a minus sign between them splits at the names, has the names and the sign as its
lexemes, and is read as a subtraction. Its value is the difference of the values that the names have under
their spellings.
-/

namespace CircuitIR.Formula

/-! ## Texts and lexemes -/

/-- The parts of the difference of two names. -/
def differenceParts (s t : String) : List TextPart :=
  [.identifier s, .other ' ', .other '-', .other ' ', .identifier t]

section Difference

variable {s t : String}

theorem joined_differenceParts (s t : String) :
    joined (differenceParts s t) = s.toList ++ ' ' :: '-' :: ' ' :: (t.toList ++ []) := rfl

theorem identifier_mem_differenceParts {u : String} : .identifier u ∈ differenceParts s t ↔ u ∈ [s, t] := by
  simp [differenceParts]

theorem toList_difference (s t : String) :
    (s ++ " - " ++ t).toList = joined (differenceParts s t) := by
  rw [joined_differenceParts]
  simp

theorem length_joined_differenceParts (hs : IsWord s.toList) (ht : IsWord t.toList) :
    ∃ n, (joined (differenceParts s t)).length = n + 5 := by
  have hlength : (joined (differenceParts s t)).length = s.toList.length + (t.toList.length + 3) := by
    rw [joined_differenceParts, List.append_nil, List.length_append, List.length_cons, List.length_cons,
      List.length_cons]
  have hspos := hs.length_pos
  have htpos := ht.length_pos
  exact ⟨(joined (differenceParts s t)).length - 5, by omega⟩

theorem textParts_differenceParts (hs : IsWord s.toList) (ht : IsWord t.toList) :
    textParts (joined (differenceParts s t)) = differenceParts s t := by
  obtain ⟨fuel, hfuel⟩ := length_joined_differenceParts hs ht
  have hend : EndsWord (' ' :: '-' :: ' ' :: (t.toList ++ [])) := rfl
  rw [textParts, hfuel, joined_differenceParts, textPartsFrom_word hs hend, textPartsFrom_other _ rfl,
    textPartsFrom_other _ rfl, textPartsFrom_other _ rfl]
  change _ :: _ :: _ :: _ :: textPartsFrom (fuel + 1) true _ = _
  rw [textPartsFrom_word ht endsWord_nil, String.ofList_toList, String.ofList_toList]
  cases fuel <;> rfl

/-- A minus sign between blanks is one lexeme, and the first blank is skipped. -/
theorem scan_minus (depth : ℤ) (fuel : ℕ) (rest : List Char) :
    scan (fuel + 1) .inside depth (' ' :: '-' :: ' ' :: rest)
      = (scan fuel .inside depth (' ' :: rest)).map (.op "-" :: ·) := by
  have hnumber : afterNumber? ('-' :: ' ' :: rest) = none :=
    afterNumber?_eq_none _ (by decide) (by decide)
  have hbody : (' ' :: '-' :: ' ' :: rest).dropWhile isBlank = '-' :: ' ' :: rest := rfl
  have hdepth : depth + depthChange "-" = depth := Int.add_zero depth
  rw [scan, hbody]
  simp only [hnumber]
  change (scan fuel .inside (depth + depthChange "-") (' ' :: rest)).map _ = _
  rw [hdepth]

theorem lexemes_differenceParts (hs : IsWord s.toList) (ht : IsWord t.toList) :
    lexemes (joined (differenceParts s t)) = some [.name s, .op "-", .name t] := by
  obtain ⟨fuel, hfuel⟩ := length_joined_differenceParts hs ht
  have hend : EndsWord (' ' :: '-' :: ' ' :: (t.toList ++ [])) := rfl
  have hhead : (joined (differenceParts s t)).head?.any CharacterClass.isSpace = false := head?_isSpace hs _
  have hlast : (joined (differenceParts s t)).getLast?.any CharacterClass.isSpace = false := by
    rw [joined_differenceParts, List.append_nil, List.append_cons, List.append_cons, List.append_cons]
    exact getLast?_isSpace ht _
  rw [lexemes, strip_eq hhead hlast, hfuel, joined_differenceParts, scan_word hs hend .start 0 _ (.inl rfl),
    scan_minus, scan_word ht endsWord_nil .inside 0 _ (.inr ⟨rfl, rfl⟩), String.ofList_toList,
    String.ofList_toList]
  rfl

/-- Two names with a meaning and a minus sign between them are not expanded. -/
theorem expand_difference {table : List (String × String)} (hs : (symbolOf? table s).isSome ∨ IsFixed s)
    (ht : (symbolOf? table t).isSome ∨ IsFixed t) :
    expand table [.name s, .op "-", .name t] = some [.name s, .op "-", .name t] := by
  have hnames : expandNames table ⟨.comment, ""⟩ [.name s, .op "-", .name t]
      = [.name s, .op "-", .name t] := by
    simp only [expandNames, Lexeme.name, Lexeme.op, keepsName_eq_true hs, keepsName_eq_true ht]
    rfl
  rw [expand, hnames]
  rfl

/-! ## Trees and values -/

theorem parse?_difference (hs : s ∉ reservedWords) (ht : t ∉ reservedWords) :
    parse? [.name s, .op "-", .name t] = some (.binary "-" (.name s) (.name t)) := by
  have hminuend : parseFactor 115 [.name s, .op "-", .name t] = some (.name s, [.op "-", .name t]) := by
    have hatom : parseAtom 113 [.name s, .op "-", .name t] = some (.name s, [.op "-", .name t]) := by
      rw [parseAtom, if_neg (by simpa using hs)]
    rw [parseFactor, parsePower, hatom]
    · rfl
    · simp
  have hsubtrahend : parseBinary 114 6 [.name t] = some (.name t, []) := by
    rw [parseBinary, parseFactor, parsePower_name ht (.inl rfl)]
    · rfl
    · simp
  have hoperands : parseOperands 115 1 (.name s) [.op "-", .name t]
      = some (.binary "-" (.name s) (.name t), []) := by
    have hbinds : bindingPower "-" = some 5 := rfl
    rw [parseOperands]
    simp only [hbinds, hsubtrahend]
    rfl
  have hexpression : parseExpression 120 [.name s, .op "-", .name t]
      = some (.binary "-" (.name s) (.name t), []) := by
    refine parseExpression_of_parseBinary hs (.inl rfl) 115 ?_
    rw [parseBinary, hminuend]
    exact hoperands
  rw [parse?]
  simp only [List.length_cons, List.length_nil, hexpression]

/-- The value of the text of a difference is the difference of the values of the names. -/
theorem value?_difference (hs : IsWord s.toList) (ht : IsWord t.toList) :
    value? (s ++ " - " ++ t)
      = (Scope.value? ⟨[], symbolTable (differenceParts s t)⟩ (spelling s)).bind fun x =>
        (Scope.value? ⟨[], symbolTable (differenceParts s t)⟩ (spelling t)).bind fun y =>
          Value.binary? "-" x y := by
  set scope : Scope := ⟨[], symbolTable (differenceParts s t)⟩ with hscope
  have hrespelled : respelled (differenceParts s t)
      = joined (differenceParts (spelling s) (spelling t)) := rfl
  have hexpand : expand (symbolTable (differenceParts s t)) [.name (spelling s), .op "-", .name (spelling t)]
      = some [.name (spelling s), .op "-", .name (spelling t)] :=
    expand_difference (isSettled_spelling (identifier_mem_differenceParts.2 (by simp)))
      (isSettled_spelling (identifier_mem_differenceParts.2 (by simp)))
  have htokens : tokens [.name (spelling s), .op "-", .name (spelling t)]
      = some [.name (spelling s), .op "-", .name (spelling t)] := rfl
  -- names assign nothing, so the subtrahend is looked up in the scope of the minuend
  have hevaluate : ((evaluate (.binary "-" (.name (spelling s)) (.name (spelling t)))).run scope).map (·.1)
      = (scope.value? (spelling s)).bind fun x => (scope.value? (spelling t)).bind fun y =>
          Value.binary? "-" x y := by
    rw [evaluate]
    change ((((evaluate (.name (spelling s))).run scope).bind fun p =>
      ((evaluate (.name (spelling t))).run p.2).bind fun q =>
        (Value.binary? "-" p.1 q.1).bind fun v => some (v, q.2)).map (·.1)) = _
    rw [run_evaluate_name]
    cases scope.value? (spelling s) with
    | none => rfl
    | some x =>
        simp only [Option.map_some, Option.bind_some, run_evaluate_name]
        cases scope.value? (spelling t) with
        | none => rfl
        | some y =>
            simp only [Option.map_some, Option.bind_some]
            cases Value.binary? "-" x y <;> rfl
  rw [value?, toList_difference, textParts_differenceParts hs ht, hrespelled]
  simp only [lexemes_differenceParts (isWord_spelling hs) (isWord_spelling ht), hexpand, Option.bind_some,
    htokens, parse?_difference (not_reserved_spelling s) (not_reserved_spelling t)]
  exact hevaluate

theorem isPlain_difference (hs : IsWord s.toList) (ht : IsWord t.toList) : isPlain (s ++ " - " ++ t) = true := by
  have hunderscore : hasDoubleUnderscore (joined (differenceParts s t)) = false := by
    rw [joined_differenceParts, hasDoubleUnderscore_append _ _ (by decide), hs.plain]
    change hasDoubleUnderscore (['-'] ++ ' ' :: (t.toList ++ [])) = false
    rw [hasDoubleUnderscore_append _ _ (by decide), List.append_nil, ht.plain]
    rfl
  have hattribute : accessesAttribute (differenceParts s t) = false :=
    accessesAttribute_eq_false (by simp [differenceParts])
  have hforbidden : (joined (differenceParts s t)).any isForbidden = false := by
    rw [joined_differenceParts]
    simp only [List.any_append, List.any_cons, hs.not_isForbidden, ht.not_isForbidden]
    rfl
  rw [isPlain, toList_difference, textParts_differenceParts hs ht]
  simp only [hunderscore, hattribute, hforbidden]
  rfl

end Difference

end CircuitIR.Formula
