import CircuitIR.Datum.Conversion
import CircuitIR.Proofs.CallSyntax
import CircuitIR.Proofs.SelfEquality
import CircuitIR.Proofs.SymbolTable

/-!
# Reading the text of an application

The text of a function applied to names is read back as this application exactly if the name of the function
is one that formulas give a meaning to. The printer writes more functions than these. Their names are taken for
symbols when they are read, and a symbol cannot be called.
-/

namespace CircuitIR.Formula

/-! ## Plain texts -/

theorem hasDoubleUnderscore_append (cs ds : List Char) {c : Char} (hc : c ≠ '_') :
    hasDoubleUnderscore (cs ++ c :: ds) = (hasDoubleUnderscore cs || hasDoubleUnderscore ds) := by
  induction cs using hasDoubleUnderscore.induct with
  | case1 cs => rfl
  | case2 d cs hd ih =>
      rw [List.cons_append, hasDoubleUnderscore, hasDoubleUnderscore, ih]
      · exact hd
      · rintro es hd' h
        rcases cs with _ | ⟨e, cs⟩
        · exact hc (List.cons.inj h).1
        · exact hd cs hd' (by rw [(List.cons.inj h).1])
  | case3 =>
      rw [List.nil_append, hasDoubleUnderscore]
      · rfl
      · intro _ h
        exact absurd h hc

theorem pointFollows_eq_false {ps : List TextPart} (hps : .other '.' ∉ ps) : pointFollows ps = false := by
  induction ps with
  | nil => rfl
  | cons p ps ih =>
      cases p with
      | identifier s => rfl
      | other c =>
          have hc : (c == '.') = false := by
            rw [beq_eq_false_iff_ne]
            rintro rfl
            exact hps (by simp)
          rw [pointFollows, hc, ih fun h => hps (by simp [h])]
          simp

theorem accessesAttribute_eq_false {ps : List TextPart} (hps : .other '.' ∉ ps) :
    accessesAttribute ps = false := by
  induction ps with
  | nil => rfl
  | cons p ps ih =>
      have htail : .other '.' ∉ ps := fun h => hps (by simp [h])
      simp only [accessesAttribute, pointFollows_eq_false htail, ih htail, Bool.and_false, Bool.or_self]

theorem IsWord.not_isForbidden {w : List Char} (hw : IsWord w) : w.any isForbidden = false := by
  rw [List.any_eq_false]
  intro c hc hforbidden
  have hname := hw.isNameCharacter hc
  simp only [isForbidden, Bool.or_eq_true, beq_iff_eq] at hforbidden
  rcases hforbidden with ((rfl | rfl) | rfl) | rfl <;> exact absurd hname (by decide +kernel)

theorem mem_argumentParts {p : TextPart} {ss : List String} (hp : p ∈ argumentParts ss) :
    (∃ t ∈ ss, p = .identifier t) ∨ ∃ c ∈ ['(', ',', ' ', ')'], p = .other c := by
  induction ss with
  | nil =>
      rw [argumentParts, List.mem_singleton] at hp
      exact .inr ⟨')', by simp, hp⟩
  | cons s ss ih =>
      simp only [argumentParts, List.mem_cons] at hp
      obtain rfl | rfl | rfl | hp := hp
      · exact .inr ⟨',', by simp, rfl⟩
      · exact .inr ⟨' ', by simp, rfl⟩
      · exact .inl ⟨s, by simp, rfl⟩
      · obtain ⟨t, ht, rfl⟩ | h := ih hp
        · exact .inl ⟨t, by simp [ht], rfl⟩
        · exact .inr h

theorem mem_callParts {p : TextPart} {f s : String} {ss : List String} (hp : p ∈ callParts f s ss) :
    (∃ t ∈ f :: s :: ss, p = .identifier t) ∨ ∃ c ∈ ['(', ',', ' ', ')'], p = .other c := by
  simp only [callParts, List.mem_cons] at hp
  obtain rfl | rfl | rfl | hp := hp
  · exact .inl ⟨f, by simp, rfl⟩
  · exact .inr ⟨'(', by simp, rfl⟩
  · exact .inl ⟨s, by simp, rfl⟩
  · obtain ⟨t, ht, rfl⟩ | h := mem_argumentParts hp
    · exact .inl ⟨t, by simp [ht], rfl⟩
    · exact .inr h

theorem identifier_mem_callParts {t f s : String} {ss : List String} :
    .identifier t ∈ callParts f s ss ↔ t ∈ f :: s :: ss := by
  have harguments : .identifier t ∈ argumentParts ss ↔ t ∈ ss := by
    induction ss with
    | nil => simp [argumentParts]
    | cons s ss ih => simp [argumentParts, ih]
  simp [callParts, harguments]

theorem isSettled_partLexemes {table : List (String × String)} {f s : String} {ss : List String}
    (hnames : ∀ t ∈ f :: s :: ss, (symbolOf? table t).isSome ∨ IsFixed t) {l : Lexeme}
    (hl : l ∈ partLexemes (callParts f s ss)) : IsSettled table l := by
  obtain ⟨p, hp, hpl⟩ := List.mem_filterMap.1 hl
  obtain ⟨t, ht, rfl⟩ | ⟨c, hc, rfl⟩ := mem_callParts hp
  · exact .inl ⟨t, (Option.some.inj hpl).symm, hnames t ht⟩
  · simp only [List.mem_cons, List.not_mem_nil, or_false] at hc
    obtain rfl | rfl | rfl | rfl := hc
    · exact .inr ⟨'(', by simp, (Option.some.inj hpl).symm⟩
    · exact .inr ⟨',', by simp, (Option.some.inj hpl).symm⟩
    · exact nomatch (show (none : Option Lexeme) = some l from hpl)
    · exact .inr ⟨')', by simp, (Option.some.inj hpl).symm⟩

theorem respelled_callParts (f s : String) (ss : List String) :
    respelled (callParts f s ss) = joined (callParts (spelling f) (spelling s) (ss.map spelling)) := by
  have harguments : respelled (argumentParts ss) = joined (argumentParts (ss.map spelling)) := by
    induction ss with
    | nil => rfl
    | cons t ts ih =>
        rw [List.map_cons, joined_argumentParts_cons, ← ih]
        rfl
  rw [joined_callParts, ← harguments]
  rfl

theorem hasDoubleUnderscore_argumentParts {s : String} {ss : List String}
    (hss : ∀ t ∈ s :: ss, IsWord t.toList) :
    hasDoubleUnderscore (s.toList ++ joined (argumentParts ss)) = false := by
  induction ss generalizing s with
  | nil =>
      change hasDoubleUnderscore (s.toList ++ ')' :: []) = false
      rw [hasDoubleUnderscore_append _ _ (by decide), (hss s (by simp)).plain]
      rfl
  | cons t ts ih =>
      have hrest : ∀ u ∈ t :: ts, IsWord u.toList := fun u hu => hss u (by simp [hu])
      rw [joined_argumentParts_cons, hasDoubleUnderscore_append _ _ (by decide), (hss s (by simp)).plain]
      exact ih hrest

theorem not_isForbidden_callParts {f s : String} {ss : List String}
    (hwords : ∀ t ∈ f :: s :: ss, IsWord t.toList) : (joined (callParts f s ss)).any isForbidden = false := by
  rw [joined, List.any_flatMap, List.any_eq_false]
  intro p hp
  obtain ⟨t, ht, rfl⟩ | ⟨c, hc, rfl⟩ := mem_callParts hp
  · simp [(hwords t ht).not_isForbidden]
  · simp only [List.mem_cons, List.not_mem_nil, or_false] at hc
    rcases hc with rfl | rfl | rfl | rfl <;> decide

theorem isPlain_of_callParts {text f s : String} {ss : List String}
    (hwords : ∀ t ∈ f :: s :: ss, IsWord t.toList) (htext : text.toList = joined (callParts f s ss)) :
    isPlain text = true := by
  obtain ⟨hf, hss⟩ := List.forall_mem_cons.1 hwords
  have hunderscore : hasDoubleUnderscore (joined (callParts f s ss)) = false := by
    rw [joined_callParts, hasDoubleUnderscore_append _ _ (by decide), hf.plain,
      hasDoubleUnderscore_argumentParts hss]
    rfl
  have hattribute : accessesAttribute (callParts f s ss) = false := by
    refine accessesAttribute_eq_false fun hpoint => ?_
    obtain ⟨t, -, ht⟩ | ⟨c, hc, hpoint⟩ := mem_callParts hpoint
    · contradiction
    · cases hpoint
      revert hc
      decide
  rw [isPlain, htext, textParts_callParts hf hss]
  simp only [hunderscore, hattribute, not_isForbidden_callParts hwords]
  rfl

section Call

variable {text f s : String} {ss : List String}

/-- The name of a symbol has the value of a symbol, not always of the one of this name. -/
theorem exists_value?_name {ps : List TextPart} (hs : IsName s) (hmem : .identifier s ∈ ps) :
    ∃ x, symbolOf? (symbolTable ps) (spelling s) = some x
      ∧ Scope.value? ⟨[], symbolTable ps⟩ (spelling s) = some (.expr (.symbol x)) := by
  obtain ⟨x, hx⟩ := Option.isSome_iff_exists.1 (isSome_symbolOf?_spelling hmem hs.free)
  refine ⟨x, hx, ?_⟩
  rw [Scope.value?, (isWord_spelling hs.word).isLookedUp]
  simp only [List.find?_nil, hx]
  rfl

theorem value?_name {ps : List TextPart} (hapart : SpelledApart ss) (hps : ∀ t, .identifier t ∈ ps → t ∈ ss)
    (hs : IsName s) (hmem : .identifier s ∈ ps) :
    Scope.value? ⟨[], symbolTable ps⟩ (spelling s) = some (.expr (.symbol s)) := by
  obtain ⟨x, hx, hvalue⟩ := exists_value?_name hs hmem
  rw [symbolOf?_spelling hapart hps hmem hs.free] at hx
  obtain rfl := Option.some.inj hx
  exact hvalue

theorem value?_fixed (hf : IsFixed f) (hword : IsWord f.toList) (ps : List TextPart) :
    Scope.value? ⟨[], symbolTable ps⟩ f = fixedMeaning? f := by
  rw [Scope.value?, hword.isLookedUp]
  simp only [List.find?_nil, symbolOf?_eq_none hf]
  rfl

/-- A word that occurs in a text has a meaning under its spelling. -/
theorem isSettled_spelling {ps : List TextPart} (hmem : .identifier s ∈ ps) :
    (symbolOf? (symbolTable ps) (spelling s)).isSome ∨ IsFixed (spelling s) := by
  by_cases hfixed : IsFixed s
  · right
    rwa [spelling_of_isFixed hfixed]
  · exact .inl (isSome_symbolOf?_spelling hmem hfixed)

theorem expand_callParts (f s : String) (ss : List String) :
    expand (symbolTable (callParts f s ss))
        (partLexemes (callParts (spelling f) (spelling s) (ss.map spelling)))
      = some (partLexemes (callParts (spelling f) (spelling s) (ss.map spelling))) := by
  refine expand_eq fun l hl => isSettled_partLexemes (fun t ht => ?_) hl
  rw [← List.map_cons, ← List.map_cons] at ht
  obtain ⟨u, hu, rfl⟩ := List.mem_map.1 ht
  exact isSettled_spelling (identifier_mem_callParts.2 hu)

theorem value?_callParts (hf : IsWord f.toList) (hss : ∀ t ∈ s :: ss, IsName t)
    (hapart : SpelledApart (f :: s :: ss)) (htext : text.toList = joined (callParts f s ss)) {g : Value}
    (hg : Scope.value? ⟨[], symbolTable (callParts f s ss)⟩ (spelling f) = some g) :
    value? text = Value.call? g ((s :: ss).map fun t => .expr (.symbol t)) none := by
  have hwords : ∀ t ∈ s :: ss, IsWord t.toList := fun t ht => (hss t ht).word
  have hlexemes : lexemes (joined (callParts (spelling f) (spelling s) (ss.map spelling)))
      = some (partLexemes (callParts (spelling f) (spelling s) (ss.map spelling))) := by
    refine lexemes_callParts (isWord_spelling hf) fun t ht => ?_
    rw [← List.map_cons] at ht
    obtain ⟨u, hu, rfl⟩ := List.mem_map.1 ht
    exact isWord_spelling (hwords u hu)
  have hparse : parse? (partTokens (callParts (spelling f) (spelling s) (ss.map spelling)))
      = some (.call (.name (spelling f)) (nameArguments ((s :: ss).map spelling))) := by
    refine parse?_callParts (not_reserved_spelling f) (not_reserved_spelling s) fun t ht => ?_
    obtain ⟨u, -, rfl⟩ := List.mem_map.1 ht
    exact not_reserved_spelling u
  have hvalues : ((s :: ss).map spelling).map (Scope.value? ⟨[], symbolTable (callParts f s ss)⟩)
      = ((s :: ss).map fun t => Value.expr (.symbol t)).map some := by
    rw [List.map_map, List.map_map]
    refine List.map_congr_left fun t ht => ?_
    exact value?_name hapart (fun t => identifier_mem_callParts.1) (hss t ht)
      (identifier_mem_callParts.2 (List.mem_cons_of_mem f ht))
  rw [value?, htext, textParts_callParts hf hwords, respelled_callParts]
  simp only [hlexemes, expand_callParts f s ss, Option.bind_some, tokens_callParts, hparse]
  rw [evaluate_call hg hvalues]
  cases Value.call? g ((s :: ss).map fun t => .expr (.symbol t)) none <;> rfl

theorem value?_fixedCall (hf : IsFixed f) (hword : IsWord f.toList) (hss : ∀ t ∈ s :: ss, IsName t)
    (hapart : SpelledApart (f :: s :: ss)) (htext : text.toList = joined (callParts f s ss)) {g : Value}
    (hg : fixedMeaning? f = some g) :
    value? text = Value.call? g ((s :: ss).map fun t => .expr (.symbol t)) none := by
  refine value?_callParts hword hss hapart htext ?_
  rw [spelling_of_isFixed hf, value?_fixed hf hword, hg]

theorem value?_symbolCall (hf : IsName f) (hss : ∀ t ∈ s :: ss, IsName t)
    (hapart : SpelledApart (f :: s :: ss)) (htext : text.toList = joined (callParts f s ss)) :
    value? text = none := by
  have hcall : Value.call? (.expr (.symbol f)) ((s :: ss).map fun t => .expr (.symbol t)) none = none := rfl
  rw [← hcall]
  refine value?_callParts hf.word hss hapart htext ?_
  exact value?_name hapart (fun t => identifier_mem_callParts.1) hf (identifier_mem_callParts.2 (by simp))

end Call

section Word

variable {s : String}

theorem isPlain_word (hs : IsWord s.toList) : isPlain s = true := by
  rw [isPlain, textParts_word hs]
  simp only [hs.plain, hs.not_isForbidden]
  rfl

theorem value?_word (hs : IsWord s.toList) :
    value? s = Scope.value? ⟨[], symbolTable [.identifier s]⟩ (spelling s) := by
  have hrespelled : respelled [.identifier s] = (spelling s).toList := List.append_nil _
  have hexpand : expand (symbolTable [.identifier s]) [.name (spelling s)] = some [.name (spelling s)] :=
    expand_eq fun l hl =>
      .inl ⟨spelling s, List.mem_singleton.1 hl, isSettled_spelling List.mem_cons_self⟩
  have htokens : tokens [.name (spelling s)] = some [.name (spelling s)] := rfl
  rw [value?, textParts_word hs, hrespelled]
  simp only [lexemes_word (isWord_spelling hs), hexpand, Option.bind_some, htokens,
    parse?_name (not_reserved_spelling s), run_evaluate_name, Option.map_map]
  exact Option.map_id'

end Word

/-! ## Applications -/

end CircuitIR.Formula

namespace CircuitIR

open Formula

theorem FunctionName.isWord_text (f : FunctionName) : IsWord f.text.toList := by
  cases f <;> decide +kernel

theorem FunctionName.spelledApart {f : FunctionName} {ss : List String} (hss : SpelledApart ss) :
    SpelledApart (f.text :: ss) := by
  have hf : f.text ∉ reservedWords := by cases f <;> decide +kernel
  have hplaceholder : ∀ w ∈ reservedWords, placeholder w ≠ f.text := by cases f <;> decide +kernel
  intro t ht hreserved hmem
  obtain rfl | ht := List.mem_cons.1 ht
  · exact hf hreserved
  · obtain h | hmem := List.mem_cons.1 hmem
    · exact hplaceholder t hreserved h
    · exact hss t ht hreserved hmem

theorem FunctionName.fixedMeaning?_text {f : FunctionName} (hf : IsFixed f.text) :
    fixedMeaning? f.text = some (.function (.elementary f)) := by
  revert hf
  cases f <;> first | exact fun _ => rfl | exact fun h => absurd h (by decide)

theorem Expr.text_apply_symbols (f : FunctionName) (s : String) (ss : List String) :
    (Expr.apply f ((s :: ss).map .symbol)).text.toList = joined (callParts f.text s ss) := by
  have harguments (s : String) (ss : List String) :
      [',', ' '].intercalate ((s :: ss).map String.toList) ++ [')'] = s.toList ++ joined (argumentParts ss) := by
    induction ss generalizing s with
    | nil => simp [argumentParts, joined]
    | cons t ts ih =>
        rw [joined_argumentParts_cons, ← ih]
        simp [List.intercalate]
  have htexts (n : ℕ) : ((s :: ss).map Expr.symbol).map (textAt (n + 1)) = s :: ss := by
    rw [List.map_map]
    exact List.map_id _
  have htext (n : ℕ) : textAt (n + 2) (.apply f ((s :: ss).map .symbol))
      = f.text ++ parenthesized (", ".intercalate (s :: ss)) :=
    congrArg (fun ts => f.text ++ parenthesized (", ".intercalate ts)) (htexts n)
  rw [Expr.text, htext, parenthesized, String.toList_append, String.toList_append,
    String.toList_append, String.toList_intercalate, joined_callParts, ← harguments]
  rfl

theorem Expr.applicationFault?_symbols (f : FunctionName) (ss : List String) :
    applicationFault? f (ss.map .symbol) = none := by
  rcases ss with _ | ⟨s, _ | ⟨t, _ | ⟨u, ss⟩⟩⟩ <;> cases f <;> rfl

/-- An application that the simplifier leaves as it is. -/
theorem applyElementary?_symbols {f : FunctionName} {ss : List String}
    (harity : Value.takesArguments f ss.length = true)
    (hcanonical : Rules.standard.apply f (ss.map .symbol) = .apply f (ss.map .symbol)) :
    Value.applyElementary? f true (ss.map fun s => .expr (.symbol s)) = some (.apply f (ss.map .symbol)) := by
  have hexprs {toExpr? : Value → Option Expr} (htoExpr : ∀ e, toExpr? (.expr e) = some e) :
      (ss.map fun s => Value.expr (.symbol s)).filterMap toExpr? = ss.map Expr.symbol := by
    rw [List.filterMap_map, ← List.filterMap_eq_map]
    exact List.filterMap_congr fun s _ => htoExpr (.symbol s)
  rw [Value.applyElementary?, hexprs fun _ => rfl]
  simp only [List.length_map, harity, Expr.applicationFault?_symbols, hcanonical, bne_self_eq_false]
  rfl

theorem read_apply_symbols {f : FunctionName} {s : String} {ss : List String}
    (hss : ∀ t ∈ s :: ss, IsName t) (hapart : SpelledApart (s :: ss))
    (harity : Value.takesArguments f (s :: ss).length = true)
    (hcanonical : Rules.standard.apply f ((s :: ss).map .symbol) = .apply f ((s :: ss).map .symbol)) :
    Formula.read (Expr.apply f ((s :: ss).map .symbol)).text
      = if IsFixed f.text then .ok (.apply f ((s :: ss).map .symbol))
        else .error (.unreadable (Expr.apply f ((s :: ss).map .symbol)).text) := by
  have hword := f.isWord_text
  have hapart' : SpelledApart (f.text :: s :: ss) := FunctionName.spelledApart hapart
  have htext := Expr.text_apply_symbols f s ss
  have hplain := isPlain_of_callParts
    (List.forall_mem_cons.2 ⟨hword, fun t ht => (hss t ht).word⟩) htext
  rw [Formula.read, hplain]
  by_cases hfixed : IsFixed f.text
  · rw [if_pos hfixed,
      value?_fixedCall hfixed hword hss hapart' htext (FunctionName.fixedMeaning?_text hfixed)]
    simp only [Value.call?, applyElementary?_symbols harity hcanonical]
    rfl
  · rw [if_neg hfixed, value?_symbolCall ⟨hword, hfixed⟩ hss hapart' htext]
    rfl

namespace Parameter

theorem result_read_of_ok {text : String} {e : Expr} (hread : Formula.read text = .ok e)
    (hclosed : e.isClosed = false) : (Parameter.read text).result = .ok (.symbolic e) := by
  rw [Parameter.read, hread]
  simp only [Expr.toParameter, hclosed]
  rfl

theorem result_read_of_error {text : String} {cause : ReadError} (hread : Formula.read text = .error cause) :
    (Parameter.read text).result = .error (.unreadableParameter cause) := by
  rw [Parameter.read, hread]
  cases cause <;> rfl

/-- **A function of symbols is read back from its text exactly if formulas know the name of the function**,
where the simplifier leaves the application as it is. -/
theorem result_read_apply_symbols {f : FunctionName} {s : String} {ss : List String}
    (hss : ∀ t ∈ s :: ss, IsName t) (hapart : SpelledApart (s :: ss))
    (harity : Value.takesArguments f (s :: ss).length = true)
    (hcanonical : Rules.standard.apply f ((s :: ss).map .symbol) = .apply f ((s :: ss).map .symbol)) :
    (Parameter.read (Expr.apply f ((s :: ss).map .symbol)).text).result
      = if IsFixed f.text then .ok (.symbolic (.apply f ((s :: ss).map .symbol)))
        else .error (.unreadableParameter (.unreadable (Expr.apply f ((s :: ss).map .symbol)).text)) := by
  have hread := read_apply_symbols hss hapart harity hcanonical
  split
  · next hfixed =>
      rw [if_pos hfixed] at hread
      exact result_read_of_ok hread rfl
  · next hfree =>
      rw [if_neg hfree] at hread
      exact result_read_of_error hread

/-- The remainder of a symbol can be read. Its text cannot. -/
theorem result_read_remainder :
    ∃ e, (Parameter.read "x % 3").result = .ok (.symbolic e)
      ∧ (Parameter.read e.text).result = .error (.unreadableParameter (.unreadable "Mod(x, 3)")) := by
  have hread : Formula.read "x % 3" = .ok (.apply .modulus [.symbol "x", .int 3]) := by decide +kernel
  have htext : (Expr.apply .modulus [.symbol "x", .int 3]).text = "Mod(x, 3)" := by decide +kernel
  have hagain : Formula.read "Mod(x, 3)" = .error (.unreadable "Mod(x, 3)") := by decide +kernel
  refine ⟨.apply .modulus [.symbol "x", .int 3], result_read_of_ok hread rfl, ?_⟩
  rw [htext]
  exact result_read_of_error hagain

/-- **A symbol is read back from its name**, also if the name is a reserved word. -/
theorem result_read_symbol {s : String} (hs : IsName s) :
    (Parameter.read (Expr.symbol s).text).result = .ok (.symbolic (.symbol s)) := by
  have hscope : Scope.value? ⟨[], symbolTable [.identifier s]⟩ (spelling s) = some (.expr (.symbol s)) :=
    value?_name (spelledApart_singleton s) (by simp) hs List.mem_cons_self
  have hread : Formula.read (Expr.symbol s).text = .ok (.symbol s) := by
    change Formula.read s = _
    rw [Formula.read, isPlain_word hs.word, value?_word hs.word, hscope]
    rfl
  exact result_read_of_ok hread rfl

end Parameter

end CircuitIR
