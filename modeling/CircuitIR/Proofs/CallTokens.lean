import CircuitIR.Formula.Reader
import Mathlib.Data.Int.Notation
import Mathlib.Data.List.Basic

/-!
# Texts of calls

The printer writes the application of a function as a name, and its arguments in parentheses with a comma and
a blank between them. Where the arguments are names as well, the text splits at these names, its lexemes are
the names and the delimiters, and the tokens are the same.
-/

namespace CircuitIR.Formula

/-! ## Words -/

/-- A character that continues a name and stands for itself there. -/
def isNameCharacter (c : Char) : Bool :=
  CharacterClass.isWord c && CharacterClass.isIdentifierRest c
    && !CharacterClass.isCompatibilityVariant c && !CharacterClass.isSpace c

/-- The characters are one identifier that may stand in a plain text. -/
structure IsWord (cs : List Char) : Prop where
  starts : cs.head?.any isAsciiStart = true
  continues : cs.all isNameCharacter = true
  plain : hasDoubleUnderscore cs = false

instance (cs : List Char) : Decidable (IsWord cs) :=
  decidable_of_iff (cs.head?.any isAsciiStart = true ∧ cs.all isNameCharacter = true
    ∧ hasDoubleUnderscore cs = false) ⟨fun ⟨h, h', h''⟩ => ⟨h, h', h''⟩, fun ⟨h, h', h''⟩ => ⟨h, h', h''⟩⟩

/-- The character begins neither a number, an operator, a comment nor the end of a line. -/
def BeginsName (c : Char) : Prop :=
  c.isDigit = false ∧ isBlank c = false ∧ c ≠ '#' ∧ c ≠ '\\' ∧ c ≠ '.' ∧ c ≠ '\n' ∧ c ≠ '\r'
    ∧ CharacterClass.isIdentifierStart c = true ∧ ∀ s ∈ operators, s.toList.head? ≠ some c

instance (c : Char) : Decidable (BeginsName c) := inferInstanceAs (Decidable (_ ∧ _))

theorem toNat_lt_of_isAsciiStart {c : Char} (hc : isAsciiStart c = true) : c.toNat < 128 := by
  delta isAsciiStart Char.isAlpha Char.isUpper Char.isLower at hc
  simp only [Bool.or_eq_true, Bool.and_eq_true, decide_eq_true_eq, beq_iff_eq, UInt32.le_iff_toNat_le,
    ge_iff_le] at hc
  change ((65 ≤ c.toNat ∧ c.toNat ≤ 90) ∨ (97 ≤ c.toNat ∧ c.toNat ≤ 122)) ∨ c = '_' at hc
  rcases hc with (h | h) | rfl
  · omega
  · omega
  · decide

theorem isWord_of_isAsciiStart {c : Char} (hc : isAsciiStart c = true) : CharacterClass.isWord c = true := by
  rw [CharacterClass.isWord, if_pos (toNat_lt_of_isAsciiStart hc), Char.isAlphanum, Bool.or_right_comm]
  rw [isAsciiStart] at hc
  rw [hc, Bool.true_or]

theorem of_toNat_lt {p : Char → Prop} (hp : ∀ n < 128, p (Char.ofNat n)) {c : Char} (hc : c.toNat < 128) :
    p c := by
  have h := hp c.toNat hc
  rwa [Char.ofNat_toNat] at h

theorem beginsName {c : Char} (hc : isAsciiStart c = true) : BeginsName c := by
  have hall : ∀ n < 128, isAsciiStart (Char.ofNat n) = true → BeginsName (Char.ofNat n) := by
    decide +kernel
  exact of_toNat_lt (p := fun c => isAsciiStart c = true → BeginsName c) hall
    (toNat_lt_of_isAsciiStart hc) hc

namespace IsWord

variable {w : List Char}

theorem exists_cons (hw : IsWord w) : ∃ c cs, w = c :: cs ∧ isAsciiStart c = true := by
  cases w with
  | nil => exact absurd hw.starts (by decide)
  | cons c cs => exact ⟨c, cs, rfl, hw.starts⟩

theorem length_pos (hw : IsWord w) : 0 < w.length := by
  obtain ⟨c, cs, rfl, -⟩ := hw.exists_cons
  exact Nat.succ_pos cs.length

theorem isNameCharacter (hw : IsWord w) {c : Char} (hc : c ∈ w) : isNameCharacter c = true :=
  List.all_eq_true.1 hw.continues c hc

theorem isWord (hw : IsWord w) : ∀ c ∈ w, CharacterClass.isWord c = true := by
  intro c hc
  have h := hw.isNameCharacter hc
  simp only [Formula.isNameCharacter, Bool.and_eq_true] at h
  exact h.1.1.1

theorem not_isSpace (hw : IsWord w) : ∀ c ∈ w, CharacterClass.isSpace c = false := by
  intro c hc
  have h := hw.isNameCharacter hc
  simp only [Formula.isNameCharacter, Bool.and_eq_true, Bool.not_eq_true'] at h
  exact h.2

theorem isLookedUp {s : String} (hs : IsWord s.toList) : isLookedUp s = true := by
  refine List.all_eq_true.2 fun c hc => ?_
  have h := hs.isNameCharacter hc
  simp only [Formula.isNameCharacter, Bool.and_eq_true] at h
  simp only [Bool.and_eq_true]
  exact ⟨h.1.1.2, h.1.2⟩

end IsWord

/-- What follows a word: the end of the text or a character that does not continue it. -/
def EndsWord (rest : List Char) : Prop := rest.head?.all (fun c => !CharacterClass.isWord c) = true

theorem endsWord_nil : EndsWord [] := rfl

theorem takeWhile_word {w rest : List Char} (hw : ∀ c ∈ w, CharacterClass.isWord c = true)
    (hrest : EndsWord rest) : (w ++ rest).takeWhile CharacterClass.isWord = w := by
  rw [List.takeWhile_append_of_pos hw]
  cases rest with
  | nil => simp
  | cons c cs =>
      have hc : CharacterClass.isWord c = false := by simpa [EndsWord] using hrest
      simp [hc]

/-! ## Identifiers -/

theorem textPartsFrom_identifier {c : Char} {w rest : List Char} (hc : isAsciiStart c = true)
    (hw : ∀ d ∈ w, CharacterClass.isWord d = true) (hrest : EndsWord rest) (fuel : ℕ) :
    textPartsFrom (fuel + 1) true (c :: w ++ rest)
      = .identifier (String.ofList (c :: w)) :: textPartsFrom fuel false rest := by
  rw [List.cons_append, textPartsFrom]
  simp only [hc, Bool.true_and, if_true, takeWhile_word hw hrest, List.drop_left]

theorem textPartsFrom_word {w rest : List Char} (hw : IsWord w) (hrest : EndsWord rest) (fuel : ℕ) :
    textPartsFrom (fuel + 1) true (w ++ rest)
      = .identifier (String.ofList w) :: textPartsFrom fuel false rest := by
  obtain ⟨c, cs, rfl, hc⟩ := hw.exists_cons
  exact textPartsFrom_identifier hc (fun d hd => hw.isWord d (by simp [hd])) hrest fuel

theorem textPartsFrom_other {c : Char} (free : Bool) (hc : isAsciiStart c = false) (fuel : ℕ)
    (rest : List Char) :
    textPartsFrom (fuel + 1) free (c :: rest)
      = .other c :: textPartsFrom fuel (!(CharacterClass.isWord c || c == '.')) rest := by
  rw [textPartsFrom, hc, Bool.and_false]
  rfl

/-! ## Lexemes -/

theorem afterNumber?_eq_none {c : Char} (cs : List Char) (hdigit : c.isDigit = false) (hpoint : c ≠ '.') :
    afterNumber? (c :: cs) = none := by
  have hrun : NumberReader.digitRun (c :: cs) = ([], c :: cs) := by
    rcases cs with _ | ⟨d, cs⟩
    · simp [NumberReader.digitRun, hdigit]
    · by_cases hd : d = '_'
      · subst hd
        cases cs <;> simp [NumberReader.digitRun, hdigit]
      · rw [NumberReader.digitRun]
        · simp [hdigit]
        · simp
        · rintro _ _ h
          exact hd (List.cons.inj h).1
  have hfloat : afterFloat? (c :: cs) = none := by
    simp only [afterFloat?, hrun]
    split
    · next h => exact absurd (List.cons.inj h).1 hpoint
    · rfl
  have hinteger : afterInteger? (c :: cs) = none := by
    have hzero : c ≠ '0' := by
      rintro rfl
      contradiction
    rw [afterInteger?]
    · simp [hdigit]
    · exact hzero
  simp only [afterNumber?, hrun, hfloat, hinteger]

theorem operator?_eq_none {c : Char} (cs : List Char) (hc : ∀ s ∈ operators, s.toList.head? ≠ some c) :
    operator? (c :: cs) = none := by
  rw [operator?, Option.map_eq_none_iff, List.find?_eq_none]
  intro s hs hprefix
  have hhead := hc s hs
  have hnonempty : ∀ s ∈ operators, s.toList ≠ [] := by decide +kernel
  obtain ⟨d, ds, hd⟩ := List.exists_cons_of_ne_nil (hnonempty s hs)
  rw [hd, List.isPrefixOf_cons_cons, Bool.and_eq_true, beq_iff_eq] at hprefix
  rw [hd] at hhead
  exact hhead (congrArg some hprefix.1)

/-- A word is one lexeme. Blanks before it are skipped, except at the beginning of a line. -/
theorem scan_word {w rest cs : List Char} (hw : IsWord w) (hrest : EndsWord rest)
    (position : LinePosition) (depth : ℤ) (fuel : ℕ)
    (hcs : cs = w ++ rest ∨ position = .inside ∧ cs = ' ' :: (w ++ rest)) :
    scan (fuel + 1) position depth cs
      = (scan fuel .inside depth rest).map (.name (String.ofList w) :: ·) := by
  obtain ⟨c, ds, rfl, hc⟩ := hw.exists_cons
  obtain ⟨hdigit, hblank, hcomment, hslash, hpoint, hnewline, hreturn, hstart, hoperator⟩ := beginsName hc
  have hbody : cs.dropWhile isBlank = c :: (ds ++ rest) := by
    rcases hcs with rfl | ⟨-, rfl⟩
    · simp [hblank]
    · have hspace : isBlank ' ' = true := rfl
      simp [hblank, hspace]
  have hindented : (position == .start && depth == 0
      && (before cs (c :: (ds ++ rest))).any (· != '\x0c')) = false := by
    rcases hcs with rfl | ⟨rfl, rfl⟩
    · simp [before]
    · rfl
  have hline : afterLineBreak? (c :: (ds ++ rest)) = none := by
    rw [afterLineBreak?]
    · rintro _ h
      exact hnewline (List.cons.inj h).1
    · rintro _ h
      exact hreturn (List.cons.inj h).1
  have hword : (c :: (ds ++ rest)).takeWhile CharacterClass.isWord = c :: ds :=
    takeWhile_word hw.isWord hrest
  have hrest' : (c :: (ds ++ rest)).drop (c :: ds).length = rest := by
    rw [← List.cons_append, List.drop_left]
  rw [scan, hbody]
  simp only [beq_eq_false_iff_ne.2 hcomment, beq_eq_false_iff_ne.2 hslash, hline, hindented,
    afterNumber?_eq_none _ hdigit hpoint, operator?_eq_none _ hoperator, hword, hrest', hstart]
  rfl

theorem scan_delimiter {c : Char} (hc : c ∈ ['(', ',', ')']) (depth : ℤ) (fuel : ℕ) (rest : List Char) :
    scan (fuel + 1) .inside depth (c :: rest)
      = (scan fuel .inside (depth + depthChange (String.singleton c)) rest).map
          (.op (String.singleton c) :: ·) := by
  simp only [List.mem_cons, List.not_mem_nil, or_false] at hc
  have hnumber : afterNumber? (c :: rest) = none := by
    rcases hc with rfl | rfl | rfl <;> exact afterNumber?_eq_none rest (by decide) (by decide)
  rcases hc with rfl | rfl | rfl
  all_goals
    rw [scan, List.dropWhile_cons_of_neg (by decide)]
    simp only [hnumber]
    rfl

/-! ## Calls -/

/-- The parts after the first argument of a call. -/
def argumentParts : List String → List TextPart
  | [] => [.other ')']
  | s :: ss => .other ',' :: .other ' ' :: .identifier s :: argumentParts ss

/-- The parts of a call whose arguments are names. -/
def callParts (f s : String) (ss : List String) : List TextPart :=
  .identifier f :: .other '(' :: .identifier s :: argumentParts ss

/-- The text that splits into the given parts. -/
def joined (ps : List TextPart) : List Char :=
  ps.flatMap fun
    | .identifier s => s.toList
    | .other c => [c]

/-- The lexemes of a text whose single characters are delimiters and blanks. -/
def partLexemes (ps : List TextPart) : List Lexeme :=
  ps.filterMap fun
    | .identifier s => some (.name s)
    | .other c => if isBlank c then none else some (.op (String.singleton c))

def partTokens (ps : List TextPart) : List Token :=
  ps.filterMap fun
    | .identifier s => some (.name s)
    | .other c => if isBlank c then none else some (.op (String.singleton c))

variable {f s : String} {ss : List String}

theorem joined_argumentParts_cons (s : String) (ss : List String) :
    joined (argumentParts (s :: ss)) = ',' :: ' ' :: (s.toList ++ joined (argumentParts ss)) := rfl

theorem joined_callParts (f s : String) (ss : List String) :
    joined (callParts f s ss) = f.toList ++ '(' :: (s.toList ++ joined (argumentParts ss)) := rfl

theorem endsWord_argumentParts (ss : List String) : EndsWord (joined (argumentParts ss)) := by
  cases ss <;> rfl

theorem textPartsFrom_argumentParts (hss : ∀ s ∈ ss, IsWord s.toList) (fuel : ℕ)
    (hfuel : (joined (argumentParts ss)).length ≤ fuel) :
    textPartsFrom fuel false (joined (argumentParts ss)) = argumentParts ss := by
  induction ss generalizing fuel with
  | nil =>
      obtain ⟨fuel, rfl⟩ := Nat.exists_eq_add_of_lt hfuel
      cases fuel <;> rfl
  | cons s ss ih =>
      rw [joined_argumentParts_cons, List.length_cons, List.length_cons, List.length_append] at hfuel
      have hs : IsWord s.toList := hss s (by simp)
      have hlength := hs.length_pos
      obtain ⟨fuel, rfl⟩ : ∃ k, fuel = k + 3 := ⟨fuel - 3, by omega⟩
      rw [joined_argumentParts_cons, textPartsFrom_other _ rfl, textPartsFrom_other _ rfl]
      change _ :: _ :: textPartsFrom (fuel + 1) true _ = _
      rw [textPartsFrom_word hs (endsWord_argumentParts ss),
        ih (fun t ht => hss t (by simp [ht])) fuel (by omega), String.ofList_toList]
      rfl

theorem length_joined_callParts (hf : IsWord f.toList) (hs : IsWord s.toList) (ss : List String) :
    ∃ n, (joined (callParts f s ss)).length = n + 3 ∧ (joined (argumentParts ss)).length ≤ n := by
  have hlength : (joined (callParts f s ss)).length
      = f.toList.length + (s.toList.length + (joined (argumentParts ss)).length + 1) := by
    rw [joined_callParts, List.length_append, List.length_cons, List.length_append]
  have hfpos := hf.length_pos
  have hspos := hs.length_pos
  exact ⟨(joined (callParts f s ss)).length - 3, by omega, by omega⟩

theorem textParts_callParts (hf : IsWord f.toList) (hss : ∀ t ∈ s :: ss, IsWord t.toList) :
    textParts (joined (callParts f s ss)) = callParts f s ss := by
  obtain ⟨hs, hss⟩ := List.forall_mem_cons.1 hss
  obtain ⟨fuel, hlength, hfuel⟩ := length_joined_callParts hf hs ss
  have hopen : EndsWord ('(' :: (s.toList ++ joined (argumentParts ss))) := rfl
  rw [textParts, hlength, joined_callParts, textPartsFrom_word hf hopen, textPartsFrom_other _ rfl]
  change _ :: _ :: textPartsFrom (fuel + 1) true _ = _
  rw [textPartsFrom_word hs (endsWord_argumentParts ss), textPartsFrom_argumentParts hss fuel hfuel,
    String.ofList_toList, String.ofList_toList]
  rfl

theorem scan_argumentParts (hss : ∀ s ∈ ss, IsWord s.toList) (fuel : ℕ)
    (hfuel : (joined (argumentParts ss)).length < fuel) :
    scan fuel .inside 1 (joined (argumentParts ss)) = some (partLexemes (argumentParts ss)) := by
  induction ss generalizing fuel with
  | nil =>
      change 1 < fuel at hfuel
      obtain ⟨fuel, rfl⟩ : ∃ k, fuel = k + 2 := ⟨fuel - 2, by omega⟩
      rfl
  | cons s ss ih =>
      rw [joined_argumentParts_cons, List.length_cons, List.length_cons, List.length_append] at hfuel
      have hlength := (hss s (by simp)).length_pos
      obtain ⟨fuel, rfl⟩ : ∃ k, fuel = k + 2 := ⟨fuel - 2, by omega⟩
      rw [joined_argumentParts_cons, scan_delimiter (by simp)]
      change (scan (fuel + 1) .inside 1 _).map _ = _
      rw [scan_word (hss s (by simp)) (endsWord_argumentParts ss) .inside 1 fuel (.inr ⟨rfl, rfl⟩),
        ih (fun t ht => hss t (by simp [ht])) fuel (by omega), String.ofList_toList]
      rfl

theorem strip_eq {cs : List Char} (hhead : cs.head?.any CharacterClass.isSpace = false)
    (hlast : cs.getLast?.any CharacterClass.isSpace = false) : CharacterClass.strip cs = cs := by
  have hkeep {ds : List Char} (hds : ds.head?.any CharacterClass.isSpace = false) :
      ds.dropWhile CharacterClass.isSpace = ds := by
    cases ds with
    | nil => rfl
    | cons d ds =>
        have hd : CharacterClass.isSpace d = false := hds
        simp [hd]
  rw [CharacterClass.strip, hkeep hhead, hkeep (by rwa [List.head?_reverse]), List.reverse_reverse]

theorem head?_isSpace {w : List Char} (hw : IsWord w) (rest : List Char) :
    (w ++ rest).head?.any CharacterClass.isSpace = false := by
  obtain ⟨c, cs, rfl, -⟩ := hw.exists_cons
  exact hw.not_isSpace c (by simp)

theorem getLast?_isSpace {w : List Char} (hw : IsWord w) (front : List Char) :
    (front ++ w).getLast?.any CharacterClass.isSpace = false := by
  obtain ⟨c, cs, rfl, -⟩ := hw.exists_cons
  rw [List.getLast?_append_of_ne_nil _ (List.cons_ne_nil c cs), Option.any_eq_false_iff_get]
  intro h
  exact hw.not_isSpace _ (List.mem_of_getLast? (Option.eq_some_of_isSome h))

theorem getLast?_argumentParts (ss : List String) : (joined (argumentParts ss)).getLast? = some ')' := by
  induction ss with
  | nil => rfl
  | cons s ss ih =>
      rw [joined_argumentParts_cons, List.getLast?_cons, List.getLast?_cons, List.getLast?_append, ih]
      rfl

theorem lexemes_callParts (hf : IsWord f.toList) (hss : ∀ t ∈ s :: ss, IsWord t.toList) :
    lexemes (joined (callParts f s ss)) = some (partLexemes (callParts f s ss)) := by
  obtain ⟨hs, hss⟩ := List.forall_mem_cons.1 hss
  obtain ⟨fuel, hlength, hfuel⟩ := length_joined_callParts hf hs ss
  have hopen : EndsWord ('(' :: (s.toList ++ joined (argumentParts ss))) := rfl
  have hhead : (joined (callParts f s ss)).head?.any CharacterClass.isSpace = false := head?_isSpace hf _
  have hlast : (joined (callParts f s ss)).getLast?.any CharacterClass.isSpace = false := by
    rw [joined_callParts, List.getLast?_append, List.getLast?_cons, List.getLast?_append,
      getLast?_argumentParts]
    change CharacterClass.isSpace ')' = false
    decide +kernel
  rw [lexemes, strip_eq hhead hlast, hlength, joined_callParts,
    scan_word hf hopen .start 0 _ (.inl rfl), scan_delimiter (by simp)]
  change ((scan (fuel + 2) .inside 1 _).map _).map _ = _
  rw [scan_word hs (endsWord_argumentParts ss) .inside 1 (fuel + 1) (.inl rfl),
    scan_argumentParts hss (fuel + 1) (by omega), String.ofList_toList, String.ofList_toList]
  rfl

theorem textParts_word (hs : IsWord s.toList) : textParts s.toList = [.identifier s] := by
  have hspos := hs.length_pos
  obtain ⟨fuel, hfuel⟩ : ∃ k, s.toList.length = k + 1 := ⟨s.toList.length - 1, by omega⟩
  have hend := textPartsFrom_word hs endsWord_nil fuel
  rw [List.append_nil, String.ofList_toList] at hend
  rw [textParts, hfuel, hend]
  cases fuel <;> rfl

theorem lexemes_word (hs : IsWord s.toList) : lexemes s.toList = some [.name s] := by
  have hspos := hs.length_pos
  obtain ⟨fuel, hfuel⟩ : ∃ k, s.toList.length = k + 1 := ⟨s.toList.length - 1, by omega⟩
  have hlast : s.toList.getLast?.any CharacterClass.isSpace = false := getLast?_isSpace hs []
  have hhead := head?_isSpace hs []
  rw [List.append_nil] at hhead
  have hscan := scan_word hs endsWord_nil .start 0 (fuel + 1) (.inl rfl)
  rw [List.append_nil, String.ofList_toList] at hscan
  rw [lexemes, strip_eq hhead hlast, hfuel, hscan]
  rfl

/-! ## Tokens -/

theorem tokensFrom_argumentParts (ss : List String) :
    tokensFrom [] (partLexemes (argumentParts ss)) = some (partTokens (argumentParts ss)) := by
  induction ss with
  | nil => rfl
  | cons s ss ih =>
      change tokensFrom [','] (.name s :: partLexemes (argumentParts ss)) = _
      rw [tokensFrom]
      simp only [Lexeme.name, ih]
      rfl

theorem dropLineEnds_argumentParts (ss : List String) :
    dropLineEnds 1 (partTokens (argumentParts ss)) = some (partTokens (argumentParts ss)) := by
  induction ss with
  | nil => rfl
  | cons s ss ih =>
      change (dropLineEnds 1 (.name s :: partTokens (argumentParts ss))).map _ = _
      rw [dropLineEnds, ih]
      · rfl
      all_goals simp

theorem tokens_callParts (f s : String) (ss : List String) :
    tokens (partLexemes (callParts f s ss)) = some (partTokens (callParts f s ss)) := by
  have hfirst : tokensFrom ['('] (Lexeme.name s :: partLexemes (argumentParts ss))
      = some (.op "(" :: .name s :: partTokens (argumentParts ss)) := by
    rw [tokensFrom]
    simp only [Lexeme.name, tokensFrom_argumentParts ss]
    rfl
  have hfrom : tokensFrom [] (partLexemes (callParts f s ss)) = some (partTokens (callParts f s ss)) := by
    change tokensFrom [] (Lexeme.name f :: .op "(" :: .name s :: partLexemes (argumentParts ss)) = _
    have hopen : tokensFrom [] (Lexeme.op "(" :: .name s :: partLexemes (argumentParts ss))
        = some (.op "(" :: .name s :: partTokens (argumentParts ss)) := hfirst
    rw [tokensFrom, hopen]
    rfl
  rw [tokens, hfrom]
  change (((dropLineEnds 1 (partTokens (argumentParts ss))).map _).map _).map _ = _
  rw [dropLineEnds_argumentParts]
  rfl

end CircuitIR.Formula
