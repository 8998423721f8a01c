import CircuitIR.Proofs.CallTokens
import Mathlib.Tactic.Tauto

/-!
# Names and their symbols

Every identifier of a text that has no fixed meaning is a symbol, under the spelling in which it enters the
grammar. A table of symbols gives back the name that was spelled, unless a name is the placeholder of a
reserved word that occurs beside it. Names with a meaning are not expanded.
-/

namespace CircuitIR.Formula

/-! ## Symbols -/

/-- The name means the same in every formula. -/
def IsFixed (s : String) : Prop := s ∈ mathNames ∨ s ∈ constructorNames

instance (s : String) : Decidable (IsFixed s) := inferInstanceAs (Decidable (_ ∨ _))

/-- The spelling of a name in the grammar. -/
def spelling (s : String) : String := if reservedWords.contains s then placeholder s else s

/-- The text is the name of a symbol. -/
structure IsName (s : String) : Prop where
  word : IsWord s.toList
  free : ¬IsFixed s

theorem isWord_spelling {s : String} (hs : IsWord s.toList) : IsWord (spelling s).toList := by
  have hplaceholder : ∀ s ∈ reservedWords, IsWord (placeholder s).toList := by decide +kernel
  by_cases hreserved : reservedWords.contains s
  · rw [spelling, if_pos hreserved]
    exact hplaceholder s (by simpa using hreserved)
  · rwa [spelling, if_neg hreserved]

theorem spelling_of_isFixed {s : String} (hs : IsFixed s) : spelling s = s := by
  have hreserved : ∀ w ∈ reservedWords, ¬IsFixed w := by decide +kernel
  rw [spelling, if_neg]
  intro h
  exact hreserved s (by simpa using h) hs

theorem placeholder_not_reserved : ∀ w ∈ reservedWords, placeholder w ∉ reservedWords := by
  decide +kernel

theorem not_reserved_spelling (s : String) : spelling s ∉ reservedWords := by
  by_cases hreserved : reservedWords.contains s
  · rw [spelling, if_pos hreserved]
    exact placeholder_not_reserved s (by simpa using hreserved)
  · rw [spelling, if_neg hreserved]
    simpa using hreserved

theorem not_isFixed_spelling {s : String} (hs : ¬IsFixed s) : ¬IsFixed (spelling s) := by
  have hplaceholder : ∀ s ∈ reservedWords, ¬IsFixed (placeholder s) := by decide +kernel
  by_cases hreserved : reservedWords.contains s
  · rw [spelling, if_pos hreserved]
    exact hplaceholder s (by simpa using hreserved)
  · rwa [spelling, if_neg hreserved]

/-- No name is spelled like another one. A reserved word is spelled by its placeholder. -/
def SpelledApart (ss : List String) : Prop := ∀ s ∈ ss, s ∈ reservedWords → placeholder s ∉ ss

instance (ss : List String) : Decidable (SpelledApart ss) :=
  inferInstanceAs (Decidable (∀ s ∈ ss, s ∈ reservedWords → placeholder s ∉ ss))

theorem placeholder_ne_self {w : String} (hw : w ∈ reservedWords) : placeholder w ≠ w := by
  intro h
  exact placeholder_not_reserved w hw (h.symm ▸ hw)

theorem spelledApart_singleton (s : String) : SpelledApart [s] := by
  intro t ht hreserved hmem
  rw [List.mem_singleton] at ht hmem
  exact placeholder_ne_self hreserved (hmem.trans ht.symm)

theorem eq_of_spelling_eq {ss : List String} (hss : SpelledApart ss) {s t : String} (hs : s ∈ ss)
    (ht : t ∈ ss) (hst : spelling s = spelling t) : s = t := by
  have hplaceholder : ∀ s ∈ reservedWords, ∀ t ∈ reservedWords, placeholder s = placeholder t → s = t := by
    decide +kernel
  simp only [spelling, List.contains_iff_mem] at hst
  by_cases hs' : s ∈ reservedWords <;> by_cases ht' : t ∈ reservedWords
  · rw [if_pos hs', if_pos ht'] at hst
    exact hplaceholder s hs' t ht' hst
  · rw [if_pos hs', if_neg ht'] at hst
    exact absurd (hst ▸ ht) (hss s hs hs')
  · rw [if_neg hs', if_pos ht'] at hst
    exact absurd (hst ▸ hs) (hss t ht ht')
  · rwa [if_neg hs', if_neg ht'] at hst

theorem spelling_eq_of_placeholder {w s : String} (hw : w ∈ reservedWords) (hs : placeholder w = s) :
    spelling w = spelling s := by
  have hfree : s ∉ reservedWords := hs ▸ placeholder_not_reserved w hw
  rw [spelling, spelling, if_pos (by simpa using hw), if_neg (by simpa using hfree), hs]

theorem spelling_eq_of_not_spelledApart {s t : String} (h : ¬SpelledApart [s, t]) :
    spelling s = spelling t := by
  simp only [SpelledApart, List.mem_cons, List.not_mem_nil, or_false, not_forall, not_not] at h
  obtain ⟨w, rfl | rfl, hw, h | h⟩ := h
  · exact absurd h (placeholder_ne_self hw)
  · exact spelling_eq_of_placeholder hw h
  · exact (spelling_eq_of_placeholder hw h).symm
  · exact absurd h (placeholder_ne_self hw)

theorem mem_insertName {s t : String} {ss : List String} :
    s ∈ Expr.insertName t ss ↔ s = t ∨ s ∈ ss := by
  induction ss with
  | nil => simp [Expr.insertName]
  | cons u us ih =>
      rw [Expr.insertName]
      split
      · simp
      · split
        · next h => simp [h]
        · simp only [List.mem_cons, ih]
          tauto

theorem mem_identifiers {ps : List TextPart} {s : String} :
    s ∈ identifiers ps ↔ .identifier s ∈ ps := by
  have hfold {add : List String → TextPart → List String}
      (hidentifier : ∀ names t, add names (.identifier t) = Expr.insertName t names)
      (hother : ∀ names c, add names (.other c) = names) (names : List String) :
      s ∈ ps.foldl add names ↔ s ∈ names ∨ .identifier s ∈ ps := by
    induction ps generalizing names with
    | nil => simp
    | cons p ps ih =>
        rw [List.foldl_cons, ih, List.mem_cons]
        cases p with
        | identifier t =>
            simp only [hidentifier, mem_insertName, TextPart.identifier.injEq]
            tauto
        | other c => simp [hother]
  exact (hfold (fun _ _ => rfl) (fun _ _ => rfl) []).trans (by simp)

/-- A fold that skips some members and puts an entry for every other one has these entries. -/
theorem mem_foldl_unless {α β : Type} {skip : α → Bool} {entry : α → β} {as : List α} {b : β}
    (bs : List β) :
    b ∈ as.foldl (fun bs a => if skip a then bs else entry a :: bs) bs
      ↔ b ∈ bs ∨ ∃ a ∈ as, skip a = false ∧ b = entry a := by
  induction as generalizing bs with
  | nil => simp
  | cons a as ih =>
      rw [List.foldl_cons, ih]
      by_cases hskip : skip a = true
      · simp [hskip]
      · simp only [hskip, Bool.false_eq_true, if_false, List.mem_cons, exists_eq_or_imp, true_and]
        tauto

theorem mem_symbolTable {ps : List TextPart} {k s : String} :
    (k, s) ∈ symbolTable ps ↔ .identifier s ∈ ps ∧ ¬IsFixed s ∧ k = spelling s := by
  have hstep : symbolTable ps = (identifiers ps).foldl (fun table s =>
      if mathNames.contains s || constructorNames.contains s then table
      else (spelling s, s) :: table) [] := by
    rw [symbolTable]
    congr 1
    funext table s
    rw [spelling]
    split <;> [rfl; (split <;> rfl)]
  have hskip (t : String) : (mathNames.contains t || constructorNames.contains t) = false ↔ ¬IsFixed t := by
    simp [IsFixed]
  rw [hstep, mem_foldl_unless]
  simp only [List.not_mem_nil, false_or, hskip, Prod.mk.injEq, mem_identifiers]
  constructor
  · rintro ⟨t, hmem, hfree, hk, rfl⟩
    exact ⟨hmem, hfree, hk⟩
  · rintro ⟨hmem, hfree, hk⟩
    exact ⟨s, hmem, hfree, hk, rfl⟩

theorem isSome_symbolOf?_spelling {ps : List TextPart} {s : String} (hs : .identifier s ∈ ps)
    (hfree : ¬IsFixed s) : (symbolOf? (symbolTable ps) (spelling s)).isSome := by
  rw [symbolOf?, Option.isSome_map, List.find?_isSome]
  exact ⟨_, mem_symbolTable.2 ⟨hs, hfree, rfl⟩, beq_self_eq_true _⟩

theorem symbolOf?_spelling {ps : List TextPart} {ss : List String} (hss : SpelledApart ss)
    (hps : ∀ t, .identifier t ∈ ps → t ∈ ss) {s : String} (hs : .identifier s ∈ ps)
    (hfree : ¬IsFixed s) : symbolOf? (symbolTable ps) (spelling s) = some s := by
  obtain ⟨t, hsymbol⟩ := Option.isSome_iff_exists.1 (isSome_symbolOf?_spelling hs hfree)
  obtain ⟨⟨k, t⟩, hfind, rfl⟩ := Option.map_eq_some_iff.1 hsymbol
  have hk : k = spelling s := by simpa using List.find?_some hfind
  obtain ⟨ht, -, hkt⟩ := mem_symbolTable.1 (List.mem_of_find?_eq_some hfind)
  have hts : t = s := eq_of_spelling_eq hss (hps t ht) (hps s hs) (hkt.symm.trans hk)
  rw [hsymbol, hts]

theorem symbolOf?_eq_none {k : String} (hk : IsFixed k) (ps : List TextPart) :
    symbolOf? (symbolTable ps) k = none := by
  rw [symbolOf?, Option.map_eq_none_iff, List.find?_eq_none]
  rintro ⟨l, s⟩ hentry hl
  obtain ⟨-, hfree, hspelling⟩ := mem_symbolTable.1 hentry
  have hlk : l = k := by simpa using hl
  exact not_isFixed_spelling hfree (hspelling ▸ hlk ▸ hk)

/-! ## Expansion -/

/-- The lexeme is a name with a meaning or a delimiter of a call. -/
def IsSettled (table : List (String × String)) (l : Lexeme) : Prop :=
  (∃ s, l = .name s ∧ ((symbolOf? table s).isSome ∨ IsFixed s))
    ∨ ∃ c ∈ ['(', ',', ')'], l = .op (String.singleton c)

section Expansion

variable {table : List (String × String)} {ls : List Lexeme}

theorem keepsName_eq_true {s : String} (hs : (symbolOf? table s).isSome ∨ IsFixed s)
    (previous : Lexeme) (next : Option Lexeme) : keepsName table previous s next = true := by
  simp only [keepsName, Bool.or_eq_true, List.contains_iff_mem]
  rw [IsFixed] at hs
  tauto

theorem expandNames_eq (hls : ∀ l ∈ ls, IsSettled table l) (previous : Lexeme) :
    expandNames table previous ls = ls := by
  induction ls generalizing previous with
  | nil => rfl
  | cons l ls ih =>
      have htail (previous : Lexeme) : expandNames table previous ls = ls :=
        ih (fun m hm => hls m (by simp [hm])) previous
      obtain ⟨s, rfl, hs⟩ | ⟨c, -, rfl⟩ := hls l (by simp)
      · rw [expandNames]
        simp only [Lexeme.name, keepsName_eq_true hs, htail]
        rfl
      · have hkind : ((Lexeme.op (String.singleton c)).kind == .name) = false := rfl
        rw [expandNames, hkind, if_neg Bool.false_ne_true, htail]

theorem expandDecimals_eq (hls : ∀ l ∈ ls, IsSettled table l) (done : List Lexeme) :
    expandDecimals done [] ls = done.reverse ++ ls := by
  induction ls generalizing done with
  | nil => rw [expandDecimals, List.append_nil]
  | cons l ls ih =>
      have hextend : extendDecimal [] l = [] := by
        obtain ⟨s, rfl, -⟩ | ⟨c, hc, rfl⟩ := hls l (by simp)
        · rfl
        · simp only [List.mem_cons, List.not_mem_nil, or_false] at hc
          rcases hc with rfl | rfl | rfl <;> rfl
      rw [expandDecimals]
      simp only [hextend]
      rw [ih fun m hm => hls m (by simp [hm]), List.reverse_cons, List.append_assoc]
      rfl

theorem flatMap_expandNumber_eq (hls : ∀ l ∈ ls, IsSettled table l) : ls.flatMap expandNumber = ls := by
  have hkept : ∀ l ∈ ls, expandNumber l = [l] := by
    intro l hl
    obtain ⟨s, rfl, -⟩ | ⟨c, -, rfl⟩ := hls l hl <;> rfl
  rw [List.flatMap_congr hkept, List.flatMap_singleton']

theorem expandFactorials_eq (hls : ∀ l ∈ ls, IsSettled table l) (done : List Lexeme) :
    expandFactorials done 0 ls = some (done.reverse ++ ls) := by
  induction ls generalizing done with
  | nil => simp [expandFactorials, closeFactorial]
  | cons l ls ih =>
      have hstray : (l.kind == .stray) = false := by
        obtain ⟨s, rfl, -⟩ | ⟨c, -, rfl⟩ := hls l (by simp) <;> rfl
      rw [expandFactorials, hstray]
      simp only [closeFactorial]
      rw [ih fun m hm => hls m (by simp [hm]), List.reverse_cons, List.append_assoc]
      rfl

theorem expand_eq (hls : ∀ l ∈ ls, IsSettled table l) : expand table ls = some ls := by
  rw [expand, expandNames_eq hls, expandDecimals_eq hls, List.reverse_nil, List.nil_append,
    flatMap_expandNumber_eq hls, expandFactorials_eq hls]
  rfl

end Expansion

end CircuitIR.Formula
