import CircuitIR.Proofs.LexemeSegments
import CircuitIR.Proofs.ReadingCalls

/-!
# Access to attributes

A text is refused before it is split into lexemes if an identifier or a closing bracket in it is followed by a
point. The lexemes of the text show when this covers a point: the lexeme before the point, up to line ends, is a
closing parenthesis or bracket, or a name that begins with an ASCII letter and does not itself continue a number
or an attribute. What ends otherwise, such as a set in braces, is not covered. Neither is a point that a comment or
a backslash at the end of a line separates from what stands before it.
-/

namespace CircuitIR

namespace CharacterClass

/-- The bisection ends between two positions, or at an end of the range. -/
theorem countUpTo_between (positions : Array ℕ) (c : ℕ) {fuel low high : ℕ} (hle : low ≤ high)
    (hfuel : high - low < 2 ^ fuel) :
    low ≤ countUpTo positions c fuel low high ∧ countUpTo positions c fuel low high ≤ high
      ∧ (low < countUpTo positions c fuel low high →
        positions.getD (countUpTo positions c fuel low high - 1) 0 ≤ c)
      ∧ (countUpTo positions c fuel low high < high →
        c < positions.getD (countUpTo positions c fuel low high) 0) := by
  induction fuel generalizing low high with
  | zero =>
      obtain rfl : low = high := by omega
      simp [countUpTo]
  | succ fuel ih =>
      rw [countUpTo]
      split
      · obtain rfl : low = high := by omega
        simp
      · rename_i hlt
        rw [Nat.pow_succ] at hfuel
        dsimp only
        split
        · rename_i hmiddle
          obtain ⟨hlow, hhigh, hbelow, habove⟩ := @ih ((low + high) / 2 + 1) high (by omega) (by omega)
          refine ⟨by omega, hhigh, fun _ => ?_, habove⟩
          obtain heq | hgt := Nat.eq_or_lt_of_le hlow
          · rwa [← heq, Nat.add_sub_cancel]
          · exact hbelow hgt
        · rename_i hmiddle
          obtain ⟨hlow, hhigh, hbelow, habove⟩ := @ih low ((low + high) / 2) (by omega) (by omega)
          refine ⟨hlow, by omega, hbelow, fun _ => ?_⟩
          obtain heq | hlt' := Nat.eq_or_lt_of_le hhigh
          · rw [heq]
            exact Nat.lt_of_not_le hmiddle
          · exact habove hlt'

theorem not_isWord_of_isSpace {c : Char} (hc : isSpace c = true) : isWord c = false ∧ c ≠ '.' := by
  -- one by one over the characters of each range of the table
  have hcodes : ∀ k < 20, k % 2 = 1 →
      ∀ d < CharacterTables.space.getD k 0 - CharacterTables.space.getD (k - 1) 0,
        isWord (Char.ofNat (CharacterTables.space.getD (k - 1) 0 + d)) = false
          ∧ Char.ofNat (CharacterTables.space.getD (k - 1) 0 + d) ≠ '.' := by
    decide +kernel
  rw [isSpace, inTable, beq_iff_eq] at hc
  have hsize : CharacterTables.space.size = 20 := rfl
  rw [hsize] at hc
  obtain ⟨-, hle, hbelow, habove⟩ :=
    countUpTo_between CharacterTables.space c.toNat (Nat.zero_le 20) (by decide : 20 - 0 < 2 ^ 12)
  generalize countUpTo CharacterTables.space c.toNat 12 0 20 = k at hc hle hbelow habove
  have hk : k < 20 := by omega
  specialize hbelow (by omega)
  specialize habove hk
  have hcode := hcodes k hk hc (c.toNat - CharacterTables.space.getD (k - 1) 0) (by omega)
  rwa [Nat.add_sub_cancel' hbelow, Char.ofNat_toNat] at hcode

end CharacterClass

namespace Formula

open CharacterClass (isWord isSpace not_isWord_of_isSpace)

variable {front gap rest : List Char}

/-! ## Where an identifier can begin -/

/-- Whether an identifier can begin after some characters. -/
def isFreeAfter (free : Bool) (front : List Char) : Bool :=
  front.getLast?.elim free fun c => !(isWord c || c == '.')

theorem isFreeAfter_append (free : Bool) (front rest : List Char) :
    isFreeAfter free (front ++ rest) = isFreeAfter (isFreeAfter free front) rest := by
  rw [isFreeAfter, List.getLast?_append]
  cases hlast : rest.getLast? with
  | none => rw [Option.none_or, isFreeAfter, isFreeAfter, hlast, Option.elim_none]
  | some c => rw [Option.some_or, isFreeAfter, hlast, Option.elim_some, Option.elim_some]

theorem isFreeAfter_true (front : List Char) : isFreeAfter true front = endsFree front := by
  rw [isFreeAfter, endsFree]
  cases front.getLast? <;> rfl

theorem isFreeAfter_word {free : Bool} {w : List Char} (hne : w ≠ []) (hw : ∀ c ∈ w, isWord c = true) :
    isFreeAfter free w = false := by
  rw [isFreeAfter, List.getLast?_eq_getLast_of_ne_nil hne, Option.elim_some, hw _ (List.getLast_mem hne)]
  rfl

theorem endsFree_of_append (h : endsFree (front ++ rest) = true) : endsFree rest = true := by
  by_cases hrest : rest = []
  · rw [hrest]
    rfl
  · rwa [endsFree_append hrest] at h

/-- A cut that lies between words is not crossed by the word before it. -/
theorem dropWhile_isWord_append {c : Char} {cs : List Char} (hc : isWord c = true)
    (hcut : endsFree (c :: cs) = true ∨ EndsWord rest) :
    (cs ++ rest).dropWhile isWord = cs.dropWhile isWord ++ rest := by
  rw [List.dropWhile_append]
  split
  · rename_i hall
    rw [List.isEmpty_iff] at hall
    rw [hall, List.nil_append]
    obtain hfree | hend := hcut
    · have hword : ∀ d ∈ c :: cs, isWord d = true :=
        List.forall_mem_cons.2 ⟨hc, List.dropWhile_eq_nil_iff.1 hall⟩
      rw [← isFreeAfter_true, isFreeAfter_word (List.cons_ne_nil c cs) hword] at hfree
      exact nomatch hfree
    · cases rest with
      | nil => rfl
      | cons d ds =>
          rw [EndsWord, List.head?_cons, Option.all_some, Bool.not_eq_true'] at hend
          rw [List.dropWhile_cons_of_neg (by simp [hend])]
  · rfl

/-! ## Accesses in a text -/

theorem accessesAttribute_cons {p : TextPart} {ps : List TextPart} (h : accessesAttribute ps = true) :
    accessesAttribute (p :: ps) = true := by
  rw [accessesAttribute.eq_def]
  simp only [h, Bool.or_true]

/-- **An access in the end of a text is an access in the text**, if the end begins between words. -/
theorem accessesAttribute_textPartsFrom {free : Bool} (hcut : endsFree front = true ∨ EndsWord rest)
    (hrest : ∀ fuel, rest.length ≤ fuel →
      accessesAttribute (textPartsFrom fuel (isFreeAfter free front) rest) = true)
    {fuel : ℕ} (hfuel : (front ++ rest).length ≤ fuel) :
    accessesAttribute (textPartsFrom fuel free (front ++ rest)) = true := by
  induction fuel generalizing front free with
  | zero =>
      obtain rfl : front = [] := List.eq_nil_of_length_eq_zero (by simp at hfuel; simp [hfuel])
      exact hrest 0 hfuel
  | succ fuel ih =>
      cases front with
      | nil => exact hrest _ hfuel
      | cons c cs =>
          have hlength : (cs ++ rest).length ≤ fuel := Nat.le_of_succ_le_succ hfuel
          rw [List.cons_append, textPartsFrom]
          split
          · rename_i hstart
            have hword : isWord c = true := isWord_of_isAsciiStart (Bool.and_eq_true_iff.1 hstart).2
            -- the word at the beginning ends before the cut
            have hsplit : c :: cs = c :: cs.takeWhile isWord ++ cs.dropWhile isWord := by
              rw [List.cons_append, List.takeWhile_append_dropWhile]
            have hfree : isFreeAfter false (cs.dropWhile isWord) = isFreeAfter free (c :: cs) := by
              rw [hsplit, isFreeAfter_append, isFreeAfter_word (List.cons_ne_nil _ _)]
              exact List.forall_mem_cons.2 ⟨hword, fun d hd => List.mem_takeWhile_imp hd⟩
            apply accessesAttribute_cons
            rw [drop_length_takeWhile, dropWhile_isWord_append hword hcut]
            refine ih (hcut.imp_left fun h => ?_) (by rwa [hfree]) ?_
            · rw [hsplit] at h
              exact endsFree_of_append h
            · rw [← dropWhile_isWord_append hword hcut]
              exact (List.length_dropWhile_le _ _).trans hlength
          · have hfree : isFreeAfter (!(isWord c || c == '.')) cs = isFreeAfter free (c :: cs) :=
              (isFreeAfter_append free [c] cs).symm
            have htail : endsFree (c :: cs) = true → endsFree cs = true := by
              rw [← List.singleton_append]
              exact endsFree_of_append
            apply accessesAttribute_cons
            exact ih (hcut.imp_left htail) (by rwa [hfree]) hlength

theorem isSpace_of_isGap {c : Char} (hc : isGap c = true) (hslash : c ≠ '\\') :
    isAsciiStart c = false ∧ isSpace c = true := by
  simp only [isGap, isBlank, Bool.or_eq_true, beq_iff_eq] at hc
  rcases hc with ((((rfl | rfl) | rfl) | rfl) | rfl) | rfl
  all_goals first | contradiction | decide +kernel

/-- Only a backslash keeps a point from following across a gap. -/
theorem pointFollows_textPartsFrom (hgap : ∀ c ∈ gap, isGap c = true ∧ c ≠ '\\') (free : Bool) {fuel : ℕ}
    (hfuel : (gap ++ '.' :: rest).length ≤ fuel) :
    pointFollows (textPartsFrom fuel free (gap ++ '.' :: rest)) = true := by
  induction gap generalizing fuel free with
  | nil =>
      obtain ⟨fuel, rfl⟩ := Nat.exists_eq_add_one_of_ne_zero (Nat.ne_zero_of_lt hfuel)
      rw [List.nil_append, textPartsFrom_other free (by decide), pointFollows]
      rfl
  | cons c gap ih =>
      obtain ⟨fuel, rfl⟩ := Nat.exists_eq_add_one_of_ne_zero (Nat.ne_zero_of_lt hfuel)
      rw [List.forall_mem_cons] at hgap
      obtain ⟨hstart, hspace⟩ := isSpace_of_isGap hgap.1.1 hgap.1.2
      rw [List.cons_append, textPartsFrom_other free hstart, pointFollows, hspace,
        ih hgap.2 _ (Nat.le_of_succ_le_succ hfuel)]
      simp

theorem endsWord_gap (hgap : ∀ c ∈ gap, isGap c = true) : EndsWord (gap ++ '.' :: rest) := by
  cases gap with
  | nil => rfl
  | cons c gap =>
      have hword := (not_isWord_of_isGap (hgap c (by simp))).1
      simp [EndsWord, hword]

theorem accessesAttribute_identifier {c : Char} {w : List Char} (hc : isAsciiStart c = true)
    (hw : ∀ d ∈ w, isWord d = true) (hgap : ∀ c ∈ gap, isGap c = true ∧ c ≠ '\\') {fuel : ℕ}
    (hfuel : (c :: w ++ (gap ++ '.' :: rest)).length ≤ fuel) :
    accessesAttribute (textPartsFrom fuel true (c :: w ++ (gap ++ '.' :: rest))) = true := by
  obtain ⟨fuel, rfl⟩ := Nat.exists_eq_add_one_of_ne_zero (Nat.ne_zero_of_lt hfuel)
  have hlength : (gap ++ '.' :: rest).length ≤ fuel := by
    simp only [List.length_append, List.length_cons] at hfuel ⊢
    omega
  have hend : EndsWord (gap ++ '.' :: rest) := endsWord_gap fun d hd => (hgap d hd).1
  rw [textPartsFrom_identifier hc hw hend, accessesAttribute, pointFollows_textPartsFrom hgap false hlength]
  rfl

theorem accessesAttribute_closing {c : Char} (hc : c = ')' ∨ c = ']') (free : Bool)
    (hgap : ∀ c ∈ gap, isGap c = true ∧ c ≠ '\\') {fuel : ℕ}
    (hfuel : (c :: (gap ++ '.' :: rest)).length ≤ fuel) :
    accessesAttribute (textPartsFrom fuel free (c :: (gap ++ '.' :: rest))) = true := by
  obtain ⟨fuel, rfl⟩ := Nat.exists_eq_add_one_of_ne_zero (Nat.ne_zero_of_lt hfuel)
  have hstart : isAsciiStart c = false := by rcases hc with rfl | rfl <;> rfl
  rw [textPartsFrom_other free hstart, accessesAttribute,
    pointFollows_textPartsFrom hgap _ (Nat.le_of_succ_le_succ hfuel)]
  rcases hc with rfl | rfl <;> rfl

/-! ## Receivers -/

/-- An object whose attributes are refused ends in the lexeme: a closing parenthesis or bracket, or a name that
begins with an ASCII letter or the underscore and does not follow a number or another point. -/
inductive IsReceiver (before : List Lexeme) : Lexeme → Prop
  | closing {s : String} (hs : s = ")" ∨ s = "]") : IsReceiver before (.op s)
  | name {s : String} (hs : s.toList.head?.any isAsciiStart = true)
      (hbefore : before.getLast?.any Lexeme.joins = false) : IsReceiver before (.name s)

/-- A point follows a receiver in some characters, and a backslash continues a line between the two. -/
def IsContinued (receiver : Lexeme) (cs : List Char) : Prop :=
  ∃ front gap rest, cs = front ++ (receiver.text.toList ++ (gap ++ '.' :: rest))
    ∧ (∀ c ∈ gap, isGap c = true) ∧ '\\' ∈ gap

variable {text : String} {before ends after : List Lexeme} {receiver : Lexeme}

theorem IsReceiver.eq_toList_of_spells {w tail : List Char} (h : IsReceiver before receiver)
    (hw : Spells receiver w tail) : w = receiver.text.toList := by
  cases h with
  | closing hs => exact hw.eq_toList_of_operator
  | name hs hbefore => exact hw.of_name.1

/-- The text around a point: the receiver in front of it, a gap between them, and whether a name can begin where
the receiver does. -/
theorem exists_receiver_of_lexemes {cs : List Char}
    (h : lexemes cs = some (before ++ receiver :: (ends ++ .op "." :: after)))
    (hends : ∀ l ∈ ends, l = .lineEnd) :
    ∃ front w gap rest tail, cs = front ++ (w ++ (gap ++ '.' :: rest)) ∧ Spells receiver w tail
      ∧ (∀ c ∈ gap, isGap c = true)
      ∧ (before.getLast?.any Lexeme.joins = false → w.head?.any isWord = true → endsFree front = true) := by
  obtain ⟨left, right, hcs, hleft, hsegments⟩ := exists_segments_of_lexemes h
  obtain ⟨front, w, tail, hstrip, hw, htail, hfront⟩ := hsegments.exists_split
  obtain ⟨gap, rest, rfl, hgap⟩ := htail.exists_gap hends
  have hleftFree : endsFree left = true := endsFree_of_forall fun c hc => not_isWord_of_isSpace (hleft c hc)
  refine ⟨left ++ front, w, gap, rest ++ right, _, ?_, hw, hgap,
    fun hbefore hword => endsFree_append_of_endsFree hleftFree (hfront hbefore hword).1⟩
  rw [hcs, hstrip]
  simp

theorem accessesAttribute_textParts
    (h : lexemes text.toList = some (before ++ receiver :: (ends ++ .op "." :: after)))
    (hreceiver : IsReceiver before receiver) (hends : ∀ l ∈ ends, l = .lineEnd)
    (hslash : ¬ IsContinued receiver text.toList) : accessesAttribute (textParts text.toList) = true := by
  obtain ⟨front, w, gap, rest, tail, hcs, hw, hgap, hfront⟩ := exists_receiver_of_lexemes h hends
  have hplain : ∀ c ∈ gap, isGap c = true ∧ c ≠ '\\' := by
    refine fun c hc => ⟨hgap c hc, fun heq => hslash ⟨front, gap, rest, ?_, hgap, heq ▸ hc⟩⟩
    rw [hcs, hreceiver.eq_toList_of_spells hw]
  rw [textParts, hcs]
  cases hreceiver with
  | closing hs =>
      obtain ⟨c, hc, rfl⟩ : ∃ c, (c = ')' ∨ c = ']') ∧ w = [c] := by
        rw [hw.eq_toList_of_operator]
        rcases hs with rfl | rfl
        · exact ⟨')', .inl rfl, rfl⟩
        · exact ⟨']', .inr rfl, rfl⟩
      have hcut : EndsWord (c :: (gap ++ '.' :: rest)) := by rcases hc with rfl | rfl <;> rfl
      exact accessesAttribute_textPartsFrom (.inr hcut)
        (fun _ hfuel => accessesAttribute_closing hc _ hplain hfuel) le_rfl
  | @name s hs hbefore =>
      obtain ⟨rfl, hword, -⟩ := hw.of_name
      obtain ⟨c, cs, hspelled, hc⟩ : ∃ c cs, s.toList = c :: cs ∧ isAsciiStart c = true := by
        cases hspelled : s.toList with
        | nil => simp [hspelled] at hs
        | cons c cs => exact ⟨c, cs, rfl, by rwa [hspelled] at hs⟩
      rw [hspelled, List.forall_mem_cons] at hword
      have hfree : endsFree front = true := hfront hbefore (by rw [hspelled]; exact hword.1)
      rw [hspelled]
      refine accessesAttribute_textPartsFrom (.inl hfree) (fun fuel hfuel => ?_) le_rfl
      rw [isFreeAfter_true, hfree]
      exact accessesAttribute_identifier hc hword.2 hplain hfuel

theorem read_attribute
    (h : lexemes text.toList = some (before ++ receiver :: (ends ++ .op "." :: after)))
    (hreceiver : IsReceiver before receiver) (hends : ∀ l ∈ ends, l = .lineEnd)
    (hslash : ¬ IsContinued receiver text.toList) : Formula.read text = .error (.notPlain text) := by
  have haccess := accessesAttribute_textParts h hreceiver hends hslash
  have hplain : isPlain text = false := by
    simp only [isPlain, haccess, Bool.not_true, Bool.and_false, Bool.false_and]
  rw [Formula.read, hplain]
  rfl

end Formula

namespace Parameter

open Formula (Lexeme IsReceiver IsContinued lexemes)

/-- **No attribute of a parenthesized object or of a plain name is looked up**: the text is refused as it
stands, wherever in it the point is. Between the object and the point there may be blanks and ends of lines. A comment
there, or a backslash that continues the line, can hide the point, as neither is white space. -/
theorem result_read_attribute {text : String} {before ends after : List Lexeme} {receiver : Lexeme}
    (h : lexemes text.toList = some (before ++ receiver :: (ends ++ .op "." :: after)))
    (hreceiver : IsReceiver before receiver) (hends : ∀ l ∈ ends, l = .lineEnd)
    (hslash : ¬ IsContinued receiver text.toList) :
    (Parameter.read text).result = .error (.unreadableParameter (.notPlain text)) :=
  result_read_of_error (Formula.read_attribute h hreceiver hends hslash)

theorem result_read_attribute_brokenLine :
    lexemes "(2 * theta\n).real".toList
        = some ([.op "(", .number "2", .op "*", .name "theta", .lineEnd]
            ++ .op ")" :: ([] ++ .op "." :: [.name "real"]))
      ∧ (Parameter.read "(2 * theta\n).real").result
        = .error (.unreadableParameter (.notPlain "(2 * theta\n).real")) := by
  have hlexemes : lexemes "(2 * theta\n).real".toList
      = some ([.op "(", .number "2", .op "*", .name "theta", .lineEnd]
          ++ .op ")" :: ([] ++ .op "." :: [.name "real"])) := by
    decide +kernel
  have hslash : ¬ IsContinued (.op ")") "(2 * theta\n).real".toList := by
    rintro ⟨front, gap, rest, htext, -, hmem⟩
    have hplain : '\\' ∉ "(2 * theta\n).real".toList := by decide +kernel
    rw [htext] at hplain
    simp [hmem] at hplain
  exact ⟨hlexemes, result_read_attribute hlexemes (.closing (.inl rfl)) nofun hslash⟩

/-- A set in braces is not refused: its method is looked up and called. -/
theorem result_read_setAttribute :
    lexemes "\x7bx\x7d.pop()".toList
        = some ([.op "\x7b", .name "x", .op "\x7d"] ++ .op "." :: [.name "pop", .op "(", .op ")"])
      ∧ (Parameter.read "\x7bx\x7d.pop()").result = .ok (.symbolic (.symbol "x")) := by
  have hread : Formula.read "\x7bx\x7d.pop()" = .ok (.symbol "x") := by decide +kernel
  exact ⟨by decide +kernel, result_read_of_ok hread rfl⟩

end Parameter

end CircuitIR
