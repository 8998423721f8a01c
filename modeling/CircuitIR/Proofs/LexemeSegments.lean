import CircuitIR.Proofs.CallTokens
import CircuitIR.Proofs.IntegerText
import Mathlib.Data.List.Infix
import Mathlib.Data.List.TakeWhile

/-!
# Lexemes as pieces of the text

The scanner only cuts: the text of a formula consists of the characters of its lexemes, in their order, and of gaps
of blanks, line breaks and backslashes between them. What follows a word does not continue it. So the text
before a lexeme ends either in a gap or with the lexeme before.
-/

namespace CircuitIR.Formula

open CharacterClass (isWord isSpace strip)
open NumberReader (digitRun_suffix splitSign_suffix)

/-! ## What is left after a number -/

section Suffix

variable {cs r : List Char}

theorem afterExponent?_suffix (h : afterExponent? cs = some r) : r <:+ cs := by
  cases cs with
  | nil => exact nomatch h
  | cons c cs =>
      rw [afterExponent?] at h
      split at h
      · have hrun := (digitRun_suffix (NumberReader.splitSign cs).2).trans (splitSign_suffix cs)
        split at h
        · exact nomatch h
        · rename_i rest hrest
          rw [hrest] at hrun
          obtain rfl := Option.some.inj h
          exact hrun.trans (List.suffix_cons _ _)
      · exact nomatch h

theorem afterBaseDigits_suffix (isDigit : Char → Bool) (cs : List Char) :
    afterBaseDigits isDigit cs <:+ cs := by
  fun_induction afterBaseDigits isDigit cs with
  | case1 c cs hc ih => exact (ih.trans (List.suffix_cons _ _)).trans (List.suffix_cons _ _)
  | case2 c cs hc => exact List.suffix_rfl
  | case3 c cs hnot hc ih => exact ih.trans (List.suffix_cons _ _)
  | case4 c cs hnot hc => exact List.suffix_rfl
  | case5 => exact List.suffix_rfl

theorem getD_suffix {o : Option (List Char)} {d : List Char} (ho : ∀ r, o = some r → r <:+ cs)
    (hd : d <:+ cs) : o.getD d <:+ cs := by
  cases o with
  | none => exact hd
  | some r => exact ho r rfl

theorem afterFloat?_suffix (h : afterFloat? cs = some r) : r <:+ cs := by
  have hrun := digitRun_suffix cs
  simp only [afterFloat?] at h
  split at h
  · rename_i rest hrest
    rw [hrest] at hrun
    have hfraction := ((digitRun_suffix rest).trans (List.suffix_cons '.' rest)).trans hrun
    split at h
    · contradiction
    · obtain rfl := Option.some.inj h
      exact getD_suffix (fun r hr => (afterExponent?_suffix hr).trans hfraction) hfraction
  · split at h
    · contradiction
    · exact (afterExponent?_suffix h).trans hrun

theorem afterInteger?_suffix (h : afterInteger? cs = some r) : r <:+ cs := by
  rw [afterInteger?.eq_def] at h
  split at h
  · rename_i rest
    obtain rfl := Option.some.inj h
    refine List.IsSuffix.trans (getD_suffix (fun r hr => ?_) (afterBaseDigits_suffix _ rest))
      (List.suffix_cons '0' rest)
    -- the digits of another base, after the letter that announces it
    split at hr
    · split at hr
      · obtain rfl := Option.some.inj (Option.ite_none_right_eq_some.1 hr).2
        exact (afterBaseDigits_suffix _ _).trans (List.suffix_cons _ _)
      · exact nomatch hr
    · exact nomatch hr
  · split at h
    · obtain rfl := Option.some.inj h
      exact digitRun_suffix _
    · exact nomatch h
  · exact nomatch h

theorem afterNumber?_suffix (h : afterNumber? cs = some r) : r <:+ cs := by
  simp only [afterNumber?] at h
  split at h
  · rename_i r' hplain
    obtain rfl := Option.some.inj h
    split at hplain
    · contradiction
    · rename_i rest hrun
      have hrest := digitRun_suffix cs
      rw [hrun] at hrest
      split at hplain
      · obtain rfl := Option.some.inj (Option.ite_none_right_eq_some.1 hplain).2
        exact (List.suffix_cons _ _).trans hrest
      · contradiction
  · split at h
    · rename_i r' hfloat
      obtain rfl := Option.some.inj h
      refine List.IsSuffix.trans (getD_suffix (fun r hr => ?_) List.suffix_rfl) (afterFloat?_suffix hfloat)
      split at hr
      · obtain rfl := Option.some.inj (Option.ite_none_right_eq_some.1 hr).2
        exact List.suffix_cons _ _
      · contradiction
    · exact afterInteger?_suffix h

end Suffix

/-! ## Segments -/

/-- A character of which no lexeme is made, or only one that breaks a line. -/
def isGap (c : Char) : Bool := isBlank c || c == '\n' || c == '\r' || c == '\\'

theorem isGap_of_isBlank {c : Char} (hc : isBlank c = true) : isGap c = true := by
  rw [isGap, hc]
  rfl

/-- The characters that a lexeme is made of, before the rest of a text. -/
inductive Spells : Lexeme → List Char → List Char → Prop
  | operator {s : String} {rest : List Char} (hs : s ∈ operators) : Spells (.op s) s.toList rest
  | word {kind : LexemeKind} {w rest : List Char} (hkind : kind = .name ∨ kind = .operator)
      (hw : ∀ c ∈ w, isWord c = true) (hrest : EndsWord rest) : Spells ⟨kind, String.ofList w⟩ w rest
  | number {w rest : List Char} : Spells (.number (String.ofList w)) w rest
  | stray {c : Char} {rest : List Char} (hword : isWord c = false) (hpoint : c ≠ '.') :
      Spells (.stray c) [c] rest
  | comment {w rest : List Char} (hrest : rest.head?.all isGap = true) : Spells ⟨.comment, ""⟩ w rest
  | lineEnd {w rest : List Char} (hw : w = ['\n'] ∨ w = ['\r', '\n']) : Spells .lineEnd w rest

/-- The text consists of the characters of some lexemes, with gaps around them. -/
inductive Segments : List Char → List Lexeme → Prop
  | done {gap : List Char} (hgap : ∀ c ∈ gap, isGap c = true) : Segments gap []
  | next {gap w rest : List Char} {l : Lexeme} {ls : List Lexeme} (hgap : ∀ c ∈ gap, isGap c = true)
      (hl : Spells l w rest) (hrest : Segments rest ls) : Segments (gap ++ (w ++ rest)) (l :: ls)

namespace Segments

variable {gap cs w rest : List Char} {l : Lexeme} {ls : List Lexeme}

theorem prepend (h : Segments cs ls) (hgap : ∀ c ∈ gap, isGap c = true) : Segments (gap ++ cs) ls := by
  cases h with
  | done hgap' => exact .done (List.forall_mem_append.2 ⟨hgap, hgap'⟩)
  | next hgap' hl hrest =>
      rw [← List.append_assoc]
      exact .next (List.forall_mem_append.2 ⟨hgap, hgap'⟩) hl hrest

theorem lexeme (hl : Spells l w rest) (hrest : Segments rest ls) : Segments (w ++ rest) (l :: ls) := by
  rw [← List.nil_append (w ++ rest)]
  exact next nofun hl hrest

theorem lexeme_of_eq (hcs : cs = w ++ rest) (hl : Spells l w rest) (hrest : Segments rest ls) :
    Segments cs (l :: ls) :=
  hcs ▸ lexeme hl hrest

theorem of_dropWhile (h : Segments (cs.dropWhile isBlank) ls) : Segments cs ls := by
  rw [← List.takeWhile_append_dropWhile (p := isBlank) (l := cs)]
  exact h.prepend fun c hc => isGap_of_isBlank (List.mem_takeWhile_imp hc)

/-- Blanks before a stray are strays themselves. -/
theorem strays {blanks : List Char} (h : Segments rest ls)
    (hblanks : ∀ c ∈ blanks, isWord c = false ∧ c ≠ '.') :
    Segments (blanks ++ rest) (blanks.map Lexeme.stray ++ ls) := by
  induction blanks with
  | nil => exact h
  | cons c blanks ih =>
      rw [List.forall_mem_cons] at hblanks
      have hfirst : Segments ([c] ++ (blanks ++ rest)) (.stray c :: (blanks.map Lexeme.stray ++ ls)) :=
        lexeme (.stray hblanks.1.1 hblanks.1.2) (ih hblanks.2)
      exact hfirst

end Segments

theorem afterLineBreak?_eq_some {cs r : List Char} (h : afterLineBreak? cs = some r) :
    ∃ w, (w = ['\n'] ∨ w = ['\r', '\n']) ∧ cs = w ++ r := by
  rw [afterLineBreak?.eq_def] at h
  split at h
  · obtain rfl := Option.some.inj h
    exact ⟨_, .inl rfl, rfl⟩
  · obtain rfl := Option.some.inj h
    exact ⟨_, .inr rfl, rfl⟩
  · exact nomatch h

theorem isGap_of_lineBreak {w : List Char} (hw : w = ['\n'] ∨ w = ['\r', '\n']) :
    ∀ c ∈ w, isGap c = true := by
  rcases hw with rfl | rfl <;> simp [isGap]

theorem operator?_eq_some {cs r : List Char} {s : String} (h : operator? cs = some (s, r)) :
    s ∈ operators ∧ cs = s.toList ++ r := by
  obtain ⟨t, ht, heq⟩ := Option.map_eq_some_iff.1 h
  obtain ⟨rfl, rfl⟩ := Prod.mk.inj heq
  have hprefix : t.toList.isPrefixOf cs = true :=
    List.find?_some (p := fun s : String => s.toList.isPrefixOf cs) ht
  obtain ⟨rest, rfl⟩ := List.isPrefixOf_iff_prefix.1 hprefix
  refine ⟨List.mem_of_find?_eq_some ht, ?_⟩
  rw [← String.length_toList, List.drop_left]

theorem before_append (w rest : List Char) : before (w ++ rest) rest = w := by
  rw [before, List.length_append, Nat.add_sub_cancel, List.take_left]

theorem stray_of_scan {c : Char} {rest : List Char} (hoperator : operator? (c :: rest) = none)
    (hword : ((c :: rest).takeWhile isWord).isEmpty = true) : isWord c = false ∧ c ≠ '.' := by
  constructor
  · by_contra hc
    rw [List.takeWhile_cons_of_pos (by simpa using hc)] at hword
    exact nomatch hword
  · rintro rfl
    rw [operator?, Option.map_eq_none_iff, List.find?_eq_none] at hoperator
    exact hoperator "." (by decide) (by simp)

theorem head?_dropWhile (p : Char → Bool) (cs : List Char) :
    (cs.dropWhile p).head?.all (fun c => !p c) = true := by
  rw [← List.find?_not_eq_head?_dropWhile, Option.all_eq_true]
  exact fun c hc => List.find?_some (p := fun c => !p c) hc

theorem drop_length_takeWhile (p : Char → Bool) (cs : List Char) :
    cs.drop (cs.takeWhile p).length = cs.dropWhile p := by
  have hdrop : (cs.takeWhile p ++ cs.dropWhile p).drop (cs.takeWhile p).length = cs.dropWhile p :=
    List.drop_left
  rwa [List.takeWhile_append_dropWhile] at hdrop

theorem isGap_of_comment (cs : List Char) :
    (cs.dropWhile fun c => c != '\r' && c != '\n').head?.all isGap = true := by
  have hhead := head?_dropWhile (fun c => c != '\r' && c != '\n') cs
  cases h : (cs.dropWhile fun c => c != '\r' && c != '\n').head? with
  | none => rfl
  | some c =>
      rw [h] at hhead
      simp only [Option.all_some, Bool.not_eq_true', Bool.and_eq_false_iff, bne_eq_false_iff_eq] at hhead
      rcases hhead with rfl | rfl <;> rfl

theorem not_isWord_of_isGap {c : Char} (hc : isGap c = true) : isWord c = false ∧ c ≠ '.' := by
  simp only [isGap, isBlank, Bool.or_eq_true, beq_iff_eq] at hc
  rcases hc with ((((rfl | rfl) | rfl) | rfl) | rfl) | rfl <;> exact ⟨rfl, by decide⟩

/-- **The lexemes of a text are its segments.** -/
theorem segments_of_scan {fuel : ℕ} {position : LinePosition} {depth : ℤ} {cs : List Char}
    {ls : List Lexeme} (h : scan fuel position depth cs = some ls) : Segments cs ls := by
  fun_induction scan fuel position depth cs generalizing ls
  case case1 | case3 | case7 => exact nomatch h
  -- the end of the text
  case case2 cs body hbody hclosed =>
    obtain rfl := Option.some.inj h
    refine .of_dropWhile ?_
    rw [show cs.dropWhile isBlank = [] from hbody]
    exact .done nofun
  -- a comment
  case case4 body c rest hbody comment hc ih =>
    obtain ⟨ls, hls, rfl⟩ := Option.map_eq_some_iff.1 h
    have hcs : body = _ ++ comment := List.takeWhile_append_dropWhile.symm
    exact .of_dropWhile (.lexeme_of_eq hcs (.comment (isGap_of_comment body)) (ih hls))
  -- a line break that ends nothing
  case case5 r hbreak hstart ih =>
    obtain ⟨w, hw, hr⟩ := afterLineBreak?_eq_some hbreak
    have hsegments := (ih h).prepend (isGap_of_lineBreak hw)
    rw [← hr] at hsegments
    exact .of_dropWhile hsegments
  -- a line break that is a lexeme
  case case6 r hbreak hstart ih =>
    obtain ⟨w, hw, hr⟩ := afterLineBreak?_eq_some hbreak
    obtain ⟨ls, hls, rfl⟩ := Option.map_eq_some_iff.1 h
    exact .of_dropWhile (.lexeme_of_eq hr (.lineEnd hw) (ih hls))
  -- a line that is continued
  case case8 c rest hbody indented hc hbreak hindented continuation r hcontinued ih =>
    obtain ⟨hslash, hrest⟩ := Option.ite_none_right_eq_some.1 hcontinued
    obtain ⟨w, hw, hr⟩ := afterLineBreak?_eq_some hrest
    have hjoin : ∀ d ∈ c :: w, isGap d = true :=
      List.forall_mem_cons.2 ⟨by rw [beq_iff_eq.1 hslash]; rfl, isGap_of_lineBreak hw⟩
    have hsegments := (ih h).prepend hjoin
    rw [List.cons_append, ← hr, ← hbody] at hsegments
    exact .of_dropWhile hsegments
  -- a number
  case case9 r hnumber ih =>
    obtain ⟨ls, hls, rfl⟩ := Option.map_eq_some_iff.1 h
    obtain ⟨w, hw⟩ := afterNumber?_suffix hnumber
    rw [← hw, before_append]
    exact .of_dropWhile (.lexeme_of_eq hw.symm .number (ih hls))
  -- an operator
  case case10 s r hoperator ih =>
    obtain ⟨ls, hls, rfl⟩ := Option.map_eq_some_iff.1 h
    obtain ⟨hs, hr⟩ := operator?_eq_some hoperator
    exact .of_dropWhile (.lexeme_of_eq hr (.operator hs) (ih hls))
  -- a stray: the blanks in front are strays as well, and no gap
  case case11 cs atStart body c rest hbody indented hc hbreak hindented continuation hcontinued hnumber
      hoperator word hword ih =>
    obtain ⟨ls, hls, rfl⟩ := Option.map_eq_some_iff.1 h
    obtain ⟨hstray, hpoint⟩ := stray_of_scan (hbody ▸ hoperator) (hbody ▸ hword)
    have hcs : cs = cs.takeWhile isBlank ++ body := List.takeWhile_append_dropWhile.symm
    have hsegments := Segments.lexeme (.stray hstray hpoint) (ih hls)
    rw [List.singleton_append, ← hbody] at hsegments
    generalize hblanks : cs.takeWhile isBlank = blanks at hcs
    rw [hcs, before_append]
    refine hsegments.strays fun d hd => not_isWord_of_isGap (isGap_of_isBlank ?_)
    rw [← hblanks] at hd
    exact List.mem_takeWhile_imp hd
  -- a word
  case case12 body c rest hbody indented hc hbreak hindented continuation hcontinued hnumber hoperator word
      hword kind ih =>
    obtain ⟨ls, hls, rfl⟩ := Option.map_eq_some_iff.1 h
    have hkind : kind = .name ∨ kind = .operator := ite_eq_or_eq _ _ _
    have hcs : body = word ++ body.dropWhile isWord := List.takeWhile_append_dropWhile.symm
    have hrest := ih hls
    rw [drop_length_takeWhile] at hrest
    exact .of_dropWhile (.lexeme_of_eq hcs
      (.word hkind (fun d hd => List.mem_takeWhile_imp hd) (head?_dropWhile isWord body)) hrest)

theorem exists_segments_of_lexemes {cs : List Char} {ls : List Lexeme} (h : lexemes cs = some ls) :
    ∃ left right, cs = left ++ (strip cs ++ right) ∧ (∀ c ∈ left, isSpace c = true)
      ∧ Segments (strip cs) ls := by
  refine ⟨cs.takeWhile isSpace, ((cs.dropWhile isSpace).reverse.takeWhile isSpace).reverse, ?_,
    fun c hc => List.mem_takeWhile_imp hc, segments_of_scan h⟩
  rw [strip, ← List.reverse_append, List.takeWhile_append_dropWhile, List.reverse_reverse,
    List.takeWhile_append_dropWhile]

/-! ## The text before a lexeme -/

namespace Spells

variable {l : Lexeme} {s : String} {w rest : List Char}

theorem eq_toList_of_operator (h : Spells (.op s) w rest) : w = s.toList := by
  generalize hl : Lexeme.op s = l at h
  cases h with
  | operator hs => rw [(Lexeme.mk.inj hl).2]
  | word hkind hw hrest => rw [(Lexeme.mk.inj hl).2, String.toList_ofList]
  | _ => exact absurd (Lexeme.mk.inj hl).1 (by decide)

theorem of_name (h : Spells (.name s) w rest) :
    w = s.toList ∧ (∀ c ∈ w, isWord c = true) ∧ EndsWord rest := by
  generalize hl : Lexeme.name s = l at h
  cases h with
  | word hkind hw hrest => exact ⟨by rw [(Lexeme.mk.inj hl).2, String.toList_ofList], hw, hrest⟩
  | _ => exact absurd (Lexeme.mk.inj hl).1 (by decide)

theorem of_lineEnd (h : Spells .lineEnd w rest) : ∀ c ∈ w, isGap c = true := by
  generalize hl : Lexeme.lineEnd = l at h
  cases h with
  | lineEnd hw => exact isGap_of_lineBreak hw
  | word hkind hw hrest =>
      rcases hkind with rfl | rfl <;> exact absurd (Lexeme.mk.inj hl).1 (by decide)
  | _ => exact absurd (Lexeme.mk.inj hl).1 (by decide)

end Spells

/-- The end of the text neither is a part of a word nor a point: a name can begin after it. -/
def endsFree (cs : List Char) : Bool := cs.getLast?.all fun c => !(isWord c || c == '.')

/-- A name that directly follows the lexeme may be written as a part of it or of an attribute. -/
def Lexeme.joins (l : Lexeme) : Bool := l.kind == .number || l.text == "." || l.text == "..."

theorem endsFree_append {cs ds : List Char} (hds : ds ≠ []) : endsFree (cs ++ ds) = endsFree ds := by
  rw [endsFree, List.getLast?_append_of_ne_nil _ hds, endsFree]

theorem endsFree_append_of_endsFree {cs ds : List Char} (hcs : endsFree cs = true) (hds : endsFree ds = true) :
    endsFree (cs ++ ds) = true := by
  by_cases hne : ds = []
  · rwa [hne, List.append_nil]
  · rwa [endsFree_append hne]

theorem endsFree_of_forall {cs : List Char} (hcs : ∀ c ∈ cs, isWord c = false ∧ c ≠ '.') :
    endsFree cs = true := by
  rw [endsFree, Option.all_eq_true]
  intro c hc
  obtain ⟨hword, hpoint⟩ := hcs c (List.mem_of_getLast? hc)
  simp [hword, hpoint]

/-- In front of a name, the characters of any other lexeme end so that the name begins there. -/
theorem Spells.endsFree {l : Lexeme} {w rest : List Char} (h : Spells l w rest) (hl : l.joins = false)
    (hrest : rest.head?.any isWord = true) : w ≠ [] ∧ endsFree w = true := by
  obtain ⟨c, ds, rfl, hc⟩ : ∃ c ds, rest = c :: ds ∧ isWord c = true := by
    cases rest with
    | nil => simp at hrest
    | cons c ds => exact ⟨c, ds, rfl, hrest⟩
  cases h with
  | @operator s _ hs =>
      have hall : ∀ s ∈ operators, (Lexeme.op s).joins = false →
          s.toList ≠ [] ∧ Formula.endsFree s.toList = true := by decide +kernel
      exact hall s hs hl
  | word hkind hw hend =>
      rw [EndsWord, List.head?_cons, Option.all_some, hc] at hend
      exact absurd hend (by decide)
  | number => exact absurd hl (by simp [Lexeme.joins, Lexeme.number])
  | stray hword hpoint => exact ⟨List.cons_ne_nil _ _, by simp [Formula.endsFree, hword, hpoint]⟩
  | comment hgap =>
      have hword := not_isWord_of_isGap hgap
      exact absurd (hword.1.symm.trans hc) Bool.false_ne_true
  | lineEnd hw => rcases hw with rfl | rfl <;> exact ⟨List.cons_ne_nil _ _, rfl⟩

/-- Before a name that no number or point precedes, the text ends so that the name begins there. -/
theorem Segments.exists_split {before ls : List Lexeme} {l : Lexeme} {cs : List Char}
    (h : Segments cs (before ++ l :: ls)) :
    ∃ front w rest, cs = front ++ (w ++ rest) ∧ Spells l w rest ∧ Segments rest ls
      ∧ (before.getLast?.any Lexeme.joins = false → w.head?.any isWord = true →
        endsFree front = true ∧ (before ≠ [] → front ≠ [])) := by
  induction before generalizing cs with
  | nil =>
      cases h with
      | @next gap w rest _ _ hgap hl hrest =>
          exact ⟨gap, w, rest, rfl, hl, hrest, fun _ _ =>
            ⟨endsFree_of_forall fun c hc => not_isWord_of_isGap (hgap c hc), fun hne => absurd rfl hne⟩⟩
  | cons p before ih =>
      cases h with
      | @next gap v tail _ _ hgap hp htail =>
          obtain ⟨front, w, rest, rfl, hl, hrest, hfront⟩ := ih htail
          refine ⟨gap ++ (v ++ front), w, rest, by simp, hl, hrest, fun hjoins hw => ?_⟩
          have hbefore : before.getLast?.any Lexeme.joins = false := by
            cases before with
            | nil => rfl
            | cons q before => rwa [List.getLast?_cons_cons] at hjoins
          obtain ⟨hfree, hnonempty⟩ := hfront hbefore hw
          by_cases hempty : front = []
          · -- the lexeme stands directly in front of the name
            obtain rfl : before = [] := by_contra fun hne => hnonempty hne hempty
            subst hempty
            have hbegins : (w ++ rest).head?.any isWord = true := by
              cases w with
              | nil => exact nomatch hw
              | cons c w => exact hw
            obtain ⟨hv, hvfree⟩ := hp.endsFree hjoins hbegins
            rw [List.append_nil, endsFree_append hv]
            exact ⟨hvfree, fun _ => by simp [hv]⟩
          · rw [← List.append_assoc, endsFree_append hempty]
            exact ⟨hfree, fun _ => by simp [hempty]⟩

/-- Line ends before an operator belong to the gap in front of it. -/
theorem Segments.exists_gap {ends ls : List Lexeme} {s : String} {cs : List Char}
    (h : Segments cs (ends ++ .op s :: ls)) (hends : ∀ l ∈ ends, l = .lineEnd) :
    ∃ gap rest, cs = gap ++ (s.toList ++ rest) ∧ ∀ c ∈ gap, isGap c = true := by
  induction ends generalizing cs with
  | nil =>
      cases h with
      | next hgap hl hrest => exact ⟨_, _, by rw [hl.eq_toList_of_operator], hgap⟩
  | cons l ends ih =>
      obtain ⟨rfl, hends'⟩ := List.forall_mem_cons.1 hends
      cases h with
      | @next gap w tail _ _ hgap hl htail =>
          obtain ⟨gap', rest, rfl, hgap'⟩ := ih htail hends'
          refine ⟨gap ++ (w ++ gap'), rest, by simp, ?_⟩
          exact List.forall_mem_append.2 ⟨hgap, List.forall_mem_append.2 ⟨hl.of_lineEnd, hgap'⟩⟩

end CircuitIR.Formula
