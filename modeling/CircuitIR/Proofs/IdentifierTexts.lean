import CircuitIR.Proofs.DifferenceTexts
import CircuitIR.Proofs.FreeSymbols

/-!
# Texts of identifiers

An identifier that has no fixed meaning is the symbol of its name, and the difference of two identifiers has
just these two symbols, unless one of them is a name that the reader introduces itself. The constructors of
numbers and factorials share the namespace of the identifiers, so the text of such a name is no parameter. A
reserved word enters the grammar as its placeholder, so beside the placeholder both name one symbol, and their
difference is zero.
-/

namespace CircuitIR.Formula

/-! ## Identifiers -/

/-- The text is an identifier in ASCII without two underscores in a row. -/
structure IsIdentifier (s : String) : Prop where
  starts : s.toList.head?.any isAsciiStart = true
  continues : s.toList.all (fun c => c.isAlphanum || c == '_') = true
  plain : hasDoubleUnderscore s.toList = false

instance (s : String) : Decidable (IsIdentifier s) :=
  decidable_of_iff (s.toList.head?.any isAsciiStart = true
    ∧ s.toList.all (fun c => c.isAlphanum || c == '_') = true ∧ hasDoubleUnderscore s.toList = false)
    ⟨fun ⟨h, h', h''⟩ => ⟨h, h', h''⟩, fun ⟨h, h', h''⟩ => ⟨h, h', h''⟩⟩

theorem isNameCharacter_of_isAlphanum {c : Char} (hc : (c.isAlphanum || c == '_') = true) :
    isNameCharacter c = true := by
  -- beyond ASCII the character classes come from tables, so the cases are bounded first
  have hlt : c.toNat < 128 := by
    by_cases hstart : isAsciiStart c = true
    · exact toNat_lt_of_isAsciiStart hstart
    · have hdigit : c.isDigit = true := by
        rw [Char.isAlphanum, Bool.or_right_comm, ← isAsciiStart, Bool.eq_false_iff.2 hstart] at hc
        exact hc
      rw [Char.isDigit, Bool.and_eq_true, decide_eq_true_eq, decide_eq_true_eq] at hdigit
      exact Nat.lt_of_le_of_lt hdigit.2 (by decide)
  have hall : ∀ n < 128, ((Char.ofNat n).isAlphanum || Char.ofNat n == '_') = true →
      isNameCharacter (Char.ofNat n) = true := by
    decide +kernel
  exact of_toNat_lt (p := fun c => (c.isAlphanum || c == '_') = true → isNameCharacter c = true) hall hlt hc

theorem IsIdentifier.isWord {s : String} (hs : IsIdentifier s) : IsWord s.toList where
  starts := hs.starts
  continues := List.all_eq_true.2 fun c hc =>
    isNameCharacter_of_isAlphanum (List.all_eq_true.1 hs.continues c hc)
  plain := hs.plain

/-! ## Constructors -/

theorem isWord_constructor : ∀ s ∈ constructorNames, IsWord s.toList := by
  decide +kernel

theorem exists_value?_constructor {s : String} (hs : s ∈ constructorNames) (ps : List TextPart) :
    ∃ g, Scope.value? ⟨[], symbolTable ps⟩ (spelling s) = some (.function g) := by
  have hmeaning : ∃ g, fixedMeaning? s = some (.function g) := by
    simp only [constructorNames, List.mem_cons, List.not_mem_nil, or_false] at hs
    rcases hs with rfl | rfl | rfl | rfl | rfl | rfl <;> exact ⟨_, rfl⟩
  rw [spelling_of_isFixed (.inr hs), value?_fixed (.inr hs) (isWord_constructor s hs)]
  exact hmeaning

end CircuitIR.Formula

namespace CircuitIR

open Formula

/-! ## Differences of symbols -/

namespace Expr

theorem refine_product_neg_symbol (r : Rules) (s : String) :
    r.refine.product [.number .minusOne, .symbol s] = .product [.number .minusOne, .symbol s] := by
  with_unfolding_all rfl

theorem collect_difference (s t : String) :
    [.symbol s, .product [.number .minusOne, .symbol t]].foldlM Collected.add ⟨zero, []⟩
      = some (⟨zero, if s = t then [(.symbol s, .exact 0)]
          else [(.symbol s, .one), (.symbol t, .minusOne)]⟩ : Collected) := by
  have hsame : (Expr.symbol s == Expr.symbol t) = (s == t) := rfl
  have hcancel : Number.one.add .minusOne = .exact 0 := by decide +kernel
  change (Collected.add ⟨zero, [(.symbol s, .one)]⟩ (.product [.number .minusOne, .symbol t])).bind some = _
  rw [Option.bind_fun_some]
  simp only [Collected.add, splitCoefficient, ofFactors, addTerm, hsame, beq_iff_eq, hcancel]
  split <;> rfl

/-- A symbol cancels itself, and the difference of two symbols is left as it is. -/
theorem sub_symbol (s t : String) : Rules.standard.sub (.symbol s) (.symbol t)
    = if s = t then zero else .sum [.symbol s, .product [.number .minusOne, .symbol t]] := by
  -- only the second term is multiplied again, by operations of a smaller depth
  have hscaled : scaledTerm (Rules.atDepth 119) (.symbol t) .minusOne
      = some (.product [.number .minusOne, .symbol t]) :=
    congrArg some (refine_product_neg_symbol (Rules.atDepth 118) t)
  have hkept : [symbol s, product [number .minusOne, symbol t]].filter (fun e => !e.isExactZero)
      = [.symbol s, .product [.number .minusOne, .symbol t]] := rfl
  have hflat : [symbol s, product [number .minusOne, symbol t]].filter (fun e => !e.isSum)
      ++ ([symbol s, product [number .minusOne, symbol t]].filter isSum).flatMap terms
      = [.symbol s, .product [.number .minusOne, .symbol t]] := rfl
  change canonicalSum (Rules.atDepth 119) [.symbol s, .product [.number .minusOne, .symbol t]] = _
  rw [canonicalSum, hkept]
  simp only [hflat, collect_difference]
  by_cases hst : s = t
  · rw [if_pos hst, if_pos hst]
    rfl
  · rw [if_neg hst, if_neg hst]
    change ofTerms (canonicalSort (([Expr.symbol s]
      ++ (scaledTerm (Rules.atDepth 119) (.symbol t) .minusOne).toList).filter (keepBeside zero))) = _
    rw [hscaled]
    rfl

theorem mem_symbols_sub_symbol {s t u : String} (hst : s ≠ t) :
    u ∈ (Rules.standard.sub (.symbol s) (.symbol t)).symbols ↔ u = s ∨ u = t := by
  rw [sub_symbol, if_neg hst, mem_symbols]
  simp [symbolList, symbolListAll]

end Expr

/-! ## Texts of one and of two identifiers -/

namespace Parameter

variable {s t : String}

theorem result_read_constructor (hs : s ∈ constructorNames) :
    (Parameter.read s).result = .error (.unreadableParameter (.notANumber s)) := by
  obtain ⟨g, hg⟩ := exists_value?_constructor hs [.identifier s]
  refine result_read_of_error ?_
  rw [Formula.read, isPlain_word (isWord_constructor s hs), value?_word (isWord_constructor s hs), hg]
  rfl

/-- A constructor cannot be subtracted, nor anything from it. -/
theorem result_read_difference_constructor (hs : IsWord s.toList) (ht : IsWord t.toList)
    (h : s ∈ constructorNames ∨ t ∈ constructorNames) :
    (Parameter.read (s ++ " - " ++ t)).result
      = .error (.unreadableParameter (.unreadable (s ++ " - " ++ t))) := by
  have hvalue : Formula.value? (s ++ " - " ++ t) = none := by
    rw [value?_difference hs ht]
    -- the other name may have any value: nothing is subtracted from a function, nor a function from anything
    rcases h with hs' | ht'
    · obtain ⟨g, hg⟩ := exists_value?_constructor hs' (differenceParts s t)
      rw [hg, Option.bind_some, Option.bind_eq_none_iff]
      intro y _
      cases y <;> rfl
    · obtain ⟨g, hg⟩ := exists_value?_constructor ht' (differenceParts s t)
      rw [Option.bind_eq_none_iff]
      intro x _
      rw [hg, Option.bind_some]
      cases x <;> rfl
  refine result_read_of_error ?_
  rw [Formula.read, isPlain_difference hs ht, hvalue]
  rfl

/-- The difference of two names is the difference of the symbols that their spellings have. -/
theorem read_difference_symbols (hs : IsName s) (ht : IsName t) :
    ∃ x y, symbolOf? (symbolTable (differenceParts s t)) (spelling s) = some x
      ∧ symbolOf? (symbolTable (differenceParts s t)) (spelling t) = some y
      ∧ Formula.read (s ++ " - " ++ t) = .ok (Rules.standard.sub (.symbol x) (.symbol y)) := by
  have hmem {u : String} (hu : u ∈ [s, t]) : .identifier u ∈ differenceParts s t :=
    identifier_mem_differenceParts.2 hu
  obtain ⟨x, hx, hxs⟩ := exists_value?_name hs (hmem (by simp))
  obtain ⟨y, hy, hyt⟩ := exists_value?_name ht (hmem (by simp))
  refine ⟨x, y, hx, hy, ?_⟩
  rw [Formula.read, isPlain_difference hs.word ht.word, value?_difference hs.word ht.word, hxs, hyt]
  rfl

theorem result_read_difference_apart (hs : IsName s) (ht : IsName t) (hst : s ≠ t)
    (hapart : SpelledApart [s, t]) :
    (Parameter.read (s ++ " - " ++ t)).result
      = .ok (.symbolic (Rules.standard.sub (.symbol s) (.symbol t))) := by
  -- the table is read under the spelling, which here gives back the name itself
  have hspelling {u : String} (hmem : u ∈ [s, t]) (hu : IsName u) :
      symbolOf? (symbolTable (differenceParts s t)) (spelling u) = some u :=
    symbolOf?_spelling hapart (fun _ => identifier_mem_differenceParts.1)
      (identifier_mem_differenceParts.2 hmem) hu.free
  obtain ⟨x, y, hx, hy, hread⟩ := read_difference_symbols hs ht
  obtain rfl := Option.some.inj ((hspelling (by simp) hs).symm.trans hx)
  obtain rfl := Option.some.inj ((hspelling (by simp) ht).symm.trans hy)
  refine result_read_of_ok hread ?_
  rw [Expr.sub_symbol, if_neg hst]
  rfl

/-- A reserved word and its placeholder are one symbol, which cancels. -/
theorem result_read_difference_alike (hs : IsName s) (ht : IsName t) (halike : ¬SpelledApart [s, t]) :
    (Parameter.read (s ++ " - " ++ t)).result = .ok (.number 0) := by
  obtain ⟨x, y, hx, hy, hread⟩ := read_difference_symbols hs ht
  rw [spelling_eq_of_not_spelledApart halike, hy] at hx
  obtain rfl := Option.some.inj hx
  rw [Expr.sub_symbol, if_pos rfl] at hread
  rw [Parameter.read, hread]
  rfl

/-- **An identifier without a fixed meaning is the symbol of its name, and the difference of two of them has
just these two symbols.** The constructors of the reader are no symbols, and a reserved word and its placeholder
are not told apart. -/
theorem result_read_identifiers {s : String} (hs : IsIdentifier s) (hmath : s ∉ mathNames) :
    (Parameter.read s).result
        = (if s ∈ constructorNames then .error (.unreadableParameter (.notANumber s))
          else .ok (.symbolic (.symbol s)))
      ∧ ∀ t, IsIdentifier t → t ∉ mathNames → s ≠ t →
        if s ∈ constructorNames ∨ t ∈ constructorNames then
          (Parameter.read (s ++ " - " ++ t)).result
            = .error (.unreadableParameter (.unreadable (s ++ " - " ++ t)))
        else
          (SpelledApart [s, t] → ∃ e, (Parameter.read (s ++ " - " ++ t)).result = .ok (.symbolic e)
              ∧ ∀ u, u ∈ e.symbols ↔ u = s ∨ u = t)
            ∧ (¬SpelledApart [s, t] → (Parameter.read (s ++ " - " ++ t)).result = .ok (.number 0)) := by
  have hname {u : String} (hu : IsIdentifier u) (hmath : u ∉ mathNames) (hfree : u ∉ constructorNames) :
      IsName u :=
    ⟨hu.isWord, not_or.2 ⟨hmath, hfree⟩⟩
  constructor
  · split
    · next hconstructor => exact result_read_constructor hconstructor
    · next hfree => exact result_read_symbol (hname hs hmath hfree)
  · intro t ht hmath' hst
    split
    · next hconstructor => exact result_read_difference_constructor hs.isWord ht.isWord hconstructor
    · next hfree =>
        rw [not_or] at hfree
        have hs' : IsName s := hname hs hmath hfree.1
        have ht' : IsName t := hname ht hmath' hfree.2
        refine ⟨fun hapart => ⟨_, result_read_difference_apart hs' ht' hst hapart, fun u => ?_⟩,
          result_read_difference_alike hs' ht'⟩
        exact Expr.mem_symbols_sub_symbol hst

theorem result_read_identifiers_reserved :
    (IsIdentifier "lambda" ∧ "lambda" ∉ mathNames)
      ∧ (IsIdentifier "theta" ∧ "theta" ∉ mathNames ∧ "lambda" ≠ "theta")
      ∧ (Parameter.read "lambda").result = .ok (.symbolic (.symbol "lambda"))
      ∧ ∃ e, (Parameter.read "lambda - theta").result = .ok (.symbolic e)
        ∧ ∀ u, u ∈ e.symbols ↔ u = "lambda" ∨ u = "theta" := by
  have hlambda : IsIdentifier "lambda" ∧ "lambda" ∉ mathNames := by decide +kernel
  have htheta : IsIdentifier "theta" ∧ "theta" ∉ mathNames ∧ "lambda" ≠ "theta" := by decide +kernel
  have hapart : SpelledApart ["lambda", "theta"] := by decide +kernel
  obtain ⟨hsymbol, hdifference⟩ := result_read_identifiers hlambda.1 hlambda.2
  rw [if_neg (by decide +kernel)] at hsymbol
  have hsymbols := hdifference "theta" htheta.1 htheta.2.1 htheta.2.2
  have htext : "lambda" ++ " - " ++ "theta" = "lambda - theta" := by decide +kernel
  rw [if_neg (by decide +kernel), htext] at hsymbols
  exact ⟨hlambda, htheta, hsymbol, hsymbols.1 hapart⟩

/-- The name of a constructor is no parameter, and a placeholder cancels its reserved word. -/
theorem result_read_introduced :
    (∀ s ∈ ["Symbol", "lambda", "_lambda_keyword"], IsIdentifier s ∧ s ∉ mathNames)
      ∧ (Parameter.read "Symbol").result = .error (.unreadableParameter (.notANumber "Symbol"))
      ∧ (Parameter.read "lambda - _lambda_keyword").result = .ok (.number 0) := by
  have hlambda : IsName "lambda" := ⟨by decide +kernel, by decide +kernel⟩
  have hplaceholder : IsName "_lambda_keyword" := ⟨by decide +kernel, by decide +kernel⟩
  have halike : ¬SpelledApart ["lambda", "_lambda_keyword"] := by decide +kernel
  have hcancels := result_read_difference_alike hlambda hplaceholder halike
  have htext : "lambda" ++ " - " ++ "_lambda_keyword" = "lambda - _lambda_keyword" := by decide +kernel
  rw [htext] at hcancels
  exact ⟨by decide +kernel, result_read_constructor (by decide +kernel), hcancels⟩

end Parameter

end CircuitIR
