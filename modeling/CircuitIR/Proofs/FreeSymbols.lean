import CircuitIR.Proofs.SymbolTable
import CircuitIR.Proofs.WellFormed

/-!
# Free symbols

An expression is closed or has a free symbol. Closed expressions are evaluated as soon as they are given for a
parameter, so a parameter that is converted from a value is a number or has a free symbol, and it counts as
symbolic exactly if it has one.
-/

namespace CircuitIR

namespace Expr

mutual

theorem exists_mem_symbolList : ∀ e : Expr, e.isClosed = false → ∃ s, s ∈ e.symbolList
  | .symbol s, _ => ⟨s, List.mem_singleton_self s⟩
  | .power b x, h => by
      rw [isClosed, Bool.and_eq_false_iff] at h
      rcases h with hb | hx
      · obtain ⟨s, hs⟩ := exists_mem_symbolList b hb
        exact ⟨s, List.mem_append_left _ hs⟩
      · obtain ⟨s, hs⟩ := exists_mem_symbolList x hx
        exact ⟨s, List.mem_append_right _ hs⟩
  | .product es, h => exists_mem_symbolListAll es h
  | .sum es, h => exists_mem_symbolListAll es h
  | .apply _ es, h => exists_mem_symbolListAll es h

theorem exists_mem_symbolListAll : ∀ es : List Expr, isClosedAll es = false →
    ∃ s, s ∈ symbolListAll es
  | e :: es, h => by
      rw [isClosedAll, Bool.and_eq_false_iff] at h
      rcases h with he | hes
      · obtain ⟨s, hs⟩ := exists_mem_symbolList e he
        exact ⟨s, List.mem_append_left _ hs⟩
      · obtain ⟨s, hs⟩ := exists_mem_symbolListAll es hes
        exact ⟨s, List.mem_append_right _ hs⟩

end

theorem mem_symbols {e : Expr} {s : String} : s ∈ e.symbols ↔ s ∈ e.symbolList := by
  have hfold : ∀ (names acc : List String),
      s ∈ names.foldl (fun ts t => insertName t ts) acc ↔ s ∈ names ∨ s ∈ acc := by
    intro names
    induction names with
    | nil => simp
    | cons t names ih =>
        intro acc
        rw [List.foldl_cons, ih, Formula.mem_insertName, List.mem_cons]
        tauto
  rw [symbols, hfold]
  simp

theorem symbols_ne_nil {e : Expr} (h : e.isClosed = false) : e.symbols ≠ [] := by
  obtain ⟨s, hs⟩ := exists_mem_symbolList e h
  exact List.ne_nil_of_mem (mem_symbols.2 hs)

end Expr

namespace Parameter

/-- The parameter is a number, or an expression with a free symbol. -/
def IsReduced {R : Type} : Parameter R → Prop
  | .number _ => True
  | .symbolic e => e.symbols ≠ []

variable {R : Type} {p : Parameter R}

theorem isReduced_of_isSymbolic_eq_false (h : p.isSymbolic = false) : p.IsReduced := by
  cases p with
  | number x => trivial
  | symbolic e => exact nomatch h

theorem IsReduced.isSymbolic_iff (h : p.IsReduced) : p.isSymbolic = true ↔ p.symbols ≠ [] := by
  cases p with
  | number x => simp [isSymbolic, symbols]
  | symbolic e => exact ⟨fun _ => h, fun _ => rfl⟩

end Parameter

theorem Expr.isReduced_of_toParameter {e : Expr} {p : Parameter Float} (h : e.toParameter = .ok p) :
    p.IsReduced := by
  unfold toParameter at h
  split at h
  · split at h
    · obtain rfl := Except.ok.inj h
      trivial
    · exact nomatch h
    · exact nomatch h
  · next hclosed =>
      obtain rfl := Except.ok.inj h
      exact symbols_ne_nil (Bool.eq_false_iff.2 hclosed)

namespace Datum

variable {d : Datum}

theorem isReduced_of_toParameter {p : Parameter Float} (h : d.toParameter.result = .ok p) :
    p.IsReduced := by
  cases d with
  | text s =>
      change (Parameter.read s).result = .ok p at h
      unfold Parameter.read at h
      split at h
      · exact Expr.isReduced_of_toParameter h
      · next e _ => cases e <;> exact nomatch h
  | expr e => exact Expr.isReduced_of_toParameter h
  | real x =>
      obtain rfl := Except.ok.inj h
      trivial
  | int n =>
      obtain ⟨x, -, h⟩ := Traced.bind_result_eq_ok.1 h
      obtain rfl := Except.ok.inj h
      trivial
  | _ => exact nomatch h

theorem isReduced_of_toParameters {ps : List (Parameter Float)}
    (h : d.toParameters.result = .ok ps) : ∀ p ∈ ps, p.IsReduced := by
  unfold toParameters at h
  split at h
  · exact nomatch h
  · obtain ⟨ds, -, h⟩ := Traced.bind_result_eq_ok.1 h
    rw [Traced.result_mapM] at h
    exact forall_of_mapM_eq_ok (fun _ _ _ => isReduced_of_toParameter) h

theorem isReduced_of_toField {kind : FieldKind} {content : FieldOf ℤ (Parameter Float)}
    (h : (d.toField kind).result = .ok content) : ∀ p ∈ content.parameterList, p.IsReduced := by
  cases kind with
  | parameter =>
      obtain ⟨p, hp, h⟩ := Traced.bind_result_eq_ok.1 h
      obtain rfl := Except.ok.inj h
      exact List.forall_mem_singleton.2 (isReduced_of_toParameter hp)
  | parameters =>
      obtain ⟨ps, hps, h⟩ := Traced.bind_result_eq_ok.1 h
      obtain rfl := Except.ok.inj h
      exact isReduced_of_toParameters hps
  | _ =>
      obtain ⟨x, -, h⟩ := Traced.bind_result_eq_ok.1 h
      obtain rfl := Except.ok.inj h
      exact fun _ hp => absurd hp List.not_mem_nil

end Datum

theorem Variant.isReduced_of_fieldContent {kind : FieldKind} {d : Option Datum}
    {content : FieldOf ℤ (Parameter Float)} (h : (fieldContent kind d).result = .ok content) :
    ∀ p ∈ content.parameterList, p.IsReduced := by
  cases d with
  | some d => exact Datum.isReduced_of_toField h
  | none =>
      cases kind with
      | parameters | table =>
          obtain rfl := Except.ok.inj h
          exact fun _ hp => absurd hp List.not_mem_nil
      | _ => exact nomatch h

end CircuitIR
