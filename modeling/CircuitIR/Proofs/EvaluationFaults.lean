import CircuitIR.Proofs.MissingSymbols

/-!
# Faults of evaluation

A substitution fails with the fault of the first parameter that gets no number. A symbol without a number and a
value that is not real are reported as failures of the substitution. What is not reported as one is an evaluation
that fails by itself, with numbers for all symbols: a function is applied outside of its domain, a remainder is
taken by zero, or what is left is not a number. The double factorial of a symbol has this fate under every
number, and a remainder by a symbol has it if the number is zero.
-/

namespace CircuitIR

namespace Expr

variable {e : Expr} {values : List (String × Float)} {f : Fault}

/-- With the numbers in the place of the symbols, the expression has a value that is not real. -/
def IsUnrealAt (e : Expr) (values : List (String × Float)) : Prop :=
  ∃ closed, e.substitute values = .ok closed ∧ closed.evaluate = .unreal

/-- With the numbers in the place of the symbols, evaluation itself fails. -/
inductive FailsAt (e : Expr) (values : List (String × Float)) : FaultKind → Prop
  | replacing {fault : EvaluationFault} (h : e.substitute values = .error fault) :
      FailsAt e values fault.kind
  | indefinite {closed : Expr} (h : e.substitute values = .ok closed)
      (hvalue : closed.evaluate = .indefinite) : FailsAt e values .wrongType

theorem valueAt_eq_error_iff : e.valueAt values = .error f
    ↔ e.IsUnrealAt values ∧ f = .unrealValue e.text
      ∨ ∃ kind, e.FailsAt values kind ∧ f = .foreign kind := by
  constructor
  · intro h
    unfold valueAt at h
    split at h
    · next fault hfault => exact Or.inr ⟨fault.kind, .replacing hfault, (Except.error.inj h).symm⟩
    · next closed hclosed =>
        split at h
        · exact nomatch h
        · next hvalue => exact Or.inl ⟨⟨closed, hclosed, hvalue⟩, (Except.error.inj h).symm⟩
        · next hvalue =>
            exact Or.inr ⟨.wrongType, .indefinite hclosed hvalue, (Except.error.inj h).symm⟩
  · rintro (⟨⟨closed, hclosed, hvalue⟩, rfl⟩ | ⟨kind, hfails, rfl⟩)
    · simp only [valueAt, hclosed, hvalue]
    · cases hfails with
      | replacing h => simp only [valueAt, h]
      | indefinite h hvalue => simp only [valueAt, h, hvalue]

end Expr

/-- The resolver has these numbers for the symbols of an expression. -/
structure Resolver.Resolves (r : Resolver) (e : Expr) (values : List (String × Float)) : Prop where
  names : values.map (·.1) = e.symbols
  gives : r.Gives values

theorem Resolver.Resolves.result_resolveSymbols {r : Resolver} {e : Expr}
    {values : List (String × Float)} (h : r.Resolves e values) (text : String) :
    (r.resolveSymbols text e.symbols).result = .ok values := by
  have hall : ∀ s ∈ e.symbols, r.lacks s = false := by
    intro s hs
    rw [← h.names, List.mem_map] at hs
    obtain ⟨v, hv, rfl⟩ := hs
    rw [lacks, number?, h.gives v hv]
    rfl
  obtain ⟨values', hvalues'⟩ : ∃ values', (r.resolveSymbols text e.symbols).result = .ok values' :=
    exists_resolveSymbols hall
  obtain ⟨hnames, hgives⟩ := resolveSymbols_eq_ok hvalues'
  rw [hvalues', hgives.eq_of_names h.gives (hnames.trans h.names.symm)]

namespace Parameter

variable {p : Parameter Float} {r : Resolver} {f : Fault}

/-- The resolver has numbers for the symbols of the parameter, and with these evaluation fails by itself. -/
def Escapes (p : Parameter Float) (r : Resolver) (f : Fault) : Prop :=
  ∃ e values kind, p = .symbolic e ∧ r.Resolves e values ∧ e.FailsAt values kind ∧ f = .foreign kind

/-- The fault with which a parameter gets no number: the first symbol without one in the order of the names, a
value that is not real, or a failing evaluation. -/
inductive FailsWith (r : Resolver) : Parameter Float → Fault → Prop
  | unresolved {e : Expr} {s : String} (h : e.symbols.find? r.lacks = some s) :
      FailsWith r (.symbolic e) (.unresolvedSymbol s none)
  | unreal {e : Expr} {values : List (String × Float)} (h : r.Resolves e values)
      (hvalue : e.IsUnrealAt values) : FailsWith r (.symbolic e) (.unrealValue e.text)
  | escapes {p : Parameter Float} {f : Fault} (h : p.Escapes r f) : FailsWith r p f

theorem FailsWith.kind_eq_or (h : p.FailsWith r f) : f.kind = .substitution ∨ p.Escapes r f := by
  cases h with
  | unresolved | unreal => exact Or.inl rfl
  | escapes h => exact Or.inr h

theorem substitute_eq_error_iff : (p.substitute r).result = .error f ↔ p.FailsWith r f := by
  constructor
  · intro h
    cases p with
    | number x => exact nomatch h
    | symbolic e =>
        cases hmissing : e.symbols.find? r.lacks with
        | some s =>
            obtain rfl := Except.error.inj (h.symm.trans (substitute_of_find? hmissing))
            exact .unresolved hmissing
        | none =>
            have hall : ∀ s ∈ e.symbols, r.lacks s = false := fun s hs =>
              Bool.eq_false_iff.2 (List.find?_eq_none.1 hmissing s hs)
            obtain ⟨values, hvalues⟩ :
                ∃ values, (r.resolveSymbols e.text e.symbols).result = .ok values :=
              Resolver.exists_resolveSymbols hall
            obtain ⟨hnames, hgives⟩ := Resolver.resolveSymbols_eq_ok hvalues
            rw [substitute, Traced.result_bind, hvalues] at h
            obtain ⟨hunreal, rfl⟩ | ⟨kind, hfails, rfl⟩ := Expr.valueAt_eq_error_iff.1 h
            · exact .unreal ⟨hnames, hgives⟩ hunreal
            · exact .escapes ⟨e, values, kind, rfl, ⟨hnames, hgives⟩, hfails, rfl⟩
  · intro h
    cases h with
    | unresolved h => exact substitute_of_find? h
    | unreal h hvalue =>
        rw [substitute, Traced.result_bind, h.result_resolveSymbols]
        exact Expr.valueAt_eq_error_iff.2 (Or.inl ⟨hvalue, rfl⟩)
    | escapes h =>
        obtain ⟨e, values, kind, rfl, hvalues, hfails, rfl⟩ := h
        rw [substitute, Traced.result_bind, hvalues.result_resolveSymbols]
        exact Expr.valueAt_eq_error_iff.2 (Or.inr ⟨kind, hfails, rfl⟩)

/-- One of the parameters fails with the fault, and those before it get numbers. -/
def FirstFailure (r : Resolver) (ps : List (Parameter Float)) (f : Fault) : Prop :=
  ∃ before p after, ps = before ++ p :: after ∧ (∀ q ∈ before, ∃ x, (q.substitute r).result = .ok x)
    ∧ p.FailsWith r f

/-- Numbers for some parameters, one after the other. -/
theorem mapM_substitute_eq_error_iff {ps : List (Parameter Float)} :
    (ps.mapM fun p => (p.substitute r).result >>= fun x => .ok (number x : Parameter Float)) = .error f
      ↔ FirstFailure r ps f := by
  have hok : ∀ p : Parameter Float,
      (∃ q : Parameter Float, ((p.substitute r).result >>= fun x => .ok (.number x)) = .ok q)
        ↔ ∃ x, (p.substitute r).result = .ok x := by
    intro p
    cases (p.substitute r).result with
    | ok x => exact ⟨fun _ => ⟨x, rfl⟩, fun _ => ⟨.number x, rfl⟩⟩
    | error g => exact ⟨fun ⟨_, h⟩ => (nomatch h), fun ⟨_, h⟩ => (nomatch h)⟩
  have herror : ∀ p : Parameter Float,
      ((p.substitute r).result >>= fun x => .ok (.number x)) = (.error f : Except Fault (Parameter Float))
        ↔ p.FailsWith r f := by
    intro p
    rw [← substitute_eq_error_iff]
    cases (p.substitute r).result with
    | ok x => exact ⟨fun h => (nomatch h), fun h => (nomatch h)⟩
    | error g => exact ⟨fun h => congrArg _ (Except.error.inj h), fun h => congrArg _ (Except.error.inj h)⟩
  rw [mapM_eq_error_iff]
  simp only [hok, herror, FirstFailure]

theorem FirstFailure.kind_eq_or {ps : List (Parameter Float)} (h : FirstFailure r ps f) :
    f.kind = .substitution ∨ ∃ p ∈ ps, p.Escapes r f := by
  obtain ⟨before, p, after, rfl, -, hp⟩ := h
  have hmem : p ∈ before ++ p :: after := List.mem_append_right before List.mem_cons_self
  exact hp.kind_eq_or.imp_right fun hescapes => ⟨p, hmem, hescapes⟩

end Parameter

theorem eq_error_iff_map {ε α β : Type} {y : Except ε α} {g : α → β} {e : ε} :
    y.map g = .error e ↔ y = .error e := by
  constructor
  · exact eq_error_of_map
  · rintro rfl
    rfl

theorem OperationOf.substitute_eq_error_iff {op : Operation Float} {r : Resolver} {f : Fault} :
    (op.substitute r).result = .error f ↔ Parameter.FirstFailure r op.parameters f := by
  rw [← Parameter.mapM_substitute_eq_error_iff, ← map_parameters_substitute, eq_error_iff_map]

namespace Circuit

variable {c : Circuit Float} {r : Resolver} {f : Fault}

/-- The parameters of all operations, in their order. -/
def parameters (c : Circuit Float) : List (Parameter Float) :=
  c.operations.flatMap fun op => op.parameters

/-- The parameters of a circuit are scanned like one list. -/
theorem map_parameters_substitute (c : Circuit Float) (r : Resolver) :
    (c.substitute r).result.map parameters
      = c.parameters.mapM fun p => (p.substitute r).result >>= fun x => .ok (.number x) := by
  rw [result_substitute, parameters]
  induction c.operations with
  | nil => rfl
  | cons op ops ih =>
      rw [List.flatMap_cons, List.mapM_append, ← ih, ← OperationOf.map_parameters_substitute,
        List.mapM_cons]
      cases (op.substitute r).result with
      | error g => rfl
      | ok op' => cases (ops.mapM fun op => (op.substitute r).result) <;> rfl

theorem substitute_eq_error_iff :
    (c.substitute r).result = .error f ↔ Parameter.FirstFailure r c.parameters f := by
  rw [← Parameter.mapM_substitute_eq_error_iff, ← map_parameters_substitute, eq_error_iff_map]

/-- **The outcome of a substitution.** Operations and circuits under any resolver become concrete, or the first
parameter without a number determines the fault. This is one of the substitution, or the symbols of a parameter
have numbers and its evaluation fails by itself. -/
theorem substitute_outcome (op : Operation Float) (c : Circuit Float) (r : Resolver) :
    ((∃ op', (op.substitute r).result = .ok op' ∧ op'.isParametrized = false
          ∧ op'.variant = op.variant ∧ op'.qubits = op.qubits)
        ∨ ∃ f, (op.substitute r).result = .error f ∧ Parameter.FirstFailure r op.parameters f
          ∧ (f.kind = .substitution ∨ ∃ p ∈ op.parameters, p.Escapes r f))
      ∧ ((∃ d, (c.substitute r).result = .ok d ∧ d.isParametrized = false
          ∧ d.operations.map (fun op => op.variant) = c.operations.map fun op => op.variant)
        ∨ ∃ f, (c.substitute r).result = .error f ∧ Parameter.FirstFailure r c.parameters f
          ∧ (f.kind = .substitution ∨ ∃ p ∈ c.parameters, p.Escapes r f)) := by
  constructor
  · cases h : (op.substitute r).result with
    | ok op' => exact Or.inl ⟨op', rfl, OperationOf.substitute_eq_ok h⟩
    | error f =>
        have hfirst := OperationOf.substitute_eq_error_iff.1 h
        exact Or.inr ⟨f, rfl, hfirst, hfirst.kind_eq_or⟩
  · cases h : (c.substitute r).result with
    | ok d => exact Or.inl ⟨d, rfl, substitute_eq_ok h⟩
    | error f =>
        have hfirst := substitute_eq_error_iff.1 h
        exact Or.inr ⟨f, rfl, hfirst, hfirst.kind_eq_or⟩

end Circuit

/-! ## Functions that fail -/

theorem Expr.replacementOrder_singleton (v : String × Number) : replacementOrder [v] = [v] := by
  by_cases h : v.2.isFinite = true
  · simp [replacementOrder, h]
  · simp [replacementOrder, h, moveToFront]

theorem Expr.substitute_singleton (e : Expr) (s : String) (x : Float) :
    e.substitute [(s, x)] = replace Rules.standard s (Number.ofFloat x) e := by
  rw [substitute, List.map_singleton, replacementOrder_singleton, List.foldlM_cons]
  exact bind_pure _

theorem Expr.replace_symbol_self (r : Rules) (s : String) (n : Number) :
    replace r s n (.symbol s) = .ok (.number n) := by
  rw [replace, if_pos rfl]

theorem Expr.anySubAll_of_mem {p : Expr → Bool} {es : List Expr} (h : e ∈ es) (he : e.anySub p = true) :
    anySubAll p es = true := by
  induction es with
  | nil => exact absurd h List.not_mem_nil
  | cons e' es ih =>
      rw [anySubAll, Bool.or_eq_true]
      obtain rfl | h := List.mem_cons.1 h
      · exact Or.inl he
      · exact Or.inr (ih h)

theorem Expr.contains_apply_of_mem {g : FunctionName} {args : List Expr} {s : String}
    (h : .symbol s ∈ args) : (Expr.apply g args).contains (.symbol s) = true := by
  have hself : (Expr.symbol s).anySub (· == .symbol s) = true := beq_self_eq_true s
  rw [contains, anySub, anySubAll_of_mem h hself, Bool.or_true]

/-- The fault of applying a function to the number is the fault of the substitution. -/
theorem Expr.substitute_apply_eq_error {g : FunctionName} {args replaced : List Expr} {s : String} {x : Float}
    {fault : EvaluationFault} (hmem : .symbol s ∈ args)
    (hargs : replaceAll Rules.standard s (Number.ofFloat x) args = .ok replaced)
    (hfault : applicationFault? g replaced = some fault) :
    (Expr.apply g args).substitute [(s, x)] = .error fault := by
  rw [substitute_singleton, replace, if_pos (contains_apply_of_mem hmem), hargs, ok_bind, hfault]
  rfl

section SingleSymbol

variable {op : Operation Float} {r : Resolver} {e : Expr} {s : String} {x : Float}

/-- An operation with one parameter, in one symbol, fails if replacing the symbol fails. -/
theorem OperationOf.substitute_of_replacing {fault : Expr.EvaluationFault}
    (hparameters : op.parameters = [.symbolic e]) (hsymbols : e.symbols = [s]) (hs : r s = .value x)
    (h : e.substitute [(s, x)] = .error fault) :
    (op.substitute r).result = .error (.foreign fault.kind) := by
  have hresolves : r.Resolves e [(s, x)] := by
    refine ⟨hsymbols.symm, fun v hv => ?_⟩
    obtain rfl := List.mem_singleton.1 hv
    exact hs
  refine substitute_eq_error_iff.2 ⟨[], .symbolic e, [], hparameters, fun _ h => absurd h List.not_mem_nil, ?_⟩
  exact .escapes ⟨e, [(s, x)], fault.kind, rfl, hresolves, .replacing h, rfl⟩

theorem Number.integer?_ofFloat (x : Float) : (Number.ofFloat x).integer? = none := by
  unfold Number.ofFloat
  split
  · rfl
  · split <;> rfl

/-- **No number for the symbol makes a double factorial concrete**, and the fault is not one of the
substitution. -/
theorem OperationOf.substitute_doubleFactorial
    (hparameters : op.parameters = [.symbolic (.apply .doubleFactorial [.symbol s])])
    (hs : r s = .value x) : (op.substitute r).result = .error (.foreign .wrongValue) := by
  have hargs : Expr.replaceAll Rules.standard s (Number.ofFloat x) [.symbol s]
      = .ok [.number (Number.ofFloat x)] := by
    rw [Expr.replaceAll, Expr.replace_symbol_self]
    rfl
  have hfault : Expr.applicationFault? .doubleFactorial [.number (Number.ofFloat x)]
      = some .outsideDomain := by
    rw [Expr.applicationFault?, Number.integer?_ofFloat]
  exact substitute_of_replacing hparameters rfl hs
    (Expr.substitute_apply_eq_error (by simp) hargs hfault)

/-- A rotation by the double factorial of a symbol, with a number for the symbol. -/
theorem OperationOf.substitute_doubleFactorial_seven :
    ∃ e, (Parameter.read "x!!").result = .ok (.symbolic e)
      ∧ (substitute (.angle .rotateY 1 (.symbolic e)) (.ofList [("x", 7)])).result
        = .error (.foreign .wrongValue)
      ∧ (Fault.foreign .wrongValue).kind ≠ .substitution := by
  have hread : Formula.read "x!!" = .ok (.apply .doubleFactorial [.symbol "x"]) := by
    decide +kernel
  refine ⟨.apply .doubleFactorial [.symbol "x"], ?_, ?_, by decide⟩
  · rw [Parameter.read, hread]
    rfl
  · exact substitute_doubleFactorial rfl (x := 7) rfl

/-- **A remainder by a symbol divides by zero if the number for the symbol is zero.** -/
theorem OperationOf.substitute_remainder {n : Number}
    (hparameters : op.parameters = [.symbolic (.apply .modulus [.number n, .symbol s])])
    (hs : r s = .value x) (hx : (Number.ofFloat x).isZero = true) :
    (op.substitute r).result = .error (.foreign (.arithmetic .divisionByZero)) := by
  have hargs : Expr.replaceAll Rules.standard s (Number.ofFloat x) [.number n, .symbol s]
      = .ok [.number n, .number (Number.ofFloat x)] := by
    rw [Expr.replaceAll, Expr.replaceAll, Expr.replace_symbol_self]
    rfl
  have hzero : (Expr.number (Number.ofFloat x)).facts.isZero = true := by
    generalize Number.ofFloat x = m at hx
    cases m <;> simp_all [Expr.facts, Facts.ofNumber, Facts.isZero, Number.isZero]
  have hfault : Expr.applicationFault? .modulus [.number n, .number (Number.ofFloat x)]
      = some .divisionByZero := by
    rw [Expr.applicationFault?, if_pos hzero]
  exact substitute_of_replacing hparameters rfl hs
    (Expr.substitute_apply_eq_error (by simp) hargs hfault)

theorem OperationOf.substitute_remainder_seven (hx : (Number.ofFloat x).isZero = true) :
    ∃ e, (Parameter.read "7 % x").result = .ok (.symbolic e)
      ∧ (substitute (.angle .rotateZ 0 (.symbolic e)) (.ofList [("x", x)])).result
        = .error (.foreign (.arithmetic .divisionByZero)) := by
  have hread : Formula.read "7 % x" = .ok (.apply .modulus [.int 7, .symbol "x"]) := by
    decide +kernel
  refine ⟨.apply .modulus [.int 7, .symbol "x"], ?_, ?_⟩
  · rw [Parameter.read, hread]
    rfl
  · exact substitute_remainder rfl (x := x) rfl hx

end SingleSymbol

end CircuitIR
