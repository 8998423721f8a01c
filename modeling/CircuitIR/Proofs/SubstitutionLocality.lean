import CircuitIR.Proofs.PassCommutation

/-!
# What substitution reads and writes

Substitution asks a resolver for the free symbols of a circuit and for nothing else, and of the answer it keeps
the number, if there is one. It writes to the parameters of the operations and to nothing else, and it leaves
numbers as they are, so that what it makes is never changed by another substitution.
-/

namespace CircuitIR

theorem mapM_congr {m : Type → Type} [Monad m] {α β : Type} {f g : α → m β} {xs : List α}
    [LawfulMonad m] (h : ∀ x ∈ xs, f x = g x) : xs.mapM f = xs.mapM g := by
  induction xs with
  | nil => rfl
  | cons x xs ih =>
      rw [List.forall_mem_cons] at h
      rw [List.mapM_cons, List.mapM_cons, h.1, ih h.2]

namespace Resolver

variable {r r' : Resolver} {text : String} {names : List String}

/-- The number that the resolver has for a name; none if the name is unknown, and none if the resolver fails
on it. -/
def number? (r : Resolver) (name : String) : Option Float :=
  match r name with
  | .value x => some x
  | .unresolved => none
  | .failed => none

theorem result_resolveSymbol (r : Resolver) (text name : String) : (r.resolveSymbol text name).result
    = match r.number? name with
      | some x => .ok x
      | none => .error (.unresolvedSymbol name none) := by
  unfold resolveSymbol number?
  cases r name <;> rfl

theorem result_resolveSymbols (r : Resolver) (text : String) (names : List String) :
    (r.resolveSymbols text names).result
      = names.mapM fun name => (r.resolveSymbol text name).result >>= fun x => .ok (name, x) := by
  rw [resolveSymbols, Traced.result_mapM]
  refine mapM_congr fun name _ => ?_
  rw [Traced.result_bind]
  rfl

theorem result_resolveSymbols_congr (h : ∀ s ∈ names, r.number? s = r'.number? s) :
    (r.resolveSymbols text names).result = (r'.resolveSymbols text names).result := by
  rw [result_resolveSymbols, result_resolveSymbols]
  refine mapM_congr fun s hs => ?_
  rw [result_resolveSymbol, result_resolveSymbol, h s hs]

end Resolver

theorem Parameter.result_substitute_congr {p : Parameter Float} {r r' : Resolver}
    (h : ∀ s ∈ p.symbols, r.number? s = r'.number? s) :
    (p.substitute r).result = (p.substitute r').result := by
  cases p with
  | number x => rfl
  | symbolic e =>
      have hvalues : (r.resolveSymbols e.text e.symbols).result
          = (r'.resolveSymbols e.text e.symbols).result := Resolver.result_resolveSymbols_congr h
      rw [substitute, substitute, Traced.result_bind, Traced.result_bind, hvalues]

/-- The parameter is made a number, and a number stays what it is. -/
structure Parameter.BecomesConcrete (p q : Parameter Float) : Prop where
  concrete : q.isSymbolic = false
  unchanged : p.isSymbolic = false → q = p

/-- A field of parameters has them made numbers, and any other field stays what it is. -/
inductive FieldOf.BecomesConcrete {I : Type} :
    FieldOf I (Parameter Float) → FieldOf I (Parameter Float) → Prop
  | parameter {p q : Parameter Float} (h : p.BecomesConcrete q) :
      BecomesConcrete (.parameter p) (.parameter q)
  | parameters {ps qs : List (Parameter Float)} (h : List.Forall₂ Parameter.BecomesConcrete ps qs) :
      BecomesConcrete (.parameters ps) (.parameters qs)
  | other {field : FieldOf I (Parameter Float)} (h : field.parameterList = []) :
      BecomesConcrete field field

/-- The kind stays, and so do the fields up to their parameters, which are made numbers. -/
structure OperationOf.BecomesConcrete (op op' : Operation Float) : Prop where
  variant : op'.variant = op.variant
  fields : List.Forall₂ FieldOf.BecomesConcrete op.fields op'.fields

namespace OperationOf

variable {I P Q : Type} {op op' : Operation Float} {r r' : Resolver}

theorem result_traverseParameters (f : P → Traced Q) (op : OperationOf I P) :
    (op.traverseParameters f).result = op.traverseParameters fun p => (f p).result := by
  cases op with
  | angle g q θ | controlledPhase c t θ | interaction g qs θ | globalPhase θ =>
      rw [traverseParameters, Traced.result_bind]
      rfl
  | call n qs ps =>
      rw [traverseParameters, Traced.result_bind, Traced.result_mapM]
      rfl
  | _ => rfl

theorem traverseParameters_congr {m : Type → Type} [Monad m] [LawfulMonad m] {f g : P → m Q}
    {op : OperationOf I P} (h : ∀ p ∈ op.parameters, f p = g p) :
    op.traverseParameters f = op.traverseParameters g := by
  cases op with
  | angle _ _ θ | controlledPhase _ _ θ | interaction _ _ θ | globalPhase θ =>
      rw [traverseParameters, h θ List.mem_cons_self, traverseParameters]
  | call n qs ps =>
      have hps : ps.mapM f = ps.mapM g := mapM_congr h
      rw [traverseParameters, hps, traverseParameters]
  | _ => rfl

theorem result_substitute (op : Operation Float) (r : Resolver) : (op.substitute r).result
    = op.traverseParameters fun p => (p.substitute r).result >>= fun x => .ok (.number x) := by
  rw [substitute, result_traverseParameters]
  refine traverseParameters_congr fun p _ => ?_
  rw [Traced.result_bind]
  rfl

theorem result_substitute_congr (h : ∀ s ∈ op.symbols, r.number? s = r'.number? s) :
    (op.substitute r).result = (op.substitute r').result := by
  rw [result_substitute, result_substitute]
  refine traverseParameters_congr fun p hp => ?_
  have hsymbols : ∀ s ∈ p.symbols, r.number? s = r'.number? s :=
    fun s hs => h s (List.mem_flatMap.2 ⟨p, hp, hs⟩)
  rw [Parameter.result_substitute_congr hsymbols]

theorem becomesConcrete_of_substitute (h : (op.substitute r).result = .ok op') :
    op.BecomesConcrete op' := by
  have hparameter : ∀ {p q : Parameter Float},
      ((p.substitute r).result >>= fun x => .ok (.number x)) = .ok q → p.BecomesConcrete q := by
    intro p q hq
    obtain ⟨x, hx, hq⟩ := bind_eq_ok.1 hq
    obtain rfl := Except.ok.inj hq
    refine ⟨rfl, fun hp => ?_⟩
    cases p with
    | number y => rw [← Except.ok.inj hx]
    | symbolic e => exact nomatch hp
  have hone : ∀ {θ : Parameter Float} {g : Parameter Float → Operation Float},
      (((θ.substitute r).result >>= fun x => .ok (.number x)) >>= fun p => .ok (g p)) = .ok op' →
        ∃ p, θ.BecomesConcrete p ∧ g p = op' := by
    intro θ g hg
    obtain ⟨p, hp, hg⟩ := bind_eq_ok.1 hg
    exact ⟨p, hparameter hp, Except.ok.inj hg⟩
  rw [result_substitute] at h
  cases op with
  | angle g q θ =>
      obtain ⟨p, hp, rfl⟩ := hone h
      exact ⟨rfl, .cons (.other rfl) (.cons (.parameter hp) .nil)⟩
  | controlledPhase c t θ =>
      obtain ⟨p, hp, rfl⟩ := hone h
      exact ⟨rfl, .cons (.other rfl) (.cons (.other rfl) (.cons (.parameter hp) .nil))⟩
  | interaction g qs θ =>
      obtain ⟨p, hp, rfl⟩ := hone h
      exact ⟨rfl, .cons (.other rfl) (.cons (.parameter hp) .nil)⟩
  | globalPhase φ =>
      obtain ⟨p, hp, rfl⟩ := hone h
      exact ⟨rfl, .cons (.parameter hp) .nil⟩
  | call n qs ps =>
      obtain ⟨ps', hps, h⟩ := bind_eq_ok.1 h
      obtain rfl := Except.ok.inj h
      have hps' := (mapM_eq_ok_iff.1 hps).imp fun _ _ => hparameter
      exact ⟨rfl, .cons (.other rfl) (.cons (.other rfl) (.cons (.parameters hps') .nil))⟩
  | _ =>
      obtain rfl := Except.ok.inj h
      refine ⟨rfl, List.forall₂_same.2 fun field hfield => .other ?_⟩
      exact List.flatMap_eq_nil_iff.1 (flatMap_parameterList _) field hfield

end OperationOf

namespace Circuit

variable {c made : Circuit Float} {r r' : Resolver}

theorem result_substitute_congr (h : ∀ s ∈ c.symbols, r.number? s = r'.number? s) :
    (c.substitute r).result = (c.substitute r').result := by
  rw [result_substitute, result_substitute]
  refine congrArg (· >>= _) (mapM_congr fun op hop => ?_)
  have hsymbols : ∀ s ∈ op.symbols, r.number? s = r'.number? s :=
    fun s hs => h s (List.mem_flatMap.2 ⟨op, hop, hs⟩)
  exact OperationOf.result_substitute_congr hsymbols

theorem substitute_of_concrete (h : c.isParametrized = false) (r : Resolver) :
    (c.substitute r).result = .ok c := by
  have hconcrete : ∀ op ∈ c.operations, op.isParametrized = false := by
    simpa [isParametrized] using h
  rw [result_substitute, OperationOf.mapM_substitute_of_concrete hconcrete]
  rfl

/-- **What substitution reads and writes.** Two resolvers with the same numbers for the free symbols of a
circuit, whatever they do on other names and however they fail, give the same circuit or the same fault. What
is made has the same operations up to parameters, which are made numbers where they were symbolic, and it is
the same under every further substitution. -/
theorem substitute_local (h : ∀ s ∈ c.symbols, r.number? s = r'.number? s) :
    (c.substitute r).result = (c.substitute r').result
      ∧ ∀ made, (c.substitute r).result = .ok made →
        List.Forall₂ OperationOf.BecomesConcrete c.operations made.operations
        ∧ ∀ further : Resolver, (made.substitute further).result = .ok made := by
  refine ⟨result_substitute_congr h, fun made hmade => ⟨?_, ?_⟩⟩
  · have hoperations := substitute_eq_ok_iff.1 hmade
    exact hoperations.imp fun _ _ => OperationOf.becomesConcrete_of_substitute
  · exact substitute_of_concrete (substitute_eq_ok hmade).1

/-- A call with a number and a symbol, a measurement and a rotation by another symbol. -/
def partlyConcrete : Circuit Float where
  operations :=
    [.call "swap" [4, 0] [.number 1.5, .symbolic (.symbol "y")], .measure 2 "ro" 0,
      .angle .rotateX 1 (.symbolic (.symbol "x"))]

/-- A table and a foreign resolver that differ on a name that is not used, and on how they fail. -/
theorem substitute_local_partlyConcrete :
    (∃ r r', (Datum.dict [(.text "z", .real 7), (.text "x", .real 0.5), (.text "y", .real 2)]).toResolver
          = .ok r
      ∧ (Datum.resolver [("x", .real 0.5), ("y", .real 2)]).toResolver = .ok r'
      ∧ (partlyConcrete.substitute r').result = (partlyConcrete.substitute r).result
      ∧ ∃ made, (partlyConcrete.substitute r).result = .ok made
        ∧ List.Forall₂ OperationOf.BecomesConcrete partlyConcrete.operations made.operations
        ∧ (made.substitute fun _ => .failed).result = .ok made)
    ∧ ∃ r r', (Datum.dict [(.text "x", .real 0.5)]).toResolver = .ok r
      ∧ (Datum.resolver [("z", .real 7), ("x", .real 0.5)]).toResolver = .ok r'
      ∧ (partlyConcrete.substitute r).result = .error (.unresolvedSymbol "y" none)
      ∧ (partlyConcrete.substitute r').result = .error (.unresolvedSymbol "y" none) := by
  have hsymbols : partlyConcrete.symbols = ["y", "x"] := rfl
  constructor
  · obtain ⟨r, hr⟩ : ∃ r, (Datum.dict
        [(.text "z", .real 7), (.text "x", .real 0.5), (.text "y", .real 2)]).toResolver = .ok r :=
      ⟨_, rfl⟩
    obtain ⟨r', hr'⟩ : ∃ r', (Datum.resolver [("x", .real 0.5), ("y", .real 2)]).toResolver = .ok r' :=
      ⟨_, rfl⟩
    have hagree : ∀ s ∈ partlyConcrete.symbols, r.number? s = r'.number? s := by
      rw [← Except.ok.inj hr, ← Except.ok.inj hr', hsymbols]
      exact List.forall_mem_cons.2 ⟨rfl, List.forall_mem_singleton.2 rfl⟩
    obtain ⟨hsame, hmade⟩ := substitute_local hagree
    have hfirst : (partlyConcrete.substitute r).result
        = .ok ⟨[.call "swap" [4, 0] [.number 1.5, .number 2], .measure 2 "ro" 0,
          .angle .rotateX 1 (.number 0.5)]⟩ := by
      rw [← Except.ok.inj hr]
      rfl
    obtain ⟨hoperations, hfurther⟩ := hmade _ hfirst
    exact ⟨r, r', hr, hr', hsame.symm, _, hfirst, hoperations, hfurther _⟩
  · obtain ⟨r, hr⟩ : ∃ r, (Datum.dict [(.text "x", .real 0.5)]).toResolver = .ok r := ⟨_, rfl⟩
    obtain ⟨r', hr'⟩ : ∃ r', (Datum.resolver [("z", .real 7), ("x", .real 0.5)]).toResolver = .ok r' :=
      ⟨_, rfl⟩
    have hagree : ∀ s ∈ partlyConcrete.symbols, r.number? s = r'.number? s := by
      rw [← Except.ok.inj hr, ← Except.ok.inj hr', hsymbols]
      exact List.forall_mem_cons.2 ⟨rfl, List.forall_mem_singleton.2 rfl⟩
    have hfault : (partlyConcrete.substitute r).result = .error (.unresolvedSymbol "y" none) := by
      rw [← Except.ok.inj hr]
      rfl
    exact ⟨r, r', hr, hr', hfault, (substitute_local hagree).1.symm.trans hfault⟩

end Circuit

end CircuitIR
