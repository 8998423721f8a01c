import CircuitIR.Proofs.FreeSymbols
import CircuitIR.Proofs.SubstitutionLocality
import Mathlib.Data.String.Basic

/-!
# Missing symbols

Substitution in a circuit scans the operations in order, of each the parameters in the order of the fields, and
of each the symbols in the order of their names. Each level stops at its first failure. If all that can be
computed has a value, a circuit without missing symbols is substituted, and otherwise the failure is that of the
first missing symbol.
-/

namespace CircuitIR

section FirstFailure

variable {ε α β : Type} {f : α → Except ε β} {p : α → Bool} {xs : List α} {x : α} {e : ε}

theorem exists_mapM_eq_ok (h : ∀ x ∈ xs, ∃ y, f x = .ok y) : ∃ ys, xs.mapM f = .ok ys := by
  induction xs with
  | nil => exact ⟨[], rfl⟩
  | cons x xs ih =>
      rw [List.forall_mem_cons] at h
      obtain ⟨y, hy⟩ := h.1
      obtain ⟨ys, hys⟩ := ih h.2
      refine ⟨y :: ys, ?_⟩
      rw [List.mapM_cons, hy, hys]
      rfl

/-- Where all that is not marked succeeds, the failure of the first marked element is the failure of the
list. -/
theorem mapM_eq_error_of_find? (hfirst : xs.find? p = some x)
    (hok : ∀ y ∈ xs, p y = false → ∃ z, f y = .ok z) (hx : f x = .error e) :
    xs.mapM f = .error e := by
  obtain ⟨-, before, after, rfl, hbefore⟩ := List.find?_eq_some_iff_append.1 hfirst
  refine mapM_eq_error_iff.2 ⟨before, x, after, rfl, fun y hy => ?_, hx⟩
  exact hok y (List.mem_append_left _ hy) ((Bool.not_eq_true' _).mp (hbefore y hy))

theorem exists_find?_of_any (h : xs.any p = true) : ∃ x, xs.find? p = some x ∧ p x = true := by
  obtain ⟨x, hx⟩ := Option.isSome_iff_exists.1 (List.find?_isSome.2 (List.any_eq_true.1 h))
  exact ⟨x, hx, List.find?_some hx⟩

theorem exists_of_map_eq_ok {y : Except ε α} {g : α → β} {b : β} (h : y.map g = .ok b) :
    ∃ a, y = .ok a := by
  cases y with
  | error e => exact nomatch h
  | ok a => exact ⟨a, rfl⟩

theorem eq_error_of_map {y : Except ε α} {g : α → β} (h : y.map g = .error e) : y = .error e := by
  cases y with
  | error e' => exact congrArg Except.error (Except.error.inj h)
  | ok a => exact nomatch h

end FirstFailure

namespace Expr

theorem pairwise_insertName {names : List String} (h : names.Pairwise (· < ·)) (s : String) :
    (insertName s names).Pairwise (· < ·) := by
  induction names with
  | nil => exact List.pairwise_singleton _ s
  | cons t names ih =>
      obtain ⟨hall, hnames⟩ := List.pairwise_cons.1 h
      rw [insertName]
      by_cases hst : s < t
      · rw [if_pos hst]
        refine List.pairwise_cons.2 ⟨List.forall_mem_cons.2 ⟨hst, fun u hu => ?_⟩, h⟩
        exact hst.trans (hall u hu)
      · rw [if_neg hst]
        by_cases heq : s = t
        · rw [if_pos heq]
          exact h
        · rw [if_neg heq]
          refine List.pairwise_cons.2 ⟨fun u hu => ?_, ih hnames⟩
          rcases Formula.mem_insertName.1 hu with rfl | hu
          · exact lt_of_le_of_ne (not_lt.1 hst) (Ne.symm heq)
          · exact hall u hu

theorem pairwise_symbols (e : Expr) : e.symbols.Pairwise (· < ·) := by
  have hfold : ∀ (ss names : List String), names.Pairwise (· < ·) →
      (ss.foldl (fun ts s => insertName s ts) names).Pairwise (· < ·) := by
    intro ss
    induction ss with
    | nil => exact fun names h => h
    | cons s ss ih => exact fun names h => ih _ (pairwise_insertName h s)
  exact hfold e.symbolList [] List.Pairwise.nil

end Expr

namespace Resolver

variable {r : Resolver} {text s : String} {names : List String}

/-- The resolver has no number for the name. -/
def lacks (r : Resolver) (name : String) : Bool := (r.number? name).isNone

theorem lacks_ofList {values : List (String × Float)} :
    (ofList values).lacks s = true ↔ s ∉ values.map (·.1) := by
  have hnumber : (ofList values).number? s = values.lookup s := by
    unfold number? ofList
    cases values.lookup s <;> rfl
  rw [lacks, hnumber, Option.isNone_iff_eq_none, List.lookup_eq_none_iff, List.mem_map]
  constructor
  · rintro hnone ⟨v, hv, rfl⟩
    exact bne_iff_ne.1 (hnone v hv) rfl
  · intro hnot v hv
    exact bne_iff_ne.2 fun hs => hnot ⟨v, hv, hs.symm⟩

/-- The numbers for some names are determined by the resolver. -/
theorem Gives.eq_of_names {values values' : List (String × Float)} (h : r.Gives values)
    (h' : r.Gives values') (hnames : values.map (·.1) = values'.map (·.1)) : values = values' := by
  have hdetermined : ∀ {vs : List (String × Float)}, r.Gives vs →
      (vs.map (·.1)).map (fun s => (s, (r.number? s).getD 0)) = vs := by
    intro vs hvs
    rw [List.map_map]
    refine (List.map_congr_left fun v hv => ?_).trans (List.map_id vs)
    rw [Function.comp_apply, number?, hvs v hv]
    rfl
  rw [← hdetermined h, hnames, hdetermined h']

theorem exists_resolveSymbols (h : ∀ s ∈ names, r.lacks s = false) :
    ∃ values, (r.resolveSymbols text names).result = .ok values := by
  rw [result_resolveSymbols]
  refine exists_mapM_eq_ok fun s hs => ?_
  obtain ⟨x, hx⟩ := Option.isSome_iff_exists.1 (Option.isNone_eq_false_iff.1 (h s hs))
  rw [result_resolveSymbol, hx]
  exact ⟨_, rfl⟩

theorem resolveSymbols_of_find? (h : names.find? r.lacks = some s) :
    (r.resolveSymbols text names).result = .error (.unresolvedSymbol s none) := by
  rw [result_resolveSymbols]
  refine mapM_eq_error_of_find? h (fun t _ ht => ?_) ?_
  · obtain ⟨x, hx⟩ := Option.isSome_iff_exists.1 (Option.isNone_eq_false_iff.1 ht)
    rw [result_resolveSymbol, hx]
    exact ⟨_, rfl⟩
  · have hs : r.lacks s = true := List.find?_some h
    rw [lacks, Option.isNone_iff_eq_none] at hs
    rw [result_resolveSymbol, hs]
    rfl

end Resolver

namespace Parameter

variable {p : Parameter Float} {r : Resolver} {s : String}

/-- Some symbol of the parameter has no number. -/
def lacks (p : Parameter Float) (r : Resolver) : Bool := p.symbols.any r.lacks

/-- The parameter evaluates to a real number if the resolver has numbers for all its symbols. -/
def IsRealUnder (p : Parameter Float) (r : Resolver) : Prop :=
  ∀ e values, p = .symbolic e → values.map (·.1) = e.symbols → r.Gives values →
    ∃ x, e.valueAt values = .ok x

theorem pairwise_symbols (p : Parameter Float) : p.symbols.Pairwise (· < ·) := by
  cases p with
  | number x => exact List.Pairwise.nil
  | symbolic e => exact e.pairwise_symbols

theorem least_of_find? (p : Parameter Float) (h : p.symbols.find? r.lacks = some s) :
    ∀ t ∈ p.symbols, r.lacks t = true → s ≤ t :=
  fun _ ht hlacks => (isLeast_of_find? p.pairwise_symbols h).2 ⟨ht, hlacks⟩

theorem isRealUnder_iff :
    p.IsRealUnder r ↔ (p.lacks r = false → ∃ x, (p.substitute r).result = .ok x) := by
  constructor
  · intro hreal hlacks
    cases p with
    | number x => exact ⟨x, rfl⟩
    | symbolic e =>
        rw [lacks, List.any_eq_false] at hlacks
        obtain ⟨values, hvalues⟩ : ∃ values, (r.resolveSymbols e.text e.symbols).result = .ok values :=
          Resolver.exists_resolveSymbols fun s hs => Bool.eq_false_iff.2 (hlacks s hs)
        obtain ⟨hnames, hgives⟩ := Resolver.resolveSymbols_eq_ok hvalues
        obtain ⟨x, hx⟩ := hreal e values rfl hnames hgives
        refine ⟨x, ?_⟩
        rw [substitute, Traced.result_bind, hvalues]
        exact hx
  · rintro h e values rfl hnames hgives
    have hlacks : (symbolic e : Parameter Float).lacks r = false := by
      refine List.any_eq_false.2 fun s (hs : s ∈ e.symbols) => ?_
      rw [← hnames, List.mem_map] at hs
      obtain ⟨v, hv, rfl⟩ := hs
      rw [Resolver.lacks, Resolver.number?, hgives v hv]
      exact Bool.false_ne_true
    obtain ⟨x, hx⟩ := h hlacks
    rw [substitute, Traced.result_bind, bind_eq_ok] at hx
    obtain ⟨values', hvalues', hx⟩ := hx
    obtain ⟨hnames', hgives'⟩ := Resolver.resolveSymbols_eq_ok hvalues'
    obtain rfl := hgives'.eq_of_names hgives (hnames'.trans hnames.symm)
    exact ⟨x, hx⟩

theorem substitute_of_find? (h : p.symbols.find? r.lacks = some s) :
    (p.substitute r).result = .error (.unresolvedSymbol s none) := by
  cases p with
  | number x => exact nomatch h
  | symbolic e =>
      have hvalues : (r.resolveSymbols e.text e.symbols).result
          = .error (.unresolvedSymbol s none) := Resolver.resolveSymbols_of_find? h
      rw [substitute, Traced.result_bind, hvalues]
      rfl

end Parameter

namespace OperationOf

variable {I P Q : Type} {op : Operation Float} {r : Resolver} {f : Fault}

/-- Some parameter of the operation has a symbol without a number. -/
def lacks (op : Operation Float) (r : Resolver) : Bool := op.parameters.any fun p => p.lacks r

/-- The parameters are scanned like a list, whatever stands between them. -/
theorem map_parameters_traverse {ε : Type} (f : P → Except ε Q) (op : OperationOf I P) :
    (op.traverseParameters f).map parameters = op.parameters.mapM f := by
  cases op with
  | angle _ _ θ | controlledPhase _ _ θ | interaction _ _ θ | globalPhase θ =>
      change _ = [θ].mapM f
      rw [traverseParameters, List.mapM_cons]
      cases f θ <;> rfl
  | call n qs ps =>
      change _ = ps.mapM f
      rw [traverseParameters]
      cases ps.mapM f <;> rfl
  | _ => rfl

theorem map_parameters_substitute (op : Operation Float) (r : Resolver) :
    (op.substitute r).result.map parameters
      = op.parameters.mapM fun p => (p.substitute r).result >>= fun x => .ok (.number x) := by
  rw [result_substitute, map_parameters_traverse]

theorem exists_number (hreal : ∀ p ∈ op.parameters, p.IsRealUnder r) :
    ∀ p ∈ op.parameters, p.lacks r = false →
      ∃ q : Parameter Float, ((p.substitute r).result >>= fun x => .ok (.number x)) = .ok q := by
  intro p hp hlacks
  obtain ⟨x, hx⟩ := Parameter.isRealUnder_iff.1 (hreal p hp) hlacks
  refine ⟨.number x, ?_⟩
  rw [hx]
  rfl

theorem exists_substitute (hreal : ∀ p ∈ op.parameters, p.IsRealUnder r) (h : op.lacks r = false) :
    ∃ op', (op.substitute r).result = .ok op' := by
  rw [lacks, List.any_eq_false] at h
  obtain ⟨ps, hps⟩ := exists_mapM_eq_ok fun p hp =>
    exists_number hreal p hp (Bool.eq_false_iff.2 (h p hp))
  exact exists_of_map_eq_ok ((map_parameters_substitute op r).trans hps)

theorem substitute_of_find? {p : Parameter Float} (hreal : ∀ p ∈ op.parameters, p.IsRealUnder r)
    (h : op.parameters.find? (fun p => p.lacks r) = some p) (hp : (p.substitute r).result = .error f) :
    (op.substitute r).result = .error f := by
  have hnumber : ((p.substitute r).result >>= fun x => .ok (.number x))
      = (.error f : Except Fault (Parameter Float)) := by
    rw [hp]
    rfl
  have hfailure := mapM_eq_error_of_find? h (exists_number hreal) hnumber
  exact eq_error_of_map ((map_parameters_substitute op r).trans hfailure)

end OperationOf

namespace Circuit

variable {c : Circuit Float} {r : Resolver} {f : Fault}

/-- Some operation of the circuit has a symbol without a number. -/
def lacks (c : Circuit Float) (r : Resolver) : Bool := c.operations.any fun op => op.lacks r

/-- All parameters evaluate to real numbers where the resolver has numbers for their symbols. -/
def IsRealUnder (c : Circuit Float) (r : Resolver) : Prop :=
  ∀ op ∈ c.operations, ∀ p ∈ op.parameters, p.IsRealUnder r

theorem any_symbols (c : Circuit Float) (r : Resolver) : c.symbols.any r.lacks = c.lacks r := by
  rw [symbols, List.any_flatMap]
  exact congrArg c.operations.any (funext fun op => List.any_flatMap)

theorem exists_substitute (hreal : c.IsRealUnder r) (h : c.lacks r = false) :
    ∃ made, (c.substitute r).result = .ok made := by
  rw [lacks, List.any_eq_false] at h
  obtain ⟨ops, hops⟩ := exists_mapM_eq_ok fun op hop =>
    OperationOf.exists_substitute (hreal op hop) (Bool.eq_false_iff.2 (h op hop))
  refine ⟨⟨ops⟩, ?_⟩
  rw [result_substitute, hops]
  rfl

theorem substitute_of_find? {op : Operation Float} (hreal : c.IsRealUnder r)
    (h : c.operations.find? (fun op => op.lacks r) = some op)
    (hop : (op.substitute r).result = .error f) : (c.substitute r).result = .error f := by
  have hoperations := mapM_eq_error_of_find? (f := fun op => (op.substitute r).result) h
    (fun op' hop' hlacks => OperationOf.exists_substitute (hreal op' hop') hlacks) hop
  rw [result_substitute, hoperations]
  rfl

end Circuit

end CircuitIR
