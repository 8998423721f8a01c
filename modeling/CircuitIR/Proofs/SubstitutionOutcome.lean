import CircuitIR.Circuit.Passes
import CircuitIR.Datum.Conversion
import CircuitIR.Proofs.IndexRenaming
import CircuitIR.Proofs.SelfEquality

/-!
# Outcomes of substitution

Whatever is computed for the elements of a list one after the other stops at the first failure. Substitution
computes the numbers of the parameters in this way, and of each parameter the numbers of its symbols. If it
succeeds, it has replaced the parameters by numbers and changed nothing else.
-/

namespace CircuitIR

theorem bind_eq_error {ε α β : Type} {x : Except ε α} {f : α → Except ε β} {e : ε}
    (h : (x >>= f) = .error e) : x = .error e ∨ ∃ a, x = .ok a ∧ f a = .error e := by
  cases x with
  | error e' => exact Or.inl (Except.error.inj h ▸ rfl)
  | ok a => exact Or.inr ⟨a, rfl, h⟩

theorem mapM_eq_error_iff {ε α β : Type} {xs : List α} {f : α → Except ε β} {e : ε} :
    xs.mapM f = .error e
    ↔ ∃ before x after, xs = before ++ x :: after ∧ (∀ y ∈ before, ∃ z, f y = .ok z)
      ∧ f x = .error e := by
  constructor
  · intro h
    induction xs with
    | nil => exact nomatch h
    | cons x xs ih =>
        rw [List.mapM_cons] at h
        obtain hx | ⟨y, hy, h⟩ := bind_eq_error h
        · exact ⟨[], x, xs, rfl, fun _ hy => absurd hy List.not_mem_nil, hx⟩
        · obtain h | ⟨ys, -, h⟩ := bind_eq_error h
          · obtain ⟨before, x', after, rfl, hbefore, hx'⟩ := ih h
            exact ⟨x :: before, x', after, rfl, List.forall_mem_cons.2 ⟨⟨y, hy⟩, hbefore⟩, hx'⟩
          · exact nomatch h
  · rintro ⟨before, x, after, rfl, hbefore, hx⟩
    induction before with
    | nil =>
        rw [List.nil_append, List.mapM_cons, hx]
        rfl
    | cons y before ih =>
        rw [List.forall_mem_cons] at hbefore
        obtain ⟨⟨z, hz⟩, hbefore⟩ := hbefore
        rw [List.cons_append, List.mapM_cons, hz, ok_bind, ih hbefore]
        rfl

theorem exists_error_of_mapM {ε α β : Type} {xs : List α} {f : α → Except ε β} {e : ε}
    (h : xs.mapM f = .error e) : ∃ x ∈ xs, f x = .error e := by
  obtain ⟨before, x, after, rfl, -, hx⟩ := mapM_eq_error_iff.1 h
  exact ⟨x, List.mem_append_right before List.mem_cons_self, hx⟩

theorem exists_ok_of_mapM {ε α β : Type} {xs : List α} {ys : List β} {f : α → Except ε β}
    (h : xs.mapM f = .ok ys) : ∀ x ∈ xs, ∃ y, f x = .ok y := by
  rw [mapM_eq_ok_iff] at h
  induction h with
  | nil => exact fun _ hx => absurd hx List.not_mem_nil
  | cons hy _ ih => exact List.forall_mem_cons.2 ⟨⟨_, hy⟩, ih⟩

namespace Resolver

variable {r : Resolver} {text : String} {names : List String} {values : List (String × Float)}

/-- The resolver gives the listed numbers to the listed names. -/
def Gives (r : Resolver) (values : List (String × Float)) : Prop := ∀ v ∈ values, r v.1 = .value v.2

theorem resolveSymbol_eq_ok {name : String} {x : Float}
    (h : (r.resolveSymbol text name).result = .ok x) : r name = .value x := by
  unfold resolveSymbol at h
  split at h
  · rename_i y hy
    rw [hy, Except.ok.inj h]
  · exact nomatch h
  · exact nomatch h

theorem resolveSymbols_eq_ok (h : (r.resolveSymbols text names).result = .ok values) :
    values.map (·.1) = names ∧ r.Gives values := by
  rw [resolveSymbols, Traced.result_mapM] at h
  induction names generalizing values with
  | nil =>
      obtain rfl : [] = values := Except.ok.inj h
      exact ⟨rfl, fun _ hv => absurd hv List.not_mem_nil⟩
  | cons name names ih =>
      rw [List.mapM_cons, bind_eq_ok] at h
      obtain ⟨v, hv, h⟩ := h
      obtain ⟨rest, hrest, h⟩ := bind_eq_ok.1 h
      obtain rfl : v :: rest = values := Except.ok.inj h
      rw [Traced.result_bind, bind_eq_ok] at hv
      obtain ⟨x, hx, hv⟩ := hv
      obtain rfl : (name, x) = v := Except.ok.inj hv
      obtain ⟨hnames, hgives⟩ := ih hrest
      refine ⟨by rw [List.map_cons, hnames], ?_⟩
      rw [Gives, List.forall_mem_cons]
      exact ⟨resolveSymbol_eq_ok hx, hgives⟩

end Resolver

namespace OperationOf

variable {op op' : Operation Float} {r : Resolver}

/-- A success replaces the parameters by numbers and nothing else. -/
theorem substitute_eq_ok (h : (op.substitute r).result = .ok op') :
    op'.isParametrized = false ∧ op'.variant = op.variant ∧ op'.qubits = op.qubits := by
  have hnumber : ∀ {p q : Parameter Float},
      (do return .number (← p.substitute r) : Traced (Parameter Float)).result = .ok q →
        q.isSymbolic = false := by
    intro p q hq
    rw [Traced.result_bind, bind_eq_ok] at hq
    obtain ⟨x, -, hq⟩ := hq
    rw [← Except.ok.inj hq]
    rfl
  cases op with
  | angle g q θ | controlledPhase c t θ | interaction g qs θ | globalPhase θ =>
      rw [substitute, traverseParameters, Traced.result_bind, bind_eq_ok] at h
      obtain ⟨p, hp, h⟩ := h
      obtain rfl := Except.ok.inj h
      refine ⟨?_, rfl, rfl⟩
      rw [isParametrized, parameters, List.any_cons, hnumber hp]
      rfl
  | call n qs ps =>
      rw [substitute, traverseParameters, Traced.result_bind, Traced.result_mapM, bind_eq_ok] at h
      obtain ⟨ps', hps, h⟩ := h
      obtain rfl := Except.ok.inj h
      refine ⟨?_, rfl, rfl⟩
      rw [isParametrized, parameters, List.any_eq_false]
      intro p hp
      rw [forall_of_mapM_eq_ok (fun _ _ _ => hnumber) hps p hp]
      exact Bool.false_ne_true
  | _ =>
      obtain rfl := Except.ok.inj h
      exact ⟨rfl, rfl, rfl⟩

end OperationOf

namespace Circuit

variable {c d : Circuit Float} {r : Resolver}

theorem substitute_eq_ok (h : (c.substitute r).result = .ok d) :
    d.isParametrized = false
      ∧ d.operations.map (fun op => op.variant) = c.operations.map fun op => op.variant := by
  rw [substitute, Traced.result_bind, Traced.result_mapM, bind_eq_ok] at h
  obtain ⟨ops, hops, h⟩ := h
  obtain rfl := Except.ok.inj h
  constructor
  · rw [isParametrized, List.any_eq_false]
    intro op hop
    have hconcrete := forall_of_mapM_eq_ok (P := fun op => op.isParametrized = false)
      (fun _ _ _ hop' => (OperationOf.substitute_eq_ok hop').1) hops op hop
    rw [hconcrete]
    exact Bool.false_ne_true
  · exact map_eq_of_mapM_eq_ok (fun _ _ hop => (OperationOf.substitute_eq_ok hop).2.1) hops

end Circuit

end CircuitIR
