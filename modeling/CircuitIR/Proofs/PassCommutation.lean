import CircuitIR.Proofs.DecomposableCircuits
import CircuitIR.Proofs.SubstitutionOutcome

/-!
# Substitution and the other passes

The angle of an interaction reaches one of its gates as it stands, and no other gate that decompositions emit
has a symbol. So circuits can be substituted before or after they are decomposed, with the same result or the
same fault; and since a substitution keeps the qubits, it can be made before or after a remapping.
-/

namespace CircuitIR

section Interaction

variable {I R : Type}

theorem isParametrized_cnotLadder (qs : List I) :
    ∀ op ∈ (cnotLadder qs : List (OperationOf I (Parameter R))), op.isParametrized = false := by
  match qs with
  | [] => exact fun _ h => absurd h List.not_mem_nil
  | [a] => exact fun _ h => absurd h List.not_mem_nil
  | a :: b :: qs => exact List.forall_mem_cons.2 ⟨rfl, isParametrized_cnotLadder (b :: qs)⟩

/-- The gates of an interaction do not depend on its angle, apart from one rotation by it. -/
theorem Interaction.exists_rotation [Scalar R] (g : Interaction) {qs : List I} (hne : qs ≠ []) :
    ∃ before after : List (OperationOf I (Parameter R)),
      (∀ op ∈ before, op.isParametrized = false) ∧ (∀ op ∈ after, op.isParametrized = false)
        ∧ ∀ θ, g.gates qs θ = before ++ .angle .rotateZ (qs.getLast hne) θ :: after := by
  set ladder : List (OperationOf I (Parameter R)) := cnotLadder qs
  set basis : List (OperationOf I (Parameter R)) := qs.map fun q => .fixed .hadamard q
  have hladder : ∀ op ∈ ladder, op.isParametrized = false := isParametrized_cnotLadder qs
  have hbasis : ∀ op ∈ basis, op.isParametrized = false := by
    intro op hop
    obtain ⟨q, -, rfl⟩ := List.mem_map.1 hop
    rfl
  have hreverse : ∀ op ∈ ladder.reverse, op.isParametrized = false := fun op hop =>
    hladder op (List.mem_reverse.1 hop)
  have hlast : ∀ θ, (qs.getLast?.map fun q => OperationOf.angle .rotateZ q θ).toList
      = [(.angle .rotateZ (qs.getLast hne) θ : OperationOf I (Parameter R))] := by
    intro θ
    rw [List.getLast?_eq_some_getLast hne]
    rfl
  cases g with
  | zz =>
      refine ⟨ladder, ladder.reverse, hladder, hreverse, fun θ => ?_⟩
      rw [gates, hlast, List.append_assoc, List.singleton_append]
  | ms =>
      refine ⟨basis ++ ladder, ladder.reverse ++ basis, List.forall_mem_append.2 ⟨hbasis, hladder⟩,
        List.forall_mem_append.2 ⟨hreverse, hbasis⟩, fun θ => ?_⟩
      simp only [gates, hlast, List.append_assoc, List.cons_append]
      rfl

end Interaction

namespace OperationOf

section Traversal

variable {I J P Q : Type} {m : Type → Type} [Monad m] [LawfulMonad m]

theorem traverseParameters_mapIndices (f g : I → J) (k : P → m Q) (op : OperationOf I P) :
    (op.mapIndices f g).traverseParameters k
      = (op.traverseParameters k >>= fun op' => pure (op'.mapIndices f g)) := by
  cases op <;> simp [mapIndices, traverseParameters]

end Traversal

variable {op op' : Operation Float} {r : Resolver}

theorem substitute_mapIndices (f g : ℕ → ℕ) (op : Operation Float) (r : Resolver) :
    ((op.mapIndices f g).substitute r).result
      = ((op.substitute r).result >>= fun op' => .ok (op'.mapIndices f g)) := by
  rw [substitute, traverseParameters_mapIndices, Traced.result_bind]
  rfl

theorem substitute_of_concrete (h : op.isParametrized = false) (r : Resolver) :
    (op.substitute r).result = .ok op := by
  have hnumber : ∀ p : Parameter Float, p.isSymbolic = false →
      (do return .number (← p.substitute r) : Traced (Parameter Float)).result = .ok p := by
    intro p hp
    cases p with
    | number x => rfl
    | symbolic e => exact nomatch hp
  cases op with
  | angle g q θ | controlledPhase c t θ | interaction g qs θ | globalPhase θ =>
      have hθ : θ.isSymbolic = false := by simpa [isParametrized, parameters] using h
      rw [substitute, traverseParameters, Traced.result_bind, hnumber θ hθ]
      rfl
  | call n qs ps =>
      have hps : ∀ p ∈ ps, p.isSymbolic = false := by
        simpa [isParametrized, parameters] using h
      rw [substitute, traverseParameters, Traced.result_bind, Traced.result_mapM,
        mapM_eq_ok fun p hp => hnumber p (hps p hp), List.map_id']
      rfl
  | _ => rfl

theorem mapM_substitute_of_concrete {ops : List (Operation Float)}
    (h : ∀ op ∈ ops, op.isParametrized = false) (r : Resolver) :
    (ops.mapM fun op => (op.substitute r).result) = .ok ops := by
  rw [mapM_eq_ok fun op hop => substitute_of_concrete (h op hop) r, List.map_id']

theorem IsDecomposable.substitute (h : op.IsDecomposable)
    (hop : (op.substitute r).result = .ok op') : op'.IsDecomposable := by
  obtain ⟨-, hvariant, hqubits⟩ := substitute_eq_ok hop
  exact h.congr hvariant (congrArg List.length hqubits)

theorem substitute_interaction (g : Interaction) (qs : List ℕ) (θ : Parameter Float) (r : Resolver) :
    ((interaction g qs θ : Operation Float).substitute r).result
      = ((θ.substitute r).result >>= fun x => .ok (interaction g qs (.number x))) := by
  rw [substitute, traverseParameters, Traced.result_bind, Traced.result_bind]
  cases (θ.substitute r).result <;> rfl

theorem mapM_substitute_interaction (g : Interaction) {qs : List ℕ} (hne : qs ≠ [])
    (θ : Parameter Float) (r : Resolver) :
    (g.gates qs θ).any (fun gate => gate.isParametrized)
        = (interaction g qs θ : Operation Float).isParametrized
      ∧ ((g.gates qs θ).mapM fun gate => (gate.substitute r).result)
        = ((θ.substitute r).result >>= fun x => .ok (g.gates qs (.number x))) := by
  obtain ⟨before, after, hbefore, hafter, hgates⟩ := g.exists_rotation (R := Float) hne
  have hrotation : ((angle .rotateZ (qs.getLast hne) θ : Operation Float).substitute r).result
      = ((θ.substitute r).result >>= fun x => .ok (angle .rotateZ (qs.getLast hne) (.number x))) := by
    rw [substitute, traverseParameters, Traced.result_bind, Traced.result_bind]
    cases (θ.substitute r).result <;> rfl
  constructor
  · have hbefore' : before.any (fun gate => gate.isParametrized) = false := by simpa using hbefore
    have hafter' : after.any (fun gate => gate.isParametrized) = false := by simpa using hafter
    rw [hgates, List.any_append, List.any_cons, hbefore', hafter', Bool.false_or, Bool.or_false]
    rfl
  · rw [hgates, List.mapM_append, mapM_substitute_of_concrete hbefore, List.mapM_cons,
      mapM_substitute_of_concrete hafter, hrotation]
    cases (θ.substitute r).result with
    | error e => rfl
    | ok x => exact congrArg Except.ok (hgates (.number x)).symm

/-- What replaces an operation can be substituted instead of the operation. -/
theorem IsDecomposable.expand_substitute (h : op.IsDecomposable) (r : Resolver) :
    ∃ gates, (Circuit.expand op).result = .ok gates
      ∧ gates.any (fun gate => gate.isParametrized) = op.isParametrized
      ∧ (gates.mapM fun gate => (gate.substitute r).result)
        = ((op.substitute r).result >>= fun op' => (Circuit.expand op').result) := by
  cases hmulti : op.variant.isMultiQubitGate with
  | false =>
      refine ⟨[op], expand_other hmulti, by simp, ?_⟩
      rw [List.mapM_cons]
      cases hop : (op.substitute r).result with
      | error e => rfl
      | ok op' =>
          have hmulti' : op'.variant.isMultiQubitGate = false :=
            (substitute_eq_ok hop).2.1 ▸ hmulti
          exact (expand_other hmulti').symm
  | true =>
      obtain ⟨gates, hgates, hexpand⟩ := h.expand_multi hmulti
      refine ⟨gates, hexpand, ?_⟩
      cases op with
      | interaction g qs θ =>
          obtain rfl : g.gates qs θ = gates := Option.some.inj hgates
          have hne : qs ≠ [] := h.nonempty rfl
          obtain ⟨hsymbolic, hsubstitute⟩ := mapM_substitute_interaction g hne θ r
          refine ⟨hsymbolic, ?_⟩
          rw [hsubstitute, substitute_interaction]
          cases (θ.substitute r).result with
          | error e => rfl
          | ok x =>
              have hmade : (interaction g qs (.number x) : Operation Float).qubits ≠ [] := hne
              exact (decompose_result rfl hmade rfl).symm
      | multiControlledNot | fourier =>
          have hconcrete : ∀ gate ∈ gates, gate.isParametrized = false := by
            intro gate hgate
            rw [isParametrized, List.any_eq_false]
            intro p hp hsymbolic
            exact absurd (mem_parameters_of_elementary rfl hgates gate hgate p hp hsymbolic)
              List.not_mem_nil
          refine ⟨?_, ?_⟩
          · rw [List.any_eq_false.2 (by simpa using hconcrete)]
            rfl
          · rw [mapM_substitute_of_concrete hconcrete, substitute_of_concrete rfl]
            exact hexpand.symm
      | _ => exact absurd hmulti Bool.false_ne_true

end OperationOf

namespace Circuit

/-- The parts of the operations, substituted, are the parts of the substituted operations. -/
theorem mapM_substitute_parts {ops : List (Operation Float)} (h : ∀ op ∈ ops, op.IsDecomposable)
    (r : Resolver) : ∃ parts, (ops.mapM fun op => (expand op).result) = .ok parts
      ∧ parts.flatten.any (fun op => op.isParametrized) = ops.any (fun op => op.isParametrized)
      ∧ (parts.flatten.mapM fun op => (op.substitute r).result)
        = ((ops.mapM fun op => (op.substitute r).result) >>= fun ops' =>
            (ops'.mapM fun op => (expand op).result) >>= fun parts' => .ok parts'.flatten) := by
  induction ops with
  | nil => exact ⟨[], rfl, rfl, rfl⟩
  | cons op ops ih =>
      rw [List.forall_mem_cons] at h
      obtain ⟨gates, hgates, hsymbolic, hfirst⟩ := h.1.expand_substitute r
      obtain ⟨parts, hparts, hsymbolicRest, hrest⟩ := ih h.2
      refine ⟨gates :: parts, ?_, ?_, ?_⟩
      · rw [List.mapM_cons, hgates, hparts]
        rfl
      · rw [List.flatten_cons, List.any_append, hsymbolic, hsymbolicRest, List.any_cons]
      · rw [List.flatten_cons, List.mapM_append, hfirst, hrest, List.mapM_cons]
        -- a fault of the first operation comes first on both sides
        cases hop : (op.substitute r).result with
        | error e => simp only [error_bind]
        | ok op' =>
            obtain ⟨gates', hgates'⟩ := (h.1.substitute hop).exists_expand
            simp only [ok_bind, hgates']
            cases (ops.mapM fun op => (op.substitute r).result) with
            | error e => rfl
            | ok ops' =>
                simp only [ok_bind, bind_assoc, pure_bind, List.mapM_cons, hgates']
                cases ops'.mapM fun op => (expand op).result <;> rfl

/-- A circuit can be substituted after it is decomposed. -/
theorem decompose_substitute {c : Circuit Float} (hc : ∀ op ∈ c.operations, op.IsDecomposable)
    (r : Resolver) :
    (do (← c.decompose).substitute r).result = (do (← c.substitute r).decompose).result
      ∧ ∃ d, c.decompose.result = .ok d ∧ d.isParametrized = c.isParametrized := by
  obtain ⟨parts, hparts, hsymbolic, hsubstitute⟩ := mapM_substitute_parts hc r
  have hd : c.decompose.result = .ok ⟨parts.flatten⟩ := by
    rw [result_decompose, hparts]
    rfl
  refine ⟨?_, ⟨parts.flatten⟩, hd, hsymbolic⟩
  rw [Traced.result_bind, Traced.result_bind, hd, ok_bind, result_substitute, result_substitute,
    hsubstitute]
  simp only [bind_assoc, ok_bind, result_decompose]

end Circuit

namespace OperationOf

variable {op op' made : Operation Float} {r : Resolver} {entries : List (ℤ × ℤ)}

theorem involved_congr (hvariant : op'.variant = op.variant) (hqubits : op'.qubits = op.qubits) :
    op'.involved = op.involved := by
  cases op with
  | globalPhase | setMeasurements | definition | repeatedMeasurement =>
      cases op' with
      | globalPhase | setMeasurements | definition | repeatedMeasurement =>
          first
            | rfl
            | exact nomatch hvariant
      | _ => exact nomatch hvariant
  | _ =>
      cases op' with
      | globalPhase | setMeasurements | definition | repeatedMeasurement => exact nomatch hvariant
      | _ => exact congrArg (fun qs => Involved.finite (Involved.ofList qs)) hqubits

/-- An operation that can be remapped and substituted can be remapped and substituted in any order. -/
theorem remap_substitute (hremap : (op.remap (.ofList entries)).result = .ok op')
    (hmade : (op.substitute r).result = .ok made) :
    ∃ both, (op'.substitute r).result = .ok both
      ∧ (made.remap (.ofList entries)).result = .ok both := by
  obtain ⟨-, hvariant, hqubits⟩ := substitute_eq_ok hmade
  have hinvolved := involved_congr hvariant hqubits
  cases hkind : op.involved with
  | finite qs =>
      have hfinite := involved_eq_finite hkind
      obtain ⟨hdistinct, hrenames, rfl⟩ := remap_eq_ok hfinite hremap
      refine ⟨made.mapIndices (QubitMap.image entries) id, ?_, ?_⟩
      · rw [substitute_mapIndices, hmade]
        rfl
      · rw [← hqubits] at hdistinct hrenames
        exact remap_result (involved_eq_finite (hinvolved.trans hkind)) hdistinct hrenames
  | none =>
      have hself : ∀ {op : Operation Float}, op.involved = .none →
          op.remap (.ofList entries) = pure op := by
        intro op h
        cases op with
        | globalPhase | setMeasurements | definition => rfl
        | _ => exact nomatch h
      rw [hself hkind] at hremap
      obtain rfl := Except.ok.inj hremap
      exact ⟨made, hmade, by rw [hself (hinvolved.trans hkind)]; rfl⟩
  | all =>
      cases op with
      | repeatedMeasurement s k t =>
          obtain rfl := Except.ok.inj hmade
          obtain ⟨hvariant', -, -⟩ := remap_keeps hremap
          cases op' with
          | repeatedMeasurement s' k' t' => exact ⟨_, rfl, hremap⟩
          | _ => exact nomatch hvariant'
      | _ => exact nomatch hkind

end OperationOf

namespace Circuit

variable {c c' made : Circuit Float} {r : Resolver} {entries : List (ℤ × ℤ)}

theorem remap_substitute (hremap : (c.remap (.ofList entries)).result = .ok c')
    (hmade : (c.substitute r).result = .ok made) :
    ∃ both, (c'.substitute r).result = .ok both
      ∧ (made.remap (.ofList entries)).result = .ok both := by
  have hlist : ∀ {ops ops' mades : List (Operation Float)},
      List.Forall₂ (fun op op' => (op.remap (.ofList entries)).result = .ok op') ops ops' →
      List.Forall₂ (fun op op' => (op.substitute r).result = .ok op') ops mades →
      ∃ boths, List.Forall₂ (fun op op' => (op.substitute r).result = .ok op') ops' boths
        ∧ List.Forall₂ (fun op op' => (op.remap (.ofList entries)).result = .ok op') mades boths := by
    intro ops ops' mades hremap hmade
    induction hremap generalizing mades with
    | nil =>
        obtain rfl := List.forall₂_nil_left_iff.1 hmade
        exact ⟨[], .nil, .nil⟩
    | cons hop _ ih =>
        obtain ⟨made, mades, hone, hrest, rfl⟩ := List.forall₂_cons_left_iff.1 hmade
        obtain ⟨both, hboth, hboth'⟩ := OperationOf.remap_substitute hop hone
        obtain ⟨boths, hboths, hboths'⟩ := ih hrest
        exact ⟨both :: boths, .cons hboth hboths, .cons hboth' hboths'⟩
  obtain ⟨boths, hboths, hboths'⟩ := hlist (remap_eq_ok_iff.1 hremap) (substitute_eq_ok_iff.1 hmade)
  exact ⟨⟨boths⟩, substitute_eq_ok_iff.2 hboths, remap_eq_ok_iff.2 hboths'⟩

/-- **Substitution commutes with the other passes.** A decomposable circuit under any resolver has the same
outcome, circuit or fault, whether it is substituted before or after it is decomposed, and it is as
parametrized as its decomposition. A circuit that a table remaps and a resolver makes concrete becomes the
same in both orders. -/
theorem substitute_commutes (c : Circuit Float) (r : Resolver) :
    ((∀ op ∈ c.operations, op.IsDecomposable) →
        (do (← c.decompose).substitute r).result = (do (← c.substitute r).decompose).result
          ∧ ∃ d, c.decompose.result = .ok d ∧ d.isParametrized = c.isParametrized)
      ∧ ∀ entries c' made, (c.remap (.ofList entries)).result = .ok c' →
        (c.substitute r).result = .ok made →
        ∃ both, (c'.substitute r).result = .ok both
          ∧ (made.remap (.ofList entries)).result = .ok both := by
  constructor
  · intro hc
    exact decompose_substitute hc r
  · intro entries c' made hremap hmade
    exact remap_substitute hremap hmade

/-- An interaction by a symbolic angle, next to a gate without an angle. -/
def symbolicInteraction : Circuit Float where
  operations := [.multiControlledNot [3, 1, 2], .interaction .ms [0, 2, 1] (.symbolic (.symbol "x"))]

theorem substitute_commutes_symbolicInteraction :
    (∀ op ∈ symbolicInteraction.operations, op.IsDecomposable)
      ∧ (do (← symbolicInteraction.decompose).substitute (.ofList [("y", 1)])).result
        = .error (.unresolvedSymbol "x" none)
      ∧ (∃ d, symbolicInteraction.decompose.result = .ok d ∧ d.isParametrized = true)
      ∧ ∃ made, (symbolicInteraction.substitute (.ofList [("x", 0.5)])).result = .ok made
        ∧ (do (← symbolicInteraction.decompose).substitute (.ofList [("x", 0.5)])).result
          = made.decompose.result
        ∧ ∃ c' both,
          (symbolicInteraction.remap (.ofList [(0, 2), (1, 0), (2, 1), (3, 7)])).result = .ok c'
          ∧ (c'.substitute (.ofList [("x", 0.5)])).result = .ok both
          ∧ (made.remap (.ofList [(0, 2), (1, 0), (2, 1), (3, 7)])).result = .ok both := by
  have hc : ∀ op ∈ symbolicInteraction.operations, op.IsDecomposable := by
    simp only [symbolicInteraction, List.forall_mem_cons]
    refine ⟨⟨?_, ?_⟩, ⟨?_, ?_⟩, fun _ h => absurd h List.not_mem_nil⟩
    all_goals decide
  obtain ⟨hfault, hsymbolic⟩ := (substitute_commutes symbolicInteraction (.ofList [("y", 1)])).1 hc
  obtain ⟨hpass, hremap⟩ := substitute_commutes symbolicInteraction (.ofList [("x", 0.5)])
  have hc' : (symbolicInteraction.remap (.ofList [(0, 2), (1, 0), (2, 1), (3, 7)])).result
      = .ok ⟨_⟩ := rfl
  have hmade : (symbolicInteraction.substitute (.ofList [("x", 0.5)])).result
      = .ok ⟨[.multiControlledNot [3, 1, 2], .interaction .ms [0, 2, 1] (.number 0.5)]⟩ := rfl
  obtain ⟨both, hboth, hboth'⟩ := hremap _ _ _ hc' hmade
  refine ⟨hc, hfault.trans rfl, hsymbolic, _, hmade, ?_, _, both, hc', hboth, hboth'⟩
  rw [(hpass hc).1, Traced.result_bind, hmade, ok_bind]

end Circuit

end CircuitIR
