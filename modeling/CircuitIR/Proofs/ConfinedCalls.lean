import CircuitIR.Proofs.ActionEffects

/-!
# Calls are confined

The methods, functions and operators of the library are confined: only adding to a circuit, in one of two ways,
changes a circuit that exists. Two calls are no part of this, since they hand on the list of a circuit: its
shallow copy, and the assignment of its operations.
-/

namespace CircuitIR

open CircuitIR.Action

variable {P : ℕ → Prop} {target : Option ℕ} {args : List Datum}

namespace Action

theorem Confined.pure_of_eq_nil {d : Datum} (h : d.circuitIds = []) :
    Confined P target (do return d) :=
  .pure (Datum.within_of_eq_nil h)

theorem Confined.noArguments {act : Action Datum} (h : Confined P target act) :
    Confined P target (noArguments args act) := by
  unfold Action.noArguments
  split
  · exact h
  · exact .foreign _

theorem Confined.oneArgument {act : Datum → Action Datum}
    (h : ∀ d ∈ args, Confined P target (act d)) : Confined P target (oneArgument args act) := by
  unfold Action.oneArgument
  split
  · exact h _ (List.mem_singleton_self _)
  · exact .foreign _

theorem Confined.twoArguments {act : Datum → Datum → Action Datum}
    (h : ∀ d ∈ args, ∀ e ∈ args, Confined P target (act d e)) :
    Confined P target (twoArguments args act) := by
  unfold Action.twoArguments
  split
  · exact h _ (by simp) _ (by simp)
  · exact .foreign _

end Action

/-! ## Methods -/

theorem OperationOf.confined_invoke (op : Operation Float) (method : String) (args : List Datum) :
    Confined P target (op.invoke method args) := by
  unfold OperationOf.invoke
  split
  · exact .oneArgument fun m _ => .traced_bind fun _ _ => .pure_of_eq_nil rfl
  · exact .oneArgument fun r _ => .except_bind fun _ _ => .traced_bind fun _ _ => .pure_of_eq_nil rfl
  · exact .noArguments (.pure (Datum.within_ofInvolved _))
  · exact .noArguments (.pure_of_eq_nil rfl)
  · exact .noArguments (.pure (Datum.within_operationRecord op))
  · exact .oneArgument fun record _ => .traced_bind fun _ _ => .pure_of_eq_nil rfl
  · split
    · exact .noArguments (.except_bind fun _ _ => .pure_of_eq_nil rfl)
    · exact .foreign _
  · split
    · exact .noArguments (.traced_bind fun _ _ => .circuitDatum _)
    · exact .foreign _
  · exact .foreign _

/-- The circuit that a method of a circuit changes. -/
def CircuitObject.changedBy (c : CircuitObject) (method : String) : Option ℕ :=
  if method = "add" then some c.id else none

theorem CircuitObject.confined_invoke (c : CircuitObject) (method : String) (args : List Datum) :
    Confined P (c.changedBy method) (c.invoke method args) := by
  unfold CircuitObject.invoke
  split
  · exact .oneArgument fun d _ => .except_bind fun _ _ => .extendCircuit_bind _ fun _ =>
      Datum.within_of_eq_nil rfl
  · exact .oneArgument fun m _ => .traced_bind fun _ _ => .circuitDatum _
  · exact .oneArgument fun r _ => .except_bind fun _ _ => .traced_bind fun _ _ => .circuitDatum _
  · exact .noArguments (.pure (Datum.within_ofInvolved _))
  · exact .noArguments (.pure_of_eq_nil rfl)
  · exact .noArguments (.except_bind fun _ _ => .pure_of_eq_nil rfl)
  · exact .oneArgument fun tags _ => .except_bind fun _ _ => .pure_of_eq_nil rfl
  · exact .noArguments (.pure (Datum.within_set.2 (Datum.within_texts _)))
  · exact .noArguments (.pure (Datum.within_circuitRecord _))
  · exact .oneArgument fun record _ => .traced_bind fun _ _ => .circuitDatum _
  · split
    · exact .except_bind fun _ _ => .pure_of_eq_nil rfl
    · exact .except_bind fun _ _ => .pure_of_eq_nil rfl
    · exact .except_bind fun _ _ => .except_bind fun _ _ => .pure_of_eq_nil rfl
    · exact .foreign _
  · exact .foreign _

theorem Register.confined_invoke (reg : Register Float) (method : String) (args : List Datum) :
    Confined P target (reg.invoke method args) := by
  unfold Register.invoke
  split
  · exact .oneArgument fun d _ => .except_bind fun _ _ => .traced_bind fun _ _ => .registerDatum _
  · exact .noArguments (.pure (Datum.within_registerRecord reg))
  · exact .oneArgument fun record _ => .traced_bind fun _ _ => .registerDatum _
  · exact .foreign _

theorem confined_invokeCalculator (id : ℕ) {entries : List (Datum × Datum)}
    (hentries : Datum.EntriesWithin P entries) (method : String) (hargs : ∀ d ∈ args, d.Within P) :
    Confined P target (invokeCalculator id entries method args) := by
  unfold invokeCalculator
  split
  · refine .twoArguments fun name hname d _ => .except_bind fun x _ => .except_bind fun _ _ => ?_
    have hreal : (Datum.real x).Within P := Datum.within_of_eq_nil rfl
    exact .setCalculator_bind id (hentries.setEntry (hargs name hname) hreal)
      (Datum.within_of_eq_nil rfl)
  · refine .oneArgument fun name _ => .except_bind fun _ _ => ?_
    split
    · exact .pure (hentries.lookUp ‹_›)
    · exact .except_bind fun _ _ => .fail _
  · exact .oneArgument fun d _ => .traced_bind fun _ _ => .except_bind fun _ _ =>
      .traced_bind fun _ _ => .pure_of_eq_nil rfl
  · exact .foreign _

/-- The circuit that a method of a value changes. -/
def Datum.changedBy (receiver : Datum) (method : String) : Option ℕ :=
  match receiver with
  | .circuit c => c.changedBy method
  | _ => none

theorem Datum.changedBy_of_ne (receiver : Datum) {method : String} (h : method ≠ "add") :
    receiver.changedBy method = none := by
  cases receiver with
  | circuit c => exact if_neg h
  | _ => rfl

theorem Datum.confined_invoke {receiver : Datum} (h : receiver.Within P) (method : String)
    (hargs : ∀ d ∈ args, d.Within P) :
    Confined P (receiver.changedBy method) (receiver.invoke method args) := by
  cases receiver with
  | operation op => exact op.confined_invoke method args
  | circuit c => exact c.confined_invoke method args
  | register k cs => exact (Register.ofObjects k cs).confined_invoke method args
  | calculator id entries => exact confined_invokeCalculator id (within_calculator.1 h) method hargs
  | resolver values =>
      simp only [Datum.invoke]
      split
      · refine .oneArgument fun name _ => ?_
        split
        · split
          · rename_i hlookup
            obtain ⟨before, after, rfl, -⟩ := List.lookup_eq_some_iff.1 hlookup
            exact .pure (within_resolver.1 h _ (List.mem_append_right before List.mem_cons_self))
          · exact .foreign _
        · exact .foreign _
      · exact .foreign _
  | _ => exact .foreign _

theorem Datum.confined_assign (receiver : Datum) {name : String} (hname : name ≠ "operations") {d : Datum}
    (hd : d.Within P) : Confined P target (receiver.assign name d) := by
  cases receiver with
  | circuit c =>
      simp only [Datum.assign, beq_iff_eq, hname, if_false]
      exact .pure_of_eq_nil rfl
  | calculator id es =>
      simp only [Datum.assign]
      split
      · exact .except_bind fun entries hentries => .setCalculator_bind id (hd.toDict hentries)
          (within_of_eq_nil rfl)
      · exact .foreign _
  | _ => exact .foreign _

/-! ## Construction and functions -/

/-- All circuits in the value of a computation have a property. -/
def YieldsWithin (P : ℕ → Prop) (x : Except Fault Datum) : Prop := ∀ d, x = .ok d → d.Within P

namespace YieldsWithin

theorem ok {d : Datum} (h : d.Within P) : YieldsWithin P (.ok d) := by
  rintro _ ⟨⟩
  exact h

theorem of_eq_nil {d : Datum} (h : d.circuitIds = []) : YieldsWithin P (.ok d) :=
  ok (Datum.within_of_eq_nil h)

theorem error (f : Fault) : YieldsWithin P (.error f) := fun _ h => nomatch h

theorem bind {α : Type} {x : Except Fault α} {f : α → Except Fault Datum}
    (h : ∀ a, YieldsWithin P (f a)) : YieldsWithin P (x >>= f) := by
  intro d hd
  obtain ⟨a, -, hd⟩ := bind_eq_ok.1 hd
  exact h a d hd

theorem ite {c : Prop} [Decidable c] {x y : Except Fault Datum} (hx : YieldsWithin P x)
    (hy : YieldsWithin P y) : YieldsWithin P (if c then x else y) := by
  split
  · exact hx
  · exact hy

end YieldsWithin

theorem Action.confined_construct (className : String) {named : List (String × Datum)}
    (hargs : ∀ d ∈ args, d.Within P) (hnamed : ∀ e ∈ named, e.2.Within P) :
    Confined P target (construct className args named) := by
  have hgiven : ∀ d, (d ∈ args ∨ ∃ e ∈ named, e.2 = d) → d.Within P := by
    rintro d (hd | ⟨e, he, rfl⟩)
    · exact hargs d hd
    · exact hnamed e he
  simp only [construct]
  split
  · refine .except_bind fun values _ => ?_
    split
    · exact .except_bind fun _ _ => .circuitDatum _
    · exact .foreign _
  · refine .except_bind fun values _ => ?_
    split
    · exact .except_bind fun _ _ => .except_bind fun _ _ => .registerDatum _
    · exact .foreign _
  · refine .except_bind fun values hvalues => ?_
    split
    · rename_i d
      have hd : (d.getD (.dict [])).Within P := by
        cases d with
        | none => exact Datum.within_of_eq_nil rfl
        | some d => exact hgiven d (mem_of_bindFields hvalues (List.mem_singleton_self _))
      exact .except_bind fun entries hentries => .calculatorDatum (hd.toDict hentries)
    · exact .foreign _
  · split
    · exact .traced_bind fun _ _ => .pure_of_eq_nil rfl
    · exact .foreign _

theorem confined_asResolver {d : Datum} (h : d.Within P) : Confined P target (asResolver d) := by
  unfold asResolver
  split
  · exact .calculatorDatum (Datum.within_dict.1 h)
  · exact .except_bind fun _ _ => .pure h

theorem confined_decomposeDatum (d : Datum) : Confined P target (decomposeDatum d) := by
  cases d with
  | operation op => exact .traced_bind fun _ _ => .circuitDatum _
  | _ => exact .foreign _

theorem confined_decomposeAll (d : Datum) : Confined P target (decomposeAll d) := by
  unfold decomposeAll
  split
  · exact .traced_bind fun _ _ => .circuitDatum _
  · exact .except_bind fun _ _ => .traced_bind fun _ _ => .traced_bind fun _ _ => .circuitDatum _

theorem confined_decodeAs (className : String) (record : Datum) :
    Confined P target (decodeAs className record) := by
  unfold decodeAs
  split
  · exact .traced_bind fun _ _ => .circuitDatum _
  · exact .traced_bind fun _ _ => .registerDatum _
  · split
    · exact .traced_bind fun _ _ => .pure_of_eq_nil rfl
    · exact .foreign _

theorem yieldsWithin_serialize (d : Datum) : YieldsWithin P d.serialize :=
  .ite (.of_eq_nil rfl) (.bind fun _ => .of_eq_nil rfl)

theorem yieldsWithin_unitaryDatum (d : Datum) : YieldsWithin P (unitaryDatum d) := by
  cases d with
  | circuit | operation => exact .bind fun _ => .of_eq_nil rfl
  | _ => exact .error _

theorem yieldsWithin_reversalDatum (d : Datum) : YieldsWithin P (reversalDatum d) := by
  refine .ite (.of_eq_nil rfl) ?_
  cases d with
  | int n => exact .ite (.error _) (.ok (Datum.within_list.2 (Datum.within_ofNats _)))
  | _ => exact .error _

theorem yieldsWithin_embedDatum (matrix ps n : Datum) : YieldsWithin P (embedDatum matrix ps n) := by
  refine .bind fun ds => ?_
  cases matrix with
  | matrix m =>
      have hembed : ∀ n', YieldsWithin P (do
          let ps ← ds.mapM Datum.toPosition
          return .matrix (← m.embed ps n')) := fun n' => .bind fun ps => .bind fun _ => .of_eq_nil rfl
      have hsize : YieldsWithin P (do
          let n ← n.toIndex
          if n < 0 then throw (.foreign .wrongType)
          let ps ← ds.mapM Datum.toPosition
          return .matrix (← m.embed ps n.toNat)) :=
        .bind fun n' => .ite (.bind fun _ => hembed _) (hembed _)
      have hchecked : ∀ invalid : Bool, YieldsWithin P (do
          if invalid then throw (.invalidPositions (Datum.written (.list ds)) (← n.display))
          let n ← n.toIndex
          if n < 0 then throw (.foreign .wrongType)
          let ps ← ds.mapM Datum.toPosition
          return .matrix (← m.embed ps n.toNat)) :=
        fun invalid => .ite (.bind fun _ => .bind fun _ => hsize) hsize
      refine .ite (.bind fun _ => ?_) ?_
      · exact .bind fun _ => .ite (.bind fun _ => hchecked _) (hchecked true)
      · exact .bind fun _ => .ite (.bind fun _ => hchecked _) (hchecked true)
  | _ => exact .error _

theorem yieldsWithin_loggerDatum (args : List Datum) : YieldsWithin P (loggerDatum args) := by
  unfold loggerDatum
  split
  · exact .of_eq_nil rfl
  · exact .of_eq_nil rfl
  · exact .error _
  · exact .error _

theorem within_handler (h : LogHandler) : h.toDatum.Within P := by
  cases h <;> exact Datum.within_of_eq_nil rfl

theorem yieldsWithin_setupDatum (file env : Datum) : YieldsWithin P (setupDatum file env) := by
  have hdict : ∀ handlers : List LogHandler, YieldsWithin P (.ok (.dict (Logging.rootLogger.entries ++
      [(.text "handlers", .list (handlers.map LogHandler.toDatum)),
        (.text "again_same", .bool true)]))) := by
    refine fun handlers => .ok ?_
    rw [Datum.within_dict, Datum.EntriesWithin, List.forall_mem_append, List.forall_mem_cons,
      List.forall_mem_singleton]
    refine ⟨?_, ⟨Datum.within_of_eq_nil rfl, ?_⟩, Datum.within_of_eq_nil rfl, Datum.within_of_eq_nil rfl⟩
    · exact Datum.within_dict.1 (Datum.within_of_eq_nil rfl)
    · exact Datum.within_list.2 (List.forall_mem_map.2 fun h _ => within_handler h)
  cases file with
  | null | text => exact hdict _
  | _ => exact .bind fun b => .ite (.bind fun _ => hdict _) (.bind fun _ => hdict _)

/-- The passes call methods that change nothing. -/
theorem confined_pass {receiver : Datum} {method : String} (h : receiver.Within P)
    (hargs : ∀ d ∈ args, d.Within P) (hmethod : method ≠ "add") :
    Confined P target (receiver.invoke method args) :=
  .of_none (receiver.changedBy_of_ne hmethod ▸ Datum.confined_invoke h method hargs)

/-- A function copies a circuit without its list, or a container with circuits in it. -/
def Action.functionLeaks (name : String) (args : List Datum) : Bool :=
  match name, args with
  | "copy", [.circuit _] => true
  | "deepcopy", [.circuit _] => false
  | "deepcopy", [.register _ _] => false
  | "deepcopy", [d] => !d.circuitIds.isEmpty
  | _, _ => false

theorem confined_shallowCopy {d : Datum} (h : d.Within P) (hleaks : functionLeaks "copy" [d] = false) :
    Confined P target (shallowCopy d) := by
  cases d with
  | circuit c => exact nomatch hleaks
  | _ => exact .pure h

theorem confined_function (name : String) (hargs : ∀ d ∈ args, d.Within P)
    (hleaks : functionLeaks name args = false) : Confined P target (function name args) := by
  unfold function
  -- the bullets are in the order of the functions
  split
  · exact .oneArgument fun d _ => .traced_bind fun _ _ => .pure (Datum.within_ofParameter _)
  · exact .oneArgument fun d _ => .pure_of_eq_nil rfl
  · exact .oneArgument fun d _ => .except (yieldsWithin_serialize d)
  · exact .twoArguments fun d _ r _ => .except_bind fun _ _ => .traced_bind fun _ _ =>
      .pure_of_eq_nil rfl
  · exact .oneArgument fun d hd => confined_asResolver (hargs d hd)
  · exact .oneArgument fun record _ => .traced_bind fun _ _ => .pure_of_eq_nil rfl
  · exact .twoArguments fun d hd r hr => confined_pass (hargs d hd)
      (List.forall_mem_singleton.2 (hargs r hr)) (by decide)
  · exact .twoArguments fun d hd m hm => confined_pass (hargs d hd)
      (List.forall_mem_singleton.2 (hargs m hm)) (by decide)
  · exact .oneArgument fun d hd => confined_pass (hargs d hd) (List.forall_mem_nil _) (by decide)
  · exact .oneArgument fun d _ => .except (yieldsWithin_unitaryDatum d)
  · exact .oneArgument fun d _ => confined_decomposeDatum d
  · exact .oneArgument fun d _ => confined_decomposeAll d
  · exact .twoArguments fun d _ m hm => .except fun _ he => (hargs m hm).remapItem he
  · exact .twoArguments fun d _ m hm => .except_bind fun _ _ => .except_bind fun _ hes =>
      .pure (Datum.within_tuple.2 ((hargs m hm).remapItems hes))
  · exact .twoArguments fun d _ m _ => .except_bind fun _ _ => .traced_bind fun _ _ =>
      .pure_of_eq_nil rfl
  · exact .oneArgument fun n _ => .except (yieldsWithin_reversalDatum n)
  · split
    · exact .except (yieldsWithin_embedDatum _ _ _)
    · exact .foreign _
  · exact .oneArgument fun d _ => .except_bind fun _ _ => .except_bind fun ops _ =>
      .pure (Datum.within_list.2 (Datum.within_operations ops))
  · exact .twoArguments fun d _ phase _ => .except_bind fun _ _ => .traced_bind fun ops _ =>
      .pure (Datum.within_list.2 (Datum.within_operations ops))
  · unfold Action.oneArgument
    split
    · exact confined_shallowCopy (hargs _ (List.mem_singleton_self _)) hleaks
    · exact .foreign _
  · exact .oneArgument fun d hd => .deepCopy d (hargs d hd)
  · exact .except (yieldsWithin_loggerDatum args)
  · exact .twoArguments fun file _ env _ => .except (yieldsWithin_setupDatum file env)
  · exact .noArguments (.pure_of_eq_nil rfl)
  · split
    · exact .oneArgument fun d _ => confined_decodeAs _ d
    · exact .foreign _

/-! ## Operators -/

theorem Slice.mem_of_mem_select {α : Type} {s : Slice} {xs : List α} {x : α} (h : x ∈ s.select xs) :
    x ∈ xs := by
  obtain ⟨i, -, hi⟩ := List.mem_filterMap.1 h
  rw [List.getElem?_toArray] at hi
  exact List.mem_of_getElem? hi

namespace Datum

variable {a b : Datum}

/-- The circuit that a value is. -/
def circuitId? : Datum → Option ℕ
  | circuit c => some c.id
  | _ => none

theorem confined_add (ha : a.Within P) (hb : b.Within P) : Confined P target (a.add b) := by
  unfold add
  split
  · split
    · exact .circuitDatum _
    · exact .foreign _
  · exact .pure (within_list.2 (List.forall_mem_append.2 ⟨within_list.1 ha, within_list.1 hb⟩))
  · exact .pure (within_tuple.2 (List.forall_mem_append.2 ⟨within_tuple.1 ha, within_tuple.1 hb⟩))
  · exact .pure_of_eq_nil rfl
  · exact .except_bind fun _ _ => .pure_of_eq_nil rfl
  · exact .except_bind fun _ _ => .pure_of_eq_nil rfl
  · exact .except_bind fun _ _ => .except_bind fun _ _ => .pure_of_eq_nil rfl

theorem confined_addTo (ha : a.Within P) (hb : b.Within P) :
    Confined P a.circuitId? (a.addTo b) := by
  unfold addTo
  split
  · split
    · exact .extendCircuit_bind _ fun _ => ha
    · exact .foreign _
  · exact .except_bind fun ds hds => .pure (within_list.2
      (List.forall_mem_append.2 ⟨within_list.1 ha, hb.elements hds⟩))
  · exact confined_add ha hb

theorem confined_slice (ha : a.Within P) (s : Slice) : Confined P target (a.slice s) := by
  cases a with
  | circuit c => exact .circuitDatum _
  | list ds => exact .pure (within_list.2 fun d hd => within_list.1 ha d (Slice.mem_of_mem_select hd))
  | tuple ds => exact .pure (within_tuple.2 fun d hd => within_tuple.1 ha d (Slice.mem_of_mem_select hd))
  | text s => exact .pure_of_eq_nil rfl
  | _ => exact .foreign _

theorem confined_sliceBy (ha : a.Within P) (bounds : List Datum) :
    Confined P target (a.sliceBy bounds) := by
  unfold sliceBy
  split
  · exact .except_bind fun s _ => confined_slice ha s
  · exact .except_bind fun s _ => confined_slice ha s
  · exact .except_bind fun s _ => confined_slice ha s
  · exact .foreign _

end Datum

/-- An operator adds to a list in place. -/
def Action.operatorLeaks (name : String) (args : List Datum) : Bool :=
  match name, args with
  | "iadd", .list _ :: _ => true
  | _, _ => false

/-- The circuit that an operator changes. -/
def Action.operatorTarget (name : String) (args : List Datum) : Option ℕ :=
  if name = "iadd" then args.head?.bind Datum.circuitId? else none

theorem Action.confined_operator (name : String) (hargs : ∀ d ∈ args, d.Within P) :
    Confined P (operatorTarget name args) (operator name args) := by
  unfold operator
  split
  · exact .twoArguments fun a _ b _ => .pure_of_eq_nil rfl
  · exact .twoArguments fun a _ b _ => .pure_of_eq_nil rfl
  · exact .twoArguments fun a ha b hb => Datum.confined_add (hargs a ha) (hargs b hb)
  · unfold Action.twoArguments
    split
    · exact Datum.confined_addTo (hargs _ (by simp)) (hargs _ (by simp))
    · exact .foreign _
  · exact .oneArgument fun a _ => .except_bind fun _ _ => .pure_of_eq_nil rfl
  · exact .oneArgument fun a ha => .except_bind fun ds hds =>
      .pure (Datum.within_list.2 ((hargs a ha).elements hds))
  · exact .oneArgument fun a _ => .pure_of_eq_nil rfl
  · exact .oneArgument fun a _ => .except_bind fun _ _ => .pure_of_eq_nil rfl
  · exact .twoArguments fun a ha i _ => .except fun _ he => (hargs a ha).item he
  · split
    · exact .foreign _
    · exact Datum.confined_sliceBy (hargs _ List.mem_cons_self) _
  · exact .oneArgument fun a _ => .except_bind fun _ _ => .pure_of_eq_nil rfl
  · exact .foreign _

end CircuitIR
