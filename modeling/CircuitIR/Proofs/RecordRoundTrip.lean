import CircuitIR.Proofs.RecordFields

/-!
# Decoding of records

The record of an operation names its kind and lists its fields by name. Decoding looks up the kind, binds
the data of the fields by their names and converts them in order, so it restores the operation from every
record whose fields are restored; circuits and registers follow from their parts.
-/

namespace CircuitIR

namespace Variant

theorem ofName?_name (v : Variant) : ofName? v.name = some v := by
  cases v with
  | fixed g => cases g <;> decide +kernel
  | angle g => cases g <;> decide +kernel
  | pair g => cases g <;> decide +kernel
  | interaction g => cases g <;> decide +kernel
  | definition t => cases t <;> decide +kernel
  | _ => decide +kernel

theorem nodup_names (v : Variant) : (v.schema.map (·.1)).Nodup := by
  cases v <;> rw [schema] <;> decide +kernel

theorem nameKey_notMem (v : Variant) : Record.nameKey ∉ v.schema.map (·.1) := by
  cases v <;> rw [schema] <;> decide +kernel

end Variant

/-- Data that are given for all fields by name are bound to the fields in order. -/
theorem bindFields_zip {names : List String} (hnames : names.Nodup) (opt : String → Bool)
    {ds : List Datum} (hlength : names.length = ds.length) :
    bindFields names opt [] (names.zip ds) = .ok (ds.map some) := by
  have hlookup := map_lookup_zip hnames hlength
  have hknown : ((names.zip ds).any fun e => !names.contains e.1) = false := by
    rw [List.any_eq_false]
    intro e he
    have hname : e.1 ∈ names := (List.of_mem_zip he).1
    simp [hname]
  have hvalues : names.zipIdx.map (fun e => (e.1, List.lookup e.1 (names.zip ds)))
      = names.map fun n => (n, List.lookup n (names.zip ds)) := by
    refine List.ext_getElem (by simp) fun i _ _ => ?_
    simp
  have hgiven : ((names.map fun n => (n, List.lookup n (names.zip ds))).any fun e =>
      e.2.isNone && !opt e.1) = false := by
    rw [List.any_eq_false]
    intro e he
    obtain ⟨n, hn, rfl⟩ := List.mem_map.1 he
    have hsome := List.mem_map_of_mem (f := fun k => List.lookup k (names.zip ds)) hn
    rw [hlookup] at hsome
    obtain ⟨d, -, hd⟩ := List.mem_map.1 hsome
    simp [← hd]
  unfold bindFields
  simp only [List.length_nil, List.zip_nil_right, List.map_nil, List.contains_nil, Bool.false_or,
    List.getElem?_nil]
  rw [if_neg (Nat.not_lt_zero _), hknown, if_neg Bool.false_ne_true, hvalues, hgiven,
    if_neg Bool.false_ne_true, List.map_map]
  exact congrArg Except.ok hlookup

namespace OperationOf

theorem kinds_fields {I P : Type} (op : OperationOf I P) :
    op.variant.schema.map (·.2) = op.fields.map FieldOf.kind := by
  cases op <;> rfl

theorem ofFields?_mapIndices {I J P : Type} (f : I → J) (op : OperationOf I P) :
    ofFields? op.variant (op.fields.map (FieldOf.mapIndices f)) = some (op.mapIndices f f) := by
  cases op <;> rfl

/-- The record of an operation with some form of its fields. -/
def recordWith (enc : FieldOf ℕ (Parameter Float) → Datum) (op : Operation Float) : Datum :=
  .dict ((.text Record.nameKey, .text op.name)
    :: op.namedFields.map fun e => (.text e.1, enc e.2))

variable {op : Operation Float} {enc : FieldOf ℕ (Parameter Float) → Datum}

/-- An operation is built from restored fields. -/
theorem construct_fields (hdistinct : op.qubits.Nodup)
    (hfields : ∀ field ∈ op.fields, FieldOf.Restores enc field) :
    (op.variant.construct ((op.fields.map enc).map some)).result = .ok op := by
  have hzip : (op.variant.schema.map (·.2)).zip ((op.fields.map enc).map some)
      = op.fields.map fun field => (field.kind, some (enc field)) := by
    rw [kinds_fields, List.map_map, List.zip_map']
    rfl
  have hcontents : (((op.variant.schema.map (·.2)).zip ((op.fields.map enc).map some)).mapM
      fun e => Variant.fieldContent e.1 e.2).result
        = .ok (op.fields.map (FieldOf.mapIndices Int.ofNat)) := by
    rw [hzip, Traced.result_mapM]
    exact mapM_map_eq_ok hfields
  have hdraft : ofFields? op.variant (op.fields.map (FieldOf.mapIndices Int.ofNat))
      = some op.toDraft := by
    rw [ofFields?_mapIndices, toDraft_eq_mapIndices]
  unfold Variant.construct
  rw [Traced.result_bind]
  refine bind_eq_ok.2 ⟨_, hcontents, ?_⟩
  simp only [hdraft]
  exact validate_toDraft hdistinct

end OperationOf

section Decoding

variable {v : Variant} {entries : List (Datum × Datum)}

theorem Record.decodeOperation_eq (hname : Datum.lookUpText entries nameKey = some (.text v.name)) :
    (decodeOperation (.dict entries)).result = (v.decode (.dict entries)).result := by
  unfold decodeOperation
  simp only [hname, Variant.ofName?_name]
  rfl

theorem Variant.decode_eq (hname : Datum.lookUpText entries Record.nameKey = some (.text v.name)) :
    (v.decode (.dict entries)).result = (v.make [] (v.schema.filterMap fun e =>
      (Datum.lookUpText entries e.1).map fun d => (e.1, d))).result := by
  have hequal : (Datum.text v.name).equal (.text v.name) = true := beq_self_eq_true v.name
  unfold decode
  simp only [hname, Option.getD_some, hequal]
  rfl

/-- The fields of a record are found by their names, none of which is the name of the entry before them. -/
theorem Record.filterMap_lookUpText {names : List String} {ds : List Datum} (hnames : names.Nodup)
    (hlength : names.length = ds.length) (hkey : nameKey ∉ names) (d : Datum) :
    names.filterMap (fun k => (Datum.lookUpText
        (((nameKey, d) :: names.zip ds).map fun e => (.text e.1, e.2)) k).map fun x => (k, x))
      = names.zip ds := by
  refine (List.filterMap_congr fun k hk => ?_).trans (filterMap_lookup_zip hnames hlength)
  have hne : (k == nameKey) = false := by
    rw [beq_eq_false_iff_ne]
    rintro rfl
    exact hkey hk
  rw [Datum.lookUpText_map, List.lookup_cons, hne]

end Decoding

namespace OperationOf

variable {op : Operation Float} {enc : FieldOf ℕ (Parameter Float) → Datum}

/-- **An operation is decoded from every record whose fields are restored.** -/
theorem decode_recordWith (hdistinct : op.qubits.Nodup)
    (hfields : ∀ field ∈ op.fields, FieldOf.Restores enc field) :
    (Record.decodeOperation (op.recordWith enc)).result = .ok op := by
  set names := op.variant.schema.map (·.1) with hnames
  have hlength : names.length = (op.fields.map enc).length := by
    rw [hnames, List.length_map, List.length_map, length_fields]
  set entries : List (String × Datum) :=
    (Record.nameKey, .text op.name) :: names.zip (op.fields.map enc) with hentries
  have hrecord : op.recordWith enc = .dict (entries.map fun e => (.text e.1, e.2)) := by
    rw [recordWith, hentries, List.map_cons, namedFields, List.zip_map_right, List.map_map]
    rfl
  have hname : Datum.lookUpText (entries.map fun e => (.text e.1, e.2)) Record.nameKey
      = some (.text op.variant.name) := by
    rw [Datum.lookUpText_map, hentries, List.lookup_cons_self, name]
  have hnamed : (op.variant.schema.filterMap fun e =>
      (Datum.lookUpText (entries.map fun e => (.text e.1, e.2)) e.1).map fun d => (e.1, d))
        = names.zip (op.fields.map enc) := by
    rw [← Record.filterMap_lookUpText op.variant.nodup_names hlength op.variant.nameKey_notMem,
      List.filterMap_map]
    rfl
  rw [hrecord, Record.decodeOperation_eq hname, Variant.decode_eq hname, hnamed, Variant.make,
    bindFields_zip op.variant.nodup_names op.variant.isOptional hlength]
  exact construct_fields hdistinct hfields

/-- The operation can be stored: its parameters are numbers or are read from their texts. -/
structure IsStorable (op : Operation Float) : Prop extends op.IsWellFormed where
  defined : ∀ p ∈ op.parameters, p.IsDefined
  readable : ∀ p ∈ op.parameters, p.IsReadable

def HasShortKeys (op : Operation Float) : Prop := ∀ field ∈ op.fields, field.HasShortKeys

theorem IsStorable.readable_field (h : op.IsStorable) {field : FieldOf ℕ (Parameter Float)}
    (hfield : field ∈ op.fields) : ∀ p ∈ field.parameterList, p.IsReadable := by
  intro p hp
  have hreadable := h.readable
  rw [← flatMap_parameterList] at hreadable
  exact hreadable p (List.mem_flatMap.2 ⟨field, hfield, hp⟩)

theorem decode_record (h : op.IsStorable) :
    (Record.decodeOperation op.record).result = .ok op := by
  change (Record.decodeOperation (op.recordWith FieldOf.record)).result = _
  exact decode_recordWith h.distinct fun field hfield =>
    FieldOf.restores_record (h.keys field hfield) (h.readable_field hfield)

theorem textKeys?_record (hshort : op.HasShortKeys) :
    op.record.textKeys? = some (op.recordWith FieldOf.textRecord) := by
  have hfields : Datum.textKeysEntries?
      (op.namedFields.map fun e => (.text e.1, e.2.record))
        = some (op.namedFields.map fun e => (.text e.1, e.2.textRecord)) := by
    refine Datum.textKeysEntries?_map (fun e _ => rfl) fun e he => ?_
    exact FieldOf.textKeys?_record (hshort e.2 (List.of_mem_zip he).2)
  change (Datum.textKeysEntries? ((.text Record.nameKey, .text op.name)
    :: op.namedFields.map fun e => (.text e.1, e.2.record))).map Datum.dict = _
  rw [Datum.textKeysEntries?, hfields]
  rfl

theorem decode_textRecord (h : op.IsStorable) (hshort : op.HasShortKeys) :
    (Record.decodeOperation (op.recordWith FieldOf.textRecord)).result = .ok op :=
  decode_recordWith h.distinct fun field hfield =>
    FieldOf.restores_textRecord (h.keys field hfield) (hshort field hfield)
      (h.readable_field hfield)

end OperationOf

namespace Circuit

def recordWith (enc : Operation Float → Datum) (c : Circuit Float) : Datum :=
  .dict [(.text Record.operationsKey, .list (c.operations.map enc))]

variable {c : Circuit Float} {enc enc' : Operation Float → Datum}

theorem decode_recordWith
    (h : ∀ op ∈ c.operations, (Record.decodeOperation (enc op)).result = .ok op) :
    (Record.decodeCircuit (c.recordWith enc)).result = .ok c := by
  have hoperations : ((c.operations.map enc).mapM Record.decodeOperation).result
      = .ok (c.operations.map id) := by
    rw [Traced.result_mapM]
    exact mapM_map_eq_ok h
  rw [List.map_id] at hoperations
  have hfound : Datum.lookUpText [(.text Record.operationsKey, .list (c.operations.map enc))]
      Record.operationsKey = some (.list (c.operations.map enc)) := by
    simp [Datum.lookUpText, Datum.lookUp]
  rw [recordWith, Record.decodeCircuit, hfound]
  change ((c.operations.map enc).mapM Record.decodeOperation >>= fun ops =>
    pure (Circuit.mk ops)).result = _
  rw [Traced.result_bind, hoperations]
  rfl

theorem textKeys?_recordWith (h : ∀ op ∈ c.operations, (enc op).textKeys? = some (enc' op)) :
    (c.recordWith enc).textKeys? = some (c.recordWith enc') := by
  have hoperations := Datum.textKeysAll?_map h
  simp only [recordWith, Datum.textKeys?, Datum.textKeysEntries?, Datum.keyText?, hoperations,
    Option.map_some]

end Circuit

namespace Register

def recordWith (enc : Circuit Float → Datum) (reg : Register Float) : Datum :=
  .dict
    [(.text Record.constantKey, (reg.constant.map enc).getD .null),
      (.text Record.circuitsKey, .list (reg.circuits.map enc))]

/-- The circuits of a register, the constant one first. -/
def allCircuits (reg : Register Float) : List (Circuit Float) := reg.constant.toList ++ reg.circuits

variable {reg : Register Float} {enc enc' : Circuit Float → Datum}

theorem decode_recordWith
    (h : ∀ c ∈ reg.allCircuits, (Record.decodeCircuit (enc c)).result = .ok c) :
    (Record.decodeRegister (reg.recordWith enc)).result = .ok reg := by
  obtain ⟨constant, circuits⟩ := reg
  have hcircuits : ((circuits.map enc).mapM Record.decodeCircuit).result
      = .ok (circuits.map id) := by
    rw [Traced.result_mapM]
    exact mapM_map_eq_ok fun c hc => h c (List.mem_append_right _ hc)
  rw [List.map_id] at hcircuits
  have hkeys : (Record.constantKey == Record.circuitsKey) = false := by decide
  have hconstantFound : ∀ d d' : Datum, Datum.lookUpText
      [(.text Record.constantKey, d), (.text Record.circuitsKey, d')] Record.constantKey = some d := by
    intro d d'
    simp [Datum.lookUpText, Datum.lookUp]
  have hcircuitsFound : ∀ d d' : Datum, Datum.lookUpText
      [(.text Record.constantKey, d), (.text Record.circuitsKey, d')] Record.circuitsKey = some d' := by
    intro d d'
    simp [Datum.lookUpText, Datum.lookUp, hkeys]
  rw [recordWith, Record.decodeRegister]
  simp only [hconstantFound, hcircuitsFound, Option.getD_some]
  cases constant with
  | none =>
      change ((circuits.map enc).mapM Record.decodeCircuit >>= fun cs =>
        pure (Register.mk none cs)).result = _
      rw [Traced.result_bind, hcircuits]
      rfl
  | some c =>
      have hc : (Record.decodeCircuit (enc c)).result = .ok c := h c List.mem_cons_self
      have hcompleted : ((circuits.map enc).mapM Record.decodeCircuit >>= fun cs =>
          pure (Register.mk (some c) cs)).result = .ok ⟨some c, circuits⟩ := by
        rw [Traced.result_bind, hcircuits]
        rfl
      simp only [Option.map_some, Option.getD_some]
      generalize enc c = d at hc
      -- the record of a circuit is not the datum that stands for no circuit
      cases d with
      | null =>
          obtain ⟨f, hfailed⟩ : ∃ f, (Record.decodeCircuit .null).result = .error f := ⟨_, rfl⟩
          rw [hfailed] at hc
          contradiction
      | _ =>
          rw [Traced.result_bind]
          exact bind_eq_ok.2 ⟨c, hc, hcompleted⟩

theorem textKeys?_recordWith (h : ∀ c ∈ reg.allCircuits, (enc c).textKeys? = some (enc' c)) :
    (reg.recordWith enc).textKeys? = some (reg.recordWith enc') := by
  obtain ⟨constant, circuits⟩ := reg
  have hcircuits : Datum.textKeysAll? (circuits.map enc) = some (circuits.map enc') :=
    Datum.textKeysAll?_map fun c hc => h c (List.mem_append_right _ hc)
  have hconstant : ((constant.map enc).getD .null).textKeys?
      = some ((constant.map enc').getD .null) := by
    cases constant with
    | none => rfl
    | some c => exact h c List.mem_cons_self
  simp only [recordWith, Datum.textKeys?, Datum.textKeysEntries?, Datum.keyText?, hcircuits,
    hconstant, Option.map_some]

theorem beq_self (h : ∀ c ∈ reg.allCircuits, (c == c) = true) :
    (reg.constant == reg.constant && reg.circuits == reg.circuits) = true := by
  obtain ⟨constant, circuits⟩ := reg
  have hcircuits : (circuits == circuits) = true :=
    list_beq_self fun c hc => h c (List.mem_append_right _ hc)
  have hconstant : (constant == constant) = true := by
    cases constant with
    | none => rfl
    | some c => exact h c List.mem_cons_self
  rw [hcircuits, hconstant, Bool.and_self]

end Register

def Circuit.IsStorable (c : Circuit Float) : Prop := ∀ op ∈ c.operations, op.IsStorable

def Circuit.HasShortKeys (c : Circuit Float) : Prop := ∀ op ∈ c.operations, op.HasShortKeys

theorem Circuit.decode_record {c : Circuit Float} (h : c.IsStorable) :
    (Record.decodeCircuit c.record).result = .ok c := by
  change (Record.decodeCircuit (c.recordWith OperationOf.record)).result = _
  exact decode_recordWith fun op hop => OperationOf.decode_record (h op hop)

/-- **Decoding inverts encoding.** Operations, circuits and registers that can be stored are decoded from
their records, and from what a JSON document makes of the records if it can hold their keys. -/
theorem Record.decode_encode :
    (∀ op : Operation Float, op.IsStorable →
      (decodeOperation op.record).result = .ok op ∧ (op == op) = true
        ∧ (op.HasShortKeys →
          ∃ d, op.record.textKeys? = some d ∧ (decodeOperation d).result = .ok op))
    ∧ (∀ c : Circuit Float, c.IsStorable →
      (decodeCircuit c.record).result = .ok c ∧ (c == c) = true
        ∧ (c.HasShortKeys →
          ∃ d, c.record.textKeys? = some d ∧ (decodeCircuit d).result = .ok c))
    ∧ ∀ reg : Register Float, (∀ c ∈ reg.allCircuits, c.IsStorable) →
      (decodeRegister reg.record).result = .ok reg
        ∧ (reg.constant == reg.constant && reg.circuits == reg.circuits) = true
        ∧ ((∀ c ∈ reg.allCircuits, c.HasShortKeys) →
          ∃ d, reg.record.textKeys? = some d ∧ (decodeRegister d).result = .ok reg) := by
  have hcircuit : ∀ c : Circuit Float, c.IsStorable → (c == c) = true := fun c h =>
    Circuit.beq_self (fun op hop => (h op hop).toIsWellFormed) fun op hop => (h op hop).defined
  have htext : ∀ c : Circuit Float, c.HasShortKeys → c.record.textKeys?
      = some (c.recordWith fun op => op.recordWith FieldOf.textRecord) := fun c hshort =>
    Circuit.textKeys?_recordWith fun op hop => OperationOf.textKeys?_record (hshort op hop)
  have hdecode : ∀ c : Circuit Float, c.IsStorable → c.HasShortKeys →
      (decodeCircuit (c.recordWith fun op => op.recordWith FieldOf.textRecord)).result = .ok c :=
    fun c h hshort => Circuit.decode_recordWith fun op hop =>
      OperationOf.decode_textRecord (h op hop) (hshort op hop)
  refine ⟨fun op h => ⟨OperationOf.decode_record h,
      OperationOf.beq_self h.toIsWellFormed h.defined, fun hshort => ?_⟩,
    fun c h => ⟨Circuit.decode_record h, hcircuit c h, fun hshort => ?_⟩,
    fun reg h => ⟨?_, ?_, fun hshort => ?_⟩⟩
  · exact ⟨_, OperationOf.textKeys?_record hshort,
      OperationOf.decode_textRecord h hshort⟩
  · exact ⟨_, htext c hshort, hdecode c h hshort⟩
  · change (decodeRegister (reg.recordWith Circuit.record)).result = _
    exact Register.decode_recordWith fun c hc => Circuit.decode_record (h c hc)
  · exact Register.beq_self fun c hc => hcircuit c (h c hc)
  · exact ⟨_, Register.textKeys?_recordWith fun c hc => htext c (hshort c hc),
      Register.decode_recordWith fun c hc => hdecode c (h c hc) (hshort c hc)⟩

/-- A register with a symbolic parameter, a list of parameters and a readout table with a negative key. -/
def mixedRegister : Register Float where
  constant := some ⟨[.angle .rotateX 0 (.symbolic (.symbol "theta")),
    .call "user" [1, 0] [.number 0.25, .symbolic (.symbol "lambda")], .definition .bit "ro" 2 true]⟩
  circuits := [⟨[.fourier [2, 0] false true, .repeatedMeasurement "ro" 100 (some [(1, 0), (-3, 2)])]⟩,
    ⟨[.measure 0 "ro" 1]⟩]

theorem Record.decode_encode_mixedRegister :
    (decodeRegister mixedRegister.record).result = .ok mixedRegister
      ∧ ∃ d, mixedRegister.record.textKeys? = some d
        ∧ (decodeRegister d).result = .ok mixedRegister := by
  have hread : ∀ s ∈ ["theta", "lambda"], (Parameter.symbolic (.symbol s)).IsReadable := by
    intro s hs
    have hformula : Formula.read (Expr.symbol s).text = .ok (.symbol s) := by
      revert s
      decide +kernel
    rw [Parameter.IsReadable, Parameter.read, hformula]
    rfl
  have htheta := hread "theta" (by decide)
  have hlambda := hread "lambda" (by decide)
  have hnumber : (Parameter.number 0.25).IsDefined := by
    change (0.25 : Float).isNaN = false
    decide
  have hsymbolic : ∀ e, (Parameter.symbolic e).IsDefined := fun _ => trivial
  have htable : ReadoutTable.HasShortKeys [(1, 0), (-3, 2)] := by
    rw [ReadoutTable.HasShortKeys]
    decide
  have hstorable : ∀ c ∈ mixedRegister.allCircuits, c.IsStorable := by
    simp only [mixedRegister, Register.allCircuits, Option.toList_some, List.cons_append,
      List.nil_append, List.forall_mem_cons, Circuit.IsStorable]
    refine ⟨⟨?_, ?_, ?_, ?_⟩, ⟨?_, ?_, ?_⟩, ⟨?_, ?_⟩, ?_⟩
    all_goals first
      | exact fun _ h => absurd h List.not_mem_nil
      | refine ⟨⟨by decide, ?_⟩, ?_, ?_⟩ <;>
          simp [OperationOf.fields, FieldOf.HasDistinctKeys, OperationOf.parameters,
            hnumber, hsymbolic, htheta, hlambda]
  have hshort : ∀ c ∈ mixedRegister.allCircuits, c.HasShortKeys := by
    simp [mixedRegister, Register.allCircuits, Circuit.HasShortKeys, OperationOf.HasShortKeys,
      OperationOf.fields, FieldOf.HasShortKeys, htable]
  obtain ⟨hdecode, -, htext⟩ := decode_encode.2.2 mixedRegister hstorable
  exact ⟨hdecode, htext hshort⟩

end CircuitIR
