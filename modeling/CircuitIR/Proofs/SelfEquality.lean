import CircuitIR.Proofs.Table

/-!
# Values that equal themselves

Equality of operations compares their fields, tables without regard to order and numbers by value. An
operation is equal to itself unless one of its parameters is not a number.
-/

namespace CircuitIR

theorem unpacked_beq_self {x : Float.Model.UnpackedFloat}
    (h : x.isNaN = false) : x.beq x = true := by
  cases x with
  | notANumber => exact absurd h (by decide)
  | infinity s => cases s <;> rfl
  | zero s => rfl
  | finite s m e hm =>
      have hexponent : compare e e = .eq := by simp
      have hmantissa : compare m m = .eq := by simp
      cases s
      all_goals
        delta Float.Model.UnpackedFloat.beq Float.Model.UnpackedFloat.compare
        simp only [hexponent, hmantissa]
        rfl

theorem beq_self_of_isNaN_eq_false {x : Float} (h : x.isNaN = false) : (x == x) = true :=
  unpacked_beq_self h

mutual

theorem Expr.beq_self : ∀ e : Expr, e.beq e = true
  | .number n => by rw [beq, beq_self_eq_true]
  | .constant c => by rw [beq, beq_self_eq_true]
  | .symbol s => by rw [beq, beq_self_eq_true]
  | .power b x => by rw [beq, beq_self b, beq_self x, Bool.and_self]
  | .product es => by rw [beq, beqList_self es]
  | .sum es => by rw [beq, beqList_self es]
  | .apply f es => by rw [beq, beqList_self es, beq_self_eq_true, Bool.and_self]

theorem Expr.beqList_self : ∀ es : List Expr, Expr.beqList es es = true
  | [] => rfl
  | e :: es => by rw [beqList, beq_self e, beqList_self es, Bool.and_self]

end

mutual

theorem Expr.eq_of_beq : ∀ a b : Expr, a.beq b = true → a = b
  | .number m, b, h => by
      cases b with
      | number n => rw [beq_iff_eq.1 h]
      | _ => exact absurd h Bool.false_ne_true
  | .constant c, b, h => by
      cases b with
      | constant d => rw [beq_iff_eq.1 h]
      | _ => exact absurd h Bool.false_ne_true
  | .symbol s, b, h => by
      cases b with
      | symbol t => rw [beq_iff_eq.1 h]
      | _ => exact absurd h Bool.false_ne_true
  | .power x y, b, h => by
      cases b with
      | power z w =>
          rw [beq, Bool.and_eq_true] at h
          rw [eq_of_beq x z h.1, eq_of_beq y w h.2]
      | _ => exact absurd h Bool.false_ne_true
  | .product es, b, h => by
      cases b with
      | product fs => rw [eq_of_beqList es fs h]
      | _ => exact absurd h Bool.false_ne_true
  | .sum es, b, h => by
      cases b with
      | sum fs => rw [eq_of_beqList es fs h]
      | _ => exact absurd h Bool.false_ne_true
  | .apply f es, b, h => by
      cases b with
      | apply g fs =>
          rw [beq, Bool.and_eq_true] at h
          rw [beq_iff_eq.1 h.1, eq_of_beqList es fs h.2]
      | _ => exact absurd h Bool.false_ne_true

theorem Expr.eq_of_beqList : ∀ as bs : List Expr, Expr.beqList as bs = true → as = bs
  | [], [], _ => rfl
  | [], _ :: _, h => absurd h Bool.false_ne_true
  | _ :: _, [], h => absurd h Bool.false_ne_true
  | a :: as, b :: bs, h => by
      rw [beqList, Bool.and_eq_true] at h
      rw [eq_of_beq a b h.1, eq_of_beqList as bs h.2]

end

instance : LawfulBEq Expr where
  rfl := Expr.beq_self _
  eq_of_beq := Expr.eq_of_beq _ _

instance : DecidableEq Expr := instDecidableEqOfLawfulBEq

theorem list_beq_self {α : Type} [BEq α] {xs : List α} (h : ∀ x ∈ xs, (x == x) = true) :
    (xs == xs) = true := by
  induction xs with
  | nil => rfl
  | cons x xs ih =>
      rw [List.cons_beq_cons, h x List.mem_cons_self, ih fun y hy => h y (List.mem_cons_of_mem x hy),
        Bool.and_self]

/-- The parameter is a number or an expression, and not the double that is none. -/
def Parameter.IsDefined : Parameter Float → Prop
  | .number x => x.isNaN = false
  | .symbolic _ => True

theorem Parameter.IsDefined.beq_self {p : Parameter Float} (h : p.IsDefined) : (p == p) = true := by
  cases p with
  | number x => exact beq_self_of_isNaN_eq_false h
  | symbolic e => exact beq_self_eq_true e

theorem ReadoutTable.beq_self {t : ReadoutTable} (ht : (t.map (·.1)).Nodup) : t.beq t = true := by
  rw [beq, beq_self_eq_true, Bool.true_and, List.all_eq_true]
  intro e he
  rw [beq_iff_eq, lookup_eq_some_iff ht]
  exact he

namespace FieldOf

variable {I P : Type}

def parameterList : FieldOf I P → List P
  | .parameter p => [p]
  | .parameters ps => ps
  | _ => []

def HasDistinctKeys : FieldOf I P → Prop
  | .table (some t) => (t.map (·.1)).Nodup
  | _ => True

theorem beq_self {field : FieldOf ℕ (Parameter Float)} (hkeys : field.HasDistinctKeys)
    (hdefined : ∀ p ∈ field.parameterList, p.IsDefined) : (field == field) = true := by
  cases field with
  | qubit q => exact beq_self_eq_true q
  | qubits qs => exact beq_self_eq_true qs
  | parameter p => exact (hdefined p List.mem_cons_self).beq_self
  | parameters ps => exact list_beq_self fun p hp => (hdefined p hp).beq_self
  | text s => exact beq_self_eq_true s
  | count n => exact beq_self_eq_true n
  | flag b => exact beq_self_eq_true b
  | table t =>
      cases t with
      | none => rfl
      | some t => exact ReadoutTable.beq_self hkeys

end FieldOf

namespace OperationOf

/-- What holds of every operation that is built: its own qubits are different, and no qubit occurs twice in
its readout table. -/
structure IsWellFormed {P : Type} (op : OperationOf ℕ P) : Prop where
  distinct : op.qubits.Nodup
  keys : ∀ field ∈ op.fields, field.HasDistinctKeys

theorem flatMap_parameterList {I P : Type} (op : OperationOf I P) :
    op.fields.flatMap FieldOf.parameterList = op.parameters := by
  cases op with
  | call n qs ps => exact List.append_nil ps
  | _ => rfl

theorem beq_self {op : Operation Float} (h : op.IsWellFormed)
    (hdefined : ∀ p ∈ op.parameters, p.IsDefined) : (op == op) = true := by
  have hfields : (op.fields == op.fields) = true := by
    refine list_beq_self fun field hfield => FieldOf.beq_self (h.keys field hfield) fun p hp => ?_
    rw [← flatMap_parameterList] at hdefined
    exact hdefined p (List.mem_flatMap.2 ⟨field, hfield, hp⟩)
  change (op.variant == op.variant && op.fields == op.fields) = true
  rw [hfields, beq_self_eq_true, Bool.and_self]

end OperationOf

theorem Circuit.beq_self {c : Circuit Float} (h : ∀ op ∈ c.operations, op.IsWellFormed)
    (hdefined : ∀ op ∈ c.operations, ∀ p ∈ op.parameters, p.IsDefined) : (c == c) = true :=
  list_beq_self fun op hop => OperationOf.beq_self (h op hop) (hdefined op hop)

end CircuitIR
