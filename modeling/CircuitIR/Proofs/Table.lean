import CircuitIR.Datum.Equality
import CircuitIR.Operation.Remapping
import Mathlib.Data.Int.Notation
import Mathlib.Data.List.Nodup

/-!
# Tables with different keys

A table is a list of entries in the order of insertion. Where no key occurs twice, looking up a key is the
same as finding its entry, and building a table anew from its entries changes nothing.
-/

namespace CircuitIR

section Lookup

variable {α β : Type} [BEq α] [LawfulBEq α] {es : List (α × β)} {k : α} {v : β}

theorem lookup_eq_some_iff (hes : (es.map (·.1)).Nodup) : es.lookup k = some v ↔ (k, v) ∈ es := by
  induction es with
  | nil => simp
  | cons e es ih =>
      obtain ⟨l, w⟩ := e
      rw [List.map_cons, List.nodup_cons] at hes
      rw [List.lookup_cons, List.mem_cons, Prod.mk.injEq]
      by_cases hk : k = l
      · have hnot : (l, v) ∉ es := fun h => hes.1 (List.mem_map.2 ⟨(l, v), h, rfl⟩)
        simp [hk, hnot, eq_comm]
      · have hbeq : (k == l) = false := beq_eq_false_iff_ne.2 hk
        rw [hbeq, ih hes.2]
        simp [hk]

theorem map_lookup_zip {ks : List α} {vs : List β} (hks : ks.Nodup)
    (hlength : ks.length = vs.length) :
    ks.map (fun k => List.lookup k (ks.zip vs)) = vs.map some := by
  have hkeys : ((ks.zip vs).map (·.1)).Nodup := by
    rwa [List.map_fst_zip (Nat.le_of_eq hlength)]
  refine List.ext_getElem (by simp [hlength]) fun i hi _ => ?_
  rw [List.length_map] at hi
  rw [List.getElem_map, List.getElem_map, lookup_eq_some_iff hkeys]
  exact List.mem_of_getElem (i := i) (h := by simpa [hlength] using hi) (by simp)

theorem filterMap_lookup_zip {ks : List α} {vs : List β} (hks : ks.Nodup)
    (hlength : ks.length = vs.length) :
    ks.filterMap (fun k => (List.lookup k (ks.zip vs)).map fun v => (k, v)) = ks.zip vs := by
  have hfound : ks.map (fun k => (List.lookup k (ks.zip vs)).map fun v => (k, v))
      = (ks.zip vs).map some := by
    have hlookup := map_lookup_zip hks hlength
    refine List.ext_getElem (by simp [hlength]) fun i hi hi' => ?_
    have hvalue := congrArg (fun xs => xs[i]?) hlookup
    rw [List.length_map] at hi hi'
    have hvs : i < vs.length := hlength ▸ hi
    simp only [List.getElem?_map, List.getElem?_eq_getElem hi, List.getElem?_eq_getElem hvs,
      Option.map_some, Option.some_inj] at hvalue
    rw [List.getElem_map, List.getElem_map, hvalue, Option.map_some, List.getElem_zip]
  calc ks.filterMap (fun k => (List.lookup k (ks.zip vs)).map fun v => (k, v))
      = (ks.map fun k => (List.lookup k (ks.zip vs)).map fun v => (k, v)).filterMap id := by
        rw [List.filterMap_map, Function.id_comp]
    _ = ((ks.zip vs).map some).filterMap id := by rw [hfound]
    _ = ks.zip vs := by rw [List.filterMap_map, Function.id_comp, List.filterMap_some]

end Lookup

namespace Datum

@[simp]
theorem equal_text (s t : String) : (text s).equal (text t) = (s == t) := rfl

theorem lookUpText_map (es : List (String × Datum)) (key : String) :
    lookUpText (es.map fun e => (text e.1, e.2)) key = es.lookup key := by
  induction es with
  | nil => rfl
  | cons e es ih =>
      obtain ⟨k, d⟩ := e
      rw [lookUpText, lookUp] at ih ⊢
      rw [List.map_cons, List.find?_cons, List.lookup_cons, equal_text, Bool.beq_comm]
      cases key == k with
      | true => rfl
      | false => exact ih

end Datum

namespace ReadoutTable

variable {t : ReadoutTable} {k v : ℤ}

theorem mem_keys_set {l : ℤ} : l ∈ (set k v t).map (·.1) ↔ l = k ∨ l ∈ t.map (·.1) := by
  induction t with
  | nil => simp [set]
  | cons e t ih =>
      obtain ⟨m, w⟩ := e
      rw [set]
      by_cases hm : m = k
      · subst hm
        rw [if_pos rfl, List.map_cons, List.map_cons, List.mem_cons, ← or_assoc, or_self]
      · rw [if_neg hm, List.map_cons, List.map_cons, List.mem_cons, List.mem_cons, ih]
        exact or_left_comm

theorem nodup_keys_set (ht : (t.map (·.1)).Nodup) : ((set k v t).map (·.1)).Nodup := by
  induction t with
  | nil => exact List.nodup_singleton k
  | cons e t ih =>
      obtain ⟨m, w⟩ := e
      rw [List.map_cons, List.nodup_cons] at ht
      rw [set]
      by_cases hm : m = k
      · rw [if_pos hm, List.map_cons, List.nodup_cons]
        exact ht
      · rw [if_neg hm, List.map_cons, List.nodup_cons, mem_keys_set]
        exact ⟨fun h => h.elim hm ht.1, ih ht.2⟩

theorem set_of_not_mem (hk : k ∉ t.map (·.1)) : set k v t = t ++ [(k, v)] := by
  induction t with
  | nil => rfl
  | cons e t ih =>
      obtain ⟨m, w⟩ := e
      rw [List.map_cons, List.mem_cons, not_or] at hk
      rw [set, if_neg (Ne.symm hk.1), ih hk.2, List.cons_append]

theorem nodup_keys_ofList (entries : List (ℤ × ℤ)) : ((ofList entries).map (·.1)).Nodup := by
  have hfold : ∀ (es : List (ℤ × ℤ)) (t : ReadoutTable), (t.map (·.1)).Nodup →
      ((es.foldl (fun t e => set e.1 e.2 t) t).map (·.1)).Nodup := by
    intro es
    induction es with
    | nil => exact fun t ht => ht
    | cons e es ih => exact fun t ht => ih _ (nodup_keys_set ht)
  exact hfold entries [] List.nodup_nil

theorem ofList_eq_self (ht : (t.map (·.1)).Nodup) : ofList t = t := by
  have hfold : ∀ (es t : ReadoutTable), ((t ++ es).map (·.1)).Nodup →
      es.foldl (fun t e => set e.1 e.2 t) t = t ++ es := by
    intro es
    induction es with
    | nil => exact fun t _ => (List.append_nil t).symm
    | cons e es ih =>
        intro t hnodup
        have hnew : e.1 ∉ t.map (·.1) := by
          rw [List.map_append, List.map_cons] at hnodup
          exact fun h => (List.nodup_append.1 hnodup).2.2 _ h _ List.mem_cons_self rfl
        rw [List.foldl_cons, set_of_not_mem hnew, ih, List.append_assoc, List.singleton_append]
        rwa [List.append_assoc, List.singleton_append]
  exact hfold t [] ht

end ReadoutTable

end CircuitIR
