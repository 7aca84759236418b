import ConstFold.Proofs.Constants
import Mathlib.Data.Finset.Card

/-!
# Tables of variables

What is stored for a variable is filed under the label of the variable, a text.  No two variables have one label,
whatever their names are, so a table that only variables are filed in, as constants are, is a finite map on them.

What such a table holds is told by its history: the pairs that it was made of and then what was stored, in turn
(`Table.Records`).  Storing one more value goes on with the history (`Table.Records.set`), and so does every run
of values (`Table.Records.storeAll`).
-/

namespace ConstFold

variable {α : Type}

/-- The value was stored for the variable, and nothing was stored for it after that. -/
def Latest (history : List (Variable × α)) (v : Variable) (a : α) : Prop :=
  ∃ before after, history = before ++ (v, a) :: after ∧ ∀ pair ∈ after, pair.1 ≠ v

namespace Table

/-- Stores values for variables, one after the other. -/
def storeAll (t : Table α) (pairs : List (Variable × α)) : Table α := pairs.foldl (fun t (v, a) => t.set v.key a) t

/-! ## Histories -/

/-- A table holds what its history says: the last value for each variable, and no more than that. -/
structure Records (t : Table α) (history : List (Variable × α)) : Prop where
  value : ∀ v : Variable, t.get? v.key = history.reverse.lookup v
  size : t.size = (history.map Prod.fst).toFinset.card

theorem latest_iff {history : List (Variable × α)} {v : Variable} {a : α} :
    Latest history v a ↔ history.reverse.lookup v = some a := by
  rw [List.lookup_eq_some_iff]
  constructor
  · rintro ⟨before, after, rfl, hafter⟩
    refine ⟨after.reverse, before.reverse, by simp, fun pair hpair => ?_⟩
    simpa using (hafter pair (List.mem_reverse.1 hpair)).symm
  · rintro ⟨later, earlier, hsplit, hlater⟩
    refine ⟨earlier.reverse, later.reverse, by simpa using congrArg List.reverse hsplit, fun pair hpair heq => ?_⟩
    simpa [heq] using hlater pair (List.mem_reverse.1 hpair)

theorem lookup_reverse_eq_none_iff {history : List (Variable × α)} {v : Variable} :
    history.reverse.lookup v = none ↔ ∀ pair ∈ history, pair.1 ≠ v := by
  rw [List.lookup_eq_none_iff]
  constructor
  · intro h pair hpair heq
    simpa [heq] using h pair (List.mem_reverse.2 hpair)
  · intro h pair hpair
    simpa using (h pair (List.mem_reverse.1 hpair)).symm

/-! ## Runs -/

theorem records_empty : Records (empty : Table α) [] := ⟨fun _ => rfl, rfl⟩

/-- Storing a value goes on with the history. -/
theorem Records.set {t : Table α} {history : List (Variable × α)} (h : t.Records history) (v : Variable) (a : α) :
    (t.set v.key a).Records (history ++ [(v, a)]) := by
  constructor
  · intro w
    rw [get?_set_key, h.value, List.reverse_append, List.reverse_singleton, List.singleton_append,
      Keyed.lookup_cons_eq_ite]
  · have hvariables : ((history ++ [(v, a)]).map Prod.fst).toFinset = insert v (history.map Prod.fst).toFinset := by
      ext w
      simp
    rw [size_set, h.value, h.size, hvariables]
    -- the variable is counted if and only if nothing was stored for it before
    cases hlookup : history.reverse.lookup v with
    | none =>
      have hnew : v ∉ (history.map Prod.fst).toFinset := by
        rw [List.mem_toFinset, List.mem_map]
        rintro ⟨pair, hpair, heq⟩
        exact lookup_reverse_eq_none_iff.1 hlookup pair hpair heq
      rw [Finset.card_insert_of_notMem hnew]
      rfl
    | some b =>
      obtain ⟨before, after, rfl, -⟩ := latest_iff.2 hlookup
      rw [Finset.insert_eq_of_mem (by simp)]
      rfl

theorem Records.storeAll {t : Table α} {history : List (Variable × α)} (h : t.Records history)
    (pairs : List (Variable × α)) : (t.storeAll pairs).Records (history ++ pairs) := by
  induction pairs generalizing t history with
  | nil => rwa [List.append_nil]
  | cons pair rest ih =>
    obtain ⟨v, a⟩ := pair
    have hrest := ih (h.set v a)
    rwa [List.append_assoc, List.singleton_append] at hrest

/-- Making a table of pairs is storing them in turn. -/
theorem ofVariables_eq (pairs : List (Variable × α)) : ofVariables pairs = empty.storeAll pairs := by
  have hrun (t : Table α) : (t.storeAll pairs).entries =
      (pairs.map fun (v, a) => (v.key, a)).foldl (fun list pair => Keyed.put pair.1 pair.2 list) t.entries := by
    induction pairs generalizing t with
    | nil => rfl
    | cons pair rest ih => exact ih (t.set pair.1.key pair.2)
  exact congrArg mk (hrun empty).symm

/-! ## Top theorem -/

/-- **A table of variables is a finite map on them.**  Whatever pairs it is made of and whatever is stored then, what is
found for a variable is the value stored last for it; nothing is found exactly if none ever was; the size is the number
of variables that values were stored for.  No two variables have one label, whatever their names are. -/
theorem finiteMap_of_variables (initial stored : List (Variable × α)) :
    (∀ v a, ((ofVariables initial).storeAll stored).get? v.key = some a ↔ Latest (initial ++ stored) v a) ∧
    (∀ v : Variable, ((ofVariables initial).storeAll stored).get? v.key = none ↔
      ∀ pair ∈ initial ++ stored, pair.1 ≠ v) ∧
    ((ofVariables initial).storeAll stored).size = ((initial ++ stored).map Prod.fst).toFinset.card ∧
    Function.Injective Variable.label := by
  have hrecords : ((ofVariables initial).storeAll stored).Records (initial ++ stored) := by
    rw [ofVariables_eq]
    exact (records_empty.storeAll initial).storeAll stored
  refine ⟨fun v a => ?_, fun v => ?_, hrecords.size, fun _ _ h => Variable.label_injective h⟩
  · rw [hrecords.value, latest_iff]
  · rw [hrecords.value, lookup_reverse_eq_none_iff]

-- a name that looks like a label is a name like any other
example : ((ofVariables [(⟨"x", .field⟩, 1), (⟨"field:x", .bool⟩, 2)]).storeAll [(⟨"x", .field⟩, 3)]).size = 2 := by
  decide

end Table

end ConstFold
