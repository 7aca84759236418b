import ConstFold.Text

/-!
# Tables

A list of pairs with distinct keys serves as a finite map that remembers the order in which keys came.
`List.lookup` is the view; `Keyed.put` changes what is found under its key and under no other
(`Keyed.lookup_put`).  A `Table` is such a list whose keys are texts or numbers, seen through `get?`.
-/

namespace ConstFold

/-! ## Keyed lists -/

namespace Keyed

variable {κ α : Type} [DecidableEq κ]

/-- Gives a key its value, in its place or at the end. -/
def put (key : κ) (value : α) : List (κ × α) → List (κ × α)
  | [] => [(key, value)]
  | (k, v) :: rest => if key = k then (k, value) :: rest else (k, v) :: put key value rest

/-- Puts pairs in turn, so that of two with one key the later value counts, at the earlier place. -/
def ofPairs (pairs : List (κ × α)) : List (κ × α) :=
  pairs.foldl (fun list pair => put pair.1 pair.2 list) []

/-- Finding looks at the first pair and goes on. -/
theorem lookup_cons_eq_ite (key k : κ) (v : α) (rest : List (κ × α)) :
    ((k, v) :: rest).lookup key = if key = k then some v else rest.lookup key := by
  by_cases h : key = k
  · simp [h]
  · have hb : (key == k) = false := by simpa using h
    simp [List.lookup_cons, hb, h]

theorem lookup_put (key other : κ) (value : α) (list : List (κ × α)) :
    (put key value list).lookup other = if other = key then some value else list.lookup other := by
  induction list with
  | nil => simp [put, lookup_cons_eq_ite]
  | cons pair rest ih =>
    obtain ⟨k, v⟩ := pair
    by_cases hk : key = k
    · simp only [put, hk, if_true, lookup_cons_eq_ite]
      split <;> rfl
    · by_cases h : other = k
      · simp [put, hk, h, Ne.symm hk]
      · simp [put, hk, lookup_cons_eq_ite, h, ih]

/-- A key that is new takes a place of its own, and one that is there keeps its place. -/
theorem length_put (key : κ) (value : α) (list : List (κ × α)) :
    (put key value list).length = if (list.lookup key).isSome then list.length else list.length + 1 := by
  induction list with
  | nil => rfl
  | cons pair rest ih =>
    obtain ⟨k, v⟩ := pair
    by_cases hk : key = k
    · simp [put, hk]
    · simp only [put, hk, if_false, lookup_cons_eq_ite, List.length_cons, ih]
      split <;> rfl

end Keyed

/-! ## Tables -/

/-- What entries are filed under: a text or a number, never equal to each other. -/
inductive Key where
  | text (s : Text)
  | number (n : Int)
deriving DecidableEq, Repr

structure Table (α : Type) where
  entries : List (Key × α)

namespace Table

variable {α : Type}

def empty : Table α := ⟨[]⟩

def get? (t : Table α) (k : Key) : Option α := t.entries.lookup k

def set (t : Table α) (k : Key) (a : α) : Table α := ⟨Keyed.put k a t.entries⟩

def size (t : Table α) : Nat := t.entries.length

/-- The table of a list of pairs; of two pairs with one key the later one counts. -/
def ofList (pairs : List (Key × α)) : Table α := ⟨Keyed.ofPairs pairs⟩

theorem get?_set (t : Table α) (k k' : Key) (a : α) :
    (t.set k a).get? k' = if k' = k then some a else t.get? k' :=
  Keyed.lookup_put k k' a t.entries

theorem size_set (t : Table α) (k : Key) (a : α) :
    (t.set k a).size = if (t.get? k).isSome then t.size else t.size + 1 :=
  Keyed.length_put k a t.entries

end Table

end ConstFold
