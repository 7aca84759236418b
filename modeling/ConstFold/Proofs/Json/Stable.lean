import ConstFold.Proofs.Json.RoundTrip

/-!
# Values that survive unchanged

A value whose objects have distinct keys and which holds no number comes back from its text unchanged
(`Json.Stable`).  In any other object, a key that all its members give one value is found with this value
(`Keyed.lookup_ofPairs`).
-/

namespace ConstFold

namespace Keyed

variable {κ α : Type} [DecidableEq κ]

theorem put_of_notMem {key : κ} {list : List (κ × α)} (h : key ∉ list.map Prod.fst) (value : α) :
    put key value list = list ++ [(key, value)] := by
  induction list with
  | nil => rfl
  | cons pair rest ih =>
    obtain ⟨hne, hrest⟩ : key ≠ pair.1 ∧ key ∉ rest.map Prod.fst := by
      simpa only [List.map_cons, List.mem_cons, not_or] using h
    rw [put, if_neg hne, ih hrest, List.cons_append]

theorem foldl_put_of_nodup {pairs list : List (κ × α)} (h : ((list ++ pairs).map Prod.fst).Nodup) :
    pairs.foldl (fun list pair => put pair.1 pair.2 list) list = list ++ pairs := by
  induction pairs generalizing list with
  | nil => rw [List.foldl_nil, List.append_nil]
  | cons pair rest ih =>
    have hsplit : list ++ pair :: rest = (list ++ [pair]) ++ rest := by simp
    rw [hsplit] at h ⊢
    have hkey : pair.1 ∉ list.map Prod.fst := by
      intro hmem
      rw [List.map_append, List.map_append] at h
      have hdisjoint := (List.nodup_append.1 (List.nodup_append.1 h).1).2.2
      exact hdisjoint _ hmem _ List.mem_cons_self rfl
    rw [List.foldl_cons, put_of_notMem hkey, ih h]

/-- Pairs with distinct keys are kept as they stand. -/
theorem ofPairs_of_nodup {pairs : List (κ × α)} (h : (pairs.map Prod.fst).Nodup) : ofPairs pairs = pairs :=
  foldl_put_of_nodup h

theorem lookup_foldl_put {pairs list : List (κ × α)} {key : κ} {value : α}
    (hunique : ∀ pair ∈ pairs, pair.1 = key → pair.2 = value)
    (hfound : (key, value) ∈ pairs ∨ list.lookup key = some value) :
    (pairs.foldl (fun list pair => put pair.1 pair.2 list) list).lookup key = some value := by
  induction pairs generalizing list with
  | nil => exact hfound.resolve_left List.not_mem_nil
  | cons pair rest ih =>
    apply ih fun p hp => hunique p (List.mem_cons_of_mem pair hp)
    rw [lookup_put]
    by_cases hkey : pair.1 = key
    · right
      rw [if_pos hkey.symm, hunique pair List.mem_cons_self hkey]
    · rw [if_neg (Ne.symm hkey)]
      refine hfound.imp_left fun hmem => ?_
      rcases List.mem_cons.1 hmem with rfl | hmem
      · exact absurd rfl hkey
      · exact hmem

/-- A key that all its pairs give one value is found with this value. -/
theorem lookup_ofPairs {pairs : List (κ × α)} {key : κ} {value : α} (hmem : (key, value) ∈ pairs)
    (hunique : ∀ pair ∈ pairs, pair.1 = key → pair.2 = value) : (ofPairs pairs).lookup key = some value :=
  lookup_foldl_put hunique (.inl hmem)

end Keyed

namespace Json

/-- A value that comes back from its text unchanged. -/
def Stable (j : Json) : Prop := j.reread = j

theorem stable_string (s : Text) : Stable (.string s) := rfl

theorem stable_bool (b : Bool) : Stable (.bool b) := rfl

theorem rereadItems_eq_map (items : List Json) : rereadItems items = items.map reread := by
  induction items with
  | nil => rfl
  | cons item items ih => rw [rereadItems, ih, List.map_cons]

theorem rereadMembers_eq_map (members : List (Text × Json)) :
    rereadMembers members = members.map fun member => (member.1, member.2.reread) := by
  induction members with
  | nil => rfl
  | cons member members ih => rw [rereadMembers, ih, List.map_cons]

theorem stable_array {items : List Json} (h : ∀ item ∈ items, Stable item) : Stable (.array items) := by
  rw [Stable, reread, rereadItems_eq_map, List.map_congr_left h, List.map_id']

theorem stable_object {members : List (Text × Json)} (hkeys : (members.map Prod.fst).Nodup)
    (h : ∀ member ∈ members, Stable member.2) : Stable (.object members) := by
  have hmap : rereadMembers members = members := by
    rw [rereadMembers_eq_map]
    calc members.map (fun member => (member.1, member.2.reread))
        = members.map fun member => member := List.map_congr_left fun member hm => by rw [h member hm]
      _ = members := List.map_id' members
  rw [Stable, reread, hmap, Keyed.ofPairs_of_nodup hkeys]

end Json

end ConstFold
