import ConstFold.Diagnostic

/-!
# How errors move

Collectors are used in any order: more of them are added, errors reported to them, pending ones committed.  An
error lies in the global list or waits at a pending collector.  A commit moves what waits there to where the
collector above puts it (`contents_commit`), so a report goes up along the pending collectors above its own.
What is left of its way after some commits is `remaining`, and nothing is left exactly if the commits hold the
whole way in order (`remaining_eq_nil_iff`).  The global list grows at its end only (`runFrom?_grows`).
-/

namespace ConstFold.Collectors

/-! ## Runs -/

/-- What can be done with collectors.  Refusals are reports too, of errors that are made for them. -/
inductive Event where
  | addFunction (function : Text)
  | addPending (parent : Nat)
  | report (target : Nat) (error : Diagnostic)
  | commit (target : Nat)

/-- The collector below which a collector is pending. -/
def parent? (s : Collectors) (c : Nat) : Option Nat := s.collectors[c]?.bind Collector.parent?

/-- Only collectors that exist are used, and only pending ones committed. -/
def Possible (s : Collectors) : Event → Prop
  | .addFunction _ => True
  | .addPending parent => parent < s.collectors.length
  | .report target _ => target < s.collectors.length
  | .commit target => (s.parent? target).isSome

instance (s : Collectors) : (e : Event) → Decidable (s.Possible e)
  | .addFunction _ => inferInstanceAs (Decidable True)
  | .addPending parent => inferInstanceAs (Decidable (parent < s.collectors.length))
  | .report target _ => inferInstanceAs (Decidable (target < s.collectors.length))
  | .commit target => inferInstanceAs (Decidable ((s.parent? target).isSome))

def apply (s : Collectors) : Event → Collectors
  | .addFunction function => s.addFunction function
  | .addPending parent => s.addPending parent
  | .report target error => s.report target error
  | .commit target => s.commit target

/-- The state after events that are possible one after the other. -/
def runFrom? (s : Collectors) : List Event → Option Collectors
  | [] => some s
  | e :: events => if s.Possible e then (s.apply e).runFrom? events else none

def run? (events : List Event) : Option Collectors := empty.runFrom? events

/-- The collector and the error of a report. -/
def Event.report? : Event → Option (Nat × Diagnostic)
  | .report target error => some (target, error)
  | _ => none

/-- The collector that is committed. -/
def Event.commit? : Event → Option Nat
  | .commit target => some target
  | _ => none

/-- The report with a number. -/
def reportAt? (events : List Event) (i : Nat) : Option (Nat × Diagnostic) := events[i]?.bind Event.report?

def targetAt? (events : List Event) (i : Nat) : Option Nat := (reportAt? events i).map Prod.fst

def errorAt? (events : List Event) (i : Nat) : Option Diagnostic := (reportAt? events i).map Prod.snd

/-- The numbers of all reports. -/
def reportsIn (events : List Event) : List Nat :=
  (List.range events.length).filter fun i => (targetAt? events i).isSome

/-- The collectors committed, in the order of time. -/
def commitsIn (events : List Event) : List Nat := events.filterMap Event.commit?

theorem getElem?_concat {α : Type} (l : List α) (a : α) (i : Nat) :
    (l ++ [a])[i]? = if i = l.length then some a else l[i]? := by
  by_cases h : i = l.length
  · rw [if_pos h, h, List.getElem?_concat_length]
  · rw [if_neg h, List.getElem?_append]
    split
    · rfl
    · rw [List.getElem?_eq_none (by simp; omega), List.getElem?_eq_none (by omega)]

theorem reportAt?_concat (events : List Event) (e : Event) (i : Nat) :
    reportAt? (events ++ [e]) i = if i = events.length then e.report? else reportAt? events i := by
  rw [reportAt?, getElem?_concat]
  split <;> rfl

theorem targetAt?_concat (events : List Event) (e : Event) (i : Nat) :
    targetAt? (events ++ [e]) i =
      if i = events.length then e.report?.map Prod.fst else targetAt? events i := by
  rw [targetAt?, reportAt?_concat]
  split <;> rfl

theorem errorAt?_concat (events : List Event) (e : Event) (i : Nat) :
    errorAt? (events ++ [e]) i =
      if i = events.length then e.report?.map Prod.snd else errorAt? events i := by
  rw [errorAt?, reportAt?_concat]
  split <;> rfl

theorem lt_of_targetAt? {events : List Event} {i : Nat} (h : (targetAt? events i).isSome) :
    i < events.length := by
  rcases Nat.lt_or_ge i events.length with hi | hi
  · exact hi
  · simp [targetAt?, reportAt?, List.getElem?_eq_none hi] at h

/-- Later commits come last. -/
theorem commitsIn_drop_concat {events : List Event} {i : Nat} (hi : i < events.length) (e : Event) :
    commitsIn ((events ++ [e]).drop (i + 1)) = commitsIn (events.drop (i + 1)) ++ e.commit?.toList := by
  rw [List.drop_append_of_le_length (by omega)]
  cases h : e.commit? <;> simp [commitsIn, h]

/-! ## Places -/

/-- What lies at a place: in the global list, or waiting at a collector. -/
def contents (s : Collectors) : Option Nat → List Diagnostic
  | none => s.reported
  | some c => (s.collectors[c]?.map Collector.waiting).getD []

/-- The places where errors can lie. -/
def places (s : Collectors) : List (Option Nat) :=
  none :: ((List.range s.collectors.length).filter fun c => (s.parent? c).isSome).map some

/-- Where a collector puts what it is given. -/
def outlet (s : Collectors) (c : Nat) : Option Nat := if (s.parent? c).isSome then some c else none

section

variable {s : Collectors}

theorem lt_of_parent? {c q : Nat} (h : s.parent? c = some q) : c < s.collectors.length := by
  obtain ⟨k, hk, -⟩ := Option.bind_eq_some_iff.1 h
  exact (List.getElem?_eq_some_iff.1 hk).1

theorem outlet_of_pending {c q : Nat} (h : s.parent? c = some q) : s.outlet c = some c := by
  simp [outlet, h]

theorem eq_of_outlet {c d : Nat} (h : s.outlet c = some d) : d = c := by
  unfold outlet at h
  split at h
  · exact (Option.some.inj h).symm
  · cases h

theorem outlet_of_root {c : Nat} (h : s.parent? c = none) : s.outlet c = none := by
  simp [outlet, h]

/-- A new collector, at which nothing waits. -/
def add (s : Collectors) (function : Text) (parent? : Option Nat) : Collectors :=
  { s with collectors := s.collectors ++ [⟨function, parent?, []⟩] }

theorem length_add (function : Text) (q? : Option Nat) :
    (s.add function q?).collectors.length = s.collectors.length + 1 := by
  simp [add]

theorem parent?_add (function : Text) (q? : Option Nat) (c : Nat) :
    (s.add function q?).parent? c = if c = s.collectors.length then q? else s.parent? c := by
  rw [parent?, add, getElem?_concat]
  split <;> rfl

theorem contents_add (function : Text) (q? : Option Nat) (p : Option Nat) :
    (s.add function q?).contents p = s.contents p := by
  cases p with
  | none => rfl
  | some c =>
    simp only [contents, add, getElem?_concat]
    split
    · rename_i h
      simp [h]
    · rfl

theorem parent?_deliver (t c : Nat) (errors : List Diagnostic) :
    (s.deliver t errors).parent? c = s.parent? c := by
  unfold deliver
  split
  · rename_i k hk
    split
    · simp only [parent?, List.getElem?_set]
      split
      · rename_i h
        subst h
        rw [if_pos (List.getElem?_eq_some_iff.1 hk).1, hk]
        rfl
      · rfl
    · rfl
  · rfl

theorem length_deliver (t : Nat) (errors : List Diagnostic) :
    (s.deliver t errors).collectors.length = s.collectors.length := by
  unfold deliver
  split
  · split
    · simp
    · rfl
  · rfl

theorem contents_deliver {t : Nat} (ht : t < s.collectors.length) (errors : List Diagnostic) (p : Option Nat) :
    (s.deliver t errors).contents p =
      if p = s.outlet t then s.contents p ++ errors else s.contents p := by
  have hk := List.getElem?_eq_getElem ht
  generalize s.collectors[t] = k at hk
  cases hq : k.parent? with
  | none =>
    have hroot : s.parent? t = none := by simp [parent?, hk, hq]
    have hs : s.deliver t errors = { s with reported := s.reported ++ errors } := by simp [deliver, hk, hq]
    rw [hs, outlet_of_root hroot]
    cases p <;> simp [contents]
  | some q =>
    have hpending : s.parent? t = some q := by simp [parent?, hk, hq]
    have hs : s.deliver t errors =
        { s with collectors := s.collectors.set t { k with waiting := k.waiting ++ errors } } := by
      simp [deliver, hk, hq]
    rw [hs, outlet_of_pending hpending]
    cases p with
    | none => simp [contents]
    | some c =>
      by_cases hc : c = t
      · subst hc
        simp only [contents, List.getElem?_set_self ht, hk, if_true, Option.map_some, Option.getD_some]
      · simp [contents, hc, List.getElem?_set_ne (Ne.symm hc)]

/-- The collector is emptied before what waited there is handed on. -/
theorem commit_eq {c q : Nat} (h : s.parent? c = some q) :
    ∃ t : Collectors, s.commit c = t.deliver q (s.contents (some c)) ∧
      t.collectors.length = s.collectors.length ∧ (∀ d, t.parent? d = s.parent? d) ∧
      ∀ p, t.contents p = if p = some c then [] else s.contents p := by
  obtain ⟨⟨function, parent, waiting⟩, hk, hq⟩ := Option.bind_eq_some_iff.1 h
  obtain rfl : parent = some q := hq
  have hlt := (List.getElem?_eq_some_iff.1 hk).1
  refine ⟨{ s with collectors := s.collectors.set c ⟨function, some q, []⟩ }, ?_, by simp, ?_, ?_⟩
  · simp [commit, hk, contents]
  · intro d
    by_cases hd : d = c
    · subst hd
      simp only [parent?, List.getElem?_set_self hlt, hk]
      rfl
    · simp [parent?, List.getElem?_set_ne (Ne.symm hd)]
  · intro p
    cases p with
    | none => rfl
    | some d =>
      by_cases hd : d = c
      · subst hd
        simp [contents, hlt]
      · simp [contents, hd, List.getElem?_set_ne (Ne.symm hd)]

/-- What is waiting moves to where the collector above puts it. -/
theorem contents_commit {c q : Nat} (h : s.parent? c = some q) (hq : q < c) (p : Option Nat) :
    (s.commit c).contents p =
      if p = s.outlet q then s.contents p ++ s.contents (some c)
      else if p = some c then [] else s.contents p := by
  obtain ⟨t, hcommit, hlength, hparent, hcontents⟩ := commit_eq h
  have hlt : q < t.collectors.length := by
    have := lt_of_parent? h
    omega
  have houtlet : t.outlet q = s.outlet q := by simp [outlet, hparent]
  rw [hcommit, contents_deliver hlt, houtlet, hcontents]
  by_cases hp : p = s.outlet q
  · have hne : p ≠ some c := by
      intro hc
      have := eq_of_outlet (hp.symm.trans hc)
      omega
    rw [if_pos hp, if_pos hp, if_neg hne]
  · rw [if_neg hp, if_neg hp]

theorem parent?_commit {c q : Nat} (h : s.parent? c = some q) (d : Nat) :
    (s.commit c).parent? d = s.parent? d := by
  obtain ⟨t, hcommit, -, hparent, -⟩ := commit_eq h
  rw [hcommit, parent?_deliver, hparent]

theorem length_commit {c q : Nat} (h : s.parent? c = some q) :
    (s.commit c).collectors.length = s.collectors.length := by
  obtain ⟨t, hcommit, hlength, -, -⟩ := commit_eq h
  rw [hcommit, length_deliver, hlength]

end

/-! ## Ways up -/

/-- The way up from a collector: itself, the one it is below and so on, as long as they are pending. -/
inductive WayUp (s : Collectors) : Nat → List Nat → Prop
  | root {c : Nat} (hc : c < s.collectors.length) (h : s.parent? c = none) : WayUp s c []
  | pending {c q : Nat} {path : List Nat} (h : s.parent? c = some q) (hq : WayUp s q path) :
      WayUp s c (c :: path)

namespace WayUp

variable {s : Collectors} {c : Nat} {path : List Nat}

theorem head? (h : WayUp s c path) : path.head? = s.outlet c := by
  cases h with
  | root _ hp => rw [outlet_of_root hp]; rfl
  | pending hp _ => rw [outlet_of_pending hp]; rfl

theorem unique (h : WayUp s c path) {path' : List Nat} (h' : WayUp s c path') : path = path' := by
  induction h generalizing path' with
  | root _ hp =>
    cases h' with
    | root => rfl
    | pending hp' => rw [hp] at hp'; cases hp'
  | pending hp _ ih =>
    cases h' with
    | root _ hp' => rw [hp] at hp'; cases hp'
    | pending hp' hq' =>
      rw [hp] at hp'
      cases hp'
      rw [ih hq']

/-- A way up starts wherever it passes. -/
theorem of_suffix (h : WayUp s c path) {d : Nat} {rest : List Nat} (hsuffix : d :: rest <:+ path) :
    WayUp s d (d :: rest) := by
  induction h with
  | root => cases List.suffix_nil.1 hsuffix
  | pending hp hq ih =>
    rcases List.suffix_cons_iff.1 hsuffix with heq | hsuffix
    · cases heq
      exact .pending hp hq
    · exact ih hsuffix

/-- The way up goes on from the collector above. -/
theorem above (h : WayUp s c path) {d q : Nat} {rest : List Nat} (hsuffix : d :: rest <:+ path)
    (hd : s.parent? d = some q) : WayUp s q rest := by
  cases h.of_suffix hsuffix with
  | pending hp hq =>
    rw [hd] at hp
    cases hp
    exact hq

/-- Ways up stay when collectors are added or their errors move. -/
theorem mono (h : WayUp s c path) {s' : Collectors} (hlength : s.collectors.length ≤ s'.collectors.length)
    (hparent : ∀ d, d < s.collectors.length → s'.parent? d = s.parent? d) : WayUp s' c path := by
  induction h with
  | root hc hp => exact .root (by omega) (by rw [hparent _ hc, hp])
  | pending hp _ ih => exact .pending (by rw [hparent _ (lt_of_parent? hp), hp]) ih

end WayUp

theorem exists_wayUp {s : Collectors} (hs : ∀ c q, s.parent? c = some q → q < c) (c : Nat)
    (hc : c < s.collectors.length) : ∃ path, s.WayUp c path := by
  induction c using Nat.strongRecOn with
  | ind c ih =>
    cases hp : s.parent? c with
    | none => exact ⟨[], .root hc hp⟩
    | some q =>
      have hq := hs c q hp
      obtain ⟨path, hpath⟩ := ih q hq (by omega)
      exact ⟨c :: path, .pending hp hpath⟩

/-! ## Moving up -/

/-- What is left of a way up after a commit: the first collector comes off if it is the one committed. -/
def advance (path : List Nat) (c : Nat) : List Nat := if path.head? = some c then path.tail else path

/-- What is left of a way up after commits, in the order of time. -/
def remaining (path commits : List Nat) : List Nat := commits.foldl advance path

theorem advance_cons_self (c : Nat) (path : List Nat) : advance (c :: path) c = path := by
  simp [advance]

theorem advance_of_ne {path : List Nat} {c : Nat} (h : path.head? ≠ some c) : advance path c = path := by
  simp [advance, h]

theorem advance_suffix (path : List Nat) (c : Nat) : advance path c <:+ path := by
  unfold advance
  split
  · exact List.tail_suffix path
  · exact List.suffix_rfl

theorem remaining_suffix (path commits : List Nat) : remaining path commits <:+ path := by
  induction commits generalizing path with
  | nil => exact List.suffix_rfl
  | cons c commits ih => exact (ih (advance path c)).trans (advance_suffix path c)

/-- Nothing is left exactly if the commits hold the whole way, in order. -/
theorem remaining_eq_nil_iff (path commits : List Nat) : remaining path commits = [] ↔ path.Sublist commits := by
  induction commits generalizing path with
  | nil => exact List.sublist_nil.symm
  | cons c commits ih =>
    show remaining (advance path c) commits = [] ↔ _
    rw [ih]
    cases path with
    | nil => simp [advance]
    | cons d path =>
      by_cases h : d = c
      · subst h
        rw [advance_cons_self, List.cons_sublist_cons]
      · rw [advance_of_ne (by simpa using h), List.sublist_cons_iff]
        constructor
        · exact .inl
        · rintro (hsub | ⟨rest, heq, -⟩)
          · exact hsub
          · cases heq
            exact absurd rfl h

/-- Who has less way left stays ahead. -/
theorem remaining_mono {path path' : List Nat} (h : path' <:+ path) (commits : List Nat) :
    remaining path' commits <:+ remaining path commits := by
  induction commits generalizing path path' with
  | nil => exact h
  | cons c commits ih =>
    apply ih
    cases path with
    | nil =>
      cases List.suffix_nil.1 h
      exact List.suffix_rfl
    | cons d path =>
      rcases List.suffix_cons_iff.1 h with rfl | h
      · exact List.suffix_rfl
      · have hpath : path <:+ advance (d :: path) c := by
          unfold advance
          split
          · exact List.suffix_rfl
          · exact List.suffix_cons d path
        exact ((advance_suffix path' c).trans h).trans hpath

theorem remaining_concat (path commits : List Nat) (c : Nat) :
    remaining path (commits ++ [c]) = advance (remaining path commits) c := by
  simp [remaining]

/-- The commits after an earlier event lead at least as far up as those after a later one. -/
theorem remaining_drop_suffix (events : List Event) (path : List Nat) {i j : Nat} (h : i ≤ j) :
    remaining path (commitsIn (events.drop i)) <:+ remaining path (commitsIn (events.drop j)) := by
  obtain ⟨n, rfl⟩ := Nat.exists_eq_add_of_le h
  have hsplit : events.drop i = (events.drop i).take n ++ events.drop (i + n) := by
    rw [← List.drop_drop, List.take_append_drop]
  rw [hsplit, commitsIn, List.filterMap_append, remaining, List.foldl_append]
  exact remaining_mono (remaining_suffix path _) _

/-! ## The global list -/

theorem deliver_grows (s : Collectors) (t : Nat) (errors : List Diagnostic) :
    s.reported <+: (s.deliver t errors).reported := by
  unfold deliver
  split
  · split
    · exact List.prefix_rfl
    · exact List.prefix_append s.reported errors
  · exact List.prefix_rfl

theorem apply_grows (s : Collectors) (e : Event) : s.reported <+: (s.apply e).reported := by
  cases e with
  | addFunction function => exact List.prefix_rfl
  | addPending parent =>
    simp only [apply, addPending]
    split <;> exact List.prefix_rfl
  | report target error => exact s.deliver_grows target [error]
  | commit target =>
    simp only [apply, commit]
    split
    · rename_i function parent waiting _
      let emptied := { s with collectors := s.collectors.set target ⟨function, some parent, []⟩ }
      exact deliver_grows emptied parent waiting
    · exact List.prefix_rfl

/-- The global list grows at its end only. -/
theorem runFrom?_grows {events : List Event} {s s' : Collectors} (h : s.runFrom? events = some s') :
    s.reported <+: s'.reported := by
  induction events generalizing s with
  | nil =>
    cases h
    exact List.prefix_rfl
  | cons e events ih =>
    rw [runFrom?] at h
    split at h
    · exact (s.apply_grows e).trans (ih h)
    · cases h

theorem runFrom?_append (s : Collectors) (events later : List Event) :
    s.runFrom? (events ++ later) = (s.runFrom? events).bind (·.runFrom? later) := by
  induction events generalizing s with
  | nil => rfl
  | cons e events ih =>
    simp only [List.cons_append, runFrom?]
    split
    · exact ih _
    · rfl

end ConstFold.Collectors
