import ConstFold.Proofs.Collectors

/-!
# No error is lost, doubled or leaked

Each report has a number, its place in the run.  A ledger keeps the numbers of the reports where the collectors
keep their errors, each at the head of what is left of its way up, and every run has one (`Ledger.run`).  Two
reports to one collector never overtake each other: the earlier one has no more of its way left than the later
one (`Ledger.inOrder_of_commit`).
-/

namespace ConstFold.Collectors

/-! ## Ledgers -/

/-- Two reports are different ones, and if they went to one collector the first is the earlier. -/
def InOrder (events : List Event) (i j : Nat) : Prop :=
  i ≠ j ∧ (targetAt? events i = targetAt? events j → i < j)

/-- The numbers of the reports, kept where the collectors keep the errors: a report lies at the head of what is
left of its way up. -/
structure Ledger (events : List Event) (s : Collectors) where
  entries : Option Nat → List Nat
  older : ∀ c q, s.parent? c = some q → q < c
  errors : ∀ p, (s.contents p).map some = (entries p).map (errorAt? events)
  reports : ∀ p, ∀ i ∈ entries p, (targetAt? events i).isSome
  place : ∀ i c, targetAt? events i = some c → ∃ path, s.WayUp c path ∧
    ∀ p, i ∈ entries p ↔ p = (remaining path (commitsIn (events.drop (i + 1)))).head?
  ordered : ∀ p, (entries p).Pairwise (InOrder events)

/-- One more number at a place. -/
def filed (entries : Option Nat → List Nat) (place : Option Nat) (i : Nat) (p : Option Nat) : List Nat :=
  if p = place then entries p ++ [i] else entries p

theorem mem_filed {entries : Option Nat → List Nat} {place p : Option Nat} {i j : Nat} :
    j ∈ filed entries place i p ↔ j ∈ entries p ∨ p = place ∧ j = i := by
  unfold filed
  split
  · rename_i hp
    simp [hp]
  · rename_i hp
    simp [hp]

/-- All numbers at one place moved to the end of another. -/
def moved (entries : Option Nat → List Nat) (source target : Option Nat) (p : Option Nat) : List Nat :=
  if p = target then entries p ++ entries source else if p = source then [] else entries p

theorem mem_moved {entries : Option Nat → List Nat} {source target : Option Nat} (hne : target ≠ source)
    {p : Option Nat} {j : Nat} :
    j ∈ moved entries source target p ↔ j ∈ entries p ∧ p ≠ source ∨ p = target ∧ j ∈ entries source := by
  unfold moved
  split
  · rename_i hp
    simp [hp, hne]
  · rename_i hp
    split
    · rename_i hp'
      simp [hp', Ne.symm hne]
    · rename_i hp'
      simp [hp, hp']

namespace Ledger

def start : Ledger [] empty where
  entries _ := []
  older c q h := by
    simp [parent?, empty] at h
  errors p := by
    cases p <;> rfl
  reports p i hi := by
    cases hi
  place i c h := by
    simp [targetAt?, reportAt?] at h
  ordered p := .nil

variable {events : List Event} {s : Collectors} (l : Ledger events s)

include l

/-! Another event changes nothing about the reports before it. -/

theorem lt_length {p : Option Nat} {i : Nat} (hi : i ∈ l.entries p) : i < events.length :=
  lt_of_targetAt? (l.reports p i hi)

theorem targetAt?_of_mem {p : Option Nat} {i : Nat} (hi : i ∈ l.entries p) (e : Event) :
    targetAt? (events ++ [e]) i = targetAt? events i := by
  have := l.lt_length hi
  rw [targetAt?_concat, if_neg (by omega)]

theorem errors_concat (e : Event) (p : Option Nat) :
    (s.contents p).map some = (l.entries p).map (errorAt? (events ++ [e])) := by
  rw [l.errors]
  refine List.map_congr_left fun i hi => ?_
  have := l.lt_length hi
  rw [errorAt?_concat, if_neg (by omega)]

theorem ordered_concat (e : Event) (p : Option Nat) : (l.entries p).Pairwise (InOrder (events ++ [e])) := by
  refine (l.ordered p).imp_of_mem fun hi hj h => ⟨h.1, ?_⟩
  rw [l.targetAt?_of_mem hi, l.targetAt?_of_mem hj]
  exact h.2

omit l in
theorem targetAt?_of_silent {e : Event} (he : e.report? = none) {i c : Nat}
    (h : targetAt? (events ++ [e]) i = some c) : targetAt? events i = some c := by
  rw [targetAt?_concat, he] at h
  split at h
  · cases h
  · exact h

/-- A report lies at one place only. -/
theorem place_unique {p p' : Option Nat} {i : Nat} (hi : i ∈ l.entries p) (hi' : i ∈ l.entries p') : p = p' := by
  obtain ⟨c, hc⟩ := Option.isSome_iff_exists.1 (l.reports p i hi)
  obtain ⟨path, -, hplace⟩ := l.place i c hc
  rw [(hplace p).1 hi, (hplace p').1 hi']

/-! ## Steps -/

/-- A new collector moves no report. -/
def add {e : Event} (hreport : e.report? = none) (hcommit : e.commit? = none) (function : Text)
    (q? : Option Nat) (hq : ∀ q ∈ q?, q < s.collectors.length) :
    Ledger (events ++ [e]) (s.add function q?) where
  entries := l.entries
  older c q h := by
    rw [parent?_add] at h
    split at h
    · rename_i hc
      rw [hc]
      exact hq q h
    · exact l.older c q h
  errors p := by
    rw [contents_add]
    exact l.errors_concat e p
  reports p i hi := by
    rw [l.targetAt?_of_mem hi]
    exact l.reports p i hi
  place i c h := by
    have hi := targetAt?_of_silent hreport h
    obtain ⟨path, hpath, hplace⟩ := l.place i c hi
    refine ⟨path, hpath.mono (by rw [length_add]; omega) ?_, ?_⟩
    · intro d hd
      rw [parent?_add, if_neg (by omega)]
    · rw [commitsIn_drop_concat (lt_of_targetAt? (by rw [hi]; rfl)), hcommit]
      simpa using hplace
  ordered := l.ordered_concat e

/-- A report comes last where its collector puts it. -/
def report {c : Nat} (hc : c < s.collectors.length) (error : Diagnostic) :
    Ledger (events ++ [.report c error]) (s.report c error) where
  entries := filed l.entries (s.outlet c) events.length
  older d q h := by
    rw [Collectors.report, parent?_deliver] at h
    exact l.older d q h
  errors p := by
    rw [Collectors.report, contents_deliver hc, filed]
    have hold := l.errors_concat (.report c error) p
    split
    · rw [List.map_append, List.map_append, hold]
      simp [errorAt?_concat, Event.report?]
    · exact hold
  reports p i hi := by
    rcases mem_filed.1 hi with hi | ⟨-, rfl⟩
    · rw [l.targetAt?_of_mem hi]
      exact l.reports p i hi
    · simp [targetAt?_concat, Event.report?]
  place i d h := by
    have hmono {path : List Nat} (hpath : s.WayUp d path) : (s.report c error).WayUp d path :=
      hpath.mono (Nat.le_of_eq (length_deliver c [error]).symm) fun d _ => parent?_deliver c d [error]
    rw [targetAt?_concat] at h
    split at h
    · -- the new report, after which nothing has been committed
      rename_i hi
      subst hi
      cases h
      obtain ⟨path, hpath⟩ := exists_wayUp l.older c hc
      refine ⟨path, hmono hpath, fun p => ?_⟩
      have hnew : events.length ∉ l.entries p := fun hmem => Nat.lt_irrefl _ (l.lt_length hmem)
      rw [mem_filed, List.drop_of_length_le (by simp), ← hpath.head?]
      simp [hnew, commitsIn, remaining]
    · rename_i hi
      obtain ⟨path, hpath, hplace⟩ := l.place i d h
      refine ⟨path, hmono hpath, fun p => ?_⟩
      rw [mem_filed, commitsIn_drop_concat (lt_of_targetAt? (by rw [h]; rfl)), hplace]
      simp [hi, Event.commit?]
  ordered p := by
    have hold := l.ordered_concat (.report c error) p
    unfold filed
    split
    · refine List.pairwise_append.2 ⟨hold, List.pairwise_singleton _ _, ?_⟩
      intro i hi j hj
      have := l.lt_length hi
      rw [List.mem_singleton.1 hj]
      exact ⟨by omega, fun _ => this⟩
    · exact hold

theorem outlet_ne {c q : Nat} (h : s.parent? c = some q) : s.outlet q ≠ some c := by
  intro hc
  have := l.older c q h
  have := eq_of_outlet hc
  omega

/-- What lies where a commit puts things came before what the commit puts there. -/
theorem inOrder_of_commit {c q : Nat} (h : s.parent? c = some q) {i j : Nat} (hi : i ∈ l.entries (s.outlet q))
    (hj : j ∈ l.entries (some c)) : InOrder events i j := by
  have hne : i ≠ j := by
    rintro rfl
    exact l.outlet_ne h (l.place_unique hi hj)
  refine ⟨hne, fun htarget => ?_⟩
  rcases Nat.lt_or_gt_of_ne hne with hlt | hgt
  · exact hlt
  · -- the later of two reports to one collector would be ahead of the earlier
    exfalso
    obtain ⟨d, hd⟩ := Option.isSome_iff_exists.1 (l.reports _ i hi)
    obtain ⟨path, hpath, hplace⟩ := l.place i d hd
    obtain ⟨path', hpath', hplace'⟩ := l.place j d (htarget ▸ hd)
    obtain rfl := hpath.unique hpath'
    have hahead := remaining_drop_suffix events path (show j + 1 ≤ i + 1 by omega)
    have hhead := (hplace _).1 hi
    have hhead' := (hplace' _).1 hj
    have hsuffix := remaining_suffix path (commitsIn (events.drop (i + 1)))
    generalize remaining path (commitsIn (events.drop (i + 1))) = rem at hahead hhead hsuffix
    generalize remaining path (commitsIn (events.drop (j + 1))) = rem' at hahead hhead'
    obtain ⟨rest, rfl⟩ := List.head?_eq_some_iff.1 hhead'.symm
    have hrest : WayUp s q rest := hpath.above (hahead.trans hsuffix) h
    cases rem with
    | nil => cases List.suffix_nil.1 hahead
    | cons r rem =>
      have hr := eq_of_outlet hhead
      subst hr
      rw [hrest.unique (hpath.of_suffix hsuffix)] at hahead
      exact absurd hahead.length_le (by simp)

/-- A commit moves the reports at its collector up by one. -/
def commit {c q : Nat} (h : s.parent? c = some q) : Ledger (events ++ [.commit c]) (s.commit c) where
  entries := moved l.entries (some c) (s.outlet q)
  older d r hd := by
    rw [parent?_commit h] at hd
    exact l.older d r hd
  errors p := by
    rw [contents_commit h (l.older c q h), moved]
    split
    · rw [List.map_append, List.map_append, l.errors_concat (.commit c), l.errors_concat (.commit c)]
    · split
      · rfl
      · exact l.errors_concat (.commit c) p
  reports p i hi := by
    rcases (mem_moved (l.outlet_ne h)).1 hi with ⟨hi, -⟩ | ⟨-, hi⟩
    · rw [l.targetAt?_of_mem hi]
      exact l.reports p i hi
    · rw [l.targetAt?_of_mem hi]
      exact l.reports _ i hi
  place i d hd := by
    have hi := targetAt?_of_silent rfl hd
    obtain ⟨path, hpath, hplace⟩ := l.place i d hi
    refine ⟨path, hpath.mono (Nat.le_of_eq (length_commit h).symm) fun _ _ => parent?_commit h _, fun p => ?_⟩
    have hafter : commitsIn ((events ++ [Event.commit c]).drop (i + 1)) = commitsIn (events.drop (i + 1)) ++ [c] :=
      commitsIn_drop_concat (lt_of_targetAt? (by rw [hi]; rfl)) (.commit c)
    have hsuffix := remaining_suffix path (commitsIn (events.drop (i + 1)))
    rw [mem_moved (l.outlet_ne h), hplace, hplace, hafter, remaining_concat]
    generalize remaining path (commitsIn (events.drop (i + 1))) = rem at hsuffix
    by_cases hhead : rem.head? = some c
    · obtain ⟨rest, rfl⟩ := List.head?_eq_some_iff.1 hhead
      rw [advance_cons_self, (hpath.above hsuffix h).head?]
      simp
    · rw [advance_of_ne hhead]
      constructor
      · rintro (⟨hp, -⟩ | ⟨-, hc⟩)
        · exact hp
        · exact absurd hc.symm hhead
      · intro hp
        exact .inl ⟨hp, fun hc => hhead (hp.symm.trans hc)⟩
  ordered p := by
    have hold := l.ordered_concat (.commit c)
    unfold moved
    split
    · rename_i hp
      refine List.pairwise_append.2 ⟨hold p, hold (some c), fun i hi j hj => ?_⟩
      rw [hp] at hi
      have horder := l.inOrder_of_commit h hi hj
      refine ⟨horder.1, ?_⟩
      rw [l.targetAt?_of_mem hi, l.targetAt?_of_mem hj]
      exact horder.2
    · split
      · exact .nil
      · exact hold p

theorem step {e : Event} (he : s.Possible e) : Nonempty (Ledger (events ++ [e]) (s.apply e)) := by
  cases e with
  | addFunction function => exact ⟨l.add rfl rfl function none (by simp)⟩
  | addPending parent =>
    have hadd : s.apply (.addPending parent) = s.add s.collectors[parent].function (some parent) := by
      simp [apply, addPending, Collectors.add, List.getElem?_eq_getElem he]
    rw [hadd]
    exact ⟨l.add rfl rfl _ (some parent) fun q hq => Option.mem_some.1 hq ▸ he⟩
  | report target error => exact ⟨l.report he error⟩
  | commit target =>
    obtain ⟨q, hq⟩ := Option.isSome_iff_exists.1 he
    exact ⟨l.commit hq⟩

/-- Every run has a ledger. -/
theorem run {later : List Event} {s' : Collectors} (h : s.runFrom? later = some s') :
    Nonempty (Ledger (events ++ later) s') := by
  induction later generalizing events s with
  | nil =>
    cases h
    rw [List.append_nil]
    exact ⟨l⟩
  | cons e later ih =>
    rw [runFrom?] at h
    split at h
    · rename_i he
      obtain ⟨l'⟩ := l.step he
      rw [List.append_cons]
      exact ih l' h
    · cases h

/-! ## What a ledger shows -/

/-- Reports lie in the global list or at pending collectors. -/
theorem mem_places {p : Option Nat} {i : Nat} (hi : i ∈ l.entries p) : p ∈ s.places := by
  obtain ⟨c, hc⟩ := Option.isSome_iff_exists.1 (l.reports p i hi)
  obtain ⟨path, hpath, hplace⟩ := l.place i c hc
  have hp := (hplace p).1 hi
  have hsuffix := remaining_suffix path (commitsIn (events.drop (i + 1)))
  cases p with
  | none => exact List.mem_cons_self
  | some d =>
    obtain ⟨rest, hrest⟩ := List.head?_eq_some_iff.1 hp.symm
    rw [hrest] at hsuffix
    cases hpath.of_suffix hsuffix with
    | pending hd _ =>
      have hpending : d ∈ (List.range s.collectors.length).filter fun c => (s.parent? c).isSome :=
        List.mem_filter.2 ⟨List.mem_range.2 (lt_of_parent? hd), by rw [hd]; rfl⟩
      exact List.mem_cons_of_mem _ (List.mem_map_of_mem hpending)

theorem contents_eq_nil {p : Option Nat} (hp : p ∉ s.places) : s.contents p = [] := by
  have hentries : l.entries p = [] :=
    List.eq_nil_iff_forall_not_mem.2 fun _ hi => hp (l.mem_places hi)
  have herrors := l.errors p
  rw [hentries] at herrors
  exact List.map_eq_nil_iff.1 herrors

/-- Every report lies at one place, once. -/
theorem entries_perm : (s.places.flatMap l.entries).Perm (reportsIn events) := by
  have hplaces : s.places.Pairwise (· ≠ ·) := by
    refine List.pairwise_cons.2 ⟨?_, List.pairwise_map.2 ?_⟩
    · intro p hp
      obtain ⟨c, -, rfl⟩ := List.mem_map.1 hp
      exact nofun
    · exact (List.nodup_range.filter _).imp fun hne heq => hne (Option.some.inj heq)
  have hentries : (s.places.flatMap l.entries).Nodup := by
    refine List.pairwise_flatMap.2 ⟨fun p _ => (l.ordered p).imp fun h => h.1, hplaces.imp ?_⟩
    rintro p p' hne i hi _ hi' rfl
    exact hne (l.place_unique hi hi')
  have hreports : (reportsIn events).Nodup := List.nodup_range.filter _
  refine (List.perm_ext_iff_of_nodup hentries hreports).2 fun i => ?_
  rw [List.mem_flatMap, reportsIn, List.mem_filter, List.mem_range]
  constructor
  · rintro ⟨p, -, hi⟩
    exact ⟨l.lt_length hi, l.reports p i hi⟩
  · rintro ⟨-, hi⟩
    obtain ⟨c, hc⟩ := Option.isSome_iff_exists.1 hi
    obtain ⟨path, -, hplace⟩ := l.place i c hc
    have hmem := (hplace _).2 rfl
    exact ⟨_, l.mem_places hmem, hmem⟩

/-- A report is in the global list if the commits after it led it all the way up. -/
theorem published_iff {i c : Nat} (hi : targetAt? events i = some c) :
    ∃ path, s.WayUp c path ∧ (i ∈ l.entries none ↔ path.Sublist (commitsIn (events.drop (i + 1)))) := by
  obtain ⟨path, hpath, hplace⟩ := l.place i c hi
  refine ⟨path, hpath, ?_⟩
  rw [hplace, ← remaining_eq_nil_iff, eq_comm, List.head?_eq_none_iff]

/-- Reports to one collector that lie at one place lie there in their order. -/
theorem pair_sublist {i j c : Nat} (hi : targetAt? events i = some c) (hj : targetAt? events j = some c)
    (hij : i < j) {p : Option Nat} (hip : i ∈ l.entries p) (hjp : j ∈ l.entries p) :
    [i, j].Sublist (l.entries p) := by
  obtain ⟨before, after, hsplit⟩ := List.append_of_mem hip
  have hordered := l.ordered p
  rw [hsplit] at hjp hordered ⊢
  rcases List.mem_append.1 hjp with hjp | hjp
  · -- before `i` there is nothing later that went to the same collector
    have horder := (List.pairwise_append.1 hordered).2.2 j hjp i List.mem_cons_self
    have := horder.2 (hj.trans hi.symm)
    omega
  · rcases List.mem_cons.1 hjp with rfl | hjp
    · omega
    · have hpair : [i, j].Sublist (i :: after) := List.cons_sublist_cons.2 (List.singleton_sublist.2 hjp)
      exact hpair.trans (List.sublist_append_right before _)

end Ledger

/-! ## Top theorem -/

/-- After every run there is a ledger of the reports, by their numbers.  At each place it lists the reports of
the errors that lie there, in the same order; all reports are listed, each once, and apart from the global list
and the pending collectors there is nothing.  A report is in the global list if and only if the commits after it
were, in order of time among others, those of its way up.  Reports to one collector are there in their order.
Whatever was in the global list earlier in the run still starts it. -/
theorem reports_accounted {events : List Event} {s : Collectors} (h : run? events = some s) :
    (∃ ledger : Option Nat → List Nat,
      (∀ p, (s.contents p).map some = (ledger p).map (errorAt? events)) ∧
      (s.places.flatMap ledger).Perm (reportsIn events) ∧ (∀ p, p ∉ s.places → s.contents p = []) ∧
      (∀ i c, targetAt? events i = some c → ∃ path, s.WayUp c path ∧
        (i ∈ ledger none ↔ path.Sublist (commitsIn (events.drop (i + 1))))) ∧
      ∀ i j c, targetAt? events i = some c → targetAt? events j = some c → i < j →
        i ∈ ledger none → j ∈ ledger none → [i, j].Sublist (ledger none)) ∧
    ∀ earlier, earlier <+: events → ∃ t, run? earlier = some t ∧ t.reported <+: s.reported := by
  constructor
  · obtain ⟨l⟩ := Ledger.start.run h
    exact ⟨l.entries, l.errors, l.entries_perm, fun _ hp => l.contents_eq_nil hp,
      fun _ _ hi => l.published_iff hi, fun _ _ _ hi hj hij => l.pair_sublist hi hj hij⟩
  · rintro earlier ⟨later, rfl⟩
    rw [run?, runFrom?_append] at h
    obtain ⟨t, ht, hlater⟩ := Option.bind_eq_some_iff.1 h
    exact ⟨t, ht, runFrom?_grows hlater⟩

/-- A pending collector below a pending one, committed too early, in order and once too often. -/
def hasty : List Event :=
  [.addFunction "main", .addPending 0, .addPending 1,
    .report 2 ⟨"main", .binary .div (.number 1) (.number 0), .divisionByZero⟩, .commit 1, .commit 2,
    .report 2 ⟨"main", .binary .div (.number 0) (.number 0), .divisionByZero⟩, .commit 1, .commit 1]

theorem hasty_accounted :
    ∃ s, run? hasty = some s ∧ ∃ ledger : Option Nat → List Nat,
      (s.places.flatMap ledger).Perm [3, 6] ∧ 3 ∈ ledger none ∧ 6 ∉ ledger none ∧
      s.reported.map some = (ledger none).map (errorAt? hasty) := by
  obtain ⟨s, hs⟩ : ∃ s, run? hasty = some s := ⟨_, rfl⟩
  obtain ⟨⟨ledger, herrors, hperm, -, hpublished, -⟩, -⟩ := reports_accounted hs
  have hway : s.WayUp 2 [2, 1] := by
    cases hs
    exact .pending rfl (.pending rfl (.root (by decide) rfl))
  obtain ⟨path, hpath, h3⟩ := hpublished 3 2 rfl
  obtain ⟨path', hpath', h6⟩ := hpublished 6 2 rfl
  rw [← hway.unique hpath] at h3
  rw [← hway.unique hpath'] at h6
  exact ⟨s, hs, ledger, hperm, h3.2 (by decide), fun hmem => absurd (h6.1 hmem) (by decide), herrors none⟩

end ConstFold.Collectors
