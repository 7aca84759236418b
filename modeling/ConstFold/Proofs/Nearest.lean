import ConstFold.Project
import ConstFold.Proofs.Texts
import Mathlib.Order.Bounds.Basic

/-!
# The nearest configuration

Whatever it runs in, the search answers for the first directory on its way that has a file
(`Configuration.Files.observe_firstOf`).  It looks into a directory and goes up by one, round by round, until it finds
a file or stands at the bare root (`Configuration.Files.round`).  Going up shortens the path as it is written,
whatever slashes and dots are in it, so there are no more rounds than the path has units
(`Configuration.Files.rounds_eq`).

A path in normal form is a row of components.  Going up drops the last one (`StartPath.parent_ofLocation`), so the
directories looked into are those on the way to the root, the nearest first (`Configuration.Files.search_upTo`).  The
first of them that has the file decides, and nothing above it matters (`Configuration.nearest_decides`).

Where none of them has it, the search says that there is no configuration, and only there
(`Configuration.Files.search_eq_missing_iff`).  The root is not one of them: a file there goes unseen, and what the
search says is then not true of all that is above the directory (`Configuration.missing_true_iff`).
-/

namespace ConstFold

/-! ## Paths in normal form -/

namespace Location

/-- A component that names something in its directory. -/
def IsComponent (c : Text) : Prop := c ≠ "" ∧ slash ∉ c.units ∧ c ≠ "." ∧ c ≠ ".."

instance (c : Text) : Decidable (IsComponent c) :=
  inferInstanceAs (Decidable (c ≠ "" ∧ slash ∉ c.units ∧ c ≠ "." ∧ c ≠ ".."))

def Normal (l : Location) : Prop := ∀ c ∈ l.parts, IsComponent c

instance (l : Location) : Decidable l.Normal := inferInstanceAs (Decidable (∀ c ∈ l.parts, IsComponent c))

/-- The directory that the first `k` components of a location lead to. -/
def upTo (l : Location) (k : Nat) : Location := ⟨l.parts.take k⟩

/-- The configuration file of a directory. -/
def configurationFile (l : Location) : Location := ⟨l.parts ++ [Configuration.fileName]⟩

end Location

/-! ## The loop -/

/-- The path as it is written. -/
def StartPath.text (d : StartPath) : Text := ⟨Location.slash :: d.tail⟩

namespace Configuration

/-- What is where, as the search sees it: what there is, and the texts of files that can be read. -/
structure Files where
  holds : Location → Bool
  text? : Location → Option Text

namespace Files

def search (files : Files) (start : StartPath) : Except Problem (Configuration Location) :=
  Id.run (Configuration.search (fun l => pure (files.holds l)) (fun l => pure (files.text? l)) start)

/-- The answer for the first of the directories that has a configuration file. -/
def answer (files : Files) (dirs : List StartPath) : Except Problem (Configuration Location) :=
  match dirs.find? fun d => files.holds (d.resolve fileName) with
  | none => .error .missing
  | some dir => ofFile dir (files.text? (dir.resolve fileName))

/-- One round: an answer, or the directory to go on with. -/
def round (files : Files) (d : StartPath) : Except Problem (Configuration Location) ⊕ StartPath :=
  if d.text = "/" then .inl (.error .missing)
  else if files.holds (d.resolve fileName) then .inl (ofFile d (files.text? (d.resolve fileName)))
  else .inr d.parent

/-- The answer after at most so many rounds, if there is one by then. -/
def rounds (files : Files) : Nat → StartPath → Option (Except Problem (Configuration Location))
  | 0, _ => none
  | n + 1, d =>
    match files.round d with
    | .inl answer => some answer
    | .inr next => files.rounds n next

/-- Of the directories on the way to a location that have a configuration file, the one that the first `k`
components lead to is the nearest. -/
def IsNearest (files : Files) (l : Location) (k : Nat) : Prop :=
  IsGreatest {k | 1 ≤ k ∧ k ≤ l.parts.length ∧ files.holds (l.upTo k).configurationFile = true} k

end Files

end Configuration

/-! ## Paths as they are written -/

namespace StartPath

theorem ofText?_eq_some_iff {s : Text} {d : StartPath} : ofText? s = some d ↔ s = d.text := by
  obtain ⟨tail⟩ := d
  obtain ⟨units⟩ := s
  cases units with
  | nil => simp [ofText?, text]
  | cons u units =>
    simp only [ofText?, text, Text.mk.injEq, List.cons.injEq]
    split
    · rename_i hu
      simp [hu]
    · rename_i hu
      simp [hu]

theorem text_eq_iff {d : StartPath} : d.text = "/" ↔ d.tail = [] := by
  constructor
  · intro h
    exact (List.cons.inj (congrArg Text.units h)).2
  · intro h
    exact congrArg (fun tail => Text.mk (Location.slash :: tail)) h

theorem chain_of_nil {d : StartPath} (h : d.tail = []) : d.chain = [] := by
  rw [chain, dif_pos h]

theorem chain_of_ne_nil {d : StartPath} (h : d.tail ≠ []) : d.chain = d :: d.parent.chain := by
  rw [chain, dif_neg h]

end StartPath

namespace Configuration.Files

/-- A search that sees the files, wherever it runs, answers for the first directory that has one. -/
theorem observe_firstOf {m : Type → Type} [Monad m] {β : Type} (files : Files) {pathExists : Location → m Bool}
    {readText? : Location → m (Option Text)} (observe : m (Except Problem (Configuration Location)) → β)
    (hexists : ∀ l next, observe (pathExists l >>= next) = observe (next (files.holds l)))
    (hread : ∀ l next, observe (readText? l >>= next) = observe (next (files.text? l))) (dirs : List StartPath) :
    observe (firstOf pathExists readText? dirs) = observe (pure (files.answer dirs)) := by
  unfold answer
  induction dirs with
  | nil => rfl
  | cons dir dirs ih =>
    rw [firstOf, hexists, List.find?_cons]
    -- the search goes on only past a directory without the file
    cases files.holds (dir.resolve fileName) with
    | true => exact hread _ _
    | false => exact ih

theorem search_eq (files : Files) (d : StartPath) : files.search d = files.answer d.chain :=
  files.observe_firstOf Id.run (fun _ _ => rfl) (fun _ _ => rfl) d.chain

/-- A round answers as the search does, or leads on to where the search answers the same. -/
theorem round_search (files : Files) (d : StartPath) :
    files.round d = .inl (files.search d) ∨
      files.round d = .inr d.parent ∧ d.tail ≠ [] ∧ files.search d = files.search d.parent := by
  unfold round
  by_cases htail : d.tail = []
  · left
    rw [if_pos (StartPath.text_eq_iff.2 htail), search_eq, StartPath.chain_of_nil htail]
    rfl
  · rw [if_neg (fun h => htail (StartPath.text_eq_iff.1 h))]
    have hsearch := files.search_eq d
    rw [StartPath.chain_of_ne_nil htail, answer, List.find?_cons] at hsearch
    cases h : files.holds (d.resolve fileName) with
    | true =>
      left
      rw [h] at hsearch
      rw [if_pos rfl, hsearch]
    | false =>
      right
      rw [h] at hsearch
      exact ⟨if_neg (by decide), htail, hsearch.trans (files.search_eq d.parent).symm⟩

/-- A file that is there is never reported as missing. -/
theorem ofFile_ne_missing (dir : StartPath) (text? : Option Text) : ofFile dir text? ≠ .error .missing := by
  unfold ofFile
  split
  · simp
  · split <;> simp

/-- The search ends: there are no more rounds than units in the path. -/
theorem rounds_eq (files : Files) {d : StartPath} {n : Nat} (h : d.tail.length < n) :
    files.rounds n d = some (files.search d) := by
  induction n generalizing d with
  | zero => omega
  | succ n ih =>
    unfold rounds
    rcases files.round_search d with hround | ⟨hround, htail, hsearch⟩
    · rw [hround]
    · have hlt := d.parent_length_lt htail
      rw [hround, hsearch]
      exact ih (by omega)

end Configuration.Files

/-! ## Components -/

namespace Location

theorem Normal.of_append {init : List Text} {c : Text} (h : Normal ⟨init ++ [c]⟩) :
    Normal ⟨init⟩ ∧ IsComponent c :=
  ⟨fun d hd => h d (List.mem_append_left _ hd), h c (List.mem_append_right _ (List.mem_singleton_self c))⟩

theorem step_component (l : Location) {c : Text} (h : IsComponent c) : l.step c.units = ⟨l.parts ++ [c]⟩ := by
  obtain ⟨hempty, -, hdot, hdots⟩ := h
  have hempty' : c.units ≠ [] := fun he => hempty (Text.ext he)
  have hdot' : c.units ≠ [dot] := fun he => hdot (Text.ext he)
  have hdots' : c.units ≠ [dot, dot] := fun he => hdots (Text.ext he)
  rw [step, if_neg (by simp [hempty', hdot']), if_neg hdots']

/-- Components are followed one by one. -/
theorem foldl_step {parts : List Text} (h : ∀ c ∈ parts, IsComponent c) (l : Location) :
    (parts.map Text.units).foldl step l = ⟨l.parts ++ parts⟩ := by
  induction parts generalizing l with
  | nil => simp
  | cons c parts ih =>
    rw [List.map_cons, List.foldl_cons, step_component l (h c List.mem_cons_self),
      ih (fun d hd => h d (List.mem_cons_of_mem c hd)), List.append_assoc, List.singleton_append]

theorem Normal.upTo {l : Location} (h : l.Normal) (k : Nat) : (l.upTo k).Normal :=
  fun c hc => h c (List.mem_of_mem_take hc)

theorem upTo_length (l : Location) : l.upTo l.parts.length = l := by
  rw [upTo, List.take_length]

/-- The directories that a location lies in are those on the way to it. -/
theorem within_iff_upTo {l dir : Location} : l.within dir = true ↔ ∃ k, k ≤ l.parts.length ∧ dir = l.upTo k := by
  obtain ⟨parts⟩ := dir
  rw [within_iff]
  constructor
  · intro hprefix
    exact ⟨parts.length, hprefix.length_le, congrArg mk (List.prefix_iff_eq_take.1 hprefix)⟩
  · rintro ⟨k, -, hdir⟩
    rw [hdir]
    exact List.take_prefix k l.parts

theorem upTo_eq_root_iff {l : Location} {k : Nat} (hk : k ≤ l.parts.length) : l.upTo k = root ↔ k = 0 := by
  constructor
  · intro hroot
    have hlength := congrArg (fun dir => dir.parts.length) hroot
    simp only [upTo, root, List.length_take, List.length_nil] at hlength
    omega
  · rintro rfl
    rfl

end Location

namespace StartPath

open Location

theorem tail_ofLocation (l : Location) : (ofLocation l).tail = [slash].intercalate (l.parts.map Text.units) := rfl

theorem location_ofLocation {l : Location} (h : l.Normal) : (ofLocation l).location = l := by
  rw [location, walk, tail_ofLocation]
  cases hl : l.parts with
  | nil =>
    obtain ⟨parts⟩ := l
    subst hl
    rfl
  | cons c parts =>
    have hslash : ∀ s ∈ (c :: parts).map Text.units, slash ∉ s := by
      intro s hs
      obtain ⟨d, hd, rfl⟩ := List.mem_map.1 hs
      exact (h d (by rw [hl]; exact hd)).2.1
    rw [List.splitOn_intercalate slash hslash (by simp), foldl_step (by rw [← hl]; exact h)]
    obtain ⟨parts'⟩ := l
    simpa [root] using hl.symm

/-- Seen from a directory in normal form, a path leads where its components do. -/
theorem resolve_ofLocation {l : Location} (h : l.Normal) (path : Text) :
    (ofLocation l).resolve path = l.follow path := by
  rw [resolve, location_ofLocation h]

theorem follow_fileName (l : Location) : l.follow Configuration.fileName = l.configurationFile := by
  have hname : IsComponent Configuration.fileName := by decide
  exact Location.step_component l hname

theorem tail_ofLocation_cons (c : Text) {parts : List Text} (h : parts ≠ []) :
    (ofLocation ⟨c :: parts⟩).tail = c.units ++ slash :: (ofLocation ⟨parts⟩).tail := by
  rw [tail_ofLocation, List.map_cons, List.intercalate_cons_of_ne_nil (by simpa using h), List.append_assoc]
  rfl

theorem tail_ofLocation_append (init : List Text) (c : Text) :
    (ofLocation ⟨init ++ [c]⟩).tail =
      if init = [] then c.units else (ofLocation ⟨init⟩).tail ++ slash :: c.units := by
  induction init with
  | nil => simp [tail_ofLocation]
  | cons d init ih =>
    rw [if_neg (List.cons_ne_nil d init), List.cons_append, tail_ofLocation_cons d (by simp), ih]
    split
    · rename_i hinit
      subst hinit
      simp [tail_ofLocation]
    · rename_i hinit
      rw [tail_ofLocation_cons d hinit, List.append_assoc, List.cons_append]

/-- The last component of a path, which has no slash in it, is cut off. -/
theorem beforeLast_append {s : List CodeUnit} (hs : s ≠ []) (hslash : slash ∉ s) (t : List CodeUnit) :
    beforeLast (t ++ s) = t.reverse.dropWhile (· != slash) := by
  have hkeep : (s.reverse ++ t.reverse).dropWhile (· == slash) = s.reverse ++ t.reverse := by
    cases hr : s.reverse with
    | nil => exact absurd (List.reverse_eq_nil_iff.1 hr) hs
    | cons c r =>
      have hc : c ∈ s := List.mem_reverse.1 (hr ▸ List.mem_cons_self)
      have hne : c ≠ slash := fun h => hslash (h ▸ hc)
      simp [hne]
  rw [beforeLast, List.reverse_append, hkeep, List.dropWhile_append_of_pos]
  intro c hc
  have hne : c ≠ slash := fun h => hslash (h ▸ List.mem_reverse.1 hc)
  simp [hne]

theorem tail_ofLocation_ne_nil {l : Location} (h : l.Normal) (hl : l.parts ≠ []) : (ofLocation l).tail ≠ [] := by
  obtain ⟨parts⟩ := l
  obtain ⟨init, c, rfl⟩ : ∃ init c, parts = init ++ [c] :=
    ⟨parts.dropLast, parts.getLast hl, (List.dropLast_concat_getLast hl).symm⟩
  have hc : c.units ≠ [] := fun he => h.of_append.2.1 (Text.ext he)
  rw [tail_ofLocation_append]
  split
  · exact hc
  · simp

/-- Going up from a path in normal form drops its last component. -/
theorem parent_ofLocation {init : List Text} {c : Text} (h : Normal ⟨init ++ [c]⟩) :
    (ofLocation ⟨init ++ [c]⟩).parent = ofLocation ⟨init⟩ := by
  obtain ⟨hinit, hc⟩ := h.of_append
  have hne : c.units ≠ [] := fun he => hc.1 (Text.ext he)
  unfold parent
  rw [tail_ofLocation_append]
  by_cases hnil : init = []
  · have hbefore := beforeLast_append hne hc.2.1 []
    rw [List.nil_append] at hbefore
    rw [if_pos hnil, hbefore, hnil]
    rfl
  · have hbefore := beforeLast_append hne hc.2.1 ((ofLocation ⟨init⟩).tail ++ [slash])
    rw [List.append_assoc, List.singleton_append, List.reverse_append] at hbefore
    rw [if_neg hnil, hbefore]
    -- what is left is not only the slash, so it is cut off
    cases hr : (ofLocation ⟨init⟩).tail.reverse with
    | nil => exact absurd (List.reverse_eq_nil_iff.1 hr) (tail_ofLocation_ne_nil hinit hnil)
    | cons x xs =>
      show (⟨(x :: xs).reverse⟩ : StartPath) = ofLocation ⟨init⟩
      rw [← hr, List.reverse_reverse]

theorem parent_upTo {l : Location} (h : l.Normal) {j : Nat} (hj : j < l.parts.length) :
    (ofLocation (l.upTo (j + 1))).parent = ofLocation (l.upTo j) := by
  have hstep : l.upTo (j + 1) = ⟨l.parts.take j ++ [l.parts[j]]⟩ := by
    rw [upTo, List.take_append_getElem]
  have hnormal := h.upTo (j + 1)
  rw [hstep] at hnormal ⊢
  exact parent_ofLocation hnormal

end StartPath

/-! ## The way up -/

namespace Configuration.Files

open Location StartPath

section

variable (files : Files) {l : Location} (h : l.Normal)

include h

/-- A directory other than the root answers if it has the file, and else its parent does. -/
theorem search_upTo {j : Nat} (hj : j < l.parts.length) :
    files.search (ofLocation (l.upTo (j + 1))) =
      if files.holds (l.upTo (j + 1)).configurationFile then
        ofFile (ofLocation (l.upTo (j + 1))) (files.text? (l.upTo (j + 1)).configurationFile)
      else files.search (ofLocation (l.upTo j)) := by
  have hnormal := h.upTo (j + 1)
  have htail : (ofLocation (l.upTo (j + 1))).tail ≠ [] := by
    apply tail_ofLocation_ne_nil hnormal
    intro hnil
    have := congrArg List.length hnil
    simp only [upTo, List.length_take, List.length_nil] at this
    omega
  rw [search_eq, search_eq, chain_of_ne_nil htail, parent_upTo h hj, answer, List.find?_cons,
    resolve_ofLocation hnormal, follow_fileName]
  cases files.holds (l.upTo (j + 1)).configurationFile with
  | true => simp [resolve_ofLocation hnormal, follow_fileName]
  | false => rfl

/-- The nearest file is found from everywhere below it. -/
theorem search_of_nearest {k : Nat} (hpos : 1 ≤ k) (hfile : files.holds (l.upTo k).configurationFile = true) {j : Nat}
    (hkj : k ≤ j) (hj : j ≤ l.parts.length)
    (hnone : ∀ i, k < i → i ≤ j → files.holds (l.upTo i).configurationFile = false) :
    files.search (ofLocation (l.upTo j)) =
      ofFile (ofLocation (l.upTo k)) (files.text? (l.upTo k).configurationFile) := by
  induction j, hkj using Nat.le_induction with
  | base =>
    obtain ⟨i, rfl⟩ : ∃ i, k = i + 1 := ⟨k - 1, by omega⟩
    rw [files.search_upTo h (by omega), if_pos hfile]
  | succ j hkj ih =>
    rw [files.search_upTo h (by omega), hnone (j + 1) (by omega) (Nat.le_refl _), if_neg (by decide)]
    exact ih (by omega) (fun i hi hij => hnone i hi (by omega))

/-- Without a file on the way up there is no configuration. -/
theorem search_of_none {j : Nat} (hj : j ≤ l.parts.length)
    (hnone : ∀ i, 1 ≤ i → i ≤ j → files.holds (l.upTo i).configurationFile = false) :
    files.search (ofLocation (l.upTo j)) = .error .missing := by
  induction j with
  | zero =>
    have htail : (ofLocation (l.upTo 0)).tail = [] := rfl
    rw [search_eq, chain_of_nil htail]
    rfl
  | succ j ih =>
    rw [files.search_upTo h (by omega), hnone (j + 1) (by omega) (Nat.le_refl _), if_neg (by decide)]
    exact ih (by omega) (fun i hi hij => hnone i hi (by omega))

/-- If there is no configuration, no directory on the way up has the file, the root apart. -/
theorem none_of_search {j : Nat} (hj : j ≤ l.parts.length)
    (hsearch : files.search (ofLocation (l.upTo j)) = .error .missing) {i : Nat} (hpos : 1 ≤ i) (hij : i ≤ j) :
    files.holds (l.upTo i).configurationFile = false := by
  induction j with
  | zero => omega
  | succ j ih =>
    rw [files.search_upTo h (by omega)] at hsearch
    cases hfile : files.holds (l.upTo (j + 1)).configurationFile with
    | true =>
      rw [hfile, if_pos rfl] at hsearch
      exact absurd hsearch (ofFile_ne_missing _ _)
    | false =>
      rw [hfile, if_neg (by decide)] at hsearch
      rcases Nat.lt_or_eq_of_le hij with hlt | rfl
      · exact ih (by omega) hsearch (by omega)
      · exact hfile

theorem search_eq_missing_iff :
    files.search (ofLocation l) = .error .missing ↔
      ∀ dir, l.within dir = true → dir ≠ root → files.holds dir.configurationFile = false := by
  constructor
  · intro hsearch dir hdir hroot
    obtain ⟨k, hk, rfl⟩ := within_iff_upTo.1 hdir
    have hpos : k ≠ 0 := fun hzero => hroot ((upTo_eq_root_iff hk).2 hzero)
    rw [← l.upTo_length] at hsearch
    exact files.none_of_search h (Nat.le_refl _) hsearch (by omega) hk
  · intro hnone
    have hsearch := files.search_of_none h (Nat.le_refl _) fun i hpos hi =>
      hnone (l.upTo i) (within_iff_upTo.2 ⟨i, hi, rfl⟩) fun hroot => by
        have := (upTo_eq_root_iff hi).1 hroot
        omega
    rwa [upTo_length] at hsearch

end

end Configuration.Files

/-! ## Top theorem -/

theorem StartPath.text_ofLocation (l : Location) : (ofLocation l).text = l.text := rfl

namespace Configuration

open StartPath

/-- **The search ends, and the nearest file decides.**  From every path that begins with a slash there are no more
rounds than the path has units.  From a path in normal form, the file in the nearest directory on the way up
decides whether there is a configuration and which, seen from that directory; neither what is further up nor what
is in it matters.  Where there is no file at all, the search says so. -/
theorem nearest_decides :
    (∀ s : Text, s.units.head? = some Location.slash → ∃ start, StartPath.ofText? s = some start ∧
      ∀ (files : Files) (n : Nat), s.units.length ≤ n → files.rounds n start = some (files.search start)) ∧
    ∀ l : Location, l.Normal → l.parts ≠ [] → ∃ start, StartPath.ofText? l.text = some start ∧ ∀ files : Files,
      (∀ k, files.IsNearest l k →
        (files.text? (l.upTo k).configurationFile = none → files.search start = .error .unreadable) ∧
        (∀ text, files.text? (l.upTo k).configurationFile = some text → Configuration.ofText? text = none →
          files.search start = .error .unparsable) ∧
        (∀ text c, files.text? (l.upTo k).configurationFile = some text → Configuration.ofText? text = some c →
          files.search start =
            .ok ⟨(l.upTo k).follow c.input, (l.upTo k).follow c.output, c.maximumExponent, c.verbose⟩) ∧
        ∀ other : Files, (∀ j, k ≤ j → j ≤ l.parts.length →
            other.holds (l.upTo j).configurationFile = files.holds (l.upTo j).configurationFile) →
          other.text? (l.upTo k).configurationFile = files.text? (l.upTo k).configurationFile →
            other.search start = files.search start) ∧
      ((∀ k, 1 ≤ k → k ≤ l.parts.length → files.holds (l.upTo k).configurationFile = false) →
        files.search start = .error .missing) := by
  refine ⟨fun s hs => ?_, fun l hl hparts => ⟨ofLocation l, ?_, fun files => ⟨fun k hk => ?_, fun hnone => ?_⟩⟩⟩
  · obtain ⟨tail, htail⟩ : ∃ tail, s.units = Location.slash :: tail := List.head?_eq_some_iff.1 hs
    refine ⟨⟨tail⟩, ofText?_eq_some_iff.2 (Text.ext htail), fun files n hn => files.rounds_eq ?_⟩
    rw [htail, List.length_cons] at hn
    exact hn
  · exact ofText?_eq_some_iff.2 (text_ofLocation l).symm
  · obtain ⟨⟨hpos, hle, hfile⟩, hmax⟩ := hk
    have habove (i : Nat) (hi : k < i) (hil : i ≤ l.parts.length) :
        files.holds (l.upTo i).configurationFile = false := by
      apply Bool.eq_false_iff.2
      intro hheld
      have := hmax ⟨by omega, hil, hheld⟩
      omega
    have hsearch := files.search_of_nearest hl hpos hfile hle (Nat.le_refl _) habove
    rw [Location.upTo_length] at hsearch
    refine ⟨fun hread => ?_, fun text hread hc => ?_, fun text c hread hc => ?_, fun other hholds htext => ?_⟩
    · rw [hsearch, hread]
      rfl
    · rw [hsearch, hread, ofFile, hc]
    · rw [hsearch, hread, ofFile, hc]
      simp only [resolve, resolve_ofLocation (hl.upTo k)]
    · have hfile' : other.holds (l.upTo k).configurationFile = true := by rw [hholds k (Nat.le_refl k) hle, hfile]
      have hother := other.search_of_nearest hl hpos hfile' hle (Nat.le_refl _)
        (fun i hi hil => by rw [hholds i (by omega) hil, habove i hi hil])
      rw [Location.upTo_length] at hother
      rw [hother, hsearch, htext]
  · have hsearch := files.search_of_none hl (Nat.le_refl _) hnone
    rwa [Location.upTo_length] at hsearch

/-- A good file in `/home/user` and a broken one in `/home`. -/
def twoFiles : Files where
  holds l := l = ⟨["home", "user", fileName]⟩ || l = ⟨["home", fileName]⟩
  text? l :=
    if l = ⟨["home", "user", fileName]⟩ then some "\x7b \"output\": \"/tmp/out.json\", \"verbose\": true \x7d"
    else some "\x7b"

/-- A directory two levels below `/home/user`. -/
def sources : Location := ⟨["home", "user", "project", "src"]⟩

theorem twoFiles_nearest :
    twoFiles.IsNearest sources 2 ∧
      ∃ start, StartPath.ofText? "/home/user/project/src" = some start ∧
        twoFiles.search start =
          .ok ⟨⟨["home", "user", "build", "typed.json"]⟩, ⟨["tmp", "out.json"]⟩, 4294967295, true⟩ := by
  have hbelow : ∀ k ≤ 4, twoFiles.holds (sources.upTo k).configurationFile = true → k ≤ 2 := by decide
  have hnearest : twoFiles.IsNearest sources 2 := ⟨by decide, fun k hk => hbelow k hk.2.1 hk.2.2⟩
  have hread : Configuration.ofText? "\x7b \"output\": \"/tmp/out.json\", \"verbose\": true \x7d" =
      some ⟨"build/typed.json", "/tmp/out.json", 4294967295, true⟩ := by decide +kernel
  have hinput : (sources.upTo 2).follow "build/typed.json" = ⟨["home", "user", "build", "typed.json"]⟩ := by decide
  have houtput : (sources.upTo 2).follow "/tmp/out.json" = ⟨["tmp", "out.json"]⟩ := by decide
  obtain ⟨start, hstart, h⟩ := nearest_decides.2 sources (by decide) (by decide)
  refine ⟨hnearest, start, hstart, ?_⟩
  rw [((h twoFiles).1 2 hnearest).2.2.1 _ _ rfl hread, hinput, houtput]

/-! ## No configuration -/

/-- **What it says that there is no configuration.**  From a path in normal form, the root included, the search says so
exactly if none of the directories on the way up has the file, the root apart: that one is not looked into.  So when it
says so, it is true of the directory and all that are above it exactly if the root has no file either. -/
theorem missing_true_iff (l : Location) (hl : l.Normal) :
    ∃ start, StartPath.ofText? l.text = some start ∧ ∀ files : Files,
      (files.search start = .error .missing ↔
        ∀ dir, l.within dir = true → dir ≠ .root → files.holds dir.configurationFile = false) ∧
      (files.search start = .error .missing →
        ((∀ dir, l.within dir = true → files.holds dir.configurationFile = false) ↔
          files.holds Location.root.configurationFile = false)) := by
  refine ⟨ofLocation l, ofText?_eq_some_iff.2 (text_ofLocation l).symm, fun files => ?_⟩
  have hmissing := files.search_eq_missing_iff hl
  refine ⟨hmissing, fun hsearch => ⟨fun hnone => ?_, fun hroot dir hdir => ?_⟩⟩
  · exact hnone .root (Location.within_iff.2 List.nil_prefix)
  · by_cases hdirRoot : dir = .root
    · rw [hdirRoot, hroot]
    · exact hmissing.1 hsearch dir hdir hdirRoot

/-- A configuration file in one directory, and nothing else. -/
def onlyIn (dir : Location) : Files where
  holds l := l = dir.configurationFile
  text? l := if l = dir.configurationFile then some "\x7b\x7d" else none

/-- The directory `/home/user`. -/
def userHome : Location := ⟨["home", "user"]⟩

theorem onlyIn_neighbour_missing :
    userHome.Normal ∧ ∃ start, StartPath.ofText? "/home/user" = some start ∧
      (onlyIn ⟨["home", "other"]⟩).search start = .error .missing ∧
        ∀ dir, userHome.within dir = true → (onlyIn ⟨["home", "other"]⟩).holds dir.configurationFile = false := by
  have hnone (dir : Location) (hdir : userHome.within dir = true) :
      (onlyIn ⟨["home", "other"]⟩).holds dir.configurationFile = false := by
    obtain ⟨k, hk, rfl⟩ := Location.within_iff_upTo.1 hdir
    revert k
    decide
  obtain ⟨start, hstart, h⟩ := missing_true_iff userHome (by decide)
  have hsearch := (h (onlyIn ⟨["home", "other"]⟩)).1.2 fun dir hdir _ => hnone dir hdir
  exact ⟨by decide, start, hstart, hsearch, ((h _).2 hsearch).2 (by decide)⟩

/-- From `/home/user`, the only configuration file being `/circuitc.json`, the search says that there is none. -/
theorem onlyIn_root_overlooked :
    ∃ start, StartPath.ofText? "/home/user" = some start ∧
      (onlyIn .root).search start = .error .missing ∧
      Problem.missing.reason = "No circuitc.json in this directory or any of its parents." ∧
      userHome.within .root = true ∧ (onlyIn .root).holds Location.root.configurationFile = true := by
  refine ⟨ofLocation userHome, rfl, ((onlyIn .root).search_eq_missing_iff (by decide)).2 ?_, by decide +kernel, rfl,
    by decide⟩
  intro dir hdir hroot
  obtain ⟨k, hk, rfl⟩ := Location.within_iff_upTo.1 hdir
  revert k
  decide

end Configuration

end ConstFold
