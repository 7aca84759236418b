import ConstFold.World
import ConstFold.Proofs.Documents
import ConstFold.Proofs.Nearest

/-!
# What a run writes

The command is run in a world (`World.after`).  Looking for a configuration, reading and speaking leave the
file tree alone, so a run that does no more than that ends with the tree it found
(`World.tree_after_of_not_propagates`, `World.tree_after_of_not_yields`).  Only a propagation that succeeds goes
on to `Command.store` (`World.after_of_yields`), and of all files that one changes at most the one it is told to
(`World.perform_store`).  What is written, and where, and with which code a run ends otherwise is put together
in `World.after_writes_output_only`.

A place is looked up as the disk spells it (`Location.onDisk`).  A document that propagation gives back has no
surrogate half that stands alone (`Document.isUnicode_of_propagate`), so the disk keeps it as it is.
-/

namespace ConstFold

/-! ## Actions in a world -/

namespace World

variable {α β : Type}

/-- What an action gives, and the world it leaves. -/
def perform (w : World) (act : StateM World α) : α × World := (act.run w).run

theorem perform_pure (w : World) (a : α) : w.perform (pure a) = (a, w) := rfl

theorem perform_bind (w : World) (act : StateM World α) (next : α → StateM World β) :
    w.perform (act >>= next) = (w.perform act).2.perform (next (w.perform act).1) := rfl

theorem perform_readText (w : World) (l : Location) : w.perform (host.readText l) = (w.readText l.onDisk, w) := rfl

theorem perform_say (w : World) (text : Text) :
    w.perform (host.say text) = ((), { w with output := w.output ++ [text] }) := rfl

theorem perform_complain (w : World) (text : Text) :
    w.perform (host.complain text) = ((), { w with errors := w.errors ++ [text] }) := rfl

theorem perform_update (w : World) (change : World → Except FileError FileTree) :
    w.perform (update change) =
      match change w with
      | .ok tree => (.ok (), { w with tree })
      | .error e => (.error e, w) := by
  show ((match change w with
    | .ok tree => (do set { w with tree }; return .ok ())
    | .error e => return .error e : StateM World (Except FileError Unit)).run w).run = _
  cases change w <;> rfl

theorem perform_sayAll (w : World) (texts : List Text) :
    w.perform (Command.sayAll host texts) = ((), { w with output := w.output ++ texts }) := by
  induction texts generalizing w with
  | nil => simp [Command.sayAll, perform_pure]
  | cons text texts ih => simp [Command.sayAll, perform_bind, perform_say, ih]

theorem perform_complainAll (w : World) (texts : List Text) :
    w.perform (Command.complainAll host texts) = ((), { w with errors := w.errors ++ texts }) := by
  induction texts generalizing w with
  | nil => simp [Command.complainAll, perform_pure]
  | cons text texts ih => simp [Command.complainAll, perform_bind, perform_complain, ih]

theorem perform_giveUp (w : World) (code : ExitCode) (texts : List Text) :
    w.perform (Command.giveUp host code texts) = (.exited code, { w with errors := w.errors ++ texts }) := by
  rw [Command.giveUp, perform_bind, perform_complainAll, perform_pure]

/-! ## The configuration -/

/-- The files of a world as the search sees them. -/
def files (w : World) : Configuration.Files where
  holds l := w.tree.pathExists l.onDisk
  text? l := (w.readText l.onDisk).toOption

/-- The configuration in the nearest directory that has one, as seen from there. -/
def configuration (w : World) (dir : Location) : Except Configuration.Problem (Configuration Location) :=
  w.files.search (.ofLocation dir)

/-- The directory has something under the name of a configuration file. -/
def isProject (w : World) (d : StartPath) : Bool := w.tree.pathExists (d.resolve Configuration.fileName).onDisk

/-- The nearest directory with a configuration file is `project`, and its file holds the configuration `c`. -/
structure Loads (w : World) (dir : Location) (project : StartPath) (c : Configuration Text) : Prop where
  nearest : (StartPath.ofLocation dir).chain.find? w.isProject = some project
  holds : ∃ text, w.readText (project.resolve Configuration.fileName).onDisk = .ok text ∧
    Configuration.ofText? text = some c

theorem perform_search (w : World) (start : StartPath) :
    w.perform (Configuration.search host.pathExists (Command.readText? host) start) = (w.files.search start, w) := by
  rw [Configuration.Files.search_eq]
  exact w.files.observe_firstOf w.perform (fun _ _ => rfl) (fun _ _ => rfl) start.chain

theorem perform_configured (w : World) (dir : Location) (next : Configuration Location → StateM World Ending) :
    w.perform (Command.configured host dir next) =
      w.perform (Command.orExplain host next (w.configuration dir)) := by
  rw [Command.configured, perform_bind, perform_search]
  rfl

theorem configuration_eq (w : World) (dir : Location) :
    w.configuration dir =
      match (StartPath.ofLocation dir).chain.find? w.isProject with
      | none => .error .missing
      | some project =>
        Configuration.ofFile project (w.readText (project.resolve Configuration.fileName).onDisk).toOption :=
  w.files.search_eq (.ofLocation dir)

theorem configuration_eq_ok_iff (w : World) (dir : Location) (found : Configuration Location) :
    w.configuration dir = .ok found ↔ ∃ project c, w.Loads dir project c ∧ found = c.resolve project := by
  rw [configuration_eq]
  constructor
  · intro h
    split at h
    · cases h
    · rename_i project hnearest
      unfold Configuration.ofFile at h
      split at h
      · cases h
      · rename_i text htext
        split at h
        · cases h
        · rename_i c hc
          cases h
          refine ⟨project, c, ⟨hnearest, text, ?_, hc⟩, rfl⟩
          cases hread : w.readText (project.resolve Configuration.fileName).onDisk with
          | error e => simp [hread, Except.toOption] at htext
          | ok read =>
            rw [hread] at htext
            exact congrArg Except.ok (Option.some.inj htext)
  · rintro ⟨project, c, ⟨hnearest, text, hread, hc⟩, rfl⟩
    simp [hnearest, hread, Except.toOption, Configuration.ofFile, hc]

end World

/-! ## Files -/

namespace Location

/-- What holds the directory of a location holds the location, and is not it. -/
theorem below_of_parent_within {l dir : Location} (hroot : l.parts ≠ []) (h : l.parent.within dir = true) :
    dir ≠ l ∧ l.within dir = true := by
  rw [within_iff] at h
  constructor
  · rintro rfl
    have hlen : dir.parts.length ≤ dir.parts.dropLast.length := h.length_le
    have hpos : 0 < dir.parts.length := List.length_pos_iff.2 hroot
    rw [List.length_dropLast] at hlen
    omega
  · exact within_iff.2 (h.trans (List.dropLast_prefix l.parts))

end Location

namespace FileTree

theorem text?_addFile (t : FileTree) (l other : Location) (text : Text) :
    (t.addFile l text).text? other = if other = l then some text else t.text? other :=
  Keyed.lookup_put l other text t.files

theorem text?_addDirectory (t : FileTree) (dir l : Location) : (t.addDirectory dir).text? l = t.text? l := rfl

theorem isBlocked_eq_true_iff {t : FileTree} {l : Location} :
    t.isBlocked l = true ↔ ∃ file ∈ t.files, file.1 ≠ l ∧ l.within file.1 = true := by
  simp [isBlocked]

/-- Nothing stands in the way of the directory if nothing stands in the way of the file. -/
theorem makeDirectory_parent {t : FileTree} {l : Location} (hroot : l.parts ≠ []) (h : t.isBlocked l = false) :
    t.makeDirectory l.parent = .ok (t.addDirectory l.parent) := by
  -- a file that holds the directory would be in the way of the file below it too
  have hfree : ∀ file ∈ t.files, l.parent.within file.1 = false := by
    intro file hfile
    cases hw : l.parent.within file.1 with
    | false => rfl
    | true =>
      have hblocked := isBlocked_eq_true_iff.2 ⟨file, hfile, Location.below_of_parent_within hroot hw⟩
      rw [h] at hblocked
      cases hblocked
  have hblocked : t.isBlocked l.parent = false := by
    apply Bool.eq_false_iff.2
    intro hb
    obtain ⟨file, hfile, -, hw⟩ := isBlocked_eq_true_iff.1 hb
    rw [hfree file hfile] at hw
    cases hw
  have hfile : t.isFile l.parent = false := by
    apply Bool.eq_false_iff.2
    intro hf
    obtain ⟨file, hfile, he⟩ := List.lookup_isSome_iff.1 hf
    have hw := hfree file hfile
    rw [← eq_of_beq he, Location.within_self] at hw
    cases hw
  simp [makeDirectory, hblocked, hfile]

/-- Making the directory of a file makes no directory of the file itself. -/
theorem isDirectory_addDirectory_parent (t : FileTree) (l : Location) :
    (t.addDirectory l.parent).isDirectory l = t.isDirectory l := by
  by_cases hroot : l.parts = []
  · simp [isDirectory, hroot]
  · have hnot : l.parent.within l = false := by
      apply Bool.eq_false_iff.2
      intro hw
      exact (Location.below_of_parent_within hroot hw).1 rfl
    simp [isDirectory, addDirectory, hnot]

theorem writeText_addDirectory_parent (t : FileTree) (l : Location) (text : Text) :
    (t.addDirectory l.parent).writeText l text =
      if t.isDirectory l then .error .isDirectory
      else if t.isBlocked l then .error .notDirectory
      else .ok ((t.addDirectory l.parent).addFile l text) := by
  have hparent : (t.addDirectory l.parent).isDirectory l.parent = true := by
    simp [isDirectory, addDirectory, Location.within_self]
  unfold writeText
  rw [isDirectory_addDirectory_parent, hparent]
  rfl

end FileTree

namespace World

theorem permit_eq_ok_iff {α : Type} {allowed : Bool} {result : Except FileError α} {a : α} :
    permit allowed result = .ok a ↔ allowed = true ∧ result = .ok a := by
  cases result with
  | error e => simp [permit, bind, Except.bind]
  | ok b =>
    cases allowed <;>
      simp [permit, bind, Except.bind, pure, Except.pure, throw, throwThe, MonadExceptOf.throw]

/-- A file can be written there: nothing is in the way, and both the file and the directory that it needs may be
written. -/
structure Writable (w : World) (l : Location) : Prop where
  not_directory : w.tree.isDirectory l = false
  not_blocked : w.tree.isBlocked l = false
  file : w.mayWrite l = true
  directory : w.tree.isDirectory l.parent = true ∨ w.mayWrite l.parent = true

theorem parent_onDisk (l : Location) : l.parent.onDisk = l.onDisk.parent :=
  congrArg Location.mk List.map_dropLast

/-- Storing makes the directory, then writes the file, and stops at the first failure. -/
theorem perform_store_eq (w : World) (l : Location) (text : Text) :
    w.perform (Command.store host l text) =
      match w.makeDirectory l.onDisk.parent with
      | .error e => (.failed e, w)
      | .ok made =>
        match { w with tree := made }.writeText l.onDisk text.toWellFormed with
        | .error e => (.failed e, { w with tree := made })
        | .ok written => (.finished, { w with tree := written }) := by
  have hmake : w.perform (host.makeDirectory l.parent) = _ := w.perform_update (·.makeDirectory l.parent.onDisk)
  rw [Command.store, perform_bind, hmake, parent_onDisk]
  cases w.makeDirectory l.onDisk.parent with
  | error e => rfl
  | ok made =>
    have hwrite : { w with tree := made }.perform (host.writeText l text) = _ :=
      perform_update _ (·.writeText l.onDisk text.toWellFormed)
    dsimp only
    rw [perform_bind, hwrite]
    cases World.writeText { w with tree := made } l.onDisk text.toWellFormed <;> rfl

theorem makeDirectory_eq_ok {w : World} {l : Location} {made : FileTree} (h : w.makeDirectory l = .ok made) :
    made = w.tree.addDirectory l ∧ (w.tree.isDirectory l = true ∨ w.mayWrite l = true) := by
  obtain ⟨hallowed, hmade⟩ := permit_eq_ok_iff.1 h
  unfold FileTree.makeDirectory at hmade
  split at hmade
  · cases hmade
  · split at hmade
    · cases hmade
    · cases hmade
      exact ⟨rfl, by simpa using hallowed⟩

/-- Storing a row of characters succeeds exactly if the file can be written, and changes no other file. -/
theorem perform_store (w : World) {file l : Location} (hl : file.onDisk = l) {text : Text} (htext : text.IsUnicode) :
    (w.Writable l ∧ ∃ tree, w.perform (Command.store host file text) = (.finished, { w with tree }) ∧
      ∀ other, tree.text? other = if other = l then some text else w.tree.text? other) ∨
    (¬ w.Writable l ∧ ∃ e tree, w.perform (Command.store host file text) = (.failed e, { w with tree }) ∧
      ∀ other, tree.text? other = w.tree.text? other) := by
  rw [perform_store_eq, hl, htext.toWellFormed_eq]
  by_cases hw : w.Writable l
  · left
    have hroot : l.parts ≠ [] := by
      intro h
      have hdir := hw.not_directory
      simp [FileTree.isDirectory, h] at hdir
    have hmake : w.makeDirectory l.parent = .ok (w.tree.addDirectory l.parent) :=
      permit_eq_ok_iff.2 ⟨by simpa using hw.directory, FileTree.makeDirectory_parent hroot hw.not_blocked⟩
    have hwrite : { w with tree := w.tree.addDirectory l.parent }.writeText l text =
        .ok ((w.tree.addDirectory l.parent).addFile l text) := by
      refine permit_eq_ok_iff.2 ⟨hw.file, ?_⟩
      simp [FileTree.writeText_addDirectory_parent, hw.not_directory, hw.not_blocked]
    rw [hmake]
    simp only [hwrite]
    exact ⟨hw, _, rfl, fun other => FileTree.text?_addFile _ l other text⟩
  · right
    refine ⟨hw, ?_⟩
    cases hmake : w.makeDirectory l.parent with
    | error e => exact ⟨e, w.tree, rfl, fun _ => rfl⟩
    | ok made =>
      obtain ⟨rfl, hdir⟩ := makeDirectory_eq_ok hmake
      dsimp only
      cases hwrite : World.writeText { w with tree := w.tree.addDirectory l.parent } l text with
      | error e => exact ⟨e, _, rfl, FileTree.text?_addDirectory w.tree l.parent⟩
      | ok written =>
        -- a write that succeeds needs all that makes the file writable
        obtain ⟨hfile, hwritten⟩ := permit_eq_ok_iff.1 hwrite
        rw [FileTree.writeText_addDirectory_parent] at hwritten
        split at hwritten
        · cases hwritten
        · rename_i hnd
          split at hwritten
          · cases hwritten
          · rename_i hnb
            exact absurd ⟨Bool.eq_false_iff.2 hnd, Bool.eq_false_iff.2 hnb, hfile, hdir⟩ hw

end World

/-! ## Runs -/

/-- The code that the command ends with if a document has no result. -/
def Outcome.exitCode? : Outcome → Option ExitCode
  | .done _ _ => none
  | .malformed => some .invalidInput
  | .rejected _ => some .compileErrors
  | .stopped breach => some (match breach.toInternalError with
    | .ok _ => .internalError
    | .error _ => .unexpectedFailure)

namespace World

section

variable {w : World} {c : Configuration Location} {source : Text}

theorem perform_propagate_unread {e : FileError} (h : w.readText c.input.onDisk = .error e) :
    w.perform (Command.propagate host c) = (.failed e, w) := by
  rw [Command.propagate, perform_bind, perform_readText, h]
  rfl

theorem perform_propagate_done (hread : w.readText c.input.onDisk = .ok source) {output : Text}
    {summaries : List Text} (h : Document.propagate c.maximumExponent source = .done output summaries) :
    ∃ said, w.perform (Command.propagate host c) =
      { w with output := said }.perform (Command.store host c.output output) := by
  rw [Command.propagate, perform_bind, perform_readText, hread]
  simp only [h, perform_bind, perform_sayAll]
  exact ⟨_, rfl⟩

theorem perform_propagate_exited (hread : w.readText c.input.onDisk = .ok source) {code : ExitCode}
    (h : (Document.propagate c.maximumExponent source).exitCode? = some code) :
    ∃ errors, w.perform (Command.propagate host c) = (.exited code, { w with errors }) := by
  rw [Command.propagate, perform_bind, perform_readText, hread]
  cases houtcome : Document.propagate c.maximumExponent source with
  | done output summaries =>
    rw [houtcome] at h
    cases h
  | stopped breach =>
    rw [houtcome] at h
    cases h
    simp only [houtcome]
    cases breach.toInternalError with
    | ok e =>
      simp only [perform_giveUp]
      exact ⟨_, rfl⟩
    | error cause =>
      simp only [perform_giveUp]
      exact ⟨_, rfl⟩
  | _ =>
    rw [houtcome] at h
    cases h
    simp only [houtcome, perform_giveUp]
    exact ⟨_, rfl⟩

end

/-- Printing leaves the tree alone. -/
theorem tree_print (w : World) (c : Configuration Location) :
    (w.perform (Command.print host c)).2.tree = w.tree := by
  rw [Command.print, perform_bind, perform_readText]
  cases w.readText c.input.onDisk with
  | error e => rfl
  | ok source =>
    dsimp only
    cases Document.print? source with
    | none =>
      dsimp only
      rw [perform_giveUp]
    | some text => rfl

theorem tree_orExplain (w : World) {dir : Location} {next : Configuration Location → StateM World Ending}
    (h : ∀ c, w.configuration dir = .ok c → (w.perform (next c)).2.tree = w.tree) :
    (w.perform (Command.orExplain host next (w.configuration dir))).2.tree = w.tree := by
  cases hfound : w.configuration dir with
  | ok c => exact h c hfound
  | error problem => rw [Command.orExplain, perform_giveUp]

end World

/-- The arguments ask for a propagation, and not for help with it. -/
def Action.Propagates (args : List String) : Prop :=
  args = [] ∨ ∃ rest, args = "propagate" :: rest ∧ "--help" ∉ rest ∧ "-h" ∉ rest

theorem Action.ofArguments_eq_propagate_iff {args : List String} :
    Action.ofArguments args = .propagate false ↔ Action.Propagates args := by
  unfold Action.Propagates
  constructor
  · intro h
    unfold Action.ofArguments at h
    split at h
    · exact .inl rfl
    · rename_i rest
      refine .inr ⟨rest, rfl, ?_⟩
      simpa [Action.asksForHelp] using h
    · cases h
    · cases h
    · cases h
  · rintro (rfl | ⟨rest, rfl, hlong, hshort⟩)
    · rfl
    · simp [Action.ofArguments, Action.asksForHelp, hlong, hshort]

namespace World

variable {w : World} {dir : Location} {args : List String}

/-- How the run ends and the world it leaves, when the command is run in a directory. -/
def after (w : World) (dir : Location) (args : List String) : Ending × World :=
  w.perform (Command.run host dir args)

theorem after_of_propagates (h : Action.Propagates args) :
    w.after dir args = w.perform (Command.orExplain host (Command.propagate host) (w.configuration dir)) := by
  rw [after, Command.run, Action.ofArguments_eq_propagate_iff.2 h]
  exact w.perform_configured dir _

theorem tree_after_of_not_propagates (h : ¬ Action.Propagates args) : (w.after dir args).2.tree = w.tree := by
  rw [after, Command.run]
  split
  · rfl
  · rename_i hargs
    exact absurd (Action.ofArguments_eq_propagate_iff.1 hargs) h
  · rfl
  · rw [perform_configured]
    exact w.tree_orExplain fun c _ => w.tree_print c
  · rfl
  · rfl

/-- Propagation in the project of the directory comes to a text, and to the place on the disk that the
configuration gives it. -/
inductive Yields (w : World) (dir : Location) : Location → Text → Prop
  | intro {project : StartPath} {c : Configuration Text} {source text : Text} {summaries : List Text} :
      w.Loads dir project c → w.readText (project.resolve c.input).onDisk = .ok source →
      Document.propagate c.maximumExponent source = .done text summaries →
      Yields w dir (project.resolve c.output).onDisk text

theorem after_of_loads (hargs : Action.Propagates args) {project : StartPath} {c : Configuration Text}
    (h : w.Loads dir project c) :
    w.after dir args = w.perform (Command.propagate host (c.resolve project)) := by
  have hfound := (w.configuration_eq_ok_iff dir _).2 ⟨project, c, h, rfl⟩
  rw [after_of_propagates hargs, hfound]
  rfl

/-- A propagation that comes to nothing leaves the tree alone. -/
theorem tree_after_of_not_yields (hargs : Action.Propagates args)
    (h : ¬ ∃ place text, w.Yields dir place text) : (w.after dir args).2.tree = w.tree := by
  rw [after_of_propagates hargs]
  apply tree_orExplain
  intro found hfound
  obtain ⟨project, c, hloads, rfl⟩ := (w.configuration_eq_ok_iff dir found).1 hfound
  cases hread : w.readText (c.resolve project).input.onDisk with
  | error e => rw [perform_propagate_unread hread]
  | ok source =>
    cases hdone : Document.propagate (c.resolve project).maximumExponent source with
    | done text summaries => exact absurd ⟨_, _, .intro hloads hread hdone⟩ h
    | _ =>
      obtain ⟨errors, hexited⟩ := perform_propagate_exited hread (by rw [hdone]; rfl)
      rw [hexited]

/-- A propagation that comes to a text goes on to store it. -/
theorem after_of_yields (hargs : Action.Propagates args) {place : Location} {text : Text}
    (h : w.Yields dir place text) :
    ∃ said file, file.onDisk = place ∧ text.IsUnicode ∧
      w.after dir args = { w with output := said }.perform (Command.store host file text) := by
  obtain ⟨hloads, hread, hdone⟩ := h
  rename_i project c source summaries
  have hread' : w.readText (c.resolve project).input.onDisk = .ok source := hread
  obtain ⟨said, hsaid⟩ := perform_propagate_done hread' hdone
  refine ⟨said, project.resolve c.output, rfl, Document.isUnicode_of_propagate hdone, ?_⟩
  rw [after_of_loads hargs hloads, hsaid]
  rfl

theorem status_of_not_loads (hargs : Action.Propagates args) (h : ¬ ∃ project c, w.Loads dir project c) :
    (w.after dir args).1.status = 2 := by
  rw [after_of_propagates hargs]
  cases hfound : w.configuration dir with
  | ok found =>
    obtain ⟨project, c, hloads, -⟩ := (w.configuration_eq_ok_iff dir found).1 hfound
    exact absurd ⟨project, c, hloads⟩ h
  | error problem =>
    rw [Command.orExplain, perform_giveUp]
    rfl

theorem status_of_exitCode? (hargs : Action.Propagates args) {project : StartPath} {c : Configuration Text}
    (hloads : w.Loads dir project c) {source : Text} (hread : w.readText (project.resolve c.input).onDisk = .ok source)
    {code : ExitCode} (h : (Document.propagate c.maximumExponent source).exitCode? = some code) :
    (w.after dir args).1.status = code.number := by
  have hread' : w.readText (c.resolve project).input.onDisk = .ok source := hread
  obtain ⟨errors, hexited⟩ := perform_propagate_exited hread' h
  rw [after_of_loads hargs hloads, hexited]
  rfl

/-- **Only the output is written, and only on success.**  A run changes no file unless it is asked to propagate
and propagation in the project of the directory comes to a text.  Then it changes no file but the one that the
configuration names; that one holds the text afterwards if it can be written, and what it held before if not.
Otherwise a propagation ends with 2 if there is no usable configuration or no program in the input, with 1 if
the program is rejected and with 3 if a loop is left in it. -/
theorem after_writes_output_only (w : World) (dir : Location) (args : List String) :
    (¬ (Action.Propagates args ∧ ∃ place text, w.Yields dir place text) →
      ∀ l, (w.after dir args).2.tree.text? l = w.tree.text? l) ∧
    (Action.Propagates args →
      (∀ place text, w.Yields dir place text →
        (∀ l, l ≠ place → (w.after dir args).2.tree.text? l = w.tree.text? l) ∧
        (w.Writable place →
          (w.after dir args).1 = .finished ∧ (w.after dir args).2.tree.text? place = some text) ∧
        (¬ w.Writable place →
          (∃ e, (w.after dir args).1 = .failed e) ∧
            (w.after dir args).2.tree.text? place = w.tree.text? place)) ∧
      ((¬ ∃ project c, w.Loads dir project c) → (w.after dir args).1.status = 2) ∧
      ∀ project c source, w.Loads dir project c → w.readText (project.resolve c.input).onDisk = .ok source →
        (Program.deserialize? source = none → (w.after dir args).1.status = 2) ∧
        ∀ p, Program.deserialize? source = some p →
          (∀ errors, p.propagate c.maximumExponent = .ok (.rejected errors) →
            (w.after dir args).1.status = 1) ∧
          (¬ p.LoopFree → (w.after dir args).1.status = 3)) := by
  refine ⟨fun h l => ?_, fun hargs => ⟨fun place text hyields => ?_, status_of_not_loads hargs, ?_⟩⟩
  · have htree : (w.after dir args).2.tree = w.tree := by
      by_cases hargs : Action.Propagates args
      · exact tree_after_of_not_yields hargs fun hyields => h ⟨hargs, hyields⟩
      · exact tree_after_of_not_propagates hargs
    rw [htree]
  · obtain ⟨said, file, hfile, hunicode, hafter⟩ := after_of_yields hargs hyields
    have hwritable : { w with output := said }.Writable place ↔ w.Writable place :=
      ⟨fun ⟨hd, hb, hf, hp⟩ => ⟨hd, hb, hf, hp⟩, fun ⟨hd, hb, hf, hp⟩ => ⟨hd, hb, hf, hp⟩⟩
    rw [hafter, ← hwritable]
    rcases perform_store { w with output := said } hfile hunicode with
      ⟨hw, tree, hstore, htext⟩ | ⟨hw, e, tree, hstore, htext⟩
    · rw [hstore]
      refine ⟨fun l hl => ?_, fun _ => ⟨rfl, ?_⟩, fun hnot => absurd hw hnot⟩
      · exact (htext l).trans (if_neg hl)
      · exact (htext place).trans (if_pos rfl)
    · rw [hstore]
      exact ⟨fun l _ => htext l, fun hw' => absurd hw' hw, fun _ => ⟨⟨e, rfl⟩, htext place⟩⟩
  · intro project c source hloads hread
    refine ⟨fun hnone => ?_, fun p hp => ⟨fun errors hrejected => ?_, fun hloop => ?_⟩⟩
    · show _ = ExitCode.number .invalidInput
      apply status_of_exitCode? hargs hloads hread
      simp [Document.propagate, hnone, Outcome.exitCode?]
    · show _ = ExitCode.number .compileErrors
      apply status_of_exitCode? hargs hloads hread
      simp [Document.propagate, hp, hrejected, Outcome.exitCode?]
    · obtain ⟨⟨index, function⟩, hfirst⟩ :=
        Option.ne_none_iff_exists'.1 (mt Program.firstLoop?_eq_none_iff.1 hloop)
      have hstopped := (Program.propagate_eq_error_iff c.maximumExponent p _).2 ⟨index, function, hfirst, rfl⟩
      show _ = ExitCode.number .internalError
      apply status_of_exitCode? hargs hloads hread
      simp [Document.propagate, hp, hstopped, Outcome.exitCode?, Breach.toInternalError]

/-- A project whose output is there already and may be written, but not read. -/
def thriftyProject : World where
  tree :=
    { files :=
        [(⟨["project", "circuitc.json"]⟩, "\x7b\"output\": \"out/result.json\"\x7d"),
          (⟨["project", "build", "typed.json"]⟩, thrifty.serialize),
          (⟨["project", "out", "result.json"]⟩, "of an earlier run")]
      directories := [⟨["project", "src"]⟩] }
  mayRead l := decide (l ≠ ⟨["project", "out", "result.json"]⟩)

theorem thriftyProject_loads :
    thriftyProject.Loads ⟨["project", "src"]⟩ ⟨("project" : Text).units⟩
      ⟨"build/typed.json", "out/result.json", 4294967295, false⟩ where
  nearest := by decide +kernel
  holds := ⟨_, by rfl, by decide +kernel⟩

theorem thriftyProject_yields :
    thriftyProject.Yields ⟨["project", "src"]⟩ ⟨["project", "out", "result.json"]⟩
      thriftyPropagated.serialize := by
  have hplace : (StartPath.resolve ⟨("project" : Text).units⟩ "out/result.json").onDisk =
      ⟨["project", "out", "result.json"]⟩ := by
    decide +kernel
  have hinput : (StartPath.resolve ⟨("project" : Text).units⟩ "build/typed.json").onDisk =
      ⟨["project", "build", "typed.json"]⟩ := by
    decide +kernel
  have hread : thriftyProject.readText (StartPath.resolve ⟨("project" : Text).units⟩ "build/typed.json").onDisk =
      .ok thrifty.serialize := by
    rw [hinput]
    rfl
  rw [← hplace]
  exact .intro thriftyProject_loads hread (Document.propagate_of_accepted thrifty_plain.survives rfl)

/-- Run below the project's directory, the command replaces the output and nothing else. -/
theorem thriftyProject_after :
    thriftyProject.Yields ⟨["project", "src"]⟩ ⟨["project", "out", "result.json"]⟩
        thriftyPropagated.serialize ∧
      (thriftyProject.after ⟨["project", "src"]⟩ ["propagate"]).1 = .finished ∧
      (thriftyProject.after ⟨["project", "src"]⟩ ["propagate"]).2.tree.text?
        ⟨["project", "out", "result.json"]⟩ = some thriftyPropagated.serialize ∧
      (thriftyProject.after ⟨["project", "src"]⟩ ["propagate"]).2.tree.text?
        ⟨["project", "build", "typed.json"]⟩ = some thrifty.serialize ∧
      (thriftyProject.after ⟨["project", "src"]⟩ ["print"]).2.tree.text?
        ⟨["project", "out", "result.json"]⟩ = some "of an earlier run" := by
  have hargs : Action.Propagates ["propagate"] := .inr ⟨[], rfl, by decide, by decide⟩
  have hprint : ¬ Action.Propagates ["print"] := by
    rw [← Action.ofArguments_eq_propagate_iff]
    decide
  have hwritable : thriftyProject.Writable ⟨["project", "out", "result.json"]⟩ :=
    ⟨by decide, by decide, rfl, .inl (by decide)⟩
  obtain ⟨hother, hwritten, -⟩ :=
    ((after_writes_output_only thriftyProject ⟨["project", "src"]⟩ ["propagate"]).2 hargs).1 _ _
      thriftyProject_yields
  have huntouched := (after_writes_output_only thriftyProject ⟨["project", "src"]⟩ ["print"]).1
    fun h => hprint h.1
  refine ⟨thriftyProject_yields, (hwritten hwritable).1, (hwritten hwritable).2, ?_, ?_⟩
  · rw [hother _ (by decide)]
    rfl
  · rw [huntouched]
    rfl

end World

end ConstFold
