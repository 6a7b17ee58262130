import MidiScore.Command.FileTree
import MidiScore.Proofs.Success

/-!
# What operations do to a file tree

*Writing.*  A write changes one file, the one that its path leads to.  The path still leads
there afterwards: on the way only directories are entered, and what was written to is none.

*Creating.*  Creating directories leaves the files alone, even if it stops at an error.

*Hosts.*  A host keeps its files in a tree, and whatever else it likes beside it.  It may refuse any
operation on files.  It is `Orderly` if reading looks at the files and changes none, if a write is
that of the tree or changes nothing, if creating directories does nothing else, and if printing
leaves the files alone.  The output takes every text, but the error output may refuse one.
-/

namespace MidiScore

namespace FileTree

/-- The same files, and no directory less. -/
structure OnlyDirectoriesAdded (tree later : FileTree) : Prop where
  files : ∀ place, later.file? place = tree.file? place
  directories : ∀ place, tree.isDirectory place → later.isDirectory place

namespace OnlyDirectoriesAdded

theorem refl (tree : FileTree) : tree.OnlyDirectoriesAdded tree :=
  ⟨fun _ => rfl, fun _ known => known⟩

theorem trans {tree between later : FileTree} (first : tree.OnlyDirectoriesAdded between)
    (second : between.OnlyDirectoriesAdded later) : tree.OnlyDirectoriesAdded later where
  files place := (second.files place).trans (first.files place)
  directories place known := second.directories place (first.directories place known)

end OnlyDirectoriesAdded

/-! ## Writing a file -/

theorem lookup_setFile (place : Place) (bytes : List UInt8) (files : List (Place × List UInt8)) :
    (setFile place bytes files).lookup place = some bytes := by
  induction files with
  | nil => exact List.lookup_cons_self
  | cons file rest ih =>
    obtain ⟨other, old⟩ := file
    by_cases same : other = place
    · simp [setFile, same]
    · have apart : (place == other) = false := beq_false_of_ne (Ne.symm same)
      rw [setFile, if_neg same, List.lookup_cons, apart]
      exact ih

theorem lookup_setFile_of_ne {place other : Place} (distinct : other ≠ place)
    (bytes : List UInt8) (files : List (Place × List UInt8)) :
    (setFile place bytes files).lookup other = files.lookup other := by
  have apart : (other == place) = false := beq_false_of_ne distinct
  induction files with
  | nil => rw [setFile, List.lookup_cons, apart]
  | cons file rest ih =>
    obtain ⟨head, old⟩ := file
    by_cases same : head = place
    · rw [setFile, if_pos same, List.lookup_cons, List.lookup_cons, same, apart]
    · rw [setFile, if_neg same, List.lookup_cons, List.lookup_cons, ih]

/-- No file is lost. -/
theorem places_subset_setFile (place : Place) (bytes : List UInt8)
    (files : List (Place × List UInt8)) :
    files.map Prod.fst ⊆ (setFile place bytes files).map Prod.fst := by
  induction files with
  | nil => exact List.nil_subset _
  | cons file rest ih =>
    obtain ⟨head, old⟩ := file
    by_cases same : head = place
    · simp [setFile, same]
    · simpa [setFile, same] using List.cons_subset_cons head ih

/-- A place is a directory as soon as a file lies below it, whatever the file holds. -/
theorem isDirectory_iff {tree : FileTree} {place : Place} :
    tree.isDirectory place ↔
      place = [] ∨ (∃ directory ∈ tree.directories, place <+: directory) ∨
        ∃ file ∈ tree.files.map Prod.fst, place ≠ file ∧ place <+: file := by
  simp [isDirectory, or_assoc]

theorem isDirectory_setFile {tree : FileTree} {other : Place} (known : tree.isDirectory other)
    (place : Place) (bytes : List UInt8) :
    isDirectory { tree with files := setFile place bytes tree.files } other := by
  rw [isDirectory_iff] at known ⊢
  rcases known with root | created | ⟨file, mem, below⟩
  · exact .inl root
  · exact .inr (.inl created)
  · exact .inr (.inr ⟨file, places_subset_setFile place bytes tree.files mem, below⟩)

/-- One can go on from a directory, and from nothing else. -/
theorem enter_eq_ok_iff {tree : FileTree} {place : Place} :
    tree.enter place = .ok () ↔ tree.file? place = none ∧ tree.isDirectory place := by
  unfold enter node?
  cases tree.file? place with
  | some bytes => simp
  | none => by_cases known : tree.isDirectory place <;> simp [known]

/-- A path is followed alike in a tree where all its stations can still be entered. -/
theorem follow_of_enter {tree later : FileTree}
    (kept : ∀ place, tree.enter place = .ok () → later.enter place = .ok ()) {target : Place} :
    ∀ {start : Place} {parts : List Path.Part},
      tree.follow start parts = .ok target → later.follow start parts = .ok target := by
  intro start parts
  induction parts generalizing start with
  | nil => exact id
  | cons part rest ih =>
    intro followed
    obtain ⟨_, entered, onwards⟩ := bind_eq_ok.mp followed
    refine bind_eq_ok.mpr ⟨(), kept start entered, ?_⟩
    split at onwards
    case isTrue stays =>
      rw [if_pos stays]
      exact ih onwards
    case isFalse moves =>
    rw [if_neg moves]
    split at onwards
    case isTrue up =>
      rw [if_pos up]
      exact ih onwards
    case isFalse down =>
    rw [if_neg down]
    split at onwards
    case isTrue => cases onwards
    case isFalse short =>
      rw [if_neg short]
      exact ih onwards

/-- So a path leads to the same place there. -/
theorem resolve_of_enter {tree later : FileTree}
    (kept : ∀ place, tree.enter place = .ok () → later.enter place = .ok ())
    {working target : Place} {path : String} (resolved : tree.resolve working path = .ok target) :
    later.resolve working path = .ok target := by
  obtain ⟨_, checked, followed⟩ := bind_eq_ok.mp resolved
  refine bind_eq_ok.mpr ⟨(), checked, ?_⟩
  split at followed
  case isTrue absolute =>
    rw [if_pos absolute]
    exact follow_of_enter kept followed
  case isFalse relative =>
    rw [if_neg relative]
    exact follow_of_enter kept followed

/-- A path that can be written to leads to a place that is no directory. -/
theorem writePlace_eq_ok {tree : FileTree} {working place : Place} {path : String}
    (found : tree.writePlace working path = .ok place) :
    tree.resolve working path = .ok place ∧ tree.enter place ≠ .ok () := by
  obtain ⟨_, -, rest⟩ := bind_eq_ok.mp found
  obtain ⟨target, resolved, rest⟩ := bind_eq_ok.mp rest
  split at rest
  case isTrue => cases rest
  case isFalse trimmed =>
  split at rest
  case h_1 => cases rest
  case h_2 noDirectory =>
  obtain ⟨_, -, same⟩ := bind_eq_ok.mp rest
  cases same
  rw [Decidable.not_not.mp trimmed] at resolved
  refine ⟨resolved, fun entered => ?_⟩
  obtain ⟨noFile, known⟩ := enter_eq_ok_iff.mp entered
  exact noDirectory (by simp [node?, noFile, known])

/-- A write replaces or adds one file, and the path leads to it afterwards. -/
theorem write_eq_ok {tree later : FileTree} {working : Place} {path : String}
    {bytes : List UInt8} (wrote : tree.write working path bytes = .ok later) :
    ∃ place, later.resolve working path = .ok place ∧ later.file? place = some bytes ∧
      ∀ other, other ≠ place → later.file? other = tree.file? other := by
  obtain ⟨place, found, same⟩ := bind_eq_ok.mp wrote
  cases same
  obtain ⟨resolved, noDirectory⟩ := writePlace_eq_ok found
  refine ⟨place, resolve_of_enter ?_ resolved, lookup_setFile place bytes tree.files,
    fun other distinct => lookup_setFile_of_ne distinct bytes tree.files⟩
  -- A directory on the way stays one: it is not the place that was written to.
  intro other entered
  have distinct : other ≠ place := fun same => noDirectory (same ▸ entered)
  obtain ⟨noFile, known⟩ := enter_eq_ok_iff.mp entered
  exact enter_eq_ok_iff.mpr
    ⟨(lookup_setFile_of_ne distinct bytes tree.files).trans noFile,
      isDirectory_setFile known place bytes⟩

/-! ## Creating directories -/

theorem createDirectory_onlyAdds {tree later : FileTree} {working : Place} {path : String}
    (created : tree.createDirectory working path = .ok later) :
    tree.OnlyDirectoriesAdded later := by
  obtain ⟨_, -, rest⟩ := bind_eq_ok.mp created
  obtain ⟨place, -, rest⟩ := bind_eq_ok.mp rest
  split at rest
  case h_1 => cases rest
  case h_2 =>
  cases rest
  refine ⟨fun _ => rfl, fun other known => ?_⟩
  rw [isDirectory_iff] at known ⊢
  rcases known with root | ⟨directory, mem, above⟩ | below
  · exact .inl root
  · exact .inr (.inl ⟨directory, List.mem_append_left _ mem, above⟩)
  · exact .inr (.inr below)

theorem ensureDirectory_onlyAdds {tree later : FileTree} {working : Place} {path : String}
    (ensured : tree.ensureDirectory working path = .ok later) :
    tree.OnlyDirectoriesAdded later := by
  unfold ensureDirectory at ensured
  split at ensured
  · split at ensured
    · cases ensured
      exact .refl tree
    · cases ensured
  · exact createDirectory_onlyAdds ensured

/-- Whatever becomes of it, creating directories adds directories only. -/
theorem createDirectories_onlyAdds (working : Place) (fuel : Nat) (tree : FileTree)
    (path : String) :
    tree.OnlyDirectoriesAdded (createDirectories working fuel tree path).2 := by
  induction fuel generalizing tree path with
  | zero => exact .refl tree
  | succ fuel ih =>
    unfold createDirectories
    split
    case isTrue => exact .refl tree
    case isFalse =>
    split
    case h_1 ensured => exact ensureDirectory_onlyAdds ensured
    case h_3 => exact .refl tree
    case h_2 =>
    split
    case h_1 => exact .refl tree
    case h_2 parent _ =>
    -- The directories that lead to the last one stay, also if that one is refused.
    have above := ih tree parent
    split
    case h_1 error between stopped =>
      rw [stopped] at above
      exact above
    case h_2 between went =>
      rw [went] at above
      split
      case h_1 ensured => exact above.trans (ensureDirectory_onlyAdds ensured)
      case h_2 => exact above

/-! ## Hosts -/

/-- A host that does no more than it is asked for.  Its files are a part of its state. -/
structure Orderly {σ : Type} (files : σ → FileTree) (working : Place) (host : Host (StateM σ)) :
    Prop where
  read : ∀ path state, files ((host.read path).run state).2 = files state
  /-- What is read depends on the files alone. -/
  read_congr : ∀ path {state other}, files state = files other →
    ((host.read path).run state).1 = ((host.read path).run other).1
  write : ∀ path bytes state,
    (∃ later, (files state).write working path bytes = .ok (files later) ∧
      (host.write path bytes).run state = (.ok (), later)) ∨
    ∃ error later, files later = files state ∧
      (host.write path bytes).run state = (.error error, later)
  createDirectories : ∀ path state,
    (files state).OnlyDirectoriesAdded (files ((host.createDirectories path).run state).2)
  print : ∀ outlet text state, files ((host.print outlet text).run state).2 = files state
  /-- The output takes every text. -/
  output : ∀ text state, ((host.print .out text).run state).1 = .ok ()

end FileTree

/-- A file tree in memory is an orderly host. -/
theorem Session.host_orderly (working : Place) :
    FileTree.Orderly Session.tree working (host working) where
  read path session := rfl
  read_congr path session other same := congrArg (FileTree.read · working path) same
  write path bytes session := by
    cases wrote : session.tree.write working path bytes with
    | ok tree =>
      refine .inl ⟨{ session with tree }, rfl, ?_⟩
      simp [host, wrote]
      rfl
    | error error =>
      refine .inr ⟨error, session, rfl, ?_⟩
      simp [host, wrote]
      rfl
  createDirectories path session :=
    FileTree.createDirectories_onlyAdds working (path.length + 1) session.tree path
  print outlet text session := by cases outlet <;> rfl
  output text session := rfl

end MidiScore
