import MidiScore.Command.Run
import MidiScore.Command.Standard
import MidiScore.Proofs.FileTrees
import MidiScore.Proofs.TaskOrder

/-!
# What the compile command leaves behind

The command runs on a host that keeps its files in a tree and may refuse any operation on them
(`FileTree.Orderly`).  Readers and printers of texts are any (`Formats`).

*Steps.*  `Leads` says how a step may end, one condition for a value and one for an early end.
There is a rule for each way to build a step.  Only the files count, not what else the host keeps,
so printing goes unnoticed.

*Failing.*  Up to the write no step does more than create directories, and a refused write
changes nothing.  So a failed run leaves all files as they were, wherever it fails.

*Succeeding.*  The write comes last but for a line on the output, which is taken.  Its bytes are
those of the compiled score, and only the file that the output path leads to has changed.
-/

namespace MidiScore

section

variable {σ α : Type} {files : σ → FileTree} {working : Place} {host : Host (StateM σ)}

/-- What a host gives in a state when a file is loaded. -/
def Host.loaded (host : Host (StateM σ)) (state : σ) (parse : String → Except LoadError α)
    (path : String) : Except LoadError α :=
  ((host.load parse path).run state).1

/-- Loading leaves the files alone. -/
theorem FileTree.Orderly.files_load (orderly : Orderly files working host)
    (parse : String → Except LoadError α) (path : String) (state : σ) :
    files ((host.load parse path).run state).2 = files state :=
  orderly.read path state

/-- With the same files the same is loaded. -/
theorem FileTree.Orderly.loaded_congr (orderly : Orderly files working host)
    (parse : String → Except LoadError α) (path : String) {state other : σ}
    (same : files state = files other) :
    host.loaded state parse path = host.loaded other parse path := by
  have alike := orderly.read_congr path same
  exact congrArg (fun bytes => ((bytes.bind Host.decodeText).mapError LoadError.system).bind parse)
    alike

end

namespace Command

/-- The settings that hold for a run.  Without a file that was asked for they are the user's own,
and without those the usual ones. -/
def settingsFrom {σ : Type} (host : Host (StateM σ)) (toml : DocumentReader) (state : σ)
    (environment : Environment) : Option String → Except LoadError Settings
  | some path => host.loaded state (Settings.ofToml toml) path
  | none =>
    let own := (settingsPath environment).toOption.bind fun path =>
      (host.loaded state (Settings.ofToml toml) path).toOption
    .ok (own.getD {})

/-! ## Steps -/

section Steps

variable {σ α β : Type}

/-- However a step ends that starts where the files are `tree`, it leaves what `good` says together
with its value, or what `bad` says if it ends early. -/
def Leads (files : σ → FileTree) (step : Step (StateM σ) α) (tree : FileTree)
    (good : α → FileTree → Prop) (bad : FileTree → Prop) : Prop :=
  ∀ state result later, files state = tree → (step.run).run state = (result, later) →
    (∀ value, result = .ok value → good value (files later)) ∧
      ∀ halt, result = .error halt → bad (files later)

variable {files : σ → FileTree} {working : Place} {host : Host (StateM σ)} {tree : FileTree}
  {bad : FileTree → Prop}

namespace Leads

/-- A step that does not end early. -/
theorem of_ok {good : α → FileTree → Prop} {step : Step (StateM σ) α}
    (ends : ∀ state, files state = tree → ∃ value later,
      (step.run).run state = (.ok value, later) ∧ good value (files later)) :
    Leads files step tree good bad := by
  intro state result later here ran
  obtain ⟨value, reached, ended, holds⟩ := ends state here
  cases ended.symm.trans ran
  exact ⟨fun _ same => Except.ok.inj same ▸ holds, by simp⟩

theorem pure {good : α → FileTree → Prop} {value : α} (holds : good value tree) :
    Leads files (Pure.pure value) tree good bad :=
  of_ok fun state here => ⟨value, state, rfl, here ▸ holds⟩

theorem lift {good : α → FileTree → Prop} {action : StateM σ α}
    (holds : ∀ state, files state = tree →
      good (action.run state).1 (files (action.run state).2)) :
    Leads files (liftM action) tree good bad :=
  of_ok fun state here => ⟨_, _, rfl, holds state here⟩

theorem throw {good : α → FileTree → Prop} {halt : Halt} (holds : bad tree) :
    Leads files (MonadExcept.throw halt) tree good bad := by
  intro state result later here ran
  cases ran
  simpa [here] using holds

/-- One step after another: the second starts where the first has led. -/
theorem bind {good : β → FileTree → Prop} {step : Step (StateM σ) α}
    {next : α → Step (StateM σ) β}
    (first : Leads files step tree
      (fun value between => Leads files (next value) between good bad) bad) :
    Leads files (step >>= next) tree good bad := by
  intro state result later here ran
  rcases ended : (step.run).run state with ⟨middle, between⟩
  obtain ⟨goesOn, stops⟩ := first state middle between here ended
  rw [ExceptT.run_bind, StateT.run_bind, ended] at ran
  cases middle with
  | ok value => exact goesOn value rfl between result later rfl ran
  | error halt =>
    cases ran
    simpa using stops halt rfl

/-- A step for each item, none of which touches the files. -/
theorem forM {good : Unit → FileTree → Prop} {step : β → Step (StateM σ) Unit}
    (each : ∀ item, Leads files (step item) tree (fun _ later => later = tree) bad)
    (holds : good () tree) : ∀ items : List β, Leads files (items.forM step) tree good bad
  | [] => pure holds
  | item :: items => by
      refine bind fun state result later here ran => ?_
      obtain ⟨stays, stops⟩ := each item state result later here ran
      exact ⟨fun value same => stays value same ▸ forM each holds items, stops⟩

theorem orFail {ε : Type} {good : α → FileTree → Prop} {failure : ε → Failure}
    {result : Except ε α} (kept : bad tree)
    (holds : ∀ value, result = .ok value → good value tree) :
    Leads files (Command.orFail failure result) tree good bad := by
  cases result with
  | ok value => exact pure (holds value rfl)
  | error error => exact throw kept

/-! ## Printing -/

/-- A line that is refused ends the task. -/
theorem printLine (orderly : FileTree.Orderly files working host) {good : Unit → FileTree → Prop}
    {outlet : Outlet} {text : String} (kept : bad tree) (holds : good () tree) :
    Leads files (Command.printLine host outlet text) tree good bad := by
  refine bind (lift fun state here => ?_)
  rw [orderly.print, here]
  split
  · exact pure holds
  · exact throw kept

/-- The output takes every line. -/
theorem say (orderly : FileTree.Orderly files working host) {good : Unit → FileTree → Prop}
    {text : String} (holds : good () tree) :
    Leads files (Command.say host text) tree good bad := by
  refine bind (lift fun state here => ?_)
  rw [orderly.print, orderly.output, here]
  exact pure holds

theorem complain (orderly : FileTree.Orderly files working host) {good : Unit → FileTree → Prop}
    {lines : List String} (kept : bad tree) (holds : good () tree) :
    Leads files (Command.complain host lines) tree good bad :=
  forM (fun _ => printLine orderly kept rfl) holds lines

/-- Log lines may be refused, which is ignored. -/
theorem log (orderly : FileTree.Orderly files working host) {good : Unit → FileTree → Prop}
    {filter : Log.Filter} {records : List Log.Record} (holds : good () tree) :
    Leads files (Command.log host filter records) tree good bad := by
  refine forM (fun record => bind (lift fun state here => ?_)) holds _
  rw [orderly.print, here]
  exact pure rfl

end Leads

/-! ## The steps of the command -/

/-- Whatever has been printed since the start, the same is loaded. -/
theorem Leads.load (orderly : FileTree.Orderly files working host) {start : σ}
    {parse : String → Except LoadError α} {path : String}
    {good : Except LoadError α → FileTree → Prop}
    (holds : good (host.loaded start parse path) (files start)) :
    Leads files (liftM (host.load parse path)) (files start) good bad := by
  refine .lift fun state here => ?_
  have loaded : ((host.load parse path).run state).1 = host.loaded start parse path :=
    orderly.loaded_congr parse path here
  rw [orderly.files_load, loaded, here]
  exact holds

/-- The settings are those that the host gives at the start. -/
theorem loadSettings_leads (orderly : FileTree.Orderly files working host) {start : σ}
    {toml : DocumentReader} {environment : Environment} {config : Option String}
    {good : Settings → FileTree → Prop} (kept : bad (files start))
    (holds : ∀ settings, settingsFrom host toml start environment config = .ok settings →
      good settings (files start)) :
    Leads files (loadSettings host toml environment config) (files start) good bad := by
  cases config with
  | some path => exact .bind (.load orderly (.orFail kept holds))
  | none =>
    unfold loadSettings
    cases found : settingsPath environment with
    | error failure =>
      refine .pure (holds {} ?_)
      simp [settingsFrom, found, Except.toOption]
    | ok path =>
      refine .bind (.load orderly ?_)
      cases loaded : host.loaded start (Settings.ofToml toml) path with
      | ok settings =>
        refine .pure (holds settings ?_)
        simp [settingsFrom, found, loaded, Except.toOption]
      | error error =>
        refine .pure (holds {} ?_)
        simp [settingsFrom, found, loaded, Except.toOption]

theorem loadScore_leads (orderly : FileTree.Orderly files working host) {start : σ}
    {toml : DocumentReader} {filter : Log.Filter} {file : String} {good : Score → FileTree → Prop}
    (kept : bad (files start))
    (holds : ∀ score, host.loaded start (Score.ofToml toml) file = .ok score →
      good score (files start)) :
    Leads files (loadScore host toml filter file) (files start) good bad := by
  refine .bind (.load orderly (.bind (.orFail kept fun score loaded => ?_)))
  exact .bind (.log orderly (.pure (holds score loaded)))

/-- After validation there are no errors. -/
theorem validate_leads (orderly : FileTree.Orderly files working host) {filter : Log.Filter}
    {file : String} {score : Score} {good : Unit → FileTree → Prop} (kept : bad tree)
    (holds : score.validate.errors = [] → good () tree) :
    Leads files (validate host filter file score) tree good bad := by
  refine .bind (.log orderly (.bind (.complain orderly kept ?_)))
  split
  case isTrue valid => exact .pure (holds (List.isEmpty_iff.mp valid))
  case isFalse => exact .throw kept

theorem validateIf_leads (orderly : FileTree.Orderly files working host) {filter : Log.Filter}
    {file : String} {score : Score} {validated : Bool} {rest : Unit → Step (StateM σ) α}
    {good : α → FileTree → Prop} (kept : bad tree)
    (holds : (validated → score.validate.errors = []) → Leads files (rest ()) tree good bad) :
    Leads files (if validated then validate host filter file score >>= rest else rest ()) tree good
      bad := by
  cases validated with
  | true => exact .bind (validate_leads orderly kept fun valid => holds fun _ => valid)
  | false => exact holds fun impossible => by cases impossible

/-- On tasks of their own or in order, the tracks are compiled to the same score. -/
theorem compile_leads (orderly : FileTree.Orderly files working host) {filter : Log.Filter}
    {settings : Settings} {parallel : Bool} {score : Score}
    {good : CompiledScore → FileTree → Prop} (kept : bad tree)
    (holds : ∀ compiled, score.compile settings.defaults = .ok compiled → good compiled tree) :
    Leads files (compile host filter settings parallel score) tree good bad := by
  have alike : score.compileParallel settings.defaults = score.compile settings.defaults :=
    (score.compileParallel_eq_gather _).trans (score.gather_results _)
  unfold compile
  rw [alike, ite_self]
  refine .bind (.log orderly (.bind (.orFail kept fun compiled compiles => ?_)))
  exact .bind (.log orderly (.pure (holds compiled compiles)))

/-- Directories may be new, whether all were created or not. -/
theorem prepareDirectory_leads (orderly : FileTree.Orderly files working host) {path : String}
    {good : Unit → FileTree → Prop}
    (kept : ∀ later, tree.OnlyDirectoriesAdded later → bad later)
    (holds : ∀ later, tree.OnlyDirectoriesAdded later → good () later) :
    Leads files (prepareDirectory host path) tree good bad := by
  unfold prepareDirectory
  split
  · exact .pure (holds tree (.refl tree))
  · split
    · exact .pure (holds tree (.refl tree))
    case isFalse parent _ _ =>
      refine .bind (.lift fun state here => ?_)
      have added := orderly.createDirectories parent state
      rw [here] at added
      exact .orFail (kept _ added) fun _ _ => holds _ added

/-- Either the write is that of the tree, or nothing is written. -/
theorem writeMidi_leads (orderly : FileTree.Orderly files working host) {filter : Log.Filter}
    {settings : Settings} {path : String} {compiled : CompiledScore}
    {good : Unit → FileTree → Prop} (kept : bad tree)
    (holds : ∀ bytes later, compiled.toMidi settings.trackNames = .ok bytes →
      tree.write working path bytes = .ok later → good () later) :
    Leads files (writeMidi host filter settings path compiled) tree good bad := by
  refine .bind (.orFail kept fun bytes encoded => .bind (.log orderly (.bind (.lift ?_))))
  intro state here
  rcases orderly.write path bytes state with ⟨later, wrote, ran⟩ | ⟨error, later, same, ran⟩
  · rw [ran]
    rw [here] at wrote
    exact .bind (.pure (.log orderly (holds bytes _ encoded wrote)))
  · rw [ran]
    exact .bind (.throw (by rwa [same, here]))

end Steps

/-! ## The whole command -/

section Runs

variable {σ : Type}

/-- The file that the output path leads to holds the compiled score, and all other files are as
before.  Score and settings are those at the start. -/
def Delivered (files : σ → FileTree) (host : Host (StateM σ)) (toml : DocumentReader)
    (working : Place) (environment : Environment) (config : Option String) (file : String)
    (output : Option String) (validated : Bool) (start : σ) (later : FileTree) : Prop :=
  ∃ settings score compiled bytes place,
    settingsFrom host toml start environment config = .ok settings ∧
    host.loaded start (Score.ofToml toml) file = .ok score ∧
    (validated → score.validate.errors = []) ∧
    score.compile settings.defaults = .ok compiled ∧
    compiled.toMidi settings.trackNames = .ok bytes ∧
    later.resolve working (output.getD (settings.outputPath file)) = .ok place ∧
    later.file? place = some bytes ∧
    ∀ other, other ≠ place → later.file? other = (files start).file? other

variable {files : σ → FileTree} {working : Place} {host : Host (StateM σ)} {formats : Formats}

/-- The task has delivered, or there are at most more directories. -/
theorem compileFile_leads (orderly : FileTree.Orderly files working host)
    (environment : Environment) (filter : Log.Filter) (config : Option String) (file : String)
    (output : Option String) (validated parallel : Bool) (start : σ) :
    Leads files
      (compileFile host formats environment filter config file output validated parallel)
      (files start)
      (fun _ => Delivered files host formats.toml working environment config file output validated
        start)
      (files start).OnlyDirectoriesAdded := by
  have untouched : (files start).OnlyDirectoriesAdded (files start) := .refl _
  refine .bind (loadSettings_leads orderly untouched fun settings chosen => ?_)
  refine .bind (loadScore_leads orderly untouched fun score loaded => ?_)
  refine validateIf_leads orderly untouched fun valid => ?_
  refine .bind (compile_leads orderly untouched fun compiled compiles => ?_)
  -- From here on there may be new directories, but the files are still those of the start.
  refine .bind (prepareDirectory_leads orderly (fun _ added => added) fun between added => ?_)
  refine .bind (writeMidi_leads orderly added fun bytes later encoded wrote => .say orderly ?_)
  obtain ⟨place, resolved, held, others⟩ := FileTree.write_eq_ok wrote
  exact ⟨settings, score, compiled, bytes, place, chosen, loaded, valid, compiles, encoded,
    resolved, held, fun other distinct => (others other distinct).trans (added.files other)⟩

/-- Ending a run leaves the files alone, and the status tells whether the task was done. -/
theorem finish_run (orderly : FileTree.Orderly files working host) (result : Except Halt Unit)
    (state : σ) :
    files ((finish host result).run state).2 = files state ∧
      (((finish host result).run state).1 = 0 ↔ result = .ok ()) := by
  cases result with
  | ok done => exact ⟨rfl, iff_of_true rfl rfl⟩
  | error halt =>
    cases halt with
    | failed failure =>
      exact ⟨orderly.print .err failure.report state, iff_of_false Nat.one_ne_zero nofun⟩
    | unprinted error => exact ⟨rfl, iff_of_false (by decide : 101 ≠ 0) nofun⟩

/-- The compile command with any options on any files.  A run that fails has at most created
directories, and a run that succeeds has written the compiled score and no other file. -/
theorem run_compile_effect (orderly : FileTree.Orderly files working host)
    {arguments : List String} {file : String} {output config : Option String}
    {validated parallel verbose : Bool}
    (parsed : formats.arguments arguments =
      .ok ⟨.compile file output validated parallel, config, verbose⟩)
    (environment : Environment) {start later : σ} {status : Nat}
    (ran : (run host formats environment arguments).run start = (status, later)) :
    (status ≠ 0 → (files start).OnlyDirectoriesAdded (files later)) ∧
      (status = 0 → Delivered files host formats.toml working environment config file output
        validated start (files later)) := by
  have leads : Leads files (perform host formats environment
      ⟨.compile file output validated parallel, config, verbose⟩) (files start)
      (fun _ => Delivered files host formats.toml working environment config file output validated
        start)
      (files start).OnlyDirectoriesAdded :=
    .bind (.complain orderly (.refl _) (compileFile_leads orderly environment _ config file output
      validated parallel start))
  rcases ended : ((perform host formats environment
    ⟨.compile file output validated parallel, config, verbose⟩).run).run start
    with ⟨result, reached⟩
  obtain ⟨succeeds, fails⟩ := leads start result reached rfl ended
  obtain ⟨kept, done⟩ := finish_run orderly result reached
  rw [run, parsed, StateT.run_bind, ended] at ran
  have final : (finish host result).run reached = (status, later) := ran
  rw [final] at kept done
  refine ⟨fun failed => ?_, fun passed => kept ▸ succeeds () (done.mp passed)⟩
  cases result with
  | ok value => exact absurd (done.mpr rfl) failed
  | error halt => exact kept ▸ fails halt rfl

end Runs

/-- One hit of the snare drum. -/
def songText : String :=
  "name = \"song\"\nresolution = 4\ntempo = 90.0\nnumerator = 4\ndenominator = 4\n" ++
    "[[tracks]]\nname = \"beat\"\ninstrument = \"drums\"\n" ++
    "[[tracks.entries]]\nkind = \"drum\"\nelement = \"sd\"\n"

/-- A song beside another file. -/
def songTree : FileTree where
  files := [(["work", "song.toml"], songText.toUTF8.data.toList), (["work", "song.mid"], [1, 2])]

/-- The song is compiled into a directory that is not there yet. -/
def songRun : Nat × Session :=
  (run (Session.host ["work"]) .standard ⟨none, none⟩
    ["compile", "song.toml", "-o", "out/song.mid"]).run { tree := songTree }

theorem songRun_delivered :
    songRun.1 = 0 ∧
      Delivered Session.tree (Session.host ["work"]) Toml.document ["work"] ⟨none, none⟩ none
        "song.toml" (some "out/song.mid") true { tree := songTree } songRun.2.tree := by
  have passed : songRun.1 = 0 := by decide +kernel
  have parsed : Formats.standard.arguments ["compile", "song.toml", "-o", "out/song.mid"] =
      .ok ⟨.compile "song.toml" (some "out/song.mid") true false, none, false⟩ := rfl
  have ran : songRun = (songRun.1, songRun.2) := (Prod.eta songRun).symm
  exact ⟨passed, (run_compile_effect (Session.host_orderly ["work"]) parsed _ ran).2 passed⟩

end Command

end MidiScore
