import Mathlib.Data.Finset.Card
import Mathlib.Logic.Relation
import MidiScore.Compile

/-!
# Tasks that finish in any order

Tracks may be compiled on tasks of their own.  `TaskPool` is the state of such a compilation, and
`Score.TaskStep` says what can happen next: the task of the next track is started, a task that was
started stores the result of its track, or, once all tasks are started, the next result in the order
of the tracks is collected.  A task finishes at any moment after its start, and nothing orders two
tasks.

*Safety.*  What is stored for a track is the result of that track, and what has been collected are
the results of the first tracks in their order (`TaskPool.Sound`).  Every step keeps this, so when
all results are collected the order in which the tasks finished has left no trace.

*Progress.*  A pool whose results are not all collected has a next step, and every step leaves less
to do (`TaskPool.left`).  So every run can be continued until all is collected.
-/

namespace MidiScore

/-- The result of compiling one track. -/
abbrev TrackResult := Except TrackError CompiledTrack

/-- The state of a compilation on tasks. -/
structure TaskPool where
  /-- How many tasks have been started, in the order of the tracks. -/
  started : Nat := 0
  /-- The results of the tasks that have finished, by the index of the track. -/
  stored : Nat → Option TrackResult := fun _ => none
  /-- The results that have been collected. -/
  joined : List TrackResult := []

/-- What can happen next. -/
inductive Score.TaskStep (score : Score) (defaults : Defaults) : TaskPool → TaskPool → Prop
  | spawn {pool : TaskPool} : pool.started < score.tracks.length →
      TaskStep score defaults pool { pool with started := pool.started + 1 }
  | finish {pool : TaskPool} {index : Nat} {track : Track} : index < pool.started →
      pool.stored index = none → score.tracks[index]? = some track →
      TaskStep score defaults pool { pool with
        stored := Function.update pool.stored index (some (score.compileTrack defaults track)) }
  | join {pool : TaskPool} {result : TrackResult} : pool.started = score.tracks.length →
      pool.stored pool.joined.length = some result →
      TaskStep score defaults pool { pool with joined := pool.joined ++ [result] }

/-- Any number of steps of the tasks. -/
abbrev Score.TaskRun (score : Score) (defaults : Defaults) : TaskPool → TaskPool → Prop :=
  Relation.ReflTransGen (score.TaskStep defaults)

/-- The answer from the results of all tracks: the first error in the order of the tracks, with the
track that it belongs to, or all streams. -/
def Score.gather (score : Score) (results : List TrackResult) :
    Except CompileError CompiledScore := do
  let tracks ← (score.tracks.zip results).mapM fun (track, result) => track.blame result
  return ⟨score.name, score.resolution, tracks⟩

namespace TaskPool

/-- All results are collected. -/
def Complete (pool : TaskPool) (score : Score) : Prop :=
  pool.joined.length = score.tracks.length

/-! ## Safety -/

/-- What is stored for a track is its result, and the results of the first tracks are collected. -/
structure Sound (pool : TaskPool) (score : Score) (defaults : Defaults) : Prop where
  started : pool.started ≤ score.tracks.length
  stored : ∀ index result, pool.stored index = some result →
    ∃ track, score.tracks[index]? = some track ∧ score.compileTrack defaults track = result
  joined : pool.joined =
    (score.tracks.map (score.compileTrack defaults)).take pool.joined.length

variable {pool next : TaskPool} {score : Score} {defaults : Defaults}

theorem Sound.initial (score : Score) (defaults : Defaults) :
    ({} : TaskPool).Sound score defaults where
  started := Nat.zero_le _
  stored := by simp
  joined := by simp

/-- No step of a task, in whatever order, breaks the invariant. -/
theorem Sound.step (sound : pool.Sound score defaults) (step : score.TaskStep defaults pool next) :
    next.Sound score defaults := by
  cases step with
  | spawn more => exact ⟨more, sound.stored, sound.joined⟩
  | @finish index track _ _ found =>
      refine ⟨sound.started, ?_, sound.joined⟩
      intro other result there
      simp only at there
      by_cases same : other = index
      · rw [same, Function.update_self] at there
        exact ⟨track, same ▸ found, Option.some.inj there⟩
      · rw [Function.update_of_ne same] at there
        exact sound.stored other result there
  | @join result _ there =>
      refine ⟨sound.started, sound.stored, ?_⟩
      obtain ⟨track, found, rfl⟩ := sound.stored _ _ there
      simp only [List.length_append, List.length_singleton]
      rw [List.take_add_one, List.getElem?_map, found, ← sound.joined]
      rfl

theorem Sound.run (sound : pool.Sound score defaults) (run : score.TaskRun defaults pool next) :
    next.Sound score defaults := by
  induction run with
  | refl => exact sound
  | tail _ step ih => exact ih.step step

/-- Once all tasks are joined, their results stand in the order of the tracks. -/
theorem Sound.joined_of_complete (sound : pool.Sound score defaults)
    (complete : pool.Complete score) :
    pool.joined = score.tracks.map (score.compileTrack defaults) := by
  have taken := sound.joined
  rwa [complete, ← List.length_map (score.compileTrack defaults), List.take_length] at taken

/-! ## Progress -/

/-- The steps that are left: tasks to start, results to store and results to collect. -/
def left (pool : TaskPool) (score : Score) : Nat :=
  (score.tracks.length - pool.started) +
    ((Finset.range score.tracks.length).filter fun index => (pool.stored index).isNone).card +
    (score.tracks.length - pool.joined.length)

theorem Sound.joined_length_le (sound : pool.Sound score defaults) :
    pool.joined.length ≤ score.tracks.length := by
  have taken := congrArg List.length sound.joined
  rw [List.length_take, List.length_map] at taken
  omega

theorem Sound.left_lt (sound : pool.Sound score defaults)
    (step : score.TaskStep defaults pool next) : next.left score < pool.left score := by
  cases step with
  | spawn more =>
      simp only [left]
      omega
  | @finish index track early unfinished found =>
      have inside := sound.started
      have fewer : ((Finset.range score.tracks.length).filter fun other =>
            (Function.update pool.stored index (some (score.compileTrack defaults track))
              other).isNone).card <
          ((Finset.range score.tracks.length).filter fun other =>
            (pool.stored other).isNone).card := by
        apply Finset.card_lt_card
        refine Finset.ssubset_iff_of_subset ?_ |>.mpr ⟨index, ?_, ?_⟩
        · intro other member
          by_cases same : other = index
          · simp [same] at member
          · simpa [same] using member
        · simp only [Finset.mem_filter, Finset.mem_range, unfinished, Option.isNone_none, and_true]
          omega
        · simp
      simp only [left]
      omega
  | @join result all there =>
      obtain ⟨track, found, -⟩ := sound.stored _ _ there
      have inside := (List.getElem?_eq_some_iff.mp found).1
      simp only [left, List.length_append, List.length_singleton]
      omega

/-- As long as a task is left, some step can be taken. -/
theorem Sound.exists_step (sound : pool.Sound score defaults) (incomplete : ¬pool.Complete score) :
    ∃ next, score.TaskStep defaults pool next := by
  have inside : pool.joined.length < score.tracks.length :=
    Nat.lt_of_le_of_ne sound.joined_length_le incomplete
  by_cases more : pool.started < score.tracks.length
  · exact ⟨_, .spawn more⟩
  · have all : pool.started = score.tracks.length := Nat.le_antisymm sound.started (by omega)
    -- the next result in order is either there or still to be stored
    cases there : pool.stored pool.joined.length with
    | none => exact ⟨_, .finish (by omega) there (List.getElem?_eq_getElem inside)⟩
    | some result => exact ⟨_, .join all there⟩

theorem Sound.exists_complete (sound : pool.Sound score defaults) :
    ∃ final, score.TaskRun defaults pool final ∧ final.Complete score := by
  induction left : pool.left score using Nat.strongRecOn generalizing pool with
  | ind count ih =>
      by_cases complete : pool.Complete score
      · exact ⟨pool, .refl, complete⟩
      · obtain ⟨next, step⟩ := sound.exists_step complete
        obtain ⟨final, run, done⟩ := ih _ (left ▸ sound.left_lt step) (sound.step step) rfl
        exact ⟨final, .head step run, done⟩

end TaskPool

/-! ## The answer -/

theorem Score.gather_results (score : Score) (fallback : Defaults) :
    score.gather (score.tracks.map (score.compileTrack (score.defaults fallback))) =
      score.compile fallback := by
  rw [Score.gather, Score.compile, ← List.map_prod_left_eq_zip, List.mapM_map]
  rfl

theorem Score.compileParallel_eq_gather (score : Score) (fallback : Defaults) :
    score.compileParallel fallback =
      score.gather (score.tracks.map (score.compileTrack (score.defaults fallback))) := by
  rw [Score.compileParallel, Score.gather, List.map_map]
  rfl

/-- Whatever the order in which tasks finish, a run that has collected all results gives the answer
of compiling the tracks one after another, be it all streams or an error with its track.  Every run
can be continued to such a one and none goes on for ever, and compiling on tasks is one of them. -/
theorem compileParallel_any_order (score : Score) (fallback : Defaults) :
    (∀ pool, score.TaskRun (score.defaults fallback) {} pool → pool.Complete score →
      score.gather pool.joined = score.compile fallback) ∧
    (∀ pool, score.TaskRun (score.defaults fallback) {} pool →
      (∃ final, score.TaskRun (score.defaults fallback) pool final ∧ final.Complete score) ∧
      ∀ next, score.TaskStep (score.defaults fallback) pool next →
        next.left score < pool.left score) ∧
    score.compileParallel fallback = score.compile fallback := by
  have sound := fun pool run =>
    @TaskPool.Sound.run {} pool _ _ (TaskPool.Sound.initial score (score.defaults fallback)) run
  refine ⟨?_, ?_, ?_⟩
  · intro pool run complete
    rw [(sound pool run).joined_of_complete complete, score.gather_results]
  · intro pool run
    exact ⟨(sound pool run).exists_complete, fun next step => (sound pool run).left_lt step⟩
  · rw [score.compileParallel_eq_gather, score.gather_results]

/-- A track without entries, and two that use different patterns which are not declared. -/
def strayTracks (resolution : Resolution) : Score where
  name := "song"
  resolution := resolution
  tracks := [⟨"lead", .drums, []⟩, ⟨"second", .drums, [.pattern ⟨"gone", 1, []⟩]⟩,
    ⟨"third", .drums, [.pattern ⟨"lost", 1, []⟩]⟩]

/-- The last track finishes first and the first one last; the error is that of the second. -/
theorem strayTracks_error : ∃ pool : TaskPool,
    (strayTracks ⟨4, by decide, by decide⟩).TaskRun {} {} pool ∧
      pool.Complete (strayTracks ⟨4, by decide, by decide⟩) ∧
      (strayTracks ⟨4, by decide, by decide⟩).gather pool.joined =
        .error ⟨"second", .undeclaredPattern "gone" ⟨0, none⟩⟩ := by
  obtain ⟨pool, run, complete⟩ : ∃ pool : TaskPool,
      (strayTracks ⟨4, by decide, by decide⟩).TaskRun {} {} pool ∧
        pool.Complete (strayTracks ⟨4, by decide, by decide⟩) := by
    refine ⟨?_, ?run, ?complete⟩
    case run =>
      refine .head (.spawn (by decide)) (.head (.spawn (by decide)) (.head (.spawn (by decide)) ?_))
      refine .head (@Score.TaskStep.finish _ _ _ 2 _ (by decide) rfl rfl) ?_
      refine .head (@Score.TaskStep.finish _ _ _ 1 _ (by decide) rfl rfl) ?_
      refine .head (@Score.TaskStep.finish _ _ _ 0 _ (by decide) rfl rfl) ?_
      refine .head (.join rfl rfl) ?_
      refine .head (.join rfl rfl) ?_
      refine .head (.join rfl rfl) ?_
      exact .refl
    case complete => rfl
  refine ⟨pool, run, complete, ?_⟩
  rw [(compileParallel_any_order (strayTracks ⟨4, by decide, by decide⟩) {}).1 pool run complete]
  rfl

end MidiScore
