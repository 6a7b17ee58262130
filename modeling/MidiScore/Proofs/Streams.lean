import MidiScore.Compile
import MidiScore.Proofs.Pairing

/-!
# Streams of compiled tracks

A compiled score has one stream for each of its tracks, in order.  A stream is the prologue of the
track and the schedule of its placed cues, and every scheduled event stands for a side of one of
the cues.
-/

namespace MidiScore

theorem Score.compile_eq_ok {score : Score} {fallback : Defaults} {compiled : CompiledScore}
    (compiles : score.compile fallback = .ok compiled) :
    List.Forall₂ (fun track stream =>
        score.compileTrack (score.defaults fallback) track = .ok stream)
      score.tracks compiled.tracks := by
  obtain ⟨streams, steps, same⟩ := bind_eq_ok.mp compiles
  cases same
  exact (mapM_eq_ok.mp steps).imp fun _ _ => mapError_eq_ok.mp

section
variable {score : Score} {defaults : Defaults} {track : Track} {stream : CompiledTrack}

/-- The events of a compiled track are those at its start and those of its schedule. -/
theorem Score.compileTrack_eq_ok
    (compiled : score.compileTrack defaults track = .ok stream) :
    ∃ cues placements, score.expand defaults track = .ok cues ∧
      place score.resolution cues = .ok placements ∧
      stream.events = score.prologue track ++
        (schedule score.resolution cues (Timeline.ofPlacements placements)).events := by
  obtain ⟨cues, expanded, rest⟩ := bind_eq_ok.mp compiled
  obtain ⟨timeline, built, same⟩ := bind_eq_ok.mp rest
  obtain ⟨placements, placed, rfl⟩ := Timeline.ofCues_eq_ok.mp built
  cases same
  exact ⟨cues, placements, expanded, placed, rfl⟩

theorem Score.compileTrack_kind (compiled : score.compileTrack defaults track = .ok stream) :
    stream.kind = track.kind := by
  obtain ⟨cues, -, rest⟩ := bind_eq_ok.mp compiled
  obtain ⟨timeline, -, same⟩ := bind_eq_ok.mp rest
  cases same
  rfl

/-- An event of a stream stands in the prologue, or for a side of a cue. -/
theorem Score.mem_stream (compiled : score.compileTrack defaults track = .ok stream)
    {event : TimedEvent} (member : event ∈ stream.events) :
    event ∈ score.prologue track ∨
      ∃ cues cue side, score.expand defaults track = .ok cues ∧ cue ∈ cues ∧
        cue.Causes side event.event := by
  obtain ⟨cues, placements, expanded, placed, events⟩ := Score.compileTrack_eq_ok compiled
  rw [events] at member
  rcases List.mem_append.mp member with early | scheduled
  · exact Or.inl early
  · obtain ⟨⟨side, index⟩, -, cue, found, causes⟩ := exists_of_forall₂_right
      (schedule_events_standFor (placeFrom_fits placed) score.resolution) scheduled
    exact Or.inr ⟨cues, cue, side, expanded, List.mem_of_getElem? found, causes⟩

end

end MidiScore
