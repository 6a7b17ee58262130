import MidiScore.Proofs.Layout

/-!
# Tracks one after the other

Placement goes on from one list of cues to the next.  All that it keeps is the span of the last
sounding cue (`placeFrom_append`), and of that only the end matters to a cue without a delay.  So
cues that begin without a delay are placed after others as they are placed alone, only later.

*Later in time.*  A run that starts from a later span has the same outcome, with all placements
later by as much (`placeFrom_later`).  A delay is compared with the distance of two times, and
moving both changes nothing.

*Without a delay.*  Up to the first sounding cue a run knows the end of the last span only, so it
can as well start at zero and be moved there (`placeFrom_restart`).

*Marks.*  Marks are numbered in order, so those of the second list go on after those of the first
(`Timeline.ofPlacements_append`).  The end from which they count is that of the last sounding cue,
which need not be the latest end.
-/

namespace MidiScore

/-! ## Later in time -/

/-- The span later by a time. -/
def Span.later (time : Ticks) (span : Span) : Span := ⟨span.start + time, span.stop + time⟩

/-- The placement later by a time. -/
def Placement.later (time : Ticks) : Placement → Placement
  | .instant tick => .instant (tick + time)
  | .span s => .span (s.later time)

theorem Placement.later_start (time : Ticks) (placement : Placement) :
    (placement.later time).start = placement.start + time := by
  cases placement <;> rfl

theorem Placement.later_stop? (time : Ticks) (placement : Placement) :
    (placement.later time).stop? = placement.stop?.map (· + time) := by
  cases placement <;> rfl

namespace Ticks

theorem zero_add (a : Ticks) : 0 + a = a := by
  have lower := a.lower
  have upper := a.upper
  apply ext
  rw [add_sub (by rw [zero_sub]; omega) (by rw [zero_sub]; omega), zero_sub, Int.zero_add]

/-- Sums in range do not depend on the order of their terms. -/
theorem add_right_comm {a b c : Ticks} (first : 0 ≤ a.sub) (second : 0 ≤ b.sub) (third : 0 ≤ c.sub)
    (small : a.sub + b.sub + c.sub < 2 ^ 63) : a + b + c = a + c + b := by
  have left : (a + b).sub = a.sub + b.sub := add_sub (by omega) (by omega)
  have right : (a + c).sub = a.sub + c.sub := add_sub (by omega) (by omega)
  apply ext
  rw [add_sub (by omega) (by omega), left, add_sub (by omega) (by omega), right]
  omega

/-- Two times keep their distance when both are later. -/
theorem distance_later {start stop time : Ticks} (first : 0 ≤ start.sub)
    (second : start.sub ≤ stop.sub) (third : 0 ≤ time.sub) (small : stop.sub + time.sub < 2 ^ 63) :
    stop + time - (start + time) = stop - start := by
  have left : (stop + time).sub = stop.sub + time.sub := add_sub (by omega) (by omega)
  have right : (start + time).sub = start.sub + time.sub := add_sub (by omega) (by omega)
  apply ext
  rw [sub_sub (by omega) (by omega), sub_sub (by omega) (by omega), left, right]
  omega

end Ticks

/-- A cue that starts later also ends later. -/
theorem Span.later_mk {start duration time : Ticks} (first : 0 ≤ start.sub)
    (second : 0 ≤ duration.sub) (third : 0 ≤ time.sub)
    (small : start.sub + duration.sub + time.sub < 2 ^ 63) :
    Span.mk (start + time) (start + time + duration) =
      (Span.mk start (start + duration)).later time := by
  rw [Span.later, Ticks.add_right_comm first third second (by omega)]

section
variable {resolution : Resolution}

/-- A cue that follows a later span starts later by as much, or is refused for the same reason. -/
theorem startAfter_later {time pause : Ticks} {delay : Option Ticks} {span : Span} {reach : Nat}
    (within : span.Within reach) (delayed : 0 ≤ (delay.getD 0).sub) (paused : 0 ≤ pause.sub)
    (positive : 0 ≤ time.sub)
    (small : time.sub + reach + (delay.getD 0).sub + pause.sub < 2 ^ 63) :
    startAfter (some (span.later time)) delay pause =
      (startAfter (some span) delay pause).map (· + time) := by
  obtain ⟨first, second, third⟩ := within
  cases delay with
  | none =>
      rw [Option.getD_none, Ticks.zero_sub] at small
      have moved : span.stop + time + pause = span.stop + pause + time :=
        Ticks.add_right_comm (by omega) positive paused (by omega)
      exact congrArg Except.ok moved
  | some delay =>
      rw [Option.getD_some] at delayed small
      have distance : (span.later time).stop - (span.later time).start = span.stop - span.start :=
        Ticks.distance_later first second positive (by omega)
      have moved : span.start + time + delay = span.start + delay + time :=
        Ticks.add_right_comm first positive delayed (by omega)
      rw [startAfter_some, startAfter_some, distance]
      split
      · rfl
      · exact congrArg Except.ok moved

/-- Cues that follow a later span are placed later by as much. -/
theorem placeFrom_later {time : Ticks} (positive : 0 ≤ time.sub) {cues : List Cue} {span : Span}
    {reach : Nat} (within : span.Within reach)
    (small : time.sub + reach + extent resolution cues < 2 ^ 63 - 1) :
    placeFrom resolution (some (span.later time)) cues =
      (placeFrom resolution (some span) cues).map (List.map (Placement.later time)) := by
  induction cues generalizing span reach with
  | nil => rfl
  | cons cue cues ih =>
      rw [extent_cons] at small
      cases timing : cue.timing resolution with
      | instant =>
          rw [placeFrom_of_instant timing, placeFrom_of_instant timing, ih within (by omega)]
          cases placeFrom resolution (some span) cues <;> rfl
      | span duration delay pause =>
          obtain ⟨length, delayed, paused⟩ := Cue.timing_sub (by omega) timing
          have asked : (delay.getD 0).sub + pause.sub ≤ cue.extent resolution := by
            unfold Cue.extent
            omega
          have moved := startAfter_later within (by omega) (by omega) positive
            (show time.sub + reach + (delay.getD 0).sub + pause.sub < 2 ^ 63 by omega)
          cases started : startAfter (some span) delay pause with
          | error available =>
              rw [started] at moved
              rw [placeFrom_of_refused timing started, placeFrom_of_refused timing moved]
              rfl
          | ok start =>
              rw [started] at moved
              obtain ⟨inside, stop⟩ := startAfter_within
                (show ((some span).getD {}).Within reach from within) (by omega) timing started
              have begun : 0 ≤ start.sub := inside.1
              have ended : (start + duration).sub ≤ reach + cue.extent resolution := inside.2.2
              rw [placeFrom_of_started timing started, placeFrom_of_started timing moved,
                Span.later_mk begun (by omega) positive (by omega), ih inside (by omega)]
              cases placeFrom resolution (some ⟨start, start + duration⟩) cues <;> rfl

/-! ## Without a delay -/

/-- Cues whose first sounding one, if there is one, has no delay. -/
def BeginsUndelayed (cues : List Cue) : Prop := ∀ cue ∈ (soundingCues cues).head?, cue.delay = []

theorem placeFrom_restart {cues : List Cue} (undelayed : BeginsUndelayed cues)
    {previous : Option Span} {reach : Nat} (within : (previous.getD {}).Within reach)
    (small : reach + extent resolution cues < 2 ^ 63 - 1) :
    placeFrom resolution previous cues =
      (place resolution cues).map (List.map (Placement.later (previous.getD {}).stop)) := by
  unfold place
  induction cues with
  | nil => rfl
  | cons cue cues ih =>
      rw [extent_cons] at small
      cases timing : cue.timing resolution with
      | instant =>
          have rest : BeginsUndelayed cues := by
            rwa [BeginsUndelayed,
              soundingCues_cons_of_control (Cue.timing_eq_instant.mp timing)] at undelayed
          have zero : (0 : Ticks) + (previous.getD {}).stop = (previous.getD {}).stop :=
            Ticks.zero_add _
          rw [placeFrom_of_instant timing, placeFrom_of_instant timing, ih rest (by omega)]
          cases placeFrom resolution none cues with
          | error cause => rfl
          | ok placements => simp [Except.map, Placement.later, zero]
      | span duration delay pause =>
          obtain ⟨length, -, paused⟩ := Cue.timing_sub (by omega) timing
          obtain ⟨sounding, -, written, -⟩ := Cue.timing_eq_span timing
          have unwritten : cue.delay = [] := by
            rw [BeginsUndelayed, soundingCues_cons_of_sounding sounding] at undelayed
            exact undelayed cue rfl
          rw [if_pos (List.isEmpty_iff.mpr unwritten)] at written
          subst written
          obtain ⟨first, second, third⟩ := within
          have asked : cue.exactDuration resolution + pause.sub ≤ cue.extent resolution := by
            unfold Cue.extent
            omega
          -- both runs start the cue its pause after an end, and go on from spans that lie apart
          have started : startAfter none none pause = .ok (0 + pause) := rfl
          have here : startAfter previous none pause = .ok ((previous.getD {}).stop + pause) := rfl
          have start : (previous.getD {}).stop + pause = 0 + pause + (previous.getD {}).stop := by
            rw [Ticks.add_right_comm (Int.le_refl 0) (by omega) (by omega) (by
              rw [Ticks.zero_sub]
              omega), Ticks.zero_add]
          obtain ⟨inside, stop⟩ := startAfter_within
            (show ((none : Option Span).getD {}).Within 0 from Span.within_default 0)
            (show 0 + cue.extent resolution < 2 ^ 63 by omega) timing started
          have begun : 0 ≤ (0 + pause).sub := inside.1
          have ended : (0 + pause + duration).sub ≤ (0 + cue.extent resolution : Nat) := inside.2.2
          rw [placeFrom_of_started timing started, placeFrom_of_started timing here, start,
            Span.later_mk begun (by omega) (by omega) (by omega),
            placeFrom_later (by omega) inside (by omega)]
          cases placeFrom resolution (some ⟨0 + pause, 0 + pause + duration⟩) cues <;> rfl

/-! ## One list after the other -/

/-- A run goes on from the last span of the cues before. -/
theorem placeFrom_append (first second : List Cue) (previous : Option Span) :
    placeFrom resolution previous (first ++ second) =
      (placeFrom resolution previous first).bind fun placements =>
        (placeFrom resolution ((lastSpan? placements).or previous) second).map
          (placements ++ ·) := by
  induction first generalizing previous with
  | nil =>
      simp only [List.nil_append, placeFrom_nil, Except.bind, lastSpan?, List.filterMap_nil,
        List.getLast?_nil, Option.none_or]
      cases placeFrom resolution previous second <;> rfl
  | cons cue first ih =>
      have goOn : ∀ (next : Option Span) (placement : Placement),
          placement.span?.or previous = next →
          (placeFrom resolution next (first ++ second)).map (placement :: ·) =
            ((placeFrom resolution next first).map (placement :: ·)).bind fun placements =>
              (placeFrom resolution ((lastSpan? placements).or previous) second).map
                (placements ++ ·) := by
        rintro next placement rfl
        rw [ih]
        cases placeFrom resolution (placement.span?.or previous) first with
        | error cause => rfl
        | ok placements =>
            simp only [Except.bind, Except.map, lastSpan?_cons, Option.or_assoc]
            cases placeFrom resolution _ second <;> rfl
      rw [List.cons_append]
      cases timing : cue.timing resolution with
      | instant =>
          rw [placeFrom_of_instant timing, placeFrom_of_instant timing]
          exact goOn previous _ rfl
      | span duration delay pause =>
          cases started : startAfter previous delay pause with
          | error available =>
              rw [placeFrom_of_refused timing started, placeFrom_of_refused timing started]
              rfl
          | ok start =>
              rw [placeFrom_of_started timing started, placeFrom_of_started timing started]
              exact goOn _ _ rfl

theorem extent_append (first second : List Cue) :
    extent resolution (first ++ second) = extent resolution first + extent resolution second := by
  simp [extent]

theorem lastSpan?_within {reach : Nat} {cues : List Cue} {placements : List Placement}
    (placed : List.Forall₂ (Placed resolution reach) cues placements) :
    ((lastSpan? placements).getD {}).Within reach := by
  cases last : lastSpan? placements with
  | none => exact Span.within_default reach
  | some span =>
      obtain ⟨cue, -, -, within, -⟩ := exists_of_forall₂_right placed (lastSpan?_mem last)
      exact within

/-- Cues that begin without a delay are placed after others as they are placed alone, from the end
of the last sounding cue on.  The first cue that cannot be placed decides the error. -/
theorem place_append {first second : List Cue} (undelayed : BeginsUndelayed second)
    (small : extent resolution (first ++ second) < 2 ^ 63 - 1) :
    place resolution (first ++ second) =
      (place resolution first).bind fun placements =>
        (place resolution second).map fun others =>
          placements ++ others.map (Placement.later ((lastSpan? placements).getD {}).stop) := by
  rw [extent_append] at small
  rw [place, placeFrom_append, ← place]
  cases placed : place resolution first with
  | error cause => rfl
  | ok placements =>
      have within := lastSpan?_within (place_placed (by omega) placed)
      simp only [Except.bind, Option.or_none, placeFrom_restart undelayed within small]
      cases place resolution second <;> rfl

end

/-! ## Marks -/

/-- A mark later in time, after other marks of its side and past other cues. -/
def Mark.later (time : Ticks) (marks cues : Nat) (mark : Mark) : Mark :=
  ⟨mark.tick + time, mark.sequence + marks, mark.entry + cues⟩

theorem zipIdx_map_from {α β : Type} (change : α → β) (members : List α) (start : Nat) :
    (members.map change).zipIdx start =
      members.zipIdx.map fun indexed => (change indexed.1, indexed.2 + start) := by
  have later := @List.map_snd_add_zipIdx_eq_zipIdx _ members start 0
  rw [List.zipIdx_map, ← Nat.add_zero start, ← later, List.map_map]
  rfl

namespace Timeline

/-- The end of the last sounding cue, or zero if there is none. -/
def lastStop (cues : List Cue) (timeline : Timeline) : Ticks :=
  ((timeline.spanBefore? cues cues.length).getD {}).stop

/-- The marks of a timeline over its cues, and those of another one from the end of the last
sounding cue on. -/
def followedBy (cues : List Cue) (first second : Timeline) : Timeline where
  begins := first.begins ++
    second.begins.map (Mark.later (first.lastStop cues) first.begins.length cues.length)
  ends := first.ends ++
    second.ends.map (Mark.later (first.lastStop cues) first.ends.length cues.length)

theorem lastStop_ofPlacements {cues : List Cue} {placements : List Placement}
    (fits : List.Forall₂ Fits cues placements) :
    (ofPlacements placements).lastStop cues = ((lastSpan? placements).getD {}).stop := by
  rw [lastStop, spanBefore?_ofPlacements fits, fits.length_eq, List.take_length]

theorem ofPlacements_append {cues : List Cue} {first : List Placement}
    (fits : List.Forall₂ Fits cues first) (second : List Placement) :
    ofPlacements (first ++ second.map (Placement.later ((lastSpan? first).getD {}).stop)) =
      (ofPlacements first).followedBy cues (ofPlacements second) := by
  rw [followedBy, lastStop_ofPlacements fits, fits.length_eq]
  generalize ((lastSpan? first).getD {}).stop = time
  have marks : ∀ placements, ofPlacements placements =
      { begins := placements.zipIdx.map fun indexed => ⟨indexed.1.start, indexed.2, indexed.2⟩
        ends := (placements.zipIdx.filterMap fun indexed =>
          indexed.1.stop?.map fun stop => (stop, indexed.2)).zipIdx.map fun indexed =>
            ⟨indexed.1.1, indexed.2, indexed.1.2⟩ } := fun _ => rfl
  have indices : (first ++ second.map (Placement.later time)).zipIdx =
      first.zipIdx ++
        second.zipIdx.map fun indexed => (indexed.1.later time, indexed.2 + first.length) := by
    rw [List.zipIdx_append, Nat.zero_add, zipIdx_map_from]
  have moved : (second.zipIdx.map fun indexed =>
        (indexed.1.later time, indexed.2 + first.length)).filterMap (fun indexed =>
          indexed.1.stop?.map fun stop => (stop, indexed.2)) =
      (second.zipIdx.filterMap fun indexed =>
          indexed.1.stop?.map fun stop => (stop, indexed.2)).map fun indexed =>
        (indexed.1 + time, indexed.2 + first.length) := by
    rw [List.filterMap_map, List.map_filterMap]
    refine List.filterMap_congr ?_
    intro indexed _
    simp only [Function.comp_apply, Placement.later_stop?, Option.map_map]
    rfl
  simp only [marks, indices, List.filterMap_append, moved, List.map_append, List.zipIdx_append,
    Nat.zero_add, zipIdx_map_from, List.map_map, List.length_map, List.length_zipIdx,
    Placement.later_start, Function.comp_def, Mark.later]

end Timeline

/-! ## Timelines -/

/-- Placement is compositional.  Cues whose first sounding one has no delay can be placed after
others if and only if both lists can be placed alone.  The timeline is then that of the first list,
followed by that of the second from the end of the last sounding cue on: every mark is later by
exactly this time, and its number and its cue go on after those of the first list. -/
theorem ofCues_append {resolution : Resolution} {first second : List Cue}
    (undelayed : BeginsUndelayed second)
    (small : extent resolution (first ++ second) < 2 ^ 63 - 1) :
    ((∃ timeline, Timeline.ofCues resolution (first ++ second) = .ok timeline) ↔
        (∃ timeline, Timeline.ofCues resolution first = .ok timeline) ∧
          ∃ timeline, Timeline.ofCues resolution second = .ok timeline) ∧
      ∀ earlier later, Timeline.ofCues resolution first = .ok earlier →
        Timeline.ofCues resolution second = .ok later →
        Timeline.ofCues resolution (first ++ second) = .ok (earlier.followedBy first later) ∧
          ∀ mark ∈ later.begins ++ later.ends,
            (mark.tick + earlier.lastStop first).sub =
              mark.tick.sub + (earlier.lastStop first).sub := by
  have joined := place_append undelayed small
  rw [extent_append] at small
  have compose : ∀ earlier later, Timeline.ofCues resolution first = .ok earlier →
      Timeline.ofCues resolution second = .ok later →
      Timeline.ofCues resolution (first ++ second) = .ok (earlier.followedBy first later) := by
    intro earlier later firstBuilt secondBuilt
    obtain ⟨placements, firstPlaced, rfl⟩ := Timeline.ofCues_eq_ok.mp firstBuilt
    obtain ⟨others, secondPlaced, rfl⟩ := Timeline.ofCues_eq_ok.mp secondBuilt
    rw [Timeline.ofCues_eq, joined, firstPlaced, secondPlaced,
      ← Timeline.ofPlacements_append (placeFrom_fits firstPlaced)]
    rfl
  refine ⟨⟨?_, ?_⟩, fun earlier later firstBuilt secondBuilt =>
    ⟨compose earlier later firstBuilt secondBuilt, ?_⟩⟩
  · rintro ⟨timeline, built⟩
    obtain ⟨whole, placed, -⟩ := Timeline.ofCues_eq_ok.mp built
    obtain ⟨placements, firstPlaced, rest⟩ := bind_eq_ok.mp (joined.symm.trans placed)
    obtain ⟨others, secondPlaced, -⟩ := map_eq_ok.mp rest
    exact ⟨⟨_, Timeline.ofCues_eq_ok.mpr ⟨placements, firstPlaced, rfl⟩⟩,
      _, Timeline.ofCues_eq_ok.mpr ⟨others, secondPlaced, rfl⟩⟩
  · rintro ⟨⟨earlier, firstBuilt⟩, later, secondBuilt⟩
    exact ⟨_, compose earlier later firstBuilt secondBuilt⟩
  · intro mark member
    obtain ⟨placements, firstPlaced, rfl⟩ := Timeline.ofCues_eq_ok.mp firstBuilt
    obtain ⟨others, secondPlaced, rfl⟩ := Timeline.ofCues_eq_ok.mp secondBuilt
    obtain ⟨lower, upper⟩ := Timeline.mark_bounds (place_placed (by omega) secondPlaced) member
    obtain ⟨start, forward, stop⟩ := lastSpan?_within (place_placed (by omega) firstPlaced)
    rw [Timeline.lastStop_ofPlacements (placeFrom_fits firstPlaced)]
    exact Ticks.add_sub (by omega) (by omega)

/-- A change of meter, a tone after a pause, and a chord member over it that ends earlier. -/
def answer : List Cue :=
  [⟨⟨4, none⟩, .meter ⟨3, 4⟩⟩, ⟨⟨5, none⟩, .tone ⟨.a, 4, .quarter, 100, [], [⟨.eighth, .plain⟩]⟩⟩,
    ⟨⟨6, none⟩, .tone ⟨.b, 4, ⟨.eighth, .plain⟩, 100, [.chord], []⟩⟩]

/-- The marks of the answer alone. -/
def answerMarks : Timeline where
  begins := [⟨0, 0, 0⟩, ⟨.ofSub 192, 1, 1⟩, ⟨.ofSub 192, 2, 2⟩]
  ends := [⟨.ofSub 576, 0, 1⟩, ⟨.ofSub 384, 1, 2⟩]

/-- The answer counts from the end of the last of the nested notes, which is not their latest
end. -/
theorem answer_follows_nestedNotes :
    BeginsUndelayed answer ∧
      extent ⟨4, by decide, by decide⟩ (nestedNotes ++ answer) < 2 ^ 63 - 1 ∧
      Timeline.ofCues ⟨4, by decide, by decide⟩ nestedNotes = .ok nestedMarks ∧
      Timeline.ofCues ⟨4, by decide, by decide⟩ answer = .ok answerMarks ∧
      nestedMarks.lastStop nestedNotes = .ofSub 768 ∧ nestedMarks.length = .ofSub 960 ∧
      Timeline.ofCues ⟨4, by decide, by decide⟩ (nestedNotes ++ answer) =
        .ok (nestedMarks.followedBy nestedNotes answerMarks) := by
  have undelayed : BeginsUndelayed answer := by
    rintro cue ⟨⟩
    rfl
  have small : extent ⟨4, by decide, by decide⟩ (nestedNotes ++ answer) < 2 ^ 63 - 1 := by decide
  have first : Timeline.ofCues ⟨4, by decide, by decide⟩ nestedNotes = .ok nestedMarks := rfl
  have second : Timeline.ofCues ⟨4, by decide, by decide⟩ answer = .ok answerMarks := rfl
  refine ⟨undelayed, small, first, second, by decide, by decide, ?_⟩
  exact ((ofCues_append undelayed small).2 _ _ first second).1

end MidiScore
