import MidiScore.Proofs.Layout
import MidiScore.Proofs.Provenance

/-!
# Groups of hits and single hits

A group of hits is placed as its leader, and the delays and pauses of its other hits are dropped.
As cues of their own these hits would be placed one after another, each relative to the hit before
it.  Where their delays add up to zero this makes no difference.

*Step.*  Such a hit starts with the hit before it, since a delay of zero is never too long, and all
hits have the same length.  So it takes the very span of the hit before it, and what follows is
placed after the same span as in the group (`placeFrom_struck`).

*Run.*  Placing the ungrouped cues is placing the cues, with every placement repeated for the hits
of its group (`ungroups`).  Sums that stop at the end of the range do not matter for this, and a
track is refused for the same delay.
-/

namespace MidiScore

/-! ## Single hits -/

/-- The cue, or the cues of its single hits. -/
def Cue.ungrouped (cue : Cue) : List Cue :=
  match cue.action with
  | .hits group => group.hits.map fun hit => ⟨cue.origin, .hits ⟨hit, []⟩⟩
  | _ => [cue]

/-- The cues with one cue for every hit. -/
def ungroup (cues : List Cue) : List Cue := cues.flatMap Cue.ungrouped

theorem ungroup_cons (cue : Cue) (cues : List Cue) :
    ungroup (cue :: cues) = cue.ungrouped ++ ungroup cues := rfl

/-- A hit whose delay is written and takes no time. -/
def Hit.Struck (resolution : Resolution) (hit : Hit) : Prop :=
  hit.delay ≠ [] ∧ NoteValue.sumTicks resolution hit.delay = 0

/-- The placements of cues, each repeated for the hits of its group. -/
def ungroupPlacements (cues : List Cue) (placements : List Placement) : List Placement :=
  (List.zipWith (fun cue placement => List.replicate cue.ungrouped.length placement) cues
    placements).flatten

/-! ## Steps -/

theorem Hit.delay_ne_nil {hit : Hit} (marked : hit.isChordMarked = true) : hit.delay ≠ [] := by
  intro unwritten
  rw [Hit.isChordMarked, unwritten] at marked
  cases marked

theorem Ticks.add_zero (t : Ticks) : t + 0 = t := by
  have lower := t.lower
  have upper := t.upper
  have range : -2 ^ 63 ≤ t.sub + (0 : Ticks).sub ∧ t.sub + (0 : Ticks).sub ≤ 2 ^ 63 - 1 := by
    rw [zero_sub]
    omega
  apply ext
  rw [add_sub range.1 range.2, zero_sub, Int.add_zero]

theorem Ticks.distance_nonneg {a b : Ticks} (ordered : a ≤ b) : 0 ≤ (b - a).sub := by
  have distance : (b - a).sub = max (-2 ^ 63) (min (2 ^ 63 - 1) (b.sub - a.sub)) := rfl
  rw [le_iff] at ordered
  omega

/-- A delay of zero is accepted, and starts with the cue before. -/
theorem startAfter_zero {span : Span} (forward : span.start ≤ span.stop) (pause : Ticks) :
    startAfter (some span) (some 0) pause = .ok span.start := by
  have available : ¬span.stop - span.start < 0 := Int.not_lt.mpr (Ticks.distance_nonneg forward)
  rw [startAfter_some, if_neg available, Ticks.add_zero]

/-- A hit that is struck with the one before it has a delay of zero, so its pause is left aside. -/
theorem Hit.Struck.timing {resolution : Resolution} {hit : Hit} (struck : hit.Struck resolution)
    (origin : Origin) :
    Cue.timing resolution ⟨origin, .hits ⟨hit, []⟩⟩ =
      .span (NoteValue.drum.ticks resolution) (some 0)
        (NoteValue.sumTicks resolution hit.pause) := by
  have written : hit.delay.isEmpty = false := by simpa using struck.1
  rw [Cue.timing_eq]
  simp [Cue.isSounding, Cue.duration, Cue.durationTraced, Cue.delay, Cue.pause, written, struck.2]

/-- Hits that are struck with the one before take its span. -/
theorem placeFrom_struck {resolution : Resolution} (origin : Origin) {hits : List Hit}
    (struck : ∀ hit ∈ hits, hit.Struck resolution) (start : Ticks) (cues : List Cue) :
    placeFrom resolution (some ⟨start, start + NoteValue.drum.ticks resolution⟩)
        (hits.map (fun hit => ⟨origin, .hits ⟨hit, []⟩⟩) ++ cues) =
      (placeFrom resolution (some ⟨start, start + NoteValue.drum.ticks resolution⟩) cues).map
        (List.replicate hits.length
          (.span ⟨start, start + NoteValue.drum.ticks resolution⟩) ++ ·) := by
  have length := NoteValue.ticks_sub resolution .drum
  have forward : start ≤ start + NoteValue.drum.ticks resolution := Ticks.le_add (by omega)
  induction hits with
  | nil =>
      rw [List.map_nil, List.nil_append]
      cases placeFrom resolution (some ⟨start, start + NoteValue.drum.ticks resolution⟩) cues
      all_goals rfl
  | cons hit hits ih =>
      obtain ⟨first, others⟩ := List.forall_mem_cons.mp struck
      rw [List.map_cons, List.cons_append,
        placeFrom_of_started (first.timing origin) (startAfter_zero forward _), ih others]
      cases placeFrom resolution (some ⟨start, start + NoteValue.drum.ticks resolution⟩) cues
      all_goals rfl

/-! ## Runs -/

/-- A cue whose hits but the leader are struck with the one before. -/
def Cue.StruckTogether (resolution : Resolution) (cue : Cue) : Prop :=
  ∀ group, cue.action = .hits group → ∀ hit ∈ group.others, hit.Struck resolution

theorem ungroupPlacements_cons (cue : Cue) (cues : List Cue) (placement : Placement)
    (placements : List Placement) :
    ungroupPlacements (cue :: cues) (placement :: placements) =
      List.replicate cue.ungrouped.length placement ++ ungroupPlacements cues placements := rfl

section
variable {resolution : Resolution} {cues : List Cue}

/-- Placing the ungrouped cues is placing the cues, with placements repeated. -/
def Ungroups (resolution : Resolution) (cues : List Cue) : Prop :=
  ∀ previous, placeFrom resolution previous (ungroup cues) =
    (placeFrom resolution previous cues).map (ungroupPlacements cues)

theorem Ungroups.cons_single {cue : Cue} (single : cue.ungrouped = [cue])
    (rest : Ungroups resolution cues) : Ungroups resolution (cue :: cues) := by
  intro previous
  have together : ungroup (cue :: cues) = cue :: ungroup cues := by
    rw [ungroup_cons, single]
    rfl
  have once : ∀ placement placements, ungroupPlacements (cue :: cues) (placement :: placements) =
      placement :: ungroupPlacements cues placements := by
    intro placement placements
    rw [ungroupPlacements_cons, single]
    rfl
  rw [together]
  cases timing : cue.timing resolution with
  | instant =>
      rw [placeFrom_of_instant timing, placeFrom_of_instant timing, rest]
      cases placeFrom resolution previous cues <;> simp [Except.map, once]
  | span duration delay pause =>
      cases started : startAfter previous delay pause with
      | error available =>
          rw [placeFrom_of_refused timing started, placeFrom_of_refused timing started]
          rfl
      | ok start =>
          rw [placeFrom_of_started timing started, placeFrom_of_started timing started, rest]
          cases placeFrom resolution (some ⟨start, start + duration⟩) cues <;>
            simp [Except.map, once]

/-- A group is placed as its leader, and each of its other hits takes the same span again. -/
theorem Ungroups.cons_hits {origin : Origin} {group : HitGroup}
    (struck : ∀ hit ∈ group.others, hit.Struck resolution) (rest : Ungroups resolution cues) :
    Ungroups resolution (⟨origin, .hits group⟩ :: cues) := by
  intro previous
  have apart : ungroup (⟨origin, .hits group⟩ :: cues) = ⟨origin, .hits ⟨group.leader, []⟩⟩ ::
      (group.others.map (fun hit => ⟨origin, .hits ⟨hit, []⟩⟩) ++ ungroup cues) := rfl
  have repeated : ∀ placement placements,
      ungroupPlacements (⟨origin, .hits group⟩ :: cues) (placement :: placements) =
        placement :: (List.replicate group.others.length placement ++
          ungroupPlacements cues placements) := by
    intro placement placements
    simp [ungroupPlacements_cons, Cue.ungrouped, HitGroup.hits, List.replicate_succ]
  -- the leader alone asks for the same times as its group
  have leader : Cue.timing resolution ⟨origin, .hits ⟨group.leader, []⟩⟩ =
      Cue.timing resolution ⟨origin, .hits group⟩ := rfl
  cases timing : Cue.timing resolution ⟨origin, .hits group⟩ with
  | instant => cases timing
  | span duration delay pause =>
      rw [timing] at leader
      obtain ⟨-, rfl, -, -⟩ := Cue.timing_eq_span timing
      rw [apart]
      cases started : startAfter previous delay pause with
      | error available =>
          rw [placeFrom_of_refused leader started, placeFrom_of_refused timing started]
          rfl
      | ok start =>
          have length : Cue.duration resolution ⟨origin, .hits group⟩ =
            NoteValue.drum.ticks resolution := rfl
          rw [placeFrom_of_started leader started, placeFrom_of_started timing started, length,
            placeFrom_struck origin struck, rest]
          cases placeFrom resolution (some ⟨start, start + NoteValue.drum.ticks resolution⟩) cues
          all_goals simp [Except.map, repeated]

theorem ungroups (struck : ∀ cue ∈ cues, cue.StruckTogether resolution) :
    Ungroups resolution cues := by
  induction cues with
  | nil => exact fun _ => rfl
  | cons cue cues ih =>
      obtain ⟨first, others⟩ := List.forall_mem_cons.mp struck
      obtain ⟨origin, action⟩ := cue
      cases action with
      | hits group => exact (ih others).cons_hits (first group rfl)
      | tone tone => exact (ih others).cons_single rfl
      | bend bend => exact (ih others).cons_single rfl
      | meter meter => exact (ih others).cons_single rfl
      | tempo bpm => exact (ih others).cons_single rfl

end

/-! ## Marks -/

/-- Every hit of a group has the placement of the group. -/
theorem getElem?_ungroupPlacements {before after : List Cue} {cue : Cue}
    {placements : List Placement} (same : (before ++ cue :: after).length = placements.length)
    {position : Nat} (inside : position < cue.ungrouped.length) :
    (ungroupPlacements (before ++ cue :: after) placements)[(ungroup before).length + position]? =
      placements[before.length]? := by
  induction before generalizing placements with
  | nil =>
      cases placements with
      | nil => cases same
      | cons placement placements =>
          rw [List.nil_append, ungroupPlacements_cons,
            List.getElem?_append_left (by simpa [ungroup] using inside)]
          simp [ungroup, inside]
  | cons first before ih =>
      cases placements with
      | nil => cases same
      | cons placement placements =>
          rw [List.cons_append, ungroupPlacements_cons, ungroup_cons, List.length_append,
            Nat.add_assoc, List.getElem?_append_right (by simp), List.length_replicate,
            Nat.add_sub_cancel_left, ih (Nat.succ.inj same)]
          rfl

/-- The cues of a track whose groups take no time between their hits.  They have a timeline if and
only if the cues of single hits have one.  Every hit of a group then begins and ends as its group
does, and any other cue begins, and ends if it sounds, at the same times in both. -/
theorem ungroup_keeps_times {score : Score} {defaults : Defaults} {track : Track} {cues : List Cue}
    (resolution : Resolution) (expanded : score.expand defaults track = .ok cues)
    (struck : ∀ cue ∈ cues, ∀ group, cue.action = .hits group →
      ∀ hit ∈ group.others, NoteValue.sumTicks resolution hit.delay = 0) :
    ((∃ timeline, Timeline.ofCues resolution cues = .ok timeline) ↔
        ∃ timeline, Timeline.ofCues resolution (ungroup cues) = .ok timeline) ∧
      ∀ timeline single, Timeline.ofCues resolution cues = .ok timeline →
        Timeline.ofCues resolution (ungroup cues) = .ok single →
        ∀ before cue after, cues = before ++ cue :: after →
          ∀ position < cue.ungrouped.length,
            (∃ start, tickOf? timeline.begins before.length = some start ∧
              tickOf? single.begins ((ungroup before).length + position) = some start) ∧
            tickOf? single.ends ((ungroup before).length + position) =
              tickOf? timeline.ends before.length ∧
            (tickOf? timeline.ends before.length).isSome = cue.isSounding := by
  obtain ⟨items, unrolled, rfl⟩ := map_eq_ok.mp expanded
  have together : ∀ cue ∈ group items, cue.StruckTogether resolution := by
    intro cue member hits isGroup hit inside
    exact ⟨Hit.delay_ne_nil (chordMarked_of_mem_others member isGroup inside),
      struck cue member hits isGroup hit inside⟩
  have same : place resolution (ungroup (group items)) =
      (place resolution (group items)).map (ungroupPlacements (group items)) :=
    ungroups together none
  refine ⟨?_, ?_⟩
  · simp only [Timeline.ofCues_eq, same]
    cases place resolution (group items) <;> simp [Except.map]
  · intro timeline single built singleBuilt before cue after split position inside
    obtain ⟨placements, placed, rfl⟩ := Timeline.ofCues_eq_ok.mp built
    obtain ⟨others, othersPlaced, rfl⟩ := Timeline.ofCues_eq_ok.mp singleBuilt
    rw [same, placed] at othersPlaced
    cases othersPlaced
    have fits := placeFrom_fits placed
    rw [split] at fits ⊢
    have found : (before ++ cue :: after)[before.length]? = some cue := by simp
    obtain ⟨placement, there, here⟩ := getElem?_of_forall₂ fits found
    rw [Timeline.tickOf?_begins, Timeline.tickOf?_begins, Timeline.tickOf?_ends,
      Timeline.tickOf?_ends, getElem?_ungroupPlacements fits.length_eq inside, there]
    refine ⟨⟨placement.start, rfl, rfl⟩, rfl, ?_⟩
    cases placement with
    | instant tick => exact (show cue.isSounding = false from here).symm
    | span span => exact here.1.symm

/-- A ride and a snare struck with it, whose own pause is dropped, a change of tempo, and a crash
that cannot join them. -/
def crashTrack : Track where
  name := "drums"
  instrument := .drums
  entries := [.hit ⟨.ride, 100, [], [.quarter]⟩, .hit ⟨.snare, 100, [.chord], [.quarter]⟩,
    .tempo 90.0, .hit ⟨.crash, 100, [.chord], []⟩]

/-- A score of the one track above. -/
def crashScore (resolution : Resolution) : Score where
  name := "song"
  resolution := resolution
  tracks := [crashTrack]

/-- Its cues: a group of two hits, the change of tempo and the crash. -/
def crashCues : List Cue :=
  [⟨⟨0, none⟩, .hits ⟨⟨.ride, 100, [], [.quarter]⟩, [⟨.snare, 100, [.chord], [.quarter]⟩]⟩⟩,
    ⟨⟨2, none⟩, .tempo 90.0⟩, ⟨⟨3, none⟩, .hits ⟨⟨.crash, 100, [.chord], []⟩, []⟩⟩]

/-- The snare begins and ends with the ride. -/
theorem crashTrack_keeps_times :
    (crashScore ⟨4, by decide, by decide⟩).expand {} crashTrack = .ok crashCues ∧
      ∃ timeline single, Timeline.ofCues ⟨4, by decide, by decide⟩ crashCues = .ok timeline ∧
        Timeline.ofCues ⟨4, by decide, by decide⟩ (ungroup crashCues) = .ok single ∧
        tickOf? single.begins 1 = some (.ofSub 384) ∧
        tickOf? single.ends 1 = some (.ofSub 480) := by
  have expanded : (crashScore ⟨4, by decide, by decide⟩).expand {} crashTrack = .ok crashCues := rfl
  have struck : ∀ cue ∈ crashCues, ∀ group, cue.action = .hits group →
      ∀ hit ∈ group.others, NoteValue.sumTicks ⟨4, by decide, by decide⟩ hit.delay = 0 := by
    simp only [crashCues, List.forall_mem_cons]
    refine ⟨?_, ?_, ?_, by simp⟩
    · rintro _ ⟨⟩ hit inside
      cases List.mem_singleton.mp inside
      rfl
    · rintro _ ⟨⟩
    · rintro _ ⟨⟩ hit inside
      cases inside
  obtain ⟨accepted, times⟩ := ungroup_keeps_times ⟨4, by decide, by decide⟩ expanded struck
  obtain ⟨single, singleBuilt⟩ := accepted.mp ⟨_, rfl⟩
  obtain ⟨⟨start, begins, singleBegins⟩, ends, -⟩ :=
    times _ single rfl singleBuilt [] _ _ rfl 1 (by decide)
  cases begins
  exact ⟨expanded, _, single, rfl, singleBuilt, singleBegins, ends⟩

end MidiScore
