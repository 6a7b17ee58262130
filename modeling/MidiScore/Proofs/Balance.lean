import Mathlib.Data.List.Induction
import MidiScore.Proofs.Pairing

/-!
# Balanced streams

A stream is balanced if no voice is stopped more often than it was started before, and every
voice is stopped in the end as often as it was started.  A voice is a list of keys, or the bend
of the track.

*Times.*  Marks come in the order of time, and on one tick ends come first.  So a prefix of the
stream that stops at an end has all ends up to its time and just the beginnings before it, and a
stream is balanced exactly if no time has more ends up to it than beginnings before it
(`prefixes_iff_times`).

*Spans.*  A cue that ends at a time and begins no earlier has no length.  Such a cue of a voice is
stopped before it is started, so the stream is balanced exactly if wherever cues without a length
stand as many longer ones of their voice sound on (`balanced_iff_covered`).
-/

namespace MidiScore

/-! ## Voices -/

/-- What beginnings and ends are matched by. -/
inductive Voice where
  | keys (keys : List UInt8)
  | bend
  deriving DecidableEq

/-- The voice that an event starts or stops. -/
def Event.voice? : Event → Option (Side × Voice)
  | .programChange _ => none
  | .meter _ => none
  | .tempo _ => none
  | .noteOn pitches _ _ => some (.start, .keys pitches)
  | .noteOff pitches _ _ => some (.stop, .keys pitches)
  | .bendBegin _ _ => some (.start, .bend)
  | .bendEnd _ => some (.stop, .bend)

/-- The voice of a sounding cue. -/
def Cue.voice? (cue : Cue) : Option Voice :=
  match cue.action with
  | .tone _ => some (.keys cue.keys)
  | .hits _ => some (.keys cue.keys)
  | .bend _ => some .bend
  | .meter _ => none
  | .tempo _ => none

/-- The voice of the cue at an index. -/
def voiceAt (cues : List Cue) (index : Nat) : Option Voice := cues[index]?.bind Cue.voice?

theorem Cue.Causes.voice? {cue : Cue} {side : Side} {event : Event}
    (causes : cue.Causes side event) : event.voice? = cue.voice?.map (side, ·) := by
  obtain ⟨origin, action⟩ := cue
  cases action with
  | tone tone =>
      cases side with
      | start => obtain ⟨wait, rfl⟩ := causes; rfl
      | stop => obtain ⟨duration, delta, rfl⟩ := causes; rfl
  | hits group =>
      cases side with
      | start => obtain ⟨wait, rfl⟩ := causes; rfl
      | stop => obtain ⟨duration, delta, rfl⟩ := causes; rfl
  | bend bend =>
      cases side with
      | start => obtain ⟨wait, rfl⟩ := causes; rfl
      | stop => obtain ⟨delta, rfl⟩ := causes; rfl
  | meter meter =>
      cases side with
      | start => cases causes; rfl
      | stop => cases causes
  | tempo bpm =>
      cases side with
      | start => cases causes; rfl
      | stop => cases causes

/-! ## Balance -/

/-- How many events start or stop a voice. -/
def tally (side : Side) (voice : Voice) (events : List TimedEvent) : Nat :=
  events.countP fun event => event.event.voice? = some (side, voice)

/-- No voice is stopped more often than it was started, and in the end it is stopped as often. -/
def Balanced (events : List TimedEvent) : Prop :=
  ∀ voice, (∀ front, front <+: events → tally .stop voice front ≤ tally .start voice front) ∧
    tally .stop voice events = tally .start voice events

/-- Whether a source starts or stops a voice. -/
def sounds (cues : List Cue) (side : Side) (voice : Voice) (source : Side × Nat) : Bool :=
  source.1 = side ∧ voiceAt cues source.2 = some voice

theorem StandsFor.voice?_eq_some {cues : List Cue} {source : Side × Nat} {event : TimedEvent}
    (stands : StandsFor cues source event) (side : Side) (voice : Voice) :
    event.event.voice? = some (side, voice) ↔ sounds cues side voice source = true := by
  obtain ⟨cue, found, causes⟩ := stands
  rw [causes.voice?, sounds, voiceAt, found, Option.map_eq_some_iff]
  simp only [Option.bind_some, decide_eq_true_eq, Prod.mk.injEq]
  constructor
  · rintro ⟨_, same, rfl, rfl⟩
    exact ⟨rfl, same⟩
  · rintro ⟨rfl, same⟩
    exact ⟨voice, same, rfl, rfl⟩

theorem tally_eq_countP {cues : List Cue} {sources : List (Side × Nat)} {events : List TimedEvent}
    (stand : List.Forall₂ (StandsFor cues) sources events) (side : Side) (voice : Voice) :
    tally side voice events = sources.countP (sounds cues side voice) := by
  induction stand with
  | nil => rfl
  | cons first _ ih =>
      rw [tally, List.countP_cons, List.countP_cons, ← tally, ih]
      simp only [decide_eq_true_eq, first.voice?_eq_some]

/-! ## Times -/

/-- Whether a mark comes no later than the ends on a tick. -/
def upToEnds (tick : Ticks) (mark : Side × Mark) : Bool :=
  match mark.1 with
  | .start => mark.2.tick < tick
  | .stop => mark.2.tick ≤ tick

theorem upToEnds_of_markKey_le {cues : List Cue} {tick : Ticks} {a b : Side × Mark}
    (ordered : markKey cues a ≤ markKey cues b) (later : upToEnds tick b = true) :
    upToEnds tick a = true := by
  obtain ⟨sideA, a⟩ := a
  obtain ⟨sideB, b⟩ := b
  have notLater : a.tick.sub ≤ b.tick.sub := tick_le_of_markKey_le ordered
  cases sideA with
  | stop =>
      cases sideB with
      | stop => exact decide_eq_true (Int.le_trans notLater (of_decide_eq_true later))
      | start =>
          exact decide_eq_true (Int.le_trans notLater (Int.le_of_lt (of_decide_eq_true later)))
  | start =>
      cases sideB with
      | stop =>
          have earlier := tick_lt_of_markKey_start_le ordered
          exact decide_eq_true (Int.lt_of_lt_of_le earlier (of_decide_eq_true later))
      | start => exact decide_eq_true (Int.lt_of_le_of_lt notLater (of_decide_eq_true later))

/-- What is closed towards the front of a list is a prefix of it. -/
theorem filter_prefix_of_closed {α : Type} {keep : α → Bool} {members : List α}
    (closed : members.Pairwise fun a b => keep b = true → keep a = true) :
    members.filter keep <+: members := by
  induction members with
  | nil => exact List.prefix_refl []
  | cons first rest ih =>
      rw [List.pairwise_cons] at closed
      cases kept : keep first with
      | true =>
          rw [List.filter_cons_of_pos kept]
          exact (List.prefix_cons_inj first).mpr (ih closed.2)
      | false =>
          have none : (first :: rest).filter keep = [] := by
            refine List.filter_eq_nil_iff.mpr ?_
            intro other member keptOther
            rcases List.mem_cons.mp member with rfl | later
            · rw [kept] at keptOther
              cases keptOther
            · have := closed.1 other later keptOther
              rw [kept] at this
              cases this
          rw [none]
          exact List.nil_prefix

section
variable {cues : List Cue} {marks : List (Side × Mark)} (voice : Voice)
  (sorted : marks.Pairwise fun a b => markKey cues a ≤ markKey cues b)

include sorted

/-- The prefix of the marks up to the ends on a tick compares the ends up to the tick with the
beginnings before it. -/
theorem times_of_prefixes
    (prefixes : ∀ front, front <+: marks →
      front.countP (sounds cues .stop voice ∘ source) ≤
        front.countP (sounds cues .start voice ∘ source))
    (tick : Ticks) :
    marks.countP (fun mark => sounds cues .stop voice (source mark) ∧ mark.2.tick ≤ tick) ≤
      marks.countP fun mark => sounds cues .start voice (source mark) ∧ mark.2.tick < tick := by
  have front := prefixes (marks.filter (upToEnds tick))
    (filter_prefix_of_closed (sorted.imp upToEnds_of_markKey_le))
  rw [List.countP_filter, List.countP_filter] at front
  refine Nat.le_trans (Nat.le_of_eq ?_) (Nat.le_trans front (Nat.le_of_eq ?_))
  · refine List.countP_congr ?_
    rintro ⟨side, mark⟩ _
    cases side <;> simp [sounds, source, upToEnds]
  · refine List.countP_congr ?_
    rintro ⟨side, mark⟩ _
    cases side <;> simp [sounds, source, upToEnds]

/-- A prefix is longest at an end of the voice.  It holds the ends up to its time at most, and
all beginnings before it. -/
theorem prefixes_of_times
    (times : ∀ tick : Ticks,
      marks.countP (fun mark => sounds cues .stop voice (source mark) ∧ mark.2.tick ≤ tick) ≤
        marks.countP fun mark => sounds cues .start voice (source mark) ∧ mark.2.tick < tick) :
    ∀ front, front <+: marks →
      front.countP (sounds cues .stop voice ∘ source) ≤
        front.countP (sounds cues .start voice ∘ source) := by
  intro front
  induction front using List.reverseRecOn with
  | nil => intro _; exact Nat.le_refl 0
  | append_singleton front last ih =>
      rintro ⟨back, whole⟩
      cases stops : sounds cues .stop voice (source last) with
      | false =>
          -- nothing is stopped by the last mark, so the shorter prefix decides
          have shorter := ih ⟨last :: back, by simpa using whole⟩
          simp only [List.countP_append, List.countP_singleton, Function.comp_apply, stops]
          simpa using Nat.le_add_right_of_le shorter
      | true =>
          -- the last mark is an end at the time for which the counts over all marks are known
          rw [← whole, List.pairwise_append, List.pairwise_append] at sorted
          obtain ⟨⟨-, -, beforeLast⟩, -, beforeBack⟩ := sorted
          have atMost : ∀ mark ∈ front ++ [last], mark.2.tick ≤ last.2.tick := by
            intro mark member
            rcases List.mem_append.mp member with earlier | same
            · exact tick_le_of_markKey_le (beforeLast mark earlier last (List.mem_singleton_self _))
            · rw [List.mem_singleton.mp same]
              exact Int.le_refl _
          have atLeast : ∀ mark ∈ back, ¬mark.2.tick < last.2.tick := by
            intro mark member
            exact Int.not_lt.mpr (tick_le_of_markKey_le
              (beforeBack last (List.mem_append_right _ (List.mem_singleton_self _)) mark member))
          have split : ∀ test : Side × Mark → Bool,
              marks.countP test = (front ++ [last]).countP test + back.countP test := by
            intro test
            rw [← whole, List.countP_append]
          have time := times last.2.tick
          rw [split, split] at time
          have ends : (front ++ [last]).countP (sounds cues .stop voice ∘ source) =
              (front ++ [last]).countP fun mark =>
                sounds cues .stop voice (source mark) ∧ mark.2.tick ≤ last.2.tick :=
            List.countP_congr fun mark member => by simp [atMost mark member]
          have noBeginnings : back.countP (fun mark =>
              sounds cues .start voice (source mark) ∧ mark.2.tick < last.2.tick) = 0 :=
            List.countP_eq_zero.mpr fun mark member => by simp [atLeast mark member]
          have beginnings : (front ++ [last]).countP (fun mark =>
              sounds cues .start voice (source mark) ∧ mark.2.tick < last.2.tick) ≤
              (front ++ [last]).countP (sounds cues .start voice ∘ source) :=
            List.countP_mono_left fun mark _ both => by
              simp only [decide_eq_true_eq] at both
              exact both.1
          omega

end

/-! ## Spans -/

/-- The span of a placement whose cue has the given voice. -/
def Placement.spanIn? (voice : Voice) (found : Option Voice) : Placement → Option Span
  | .instant _ => none
  | .span s => if found = some voice then some s else none

/-- The spans of the sounding cues of a voice. -/
def spansOf (voice : Voice) (cues : List Cue) (placements : List Placement) : List Span :=
  (cues.zip placements).filterMap fun (cue, placement) => placement.spanIn? voice cue.voice?

/-- Wherever cues without a length stand, at least as many longer ones of their voice sound on. -/
def Covered (cues : List Cue) (placements : List Placement) : Prop :=
  ∀ voice (tick : Ticks),
    (spansOf voice cues placements).count ⟨tick, tick⟩ ≤
      (spansOf voice cues placements).countP fun span => span.start < tick ∧ tick < span.stop

theorem mem_spansOf {voice : Voice} {cues : List Cue} {placements : List Placement} {span : Span}
    (member : span ∈ spansOf voice cues placements) :
    ∃ cue, (cue, Placement.span span) ∈ cues.zip placements := by
  obtain ⟨⟨cue, placement⟩, zipped, found⟩ := List.mem_filterMap.mp member
  cases placement with
  | instant tick => cases found
  | span other =>
      simp only [Placement.spanIn?] at found
      split at found
      · cases found
        exact ⟨cue, zipped⟩
      · cases found

theorem Cue.voice?_of_control {cue : Cue} (control : cue.isSounding = false) :
    cue.voice? = none := by
  obtain ⟨origin, action⟩ := cue
  cases action with
  | tone tone => cases control
  | hits group => cases control
  | bend bend => cases control
  | meter meter => rfl
  | tempo bpm => rfl

/-- At any time, the spans that have ended and those that sound on are the ones that have begun and
the ones without a length. -/
theorem countP_spans {spans : List Span} (forward : ∀ span ∈ spans, span.start ≤ span.stop)
    (tick : Ticks) :
    spans.countP (fun span => span.stop ≤ tick) +
        spans.countP (fun span => span.start < tick ∧ tick < span.stop) =
      spans.countP (fun span => span.start < tick) + spans.count ⟨tick, tick⟩ := by
  induction spans with
  | nil => rfl
  | cons span rest ih =>
      have others := ih fun other member => forward other (List.mem_cons_of_mem _ member)
      have ordered := Ticks.le_iff.mp (forward span (List.mem_cons_self ..))
      have empty : span = ⟨tick, tick⟩ ↔
          span.start.sub = tick.sub ∧ span.stop.sub = tick.sub := by
        constructor
        · rintro rfl
          exact ⟨rfl, rfl⟩
        · rintro ⟨start, stop⟩
          obtain ⟨first, last⟩ := span
          rw [show first = tick from Ticks.ext start, show last = tick from Ticks.ext stop]
      simp only [List.countP_cons, List.count_cons, beq_iff_eq, decide_eq_true_eq, Ticks.lt_iff,
        Ticks.le_iff, empty] at others ⊢
      -- the span is counted once on each side, or on neither: it has ended, sounds on, has no
      -- length or is still to come
      by_cases begun : span.start.sub < tick.sub
      · by_cases ended : span.stop.sub ≤ tick.sub
        · rw [if_pos ended, if_neg (by omega), if_pos begun, if_neg (by omega)]
          omega
        · rw [if_neg ended, if_pos (by omega), if_pos begun, if_neg (by omega)]
          omega
      · by_cases ended : span.stop.sub ≤ tick.sub
        · rw [if_pos ended, if_neg (by omega), if_neg begun, if_pos (by omega)]
          omega
        · rw [if_neg ended, if_neg (by omega), if_neg begun, if_neg (by omega)]
          omega

section
variable {cues : List Cue} {placements : List Placement}
  (fits : List.Forall₂ Fits cues placements)

include fits

theorem spansOf_forward (voice : Voice) :
    ∀ span ∈ spansOf voice cues placements, span.start ≤ span.stop := by
  intro span member
  obtain ⟨cue, zipped⟩ := mem_spansOf member
  exact (List.forall₂_zip fits zipped).2

/-- Placements are counted alike with the index and with the cue. -/
theorem countP_zipIdx (test : Option Voice → Placement → Bool) :
    placements.zipIdx.countP (fun entry => test (voiceAt cues entry.2) entry.1) =
      (cues.zip placements).countP fun entry => test entry.1.voice? entry.2 := by
  have same : placements.zipIdx.map (fun entry => (voiceAt cues entry.2, entry.1)) =
      (cues.zip placements).map fun entry => (entry.1.voice?, entry.2) := by
    refine List.ext_getElem (by simp [fits.length_eq]) ?_
    intro index inside inside'
    have bound : index < cues.length := by
      rw [fits.length_eq]
      simpa using inside
    simp [voiceAt, List.getElem?_eq_getElem bound]
  have counted := congrArg (List.countP fun entry => test entry.1 entry.2) same
  rwa [List.countP_map, List.countP_map] at counted

theorem countP_begins (voice : Voice) (test : Ticks → Bool) :
    (Timeline.ofPlacements placements).begins.countP
        (fun mark => voiceAt cues mark.entry = some voice ∧ test mark.tick) =
      (spansOf voice cues placements).countP fun span => test span.start := by
  rw [Timeline.ofPlacements, List.countP_map, spansOf, List.countP_filterMap]
  refine (countP_zipIdx fits fun found placement =>
    found = some voice ∧ test placement.start).trans (List.countP_congr ?_)
  rintro ⟨cue, placement⟩ zipped
  have here := List.forall₂_zip fits zipped
  cases placement with
  | instant tick => simp [Placement.spanIn?, Cue.voice?_of_control here]
  | span span => by_cases found : cue.voice? = some voice <;>
      simp [Placement.spanIn?, Placement.start, found]

theorem countP_ends (voice : Voice) (test : Ticks → Bool) :
    (Timeline.ofPlacements placements).ends.countP
        (fun mark => voiceAt cues mark.entry = some voice ∧ test mark.tick) =
      (spansOf voice cues placements).countP fun span => test span.stop := by
  have pairs : (Timeline.ofPlacements placements).ends.countP
      (fun mark => voiceAt cues mark.entry = some voice ∧ test mark.tick) =
      ((Timeline.ofPlacements placements).ends.map fun mark => (mark.tick, mark.entry)).countP
        fun pair => voiceAt cues pair.2 = some voice ∧ test pair.1 := by
    rw [List.countP_map]
    rfl
  rw [pairs, Timeline.ends_map, List.countP_filterMap, spansOf, List.countP_filterMap]
  refine Eq.trans (List.countP_congr ?_) ((countP_zipIdx fits fun found placement =>
    placement.stop?.any fun stop => found = some voice ∧ test stop).trans (List.countP_congr ?_))
  · rintro ⟨placement, index⟩ _
    cases placement <;> simp [Placement.stop?]
  · rintro ⟨cue, placement⟩ zipped
    cases placement with
    | instant tick => simp [Placement.spanIn?, Placement.stop?]
    | span span => by_cases found : cue.voice? = some voice <;>
        simp [Placement.spanIn?, Placement.stop?, found]

/-- The marks of placed cues as they are taken. -/
theorem countP_order (test : Side × Mark → Bool) :
    (((Timeline.ofPlacements placements).order cues).map sided).countP test =
      (Timeline.ofPlacements placements).begins.countP
          (fun mark => mark.tick ≠ .latest ∧ test (.start, mark)) +
        (Timeline.ofPlacements placements).ends.countP fun mark => test (.stop, mark) := by
  rw [(Timeline.order_perm_sidedMarks (ofPlacements_pointsInto fits)).countP_eq,
    Timeline.sidedMarks, List.countP_append, List.countP_map, List.countP_map, List.countP_filter]
  refine congrArg (· + _) (List.countP_congr ?_)
  intro mark _
  simp [and_comm]

theorem countP_order_stop (voice : Voice) (test : Ticks → Bool) :
    (((Timeline.ofPlacements placements).order cues).map sided).countP
        (fun mark => sounds cues .stop voice (source mark) ∧ test mark.2.tick) =
      (spansOf voice cues placements).countP fun span => test span.stop := by
  rw [countP_order fits, List.countP_eq_zero.mpr, Nat.zero_add, ← countP_ends fits]
  · refine List.countP_congr ?_
    intro mark _
    simp [sounds, source]
  · intro mark _
    simp [sounds, source]

theorem countP_order_start (voice : Voice) (test : Ticks → Bool) :
    (((Timeline.ofPlacements placements).order cues).map sided).countP
        (fun mark => sounds cues .start voice (source mark) ∧ test mark.2.tick) =
      (spansOf voice cues placements).countP
        fun span => span.start ≠ .latest ∧ test span.start := by
  have begins := countP_begins fits voice fun tick => tick ≠ .latest ∧ test tick
  rw [countP_order fits, ← begins, (List.countP_eq_zero (l := Timeline.ends _)).mpr, Nat.add_zero]
  · refine List.countP_congr ?_
    intro mark _
    simp [sounds, source, and_left_comm]
  · intro mark _
    simp [sounds, source]

/-- Ends up to a time are at most the beginnings before it exactly if the spans without a length
there are covered. -/
theorem times_iff_covered (voice : Voice) (tick : Ticks) :
    (((Timeline.ofPlacements placements).order cues).map sided).countP
          (fun mark => sounds cues .stop voice (source mark) ∧ mark.2.tick ≤ tick) ≤
        (((Timeline.ofPlacements placements).order cues).map sided).countP
          (fun mark => sounds cues .start voice (source mark) ∧ mark.2.tick < tick) ↔
      (spansOf voice cues placements).count ⟨tick, tick⟩ ≤
        (spansOf voice cues placements).countP
          fun span => span.start < tick ∧ tick < span.stop := by
  have stops := countP_order_stop fits voice fun stop => stop ≤ tick
  have starts := countP_order_start fits voice fun start => start < tick
  have begun : (spansOf voice cues placements).countP
      (fun span => span.start ≠ .latest ∧ decide (span.start < tick)) =
      (spansOf voice cues placements).countP fun span => span.start < tick := by
    refine List.countP_congr ?_
    intro span _
    simp only [decide_eq_true_eq]
    constructor
    · exact fun both => both.2
    · intro before
      exact ⟨Ticks.lt_latest_iff.mp (Int.lt_of_lt_of_le before tick.upper), before⟩
  have whole := countP_spans (spansOf_forward fits voice) tick
  simp only [decide_eq_true_eq] at stops starts begun
  rw [stops, starts, begun]
  omega

/-! ## Streams of placed cues -/

theorem tally_take (resolution : Resolution) (side : Side) (voice : Voice) (count : Nat) :
    tally side voice
        ((schedule resolution cues (Timeline.ofPlacements placements)).events.take count) =
      ((((Timeline.ofPlacements placements).order cues).map sided).take count).countP
        (sounds cues side voice ∘ source) := by
  have stand := List.forall₂_take count (schedule_events_standFor fits resolution)
  rw [tally_eq_countP stand, Timeline.sources, ← List.map_take, List.countP_map]

theorem tally_stop (resolution : Resolution) (voice : Voice) :
    tally .stop voice (schedule resolution cues (Timeline.ofPlacements placements)).events =
      (spansOf voice cues placements).length := by
  have stops := countP_order_stop fits voice fun _ => true
  rw [tally_eq_countP (schedule_events_standFor fits resolution), Timeline.sources,
    List.countP_map]
  simpa [Function.comp_def] using stops

theorem tally_start (resolution : Resolution) (voice : Voice) :
    tally .start voice (schedule resolution cues (Timeline.ofPlacements placements)).events =
      (spansOf voice cues placements).countP fun span => span.start ≠ .latest := by
  have starts := countP_order_start fits voice fun _ => true
  rw [tally_eq_countP (schedule_events_standFor fits resolution), Timeline.sources,
    List.countP_map]
  simpa [Function.comp_def] using starts

/-- The stream of placed cues is balanced exactly if the cues without a length are covered. -/
theorem balanced_iff_covered (resolution : Resolution) :
    Balanced (schedule resolution cues (Timeline.ofPlacements placements)).events ↔
      Covered cues placements := by
  have sorted := (Timeline.ofPlacements placements).order_pairwise cues
  constructor
  · intro balanced voice tick
    refine (times_iff_covered fits voice tick).mp (times_of_prefixes voice sorted ?_ tick)
    intro front isFront
    have fewer := (balanced voice).1 _ (List.take_prefix front.length _)
    rw [tally_take fits, tally_take fits, ← List.prefix_iff_eq_take.mp isFront] at fewer
    exact fewer
  · intro covered voice
    have prefixes := prefixes_of_times voice sorted
      fun tick => (times_iff_covered fits voice tick).mpr (covered voice tick)
    have fronts : ∀ front,
        front <+: (schedule resolution cues (Timeline.ofPlacements placements)).events →
        tally .stop voice front ≤ tally .start voice front := by
      intro front isFront
      rw [List.prefix_iff_eq_take.mp isFront, tally_take fits, tally_take fits]
      exact prefixes _ (List.take_prefix _ _)
    refine ⟨fronts, Nat.le_antisymm (fronts _ (List.prefix_refl _)) ?_⟩
    rw [tally_start fits, tally_stop fits]
    exact List.countP_le_length

end

/-- Below the last representable time every beginning is taken. -/
theorem tally_stop_eq_start {resolution : Resolution} {reach : Nat} {cues : List Cue}
    {placements : List Placement} (placed : List.Forall₂ (Placed resolution reach) cues placements)
    (small : reach < 2 ^ 63 - 1) (voice : Voice) :
    tally .stop voice (schedule resolution cues (Timeline.ofPlacements placements)).events =
      tally .start voice (schedule resolution cues (Timeline.ofPlacements placements)).events := by
  rw [tally_stop (fits_of_placed placed), tally_start (fits_of_placed placed), eq_comm,
    List.countP_eq_length]
  intro span member
  obtain ⟨cue, zipped⟩ := mem_spansOf member
  have start := (List.forall₂_zip placed zipped).start_lt_latest small
  exact decide_eq_true (Ticks.lt_latest_iff.mp start)

/-- Where every sounding cue has a length there is nothing to cover. -/
theorem covered_of_lengths {resolution : Resolution} {reach : Nat} {cues : List Cue}
    {placements : List Placement} (placed : List.Forall₂ (Placed resolution reach) cues placements)
    (lengths : ∀ cue ∈ cues, cue.isSounding = true → 0 < cue.exactDuration resolution) :
    Covered cues placements := by
  intro voice tick
  rw [List.count_eq_zero_of_not_mem]
  · exact Nat.zero_le _
  · intro member
    obtain ⟨cue, zipped⟩ := mem_spansOf member
    obtain ⟨sounding, -, stop⟩ := List.forall₂_zip placed zipped
    have positive := lengths cue (List.of_mem_zip zipped).1 sounding
    simp only at stop
    omega

end MidiScore
