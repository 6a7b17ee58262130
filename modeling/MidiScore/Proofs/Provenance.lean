import MidiScore.Cue.Expansion
import MidiScore.Proofs.Success

/-!
# Where cues come from

Expansion makes nothing up.  `Entry.Plays` says what one entry of a track plays: a note with its
defaults, a hit, a bend, a control, or a note of a pattern in one of its copies.  Everything that
is unrolled is played by some entry (`getElem?_of_mem_unrollFrom`).

Grouping joins hits and leaves all else as it is.  `Cue.MadeOf` says what a cue is made of: one
item, or for a group of hits the item of its leader and, for every other hit, a chord-marked item.
One step of the grouping keeps this (`addTo_madeOf`), and so does a run (`mem_group`).

The origin of a cue is a place of its track.  `Item.WrittenAt` says what is written there, and
what a cue begins with is written at its origin (`Score.lead_writtenAt`).
-/

namespace MidiScore

/-! ## Unrolling -/

/-- What the entry at an index plays.  The pause of a use goes to the very first note. -/
def Entry.Plays (score : Score) (defaults : Defaults) (index : Nat) : Entry → Played → Prop
  | .note n, played => played = ⟨⟨index, none⟩, .tone (n.resolve defaults)⟩
  | .hit h, played => played = ⟨⟨index, none⟩, .hit h⟩
  | .pattern u, played => ∃ declared, score.pattern? u.pattern = some declared ∧
      ∃ repetition < u.count.toInt.toNat, ∃ position member,
        declared.notes[position]? = some member ∧
          played = ⟨⟨index, some ⟨declared.name, repetition, position⟩⟩,
            member.play defaults (if repetition = 0 ∧ position = 0 then u.pause else [])⟩
  | .meter m, played => played = ⟨⟨index, none⟩, .meter m⟩
  | .tempo bpm, played => played = ⟨⟨index, none⟩, .tempo bpm⟩
  | .bend b, played => played = ⟨⟨index, none⟩, .bend b⟩

theorem mem_copy {defaults : Defaults} {index repetition : Nat} {pause : List NoteValue}
    {pattern : Pattern} {played : Played} :
    played ∈ pattern.copy defaults index pause repetition ↔
      ∃ position note, pattern.notes[position]? = some note ∧
        played = ⟨⟨index, some ⟨pattern.name, repetition, position⟩⟩,
          note.play defaults (if repetition = 0 ∧ position = 0 then pause else [])⟩ := by
  rw [Pattern.copy, List.mem_map]
  constructor
  · rintro ⟨⟨note, position⟩, indexed, rfl⟩
    exact ⟨position, note, List.mem_zipIdx_iff_getElem?.mp indexed, rfl⟩
  · rintro ⟨position, note, found, rfl⟩
    exact ⟨(note, position), List.mem_zipIdx_iff_getElem?.mpr found, rfl⟩

/-- The use of a pattern that can be played plays all copies that it asks for.  A pattern without
notes has empty copies. -/
theorem Score.unrollUse_eq_ok {score : Score} {defaults : Defaults} {index : Nat} {use : PatternUse}
    {items : List Played} (unrolled : score.unrollUse defaults index use = .ok items) :
    ∃ pattern, score.pattern? use.pattern = some pattern ∧
      items = (List.range use.count.toInt.toNat).flatMap
        (pattern.copy defaults index use.pause) := by
  unfold Score.unrollUse at unrolled
  split at unrolled
  next => cases unrolled
  next pattern declared =>
    refine ⟨pattern, declared, ?_⟩
    split at unrolled
    next => cases unrolled
    next =>
      split at unrolled
      next empty =>
        cases unrolled
        simp [Pattern.copy, List.isEmpty_iff.mp empty]
      next =>
        cases unrolled
        rfl

/-- An entry that can be played plays what `Entry.Plays` says and nothing else. -/
theorem mem_unrollEntry {score : Score} {defaults : Defaults} {index : Nat} {entry : Entry}
    {items : List Played} (unrolled : score.unrollEntry defaults index entry = .ok items)
    {played : Played} : played ∈ items ↔ entry.Plays score defaults index played := by
  cases entry with
  | note note => cases unrolled; exact List.mem_singleton
  | hit hit => cases unrolled; exact List.mem_singleton
  | meter meter => cases unrolled; exact List.mem_singleton
  | tempo bpm => cases unrolled; exact List.mem_singleton
  | bend bend => cases unrolled; exact List.mem_singleton
  | pattern use =>
      obtain ⟨pattern, declared, rfl⟩ := Score.unrollUse_eq_ok unrolled
      simp only [Entry.Plays, declared, Option.some.injEq, exists_eq_left', List.mem_flatMap,
        List.mem_range, mem_copy]

/-- Everything that is unrolled is played by an entry with its own index. -/
theorem getElem?_of_mem_unrollFrom {score : Score} {defaults : Defaults} {played : Played} :
    ∀ {entries : List Entry} {index : Nat} {items : List Played},
      score.unrollFrom defaults index entries = .ok items → played ∈ items →
      ∃ (offset : Nat) (entry : Entry), entries[offset]? = some entry ∧
        entry.Plays score defaults (index + offset) played
  | [], _, _, unrolled, member => by
      cases unrolled
      cases member
  | entry :: entries, index, items, unrolled, member => by
      obtain ⟨first, firstItems, rest⟩ := bind_eq_ok.mp unrolled
      obtain ⟨others, otherItems, same⟩ := bind_eq_ok.mp rest
      cases same
      rcases List.mem_append.mp member with here | later
      · exact ⟨0, entry, rfl, (mem_unrollEntry firstItems).mp here⟩
      · obtain ⟨offset, found, there, plays⟩ := getElem?_of_mem_unrollFrom otherItems later
        refine ⟨offset + 1, found, there, ?_⟩
        rwa [Nat.add_assoc, Nat.add_comm 1 offset] at plays

/-! ## Grouping -/

/-- What a cue is made of. -/
def Cue.MadeOf (items : List Played) (cue : Cue) : Prop :=
  match cue.action with
  | .tone tone => ⟨cue.origin, .tone tone⟩ ∈ items
  | .hits group => ⟨cue.origin, .hit group.leader⟩ ∈ items ∧
      ∀ hit ∈ group.others, hit.isChordMarked = true ∧ ∃ origin, ⟨origin, .hit hit⟩ ∈ items
  | .bend bend => ⟨cue.origin, .bend bend⟩ ∈ items
  | .meter meter => ⟨cue.origin, .meter meter⟩ ∈ items
  | .tempo bpm => ⟨cue.origin, .tempo bpm⟩ ∈ items

theorem Played.cue_madeOf {items : List Played} {played : Played} (member : played ∈ items) :
    played.cue.MadeOf items := by
  obtain ⟨origin, item⟩ := played
  cases item with
  | tone tone => exact member
  | hit hit => exact ⟨member, fun _ none => by cases none⟩
  | bend bend => exact member
  | meter meter => exact member
  | tempo bpm => exact member

theorem addTo_madeOf {items : List Played} {cues : List Cue} {played : Played}
    (member : played ∈ items) (made : ∀ cue ∈ cues, cue.MadeOf items) :
    ∀ cue ∈ played.addTo cues, cue.MadeOf items := by
  have alone : ∀ cue ∈ played.cue :: cues, cue.MadeOf items := by
    intro cue inside
    rcases List.mem_cons.mp inside with rfl | earlier
    · exact Played.cue_madeOf member
    · exact made cue earlier
  unfold Played.addTo
  split
  next hit origin group rest isHit =>
    split
    next marked =>
      intro cue inside
      rcases List.mem_cons.mp inside with rfl | earlier
      · obtain ⟨leader, others⟩ := made _ (List.mem_cons_self ..)
        refine ⟨leader, ?_⟩
        intro other joined
        rcases List.mem_append.mp joined with before | last
        · exact others other before
        · rw [List.mem_singleton.mp last]
          exact ⟨marked, played.origin, isHit ▸ member⟩
      · exact made cue (List.mem_cons_of_mem _ earlier)
    next => exact alone
  next => exact alone

theorem mem_group {items : List Played} {cue : Cue} (member : cue ∈ group items) :
    cue.MadeOf items := by
  have run : ∀ (rest : List Played) (cues : List Cue), (∀ played ∈ rest, played ∈ items) →
      (∀ cue ∈ cues, cue.MadeOf items) →
      ∀ cue ∈ rest.foldl Played.addTo cues, cue.MadeOf items := by
    intro rest
    induction rest with
    | nil => exact fun _ _ made => made
    | cons played rest ih =>
        intro cues inside made
        refine ih _ (fun other later => inside other (List.mem_cons_of_mem _ later)) ?_
        exact addTo_madeOf (inside played (List.mem_cons_self ..)) made
  exact run items [] (fun _ same => same) (fun _ none => by cases none) cue
    (List.mem_reverse.mp member)

/-- All hits of a group but the leader are chord-marked. -/
theorem chordMarked_of_mem_others {items : List Played} {cue : Cue} (member : cue ∈ group items)
    {hits : HitGroup} (isGroup : cue.action = .hits hits) {hit : Hit} (inside : hit ∈ hits.others) :
    hit.isChordMarked = true := by
  have made := mem_group member
  simp only [Cue.MadeOf, isGroup] at made
  exact (made.2 hit inside).1

/-! ## Places -/

/-- The note or hit that stands at a place of a track. -/
def Score.writtenAt? (score : Score) (track : Track) (origin : Origin) : Option PatternNote :=
  match track.entries[origin.entry]?, origin.pattern with
  | some (.note n), none => some (.note n)
  | some (.hit h), none => some (.hit h)
  | some (.pattern u), some place => (score.pattern? u.pattern).bind (·.notes[place.note]?)
  | _, _ => none

/-- How an item is written at a place of a track.  Only the pause of a note or hit may be another
one, that of the use of its pattern. -/
def Item.WrittenAt (score : Score) (defaults : Defaults) (track : Track) (origin : Origin) :
    Item → Prop
  | .tone t => ∃ note pause, score.writtenAt? track origin = some (.note note) ∧
      t = { note.resolve defaults with pause := pause }
  | .hit h => ∃ written pause, score.writtenAt? track origin = some (.hit written) ∧
      h = { written with pause := pause }
  | .bend b => .bend b ∈ track.entries
  | .meter m => .meter m ∈ track.entries
  | .tempo bpm => .tempo bpm ∈ track.entries

section
variable {score : Score} {defaults : Defaults} {track : Track} {origin : Origin}

theorem PatternNote.play_writtenAt {written : PatternNote} (pause : List NoteValue)
    (found : score.writtenAt? track origin = some written) :
    (written.play defaults pause).WrittenAt score defaults track origin := by
  cases written with
  | note note =>
      simp only [PatternNote.play]
      split
      · exact ⟨note, note.pause, found, rfl⟩
      · exact ⟨note, pause, found, rfl⟩
  | hit hit =>
      simp only [PatternNote.play]
      split
      · exact ⟨hit, hit.pause, found, rfl⟩
      · exact ⟨hit, pause, found, rfl⟩

theorem Entry.Plays.writtenAt {entry : Entry} {index : Nat} {played : Played}
    (plays : entry.Plays score defaults index played)
    (found : track.entries[index]? = some entry) :
    played.item.WrittenAt score defaults track played.origin := by
  have member := List.mem_of_getElem? found
  cases entry with
  | note note =>
      cases plays
      have there : score.writtenAt? track ⟨index, none⟩ = some (.note note) := by
        simp [Score.writtenAt?, found]
      exact PatternNote.play_writtenAt [] there
  | hit hit =>
      cases plays
      have there : score.writtenAt? track ⟨index, none⟩ = some (.hit hit) := by
        simp [Score.writtenAt?, found]
      exact PatternNote.play_writtenAt [] there
  | pattern use =>
      obtain ⟨declared, isDeclared, repetition, -, position, written, there, rfl⟩ := plays
      exact PatternNote.play_writtenAt _ (by simp [Score.writtenAt?, found, isDeclared, there])
  | meter meter => cases plays; exact member
  | tempo bpm => cases plays; exact member
  | bend bend => cases plays; exact member

/-- What a cue begins with: itself, or the leader of a group of hits. -/
def Cue.lead (cue : Cue) : Item :=
  match cue.action with
  | .tone tone => .tone tone
  | .hits group => .hit group.leader
  | .bend bend => .bend bend
  | .meter meter => .meter meter
  | .tempo bpm => .tempo bpm

theorem Cue.MadeOf.lead_mem {items : List Played} {cue : Cue} (made : cue.MadeOf items) :
    ⟨cue.origin, cue.lead⟩ ∈ items := by
  obtain ⟨origin, action⟩ := cue
  cases action with
  | hits group => exact made.1
  | tone tone => exact made
  | bend bend => exact made
  | meter meter => exact made
  | tempo bpm => exact made

/-- Every cue of a track is written at the place that its origin names. -/
theorem Score.lead_writtenAt {cues : List Cue} (expanded : score.expand defaults track = .ok cues)
    {cue : Cue} (member : cue ∈ cues) : cue.lead.WrittenAt score defaults track cue.origin := by
  obtain ⟨items, unrolled, rfl⟩ := map_eq_ok.mp expanded
  obtain ⟨index, entry, found, plays⟩ :=
    getElem?_of_mem_unrollFrom unrolled (mem_group member).lead_mem
  rw [Nat.zero_add] at plays
  exact plays.writtenAt found

end

end MidiScore
