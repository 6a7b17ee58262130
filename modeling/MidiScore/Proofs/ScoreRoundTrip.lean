import MidiScore.Proofs.JsonText
import MidiScore.Score.Reading
import MidiScore.Score.Writing

/-!
# Reading back written scores

A written score is read as the same score, both from its value and from the text of that in any JSON
format.

*Values.*  `ReadsAs` speaks of all values that a written one may come back as.  There is one lemma
for each kind of field and each record, and a record is read field by field (`FieldsReread`).

*Texts.*  The value of a score is legible (`Score.legible`): it nests seven deep, its names differ,
and its fractional numbers are those that the format has to keep (`Score.NumbersSurvive`).
-/

namespace MidiScore

open Value

/-- However a written value comes back, `x` is read from it. -/
def ReadsAs {α : Type} (read : Value → Reading α) (v : Value) (x : α) : Prop :=
  ∀ w, Reread v w → read w = .ok x

/-! ## Fields -/

theorem readsAs_text (s : String) : ReadsAs readText (.text s) s := by
  rintro _ ⟨⟩
  rfl

theorem readsAs_double (x : Float) : ReadsAs readDouble (.double x) x := by
  rintro _ ⟨⟩
  rfl

/-- The reader of single precision numbers rounds, so it undoes what the text has added. -/
theorem readsAs_single (x : Float32) : ReadsAs readSingle (.single x) x := by
  rintro w (⟨⟩ | rounds)
  · rfl
  · exact rounds

/-- A whole number within the bounds of its reader is read back. -/
theorem readsAs_int {low high n : Int} (inside : low ≤ n ∧ n ≤ high) :
    ReadsAs (readInt low high) (.int n) n := by
  rintro _ ⟨⟩
  rw [readInt, if_pos inside]

/-- What is read may be converted afterwards. -/
theorem ReadsAs.map {α β : Type} {read : Value → Reading α} {v : Value} {x : α}
    (reads : ReadsAs read v x) {change : α → β} {y : β} (changed : change x = y) :
    ReadsAs (fun w => (read w).map change) v y := by
  intro w reread
  exact map_eq_ok.mpr ⟨x, reads w reread, changed⟩

/-- The bounds of a byte reader are those of a byte. -/
theorem readsAs_byte (n : UInt8) : ReadsAs readByte (ofByte n) n := by
  have inside : 0 ≤ (n.toNat : Int) ∧ (n.toNat : Int) ≤ 255 := by
    have := n.toNat_lt
    omega
  exact (readsAs_int inside).map UInt8.ofNat_toNat

theorem readsAs_octave (n : Int8) : ReadsAs readOctave (ofOctave n) n := by
  have inside : -128 ≤ n.toInt ∧ n.toInt ≤ 127 := by
    have low := n.le_toInt
    have high := n.toInt_lt
    omega
  exact (readsAs_int inside).map (Int8.ofInt_toInt n)

theorem readsAs_count (n : Int64) : ReadsAs readCount (.int n.toInt) n := by
  have inside : -0x8000000000000000 ≤ n.toInt ∧ n.toInt ≤ 0x7fffffffffffffff := by
    have low := n.le_toInt
    have high := n.toInt_lt
    omega
  exact (readsAs_int inside).map (Int64.ofInt_toInt n)

/-- The text of a note value names it. -/
theorem NoteValue.parse?_text (value : NoteValue) : parse? value.text = some value := by
  obtain ⟨base, modifier⟩ := value
  cases base <;> cases modifier <;> rfl

theorem readsAs_noteValue (value : NoteValue) :
    ReadsAs readNoteValue (ofNoteValue value) value := by
  intro w reread
  refine bind_eq_ok.mpr ⟨value.text, readsAs_text value.text w reread, ?_⟩
  simp only [NoteValue.parse?_text]

/-- A resolution is in range by itself, so the check on reading passes. -/
theorem readsAs_resolution (resolution : Resolution) :
    ReadsAs readResolution (.int resolution.perQuarter) resolution := by
  intro w reread
  have inside : 0 ≤ (resolution.perQuarter : Int) ∧ (resolution.perQuarter : Int) ≤ 0xffffffff := by
    have := resolution.small
    omega
  have valid : Resolution.ofNat? resolution.perQuarter = some resolution :=
    dif_pos ⟨resolution.positive, resolution.small⟩
  refine bind_eq_ok.mpr ⟨resolution.perQuarter, readsAs_int inside w reread, ?_⟩
  simp only [Int.toNat_natCast, valid]

/-- A name that is parsed is read. -/
theorem readsAs_name {α : Type} {dialect : Dialect} {parse? : String → Option α} {what s : String}
    {x : α} (parsed : parse? s = some x) : ReadsAs (readName dialect parse? what) (.text s) x := by
  rintro _ ⟨⟩
  unfold readName
  simp only [Option.bind_some, parsed]

/-- A list comes back as a list of as many items. -/
theorem Reread.items {items : List Value} {w : Value} (reread : Reread (.list items) w) :
    ∃ results, w = .list results ∧ List.Forall₂ Reread items results := by
  cases reread with
  | same => exact ⟨items, rfl, List.forall₂_same.mpr fun v _ => .same v⟩
  | list all => exact ⟨_, rfl, all⟩

/-- A list is read back item by item. -/
theorem readsAs_list {α : Type} {read : Value → Reading α} {write : α → Value} {xs : List α}
    (each : ∀ x ∈ xs, ReadsAs read (write x) x) :
    ReadsAs (readList read) (.list (xs.map write)) xs := by
  intro w reread
  obtain ⟨results, rfl, all⟩ := reread.items
  refine mapM_eq_ok.mpr ?_
  clear reread
  induction xs generalizing results with
  | nil =>
      cases all
      exact .nil
  | cons x xs ih =>
      cases all with
      | cons first others =>
          exact .cons (each x (List.mem_cons_self ..) _ first)
            (ih (fun y member => each y (List.mem_cons_of_mem _ member)) _ others)

theorem readsAs_noteValues (values : List NoteValue) :
    ReadsAs readNoteValues (ofNoteValues values) values :=
  readsAs_list fun value _ => readsAs_noteValue value

/-- A present value does not come back as null, because its reader refuses that. -/
theorem readsAs_option {α : Type} {read : Value → Reading α} {write : α → Value}
    (refuses : ∃ cause, read .null = .error cause) (reads : ∀ x, ReadsAs read (write x) x)
    (x? : Option α) : ReadsAs (readOption read) (ofOption write x?) x? := by
  intro w reread
  cases x? with
  | none =>
      cases reread
      rfl
  | some x =>
      have found := reads x w reread
      cases w
      case null =>
          obtain ⟨cause, refused⟩ := refuses
          rw [refused] at found
          cases found
      all_goals exact map_eq_ok.mpr ⟨x, found, rfl⟩

/-! ## Records -/

/-- The fields of a record as they come back. -/
def FieldsReread (fields results : List (String × Value)) : Prop :=
  fields.map Prod.fst = results.map Prod.fst ∧
    List.Forall₂ (fun field result => Reread field.2 result.2) fields results

/-- A record comes back with the same names. -/
theorem Reread.fields {fields : List (String × Value)} {w : Value}
    (reread : Reread (.object fields) w) :
    ∃ results, w = .object results ∧ FieldsReread fields results := by
  cases reread with
  | same => exact ⟨_, rfl, rfl, List.forall₂_same.mpr fun field _ => .same field.2⟩
  | object names all => exact ⟨_, rfl, names, all⟩

namespace FieldsReread
variable {fields results : List (String × Value)} {name : String} {v : Value}

/-- A field is found where it was written. -/
theorem lookup (same : FieldsReread fields results) (found : field? name fields = some v) :
    ∃ w, field? name results = some w ∧ Reread v w := by
  obtain ⟨names, all⟩ := same
  induction all with
  | nil => cases found
  | @cons field result fields results first _ ih =>
      obtain ⟨key, written⟩ := field
      obtain ⟨key', back⟩ := result
      obtain ⟨rfl, others⟩ := List.cons.inj names
      simp only [field?, List.lookup_cons] at found ⊢
      cases here : name == key with
      | true =>
          simp only [here, Option.some.injEq] at found
          subst found
          exact ⟨_, rfl, first⟩
      | false =>
          simp only [here] at found
          exact ih found others

variable {α : Type} {read : Value → Reading α} {x : α}

/-- A required field is read back. -/
theorem required (same : FieldsReread fields results) (found : field? name fields = some v)
    (reads : ReadsAs read v x) : Value.required results name read = .ok x := by
  obtain ⟨w, back, reread⟩ := same.lookup found
  simp only [Value.required, back, reads w reread]

/-- A field that might be left out was written, so its value counts and not the fallback. -/
theorem defaulted (same : FieldsReread fields results) (found : field? name fields = some v)
    (reads : ReadsAs read v x) (fallback : α) :
    Value.defaulted results name fallback read = .ok x := by
  obtain ⟨w, back, reread⟩ := same.lookup found
  simp only [Value.defaulted, back, reads w reread]

end FieldsReread

/-- A pitch is written by its letter, which is one of its names. -/
theorem PitchClass.parse?_letter (pitch : PitchClass) : parse? pitch.letter = some pitch := by
  cases pitch <;> rfl

/-- A drum is written by its code. -/
theorem Drum.parse?_code (drum : Drum) : parse? drum.code = some drum := by
  cases drum <;> rfl

/-- An octave may be missing. -/
theorem readsAs_octave? (octave : Option Int8) :
    ReadsAs (readOption readOctave) (ofOption ofOctave octave) octave :=
  readsAs_option ⟨_, rfl⟩ readsAs_octave octave

theorem readsAs_noteValue? (value : Option NoteValue) :
    ReadsAs (readOption readNoteValue) (ofOption ofNoteValue value) value :=
  readsAs_option ⟨_, rfl⟩ readsAs_noteValue value

/-- A note is read back field by field. -/
theorem Note.readsAs (kind : String) (note : Note) :
    ReadsAs Note.ofValue (ofKind kind note.fields) note := by
  intro w reread
  obtain ⟨results, rfl, same⟩ := reread.fields
  refine bind_eq_ok.mpr ⟨results, rfl, ?_⟩
  refine bind_eq_ok.mpr
    ⟨_, same.required rfl (readsAs_name (PitchClass.parse?_letter note.pitch)), ?_⟩
  refine bind_eq_ok.mpr ⟨_, same.defaulted rfl (readsAs_octave? note.octave) _, ?_⟩
  refine bind_eq_ok.mpr ⟨_, same.defaulted rfl (readsAs_noteValue? note.value) _, ?_⟩
  refine bind_eq_ok.mpr ⟨_, same.defaulted rfl (readsAs_byte note.velocity) _, ?_⟩
  refine bind_eq_ok.mpr ⟨_, same.defaulted rfl (readsAs_noteValues note.delay) _, ?_⟩
  exact bind_eq_ok.mpr ⟨_, same.defaulted rfl (readsAs_noteValues note.pause) _, rfl⟩

/-- So is a hit, and so are the other records below. -/
theorem Hit.readsAs (kind : String) (hit : Hit) :
    ReadsAs Hit.ofValue (ofKind kind hit.fields) hit := by
  intro w reread
  obtain ⟨results, rfl, same⟩ := reread.fields
  refine bind_eq_ok.mpr ⟨results, rfl, ?_⟩
  refine bind_eq_ok.mpr ⟨_, same.required rfl (readsAs_name (Drum.parse?_code hit.drum)), ?_⟩
  refine bind_eq_ok.mpr ⟨_, same.defaulted rfl (readsAs_byte hit.velocity) _, ?_⟩
  refine bind_eq_ok.mpr ⟨_, same.defaulted rfl (readsAs_noteValues hit.delay) _, ?_⟩
  exact bind_eq_ok.mpr ⟨_, same.defaulted rfl (readsAs_noteValues hit.pause) _, rfl⟩

theorem PatternUse.readsAs (kind : String) (use : PatternUse) :
    ReadsAs PatternUse.ofValue (ofKind kind use.fields) use := by
  intro w reread
  obtain ⟨results, rfl, same⟩ := reread.fields
  refine bind_eq_ok.mpr ⟨results, rfl, ?_⟩
  refine bind_eq_ok.mpr ⟨_, same.required rfl (readsAs_text use.pattern), ?_⟩
  refine bind_eq_ok.mpr ⟨_, same.defaulted rfl (readsAs_count use.count) _, ?_⟩
  exact bind_eq_ok.mpr ⟨_, same.defaulted rfl (readsAs_noteValues use.pause) _, rfl⟩

theorem Meter.readsAs (kind : String) (meter : Meter) :
    ReadsAs Meter.ofValue (ofKind kind meter.fields) meter := by
  intro w reread
  obtain ⟨results, rfl, same⟩ := reread.fields
  refine bind_eq_ok.mpr ⟨results, rfl, ?_⟩
  refine bind_eq_ok.mpr ⟨_, same.required rfl (readsAs_byte meter.numerator), ?_⟩
  exact bind_eq_ok.mpr ⟨_, same.required rfl (readsAs_byte meter.denominator), rfl⟩

theorem Bend.readsAs (kind : String) (bend : Bend) :
    ReadsAs Bend.ofValue (ofKind kind bend.fields) bend := by
  intro w reread
  obtain ⟨results, rfl, same⟩ := reread.fields
  refine bind_eq_ok.mpr ⟨results, rfl, ?_⟩
  refine bind_eq_ok.mpr ⟨_, same.required rfl (readsAs_single bend.amount), ?_⟩
  refine bind_eq_ok.mpr ⟨_, same.required rfl (readsAs_noteValues bend.length), ?_⟩
  exact bind_eq_ok.mpr ⟨_, same.defaulted rfl (readsAs_noteValues bend.delay) _, rfl⟩

/-! ## Records of several kinds -/

/-- The kind of a record stands in front of its fields and survives as a text. -/
theorem Reread.readKind {kind : String} {fields : List (String × Value)} {w : Value}
    (reread : Reread (ofKind kind fields) w) : w.readKind = .ok (kind, w) := by
  obtain ⟨results, rfl, same⟩ := reread.fields
  have written : field? "kind" (("kind", .text kind) :: fields) = some (.text kind) := rfl
  obtain ⟨back, found, ⟨⟩⟩ := same.lookup written
  simp only [Value.readKind, found]

/-- The kind tells which record follows. -/
theorem Entry.readsAs (entry : Entry) : ReadsAs Entry.ofValue entry.toValue entry := by
  intro w reread
  cases entry
  all_goals refine bind_eq_ok.mpr ⟨_, reread.readKind, ?_⟩
  case note note => exact (Note.readsAs "note" note).map rfl w reread
  case hit hit => exact (Hit.readsAs "drum" hit).map rfl w reread
  case pattern use => exact (PatternUse.readsAs "pattern" use).map rfl w reread
  case meter meter => exact (Meter.readsAs "time_signature" meter).map rfl w reread
  case tempo bpm =>
    obtain ⟨results, rfl, same⟩ := reread.fields
    refine bind_eq_ok.mpr ⟨results, rfl, ?_⟩
    exact bind_eq_ok.mpr ⟨_, same.required rfl (readsAs_double bpm), rfl⟩
  case bend bend => exact (Bend.readsAs "pitch_bend" bend).map rfl w reread

theorem PatternNote.readsAs (note : PatternNote) :
    ReadsAs PatternNote.ofValue note.toValue note := by
  intro w reread
  cases note
  all_goals refine bind_eq_ok.mpr ⟨_, reread.readKind, ?_⟩
  case note note => exact (Note.readsAs "note" note).map rfl w reread
  case hit hit => exact (Hit.readsAs "drum" hit).map rfl w reread

theorem Pattern.readsAs (dialect : Dialect) (pattern : Pattern) :
    ReadsAs (Pattern.ofValue dialect) pattern.toValue pattern := by
  intro w reread
  obtain ⟨results, rfl, same⟩ := reread.fields
  refine bind_eq_ok.mpr ⟨results, rfl, ?_⟩
  refine bind_eq_ok.mpr ⟨_, same.required rfl (readsAs_text pattern.name), ?_⟩
  exact bind_eq_ok.mpr
    ⟨_, same.required rfl (readsAs_list fun note _ => PatternNote.readsAs note), rfl⟩

/-- Drums are a text, and a program is the only field of its record. -/
theorem Instrument.readsAs (dialect : Dialect) (instrument : Instrument) :
    ReadsAs (Instrument.ofValue dialect) instrument.toValue instrument := by
  intro w reread
  cases instrument with
  | drums =>
      cases reread
      rfl
  | program number =>
      obtain ⟨results, rfl, names, all⟩ := reread.fields
      obtain ⟨⟨name, back⟩, rest, first, others, rfl⟩ := List.forall₂_cons_left_iff.mp all
      cases others
      obtain ⟨rfl, -⟩ := List.cons.inj names
      exact (readsAs_byte number).map rfl back first

/-- A track is read back with all its entries. -/
theorem Track.readsAs (dialect : Dialect) (track : Track) :
    ReadsAs (Track.ofValue dialect) track.toValue track := by
  intro w reread
  obtain ⟨results, rfl, same⟩ := reread.fields
  refine bind_eq_ok.mpr ⟨results, rfl, ?_⟩
  refine bind_eq_ok.mpr ⟨_, same.required rfl (readsAs_text track.name), ?_⟩
  refine bind_eq_ok.mpr ⟨_, same.required rfl (Instrument.readsAs dialect track.instrument), ?_⟩
  exact bind_eq_ok.mpr
    ⟨_, same.defaulted rfl (readsAs_list fun entry _ => Entry.readsAs entry) _, rfl⟩

/-- A score is read back from whatever its value comes back as. -/
theorem Score.readsAs (dialect : Dialect) (score : Score) :
    ReadsAs (Score.ofValue dialect) score.toValue score := by
  intro w reread
  obtain ⟨results, rfl, same⟩ := reread.fields
  refine bind_eq_ok.mpr ⟨results, rfl, ?_⟩
  refine bind_eq_ok.mpr ⟨_, same.required rfl (readsAs_text score.name), ?_⟩
  refine bind_eq_ok.mpr ⟨_, same.required rfl (readsAs_double score.tempo), ?_⟩
  refine bind_eq_ok.mpr ⟨_, same.required rfl (readsAs_byte score.meter.numerator), ?_⟩
  refine bind_eq_ok.mpr ⟨_, same.required rfl (readsAs_byte score.meter.denominator), ?_⟩
  refine bind_eq_ok.mpr ⟨_, same.required rfl (readsAs_resolution score.resolution), ?_⟩
  refine bind_eq_ok.mpr ⟨_, same.defaulted rfl (readsAs_octave? score.octave) _, ?_⟩
  refine bind_eq_ok.mpr ⟨_, same.defaulted rfl (readsAs_noteValue? score.value) _, ?_⟩
  refine bind_eq_ok.mpr
    ⟨_, same.defaulted rfl (readsAs_list fun pattern _ => Pattern.readsAs dialect pattern) _, ?_⟩
  exact bind_eq_ok.mpr
    ⟨_, same.defaulted rfl (readsAs_list fun track _ => Track.readsAs dialect track) _, rfl⟩

/-! ## Depth and numbers -/

namespace Json.Legible
variable {format : Format} {depth : Nat}

/-- A byte fits a word. -/
@[simp] theorem ofByte (n : UInt8) : format.Legible (depth + 1) (ofByte n) := by
  have := n.toNat_lt
  exact .int (by omega) (by omega)

@[simp] theorem ofOctave? (octave : Option Int8) :
    format.Legible (depth + 1) (ofOption ofOctave octave) := by
  cases octave with
  | none => exact .null
  | some n =>
      have low := n.le_toInt
      have high := n.toInt_lt
      exact .int (by omega) (by omega)

@[simp] theorem ofNoteValue? (value : Option NoteValue) :
    format.Legible (depth + 1) (ofOption ofNoteValue value) := by
  cases value with
  | none => exact .null
  | some value => exact .text value.text

/-- A list nests one deeper than its items. -/
theorem ofList {α : Type} {write : α → Value} {xs : List α}
    (each : ∀ x ∈ xs, format.Legible depth (write x)) :
    format.Legible (depth + 1) (.list (xs.map write)) := by
  refine .list fun item member => ?_
  obtain ⟨x, inside, rfl⟩ := List.mem_map.mp member
  exact each x inside

@[simp] theorem ofNoteValues (values : List NoteValue) :
    format.Legible (depth + 2) (ofNoteValues values) :=
  ofList fun value _ => .text value.text

attribute [simp] text

end Json.Legible

open Json

/-- The fractional numbers of an entry survive in a format. -/
def Entry.NumbersSurvive (format : Format) : Entry → Prop
  | .tempo bpm => format.double bpm
  | .bend b => format.single b.amount
  | _ => True

/-- The fractional numbers of a score survive in a format. -/
structure Score.NumbersSurvive (format : Format) (score : Score) : Prop where
  tempo : format.double score.tempo
  entries : ∀ track ∈ score.tracks, ∀ entry ∈ track.entries, entry.NumbersSurvive format

section
variable {format : Format} {depth : Nat}

/-- The lists of a note hold texts, so a note nests three deep. -/
theorem Note.legible (kind : String) (note : Note) :
    format.Legible (depth + 3) (ofKind kind note.fields) :=
  .object (by simp [Note.fields]) (by simp [Note.fields])

theorem Hit.legible (kind : String) (hit : Hit) :
    format.Legible (depth + 3) (ofKind kind hit.fields) :=
  .object (by simp [Hit.fields]) (by simp [Hit.fields])

theorem PatternUse.legible (kind : String) (use : PatternUse) :
    format.Legible (depth + 3) (ofKind kind use.fields) := by
  have count : format.Legible (depth + 2) (.int use.count.toInt) := by
    have low := use.count.le_toInt
    have high := use.count.toInt_lt
    exact .int (by omega) (by omega)
  exact .object (by simp [PatternUse.fields, count]) (by simp [PatternUse.fields])

theorem Bend.legible (kind : String) {bend : Bend} (survives : format.single bend.amount) :
    format.Legible (depth + 3) (ofKind kind bend.fields) :=
  .object (by simp [Bend.fields, Legible.single survives]) (by simp [Bend.fields])

/-- No entry nests deeper than a note. -/
theorem Entry.legible {entry : Entry} (survives : entry.NumbersSurvive format) :
    format.Legible (depth + 3) entry.toValue := by
  cases entry with
  | note note => exact Note.legible "note" note
  | hit hit => exact Hit.legible "drum" hit
  | pattern use => exact PatternUse.legible "pattern" use
  | meter meter => exact .object (by simp [Meter.fields]) (by simp [Meter.fields])
  | tempo bpm => exact .object (by simp [Legible.double survives]) (by simp)
  | bend bend => exact Bend.legible "pitch_bend" survives

theorem PatternNote.legible (note : PatternNote) : format.Legible (depth + 3) note.toValue := by
  cases note with
  | note note => exact Note.legible "note" note
  | hit hit => exact Hit.legible "drum" hit

/-- A pattern is a list of notes within a record. -/
theorem Pattern.legible (pattern : Pattern) : format.Legible (depth + 5) pattern.toValue := by
  have notes : format.Legible (depth + 4) (.list (pattern.notes.map (·.toValue))) :=
    .ofList fun note _ => note.legible
  exact .object (by simp [notes]) (by simp)

theorem Instrument.legible (instrument : Instrument) :
    format.Legible (depth + 2) instrument.toValue := by
  cases instrument with
  | drums => exact .text "drums"
  | program number => exact .object (by simp) (by simp)

/-- A track is a list of entries within a record. -/
theorem Track.legible {track : Track}
    (survive : ∀ entry ∈ track.entries, entry.NumbersSurvive format) :
    format.Legible (depth + 5) track.toValue := by
  have entries : format.Legible (depth + 4) (.list (track.entries.map (·.toValue))) :=
    .ofList fun entry member => Entry.legible (survive entry member)
  have instrument : format.Legible (depth + 4) track.instrument.toValue := track.instrument.legible
  exact .object (by simp [entries, instrument]) (by simp)

/-- A score is a list of tracks within a record, so it nests seven deep. -/
theorem Score.legible {score : Score} (survive : score.NumbersSurvive format) :
    format.Legible (depth + 7) score.toValue := by
  have resolution : format.Legible (depth + 6) (.int score.resolution.perQuarter) := by
    have := score.resolution.small
    exact .int (by omega) (by omega)
  have patterns : format.Legible (depth + 6) (.list (score.patterns.map (·.toValue))) :=
    .ofList fun pattern _ => pattern.legible
  have tracks : format.Legible (depth + 6) (.list (score.tracks.map (·.toValue))) :=
    .ofList fun track member => Track.legible (survive.entries track member)
  exact .object (by simp [Legible.double survive.tempo, resolution, patterns, tracks]) (by simp)

end

/-! ## Scores -/

/-- A score is read back from its value.  In any JSON format in which its fractional numbers survive
it is also read back from the text of the value. -/
theorem score_survives_json (score : Score) :
    Score.ofValue .json score.toValue = .ok score ∧
      ∀ format : Json.Format, score.NumbersSurvive format →
        (format.read? (format.print score.toValue)).map (Score.ofValue .json) =
          some (.ok score) := by
  refine ⟨Score.readsAs .json score _ (.same _), fun format survive => ?_⟩
  obtain ⟨w, read, reread⟩ := format.rereads (Score.legible survive)
  rw [read, Option.map_some, Score.readsAs .json score w reread]

/-- All kinds of entries and instruments, present and absent values, and a name with a quote, a line
end and a control character. -/
def sampler (resolution : Resolution) : Score where
  name := "say \"Do\"\n\x01é"
  tempo := 96.5
  resolution := resolution
  value := some .quarter
  patterns := [⟨"fill", [.note { pitch := .fSharp, octave := some (-1) },
    .hit { drum := .openHiHat, delay := [.chord] }]⟩]
  tracks := [
    ⟨"lead", .program 33, [.note { pitch := .aSharp, value := some NoteValue.quarter.triplet },
      .meter ⟨3, 8⟩, .tempo 133.7, .bend ⟨-0.3, [.quarter], [.drum]⟩]⟩,
    ⟨"drums", .drums, [.hit { drum := .snare, velocity := 0 }, .pattern ⟨"fill", -3, [.quarter]⟩]⟩]

theorem sampler_survives :
    (Json.read? (Json.compact (sampler ⟨24, by decide, by decide⟩).toValue)).map
        (Score.ofValue .json) = some (.ok (sampler ⟨24, by decide, by decide⟩)) := by
  have start : number (compact (.double 96.5)).toList = some (.double 96.5, []) := rfl
  have change : number (compact (.double 133.7)).toList = some (.double 133.7, []) := rfl
  have bend : SingleSurvives (-0.3) := ⟨_, rfl, rfl⟩
  refine (score_survives_json (sampler ⟨24, by decide, by decide⟩)).2 Json.standard ⟨start, ?_⟩
  simp only [sampler, List.forall_mem_cons, List.not_mem_nil, false_implies, implies_true,
    and_true, Entry.NumbersSurvive, true_and]
  exact ⟨change, bend⟩

end MidiScore
