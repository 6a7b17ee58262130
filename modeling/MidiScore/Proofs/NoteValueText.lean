import MidiScore.Proofs.ScoreRoundTrip

/-!
# Which texts are note values

A note value is written as the name of its base and the suffix of its modifier.  Reading tries the
suffixes in a fixed order and looks up what stands before them.  Names of bases have underscores of
their own, so it is not plain that the two steps undo each other.

Splitting a text never loses a character (`split_append`), and only the name of a base is looked up
successfully (`NoteBase.ofName?_eq_some_iff`).  So a text that is read is the text of what was read.
Together with `parse?_text` this says that a note value has one text, and that nothing else is read.
-/

namespace MidiScore

/-- A base is found by its name, and nothing else is found. -/
theorem NoteBase.ofName?_eq_some_iff {name : String} {base : NoteBase} :
    ofName? name = some base ↔ name = base.name := by
  constructor
  · intro found
    unfold ofName? at found
    have matched := List.find?_some found
    exact (of_decide_eq_true matched).symm
  · rintro rfl
    cases base <;> rfl

namespace NoteValue

theorem beforeSuffix?_eq_some_iff {ending text front : List Char} :
    beforeSuffix? ending text = some front ↔ text = front ++ ending := by
  unfold beforeSuffix?
  constructor
  · intro found
    split at found
    · next ends =>
      cases found
      exact (List.suffix_iff_eq_append.mp (List.isSuffixOf_iff_suffix.mp ends)).symm
    · cases found
  · rintro rfl
    have ends : ending.isSuffixOf (front ++ ending) = true :=
      List.isSuffixOf_iff_suffix.mpr (List.suffix_append front ending)
    rw [if_pos ends, List.length_append, Nat.add_sub_cancel, List.take_left]

/-- The two parts of a text give it back. -/
theorem split_append (text : String) : (split text).1 ++ (split text).2.suffix = text := by
  unfold split
  split
  · next front dotted =>
    refine String.toList_inj.mp ?_
    rw [String.toList_append, String.toList_ofList]
    exact (beforeSuffix?_eq_some_iff.mp dotted).symm
  · split
    · next front triplet =>
      refine String.toList_inj.mp ?_
      rw [String.toList_append, String.toList_ofList]
      exact (beforeSuffix?_eq_some_iff.mp triplet).symm
    · exact String.append_empty

/-- What is read from a text is written as that text. -/
theorem eq_text_of_parse? {text : String} {value : NoteValue} (found : parse? text = some value) :
    text = value.text := by
  have whole := split_append text
  unfold parse? at found
  cases parts : split text with
  | mk name modifier =>
      rw [parts] at found whole
      obtain ⟨base, known, rfl⟩ := Option.map_eq_some_iff.mp found
      rw [← whole, NoteBase.ofName?_eq_some_iff.mp known]
      rfl

theorem parse?_eq_some_iff {text : String} {value : NoteValue} :
    parse? text = some value ↔ text = value.text := by
  constructor
  · exact eq_text_of_parse?
  · rintro rfl
    exact parse?_text value

theorem parse?_eq_none_iff {text : String} :
    parse? text = none ↔ ∀ value : NoteValue, text ≠ value.text := by
  rw [Option.eq_none_iff_forall_ne_some]
  exact forall_congr' fun value => not_congr parse?_eq_some_iff

end NoteValue

namespace Value

theorem readNoteValue_of_parse? {text : String} {value : NoteValue}
    (known : NoteValue.parse? text = some value) : readNoteValue (.text text) = .ok value := by
  refine bind_eq_ok.mpr ⟨text, rfl, ?_⟩
  simp only [known]

theorem readNoteValue_of_unknown {text : String} (unknown : NoteValue.parse? text = none) :
    readNoteValue (.text text) = .error (.noteValue text) := by
  refine bind_eq_error.mpr (Or.inr ⟨text, rfl, ?_⟩)
  simp only [unknown]

/-- A text is read as a note value exactly if it is the text of that note value.  Any other text is
refused, and the error gives it as it stands. -/
theorem readNoteValue_accepts_exactly (text : String) :
    (∀ value, readNoteValue (.text text) = .ok value ↔ text = value.text) ∧
      (readNoteValue (.text text) = .error (.noteValue text) ↔
        ∀ value : NoteValue, text ≠ value.text) := by
  cases parsed : NoteValue.parse? text with
  | none =>
      have unknown := NoteValue.parse?_eq_none_iff.mp parsed
      rw [readNoteValue_of_unknown parsed]
      exact ⟨fun value => iff_of_false (fun accepted => by cases accepted) (unknown value),
        iff_of_true rfl unknown⟩
  | some found =>
      have written := NoteValue.parse?_eq_some_iff.mp parsed
      rw [readNoteValue_of_parse? parsed]
      refine ⟨fun value => ?_, iff_of_false (fun refused => by cases refused) fun unknown =>
        unknown found written⟩
      rw [← NoteValue.parse?_eq_some_iff, parsed, Except.ok.injEq, Option.some.injEq]

-- a second modifier, a base that is missing, capitals and blanks are refused
example : (["quarter_dotted_dotted", "quarter_triplet_dotted", "_dotted", "Quarter", " quarter",
    "thirty_second_dotted"].map NoteValue.parse?) =
    [none, none, none, none, none, some ⟨.thirtySecond, .dotted⟩] := by decide

end Value

end MidiScore
