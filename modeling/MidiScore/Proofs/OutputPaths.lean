import Mathlib.Data.List.TakeWhile
import MidiScore.Command.Settings

/-!
# Which scores share a compiled file

The compiled file of a score is named after the stem of the score file.  But the extension is put in
place of the last one that the stem itself has, so `demo.v1.toml` and `demo.v2.toml` are both
compiled to `demo.mid`.

*Paths.*  Different texts can lead to the same place.  `Path.components` leaves out the parts that
lead nowhere, and paths are compared without them.  A name that is joined to a path adds one
component, or none if it is `.` (`components_join`), so different names give different paths
(`same_join_iff`).

*Names.*  A stem that is `..` and a tail without dots is left as `..`, and `.` stays what it is.
Any other stem loses its own extension (`withExtension_cases`).
-/

namespace MidiScore.Path

/-! ## Components -/

/-- Whether a part leads somewhere. -/
def isSignificant (part : Part) : Bool := part ≠ [] ∧ part ≠ ['.']

/-- The parts that lead somewhere, in order. -/
def components (path : String) : List Part := (parts path).filter isSignificant

/-- Whether two texts lead to the same place. -/
def Same (p q : String) : Prop := isAbsolute p = isAbsolute q ∧ components p = components q

/-- Whether two paths lead to places in the same directory. -/
def Beside (a b : String) : Prop :=
  ∃ p q, parent? a = some p ∧ parent? b = some q ∧ Same p q

theorem Same.refl (p : String) : Same p p := ⟨rfl, rfl⟩

/-! ## Joining -/

/-- A name that stands for one part. -/
def IsPart (name : Part) : Prop := name ≠ [] ∧ '/' ∉ name

section
variable {base : String} {name : Part}

theorem IsPart.relative (single : IsPart name) : isAbsolute (String.ofList name) = false := by
  obtain ⟨nonempty, noSlash⟩ := single
  cases name with
  | nil => exact absurd rfl nonempty
  | cons char chars =>
      have different : char ≠ '/' := fun same => noSlash (same ▸ List.mem_cons_self ..)
      simp [isAbsolute, String.toList_ofList, different]

/-- A name joined to a path is its last part; a slash at the end of the path is not doubled. -/
theorem toList_join (nonempty : base ≠ "") (single : IsPart name) :
    ∃ front, (join base (String.ofList name)).toList = front ++ '/' :: name ∧
      (base.toList = front ∨ base.toList = front ++ ['/']) := by
  have proceeds : ¬(isAbsolute (String.ofList name) = true ∨ base.isEmpty = true) := by
    rw [single.relative, String.isEmpty_iff]
    simpa using nonempty
  rw [join, if_neg proceeds]
  split
  · next slash =>
    obtain ⟨front, ends⟩ := List.getLast?_eq_some_iff.mp slash
    exact ⟨front, by simp [ends], Or.inr ends⟩
  · exact ⟨base.toList, by simp, Or.inl rfl⟩

/-- Joining a name does not change where a path starts from. -/
theorem isAbsolute_join (single : IsPart name) :
    isAbsolute (join base (String.ofList name)) = isAbsolute base := by
  by_cases empty : base = ""
  · cases empty
    have nowhere : isAbsolute "" = false := rfl
    rw [nowhere]
    simpa [join] using single.relative
  · obtain ⟨front, joined, ends⟩ := toList_join empty single
    unfold isAbsolute
    rw [joined]
    rcases ends with same | slash
    · cases front with
      | nil => exact absurd (String.toList_eq_nil_iff.mp same) empty
      | cons char chars => rw [same]; rfl
    · rw [slash]
      cases front <;> rfl

/-- A joined name is one more component, unless it leads nowhere. -/
theorem components_join (single : IsPart name) :
    components (join base (String.ofList name)) =
      components base ++ [name].filter isSignificant := by
  have last : name.splitOn '/' = [name] := List.splitOn_eq_singleton single.2
  unfold components parts
  by_cases empty : base = ""
  · cases empty
    simp [join, last, isSignificant]
  · obtain ⟨front, joined, ends⟩ := toList_join empty single
    have split : ∀ rest, (front ++ '/' :: rest).splitOn '/' =
        front.splitOn '/' ++ rest.splitOn '/' := fun rest =>
      List.splitOn_append_cons_of_beq front rest rfl
    rw [joined, split, last, List.filter_append]
    rcases ends with same | slash
    · rw [same]
    · rw [slash, split, List.splitOn_nil, List.filter_append]
      simp [isSignificant]

end

/-- Joined to the same path, names give the same path only if they are equal. -/
theorem same_join_iff {p q : String} {name other : Part} (same : Same p q) (single : IsPart name)
    (otherSingle : IsPart other) :
    Same (join p (String.ofList name)) (join q (String.ofList other)) ↔ name = other := by
  rw [Same, isAbsolute_join single, isAbsolute_join otherSingle, components_join single,
    components_join otherSingle, same.1, same.2, List.append_cancel_left_eq]
  constructor
  · rintro ⟨-, last⟩
    by_cases dot : name = ['.']
    · by_cases otherDot : other = ['.']
      · rw [dot, otherDot]
      · simp [isSignificant, dot, otherDot, otherSingle.1] at last
    · by_cases otherDot : other = ['.']
      · simp [isSignificant, dot, otherDot, single.1] at last
      · simpa [isSignificant, dot, otherDot, single.1, otherSingle.1] using last
  · rintro rfl
    exact ⟨rfl, rfl⟩

/-! ## File names -/

theorem notMem_of_mem_splitOn : ∀ (text : List Char), ∀ part ∈ text.splitOn '/', '/' ∉ part
  | [], part, member => by
      cases List.mem_singleton.mp member
      exact List.not_mem_nil
  | char :: chars, part, member => by
      have others := notMem_of_mem_splitOn chars
      rw [List.splitOn_cons_eq_if_modifyHead] at member
      split at member
      · rcases List.mem_cons.mp member with rfl | later
        · exact List.not_mem_nil
        · exact others part later
      · next different =>
        cases rest : chars.splitOn '/' with
        | nil => exact absurd rest (List.splitOn_ne_nil '/' chars)
        | cons first later =>
            rw [rest] at others member
            rcases List.mem_cons.mp member with rfl | inside
            · rintro slash
              rcases List.mem_cons.mp slash with same | inFirst
              · exact different (beq_iff_eq.mpr same.symm)
              · exact others first (List.mem_cons_self ..) inFirst
            · exact others part (List.mem_cons_of_mem _ inside)

theorem trimEnd_cons_cons (last next : Part) (earlier : List Part) :
    trimEnd (last :: next :: earlier) =
      if last = [] ∨ last = ['.'] then trimEnd (next :: earlier) else last :: next :: earlier := rfl

theorem mem_of_mem_trimEnd {part : Part} : ∀ {reversed : List Part},
    part ∈ trimEnd reversed → part ∈ reversed
  | [], member => member
  | [_], member => member
  | last :: next :: earlier, member => by
      rw [trimEnd_cons_cons] at member
      split at member
      · exact List.mem_cons_of_mem _ (mem_of_mem_trimEnd member)
      · exact member

/-- What is left has a meaning at its end, if it has more than one part. -/
theorem isSignificant_of_trimEnd {part before : Part} {parts : List Part} :
    ∀ {reversed : List Part}, trimEnd reversed = part :: before :: parts →
      isSignificant part = true
  | [], trimmed => by cases trimmed
  | [_], trimmed => by cases trimmed
  | last :: next :: earlier, trimmed => by
      rw [trimEnd_cons_cons] at trimmed
      split at trimmed
      · exact isSignificant_of_trimEnd trimmed
      · next meaning =>
        cases trimmed
        simpa [isSignificant] using meaning

/-- The name of a file is one part. -/
theorem fileName?_isPart {path : String} {name : Part} (found : fileName? path = some name) :
    IsPart name := by
  have inside : name ∈ significant path → '/' ∉ name := fun member =>
    notMem_of_mem_splitOn path.toList name (List.mem_reverse.mp (mem_of_mem_trimEnd member))
  unfold fileName? at found
  split at found
  · cases found
  · next first single =>
    split at found
    · cases found
    · next named =>
      cases found
      exact ⟨fun empty => named (Or.inl empty), inside (single ▸ List.mem_cons_self ..)⟩
  · next _ before more several =>
    split at found
    · cases found
    · cases found
      refine ⟨?_, inside (several ▸ List.mem_cons_self ..)⟩
      cases before with
      | nil => exact absurd rfl more
      | cons next earlier =>
          have meaning := isSignificant_of_trimEnd several
          simp only [isSignificant, decide_eq_true_eq] at meaning
          exact meaning.1

/-! ## Stems -/

theorem splitLastDot?_of_notMem {name : Part} (plain : '.' ∉ name) : splitLastDot? name = none := by
  have whole : name.reverse.takeWhile (· ≠ '.') = name.reverse :=
    List.takeWhile_eq_self_iff.mpr fun char member => by
      simpa using fun same : char = '.' => plain (same ▸ List.mem_reverse.mp member)
  simp only [splitLastDot?, whole, List.reverse_reverse, if_true]

theorem splitLastDot?_append {before after : Part} (last : '.' ∉ after) :
    splitLastDot? (before ++ '.' :: after) = some (before, after) := by
  have ending : (before ++ '.' :: after).reverse.takeWhile (· ≠ '.') = after.reverse := by
    rw [List.reverse_append, List.reverse_cons, List.append_assoc,
      List.takeWhile_append_of_pos fun char member => by
        simpa using fun same : char = '.' => last (same ▸ List.mem_reverse.mp member)]
    simp
  have length : (before ++ '.' :: after).length - after.length - 1 = before.length := by
    simp only [List.length_append, List.length_cons]
    omega
  simp only [splitLastDot?, ending, List.reverse_reverse, length, List.take_left]
  rw [if_neg]
  simp only [List.length_append, List.length_cons]
  omega

/-- Every name has no dot, or a last one. -/
theorem dot_cases (name : Part) :
    '.' ∉ name ∨ ∃ before after, name = before ++ '.' :: after ∧ '.' ∉ after := by
  by_cases plain : '.' ∈ name
  · obtain ⟨after, before, split, last⟩ := List.eq_append_cons_of_mem (List.mem_reverse.mpr plain)
    refine Or.inr ⟨before.reverse, after.reverse, ?_, fun member =>
      last (List.mem_reverse.mp member)⟩
    have whole := congrArg List.reverse split
    simpa using whole
  · exact Or.inl plain

theorem stem_of_notMem {name : Part} (plain : '.' ∉ name) : stem name = name := by
  simp only [stem, splitLastDot?_of_notMem plain]

theorem stem_append {before after : Part} (last : '.' ∉ after) (nonempty : before ≠ [])
    (named : before ++ '.' :: after ≠ ['.', '.']) : stem (before ++ '.' :: after) = before := by
  simp only [stem, splitLastDot?_append last, nonempty, named, or_self, if_false]

theorem stem_hidden {after : Part} (last : '.' ∉ after) : stem ('.' :: after) = '.' :: after := by
  have split : splitLastDot? ('.' :: after) = some ([], after) :=
    @splitLastDot?_append [] after last
  simp only [stem, split, true_or, if_true]

/-- A stem is part of a name, so it is one part of a path. -/
theorem IsPart.stem {name : Part} (single : IsPart name) : IsPart (stem name) := by
  rcases dot_cases name with plain | ⟨before, after, rfl, last⟩
  · rwa [stem_of_notMem plain]
  · simp only [Path.stem, splitLastDot?_append last]
    split
    · exact single
    · next goesOn =>
      exact ⟨fun empty => goesOn (Or.inl empty), fun slash =>
        single.2 (List.mem_append_left _ slash)⟩

/-! ## Names of compiled files -/

/-- Whether a stem is `..` and a tail without dots.  Without its extension it does not name a
file. -/
def isUpward : Part → Bool
  | '.' :: '.' :: tail => '.' ∉ tail
  | _ => false

/-- Whether two stems get the same name with another extension: both lead upward, or the same is
left of them without their own extensions. -/
def ShareName (stem₁ stem₂ : Part) : Prop :=
  (isUpward stem₁ = true ∧ isUpward stem₂ = true) ∨
    (isUpward stem₁ = false ∧ isUpward stem₂ = false ∧ stem stem₁ = stem stem₂)

section
variable (extension : Part) {name before after : Part}

theorem withExtension_of_notMem (nonempty : name ≠ []) (plain : '.' ∉ name) :
    isUpward name = false ∧ withExtension name extension = name ++ '.' :: extension := by
  have named : isFileName name = true := by
    simp only [isFileName, decide_eq_true_eq]
    exact ⟨nonempty, by rintro rfl; simp at plain, by rintro rfl; simp at plain⟩
  refine ⟨?_, ?_⟩
  · unfold isUpward
    split
    · exact absurd (List.mem_cons_self ..) plain
    · rfl
  · simp only [withExtension, withoutExtension, splitLastDot?_of_notMem plain, named, if_true,
      stem_of_notMem plain]

theorem withExtension_hidden (last : '.' ∉ after) (nonempty : after ≠ []) :
    isUpward ('.' :: after) = false ∧
      withExtension ('.' :: after) extension = '.' :: after ++ '.' :: extension := by
  have split : splitLastDot? ('.' :: after) = some ([], after) :=
    @splitLastDot?_append [] after last
  cases after with
  | nil => exact absurd rfl nonempty
  | cons char chars =>
      have different : char ≠ '.' := fun same => last (same ▸ List.mem_cons_self ..)
      refine ⟨by simp [isUpward, different], ?_⟩
      have named : isFileName ('.' :: char :: chars) = true := by simp [isFileName, different]
      simp only [withExtension, withoutExtension, split, if_true, named, stem_hidden last]

theorem withExtension_upward (last : '.' ∉ after) :
    isUpward ('.' :: '.' :: after) = true ∧
      withExtension ('.' :: '.' :: after) extension = ['.', '.'] := by
  have split : splitLastDot? ('.' :: '.' :: after) = some (['.'], after) :=
    @splitLastDot?_append ['.'] after last
  refine ⟨by simp [isUpward, last], ?_⟩
  simp [withExtension, withoutExtension, split, isFileName]

/-- The last of three dots is in the tail. -/
theorem isUpward_append (nonempty : before ≠ []) (named : before ≠ ['.']) (after : Part) :
    isUpward (before ++ '.' :: after) = false := by
  cases before with
  | nil => exact absurd rfl nonempty
  | cons first rest =>
      cases rest with
      | nil =>
          have different : first ≠ '.' := by simpa using named
          simp [isUpward, different]
      | cons second others =>
          have inTail : '.' ∈ others ++ '.' :: after :=
            List.mem_append_right _ (List.mem_cons_self ..)
          rw [List.cons_append, List.cons_append]
          unfold isUpward
          split
          · next tail same =>
            cases same
            exact decide_eq_false (not_not_intro inTail)
          · rfl

/-- A name that goes on before its last dot loses what stands after it. -/
theorem withExtension_append (last : '.' ∉ after) (nonempty : before ≠ [])
    (named : before ≠ ['.']) :
    isUpward (before ++ '.' :: after) = false ∧ stem (before ++ '.' :: after) = before ∧
      withExtension (before ++ '.' :: after) extension = before ++ '.' :: extension := by
  have notParent : ∀ tail, before ++ '.' :: tail ≠ ['.', '.'] := by
    intro tail same
    cases before with
    | nil => exact nonempty rfl
    | cons char chars =>
        cases chars with
        | nil => simp_all
        | cons next others => simp at same
  have kept : withoutExtension (before ++ '.' :: after) = before ++ ['.'] := by
    simp only [withoutExtension, splitLastDot?_append last, nonempty, if_false]
  have ends : isFileName (before ++ ['.']) = true := by
    simp [isFileName, nonempty, notParent []]
  refine ⟨isUpward_append nonempty named after, stem_append last nonempty (notParent after), ?_⟩
  rw [withExtension]
  simp only [kept, ends, if_true, stem_append List.not_mem_nil nonempty (notParent [])]

end

/-- With another extension a stem stays `.`, becomes `..`, or loses its own extension. -/
theorem withExtension_cases (extension : Part) {name : Part} (nonempty : name ≠ []) :
    (name = ['.'] ∧ withExtension name extension = ['.']) ∨
      (isUpward name = true ∧ withExtension name extension = ['.', '.']) ∨
      (isUpward name = false ∧ stem name ≠ ['.'] ∧
        withExtension name extension = stem name ++ '.' :: extension) := by
  -- the cases differ in what stands before the last dot of the stem
  rcases dot_cases name with plain | ⟨before, after, rfl, last⟩
  · obtain ⟨level, whole⟩ := withExtension_of_notMem extension nonempty plain
    rw [stem_of_notMem plain]
    refine Or.inr (Or.inr ⟨level, ?_, whole⟩)
    rintro rfl
    simp at plain
  · by_cases hidden : before = []
    · cases hidden
      by_cases dot : after = []
      · cases dot
        exact Or.inl ⟨rfl, rfl⟩
      · obtain ⟨level, whole⟩ := withExtension_hidden extension last dot
        rw [List.nil_append, stem_hidden last]
        exact Or.inr (Or.inr ⟨level, by simpa using dot, whole⟩)
    · by_cases upward : before = ['.']
      · cases upward
        exact Or.inr (Or.inl (withExtension_upward extension last))
      · obtain ⟨level, short, whole⟩ := withExtension_append extension last hidden upward
        rw [short]
        exact Or.inr (Or.inr ⟨level, upward, whole⟩)

theorem IsPart.withExtension {name extension : Part} (single : IsPart name)
    (simple : '/' ∉ extension) : IsPart (withExtension name extension) := by
  rcases withExtension_cases extension single.1 with ⟨-, whole⟩ | ⟨-, whole⟩ | ⟨-, -, whole⟩
  · rw [whole]
    exact ⟨by simp, by simp⟩
  · rw [whole]
    exact ⟨by simp, by simp⟩
  · rw [whole]
    exact ⟨by simp, by simp [single.stem.2, simple]⟩

theorem withExtension_eq_iff {extension name other : Part} (long : 2 ≤ extension.length)
    (nonempty : name ≠ []) (otherNonempty : other ≠ []) :
    withExtension name extension = withExtension other extension ↔ ShareName name other := by
  have longer : ∀ front rest : Part, rest.length ≤ 2 → front ++ '.' :: extension ≠ rest := by
    rintro front _ brief rfl
    rw [List.length_append, List.length_cons] at brief
    omega
  have notDot := fun front => longer front ['.'] (by decide)
  have notParent := fun front => longer front ['.', '.'] (by decide)
  have level : isUpward ['.'] = false ∧ stem ['.'] = ['.'] := ⟨rfl, rfl⟩
  rcases withExtension_cases extension nonempty with
      ⟨rfl, whole⟩ | ⟨up, whole⟩ | ⟨up, short, whole⟩ <;>
    rcases withExtension_cases extension otherNonempty with
      ⟨rfl, other⟩ | ⟨otherUp, other⟩ | ⟨otherUp, otherShort, other⟩
  · simp [ShareName]
  · simp [ShareName, whole, other, level, otherUp]
  · simp [ShareName, whole, other, level, otherUp, otherShort.symm, (notDot _).symm]
  · simp [ShareName, whole, other, level, up]
  · simp [ShareName, whole, other, up, otherUp]
  · simp [ShareName, whole, other, up, otherUp, (notParent _).symm]
  · simp [ShareName, whole, other, level, up, short, notDot]
  · simp [ShareName, whole, other, up, otherUp, notParent]
  · simp [ShareName, whole, other, up, otherUp]

theorem eq_parent_of_isUpward {name : Part} (up : isUpward name = true) (bare : stem name = name) :
    name = ['.', '.'] := by
  unfold isUpward at up
  split at up
  · next tail =>
    cases tail with
    | nil => rfl
    | cons char chars =>
        have last : '.' ∉ char :: chars := of_decide_eq_true up
        have short : stem ('.' :: '.' :: char :: chars) = ['.'] :=
          @stem_append ['.'] (char :: chars) last (by simp) (by simp)
        rw [short] at bare
        cases bare
  · cases up

/-- Stems without an extension of their own share a name only if they are equal. -/
theorem shareName_iff_eq {name other : Part} (bare : stem name = name)
    (otherBare : stem other = other) : ShareName name other ↔ name = other := by
  constructor
  · rintro (⟨up, otherUp⟩ | ⟨-, -, same⟩)
    · rw [eq_parent_of_isUpward up bare, eq_parent_of_isUpward otherUp otherBare]
    · rwa [bare, otherBare] at same
  · rintro rfl
    cases up : isUpward name with
    | true => exact Or.inl ⟨up, up⟩
    | false => exact Or.inr ⟨up, up, rfl⟩

end MidiScore.Path

namespace MidiScore.Settings

open MidiScore.Path

section
variable {input other : String} {name otherName : Part}

theorem outputName_of_fileName? (named : fileName? input = some name) :
    outputName input = String.ofList (withExtension (stem name) ['m', 'i', 'd']) := by
  simp only [outputName, named]

theorem outputPath_beside (settings : Settings) (named : fileName? input = some name)
    (otherNamed : fileName? other = some otherName) (beside : Beside input other) :
    ∃ p q, Same p q ∧ settings.outputPath input = join p (outputName input) ∧
      settings.outputPath other = join q (outputName other) := by
  obtain ⟨p, q, parent, otherParent, same⟩ := beside
  cases chosen : settings.destination with
  | some directory => exact ⟨directory, directory, Same.refl _, by simp only [outputPath, chosen],
      by simp only [outputPath, chosen]⟩
  | none =>
      refine ⟨p, q, same, ?_, ?_⟩
      · simp only [outputPath, chosen, withFileName, named, parent, Option.getD_some]
      · simp only [outputPath, chosen, withFileName, otherNamed, otherParent, Option.getD_some]

/-- Whatever the settings are, scores of one directory are compiled to the same place exactly if
their stems share a name.  So stems without an extension of their own are kept apart. -/
theorem outputPath_same_iff (settings : Settings) (named : fileName? input = some name)
    (otherNamed : fileName? other = some otherName) (beside : Beside input other) :
    (Same (settings.outputPath input) (settings.outputPath other) ↔
        ShareName (stem name) (stem otherName)) ∧
      (stem (stem name) = stem name → stem (stem otherName) = stem otherName →
        stem name ≠ stem otherName →
        ¬Same (settings.outputPath input) (settings.outputPath other)) := by
  have single := (fileName?_isPart named).stem
  have otherSingle := (fileName?_isPart otherNamed).stem
  obtain ⟨p, q, same, path, otherPath⟩ := outputPath_beside settings named otherNamed beside
  have shared : Same (settings.outputPath input) (settings.outputPath other) ↔
      ShareName (stem name) (stem otherName) := by
    rw [path, otherPath, outputName_of_fileName? named, outputName_of_fileName? otherNamed,
      same_join_iff same (single.withExtension (by decide)) (otherSingle.withExtension (by decide)),
      withExtension_eq_iff (by decide) single.1 otherSingle.1]
  refine ⟨shared, fun bare otherBare different => ?_⟩
  rw [shared, shareName_iff_eq bare otherBare]
  exact different

end

/-- Two scores of one directory that is written in two ways, with a dot at the start of one name. -/
theorem introVerse_kept_apart :
    Beside "songs//live/.intro.toml" "./songs/live/verse.toml" ∧
      ¬Same (({} : Settings).outputPath "songs//live/.intro.toml")
        (({} : Settings).outputPath "./songs/live/verse.toml") := by
  have beside : Beside "songs//live/.intro.toml" "./songs/live/verse.toml" :=
    ⟨"songs//live", "./songs/live", by decide, by decide, by decide, by decide⟩
  have intro : fileName? "songs//live/.intro.toml" = some ".intro.toml".toList := by decide
  have verse : fileName? "./songs/live/verse.toml" = some "verse.toml".toList := by decide
  exact ⟨beside, (outputPath_same_iff {} intro verse beside).2 (by decide) (by decide) (by decide)⟩

/-- Two versions of a score have different stems, and the second is compiled over the first. -/
theorem demoVersions_compiled_over :
    Beside "songs/demo.v1.toml" "songs/demo.v2.toml" ∧
      (fileName? "songs/demo.v1.toml").map stem = some "demo.v1".toList ∧
      (fileName? "songs/demo.v2.toml").map stem = some "demo.v2".toList ∧
      ({} : Settings).outputPath "songs/demo.v1.toml" = "songs/demo.mid" ∧
      ({} : Settings).outputPath "songs/demo.v2.toml" = "songs/demo.mid" :=
  ⟨⟨"songs", "songs", by decide, by decide, by decide, by decide⟩, by decide, by decide, by decide,
    by decide⟩

end MidiScore.Settings
