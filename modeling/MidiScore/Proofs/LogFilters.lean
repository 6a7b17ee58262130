import Mathlib.Data.List.Basic
import Mathlib.Data.Nat.Init
import MidiScore.Command.Log.Directives

/-!
# Which log records directives show

The directives that users write decide about a record by its target, its level and its message.  The
message is compared with a regular expression, and the matcher moves whole sets of places through
the expression.

*Meaning.*  `Expr.Matches` states by itself when an expression matches the part of a text between
two places.  A repetition is any number of steps within its bounds (`Repeats`).

*Repetition.*  The matcher makes at most as many rounds as a text has places.  That is enough: a
match never goes back, so among more steps than there are places one stands still, and such a step
can be left out or made once more (`repeats_congr`).

*Sets.*  `Moves` says that a function on sets of places follows a relation between places.  It is
shown for one constructor after another (`Expr.ends_moves`), so an expression is found exactly if it
matches somewhere (`Expr.isFound_iff`).

*Directives.*  Of the directives that hold for a target the last one among those with the longest
names decides (`Directives.shows_iff`).
-/

namespace MidiScore

namespace Regex

/-! ## Meaning -/

/-- So many steps from one place to another. -/
def Repeats (step : Nat → Nat → Prop) : Nat → Nat → Nat → Prop
  | 0, start, stop => start = stop
  | count + 1, start, stop => ∃ next, step start next ∧ Repeats step count next stop

/-- The character before a place of a text. -/
def before? (text : List Char) : Nat → Option Char
  | 0 => none
  | place + 1 => text[place]?

/-- Whether an expression matches the part of a text from one place to another.  Bounds in the wrong
order count as the lower one. -/
def Expr.Matches (text : List Char) : Expr → Nat → Nat → Prop
  | .empty, start, stop => start = stop
  | .one p, start, stop => ∃ c, text[start]? = some c ∧ p c.toNat ∧ start + 1 = stop
  | .check condition, start, stop =>
    condition.holds (before? text start) text[start]? ∧ start = stop
  | .seq first second, start, stop =>
    ∃ middle, first.Matches text start middle ∧ second.Matches text middle stop
  | .alt left right, start, stop => left.Matches text start stop ∨ right.Matches text start stop
  | .times body least most, start, stop =>
    ∃ count, least ≤ count ∧ (∀ bound ∈ most, count ≤ max least bound) ∧
      Repeats (body.Matches text) count start stop

/-! ## Repetition -/

section Repetition

variable {step : Nat → Nat → Prop} {start stop : Nat}

/-- A repetition can be divided anywhere. -/
theorem repeats_add {first second : Nat} :
    Repeats step (first + second) start stop ↔
      ∃ middle, Repeats step first start middle ∧ Repeats step second middle stop := by
  induction first generalizing start with
  | zero => simp [Repeats]
  | succ first ih =>
      rw [Nat.succ_add]
      simp only [Repeats, ih]
      grind

/-- Steps that may also stand still are fewer steps. -/
theorem repeats_or_eq {count : Nat} :
    Repeats (fun i j => i = j ∨ step i j) count start stop ↔
      ∃ fewer ≤ count, Repeats step fewer start stop := by
  induction count generalizing start with
  | zero => simp [Repeats]
  | succ count ih =>
      simp only [Repeats, ih]
      constructor
      · rintro ⟨next, rfl | one, fewer, few, steps⟩
        · exact ⟨fewer, Nat.le_succ_of_le few, steps⟩
        · exact ⟨fewer + 1, Nat.succ_le_succ few, next, one, steps⟩
      · rintro ⟨fewer, few, steps⟩
        cases fewer with
        | zero => exact ⟨start, Or.inl rfl, 0, Nat.zero_le _, steps⟩
        | succ fewer =>
            obtain ⟨next, one, steps⟩ := steps
            exact ⟨next, Or.inr one, fewer, Nat.le_of_succ_le_succ few, steps⟩

variable (forward : ∀ {i j}, step i j → i ≤ j)

include forward

theorem Repeats.le : ∀ {count start}, Repeats step count start stop → start ≤ stop
  | 0, _, same => Nat.le_of_eq same
  | _ + 1, _, ⟨_, one, others⟩ => Nat.le_trans (forward one) (Repeats.le others)

/-- Of more steps than there is way to go, one stands still and can be left out. -/
theorem Repeats.shrink : ∀ {count start}, Repeats step (count + 1) start stop →
    stop ≤ start + count → Repeats step count start stop
  | 0, _, ⟨_, one, rfl⟩, near => Nat.le_antisymm (forward one) near
  | count + 1, start, ⟨next, one, others⟩, near => by
      have ahead := forward one
      by_cases still : next = start
      · rwa [still] at others
      · exact ⟨next, one, others.shrink (by omega)⟩

/-- It can also be made once more. -/
theorem Repeats.stretch : ∀ {count start}, Repeats step count start stop →
    stop < start + count → Repeats step (count + 1) start stop
  | 0, _, rfl, near => absurd near (Nat.lt_irrefl _)
  | count + 1, start, ⟨next, one, others⟩, near => by
      have ahead := forward one
      by_cases still : next = start
      · rw [still] at one others
        exact ⟨start, one, start, one, others⟩
      · exact ⟨next, one, others.stretch (by omega)⟩

/-- So beyond the way to go the number of steps does not matter. -/
theorem repeats_iff_of_le {bound count : Nat} (near : stop < start + bound) (more : bound ≤ count) :
    Repeats step count start stop ↔ Repeats step bound start stop := by
  induction count, more using Nat.le_induction with
  | base => exact Iff.rfl
  | succ count more ih =>
      rw [← ih]
      exact ⟨fun steps => steps.shrink forward (by omega),
        fun steps => steps.stretch forward (by omega)⟩

theorem repeats_congr {bound first second : Nat} (near : stop < start + bound)
    (moreFirst : bound ≤ first) (moreSecond : bound ≤ second) :
    Repeats step first start stop ↔ Repeats step second start stop :=
  (repeats_iff_of_le forward near moreFirst).trans
    (repeats_iff_of_le forward near moreSecond).symm

/-- The bounds of a repetition may be cut off where the text is shorter. -/
theorem repeats_cut {bound least : Nat} {most : Option Nat}
    (near : ∀ {count}, Repeats step count start stop → stop < start + bound) :
    (∃ extra ≤ (most.map (min bound <| · - least)).getD bound,
        Repeats step (min least bound + extra) start stop) ↔
      ∃ count, least ≤ count ∧ (∀ limit ∈ most, count ≤ max least limit) ∧
        Repeats step count start stop := by
  rcases Nat.lt_or_ge bound least with short | long
  · rw [Nat.min_eq_right (Nat.le_of_lt short)]
    constructor
    · rintro ⟨extra, -, steps⟩
      refine ⟨least, Nat.le_refl least, fun _ _ => Nat.le_max_left .., ?_⟩
      exact (repeats_congr forward (near steps) (by omega) (by omega)).mp steps
    · rintro ⟨count, enough, -, steps⟩
      exact ⟨0, Nat.zero_le _, (repeats_congr forward (near steps) (by omega) (by omega)).mp steps⟩
  · rw [Nat.min_eq_left long]
    constructor
    · rintro ⟨extra, few, steps⟩
      refine ⟨least + extra, Nat.le_add_right .., ?_, steps⟩
      rintro limit rfl
      simp only [Option.map_some, Option.getD_some] at few
      omega
    · rintro ⟨count, enough, few, steps⟩
      refine ⟨min (count - least) bound, ?_, ?_⟩
      · cases most with
        | none => exact Nat.min_le_right ..
        | some limit =>
            have bounded := few limit rfl
            simp only [Option.map_some, Option.getD_some]
            omega
      · rcases Nat.le_total (count - least) bound with fits | beyond
        · rwa [Nat.min_eq_left fits, Nat.add_sub_cancel' enough]
        · rw [Nat.min_eq_right beyond]
          exact (repeats_congr forward (near steps) (by omega) (by omega)).mp steps

end Repetition

/-! ## Sets of places -/

namespace Places

/-- Whether a place is in a set. -/
def Has (places : Places) (place : Nat) : Prop := places[place]? = some true

theorem Has.lt_length {places : Places} {place : Nat} (has : places.Has place) :
    place < places.length :=
  (List.getElem?_eq_some_iff.mp has).1

theorem has_all {text : List Char} {place : Nat} :
    (all text).Has place ↔ place ≤ text.length := by
  simp only [Has, all, List.getElem?_replicate, Option.ite_none_right_eq_some, and_true,
    Nat.lt_succ_iff]

theorem has_union {a b : Places} (same : a.length = b.length) {place : Nat} :
    (union a b).Has place ↔ a.Has place ∨ b.Has place := by
  simp only [Has, union, List.getElem?_zipWith]
  by_cases inside : place < a.length
  · simp [List.getElem?_eq_getElem inside, List.getElem?_eq_getElem (same ▸ inside)]
  · simp [List.getElem?_eq_none (Nat.le_of_not_lt inside),
      List.getElem?_eq_none (same ▸ Nat.le_of_not_lt inside)]

theorem has_advance {p : Nat → Bool} {text : List Char} {places : Places} {stop : Nat} :
    (places.advance p text).Has stop ↔
      ∃ start, places.Has start ∧ ∃ c, text[start]? = some c ∧ p c.toNat ∧ start + 1 = stop := by
  cases stop with
  | zero => simp [Has, advance]
  | succ stop =>
      simp only [Has, advance, List.getElem?_cons_succ, List.getElem?_zipWith]
      cases here : places[stop]? <;> cases next : text[stop]? <;> simp [here, next]

theorem getElem?_sides (text : List Char) (before : Option Char) (place : Nat) :
    (sides before text)[place]? =
      if place ≤ text.length then
        some (if place = 0 then before else before? text place, text[place]?)
      else none := by
  induction text generalizing before place with
  | nil => cases place <;> simp [sides]
  | cons c text ih =>
      cases place with
      | zero => simp [sides]
      | succ place =>
          rw [sides, List.getElem?_cons_succ, ih]
          cases place <;> simp [before?]

theorem has_restrict {holds : Option Char → Option Char → Bool} {text : List Char}
    {places : Places} (length : places.length = text.length + 1) {place : Nat} :
    (places.restrict holds text).Has place ↔
      places.Has place ∧ holds (before? text place) text[place]? := by
  simp only [Has, restrict, List.getElem?_zipWith, getElem?_sides]
  by_cases inside : place ≤ text.length
  · have bound : place < places.length := by omega
    cases place <;> simp [List.getElem?_eq_getElem bound, inside, before?]
  · have none : places[place]? = none := List.getElem?_eq_none (by omega)
    simp [none]

theorem length_sides (before : Option Char) (text : List Char) :
    (sides before text).length = text.length + 1 := by
  induction text generalizing before with
  | nil => rfl
  | cons c text ih => rw [sides, List.length_cons, ih, List.length_cons]

/-- A function takes the places of a text to those that a relation leads to. -/
structure Moves (text : List Char) (move : Places → Places) (step : Nat → Nat → Prop) : Prop where
  length : ∀ {places : Places}, places.length = text.length + 1 →
    (move places).length = text.length + 1
  has : ∀ {places : Places}, places.length = text.length + 1 → ∀ stop,
    (move places).Has stop ↔ ∃ start, places.Has start ∧ step start stop

namespace Moves

variable {text : List Char} {move after : Places → Places} {step next : Nat → Nat → Prop}

/-- Within a text, the relation does not leave it. -/
theorem within (moves : Moves text move step) {start stop : Nat} (inside : start ≤ text.length)
    (leads : step start stop) : stop ≤ text.length := by
  have whole : (all text).length = text.length + 1 := List.length_replicate
  have reached := (moves.has whole stop).mpr ⟨start, has_all.mpr inside, leads⟩
  have bound := reached.lt_length
  rw [moves.length whole] at bound
  omega

/-- Only what the relation does within the text matters. -/
theorem congr (moves : Moves text move step)
    (same : ∀ {start stop}, start ≤ text.length → (step start stop ↔ next start stop)) :
    Moves text move next where
  length := moves.length
  has length stop := by
    rw [moves.has length]
    refine exists_congr fun start => and_congr_right fun has => same ?_
    have := has.lt_length
    omega

theorem comp (first : Moves text move step) (second : Moves text after next) :
    Moves text (fun places => after (move places))
      (fun start stop => ∃ middle, step start middle ∧ next middle stop) where
  length length := second.length (first.length length)
  has length stop := by
    simp only [second.has (first.length length), first.has length]
    grind

theorem union (left : Moves text move step) (right : Moves text after next) :
    Moves text (fun places => (move places).union (after places))
      (fun start stop => step start stop ∨ next start stop) where
  length length := by
    simp [Places.union, left.length length, right.length length]
  has length stop := by
    rw [has_union (by rw [left.length length, right.length length]), left.has length,
      right.has length]
    simp only [← exists_or, ← and_or_left]

/-- Rounds end early where a round changes nothing, and then no number of rounds does. -/
theorem rounds (moves : Moves text move step) :
    ∀ count, Moves text (Places.rounds move count) (Repeats step count)
  | 0 => ⟨id, fun _ stop => by simp [Places.rounds, Repeats]⟩
  | count + 1 => by
      have others := moves.comp (moves.rounds count)
      refine ⟨fun {places} length => ?_, fun {places} length stop => ?_⟩
      · rw [Places.rounds]
        split
        · exact length
        · exact others.length length
      · rw [Places.rounds]
        split
        next fixed =>
          have stays : ∀ rest, Places.rounds move rest places = places := by
            intro rest
            cases rest with
            | zero => rfl
            | succ rest => simp [Places.rounds, fixed]
          have reached := others.has length stop
          rwa [fixed, stays count] at reached
        next => exact others.has length stop

/-- Growing is a number of rounds in which each place also stays. -/
theorem grow (moves : Moves text move step) (count : Nat) :
    Moves text (Places.grow move count)
      (fun start stop => ∃ fewer ≤ count, Repeats step fewer start stop) := by
  have stay : Moves text id (fun start stop => start = stop) := ⟨id, fun _ stop => by simp⟩
  exact ((stay.union moves).rounds count).congr fun _ => repeats_or_eq

end Moves

end Places

/-! ## Matching -/

/-- A match does not go back. -/
theorem Expr.Matches.le {text : List Char} : ∀ {expr : Expr} {start stop : Nat},
    expr.Matches text start stop → start ≤ stop
  | .empty, _, _, same => Nat.le_of_eq same
  | .one _, _, _, ⟨_, _, _, next⟩ => next ▸ Nat.le_succ _
  | .check _, _, _, ⟨_, same⟩ => Nat.le_of_eq same
  | .seq _ _, _, _, ⟨_, first, second⟩ => Nat.le_trans first.le second.le
  | .alt _ _, _, _, .inl left => left.le
  | .alt _ _, _, _, .inr right => right.le
  | .times _ _ _, _, _, ⟨_, _, _, steps⟩ => steps.le Expr.Matches.le

/-- The matcher takes the places where a match may begin to those where it may end. -/
theorem Expr.ends_moves (text : List Char) (expr : Expr) :
    Places.Moves text (expr.ends text) (expr.Matches text) := by
  induction expr with
  | empty => exact ⟨id, fun _ stop => by simp [ends, Matches]⟩
  | one p =>
      refine ⟨fun length => ?_, fun _ stop => Places.has_advance⟩
      simp [ends, Places.advance, length]
  | check condition =>
      refine ⟨fun length => ?_, fun length stop => ?_⟩
      · simp [ends, Places.restrict, Places.length_sides, length]
      · rw [ends, Places.has_restrict length]
        simp [Matches]
  | seq first second ihFirst ihSecond => exact ihFirst.comp ihSecond
  | alt left right ihLeft ihRight => exact ihLeft.union ihRight
  | times body least most ih =>
      -- the number of places bounds the rounds that matter
      refine ((ih.rounds (min least (text.length + 1))).comp (ih.grow _)).congr ?_
      intro start stop inside
      have near {count : Nat} (steps : Repeats (body.Matches text) count start stop) :
          stop < start + (text.length + 1) := by
        have bound := (ih.rounds count).within inside steps
        omega
      rw [Matches, ← repeats_cut Matches.le near]
      simp only [repeats_add]
      grind

/-- An expression is found in a text exactly if it matches a part of it. -/
theorem Expr.isFound_iff {expr : Expr} {text : String} :
    expr.isFound text ↔
      ∃ start ≤ text.toList.length, ∃ stop, expr.Matches text.toList start stop := by
  have moves := expr.ends_moves text.toList
  have whole : (Places.all text.toList).length = text.toList.length + 1 := List.length_replicate
  calc expr.isFound text = true
    _ ↔ ∃ stop, (expr.ends text.toList (Places.all text.toList)).Has stop := by
        simp [isFound, Places.Has, List.mem_iff_getElem?]
    _ ↔ ∃ stop start, start ≤ text.toList.length ∧ expr.Matches text.toList start stop := by
        simp only [moves.has whole, Places.has_all]
    _ ↔ _ := by grind

end Regex

/-! ## Directives -/

namespace Log

/-- A directive decides among some if none before it has a longer name, and all after it have
shorter ones. -/
def Directive.Decides (directive : Directive) (others : List Directive) : Prop :=
  ∃ before after, others = before ++ directive :: after ∧
    (∀ other ∈ before, other.width ≤ directive.width) ∧
    ∀ other ∈ after, other.width < directive.width

theorem Directive.decides_foldl (first : Directive) (rest : List Directive) :
    (rest.foldl narrower first).Decides (first :: rest) := by
  induction rest generalizing first with
  | nil => exact ⟨[], [], rfl, by simp, by simp⟩
  | cons second rest ih =>
      obtain ⟨before, after, split, wider, narrow⟩ := ih (narrower first second)
      rw [List.foldl_cons]
      generalize rest.foldl narrower (narrower first second) = last at split wider narrow ⊢
      rw [narrower] at split
      split_ifs at split with longer
      · -- the second one is passed over, and stands behind the first
        cases before with
        | nil =>
            obtain ⟨rfl, rfl⟩ := List.cons.inj split
            exact ⟨[], second :: rest, rfl, by simp, by grind⟩
        | cons head before =>
            obtain ⟨rfl, rfl⟩ := List.cons.inj split
            exact ⟨first :: second :: before, after, rfl, by grind, narrow⟩
      · have place : second ∈ before ++ last :: after := split ▸ List.mem_cons_self
        have most : second.width ≤ last.width := by grind
        exact ⟨first :: before, after, by rw [split, List.cons_append], by grind, narrow⟩

theorem Directive.Decides.unique {a b : Directive} {others : List Directive}
    (decides : a.Decides others) (alsoDecides : b.Decides others) : a = b := by
  obtain ⟨before, after, rfl, wider, narrow⟩ := decides
  obtain ⟨before', after', split, wider', narrow'⟩ := alsoDecides
  -- of two different ones the later would be both longer and shorter than the other
  rcases List.append_eq_append_iff.mp split with ⟨between, _, rest⟩ | ⟨between, _, rest⟩ <;>
    cases between <;> grind

/-- The directive found for a target is the one that decides among those that hold for it. -/
theorem Directives.directive?_eq_some_iff {given : Directives} {target : String}
    {directive : Directive} :
    given.directive? target = some directive ↔
      directive.Decides (given.directives.filter (·.covers target)) := by
  rw [Directives.directive?]
  cases given.directives.filter (·.covers target) with
  | nil => simp [Directive.Decides]
  | cons first rest =>
      have decides := Directive.decides_foldl first rest
      constructor
      · rintro ⟨⟩
        exact decides
      · exact fun alsoDecides => congrArg some (decides.unique alsoDecides)

/-- A record is shown exactly if the directive that decides about its target allows its level, and
its message has a part that matches the pattern. -/
theorem Directives.shows_iff {given : Directives} {record : Record} :
    given.filter.shows record ↔
      (∃ directive : Directive,
        directive.Decides (given.directives.filter (·.covers record.target)) ∧
          record.level.rank ≤ directive.level.rank) ∧
      ∀ pattern ∈ given.pattern, ∃ start ≤ record.message.toList.length, ∃ stop,
        pattern.Matches record.message.toList start stop := by
  simp only [Directives.filter, Bool.and_eq_true, Option.any_eq_true, Option.all_eq_true,
    Option.mem_def, decide_eq_true_eq, Regex.Expr.isFound_iff, directive?_eq_some_iff]

end Log

end MidiScore
