import MidiScore.Json.Reader
import MidiScore.Json.Writer
import MidiScore.Proofs.Success
import MidiScore.Value.Reading

/-!
# Reading back JSON texts

*Formats.*  A `Json.Format` is any printer and any reader of values such that the reader undoes the
printer on `Legible` values: those of limited depth whose objects have no two fields of one name.
Which fractional numbers survive differs from format to format, so a format says it itself.

*A format.*  `Json.compact` and `Json.read?` are one (`Json.standard`).  A value is read up to the
character after it, so the lemmas say what a scanner reads from a text with anything behind it that
can stand behind a value (`Stops`).  `Scans` collects what the scanner of a list needs to know about
an item.

*Numbers.*  Texts and whole numbers are proved to survive here.  A fractional number survives if its
own text is read back (`DoubleSurvives`, `SingleSurvives`).  In single precision not every number
does: the text is read in double precision and then rounded once more
(`exists_not_singleSurvives`).
-/

namespace MidiScore

/-- What may be read when a value has been written as a text.  A single precision number is read as
some number that rounds to it, all else as it was. -/
inductive Reread : Value → Value → Prop where
  | same (v : Value) : Reread v v
  | single {x : Float32} {w : Value} : w.readSingle = .ok x → Reread (.single x) w
  | list {items results : List Value} : List.Forall₂ Reread items results →
      Reread (.list items) (.list results)
  | object {fields results : List (String × Value)} :
      fields.map Prod.fst = results.map Prod.fst →
      List.Forall₂ (fun field result => Reread field.2 result.2) fields results →
      Reread (.object fields) (.object results)

namespace Json

/-! ## Formats -/

/-- The values of less than a given depth that can be read back, if the fractional numbers in them
can.  Two fields of one name would become one. -/
inductive Legible (double : Float → Prop) (single : Float32 → Prop) : Nat → Value → Prop where
  | null {depth : Nat} : Legible double single (depth + 1) .null
  | bool {depth : Nat} (b : Bool) : Legible double single (depth + 1) (.bool b)
  | int {depth : Nat} {n : Int} : -0x8000000000000000 ≤ n → n < 0x10000000000000000 →
      Legible double single (depth + 1) (.int n)
  | double {depth : Nat} {x : Float} : double x → Legible double single (depth + 1) (.double x)
  | single {depth : Nat} {x : Float32} : single x → Legible double single (depth + 1) (.single x)
  | text {depth : Nat} (s : String) : Legible double single (depth + 1) (.text s)
  | list {depth : Nat} {items : List Value} :
      (∀ item ∈ items, Legible double single depth item) →
      Legible double single (depth + 1) (.list items)
  | object {depth : Nat} {fields : List (String × Value)} :
      (∀ field ∈ fields, Legible double single depth field.2) → (fields.map Prod.fst).Nodup →
      Legible double single (depth + 1) (.object fields)

/-- A printer and a reader of JSON, with what can be relied on: a value that nests at most 127 deep
is read back if its fractional numbers survive. -/
structure Format where
  print : Value → String
  read? : String → Option Value
  /-- The double precision numbers that survive. -/
  double : Float → Prop
  /-- The single precision numbers that survive. -/
  single : Float32 → Prop
  rereads : ∀ {v : Value}, Legible double single 128 v →
    ∃ w, read? (print v) = some w ∧ Reread v w

/-- The values of less than a given depth that can be read back in a format. -/
abbrev Format.Legible (format : Format) : Nat → Value → Prop :=
  Json.Legible format.double format.single

/-! ## Numbers -/

/-- A value ends before a comma or a closing bracket, or with the text. -/
def Stops (rest : List Char) : Prop := ∀ c ∈ rest.head?, c = ',' ∨ c = ']' ∨ c = '\x7d'

/-- The digits of a number end where its value does. -/
theorem Stops.takeWhile_isDigit {rest : List Char} (stops : Stops rest) :
    rest.takeWhile Char.isDigit = [] := by
  cases rest with
  | nil => rfl
  | cons c rest =>
      rcases stops c rfl with rfl | rfl | rfl <;> rfl

/-- What a scanner reads does not depend on what follows, as long as that cannot go on with it. -/
def Stable {α : Type} (scan : Scanner α) : Prop :=
  ∀ {cs : List Char} {x : α} {left rest : List Char}, Stops rest →
    scan cs = some (x, left) → scan (cs ++ rest) = some (x, left ++ rest)

theorem Stable.map {α β : Type} {scan : Scanner α} (stable : Stable scan) (change : α → β) :
    Stable fun cs => (scan cs).map fun read => (change read.1, read.2) := by
  intro cs y left rest stops read
  obtain ⟨⟨x, left⟩, found, same⟩ := Option.map_eq_some_iff.mp read
  cases same
  exact Option.map_eq_some_iff.mpr ⟨_, stable stops found, rfl⟩

/-- A run of digits reads the same before anything that a value can end with. -/
theorem digits_stable : Stable digits := by
  intro cs ds left rest stops read
  obtain ⟨nonempty, rfl, rfl⟩ : (cs.takeWhile Char.isDigit).isEmpty = false ∧
      cs.takeWhile Char.isDigit = ds ∧ cs.dropWhile Char.isDigit = left := by
    simpa [digits, Scanner.run, and_assoc] using read
  have taken : (cs ++ rest).takeWhile Char.isDigit = cs.takeWhile Char.isDigit := by
    rw [List.takeWhile_append, stops.takeWhile_isDigit, List.append_nil]
    split
    next whole => exact ((List.takeWhile_prefix _).eq_of_length whole).symm
    next => rfl
  have dropped : (cs ++ rest).dropWhile Char.isDigit = cs.dropWhile Char.isDigit ++ rest := by
    apply (List.append_right_inj ((cs ++ rest).takeWhile Char.isDigit)).mp
    rw [List.takeWhile_append_dropWhile, taken, ← List.append_assoc,
      List.takeWhile_append_dropWhile]
  simp [digits, Scanner.run, taken, dropped, nonempty]

theorem wholeDigits_stable : Stable wholeDigits := by
  intro cs ds left rest stops read
  cases cs with
  | nil => cases read
  | cons c cs =>
      by_cases zero : c = '0'
      · subst zero
        cases read
        rfl
      · have plain (tail : List Char) : wholeDigits (c :: tail) = digits (c :: tail) := by
          simp [wholeDigits, zero]
        rw [plain] at read
        rw [List.cons_append, plain]
        exact digits_stable stops read

theorem fractionDigits_stable : Stable fractionDigits := by
  intro cs ds left rest stops read
  cases cs with
  | nil =>
      cases read
      cases rest with
      | nil => rfl
      | cons c rest => rcases stops c rfl with rfl | rfl | rfl <;> rfl
  | cons c cs =>
      by_cases point : c = '.'
      · subst point
        exact digits_stable.map some stops read
      · have plain (tail : List Char) : fractionDigits (c :: tail) = some (none, c :: tail) := by
          simp [fractionDigits, point]
        rw [plain] at read
        cases read
        exact plain _

theorem exponentDigits_stable : Stable exponentDigits := by
  intro cs e left rest stops read
  cases cs with
  | nil => cases read
  | cons c cs =>
      by_cases minus : c = '-'
      · subst minus
        exact digits_stable.map (fun ds => -(Scanner.numeral 10 ds : Int)) stops read
      by_cases plus : c = '+'
      · subst plus
        exact digits_stable.map (fun ds => (Scanner.numeral 10 ds : Int)) stops read
      · have plain (tail : List Char) : exponentDigits (c :: tail) =
            (digits (c :: tail)).map fun read => ((Scanner.numeral 10 read.1 : Int), read.2) := by
          simp [exponentDigits, minus, plus]
        rw [plain] at read
        rw [List.cons_append, plain]
        exact digits_stable.map (fun ds => (Scanner.numeral 10 ds : Int)) stops read

theorem exponent_stable : Stable exponent := by
  intro cs e left rest stops read
  cases cs with
  | nil =>
      cases read
      cases rest with
      | nil => rfl
      | cons c rest => rcases stops c rfl with rfl | rfl | rfl <;> rfl
  | cons c cs =>
      by_cases small : c = 'e'
      · subst small
        exact exponentDigits_stable.map some stops read
      by_cases large : c = 'E'
      · subst large
        exact exponentDigits_stable.map some stops read
      · have plain (tail : List Char) : exponent (c :: tail) = some (none, c :: tail) := by
          simp [exponent, small, large]
        rw [plain] at read
        cases read
        exact plain _

/-- A whole number or a fractional one reads the same before anything that a value can end
with. -/
theorem number_stable : Stable number := by
  intro cs v left rest stops read
  cases cs with
  | nil => cases read
  | cons c cs =>
      simp only [number, Option.bind_eq_bind, Option.bind_eq_some_iff] at read
      obtain ⟨⟨whole, afterWhole⟩, wholeRead, ⟨part, afterPart⟩, partRead, ⟨power, afterPower⟩,
        powerRead, value, valueRead, same⟩ := read
      cases same
      have wholeRead' := wholeDigits_stable stops wholeRead
      have partRead' := fractionDigits_stable stops partRead
      have powerRead' := exponent_stable stops powerRead
      rw [apply_ite (· ++ rest)] at wholeRead'
      simp only [number, List.cons_append, Option.bind_eq_bind, Option.bind_eq_some_iff]
      exact ⟨_, wholeRead', _, partRead', _, powerRead', _, valueRead, rfl⟩

/-- A number starts with a minus sign or a digit, so no other kind of value is taken for one. -/
theorem number_head {cs left : List Char} {v : Value} (read : number cs = some (v, left)) :
    ∃ c tail, cs = c :: tail ∧ (c = '-' ∨ c.isDigit) := by
  cases cs with
  | nil => cases read
  | cons c cs =>
      refine ⟨c, cs, rfl, or_iff_not_imp_left.mpr fun positive => ?_⟩
      simp only [number, List.head?_cons, Option.some.injEq, positive, decide_false, ↓reduceIte,
        Option.bind_eq_bind, Option.bind_eq_some_iff] at read
      obtain ⟨⟨whole, left⟩, wholeRead, -⟩ := read
      by_cases zero : c = '0'
      · rw [zero]
        rfl
      · by_contra other
        simp [wholeDigits, zero, digits, Scanner.run, other] at wholeRead

/-! ## Whole numbers -/

theorem hexValue?_digit {c : Char} (digit : c.isDigit) :
    Scanner.hexValue? c = some (c.toNat - '0'.toNat) := by
  have bounds : '0' ≤ c ∧ c ≤ '9' := by
    simpa [Char.isDigit, Char.le_def] using digit
  simp [Scanner.hexValue?, bounds]

/-- The two ways to add up digits agree. -/
theorem numeral_digits {ds : List Char} (allDigits : ∀ c ∈ ds, c.isDigit) :
    Scanner.numeral 10 ds = Nat.ofDigitChars 10 ds 0 := by
  rw [Scanner.numeral, Nat.ofDigitChars_eq_foldl]
  refine List.foldl_ext _ _ 0 fun n c member => ?_
  rw [hexValue?_digit (allDigits c member), Option.getD_some, Nat.mul_comm]

theorem numeral_toDigits (n : Nat) : Scanner.numeral 10 (Nat.toDigits 10 n) = n := by
  rw [numeral_digits fun c => Nat.isDigit_of_mem_toDigits (by decide) (by decide),
    Nat.ofDigitChars_ten_toDigits]

/-- Only zero has a leading zero. -/
theorem toDigits_head {n : Nat} (zero : (Nat.toDigits 10 n).head? = some '0') : n = 0 := by
  induction n using Nat.strongRecOn with
  | ind n ih =>
      rw [Nat.toDigits_eq_if (by decide)] at zero
      split at zero
      next small =>
          have digit : n.digitChar = '0' := by simpa using zero
          exact (by decide : ∀ m < 10, m.digitChar = '0' → m = 0) n small digit
      next large =>
          rw [List.head?_append_of_ne_nil _ Nat.toDigits_ne_nil] at zero
          have := ih (n / 10) (by omega) zero
          omega

/-- The digits of a number are all taken. -/
theorem wholeDigits_toDigits (n : Nat) :
    wholeDigits (Nat.toDigits 10 n) = some (Nat.toDigits 10 n, []) := by
  by_cases zero : n = 0
  · subst zero
    rfl
  · have plain : wholeDigits (Nat.toDigits 10 n) = digits (Nat.toDigits 10 n) := by
      rw [wholeDigits]
      rintro cs same
      exact zero (toDigits_head (by rw [same]; rfl))
    have digit : ∀ c ∈ Nat.toDigits 10 n, c.isDigit := fun c =>
      Nat.isDigit_of_mem_toDigits (by decide) (by decide)
    have taken : (Nat.toDigits 10 n ++ []).takeWhile Char.isDigit = _ :=
      List.takeWhile_append_of_pos digit
    have dropped : (Nat.toDigits 10 n ++ []).dropWhile Char.isDigit = _ :=
      List.dropWhile_append_of_pos digit
    rw [List.append_nil] at taken dropped
    simp [plain, digits, Scanner.run, taken, dropped, Nat.toDigits_ne_nil]

theorem number_toDigits (n : Nat) :
    number (Nat.toDigits 10 n) = some (wholeValue false (Nat.toDigits 10 n), []) := by
  have positive : (Nat.toDigits 10 n).head? ≠ some '-' := by
    intro minus
    have digit := Nat.isDigit_of_mem_toDigits (by decide) (by decide) (List.mem_of_head? minus)
    cases digit
  simp only [number, positive, decide_false, if_false, wholeDigits_toDigits]
  rfl

theorem number_minus_toDigits (n : Nat) :
    number ('-' :: Nat.toDigits 10 n) = some (wholeValue true (Nat.toDigits 10 n), []) := by
  simp only [number, List.head?_cons, decide_true, if_true, List.drop_one, List.tail_cons,
    wholeDigits_toDigits]
  rfl

/-- The whole numbers that fit a signed or an unsigned 64-bit word are read back. -/
theorem number_toString {n : Int} (low : -0x8000000000000000 ≤ n)
    (high : n < 0x10000000000000000) : number (toString n).toList = some (.int n, []) := by
  cases n with
  | ofNat n =>
      have text : (toString (Int.ofNat n)).toList = Nat.toDigits 10 n := Nat.toList_repr
      have small : n < 0x10000000000000000 := by
        rw [Int.ofNat_eq_natCast] at high
        omega
      rw [text, number_toDigits, wholeValue, numeral_toDigits]
      simp [small]
  | negSucc n =>
      have text : (toString (Int.negSucc n)).toList = '-' :: Nat.toDigits 10 (n + 1) := by
        show ("-" ++ (n + 1).repr).toList = _
        simp [String.toList_append, Nat.toList_repr]
      have small : ¬0x8000000000000000 < n + 1 := by omega
      rw [text, number_minus_toDigits, wholeValue, numeral_toDigits]
      simp [small, Int.negSucc_eq]

/-! ## Texts -/

/-- A control character is written with four hexadecimal digits, of which two are zeros. -/
theorem hex_control {n : Nat} (control : n < 32) (tail : List Char) :
    Scanner.hex 4 ('0' :: '0' :: hexDigit (n / 16) :: hexDigit (n % 16) :: tail) =
      some (n, tail) := by
  have table : ∀ n < 32, ['0', '0', hexDigit (n / 16), hexDigit (n % 16)].all
        (fun c => (Scanner.hexValue? c).isSome) = true ∧
      Scanner.numeral 16 ['0', '0', hexDigit (n / 16), hexDigit (n % 16)] = n := by
    decide
  obtain ⟨digits, value⟩ := table n control
  simp only [Scanner.hex, List.take_succ_cons, List.take_zero, List.drop_succ_cons, List.drop_zero,
    digits, value]
  rfl

/-- The escape of a control character stands for it, being no half of a surrogate pair. -/
theorem unicode_control {c : Char} (control : c < ' ') (tail : List Char) :
    unicode ('0' :: '0' :: hexDigit (c.toNat / 16) :: hexDigit (c.toNat % 16) :: tail) =
      some (c, tail) := by
  have small : c.toNat < 32 := control
  have valid : c.toNat.isValidChar := Or.inl (by omega)
  have code : Scanner.charOf? c.toNat = some c := by
    rw [Scanner.charOf?, if_pos valid, Char.ofNat_toNat]
  have whole : ¬(0xD800 ≤ c.toNat ∧ c.toNat ≤ 0xDBFF) := by omega
  simp [unicode, hex_control small, whole, code]

/-- An escaped character takes one step. -/
theorem stringBody_escape (fuel : Nat) (done : List Char) (c : Char) (tail : List Char) :
    stringBody (fuel + 1) done (escape c ++ tail) = stringBody fuel (c :: done) tail := by
  unfold escape
  split
  next quote => subst quote; rfl
  split
  next backslash => subst backslash; rfl
  split
  next newLine => subst newLine; rfl
  split
  next lineEnd => subst lineEnd; rfl
  split
  next tab => subst tab; rfl
  split
  next backspace => subst backspace; rfl
  split
  next formFeed => subst formFeed; rfl
  split
  next control => simp [stringBody, unicode_control control]
  next notQuote notBackslash _ _ _ _ _ notControl =>
      simp [stringBody, notQuote, notBackslash, notControl]

/-- The escaped characters of a text are read one by one up to the closing quote. -/
theorem stringBody_escaped {fuel : Nat} {cs : List Char} (enough : cs.length < fuel)
    (done rest : List Char) :
    stringBody fuel done (cs.flatMap escape ++ '"' :: rest) =
      some (String.ofList (done.reverse ++ cs), rest) := by
  induction cs generalizing fuel done with
  | nil =>
      obtain ⟨fuel, rfl⟩ := Nat.exists_eq_add_one_of_ne_zero (Nat.ne_of_gt enough)
      simp [stringBody]
  | cons c cs ih =>
      obtain ⟨fuel, rfl⟩ := Nat.exists_eq_add_one_of_ne_zero
        (Nat.ne_of_gt (Nat.zero_lt_of_lt enough))
      rw [List.flatMap_cons, List.append_assoc, stringBody_escape,
        ih (Nat.lt_of_succ_lt_succ enough)]
      simp

theorem toList_quote (s : String) :
    (quote s).toList = '"' :: (s.toList.flatMap escape ++ ['"']) := by
  simp [quote, String.toList_append]

theorem escape_ne_nil (c : Char) : escape c ≠ [] := by
  unfold escape
  repeat' split
  all_goals simp

/-- A quoted text is longer than the text, so the length of the input is enough fuel. -/
theorem length_lt_quote (s : String) : s.toList.length < (quote s).toList.length := by
  have grows : ∀ cs : List Char, cs.length ≤ (cs.flatMap escape).length := by
    intro cs
    induction cs with
    | nil => exact Nat.le_refl 0
    | cons c cs ih =>
        have positive := List.length_pos_iff.mpr (escape_ne_nil c)
        rw [List.flatMap_cons, List.length_append, List.length_cons]
        omega
  have escaped := grows s.toList
  rw [toList_quote, List.length_cons, List.length_append]
  omega

/-- A quoted text is read back whatever follows it. -/
theorem string_quote {size : Nat} {s : String} (enough : (quote s).toList.length < size)
    (rest : List Char) : string size ((quote s).toList ++ rest) = some (s, rest) := by
  have body := stringBody_escaped (Nat.lt_trans (length_lt_quote s) enough) [] rest
  simpa [toList_quote, string] using body

/-! ## Lists and objects -/

/-- A scanner reads a text as `x` wherever the text stands in a list or an object.  The text starts
neither with a blank nor as if the list were over. -/
structure Scans {α : Type} (scan : Scanner α) (text : List Char) (x : α) : Prop where
  head : ∃ c tail, text = c :: tail ∧ c ∉ [' ', '\t', '\n', '\r', ']', '\x7d']
  reads : ∀ rest, Stops rest → scan (text ++ rest) = some (x, rest)

theorem skipBlank_cons {c : Char} (dark : c ∉ [' ', '\t', '\n', '\r']) (tail : List Char) :
    skipBlank (c :: tail) = c :: tail := by
  simp_all [skipBlank]

theorem Scans.skipBlank {α : Type} {scan : Scanner α} {text : List Char} {x : α}
    (scans : Scans scan text x) (rest : List Char) :
    skipBlank (text ++ rest) = text ++ rest := by
  obtain ⟨c, tail, rfl, dark⟩ := scans.head
  exact skipBlank_cons (by simp_all) _

section
variable {α : Type} {item : Scanner α} {close : Char}

theorem skipBlank_close (closing : close = ']' ∨ close = '\x7d') (tail : List Char) :
    skipBlank (close :: tail) = close :: tail := by
  rcases closing with rfl | rfl <;> rfl

/-- Items divided by commas are read one after another up to the closing bracket. -/
theorem items_scans (closing : close = ']' ∨ close = '\x7d') {part : List Char} {x : α}
    {parts : List (List Char)} {xs : List α} (first : Scans item part x)
    (others : List.Forall₂ (Scans item) parts xs) {fuel : Nat} (enough : parts.length < fuel)
    (rest : List Char) :
    Scanner.items close false Json.skipBlank item fuel
      ([','].intercalate (part :: parts) ++ close :: rest) = some (x :: xs, rest) := by
  have stops : Stops (close :: rest) := by
    intro c same
    cases same
    exact Or.inr closing
  have notComma : close ≠ ',' := by
    rcases closing with rfl | rfl <;> decide
  induction others generalizing part x fuel with
  | nil =>
      obtain ⟨fuel, rfl⟩ := Nat.exists_eq_add_one_of_ne_zero (Nat.ne_of_gt enough)
      simp [Scanner.items, first.skipBlank, first.reads _ stops,
        skipBlank_close closing]
  | @cons next y parts xs second _ ih =>
      obtain ⟨fuel, rfl⟩ := Nat.exists_eq_add_one_of_ne_zero
        (Nat.ne_of_gt (Nat.zero_lt_of_lt enough))
      have comma : Stops (',' :: ([','].intercalate (next :: parts) ++ close :: rest)) := by
        intro c same
        cases same
        exact Or.inl rfl
      have later := ih second (Nat.lt_of_succ_lt_succ enough)
      simp [List.intercalate_cons_cons, Scanner.items, first.skipBlank, first.reads _ comma,
        skipBlank_cons, later]

theorem exists_intercalate_eq_append (part : List Char) (parts : List (List Char))
    (rest : List Char) : ∃ more, [','].intercalate (part :: parts) ++ rest = part ++ more := by
  cases parts with
  | nil => exact ⟨rest, by simp⟩
  | cons next parts =>
      rw [List.intercalate_cons_cons, List.append_assoc, List.append_assoc]
      exact ⟨_, rfl⟩

/-- So are no items at all. -/
theorem itemsOrNone_scans (closing : close = ']' ∨ close = '\x7d') {parts : List (List Char)}
    {xs : List α} (all : List.Forall₂ (Scans item) parts xs) {size : Nat}
    (enough : parts.length ≤ size) (rest : List Char) :
    Scanner.itemsOrNone close false Json.skipBlank item size
      ([','].intercalate parts ++ close :: rest) = some (xs, rest) := by
  cases all with
  | nil =>
      simp [Scanner.itemsOrNone, skipBlank_close closing]
  | cons first others =>
      have read := items_scans closing first others enough rest
      obtain ⟨c, tail, rfl, dark⟩ := first.head
      have other : c ≠ close := by
        rcases closing with rfl | rfl <;> simp_all
      obtain ⟨more, text⟩ := exists_intercalate_eq_append (c :: tail) _ (close :: rest)
      rw [text] at read ⊢
      simp only [List.cons_append] at read ⊢
      rw [Scanner.itemsOrNone, skipBlank_cons (by simp_all)]
      simpa [other] using read

end

/-- A field is its quoted name, a colon and its value. -/
theorem member_scans {size : Nat} {value : Scanner Value} {name : String} {text : List Char}
    {v : Value} (enough : (quote name).toList.length < size) (scans : Scans value text v) :
    Scans (member size value) ((quote name).toList ++ ':' :: text) (name, v) where
  head := ⟨'"', _, by rw [toList_quote]; rfl, by decide⟩
  reads := by
    intro rest stops
    rw [List.append_assoc, List.cons_append]
    simp [member, string_quote enough, skipBlank_cons, scans.skipBlank, scans.reads _ stops]

/-! ## Sizes -/

/-- A part is no longer than the whole. -/
theorem length_le_intercalate {part : List Char} {parts : List (List Char)}
    (member : part ∈ parts) : part.length ≤ ([','].intercalate parts).length := by
  induction parts with
  | nil => cases member
  | cons first parts ih =>
      cases parts with
      | nil =>
          cases List.mem_singleton.mp member
          simp
      | cons next parts =>
          rw [List.intercalate_cons_cons, List.length_append, List.length_append]
          rcases List.mem_cons.mp member with rfl | later
          · omega
          · have := ih later
            omega

theorem count_le_intercalate (parts : List (List Char)) :
    parts.length ≤ ([','].intercalate parts).length + 1 := by
  induction parts with
  | nil => exact Nat.zero_le _
  | cons first parts ih =>
      cases parts with
      | nil => simp
      | cons next parts =>
          rw [List.intercalate_cons_cons, List.length_append, List.length_append, List.length_cons]
          simp only [List.length_singleton]
          omega

/-- The text of a list. -/
theorem toList_compact_list (items : List Value) :
    (compact (.list items)).toList =
      '[' :: ([','].intercalate (items.map fun item => (compact item).toList) ++ [']']) := by
  have parts : compactItems items = items.map compact := by
    induction items with
    | nil => rfl
    | cons item items ih => rw [compactItems, ih, List.map_cons]
  simp [compact, parts, String.toList_append, String.toList_intercalate, Function.comp_def]

/-- The characters of a field. -/
def fieldText (field : String × Value) : List Char :=
  (quote field.1).toList ++ ':' :: (compact field.2).toList

/-- The text of an object. -/
theorem toList_compact_object (fields : List (String × Value)) :
    (compact (.object fields)).toList =
      '\x7b' :: ([','].intercalate (fields.map fieldText) ++ ['\x7d']) := by
  have parts : compactFields fields =
      fields.map fun field => quote field.1 ++ ":" ++ compact field.2 := by
    induction fields with
    | nil => rfl
    | cons field fields ih => rw [compactFields, ih, List.map_cons]
  have texts : fields.map fieldText =
      (fields.map fun field => quote field.1 ++ ":" ++ compact field.2).map String.toList := by
    simp [fieldText]
  simp only [compact, parts, texts, String.toList_append, String.toList_intercalate]
  rfl

theorem length_lt_list {items : List Value} {item : Value} (member : item ∈ items) :
    (compact item).toList.length < (compact (.list items)).toList.length := by
  have within := length_le_intercalate
    (List.mem_map_of_mem (f := fun item => (compact item).toList) member)
  rw [toList_compact_list, List.length_cons, List.length_append]
  omega

theorem length_lt_object {fields : List (String × Value)} {field : String × Value}
    (member : field ∈ fields) :
    (fieldText field).length < (compact (.object fields)).toList.length := by
  have within := length_le_intercalate (List.mem_map_of_mem (f := fieldText) member)
  rw [toList_compact_object, List.length_cons, List.length_append]
  omega

/-! ## Values -/

/-- The text of a double precision number is a number, and that number. -/
def DoubleSurvives (x : Float) : Prop :=
  number (compact (.double x)).toList = some (.double x, [])

/-- The text of a single precision number is a number, which rounds to it. -/
def SingleSurvives (x : Float32) : Prop :=
  ∃ w, number (compact (.single x)).toList = some (w, []) ∧ w.readSingle = .ok x

/-- Not every finite number survives.  The text here lies just below the middle between the number
and its upper neighbour, and the nearest double precision number is the middle itself. -/
theorem exists_not_singleSurvives : ∃ x : Float32, x.isFinite ∧ ¬SingleSurvives x := by
  refine ⟨.ofBits 0x15ae43fd, rfl, ?_⟩
  rintro ⟨w, read, rounds⟩
  have text : (compact (.single (.ofBits 0x15ae43fd))).toList = "7.038531e-26".toList := rfl
  have wide : number "7.038531e-26".toList = some (.double 7.038531e-26, []) := rfl
  have neighbour : (Binary.ofDouble 7.038531e-26).toSingle = .ofBits 0x15ae43fe := rfl
  rw [text, wide] at read
  cases read
  rw [Value.readSingle, neighbour] at rounds
  exact absurd rounds (by decide)

/-- What is a number by itself is one as a value in a list or an object. -/
theorem number_scans {text : List Char} {w : Value} (read : number text = some (w, []))
    (size depth : Nat) : Scans (value size (depth + 1)) text w := by
  obtain ⟨c, tail, rfl, head⟩ := number_head read
  refine ⟨⟨c, tail, rfl, ?_⟩, ?_⟩
  · intro member
    simp only [List.mem_cons, List.not_mem_nil, or_false] at member
    rcases member with rfl | rfl | rfl | rfl | rfl | rfl <;> simp at head
  · intro rest stops
    have dispatch : value size (depth + 1) (c :: tail ++ rest) = number (c :: tail ++ rest) := by
      rw [List.cons_append, value]
      all_goals
        intro tail same
        cases (List.cons.inj same).1
        simp at head
    rw [dispatch, number_stable stops read]
    rfl

theorem setField_of_notMem {name : String} (v : Value) {fields : List (String × Value)}
    (fresh : name ∉ fields.map Prod.fst) :
    Value.setField name v fields = fields ++ [(name, v)] := by
  induction fields with
  | nil => rfl
  | cons field fields ih =>
      rw [List.map_cons, List.mem_cons, not_or] at fresh
      rw [Value.setField, if_neg (Ne.symm fresh.1), ih fresh.2]
      rfl

/-- Fields of distinct names are kept in their order. -/
theorem foldl_setField (done : List (String × Value)) {fields : List (String × Value)}
    (distinct : ((done ++ fields).map Prod.fst).Nodup) :
    fields.foldl (fun done (name, v) => Value.setField name v done) done = done ++ fields := by
  induction fields generalizing done with
  | nil => simp
  | cons field fields ih =>
      obtain ⟨name, v⟩ := field
      have fresh : name ∉ done.map Prod.fst := by
        intro member
        rw [List.map_append, List.nodup_append] at distinct
        exact distinct.2.2 _ member _ (List.mem_cons_self ..) rfl
      rw [List.foldl_cons]
      show fields.foldl _ (Value.setField name v done) = _
      rw [setField_of_notMem v fresh, ih _ (by simpa using distinct), List.append_assoc]
      rfl

/-- A list is read if its items are. -/
theorem list_scans {size depth : Nat} {items results : List Value}
    (enough : (compact (.list items)).toList.length < size)
    (each : List.Forall₂ (fun item w => Scans (value size depth) (compact item).toList w)
      items results) :
    Scans (value size (depth + 1)) (compact (.list items)).toList (.list results) := by
  have text := toList_compact_list items
  have count := count_le_intercalate (items.map fun item => (compact item).toList)
  rw [text, List.length_cons, List.length_append] at enough
  refine ⟨⟨'[', _, text, by decide⟩, fun rest _ => ?_⟩
  have scans : List.Forall₂ (Scans (value size depth))
      (items.map fun item => (compact item).toList) results := List.forall₂_map_left_iff.mpr each
  have read := itemsOrNone_scans (Or.inl rfl) scans (show _ ≤ size by omega) rest
  rw [text, List.cons_append, List.append_assoc, List.singleton_append, value, read]
  rfl

/-- An object is read if its fields are and their names differ. -/
theorem object_scans {size depth : Nat} {fields results : List (String × Value)}
    (enough : (compact (.object fields)).toList.length < size)
    (distinct : (results.map Prod.fst).Nodup)
    (each : List.Forall₂ (fun field result =>
      Scans (member size (value size depth)) (fieldText field) result) fields results) :
    Scans (value size (depth + 1)) (compact (.object fields)).toList (.object results) := by
  have text := toList_compact_object fields
  have count := count_le_intercalate (fields.map fieldText)
  rw [text, List.length_cons, List.length_append] at enough
  refine ⟨⟨'\x7b', _, text, by decide⟩, fun rest _ => ?_⟩
  have scans : List.Forall₂ (Scans (member size (value size depth)))
      (fields.map fieldText) results := List.forall₂_map_left_iff.mpr each
  have read := itemsOrNone_scans (Or.inr rfl) scans (show _ ≤ size by omega) rest
  have kept := foldl_setField [] distinct
  rw [text, List.cons_append, List.append_assoc, List.singleton_append, value, read]
  simp only [Option.map_some, kept, List.nil_append]

/-- A legible value is read from its text, within any list or object. -/
theorem value_compact {size depth : Nat} {v : Value}
    (legible : Legible DoubleSurvives SingleSurvives depth v)
    (enough : (compact v).toList.length < size) :
    ∃ w, Reread v w ∧ Scans (value size depth) (compact v).toList w := by
  induction legible with
  | null => exact ⟨.null, .same _, ⟨'n', _, rfl, by decide⟩, fun _ _ => rfl⟩
  | bool b =>
      refine ⟨.bool b, .same _, ?_⟩
      cases b with
      | true => exact ⟨⟨'t', _, rfl, by decide⟩, fun _ _ => rfl⟩
      | false => exact ⟨⟨'f', _, rfl, by decide⟩, fun _ _ => rfl⟩
  | @int _ n low high => exact ⟨.int n, .same _, number_scans (number_toString low high) ..⟩
  | @double _ x survives => exact ⟨.double x, .same _, number_scans survives ..⟩
  | single survives =>
      obtain ⟨w, read, rounds⟩ := survives
      exact ⟨w, .single rounds, number_scans read ..⟩
  | text s =>
      refine ⟨.text s, .same _, ⟨'"', _, toList_quote s, by decide⟩, fun rest _ => ?_⟩
      have read := string_quote enough rest
      show value size _ ((quote s).toList ++ rest) = _
      rw [toList_quote, List.cons_append] at read ⊢
      rw [value, read]
      rfl
  | @list depth items _ ih =>
      have each : ∀ item ∈ items, ∃ w, Reread item w ∧
          Scans (value size depth) (compact item).toList w := by
        intro item member
        exact ih item member (Nat.lt_trans (length_lt_list member) enough)
      obtain ⟨results, all⟩ := exists_forall₂ each
      exact ⟨.list results, .list (all.imp fun _ _ both => both.1),
        list_scans enough (all.imp fun _ _ both => both.2)⟩
  | @object depth fields _ distinct ih =>
      have each : ∀ field ∈ fields, ∃ result : String × Value,
          (field.1 = result.1 ∧ Reread field.2 result.2) ∧
            Scans (member size (value size depth)) (fieldText field) result := by
        intro field member
        have within := length_lt_object member
        rw [fieldText, List.length_append, List.length_cons] at within
        obtain ⟨w, reread, scans⟩ := ih field member (by omega)
        exact ⟨(field.1, w), ⟨rfl, reread⟩, member_scans (by omega) scans⟩
      obtain ⟨results, all⟩ := exists_forall₂ each
      have names : fields.map Prod.fst = results.map Prod.fst := by
        rw [← List.forall₂_eq_eq_eq, List.forall₂_map_left_iff, List.forall₂_map_right_iff]
        exact all.imp fun _ _ both => both.1.1
      exact ⟨.object results, .object names (all.imp fun _ _ both => both.1.2),
        object_scans enough (names ▸ distinct) (all.imp fun _ _ both => both.2)⟩

/-- A value that nests at most 127 deep is read back. -/
theorem read?_compact {v : Value} (legible : Legible DoubleSurvives SingleSurvives 128 v) :
    ∃ w, read? (compact v) = some w ∧ Reread v w := by
  have enough : (compact v).toList.length < (compact v).length + 1 := by
    rw [String.length_toList]
    exact Nat.lt_succ_self _
  obtain ⟨w, reread, scans⟩ := value_compact legible enough
  refine ⟨w, ?_, reread⟩
  have start := scans.skipBlank []
  have read := scans.reads [] fun c none => nomatch none
  rw [List.append_nil] at start read
  rw [read?, start, read]
  rfl

/-- The compact text of a value and its reader are a format. -/
def standard : Format where
  print := compact
  read? := read?
  double := DoubleSurvives
  single := SingleSurvives
  rereads := read?_compact

end Json

end MidiScore
