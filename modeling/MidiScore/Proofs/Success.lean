import Mathlib.Data.List.Forall2

/-!
# Results of steps

Reading, expansion, placement and writing can all fail, and a result is built from the results
of the steps.  These lemmas take a result apart.  In a success each step succeeded, and its value
is named.  A failure is that of some step.
-/

namespace MidiScore

variable {ε α β : Type}

theorem bind_eq_ok {step : Except ε α} {next : α → Except ε β} {result : β} :
    step >>= next = .ok result ↔ ∃ value, step = .ok value ∧ next value = .ok result := by
  cases step with
  | error cause =>
      constructor
      · intro failed
        cases failed
      · rintro ⟨value, failed, -⟩
        cases failed
  | ok value =>
      constructor
      · intro rest
        exact ⟨value, rfl, rest⟩
      · rintro ⟨_, same, rest⟩
        cases same
        exact rest

theorem map_eq_ok {step : Except ε α} {change : α → β} {result : β} :
    step.map change = .ok result ↔ ∃ value, step = .ok value ∧ change value = result := by
  cases step with
  | error cause => simp [Except.map]
  | ok value => simp [Except.map]

theorem mapError_eq_ok {ε' : Type} {step : Except ε α} {change : ε → ε'} {result : α} :
    step.mapError change = .ok result ↔ step = .ok result := by
  cases step with
  | error cause => simp [Except.mapError]
  | ok value => simp [Except.mapError]

theorem not_exists_error_eq_ok {cause : ε} :
    ¬∃ result : α, (.error cause : Except ε α) = .ok result := by
  rintro ⟨result, failed⟩
  cases failed

/-- A list of steps succeeds if every step does, with the list of their values. -/
theorem mapM_eq_ok {step : α → Except ε β} :
    ∀ {inputs : List α} {results : List β},
      inputs.mapM step = .ok results ↔ List.Forall₂ (fun a b => step a = .ok b) inputs results
  | [], results => by
      rw [List.mapM_nil, List.forall₂_nil_left_iff]
      constructor
      · intro same
        cases same
        rfl
      · rintro rfl
        rfl
  | input :: inputs, results => by
      rw [List.mapM_cons, bind_eq_ok]
      constructor
      · rintro ⟨first, firstStep, rest⟩
        obtain ⟨others, otherSteps, same⟩ := bind_eq_ok.mp rest
        cases same
        exact List.Forall₂.cons firstStep (mapM_eq_ok.mp otherSteps)
      · intro steps
        cases steps with
        | cons firstStep otherSteps =>
            exact ⟨_, firstStep, bind_eq_ok.mpr ⟨_, mapM_eq_ok.mpr otherSteps, rfl⟩⟩

theorem mapM_congr {first second : α → Except ε β} {inputs : List α}
    (same : ∀ input ∈ inputs, first input = second input) :
    inputs.mapM first = inputs.mapM second := by
  induction inputs with
  | nil => rfl
  | cons input inputs ih =>
      rw [List.mapM_cons, List.mapM_cons, same input (List.mem_cons_self ..),
        ih fun later member => same later (List.mem_cons_of_mem _ member)]

/-! ## Failures -/

theorem bind_eq_error {step : Except ε α} {next : α → Except ε β} {cause : ε} :
    step >>= next = .error cause ↔
      step = .error cause ∨ ∃ value, step = .ok value ∧ next value = .error cause := by
  cases step with
  | error earlier =>
      constructor
      · intro failed
        cases failed
        exact Or.inl rfl
      · rintro (failed | ⟨value, succeeded, -⟩)
        · cases failed
          rfl
        · cases succeeded
  | ok value =>
      constructor
      · intro failed
        exact Or.inr ⟨value, rfl, failed⟩
      · rintro (failed | ⟨_, same, failed⟩)
        · cases failed
        · cases same
          exact failed

theorem map_eq_error {step : Except ε α} {change : α → β} {cause : ε} :
    step.map change = .error cause ↔ step = .error cause := by
  cases step with
  | error earlier => simp [Except.map]
  | ok value => simp [Except.map]

/-- A list of steps fails as one of them does. -/
theorem exists_of_mapM_eq_error {step : α → Except ε β} {cause : ε} {inputs : List α}
    (failed : inputs.mapM step = .error cause) : ∃ input ∈ inputs, step input = .error cause := by
  induction inputs with
  | nil => cases failed
  | cons input inputs ih =>
      rw [List.mapM_cons] at failed
      rcases bind_eq_error.mp failed with here | ⟨first, -, rest⟩
      · exact ⟨input, List.mem_cons_self .., here⟩
      · rcases bind_eq_error.mp rest with later | ⟨others, -, done⟩
        · obtain ⟨found, member, fails⟩ := ih later
          exact ⟨found, List.mem_cons_of_mem _ member, fails⟩
        · cases done

/-! ## Related lists -/

/-- Of two related lists every member of the second is related to one of the first. -/
theorem exists_of_forall₂_right {related : α → β → Prop} {inputs : List α} {results : List β}
    {result : β} (all : List.Forall₂ related inputs results) (member : result ∈ results) :
    ∃ input ∈ inputs, related input result := by
  induction all with
  | nil => cases member
  | cons first _ ih =>
      rcases List.mem_cons.mp member with rfl | later
      · exact ⟨_, List.mem_cons_self .., first⟩
      · obtain ⟨input, inputMember, holds⟩ := ih later
        exact ⟨input, List.mem_cons_of_mem _ inputMember, holds⟩

theorem exists_forall₂ {related : α → β → Prop} {inputs : List α}
    (each : ∀ input ∈ inputs, ∃ result, related input result) :
    ∃ results, List.Forall₂ related inputs results := by
  induction inputs with
  | nil => exact ⟨[], .nil⟩
  | cons input inputs ih =>
      obtain ⟨first, holds⟩ := each input (List.mem_cons_self ..)
      obtain ⟨others, rest⟩ := ih fun later member => each later (List.mem_cons_of_mem _ member)
      exact ⟨first :: others, .cons holds rest⟩

/-- Of two related lists the members at one index are related. -/
theorem getElem?_of_forall₂ {related : α → β → Prop} {inputs : List α} {results : List β}
    (all : List.Forall₂ related inputs results) {index : Nat} {input : α}
    (found : inputs[index]? = some input) :
    ∃ result, results[index]? = some result ∧ related input result := by
  obtain ⟨inside, rfl⟩ := List.getElem?_eq_some_iff.mp found
  have inside' : index < results.length := all.length_eq ▸ inside
  exact ⟨results[index], List.getElem?_eq_getElem inside', all.get inside inside'⟩

/-- A list of steps succeeds if and only if every step does. -/
theorem exists_mapM_eq_ok {step : α → Except ε β} {inputs : List α} :
    (∃ results, inputs.mapM step = .ok results) ↔
      ∀ input ∈ inputs, ∃ result, step input = .ok result := by
  simp only [mapM_eq_ok]
  constructor
  · rintro ⟨results, steps⟩ input member
    obtain ⟨result, -, holds⟩ := exists_of_forall₂_right steps.flip member
    exact ⟨result, holds⟩
  · exact exists_forall₂

end MidiScore
