import Mathlib.Data.List.Forall2

/-!
# Steps that may fail

What can fail is written as steps in a row, or as one step for each item of a list. Such a run
succeeds just when all of its steps do, and otherwise it ends with the failure of the first one that
fails; the steps behind that one are not taken. These laws hold of any kind of failure, so they say
nothing about what a failure tells.
-/

namespace TextDecoration

section Steps

variable {ε α β : Type}

/-- Steps in a row succeed just when each of them does, the second one on the value of the first. -/
theorem bind_eq_ok {first : Except ε α} {next : α → Except ε β} {result : β} :
    (first >>= next) = .ok result ↔ ∃ value, first = .ok value ∧ next value = .ok result := by
  cases first with
  | error error =>
    constructor
    · intro failed
      cases failed
    · rintro ⟨value, failed, _⟩
      cases failed
  | ok value =>
    constructor
    · exact fun succeeded => ⟨value, rfl, succeeded⟩
    · rintro ⟨_, same, succeeded⟩
      cases same
      exact succeeded

/-- Steps in a row fail with the failure of the first one, or else with that of the second one. The
second one is taken only if the first succeeds, so there is one failure to tell. -/
theorem bind_eq_error {first : Except ε α} {next : α → Except ε β} {failure : ε} :
    (first >>= next) = .error failure ↔
      first = .error failure ∨ ∃ value, first = .ok value ∧ next value = .error failure := by
  cases first with
  | error error =>
    constructor
    · intro failed
      cases failed
      exact Or.inl rfl
    · rintro (failed | ⟨value, succeeded, _⟩)
      · cases failed
        rfl
      · cases succeeded
  | ok value =>
    constructor
    · exact fun failed => Or.inr ⟨value, rfl, failed⟩
    · rintro (failed | ⟨_, same, failed⟩)
      · cases failed
      · cases same
        exact failed

/-- What is made of the value of a step is there exactly if the step succeeds: to make it cannot
fail. -/
theorem map_eq_ok {step : Except ε α} {make : α → β} {result : β} :
    make <$> step = .ok result ↔ ∃ value, step = .ok value ∧ result = make value := by
  cases step with
  | error fault =>
    constructor
    · intro done
      cases done
    · rintro ⟨value, failed, _⟩
      cases failed
  | ok value =>
    constructor
    · rintro ⟨⟩
      exact ⟨value, rfl, rfl⟩
    · rintro ⟨_, ⟨⟩, rfl⟩
      rfl

/-- To tell a failure in another way makes no success of it, and no failure of a success. -/
theorem mapError_eq_ok {φ : Type} {step : Except ε α} {tell : ε → φ} {value : α} :
    step.mapError tell = .ok value ↔ step = .ok value := by
  cases step with
  | error fault => constructor <;> intro succeeded <;> cases succeeded
  | ok own => constructor <;> intro succeeded <;> cases succeeded <;> rfl

end Steps

section Traversal

variable {ε α β : Type} {step : α → Except ε β} {items : List α}

/-- A traversal succeeds with the results of its steps, item by item and in the order of the
items. -/
theorem mapM_eq_ok_iff {results : List β} :
    items.mapM step = .ok results ↔
      List.Forall₂ (fun item result => step item = .ok result) items results := by
  induction items generalizing results with
  | nil =>
    rw [List.mapM_nil, List.forall₂_nil_left_iff]
    constructor
    · rintro ⟨⟩
      rfl
    · rintro rfl
      rfl
  | cons item later inductionHypothesis =>
    rw [List.mapM_cons, List.forall₂_cons_left_iff]
    simp only [bind_eq_ok, inductionHypothesis]
    constructor
    · rintro ⟨result, first, rest, others, ⟨⟩⟩
      exact ⟨result, rest, first, others, rfl⟩
    · rintro ⟨result, rest, first, others, rfl⟩
      exact ⟨result, first, rest, others, rfl⟩

/-- Every item of a list has a counterpart exactly if there is a list of counterparts. -/
theorem exists_forall₂ {α β : Type} {related : α → β → Prop} {items : List α} :
    (∃ results, List.Forall₂ related items results) ↔
      ∀ item ∈ items, ∃ result, related item result := by
  induction items with
  | nil => simp
  | cons item later inductionHypothesis =>
    rw [List.forall_mem_cons, ← inductionHypothesis]
    constructor
    · rintro ⟨_, all⟩
      obtain ⟨result, results, first, rest, _⟩ := List.forall₂_cons_left_iff.mp all
      exact ⟨⟨result, first⟩, results, rest⟩
    · rintro ⟨⟨result, first⟩, results, rest⟩
      exact ⟨result :: results, .cons first rest⟩

/-- A traversal all of whose steps succeed has results, one for each item. Which they are is told by
the law about successful traversals. -/
theorem exists_mapM_of_ok (each : ∀ item ∈ items, ∃ result, step item = .ok result) :
    ∃ results, items.mapM step = .ok results := by
  obtain ⟨results, related⟩ := exists_forall₂.mpr each
  exact ⟨results, mapM_eq_ok_iff.mpr related⟩

/-- A traversal that succeeds does so on any item in the middle and on all items behind it, and
their results stand in the same places. -/
theorem mapM_middle_of_ok {ahead behind : List α} {item : α} {results : List β}
    (succeeded : (ahead ++ item :: behind).mapM step = .ok results) :
    ∃ before result after, step item = .ok result ∧ behind.mapM step = .ok after ∧
      results = before ++ result :: after := by
  rw [List.mapM_append] at succeeded
  obtain ⟨before, _, remaining⟩ := bind_eq_ok.mp succeeded
  obtain ⟨rest, taken, same⟩ := bind_eq_ok.mp remaining
  cases same
  rw [List.mapM_cons] at taken
  obtain ⟨result, own, remaining⟩ := bind_eq_ok.mp taken
  obtain ⟨after, others, same⟩ := bind_eq_ok.mp remaining
  cases same
  exact ⟨before, result, after, own, others, rfl⟩

/-- A traversal fails with the failure of its first item, or else with that of the items behind
it. -/
theorem mapM_cons_eq_error_iff {item : α} {failure : ε} :
    (item :: items).mapM step = .error failure ↔ step item = .error failure ∨
      (∃ result, step item = .ok result) ∧ items.mapM step = .error failure := by
  -- Putting the results together cannot fail any more.
  have gathered (result : β) (results : List β) :
      (pure (result :: results) : Except ε (List β)) ≠ .error failure := fun failed => nomatch failed
  simp only [List.mapM_cons, bind_eq_error, gathered, and_false, exists_false, or_false,
    exists_and_right]

/-- A traversal fails with the failure of the first item that fails. Whether the items behind that
one would fail as well is never asked. -/
theorem mapM_eq_error_iff {failure : ε} :
    items.mapM step = .error failure ↔ ∃ ahead item behind, items = ahead ++ item :: behind ∧
      (∀ other ∈ ahead, ∃ result, step other = .ok result) ∧ step item = .error failure := by
  induction items with
  | nil =>
    constructor
    · intro failed
      cases failed
    · rintro ⟨ahead, item, behind, parts, _⟩
      simp at parts
  | cons first later inductionHypothesis =>
    rw [mapM_cons_eq_error_iff, inductionHypothesis]
    constructor
    · rintro (failed | ⟨passed, ahead, item, behind, rfl, succeeded, failed⟩)
      · exact ⟨[], first, later, rfl, List.forall_mem_nil _, failed⟩
      · exact ⟨first :: ahead, item, behind, rfl, List.forall_mem_cons.mpr ⟨passed, succeeded⟩,
          failed⟩
    · rintro ⟨ahead, item, behind, parts, succeeded, failed⟩
      cases ahead with
      | nil =>
        obtain ⟨rfl, _⟩ := List.cons.inj parts
        exact Or.inl failed
      | cons head ahead =>
        obtain ⟨rfl, rest⟩ := List.cons.inj parts
        obtain ⟨passed, succeeded⟩ := List.forall_mem_cons.mp succeeded
        exact Or.inr ⟨passed, ahead, item, behind, rest, succeeded, failed⟩

end Traversal

end TextDecoration
