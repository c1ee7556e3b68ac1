/-!
# Outcomes of computations that can fail

A computation built with `do` succeeds exactly if each of its steps does.
-/

namespace BodyContract

universe u v

variable {ε : Type u} {α β : Type v}

theorem bind_eq_ok_iff {computation : Except ε α} {next : α → Except ε β} {result : β} :
    computation >>= next = .ok result ↔
      ∃ value, computation = .ok value ∧ next value = .ok result := by
  cases computation with
  | error failure =>
      constructor
      · intro succeeds
        cases succeeds
      · rintro ⟨value, impossible, -⟩
        cases impossible
  | ok value =>
      constructor
      · intro succeeds
        exact ⟨value, rfl, succeeds⟩
      · rintro ⟨other, same, succeeds⟩
        cases same
        exact succeeds

/-- A computation ends with a result of one kind or with a failure of another. -/
def Settles (good : α → Prop) (bad : ε → Prop) : Except ε α → Prop
  | .ok value => good value
  | .error failure => bad failure

theorem Settles.imp {good better : α → Prop} {bad : ε → Prop} {computation : Except ε α}
    (settles : Settles good bad computation)
    (stronger : ∀ value, computation = .ok value → good value → better value) :
    Settles better bad computation := by
  cases computation with
  | error failure => exact settles
  | ok value => exact stronger value rfl settles

/-- A step that follows one that settles only has to settle behind its results. -/
theorem Settles.bind {good : α → Prop} {better : β → Prop} {bad : ε → Prop}
    {computation : Except ε α} {next : α → Except ε β} (first : Settles good bad computation)
    (second : ∀ value, computation = .ok value → good value → Settles better bad (next value)) :
    Settles better bad (computation >>= next) := by
  cases computation with
  | error failure => exact first
  | ok value => exact second value rfl first

end BodyContract
