/-! Repetition in a parser. A step takes the value built so far and the input that is left, and
answers nothing when the repetition is over. `iterate` runs it as long as each answer leaves less
input, so that it ends by the length of the input; `separated` reads a list with it. -/
namespace DebugExpr.Parsing

variable {α τ ε : Type}

/-- Runs the step until it answers nothing. -/
def iterate (step : α → List τ → Except ε (Option (α × List τ))) (value : α) (input : List τ) :
    Except ε (α × List τ) :=
  match step value input with
  | .error e => .error e
  | .ok none => .ok (value, input)
  | .ok (some (next, rest)) =>
    if rest.length < input.length then iterate step next rest else .ok (next, rest)
termination_by input.length

/-- Reads one item, and a further one after each separator. -/
def separated (separator : List τ → Option (List τ))
    (item : List τ → Except ε (α × List τ)) (input : List τ) : Except ε (List α × List τ) := do
  let (first, rest) ← item input
  iterate
    (fun items input => do
      match separator input with
      | none => return none
      | some input =>
        let (next, rest) ← item input
        return some (items ++ [next], rest))
    [first] rest

theorem iterate_eq_error {step : α → List τ → Except ε (Option (α × List τ))} {value : α}
    {input : List τ} {e : ε} (h : step value input = .error e) :
    iterate step value input = .error e := by
  rw [iterate, h]

theorem iterate_eq_ok {step : α → List τ → Except ε (Option (α × List τ))} {value : α}
    {input : List τ} (h : step value input = .ok none) :
    iterate step value input = .ok (value, input) := by
  rw [iterate, h]

theorem iterate_step {step : α → List τ → Except ε (Option (α × List τ))} {value next : α}
    {input rest : List τ} (h : step value input = .ok (some (next, rest)))
    (shorter : rest.length < input.length) :
    iterate step value input = iterate step next rest := by
  rw [iterate, h]
  simp [shorter]

end DebugExpr.Parsing
