set_option autoImplicit false

namespace HeaderRelay.Text

/-- Whether one of the runs, which ascend and do not meet, holds the character. Only the first run
that does not end before it can. -/
def inRuns (runs : List (Nat × Nat)) (c : Char) : Bool :=
  match runs.find? fun (_, last) => c.toNat ≤ last with
  | some (first, _) => first ≤ c.toNat
  | none => false

end HeaderRelay.Text
