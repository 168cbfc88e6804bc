import Sigh.Run
import Sigh.Typing.Check
import Sigh.Value.Render

namespace Sigh

/-- What running a source text gives. -/
structure Outcome where
  output : String
  result : Except Failure (Option (String × String))

/-- Fuel enough for any run that finishes within the machine's memory. -/
def Outcome.fuel : Nat := Nat.pow 2 62

/-- Runs a typed program with `fuel`. Running out of fuel counts as a fault of the interpreter. -/
def Typed.Program.outcome (p : Typed.Program) (fuel : Nat) : Outcome :=
  let (r, m) := (p.execute fuel).run.run Machine.empty
  match r with
  | .ok none => ⟨m.output, .ok none⟩
  | .ok (some v) => ⟨m.output, .ok (some (render p m v, v.kindName))⟩
  | .error (.fault f span) => ⟨m.output, .error (.runtime f span)⟩
  | .error .outOfFuel =>
    ⟨m.output, .error (.runtime (.internal "evaluation ran out of fuel") p.body.span)⟩

/-- Reads, checks and runs a source text. -/
def Program.run (source : String) : Outcome :=
  match Program.readChecked source with
  | .ok p => p.outcome Outcome.fuel
  | .error f => ⟨"", .error f⟩

end Sigh
