import Mathlib
import Sigh.Run.Source

namespace Sigh

/-- Whether a value fits a static type on machine `m`: `null` fits every type, a number, boolean,
string or type its own type, an instance the struct type of its declaration, a function value
the type of its signature, and an array `C[]` when every element fits `C`. -/
def Value.conforms (p : Typed.Program) (m : Machine) : Value → Ty → Bool
  | .null, _ => true
  | .int _, .int => true
  | .float _, .float => true
  | .bool _, .bool => true
  | .str _, .string => true
  | .type _, .type => true
  | .struct addr, .struct id _ => (m.inst? addr).any (·.1 == id)
  | .closure fn _, t | .method _ fn, t => (p.functions[fn]?).any (·.ty == t)
  | .print, t => t == .fn [.string] .string
  | .ctor decl _, t =>
    (p.structs[decl]?).any fun s => t == .fn (s.fields.map (·.2)) (.struct decl s.name)
  | .array addr, .array c =>
    (m.items? addr).any fun items => items.all fun v => Value.conforms p m v c
  | _, _ => false
termination_by structural _ t => t

/-- Two structs, and a `[null]` array that reaches a `P[]` and a `Q[]` variable through one
assignment expression. -/
def aliasedArraySource : String :=
  "struct P \x7b var x: Bool \x7d\nstruct Q \x7b var y: String \x7d\nvar ps: P[] = [null]\n" ++
  "var qs: Q[] = (ps = [null])\nvar i: Int = [].length\nps[i] = $P(true)\nreturn qs[i]\n"

set_option maxRecDepth 100000 in
/-- The program checks, its last statement returns an expression of static type `Q`, and the run
hands back an instance of `P`, which does not conform to `Q`. -/
theorem aliased_null_array_breaks_conformance :
    (Program.readChecked aliasedArraySource).toOption.bind (fun p =>
      match p.body.statements.getLast?, (p.execute Outcome.fuel).run.run Machine.empty with
      | some (.ret (some e) _), (.ok (some v), m) => some (e.ty.text, v.kindName, v.conforms p m e.ty)
      | _, _ => none) = some ("Q", "struct", false) := by
  decide +kernel

/-- A closure of the one-parameter `fb` is stored through an `fb[]` view of a `[null]` literal
that a `Bool[]` variable also holds. An outer `[[null]]`, held by a `Bool[][]` variable, takes that
array while its index is evaluated, and hands it back through an `fa[]` view, so the last line
calls `fb` at the type of `fa`, with no argument. -/
def arityAliasSource : String :=
  "fun fa(): Bool \x7b return true \x7d\nfun fb(x: Bool): Bool \x7b\nx = false\nreturn true\n\x7d\n" ++
  "var ps: Bool[] = [null]\nvar pss: Bool[][] = [[null]]\n" ++
  "\x7b [(ps = [null]), [fb]][[].length][[].length] = fb \x7d\n" ++
  "return [(pss = [[null]]), [[fa]]][[].length][(pss[[].length] = ps).length - " ++
  "(pss[[].length] = ps).length][[].length]()\n"

set_option maxRecDepth 100000 in
/-- The program checks and `fb` has one parameter, but the call builds its parameter frame (the
third frame, under the root frame that holds the closure) with no slot, and the write to `x`
stops the run with the internal fault of a missing slot. -/
theorem aliased_closure_call_misses_parameter_slot :
    (Program.readChecked arityAliasSource).toOption.bind (fun p =>
      match (p.execute Outcome.fuel).run.run Machine.empty with
      | (.error (.fault f _), m) =>
        some ((p.functions.map (·.params.length)).toList,
          (m.frames.map fun fr => (fr.slots.size, fr.parent)).toList, f.message)
      | _ => none) =
      some ([0, 1], [(2, none), (0, some 0), (0, some 0), (0, some 2)],
        "internal interpreter error: variable slot out of range") := by
  decide +kernel

/-- A `[null]` literal held by an `Int[]` variable and an `S[]` variable, its one element set to
the integer `0` through the first. -/
def intLeafSource : String :=
  "struct S \x7b fun plus(o: Int): Int \x7b return o \x7d \x7d\nvar xs: Int[] = [null]\n" ++
  "var ss: S[] = (xs = [null])\nxs[[].length] = [].length\nreturn ss + [[].length]\n"

set_option maxRecDepth 100000 in
/-- The program checks, and its last line applies `plus` of `S` element-wise to an `S[]` and an
`Int[]` of one element each. The left element is the integer `0`, on which no method is called:
instead of `plus` on the pair, giving `[0]`, the run stops with a shape mismatch. -/
theorem aliased_int_leaf_stops_element_wise_method :
    (Program.readChecked intLeafSource).toOption.bind (fun p =>
      match p.body.statements.getLast?, (p.execute Outcome.fuel).run.run Machine.empty with
      | some (.ret (some ⟨.elementWiseMethod fn l r, _, _⟩) _), (.error (.fault f _), _) =>
        some ((p.functions[fn]?).map (·.name), l.ty.text, r.ty.text, f.message)
      | _, _ => none) =
      some (some "plus", "S[]", "Int[]",
        "shape mismatch: element-wise operation on arrays of different depths") := by
  decide +kernel

end Sigh
