import Sigh.Value
import Sigh.Typed
import Sigh.Decimal.Layout

namespace Sigh

/-- The name of function `fn` of a program. -/
def Typed.Program.functionName (p : Typed.Program) (fn : Nat) : String :=
  (p.functions[fn]?.map (·.name)).getD ""

/-- Text of a value, reading arrays and instances from the machine; `fuel` bounds the nesting. -/
def renderWith (p : Typed.Program) (m : Machine) : Nat → Value → String
  | 0, _ => ""
  | fuel + 1, v =>
    match v with
    | .int n => toString n.toInt
    | .float x => Decimal.valueStyle.render x
    | .bool b => if b then "true" else "false"
    | .str s => s
    | .null => "null"
    | .array addr =>
      let items := (m.items? addr).getD #[]
      "[" ++ ", ".intercalate (items.toList.map (renderWith p m fuel)) ++ "]"
    | .struct addr =>
      match m.inst? addr with
      | some (decl, _, fields) =>
        let d := p.structs[decl]?
        let names := (d.map (·.fields.map (·.1))).getD []
        let shown := (names.zip fields.toList).map fun (n, v) => n ++ "=" ++ renderWith p m fuel v
        (d.map (·.name)).getD "" ++ "\x7b" ++ ", ".intercalate shown ++ "\x7d"
      | none => ""
    | .closure fn _ => p.functionName fn
    | .method _ fn => p.functionName fn
    | .print => "print"
    | .ctor decl _ => "$" ++ ((p.structs[decl]?.map (·.name)).getD "")
    | .type t => t.text

/-- The text of a value. Nesting never goes deeper than the number of heap objects unless an
instance holds itself. -/
def render (p : Typed.Program) (m : Machine) (v : Value) : String :=
  renderWith p m (m.objects.size + 1) v

end Sigh
