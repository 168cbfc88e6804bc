import Sigh.Ty

namespace Sigh.Ty

/-- The type named by a base name. -/
def ofBaseName? : String → Option Ty
  | "Int" => some int
  | "Float" => some float
  | "Bool" => some bool
  | "String" => some string
  | "Void" => some void
  | "Null" => some null
  | "Type" => some type
  | _ => none

/-- Characters of a name. -/
def isNameChar (c : Char) : Bool := c.isAlphanum || c = '_'

/-- Array levels `[]` at the front of a text, and the rest. -/
def readArrayLevels : List Char → Nat × List Char
  | '[' :: ']' :: rest => let (n, r) := readArrayLevels rest; (n + 1, r)
  | cs => (0, cs)

mutual
/-- Reads one descriptor from the front of a text; `fuel` bounds the nesting. -/
def readDescriptor : Nat → List Char → Option (Ty × List Char)
  | 0, _ => none
  | fuel + 1, '(' :: rest => do
    let (params, afterParams) ← readParams fuel rest
    match afterParams with
    | '-' :: '>' :: r =>
      let (result, r') ← readDescriptor fuel r
      some (fn params result, r')
    | _ => none
  | _ + 1, cs => do
    let name := cs.takeWhile isNameChar
    let rest := cs.dropWhile isNameChar
    let (base, afterBase) ←
      match rest with
      | '#' :: r =>
        let ds := r.takeWhile Char.isDigit
        if ds.isEmpty then none
        else some (struct (String.ofList ds).toNat! (String.ofList name), r.dropWhile Char.isDigit)
      | r => (ofBaseName? (String.ofList name)).map (·, r)
    let (levels, r) := readArrayLevels afterBase
    some (base.arrayOf levels, r)
/-- Reads parameter descriptors up to and including the closing parenthesis. -/
def readParams : Nat → List Char → Option (List Ty × List Char)
  | 0, _ => none
  | _ + 1, ')' :: rest => some ([], rest)
  | fuel + 1, cs => do
    let (t, rest) ← readDescriptor fuel cs
    match rest with
    | ',' :: r => let (ts, r') ← readParams fuel r; some (t :: ts, r')
    | ')' :: r => some ([t], r)
    | _ => none
end

/-- The type a whole descriptor names; blanks are ignored. -/
def ofDescriptor? (text : String) : Option Ty :=
  let cs := text.toList.filter (fun c => !c.isWhitespace)
  match readDescriptor (2 * cs.length + 2) cs with
  | some (t, []) => some t
  | _ => none

example : (ofDescriptor? "(Int,String)->Void[]").map text = some "(Int, String) -> Void[]" := by
  decide +kernel
example : (ofDescriptor? "P#0").map text = some "P" := by decide +kernel

end Sigh.Ty
