namespace Sigh

/-- The character that an escape letter stands for. -/
def escapeValue? : Char → Option Char
  | 'n' => some '\n'
  | 'r' => some '\r'
  | 't' => some '\t'
  | '\\' => some '\\'
  | '"' => some '"'
  | _ => none

/-- Decodes escapes in raw string content. -/
def unescapeChars : List Char → List Char
  | [] => []
  | '\\' :: c :: rest =>
    match escapeValue? c with
    | some v => v :: unescapeChars rest
    | none => '\\' :: c :: unescapeChars rest
  | c :: rest => c :: unescapeChars rest

/-- The string that a literal's raw content stands for. -/
def unescape (raw : String) : String := String.ofList (unescapeChars raw.toList)

end Sigh
