import Sigh.Token
import Sigh.Diagnostic

namespace Sigh

/-- A fault found while reading tokens. -/
inductive LexFault where
  | unexpectedCharacter (text : String) (span : Span)
  | unterminatedString (span : Span)
  | invalidEscape (span : Span)
  deriving Repr

/-- The diagnostic of a fault. -/
def LexFault.diagnostic : LexFault → Diagnostic
  | unexpectedCharacter text span => ⟨.unexpectedCharacter, "unexpected character '" ++ text ++ "'", span⟩
  | unterminatedString span => ⟨.unterminatedString, "unterminated string literal", span⟩
  | invalidEscape span => ⟨.invalidEscape, "invalid escape sequence", span⟩

/-- The tokens of a text and the faults found in it, in order. -/
structure Lexed where
  tokens : List Token
  faults : List LexFault
  deriving Repr

namespace Scan

/-- Characters that separate tokens. -/
def isBlank (c : Char) : Bool := c = ' ' || c = '\t' || c = '\n' || c = '\r' || c = ';'

def isIdentStart (c : Char) : Bool := c.isAlpha || c = '_'

def isIdentContinue (c : Char) : Bool := isIdentStart c || c.isDigit

/-- Characters that may follow a backslash in a string. -/
def isSimpleEscape (c : Char) : Bool := c = '\\' || c = 'n' || c = 'r' || c = 't' || c = '"'

/-- The number of bytes of characters in UTF-8. -/
def width (cs : List Char) : Nat := cs.foldr (fun c n => c.utf8Size + n) 0

/-- The punctuation token that a character forms on its own. -/
def single? : Char → Option TokenKind
  | '(' => some .lParen
  | ')' => some .rParen
  | '{' => some .lBrace
  | '}' => some .rBrace
  | '[' => some .lBracket
  | ']' => some .rBracket
  | ',' => some .comma
  | ':' => some .colon
  | '.' => some .dot
  | '$' => some .dollar
  | '@' => some .atSign
  | '*' => some .star
  | '/' => some .slash
  | '%' => some .percent
  | '+' => some .plus
  | '-' => some .minus
  | _ => none

/-- The tokens that a character forms alone and followed by `=`. -/
def withEqual? : Char → Option (TokenKind × TokenKind)
  | '=' => some (.equal, .equalEqual)
  | '!' => some (.bang, .bangEqual)
  | '<' => some (.less, .lessEqual)
  | '>' => some (.greater, .greaterEqual)
  | _ => none

/-- The token that a doubled character forms. -/
def doubled? : Char → Option TokenKind
  | '&' => some .ampAmp
  | '|' => some .barBar
  | _ => none

/-- What the body of a string literal holds: its raw content, the faults in it, and the text after
the closing quote, or nothing when the string is not closed. -/
structure StringBody where
  content : List Char
  faults : List LexFault
  rest : Option (List Char)

/-- Reads the body of a string literal that starts at byte `pos`. -/
def stringBody : List Char → Nat → StringBody
  | [], _ => ⟨[], [], none⟩
  | '"' :: r, _ => ⟨[], [], some r⟩
  | '\\' :: c :: r, pos =>
    let tail := stringBody r (pos + 1 + c.utf8Size)
    let faults :=
      if isSimpleEscape c then tail.faults
      else .invalidEscape ⟨pos, pos + 1 + c.utf8Size⟩ :: tail.faults
    ⟨'\\' :: c :: tail.content, faults, tail.rest⟩
  | c :: r, pos =>
    let tail := stringBody r (pos + c.utf8Size)
    ⟨c :: tail.content, tail.faults, tail.rest⟩

theorem stringBody_rest_shorter (cs : List Char) (pos : Nat) (r : List Char)
    (h : (stringBody cs pos).rest = some r) : r.length < cs.length := by
  induction cs, pos using stringBody.induct generalizing r with
  | case1 => simp [stringBody] at h
  | case2 r' _ => simp [stringBody] at h; subst h; simp
  | case3 pos c r' ih =>
    simp only [stringBody] at h
    have := ih r h
    simp; omega
  | case4 c r' pos _ _ ih =>
    rw [stringBody] at h
    · have := ih r h
      simp; omega
    all_goals assumption

/-- One step of reading: the token found at the front of the text, if any, the faults found, the
number of bytes read, and the text after them, which is shorter. -/
structure Step (cs : List Char) where
  token : Option (TokenKind × String)
  faults : List LexFault
  width : Nat
  rest : List Char
  shorter : rest.length < cs.length

/-- A token of `text` followed by `rest`. -/
def emit {cs : List Char} (kind : TokenKind) (text rest : List Char)
    (shorter : rest.length < cs.length) : Step cs :=
  ⟨some (kind, String.ofList text), [], width text, rest, shorter⟩

/-- Reads the item at the front of `c :: r`, which starts at byte `pos`. -/
def step (c : Char) (r : List Char) (pos : Nat) : Step (c :: r) :=
  if isBlank c then ⟨none, [], c.utf8Size, r, Nat.lt_succ_self _⟩
  else if c = '/' && r.head? = some '/' then
    let comment := r.takeWhile (· != '\n')
    ⟨none, [], 1 + width comment, r.dropWhile (· != '\n'),
      Nat.lt_succ_of_le (List.dropWhile_suffix _).length_le⟩
  else if c = '"' then
    let body := stringBody r (pos + 1)
    match h : body.rest with
    | some rest =>
      ⟨some (.stringLiteral, String.ofList body.content), body.faults, 2 + width body.content, rest,
        Nat.lt_succ_of_lt (stringBody_rest_shorter r (pos + 1) rest h)⟩
    | none =>
      ⟨none, body.faults ++ [.unterminatedString ⟨pos, pos + width (c :: r)⟩], width (c :: r), [],
        Nat.succ_pos _⟩
  else if c.isDigit then
    let whole := r.takeWhile Char.isDigit
    let afterWhole := r.dropWhile Char.isDigit
    have hw : afterWhole.length ≤ r.length := (List.dropWhile_suffix _).length_le
    match afterWhole, hw with
    | '.' :: d :: more, hw =>
      if d.isDigit then
        let fraction := more.takeWhile Char.isDigit
        have hf : (more.dropWhile Char.isDigit).length ≤ more.length :=
          (List.dropWhile_suffix _).length_le
        emit .floatLiteral (c :: whole ++ '.' :: d :: fraction) (more.dropWhile Char.isDigit)
          (by simp only [List.length_cons] at hw ⊢; omega)
      else emit .intLiteral (c :: whole) ('.' :: d :: more) (Nat.lt_succ_of_le hw)
    | rest, hw => emit .intLiteral (c :: whole) rest (Nat.lt_succ_of_le hw)
  else if isIdentStart c then
    let name := c :: r.takeWhile isIdentContinue
    let kind := (TokenKind.keyword? (String.ofList name)).getD .ident
    emit kind name (r.dropWhile isIdentContinue)
      (Nat.lt_succ_of_le (List.dropWhile_suffix _).length_le)
  else
    match single? c, withEqual? c, doubled? c with
    | some kind, _, _ => emit kind [c] r (Nat.lt_succ_self _)
    | _, some (alone, joined), _ =>
      match r with
      | '=' :: more => emit joined [c, '='] more (Nat.lt_succ_of_lt (Nat.lt_succ_self _))
      | more => emit alone [c] more (Nat.lt_succ_self _)
    | _, _, some kind =>
      match r with
      | d :: more =>
        if d = c then emit kind [c, c] more (Nat.lt_succ_of_lt (Nat.lt_succ_self _))
        else ⟨none, [.unexpectedCharacter (String.singleton c) ⟨pos, pos + 1⟩], 1, d :: more,
          Nat.lt_succ_self _⟩
      | [] => ⟨none, [.unexpectedCharacter (String.singleton c) ⟨pos, pos + 1⟩], 1, [], Nat.succ_pos _⟩
    | _, _, _ =>
      ⟨none, [.unexpectedCharacter (String.singleton c) ⟨pos, pos + c.utf8Size⟩], c.utf8Size, r,
        Nat.lt_succ_self _⟩

/-- Reads the tokens of `cs`, which starts at byte `pos`, after those read so far. -/
def run (cs : List Char) (pos : Nat) (tokens : Array Token) (faults : Array LexFault) : Lexed :=
  match cs with
  | [] => ⟨(tokens.push ⟨.eof, ⟨pos, pos⟩, ""⟩).toList, faults.toList⟩
  | c :: r =>
    let s := step c r pos
    let tokens := match s.token with
      | some (kind, text) => tokens.push ⟨kind, ⟨pos, pos + s.width⟩, text⟩
      | none => tokens
    run s.rest (pos + s.width) tokens (faults ++ s.faults.toArray)
termination_by cs.length
decreasing_by exact s.shorter

end Scan

/-- The tokens of a source text and the faults found in it. -/
def lex (source : String) : Lexed := Scan.run source.toList 0 #[] #[]

end Sigh
