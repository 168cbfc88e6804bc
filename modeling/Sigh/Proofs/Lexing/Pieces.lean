import Sigh.Proofs.Grammar.Declarations

namespace Sigh.Scan

@[simp] theorem width_nil : width [] = 0 := rfl

@[simp] theorem width_cons (c : Char) (cs : List Char) : width (c :: cs) = c.utf8Size + width cs :=
  rfl

@[simp] theorem width_append (as bs : List Char) : width (as ++ bs) = width as + width bs := by
  induction as with
  | nil => rw [List.nil_append, width_nil, Nat.zero_add]
  | cons a as ih => rw [List.cons_append, width_cons, width_cons, ih, Nat.add_assoc]

/-- Raw string content: each backslash pairs with the character after it, and no quote stands
alone. -/
inductive Content : List Char → Prop
  | nil : Content []
  | plain {c cs} : c ≠ '"' → c ≠ '\\' → Content cs → Content (c :: cs)
  | escape {c cs} : Content cs → Content ('\\' :: c :: cs)

/-- `f` is an invalid escape in `content`, which starts at byte `pos`: its span covers a backslash
of the content and the one character after it. -/
def EscapeIn (pos : Nat) (content : List Char) (f : LexFault) : Prop :=
  ∃ pre c post, content = pre ++ '\\' :: c :: post ∧
    f = .invalidEscape ⟨pos + width pre, pos + width pre + 1 + c.utf8Size⟩

theorem EscapeIn.cons {pos : Nat} {c : Char} {content : List Char} {f : LexFault}
    (h : EscapeIn (pos + c.utf8Size) content f) : EscapeIn pos (c :: content) f := by
  obtain ⟨pre, d, post, rfl, rfl⟩ := h
  refine ⟨c :: pre, d, post, rfl, ?_⟩
  simp only [width_cons, LexFault.invalidEscape.injEq, Span.mk.injEq]
  omega

theorem stringBody_faults (r : List Char) (pos : Nat) :
    ∀ f ∈ (stringBody r pos).faults, EscapeIn pos (stringBody r pos).content f := by
  induction r, pos using stringBody.induct with
  | case1 => simp [stringBody]
  | case2 => simp [stringBody]
  | case3 c r pos ih =>
    intro f hf
    rw [stringBody.eq_3] at hf ⊢
    have hb : ('\\' : Char).utf8Size = 1 := rfl
    have htail : ∀ f ∈ (stringBody r (pos + 1 + c.utf8Size)).faults,
        EscapeIn pos ('\\' :: c :: (stringBody r (pos + 1 + c.utf8Size)).content) f :=
      fun f hf => (EscapeIn.cons (EscapeIn.cons (by rw [hb]; exact ih f hf)))
    split at hf
    · exact htail f hf
    · rcases List.mem_cons.mp hf with rfl | hf
      · exact ⟨[], c, _, rfl, by simp⟩
      · exact htail f hf
  | case4 c r pos h₁ h₂ ih =>
    intro f hf
    rw [stringBody.eq_4 _ _ _ h₁ h₂] at hf ⊢
    exact EscapeIn.cons (ih f hf)

theorem stringBody_closed {r rest : List Char} {pos : Nat} (h : (stringBody r pos).rest = some rest) :
    r = (stringBody r pos).content ++ '"' :: rest ∧ Content (stringBody r pos).content := by
  induction r, pos using stringBody.induct with
  | case1 => simp [stringBody] at h
  | case2 r pos =>
    simp only [stringBody, Option.some.injEq] at h ⊢
    exact ⟨by rw [h]; rfl, .nil⟩
  | case3 c r pos ih =>
    rw [stringBody.eq_3] at h ⊢
    dsimp only at h ⊢
    obtain ⟨hr, hc⟩ := ih h
    exact ⟨by rw [List.cons_append, List.cons_append, ← hr], .escape hc⟩
  | case4 c r pos h₁ h₂ ih =>
    rw [stringBody.eq_4 _ _ _ h₁ h₂] at h ⊢
    dsimp only at h ⊢
    obtain ⟨hr, hc⟩ := ih h
    refine ⟨by rw [List.cons_append, ← hr], .plain h₁ (fun hc' => ?_) hc⟩
    cases r with
    | nil => simp [stringBody] at h
    | cons d r => exact h₂ d r hc' rfl

theorem stringBody_open {r : List Char} {pos : Nat} (h : (stringBody r pos).rest = none) :
    r = (stringBody r pos).content := by
  induction r, pos using stringBody.induct with
  | case1 => rfl
  | case2 => simp [stringBody] at h
  | case3 c r pos ih =>
    rw [stringBody.eq_3] at h ⊢
    rw [← ih h]
  | case4 c r pos h₁ h₂ ih =>
    rw [stringBody.eq_4 _ _ _ h₁ h₂] at h ⊢
    rw [← ih h]

end Sigh.Scan

namespace Sigh

/-- How a punctuation token is written. -/
def TokenKind.spelling? : TokenKind → Option String
  | .lParen => some "("
  | .rParen => some ")"
  | .lBrace => some "\x7b"
  | .rBrace => some "\x7d"
  | .lBracket => some "["
  | .rBracket => some "]"
  | .comma => some ","
  | .colon => some ":"
  | .dot => some "."
  | .dollar => some "$"
  | .atSign => some "@"
  | .star => some "*"
  | .slash => some "/"
  | .percent => some "%"
  | .plus => some "+"
  | .minus => some "-"
  | .equal => some "="
  | .equalEqual => some "=="
  | .bangEqual => some "!="
  | .less => some "<"
  | .lessEqual => some "<="
  | .greater => some ">"
  | .greaterEqual => some ">="
  | .ampAmp => some "&&"
  | .barBar => some "||"
  | .bang => some "!"
  | _ => none

namespace Scan

theorem single?_spelling {c : Char} {kind : TokenKind} (h : single? c = some kind) :
    kind.spelling? = some (String.ofList [c]) := by
  unfold single? at h
  split at h <;> cases h <;> decide

theorem withEqual?_spelling {c : Char} {alone joined : TokenKind}
    (h : withEqual? c = some (alone, joined)) :
    alone.spelling? = some (String.ofList [c]) ∧ joined.spelling? = some (String.ofList [c, '=']) := by
  unfold withEqual? at h
  split at h <;> cases h <;> decide

theorem doubled?_spelling {c : Char} {kind : TokenKind} (h : doubled? c = some kind) :
    kind.spelling? = some (String.ofList [c, c]) ∧ c.utf8Size = 1 := by
  unfold doubled? at h
  split at h <;> cases h <;> decide

/-- `w` spells a token of kind `kind` other than a string literal, and the text `rest` after it
cannot extend it: a name is followed by no letter, digit or underscore, an integer by no digit
and no point before a digit, a float by no digit. A name that is one of the seven keywords is that
keyword's token, any other name an identifier. -/
inductive Word : TokenKind → List Char → List Char → Prop
  | name {c name rest} : isIdentStart c → (∀ d ∈ name, isIdentContinue d) →
      (∀ d ∈ rest.head?, isIdentContinue d = false) →
      Word ((TokenKind.keyword? (String.ofList (c :: name))).getD .ident) (c :: name) rest
  | int {ds rest} : ds ≠ [] → (∀ d ∈ ds, d.isDigit) → (∀ d ∈ rest.head?, d.isDigit = false) →
      (∀ d more, rest = '.' :: d :: more → d.isDigit = false) → Word .intLiteral ds rest
  | float {ds fs rest} : ds ≠ [] → (∀ d ∈ ds, d.isDigit) → fs ≠ [] → (∀ d ∈ fs, d.isDigit) →
      (∀ d ∈ rest.head?, d.isDigit = false) → Word .floatLiteral (ds ++ '.' :: fs) rest
  | symbol {kind w rest} : kind.spelling? = some (String.ofList w) → Word kind w rest

/-- One step of reading at byte `pos` takes `w` off the front of `w ++ rest` and finds `token`
and `faults`: a blank, a line comment up to the newline, a word, a string literal with the
invalid escapes in it, a string that runs to the end of the text, or a character that starts no
token. -/
inductive Takes (pos : Nat) : List Char → List Char → Option (TokenKind × String) →
    List LexFault → Prop
  | blank {c rest} : isBlank c → Takes pos [c] rest none []
  | comment {body rest} : '\n' ∉ body → (∀ d ∈ rest.head?, d = '\n') →
      Takes pos ('/' :: '/' :: body) rest none []
  | word {kind w rest} : Word kind w rest → Takes pos w rest (some (kind, String.ofList w)) []
  | string {content rest faults} : Content content → (∀ f ∈ faults, EscapeIn (pos + 1) content f) →
      Takes pos ('"' :: content ++ ['"']) rest (some (.stringLiteral, String.ofList content)) faults
  | unterminated {content faults} : (∀ f ∈ faults, EscapeIn (pos + 1) content f) →
      Takes pos ('"' :: content) [] none
        (faults ++ [.unterminatedString ⟨pos, pos + width ('"' :: content)⟩])
  | unexpected {c rest} :
      Takes pos [c] rest none [.unexpectedCharacter (String.singleton c) ⟨pos, pos + c.utf8Size⟩]

theorem head_dropWhile {α : Type} {p : α → Bool} {l : List α} :
    ∀ a ∈ (l.dropWhile p).head?, p a = false := by
  intro a ha
  have := List.head?_dropWhile_not p l
  rw [Option.mem_def.mp ha] at this
  exact this

theorem emit_takes {cs text rest : List Char} {kind : TokenKind} {h : rest.length < cs.length}
    {pos : Nat} (hcs : cs = text ++ rest) (hw : Word kind text rest) :
    ∃ w, cs = w ++ (emit kind text rest h).rest ∧ (emit kind text rest h).width = width w ∧
      Takes pos w (emit kind text rest h).rest (emit kind text rest h).token
        (emit kind text rest h).faults :=
  ⟨text, hcs, rfl, .word hw⟩

theorem step_takes (c : Char) (r : List Char) (pos : Nat) :
    ∃ w, c :: r = w ++ (step c r pos).rest ∧ (step c r pos).width = width w ∧
      Takes pos w (step c r pos).rest (step c r pos).token (step c r pos).faults := by
  unfold step
  split
  · exact ⟨[c], rfl, by simp, .blank ‹_›⟩
  split
  · rename_i hslash
    simp only [Bool.and_eq_true, decide_eq_true_eq] at hslash
    obtain ⟨rfl, hr⟩ := hslash
    obtain ⟨r, rfl⟩ : ∃ r', r = '/' :: r' := by
      cases r with
      | nil => cases hr
      | cons d r' => exact ⟨r', by simp_all⟩
    have hsplit := List.takeWhile_append_dropWhile (p := (· != '\n')) (l := r)
    refine ⟨'/' :: '/' :: r.takeWhile (· != '\n'), ?_, ?_, .comment ?_ ?_⟩
    · simp [hsplit]
    · simp only [width_cons]
      rfl
    · intro hn
      have := List.all_eq_true.mp List.all_takeWhile _ hn
      simp at this
    · intro d hd
      have := head_dropWhile d (by simpa [List.dropWhile_cons] using hd)
      simpa using this
  split
  · rename_i hq
    subst hq
    dsimp only
    split
    · rename_i rest hrest
      obtain ⟨hr, hc⟩ := stringBody_closed hrest
      refine ⟨'"' :: (stringBody r (pos + 1)).content ++ ['"'], ?_, ?_,
        .string hc (stringBody_faults r (pos + 1))⟩
      · conv_lhs => rw [hr]
        simp
      · have hq : '"'.utf8Size = 1 := rfl
        simp only [List.cons_append, width_cons, width_append, width_nil, hq]
        omega
    · rename_i hrest
      have hr := stringBody_open hrest
      refine ⟨'"' :: r, by simp, rfl, ?_⟩
      have := @Takes.unterminated pos _ _ (stringBody_faults r (pos + 1))
      rwa [← hr] at this
  split
  · rename_i hd
    dsimp only
    have hsplit := List.takeWhile_append_dropWhile (p := Char.isDigit) (l := r)
    have hdigits : ∀ d ∈ c :: r.takeWhile Char.isDigit, d.isDigit := by
      intro d hd'
      rcases List.mem_cons.mp hd' with rfl | hd'
      · exact hd
      · exact List.all_eq_true.mp List.all_takeWhile d hd'
    split
    · rename_i d more _ hafter _
      split
      · rename_i hdd
        have hsplit' := List.takeWhile_append_dropWhile (p := Char.isDigit) (l := more)
        refine emit_takes ?_ (.float (List.cons_ne_nil _ _) hdigits (List.cons_ne_nil _ _) ?_ ?_)
        · conv_lhs => rw [← hsplit, hafter, ← hsplit']
          simp
        · intro e he
          rcases List.mem_cons.mp he with rfl | he
          · exact hdd
          · exact List.all_eq_true.mp List.all_takeWhile e he
        · exact head_dropWhile
      · rename_i hdd
        refine emit_takes ?_ (.int (List.cons_ne_nil _ _) hdigits (by simp) ?_)
        · rw [← hafter, List.cons_append, hsplit]
        · intro e more' he
          simp only [List.cons.injEq] at he
          rw [← he.2.1]
          simpa using hdd
    · rename_i hnot
      refine emit_takes (by rw [List.cons_append, hsplit]) (.int (List.cons_ne_nil _ _) hdigits
        head_dropWhile ?_)
      intro d more hdot
      exact absurd (hnot d more (by rw [← hdot]; exact (List.dropWhile_suffix _).length_le) hdot
        (proof_irrel_heq _ _)) id
  split
  · rename_i hid
    have hsplit := List.takeWhile_append_dropWhile (p := isIdentContinue) (l := r)
    exact emit_takes (by rw [List.cons_append, hsplit])
      (.name hid (List.all_eq_true.mp List.all_takeWhile) head_dropWhile)
  split
  · rename_i kind hs
    exact emit_takes rfl (.symbol (single?_spelling hs))
  · rename_i alone joined hw _
    have hspell := withEqual?_spelling hw
    split
    · exact emit_takes rfl (.symbol hspell.2)
    · exact emit_takes rfl (.symbol hspell.1)
  · rename_i kind hd _ _
    obtain ⟨hspell, hone⟩ := doubled?_spelling hd
    split
    · split
      · rename_i hdc
        subst hdc
        exact emit_takes rfl (.symbol hspell)
      · exact ⟨[c], rfl, by simp [hone], by rw [← hone]; exact .unexpected⟩
    · exact ⟨[c], rfl, by simp [hone], by rw [← hone]; exact .unexpected⟩
  · exact ⟨[c], rfl, by simp, .unexpected⟩

/-- One step of a reading: where it starts, the text it takes, and the token and faults it finds. -/
structure Piece where
  start : Nat
  chars : List Char
  token : Option (TokenKind × String)
  faults : List LexFault

/-- The token a piece gives, spanning its text. -/
def Piece.tokens (p : Piece) : List Token :=
  p.token.toList.map fun (kind, text) => ⟨kind, ⟨p.start, p.start + width p.chars⟩, text⟩

/-- `ps` are the steps of a reading of `cs` from byte `pos`: each takes a text off the front of
what is left, as `Takes` allows, and the next starts where it ends. -/
inductive Tiles : Nat → List Char → List Piece → Prop
  | nil {pos} : Tiles pos [] []
  | cons {pos w rest token faults ps} : Takes pos w rest token faults →
      Tiles (pos + width w) rest ps → Tiles pos (w ++ rest) (⟨pos, w, token, faults⟩ :: ps)

theorem run_tiles (cs : List Char) (pos : Nat) (tokens : Array Token) (faults : Array LexFault) :
    ∃ ps, Tiles pos cs ps ∧ run cs pos tokens faults =
      ⟨tokens.toList ++ ps.flatMap Piece.tokens ++ [⟨.eof, ⟨pos + width cs, pos + width cs⟩, ""⟩],
        faults.toList ++ ps.flatMap Piece.faults⟩ := by
  induction cs, pos, tokens, faults using run.induct with
  | case1 pos tokens faults => exact ⟨[], .nil, by simp [run]⟩
  | case2 pos tokens faults c r s next ih =>
    obtain ⟨w, hcr, hwidth, htakes⟩ := step_takes c r pos
    obtain ⟨ps, htiles, hrun⟩ := ih
    have hend : pos + s.width + width s.rest = pos + width (c :: r) := by
      have := congrArg width hcr
      rw [width_append] at this
      dsimp only [s]
      omega
    refine ⟨⟨pos, w, s.token, s.faults⟩ :: ps,
      (congrArg (fun x => Tiles pos x _) hcr).mpr (.cons htakes (hwidth ▸ htiles)), ?_⟩
    rw [run.eq_2, hrun]
    dsimp only [next]
    rw [hend]
    cases ht : s.token with
    | none => simp [Piece.tokens]
    | some kt =>
      have hs : s.width = width w := hwidth
      simp [Piece.tokens, hs]

theorem Takes.ne_nil {pos : Nat} {w rest : List Char} {token : Option (TokenKind × String)}
    {faults : List LexFault} (h : Takes pos w rest token faults) : w ≠ [] := by
  cases h with
  | word hw =>
    cases hw with
    | name => exact List.cons_ne_nil _ _
    | int hds => exact hds
    | float => simp
    | symbol hs =>
      rintro rfl
      rename_i kind
      cases kind <;> simp [TokenKind.spelling?] at hs
  | _ => simp

end Scan

/-- The span of a fault that stops a token from being read: an unexpected character or an
unterminated string. -/
def LexFault.stopSpan? : LexFault → Option Span
  | .unexpectedCharacter _ sp | .unterminatedString sp => some sp
  | .invalidEscape _ => none

namespace Scan

/-- The spans a piece covers: its token's and those of its faults that stop a token. -/
def Piece.spans (p : Piece) : List Span :=
  p.tokens.map (·.span) ++ p.faults.filterMap LexFault.stopSpan?

theorem Takes.spans {pos : Nat} {w rest : List Char} {token : Option (TokenKind × String)}
    {faults : List LexFault} (h : Takes pos w rest token faults) :
    Piece.spans ⟨pos, w, token, faults⟩ = [] ∨
      Piece.spans ⟨pos, w, token, faults⟩ = [⟨pos, pos + width w⟩] := by
  have hescapes : ∀ (q : Nat) (content : List Char) (fs : List LexFault),
      (∀ f ∈ fs, EscapeIn q content f) → fs.filterMap LexFault.stopSpan? = [] := by
    intro q content fs hfs
    refine List.filterMap_eq_nil_iff.mpr fun f hf => ?_
    obtain ⟨_, _, _, _, rfl⟩ := hfs f hf
    rfl
  cases h with
  | string _ hfs => exact .inr (by simp [Piece.spans, Piece.tokens, hescapes _ _ _ hfs])
  | unterminated hfs =>
    exact .inr (by simp [Piece.spans, Piece.tokens, hescapes _ _ _ hfs, LexFault.stopSpan?])
  | word => exact .inr (by simp [Piece.spans, Piece.tokens])
  | unexpected => exact .inr (by simp [Piece.spans, Piece.tokens, LexFault.stopSpan?])
  | blank | comment => exact .inl (by simp [Piece.spans, Piece.tokens])

theorem Takes.bare {pos : Nat} {w rest : List Char} {token : Option (TokenKind × String)}
    {faults : List LexFault} (h : Takes pos w rest token faults)
    (hs : Piece.spans ⟨pos, w, token, faults⟩ = []) :
    (∃ c, w = [c] ∧ isBlank c) ∨
      ∃ body, w = '/' :: '/' :: body ∧ '\n' ∉ body ∧ ∀ d ∈ rest.head?, d = '\n' := by
  cases h with
  | blank hc => exact .inl ⟨_, rfl, hc⟩
  | comment hb hr => exact .inr ⟨_, rfl, hb, hr⟩
  | _ => simp [Piece.spans, Piece.tokens, LexFault.stopSpan?] at hs

theorem Takes.escape {pos : Nat} {w rest : List Char} {token : Option (TokenKind × String)}
    {faults : List LexFault} (h : Takes pos w rest token faults) {sp : Span}
    (hf : .invalidEscape sp ∈ faults) :
    (∃ pre c post, w = pre ++ '\\' :: c :: post ∧
      sp = ⟨pos + width pre, pos + width pre + 1 + c.utf8Size⟩) ∧
    ((∃ text, token = some (.stringLiteral, text)) ∨
      .unterminatedString ⟨pos, pos + width w⟩ ∈ faults) := by
  have hq : '"'.utf8Size = 1 := rfl
  cases h with
  | string _ hfs =>
    obtain ⟨pre, c, post, rfl, he⟩ := hfs _ hf
    cases he
    exact ⟨⟨'"' :: pre, c, post ++ ['"'], by simp, by simp [hq]; omega⟩, .inl ⟨_, rfl⟩⟩
  | unterminated hfs =>
    rcases List.mem_append.mp hf with hf | hf
    · obtain ⟨pre, c, post, rfl, he⟩ := hfs _ hf
      cases he
      exact ⟨⟨'"' :: pre, c, post, by simp, by simp [hq]; omega⟩, .inr (by simp)⟩
    · simp at hf
  | unexpected => simp at hf
  | blank | comment | word => cases hf

/-- A name: a letter or underscore, then letters, digits and underscores. -/
def IsName (w : List Char) : Prop :=
  ∃ c name, w = c :: name ∧ isIdentStart c ∧ ∀ d ∈ name, isIdentContinue d

end Scan

/-- The lexical class of each kind of token: `w` is the source text of a token of kind `kind`
with text `text`. A name is an identifier unless it is one of the seven keywords, each its own
kind; an integer is digits, a float digits, a point and digits; a string literal's text is its
raw content between the quotes; punctuation has its one spelling. -/
def TokenKind.Spells (kind : TokenKind) (text : String) (w : List Char) : Prop :=
  match kind with
  | .eof => False
  | .ident => text = String.ofList w ∧ Scan.IsName w ∧ TokenKind.keyword? text = none
  | .intLiteral => text = String.ofList w ∧ w ≠ [] ∧ ∀ d ∈ w, d.isDigit
  | .floatLiteral => text = String.ofList w ∧
      ∃ ds fs, w = ds ++ '.' :: fs ∧ ds ≠ [] ∧ fs ≠ [] ∧ ∀ d ∈ ds ++ fs, d.isDigit
  | .stringLiteral =>
      ∃ content, w = '"' :: content ++ ['"'] ∧ text = String.ofList content ∧ Scan.Content content
  | kind => text = String.ofList w ∧
      (TokenKind.keyword? text = some kind ∨ kind.spelling? = some text)

/-- What may follow a token of kind `kind`: nothing that would extend it. A name is followed by no
letter, digit or underscore, an integer by no digit and no point before a digit, a float by no
digit. -/
def TokenKind.EndsBefore (kind : TokenKind) (post : List Char) : Prop :=
  match kind with
  | .ident | .kwVar | .kwFun | .kwStruct | .kwIf | .kwElse | .kwWhile | .kwReturn =>
    ∀ d ∈ post.head?, Scan.isIdentContinue d = false
  | .intLiteral =>
    (∀ d ∈ post.head?, d.isDigit = false) ∧ ∀ d more, post = '.' :: d :: more → d.isDigit = false
  | .floatLiteral => ∀ d ∈ post.head?, d.isDigit = false
  | _ => True

theorem TokenKind.keyword?_eq_some {text : String} {kind : TokenKind}
    (h : TokenKind.keyword? text = some kind) :
    kind = .kwVar ∨ kind = .kwFun ∨ kind = .kwStruct ∨ kind = .kwIf ∨ kind = .kwElse ∨
      kind = .kwWhile ∨ kind = .kwReturn := by
  unfold TokenKind.keyword? at h
  split at h <;> cases h <;> simp

namespace Scan

theorem Word.spells {kind : TokenKind} {w rest : List Char} (h : Word kind w rest) :
    kind.Spells (String.ofList w) w ∧ kind.EndsBefore rest := by
  cases h with
  | name hc hn hr =>
    rename_i c name
    cases hk : TokenKind.keyword? (String.ofList (c :: name)) with
    | none => exact ⟨⟨rfl, ⟨c, name, rfl, hc, hn⟩, hk⟩, hr⟩
    | some kind =>
      simp only [Option.getD_some]
      rcases TokenKind.keyword?_eq_some hk with rfl | rfl | rfl | rfl | rfl | rfl | rfl <;>
        exact ⟨⟨rfl, .inl hk⟩, hr⟩
  | int hne hd hr hdot => exact ⟨⟨rfl, hne, hd⟩, hr, hdot⟩
  | float hds hdd hfs hfd hr =>
    refine ⟨⟨rfl, _, _, rfl, hds, hfs, fun d hd => ?_⟩, hr⟩
    rcases List.mem_append.mp hd with hd | hd
    exacts [hdd d hd, hfd d hd]
  | symbol hs =>
    cases kind <;> simp_all [TokenKind.spelling?, TokenKind.Spells, TokenKind.EndsBefore]

theorem Takes.spells {pos : Nat} {w rest : List Char} {token : Option (TokenKind × String)}
    {faults : List LexFault} (h : Takes pos w rest token faults) {kind : TokenKind} {text : String}
    (ht : token = some (kind, text)) : kind.Spells text w ∧ kind.EndsBefore rest := by
  cases h with
  | word hw =>
    cases ht
    exact hw.spells
  | string hc =>
    cases ht
    exact ⟨⟨_, rfl, rfl, hc⟩, trivial⟩
  | _ => cases ht

end Scan
end Sigh
