import Sigh.Proofs.Printing.Tokens
import Sigh.Proofs.Lexing.Partition

namespace Sigh

/-- A token's kind and text, its span forgotten. -/
def Token.view (t : Token) : TokenKind × String := (t.kind, t.text)

/-- A node that prints in a form that reads back: reader-shaped, with a plain literal. -/
def Expr.Printable (e : Expr) : Prop := e.ReaderShaped ∧ e.PlainLiteral

namespace Scan

/-- What one step finds: a token of kind `kind` and text `text` read from the word `w`, no fault,
and the text `rest` after the word. -/
def Step.Emits {cs : List Char} (s : Step cs) (kind : TokenKind) (text : String)
    (w rest : List Char) : Prop :=
  s.token = some (kind, text) ∧ s.faults = [] ∧ s.width = Scan.width w ∧ s.rest = rest

theorem isIdentStart_facts {c : Char} (h : isIdentStart c) :
    isBlank c = false ∧ c ≠ '/' ∧ c ≠ '"' ∧ c.isDigit = false ∧ c ≠ '=' := by
  simp only [isIdentStart, Char.isAlpha, Char.isUpper, Char.isLower, Bool.or_eq_true,
    Bool.and_eq_true, decide_eq_true_eq] at h
  simp only [isBlank, Char.isDigit, Bool.or_eq_false_iff, decide_eq_false_iff_not, ne_eq,
    Bool.and_eq_false_iff, Char.ext_iff, ← UInt32.toNat_inj]
  simp only [UInt32.le_iff_toNat_le] at h ⊢
  simp at h ⊢
  rcases h with h | rfl
  · omega
  · decide

theorem isDigit_facts {c : Char} (h : c.isDigit) :
    isBlank c = false ∧ c ≠ '/' ∧ c ≠ '"' ∧ c ≠ '=' ∧ c ≠ '-' := by
  simp only [Char.isDigit, Bool.and_eq_true, decide_eq_true_eq] at h
  simp only [isBlank, Bool.or_eq_false_iff, decide_eq_false_iff_not, ne_eq, Char.ext_iff,
    ← UInt32.toNat_inj]
  simp only [UInt32.le_iff_toNat_le] at h ⊢
  simp at h ⊢
  omega

theorem span_append {p : Char → Bool} {body rest : List Char} (inside : ∀ d ∈ body, p d)
    (boundary : ∀ d ∈ rest.head?, p d = false) :
    (body ++ rest).takeWhile p = body ∧ (body ++ rest).dropWhile p = rest := by
  rw [List.takeWhile_append_of_pos inside, List.dropWhile_append_of_pos inside]
  cases rest with
  | nil => simp
  | cons d rest => simp [boundary d rfl]

theorem step_single {c : Char} {kind : TokenKind} (h : single? c = some kind) {r : List Char}
    (hr : r.head? ≠ some '/') (pos : Nat) :
    (step c r pos).Emits kind (String.ofList [c]) [c] r := by
  unfold single? at h
  split at h <;> cases h <;> simp_all [step, isBlank, isIdentStart, single?, Step.Emits, emit]

theorem step_alone {c : Char} {alone joined : TokenKind} (h : withEqual? c = some (alone, joined))
    {r : List Char} (hr : r.head? ≠ some '=') (pos : Nat) :
    (step c r pos).Emits alone (String.ofList [c]) [c] r := by
  unfold withEqual? at h
  split at h <;> cases h <;>
    (cases r with
      | nil => simp_all [step, isBlank, isIdentStart, single?, withEqual?, Step.Emits, emit]
      | cons d r =>
        have hd : d ≠ '=' := by simpa using hr
        simp_all [step, isBlank, isIdentStart, single?, withEqual?, Step.Emits, emit])

theorem step_joined {c : Char} {alone joined : TokenKind} (h : withEqual? c = some (alone, joined))
    (r : List Char) (pos : Nat) :
    (step c ('=' :: r) pos).Emits joined (String.ofList [c, '=']) [c, '='] r := by
  unfold withEqual? at h
  split at h <;> cases h <;>
    simp_all [step, isBlank, isIdentStart, single?, withEqual?, Step.Emits, emit]

theorem step_doubled {c : Char} {kind : TokenKind} (h : doubled? c = some kind)
    (r : List Char) (pos : Nat) :
    (step c (c :: r) pos).Emits kind (String.ofList [c, c]) [c, c] r := by
  unfold doubled? at h
  split at h <;> cases h <;>
    simp_all [step, isBlank, isIdentStart, single?, withEqual?, doubled?, Step.Emits, emit]

theorem step_name {c : Char} {w r : List Char} (hc : isIdentStart c)
    (hw : ∀ d ∈ w, isIdentContinue d) (hr : ∀ d ∈ r.head?, isIdentContinue d = false)
    (pos : Nat) :
    (step c (w ++ r) pos).Emits ((TokenKind.keyword? (String.ofList (c :: w))).getD .ident)
      (String.ofList (c :: w)) (c :: w) r := by
  obtain ⟨hb, hs, hq, hd, -⟩ := isIdentStart_facts hc
  obtain ⟨ht, hd'⟩ := span_append hw hr
  simp [step, hb, hs, hq, hd, hc, ht, hd', Step.Emits, emit]

theorem step_int {c : Char} {ds r : List Char} (hc : c.isDigit) (hds : ∀ d ∈ ds, d.isDigit)
    (hr : ∀ d ∈ r.head?, d.isDigit = false)
    (hdot : ∀ d more, r = '.' :: d :: more → d.isDigit = false) (pos : Nat) :
    (step c (ds ++ r) pos).Emits .intLiteral (String.ofList (c :: ds)) (c :: ds) r := by
  obtain ⟨hb, hs, hq, -⟩ := isDigit_facts hc
  obtain ⟨ht, hd⟩ := span_append hds hr
  unfold step
  simp only [hb, hs, hq, hc, decide_false, Bool.false_and, Bool.false_eq_true, if_false, if_true]
  split
  next d more _ hafter _ =>
    rw [hd] at hafter
    rw [if_neg (by simp [hdot d more hafter])]
    simp [Step.Emits, emit, ht, hafter.symm]
  next => simp [Step.Emits, emit, ht, hd]

theorem step_float {c : Char} {ds fs r : List Char} (hc : c.isDigit) (hds : ∀ d ∈ ds, d.isDigit)
    (hfs : fs ≠ []) (hfd : ∀ d ∈ fs, d.isDigit) (hr : ∀ d ∈ r.head?, d.isDigit = false)
    (pos : Nat) :
    (step c (ds ++ '.' :: fs ++ r) pos).Emits .floatLiteral (String.ofList (c :: ds ++ '.' :: fs))
      (c :: ds ++ '.' :: fs) r := by
  obtain ⟨hb, hs, hq, -⟩ := isDigit_facts hc
  obtain ⟨f, fs, rfl⟩ := List.exists_cons_of_ne_nil hfs
  have hf : f.isDigit := hfd f (by simp)
  obtain ⟨ht, hd⟩ := span_append hds (show ∀ d ∈ ('.' :: f :: fs ++ r).head?, d.isDigit = false by simp)
  obtain ⟨ht', hd'⟩ := span_append (fun d hd => hfd d (List.mem_cons_of_mem f hd)) hr
  unfold step
  simp only [hb, hs, hq, hc, decide_false, Bool.false_and, Bool.false_eq_true, if_false, if_true,
    List.append_assoc, List.cons_append]
  split
  next d more _ hafter _ =>
    simp only [List.append_assoc, List.cons_append] at hafter ht hd
    rw [hd, List.cons.injEq, List.cons.injEq] at hafter
    obtain ⟨-, rfl, rfl⟩ := hafter
    rw [if_pos hf]
    simp [Step.Emits, emit, ht, ht', hd']
  next hnot =>
    simp only [List.append_assoc, List.cons_append] at hd hnot
    exact absurd (hnot f (fs ++ r) (by simp) hd (proof_irrel_heq _ _)) id

theorem step_string {content r : List Char}
    (h : ∀ pos, stringBody (content ++ '"' :: r) pos = ⟨content, [], some r⟩) (pos : Nat) :
    (step '"' (content ++ '"' :: r) pos).Emits .stringLiteral (String.ofList content)
      ('"' :: content ++ ['"']) r := by
  unfold step
  simp only [show isBlank '"' = false from rfl, show ('"' = '/') = False from by decide,
    decide_false, Bool.false_and, Bool.false_eq_true, if_false, if_true]
  split
  next rest hrest =>
    have hb := h (pos + 1)
    rw [hb] at hrest
    cases hrest
    have hq : '"'.utf8Size = 1 := rfl
    refine ⟨?_, ?_, ?_, rfl⟩ <;> simp [hb, hq]
    omega
  next hrest => simp [h] at hrest

end Scan

namespace Text

theorem escapeValue?_simple {x c : Char} (h : escapeValue? x = some c) : Scan.isSimpleEscape x := by
  unfold escapeValue? at h
  split at h <;> cases h <;> decide

theorem quoteChar_of_writtenPlain {c : Char} (h : WrittenPlain c) :
    (quoteChar c = [c] ∧ c ≠ '"' ∧ c ≠ '\\') ∨
      ∃ x, quoteChar c = ['\\', x] ∧ escapeValue? x = some c := by
  obtain ⟨hz, he⟩ := h
  unfold quoteChar
  split
  · exact absurd rfl hz
  · exact .inr ⟨'t', rfl, rfl⟩
  · exact .inr ⟨'r', rfl, rfl⟩
  · exact .inr ⟨'n', rfl, rfl⟩
  · exact .inr ⟨'\\', rfl, rfl⟩
  · exact .inr ⟨'"', rfl, rfl⟩
  · rename_i _ ht hr hn hb hq
    split
    · rename_i hesc
      rcases he hesc with rfl | rfl | rfl
      · exact absurd rfl ht
      · exact absurd rfl hr
      · exact absurd rfl hn
    · exact .inl ⟨rfl, hq, hb⟩

theorem stringBody_quoted {cs : List Char} (hcs : ∀ c ∈ cs, WrittenPlain c) (r : List Char)
    (pos : Nat) :
    Scan.stringBody (cs.flatMap quoteChar ++ '"' :: r) pos = ⟨cs.flatMap quoteChar, [], some r⟩ := by
  induction cs generalizing pos with
  | nil => simp [Scan.stringBody]
  | cons c cs ih =>
    have hrest := ih (fun d hd => hcs d (List.mem_cons_of_mem c hd))
    rcases quoteChar_of_writtenPlain (hcs c (by simp)) with ⟨hq, hne, hnb⟩ | ⟨x, hq, hx⟩
    · rw [List.flatMap_cons, hq, List.singleton_append, List.cons_append,
        Scan.stringBody.eq_4 _ _ _ hne (fun _ _ h _ => hnb h)]
      simp [hrest]
    · rw [List.flatMap_cons, hq]
      simp only [List.cons_append, List.nil_append]
      rw [Scan.stringBody.eq_3]
      simp [hrest, escapeValue?_simple hx]

theorem unescapeChars_quoted {cs : List Char} (hcs : ∀ c ∈ cs, WrittenPlain c) :
    unescapeChars (cs.flatMap quoteChar) = cs := by
  induction cs with
  | nil => rfl
  | cons c cs ih =>
    have hrest := ih (fun d hd => hcs d (List.mem_cons_of_mem c hd))
    rcases quoteChar_of_writtenPlain (hcs c (by simp)) with ⟨hq, -, hnb⟩ | ⟨x, hq, hx⟩
    · rw [List.flatMap_cons, hq, List.singleton_append, unescapeChars.eq_3 _ _ (fun _ _ h _ => hnb h),
        hrest]
    · rw [List.flatMap_cons, hq]
      simp only [List.cons_append, List.nil_append]
      rw [unescapeChars.eq_2, hx, hrest]

end Text

namespace Scan

/-- Reading a text made of `cs` followed by `r` steps over exactly `cs`, finds tokens that have
the kinds and texts `ts` and no fault, and goes on at `r`. -/
def ReadsOver (cs r : List Char) (ts : List (TokenKind × String)) : Prop :=
  ∀ pos tokens faults, ∃ found : List Token, found.map Token.view = ts ∧
    run (cs ++ r) pos tokens faults = run r (pos + width cs) (tokens ++ found.toArray) faults

theorem ReadsOver.nil (r : List Char) : ReadsOver [] r [] :=
  fun _ _ _ => ⟨[], rfl, by simp⟩

theorem ReadsOver.append {a b r : List Char} {ta tb : List (TokenKind × String)}
    (ha : ReadsOver a (b ++ r) ta) (hb : ReadsOver b r tb) : ReadsOver (a ++ b) r (ta ++ tb) := by
  intro pos tokens faults
  obtain ⟨fa, hfa, hra⟩ := ha pos tokens faults
  obtain ⟨fb, hfb, hrb⟩ := hb (pos + width a) (tokens ++ fa.toArray) faults
  refine ⟨fa ++ fb, by simp [hfa, hfb], ?_⟩
  rw [List.append_assoc, hra, hrb]
  simp [Nat.add_assoc]

theorem ReadsOver.cons {c : Char} {cs r : List Char} {t : TokenKind × String}
    {ts : List (TokenKind × String)} (hc : ReadsOver [c] (cs ++ r) [t]) (hcs : ReadsOver cs r ts) :
    ReadsOver (c :: cs) r (t :: ts) :=
  hc.append hcs

theorem ReadsOver.word {c : Char} {w r : List Char} {kind : TokenKind} {text : String}
    (h : ∀ pos, (step c (w ++ r) pos).Emits kind text (c :: w) r) :
    ReadsOver (c :: w) r [(kind, text)] := by
  intro pos tokens faults
  obtain ⟨htok, hf, hw, hr⟩ := h pos
  refine ⟨[⟨kind, ⟨pos, pos + width (c :: w)⟩, text⟩], rfl, ?_⟩
  rw [List.cons_append, run.eq_2]
  simp only [htok, hf, hw, hr]
  simp

theorem ReadsOver.blank {c : Char} {cs r : List Char} {ts : List (TokenKind × String)}
    (hc : isBlank c) (hcs : ReadsOver cs r ts) : ReadsOver (c :: cs) r ts := by
  intro pos tokens faults
  obtain ⟨found, hfound, hrun⟩ := hcs (pos + c.utf8Size) tokens faults
  refine ⟨found, hfound, ?_⟩
  rw [List.cons_append, run.eq_2]
  simp only [step, hc, if_true, Array.append_empty]
  rw [hrun, width_cons, Nat.add_assoc]

/-- Text that no token of a printed expression runs into: it starts with no letter, digit or
underscore, no `=` and no `/`, and with no point before a digit. -/
def Follows (r : List Char) : Prop :=
  (∀ d ∈ r.head?, isIdentContinue d = false ∧ d ≠ '=' ∧ d ≠ '/') ∧
    ∀ d more, r = '.' :: d :: more → d.isDigit = false

/-- Text that joins no punctuation before it into a longer token: it starts with no `=` and
no `/`. -/
def Apart (r : List Char) : Prop := ∀ d ∈ r.head?, d ≠ '=' ∧ d ≠ '/'

theorem Follows.apart {r : List Char} (h : Follows r) : Apart r :=
  fun d hd => (h.1 d hd).2

theorem Follows.noDigit {r : List Char} (h : Follows r) : ∀ d ∈ r.head?, d.isDigit = false := by
  intro d hd
  have := (h.1 d hd).1
  simp only [isIdentContinue, Bool.or_eq_false_iff] at this
  exact this.2

theorem follows_nil : Follows [] := ⟨by simp, by simp⟩

theorem follows_cons {c : Char} (hc : c = ' ' ∨ c = ',' ∨ c = ')' ∨ c = ']' ∨ c = '(' ∨ c = '[')
    (r : List Char) : Follows (c :: r) := by
  refine ⟨fun d hd => ?_, fun d more h => ?_⟩
  · obtain rfl : c = d := by simpa using hd
    rcases hc with rfl | rfl | rfl | rfl | rfl | rfl <;> decide
  · obtain rfl : c = '.' := (List.cons.inj h).1
    rcases hc with h | h | h | h | h | h <;> cases h

theorem follows_dot {d : Char} (hd : isIdentStart d) (r : List Char) : Follows ('.' :: d :: r) := by
  refine ⟨fun x hx => ?_, fun x more h => ?_⟩
  · obtain rfl : x = '.' := by simpa using hx.symm
    decide
  · obtain rfl : x = d := ((List.cons.inj h).2 |> List.cons.inj).1.symm
    exact (isIdentStart_facts hd).2.2.2.1

theorem apart_cons {c : Char} (h₁ : c ≠ '=') (h₂ : c ≠ '/') (r : List Char) : Apart (c :: r) := by
  intro d hd
  obtain rfl : c = d := by simpa using hd
  exact ⟨h₁, h₂⟩

theorem ReadsOver.single {c : Char} {kind : TokenKind} (h : single? c = some kind) {r : List Char}
    (hr : Apart r) : ReadsOver [c] r [(kind, String.ofList [c])] :=
  ReadsOver.word (w := []) fun pos => step_single h (fun he => (hr '/' he).2 rfl) pos

theorem ReadsOver.alone {c : Char} {alone joined : TokenKind}
    (h : withEqual? c = some (alone, joined)) {r : List Char} (hr : Apart r) :
    ReadsOver [c] r [(alone, String.ofList [c])] :=
  ReadsOver.word (w := []) fun pos => step_alone h (fun he => (hr '=' he).1 rfl) pos

theorem BinOp.readsOver_symbol (op : BinOp) {r : List Char} (hr : Apart r) :
    ReadsOver op.symbol.toList r [(op.tokenKind, op.symbol)] := by
  cases op
  case mul => exact ReadsOver.single rfl hr
  case div => exact ReadsOver.single rfl hr
  case rem => exact ReadsOver.single rfl hr
  case dot => exact ReadsOver.single rfl hr
  case add => exact ReadsOver.single rfl hr
  case sub => exact ReadsOver.single rfl hr
  case gt => exact ReadsOver.alone rfl hr
  case lt => exact ReadsOver.alone rfl hr
  case eq => exact ReadsOver.word (w := ['=']) fun pos => step_joined rfl r pos
  case ne => exact ReadsOver.word (w := ['=']) fun pos => step_joined rfl r pos
  case ge => exact ReadsOver.word (w := ['=']) fun pos => step_joined rfl r pos
  case le => exact ReadsOver.word (w := ['=']) fun pos => step_joined rfl r pos
  case and => exact ReadsOver.word (w := ['&']) fun pos => step_doubled rfl r pos
  case or => exact ReadsOver.word (w := ['|']) fun pos => step_doubled rfl r pos

theorem readsOver_ident {name : String} (h : IsIdentifier name) {r : List Char} (hr : Follows r) :
    ReadsOver name.toList r [(.ident, name)] := by
  obtain ⟨⟨c, w, hw, hc, hcont⟩, hkw⟩ := h
  have hname : String.ofList (c :: w) = name := by rw [← hw, String.ofList_toList]
  have hstep := ReadsOver.word (r := r) fun pos =>
    step_name hc hcont (fun d hd => (hr.1 d hd).1) pos
  rwa [hname, hkw, Option.getD_none, ← hw] at hstep

theorem readsOver_digits {ds : List Char} (hne : ds ≠ []) (hd : ∀ d ∈ ds, d.isDigit)
    {r : List Char} (hr : Follows r) : ReadsOver ds r [(.intLiteral, String.ofList ds)] := by
  obtain ⟨c, ds, rfl⟩ := List.exists_cons_of_ne_nil hne
  exact ReadsOver.word fun pos =>
    step_int (hd c (by simp)) (fun d h => hd d (List.mem_cons_of_mem c h)) hr.noDigit hr.2 pos

theorem readsOver_pointed {t : String} (ht : Decimal.PointedDigits t) {r : List Char}
    (hr : Follows r) : ReadsOver t.toList r [(.floatLiteral, t)] := by
  obtain ⟨ws, fs, htl, hw, hf, hd⟩ := ht
  obtain ⟨c, ws, rfl⟩ := List.exists_cons_of_ne_nil hw
  have hstep := ReadsOver.word (r := r) fun pos =>
    step_float (hd c (by simp)) (fun d (h : d ∈ ws) => hd d (by simp [h])) hf
      (fun d (h : d ∈ fs) => hd d (by simp [h])) hr.noDigit pos
  rw [← List.cons_append, ← htl, String.ofList_toList] at hstep
  exact hstep

theorem readsOver_signed {t : String} {kind : TokenKind} {r : List Char}
    (ha : Apart (t.toList ++ r)) (h : ReadsOver t.toList r [(kind, t)]) :
    ReadsOver ("-" ++ t).toList r [(.minus, "-"), (kind, t)] := by
  rw [String.toList_append, show "-".toList = ['-'] from rfl]
  exact ReadsOver.cons (ReadsOver.single rfl ha) h

theorem readsOver_quoted {v : String} (hv : ∀ c ∈ v.toList, Text.WrittenPlain c) (r : List Char) :
    ReadsOver (Text.quote v).toList r
      [(.stringLiteral, String.ofList (v.toList.flatMap Text.quoteChar))] := by
  have hbody : ∀ pos, stringBody (v.toList.flatMap Text.quoteChar ++ '"' :: r) pos =
      ⟨v.toList.flatMap Text.quoteChar, [], some r⟩ := Text.stringBody_quoted hv r
  have hstep : ReadsOver ('"' :: (v.toList.flatMap Text.quoteChar ++ ['"'])) r
      [(.stringLiteral, String.ofList (v.toList.flatMap Text.quoteChar))] := by
    refine ReadsOver.word fun pos => ?_
    rw [List.append_assoc, List.singleton_append]
    exact step_string hbody pos
  have hq : (Text.quote v).toList = '"' :: (v.toList.flatMap Text.quoteChar ++ ['"']) := by
    simp [Text.quote]
  rw [hq]
  exact hstep

end Scan

namespace Expr

open Scan

theorem literalTokens_of_digit {kind : TokenKind} {text : String} {d : Char} {rest : List Char}
    (h : text.toList = d :: rest) (hd : d.isDigit) : literalTokens kind text = [(kind, text)] := by
  unfold literalTokens
  rw [h]
  split
  next digits heq =>
    obtain ⟨rfl, -⟩ := List.cons.inj heq
    exact absurd rfl (isDigit_facts hd).2.2.2.2
  next => rfl

theorem literalTokens_neg (kind : TokenKind) (t : String) :
    literalTokens kind ("-" ++ t) = [(.minus, "-"), (kind, t)] := by
  simp [literalTokens, String.toList_append]

theorem int_toString_cases (i : Int) :
    (0 ≤ i ∧ toString i = Nat.repr i.toNat) ∨ (i < 0 ∧ toString i = "-" ++ Nat.repr i.natAbs) := by
  cases i with
  | ofNat n => exact .inl ⟨Int.natCast_nonneg n, rfl⟩
  | negSucc n => exact .inr ⟨Int.negSucc_lt_zero n, rfl⟩

theorem repr_toList (n : Nat) :
    (Nat.repr n).toList ≠ [] ∧ ∀ d ∈ (Nat.repr n).toList, d.isDigit := by
  simp only [Nat.repr, String.toList_ofList]
  exact ⟨Nat.toDigits_ne_nil, fun _ hd => Nat.isDigit_of_mem_toDigits (by norm_num) (by norm_num) hd⟩

theorem apart_digits {ds : List Char} (hne : ds ≠ []) (hd : ∀ d ∈ ds, d.isDigit) (r : List Char) :
    Apart (ds ++ r) := by
  obtain ⟨c, ds, rfl⟩ := List.exists_cons_of_ne_nil hne
  obtain ⟨-, h₂, -, h₁, -⟩ := isDigit_facts (hd c (by simp))
  exact apart_cons h₁ h₂ _

theorem readsOver_int (i : Int) {r : List Char} (hr : Follows r) :
    ReadsOver (toString i).toList r (literalTokens .intLiteral (toString i)) ∧
      ∀ r', Apart ((toString i).toList ++ r') := by
  rcases int_toString_cases i with ⟨-, h⟩ | ⟨-, h⟩
  · obtain ⟨hne, hd⟩ := repr_toList i.toNat
    obtain ⟨c, ds, hcs⟩ := List.exists_cons_of_ne_nil hne
    rw [h, literalTokens_of_digit hcs (hd c (by simp [hcs]))]
    have hread := readsOver_digits hne hd hr
    rw [String.ofList_toList] at hread
    exact ⟨hread, apart_digits hne hd⟩
  · obtain ⟨hne, hd⟩ := repr_toList i.natAbs
    rw [h, literalTokens_neg]
    have hread := readsOver_digits hne hd hr
    rw [String.ofList_toList] at hread
    refine ⟨readsOver_signed (apart_digits hne hd r) hread, fun r' => ?_⟩
    rw [String.toList_append]
    exact apart_cons (by decide) (by decide) _

theorem readsOver_float {x : Float} (hx : Decimal.PrintsPositionally x) {r : List Char}
    (hr : Follows r) :
    ReadsOver (Decimal.literalStyle.render x).toList r
        (literalTokens .floatLiteral (Decimal.literalStyle.render x)) ∧
      ∀ r', Apart ((Decimal.literalStyle.render x).toList ++ r') := by
  obtain ⟨neg, t, hrender, ht, -⟩ := Decimal.render_reads_back hx
  have hread := readsOver_pointed ht hr
  obtain ⟨ws, fs, htl, hw, -, hd⟩ := ht
  obtain ⟨c, ws', rfl⟩ := List.exists_cons_of_ne_nil hw
  have hc : c.isDigit := hd c (by simp)
  have happ : ∀ r', Apart (t.toList ++ r') := fun r' => by
    rw [htl]
    obtain ⟨-, h₂, -, h₁, -⟩ := isDigit_facts hc
    exact apart_cons h₁ h₂ _
  rw [hrender]
  cases neg
  · rw [if_neg Bool.false_ne_true, literalTokens_of_digit (by rw [htl]; rfl) hc]
    exact ⟨hread, happ⟩
  · rw [if_pos rfl, literalTokens_neg]
    refine ⟨readsOver_signed (happ r) hread, fun r' => ?_⟩
    rw [String.toList_append]
    exact apart_cons (by decide) (by decide) _

theorem apart_ident {name : String} (h : IsIdentifier name) (r : List Char) :
    Apart (name.toList ++ r) := by
  obtain ⟨⟨c, w, hw, hc, -⟩, -⟩ := h
  obtain ⟨-, h₂, -, -, h₁⟩ := isIdentStart_facts hc
  rw [hw]
  exact apart_cons h₁ h₂ _

theorem text_apart : ∀ (e : Expr), e.Every Printable → ∀ r, Apart (e.text.toList ++ r)
  | int v _, _, r => (readsOver_int v.toInt follows_nil).2 r
  | float v _, h, r => (readsOver_float h.1.2 follows_nil).2 r
  | str v _, _, r => by simp only [text, Text.quote, String.toList_ofList]; exact apart_cons (by decide) (by decide) _
  | ref name _, h, r => apart_ident h.1.1 r
  | ctor name _, _, r => by simp only [text, String.toList_append]; exact apart_cons (by decide) (by decide) _
  | array items _, _, r => by simp only [text, String.toList_append]; exact apart_cons (by decide) (by decide) _
  | paren inner _, _, r => by simp only [text, String.toList_append]; exact apart_cons (by decide) (by decide) _
  | field stem name _, h, r => by
    simp only [text, String.toList_append, List.append_assoc]
    exact text_apart stem h.2 _
  | index a i _, h, r => by
    simp only [text, String.toList_append, List.append_assoc]
    exact text_apart a h.2.1 _
  | call callee args _, h, r => by
    simp only [text, String.toList_append, List.append_assoc]
    exact text_apart callee h.2.1 _
  | not operand _, _, r => by simp only [text, String.toList_append]; exact apart_cons (by decide) (by decide) _
  | binary op l r' _, _, r => by simp only [text, String.toList_append]; exact apart_cons (by decide) (by decide) _
  | assign t v _, _, r => by simp only [text, String.toList_append]; exact apart_cons (by decide) (by decide) _

theorem textList_apart {es : List Expr} (h : EveryList Printable es) {r : List Char} (hr : Apart r) :
    Apart ((textList es).toList ++ r) := by
  match es, h with
  | [], _ => exact hr
  | [e], h => exact text_apart e h.1 r
  | e :: e' :: es, h =>
    simp only [textList, String.toList_append, List.append_assoc]
    exact text_apart e h.1 _

mutual
theorem text_readsOver : ∀ (e : Expr), e.Every Printable → ∀ {r : List Char}, Follows r →
    ReadsOver e.text.toList r e.tokens
  | int v _, _, _, hr => (readsOver_int v.toInt hr).1
  | float v _, h, _, hr => (readsOver_float h.1.2 hr).1
  | str v _, h, r, _ => readsOver_quoted h.1.2 r
  | ref name _, h, _, hr => readsOver_ident h.1.1 hr
  | ctor name _, h, r, hr => by
    simp only [text, tokens, String.toList_append, String.reduceToList, List.cons_append,
      List.nil_append]
    exact .cons (.single rfl (apart_ident h.1.1 r)) (readsOver_ident h.1.1 hr)
  | array items _, h, r, hr => by
    simp only [text, tokens, String.toList_append, String.reduceToList, List.cons_append,
      List.nil_append]
    refine .cons (.single rfl ?_)
      (.append (textList_readsOver items h.2 (follows_cons (by simp) r)) (.single rfl hr.apart))
    rw [List.append_assoc]
    exact textList_apart h.2 (apart_cons (by decide) (by decide) r)
  | paren inner _, h, r, hr => by
    simp only [text, tokens, String.toList_append, String.reduceToList, List.cons_append,
      List.nil_append]
    refine .cons (.single rfl ?_)
      (.append (text_readsOver inner h.2 (follows_cons (by simp) r)) (.single rfl hr.apart))
    rw [List.append_assoc]
    exact text_apart inner h.2 _
  | field stem name _, h, r, hr => by
    obtain ⟨⟨c, w, hw, hc, -⟩, -⟩ := h.1.1.2
    have hname := readsOver_ident h.1.1.2 hr
    simp only [text, tokens, String.toList_append, String.reduceToList, List.cons_append,
      List.nil_append, List.append_assoc]
    refine .append (text_readsOver stem h.2 ?_) (.cons (.single rfl (apart_ident h.1.1.2 r)) hname)
    rw [hw]
    exact follows_dot hc _
  | index a i _, h, r, hr => by
    simp only [text, tokens, String.toList_append, String.reduceToList, List.cons_append,
      List.nil_append, List.append_assoc]
    exact .append (text_readsOver a h.2.1 (follows_cons (by simp) _))
      (.cons (.single rfl (by rw [List.append_assoc]; exact text_apart i h.2.2 _))
        (.append (text_readsOver i h.2.2 (follows_cons (by simp) r)) (.single rfl hr.apart)))
  | call callee args _, h, r, hr => by
    simp only [text, tokens, String.toList_append, String.reduceToList, List.cons_append,
      List.nil_append, List.append_assoc]
    exact .append (text_readsOver callee h.2.1 (follows_cons (by simp) _))
      (.cons (.single rfl (by
          rw [List.append_assoc]
          exact textList_apart h.2.2 (apart_cons (by decide) (by decide) r)))
        (.append (textList_readsOver args h.2.2 (follows_cons (by simp) r)) (.single rfl hr.apart)))
  | not operand _, h, r, hr => by
    simp only [text, tokens, String.toList_append, String.reduceToList, List.cons_append,
      List.nil_append]
    exact .cons (.alone rfl (text_apart operand h.2 r)) (text_readsOver operand h.2 hr)
  | binary op l r' _, h, r, hr => by
    simp only [text, tokens, String.toList_append, String.reduceToList, List.cons_append,
      List.nil_append, List.append_assoc]
    refine .cons (.single rfl (by rw [List.append_assoc]; exact text_apart l h.2.1 _)) ?_
    exact .append (text_readsOver l h.2.1 (follows_cons (by simp) _))
      (.blank (by decide) (.append (BinOp.readsOver_symbol op (apart_cons (by decide) (by decide) _))
        (.blank (by decide) (.append (text_readsOver r' h.2.2 (follows_cons (by simp) r))
          (.single rfl hr.apart)))))
  | assign t v _, h, r, hr => by
    simp only [text, tokens, String.toList_append, String.reduceToList, List.cons_append,
      List.nil_append, List.append_assoc]
    refine .cons (.single rfl (by rw [List.append_assoc]; exact text_apart t h.2.1 _)) ?_
    exact .append (text_readsOver t h.2.1 (follows_cons (by simp) _))
      (.blank (by decide) (.cons (.alone rfl (apart_cons (by decide) (by decide) _))
        (.blank (by decide) (.append (text_readsOver v h.2.2 (follows_cons (by simp) r))
          (.single rfl hr.apart)))))

theorem textList_readsOver : ∀ (es : List Expr), EveryList Printable es → ∀ {r : List Char},
    Follows r → ReadsOver (textList es).toList r (tokensList es)
  | [], _, r, _ => ReadsOver.nil r
  | [e], h, _, hr => text_readsOver e h.1 hr
  | e :: e' :: es, h, r, hr => by
    simp only [textList, tokensList, String.toList_append, String.reduceToList, List.cons_append,
      List.nil_append, List.append_assoc]
    exact .append (text_readsOver e h.1 (follows_cons (by simp) _))
      (.cons (.single rfl (apart_cons (by decide) (by decide) _))
        (.blank (by decide) (textList_readsOver (e' :: es) h.2 hr)))
end

theorem lex_text {e : Expr} (h : e.Every Printable) :
    ∃ found : List Token, found.map Token.view = e.tokens ∧
      lex e.text = ⟨found ++ [⟨.eof, ⟨e.text.utf8ByteSize, e.text.utf8ByteSize⟩, ""⟩], []⟩ := by
  obtain ⟨found, hfound, hrun⟩ := text_readsOver e h follows_nil 0 #[] #[]
  refine ⟨found, hfound, ?_⟩
  rw [lex, ← List.append_nil e.text.toList, hrun]
  simp [run, Scan.utf8ByteSize_eq_width]

end Expr

end Sigh
