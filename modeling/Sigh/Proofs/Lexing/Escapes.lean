import Sigh.Proofs.Lexing.Partition

namespace Sigh

/-- A piece of a string literal's raw content. -/
inductive Segment where
  | char (c : Char)
  | escape (c : Char)
  deriving DecidableEq, Repr

namespace Segment

/-- How a segment is written. -/
def raw : Segment → List Char
  | char c => [c]
  | escape c => ['\\', c]

/-- What a segment stands for: each of `\n`, `\r`, `\t`, `\\` and `\"` one character, any other
escape itself. -/
def decoded : Segment → List Char
  | escape 'n' => ['\n']
  | escape 'r' => ['\r']
  | escape 't' => ['\t']
  | escape '\\' => ['\\']
  | escape '"' => ['"']
  | s => s.raw

/-- An escape that decoding keeps as written. -/
def kept : Segment → Bool
  | escape c => (escape c).decoded == ['\\', c]
  | char _ => false

@[simp] theorem decoded_char (c : Char) : (char c).decoded = [c] := rfl

@[simp] theorem kept_char (c : Char) : (char c).kept = false := rfl

theorem decoded_escape (c : Char) :
    (escape c).decoded = match escapeValue? c with
      | some v => [v]
      | none => ['\\', c] := by
  unfold decoded escapeValue?
  split <;> simp_all [raw]

theorem isSimpleEscape_eq (c : Char) : Scan.isSimpleEscape c = (escapeValue? c).isSome := by
  unfold escapeValue?
  split <;> simp_all [Scan.isSimpleEscape]

theorem kept_escape (c : Char) : (escape c).kept = !Scan.isSimpleEscape c := by
  rw [kept, decoded_escape, isSimpleEscape_eq]
  cases escapeValue? c <;> simp

end Segment

/-- The segments of raw content, read from the left: a backslash pairs with the character after
it, and one that ends the content stands for itself. -/
def segments : List Char → List Segment
  | '\\' :: c :: rest => .escape c :: segments rest
  | c :: rest => .char c :: segments rest
  | [] => []

@[simp] theorem segments_escape (c : Char) (rest : List Char) :
    segments ('\\' :: c :: rest) = .escape c :: segments rest := rfl

theorem segments_char {c : Char} (hc : c ≠ '\\') (rest : List Char) :
    segments (c :: rest) = .char c :: segments rest := by
  cases rest <;> simp [segments, hc]

theorem segments_cons_of_not_escape {c : Char} {rest : List Char}
    (h : ∀ d more, c = '\\' → rest = d :: more → False) :
    segments (c :: rest) = .char c :: segments rest := by
  by_cases hb : c = '\\'
  · cases rest with
    | nil => rw [hb]; rfl
    | cons d more => exact absurd rfl (h d more hb)
  · exact segments_char hb rest

theorem unescapeChars_eq (cs : List Char) :
    unescapeChars cs = (segments cs).flatMap Segment.decoded := by
  fun_induction unescapeChars cs with
  | case1 => rfl
  | case2 c rest v hv ih => simp [Segment.decoded_escape, hv, ih]
  | case3 c rest hv ih => simp [Segment.decoded_escape, hv, ih]
  | case4 c rest hc ih => simp [segments_cons_of_not_escape hc, ih]

theorem unescape_eq_decoded (raw : String) :
    (unescape raw).toList = (segments raw.toList).flatMap Segment.decoded := by
  rw [unescape, String.toList_ofList, unescapeChars_eq]

theorem segments_flatMap_raw (cs : List Char) : (segments cs).flatMap Segment.raw = cs := by
  fun_induction segments cs with
  | case1 c rest ih => simp [Segment.raw, ih]
  | case2 c rest hc ih => simp [Segment.raw, ih]
  | case3 => rfl

/-- The spans of the kept escapes among `segs`, written from byte `pos` on. -/
def keptSpans : Nat → List Segment → List Span
  | _, [] => []
  | pos, s :: segs =>
    if s.kept then ⟨pos, pos + Scan.width s.raw⟩ :: keptSpans (pos + Scan.width s.raw) segs
    else keptSpans (pos + Scan.width s.raw) segs

theorem keptSpans_within (pos : Nat) (segs : List Segment) :
    ∀ e ∈ keptSpans pos segs, pos ≤ e.start ∧ e.start < e.stop ∧
      e.stop ≤ pos + Scan.width (segs.flatMap Segment.raw) := by
  induction segs generalizing pos with
  | nil => simp [keptSpans]
  | cons s segs ih =>
    have hw : 0 < Scan.width s.raw := by
      cases s <;> simp [Segment.raw, Char.utf8Size_pos]
    intro e he
    simp only [keptSpans] at he
    split at he
    · rcases List.mem_cons.mp he with rfl | he
      · simp only [List.flatMap_cons, Scan.width_append]
        omega
      · have := ih _ e he
        simp only [List.flatMap_cons, Scan.width_append]
        omega
    · have := ih _ e he
      simp only [List.flatMap_cons, Scan.width_append]
      omega

instance (a b : Span) : Decidable (a.Within b) := inferInstanceAs (Decidable (_ ∧ _))

/-- The invalid-escape diagnostics among `faults` that lie inside `sp`, in the order found. -/
def escapesInside (sp : Span) (faults : List LexFault) : List Diagnostic :=
  (faults.map LexFault.diagnostic).filter fun d => d.code = .invalidEscape ∧ d.span.Within sp

@[simp] theorem escapesInside_append (sp : Span) (fs gs : List LexFault) :
    escapesInside sp (fs ++ gs) = escapesInside sp fs ++ escapesInside sp gs := by
  simp [escapesInside]

theorem escapesInside_eq_nil {sp : Span} {faults : List LexFault}
    (h : ∀ e, .invalidEscape e ∈ faults → ¬ e.Within sp) : escapesInside sp faults = [] := by
  refine List.filter_eq_nil_iff.mpr fun d hd => ?_
  obtain ⟨f, hf, rfl⟩ := List.mem_map.mp hd
  cases f with
  | invalidEscape e => simpa [LexFault.diagnostic] using h e hf
  | _ => simp [LexFault.diagnostic]

theorem escapesInside_of_within {sp : Span} {spans : List Span} (h : ∀ e ∈ spans, e.Within sp) :
    escapesInside sp (spans.map .invalidEscape) =
      spans.map fun e => (LexFault.invalidEscape e).diagnostic := by
  rw [escapesInside, List.map_map, List.filter_eq_self.mpr]
  · rfl
  · intro d hd
    obtain ⟨e, he, rfl⟩ := List.mem_map.mp hd
    simp [LexFault.diagnostic, h e he]

namespace Scan

theorem Content.segments_char {cs : List Char} (h : Content cs) :
    ∀ c, .char c ∈ segments cs → c ≠ '"' ∧ c ≠ '\\' := by
  induction h with
  | nil => simp [segments]
  | @plain c cs hq hb _ ih =>
    intro d hd
    rw [Sigh.segments_char hb] at hd
    rcases List.mem_cons.mp hd with h | h
    · cases h
      exact ⟨hq, hb⟩
    · exact ih d h
  | escape _ ih =>
    intro d hd
    rw [segments_escape] at hd
    exact ih d ((List.mem_cons.mp hd).resolve_left (by simp))

theorem stringBody_segments {content : List Char} (h : Content content) (r : List Char)
    (pos : Nat) :
    stringBody (content ++ '"' :: r) pos =
      ⟨content, (keptSpans pos (segments content)).map .invalidEscape, some r⟩ := by
  induction h generalizing pos with
  | nil => simp [stringBody, segments, keptSpans]
  | @plain c cs hq hb _ ih =>
    rw [List.cons_append, stringBody.eq_4 _ _ _ hq (fun _ _ hc => absurd hc hb), ih,
      Sigh.segments_char hb]
    simp [keptSpans, Segment.raw]
  | @escape c cs _ ih =>
    have hb : ('\\' : Char).utf8Size = 1 := rfl
    rw [List.cons_append, List.cons_append, stringBody.eq_3, ih, segments_escape]
    cases hs : isSimpleEscape c <;>
      simp [keptSpans, Segment.kept_escape, hs, Segment.raw, hb, Nat.add_assoc, Nat.add_comm 1]

theorem step_escapes {c : Char} {r : List Char} {pos : Nat} {e : Span}
    (h : .invalidEscape e ∈ (step c r pos).faults) :
    pos ≤ e.start ∧ e.start < e.stop ∧ e.stop ≤ pos + (step c r pos).width := by
  obtain ⟨w, -, hwidth, htakes⟩ := step_takes c r pos
  obtain ⟨⟨pre, d, post, rfl, rfl⟩, -⟩ := htakes.escape h
  have hb : ('\\' : Char).utf8Size = 1 := rfl
  have hd := Char.utf8Size_pos d
  simp only [hwidth, width_append, width_cons]
  omega

theorem step_string_literal {c : Char} {r : List Char} {pos : Nat} {text : String}
    (h : (step c r pos).token = some (.stringLiteral, text)) :
    Content text.toList ∧ (step c r pos).width = width text.toList + 2 ∧
      (step c r pos).faults = (keptSpans (pos + 1) (segments text.toList)).map .invalidEscape := by
  obtain ⟨w, hcr, hwidth, htakes⟩ := step_takes c r pos
  obtain ⟨⟨content, rfl, rfl, hc⟩, -⟩ := htakes.spells h
  simp only [List.cons_append, List.append_assoc, List.nil_append, List.cons.injEq] at hcr
  obtain ⟨rfl, hr⟩ := hcr
  generalize (step '"' r pos).rest = rest at hr
  subst hr
  have hq : ('"' : Char).utf8Size = 1 := rfl
  refine ⟨by rwa [String.toList_ofList], by simp [hwidth, hq]; omega, ?_⟩
  have hbody := stringBody_segments hc rest (pos + 1)
  simp [step, isBlank]
  split
  · simp [hbody]
  · rename_i hopen
    simp [hbody] at hopen

/-- What a reading has found before byte `pos`: tokens and invalid escapes that end there or
earlier, and string literals, each with a well-formed content and exactly its kept escapes
reported inside it. -/
structure EscapesBefore (pos : Nat) (tokens : List Token) (faults : List LexFault) : Prop where
  tokens_stop : ∀ t ∈ tokens, t.span.stop ≤ pos
  escapes_stop : ∀ e, .invalidEscape e ∈ faults → e.start < e.stop ∧ e.stop ≤ pos
  strings : ∀ t ∈ tokens, t.kind = .stringLiteral → Content t.text.toList ∧
    escapesInside t.span faults =
      (keptSpans (t.span.start + 1) (segments t.text.toList)).map fun e =>
        (LexFault.invalidEscape e).diagnostic

theorem EscapesBefore.after_step {pos : Nat} {tokens : List Token} {faults : List LexFault}
    (h : EscapesBefore pos tokens faults) (c : Char) (r : List Char) :
    EscapesBefore (pos + (step c r pos).width)
      (tokens ++ (step c r pos).token.toList.map fun kt =>
        ⟨kt.1, ⟨pos, pos + (step c r pos).width⟩, kt.2⟩)
      (faults ++ (step c r pos).faults) := by
  have hnew := @step_escapes c r pos
  refine ⟨fun t ht => ?_, fun e he => ?_, fun t ht hk => ?_⟩
  · rcases List.mem_append.mp ht with ht | ht
    · have := h.tokens_stop t ht
      omega
    · obtain ⟨kt, -, rfl⟩ := List.mem_map.mp ht
      exact Nat.le_refl _
  · rcases List.mem_append.mp he with he | he
    · have := h.escapes_stop e he
      omega
    · have := hnew he
      omega
  rcases List.mem_append.mp ht with ht | ht
  · have hstop := h.tokens_stop t ht
    refine ⟨(h.strings t ht hk).1, ?_⟩
    rw [escapesInside_append, (h.strings t ht hk).2, escapesInside_eq_nil, List.append_nil]
    intro e he hin
    have := hnew he
    simp only [Span.Within] at hin
    omega
  · obtain ⟨⟨kind, text⟩, hkt, rfl⟩ := List.mem_map.mp ht
    cases hk
    obtain ⟨hc, hwidth, hfaults⟩ := step_string_literal (Option.mem_toList.mp hkt)
    refine ⟨hc, ?_⟩
    have hbefore : escapesInside ⟨pos, pos + (step c r pos).width⟩ faults = [] := by
      refine escapesInside_eq_nil fun e he hin => ?_
      have := h.escapes_stop e he
      simp only [Span.Within] at hin
      omega
    rw [escapesInside_append, hbefore, List.nil_append, hfaults]
    refine escapesInside_of_within fun e he => ?_
    have := keptSpans_within (pos + 1) _ e he
    rw [segments_flatMap_raw] at this
    simp only [Span.Within]
    omega

theorem run_escapesBefore (cs : List Char) (pos : Nat) (tokens : Array Token)
    (faults : Array LexFault) (h : EscapesBefore pos tokens.toList faults.toList) :
    EscapesBefore (pos + width cs) (run cs pos tokens faults).tokens
      (run cs pos tokens faults).faults := by
  induction cs, pos, tokens, faults using run.induct with
  | case1 pos tokens faults =>
    rw [run]
    refine ⟨fun t ht => ?_, fun e he => by simpa using h.escapes_stop e he, fun t ht hk => ?_⟩
    · rcases (by simpa using ht : t ∈ tokens ∨ _) with ht | rfl
      · simpa using h.tokens_stop t (by simpa using ht)
      · simp
    · rcases (by simpa using ht : t ∈ tokens ∨ _) with ht | rfl
      · simpa using h.strings t (by simpa using ht) hk
      · cases hk
  | case2 pos tokens faults c r s next ih =>
    have hs := h.after_step c r
    have hnext : next.toList = tokens.toList ++ s.token.toList.map fun kt =>
        ⟨kt.1, ⟨pos, pos + s.width⟩, kt.2⟩ := by
      dsimp only [next]
      cases s.token <;> simp
    have hend : pos + s.width + width s.rest = pos + width (c :: r) := by
      obtain ⟨w, hcr, hwidth, -⟩ := step_takes c r pos
      have := congrArg width hcr
      rw [width_append] at this
      dsimp only [s]
      omega
    rw [run.eq_2, ← hend]
    exact ih (by rw [hnext]; simpa using hs)

end Scan

/-- The string literals of a text, and the escapes in them. Read as segments, the raw content of
every string literal holds no quote and no backslash standing alone, so decoding never meets a
backslash at its end; decoding replaces `\n`, `\r`, `\t`, `\\` and `\"` by their characters and
keeps every other escape as written; and the invalid-escape diagnostics reported inside the
literal are those kept escapes, one for one and in order, each over its backslash and the
character after it. -/
theorem string_literal_escapes_agree {s : String} {t : Token} (hsize : s.utf8ByteSize < 2 ^ 32)
    (ht : t ∈ (lex s).tokens) (hk : t.kind = .stringLiteral) :
    (∀ c, .char c ∈ segments t.text.toList → c ≠ '"' ∧ c ≠ '\\') ∧
      (unescape t.text).toList = (segments t.text.toList).flatMap Segment.decoded ∧
      escapesInside t.span (lex s).faults =
        (keptSpans (t.span.start + 1) (segments t.text.toList)).map (fun e =>
          (LexFault.invalidEscape e).diagnostic) ∧
      t.span.Fits32 ∧ ∀ e ∈ keptSpans (t.span.start + 1) (segments t.text.toList), e.Fits32 := by
  have hrun := Scan.run_escapesBefore s.toList 0 #[] #[] ⟨by simp, by simp, by simp⟩
  obtain ⟨hc, hfaults⟩ := hrun.strings t ht hk
  obtain ⟨htok, hfault⟩ := lex_offsets_fit32 hsize
  refine ⟨hc.segments_char, unescape_eq_decoded t.text, hfaults, htok t ht, fun e he => ?_⟩
  have hd : (LexFault.invalidEscape e).diagnostic ∈ escapesInside t.span (lex s).faults :=
    hfaults ▸ List.mem_map_of_mem he
  obtain ⟨f, hf, hfd⟩ := List.mem_map.mp (List.mem_filter.mp hd).1
  have hfit := hfault f hf
  rw [hfd] at hfit
  exact hfit

/-- `"\é\n"`: a kept escape over a backslash and a two-byte character, then a newline escape. -/
theorem accented_literal_escapes_agree :
    "\"\\é\\n\"".utf8ByteSize < 2 ^ 32 ∧
      (⟨.stringLiteral, ⟨0, 7⟩, "\\é\\n"⟩ : Token) ∈ (lex "\"\\é\\n\"").tokens ∧
      (⟨.stringLiteral, ⟨0, 7⟩, "\\é\\n"⟩ : Token).kind = .stringLiteral ∧
      (∀ c, .char c ∈ segments "\\é\\n".toList → c ≠ '"' ∧ c ≠ '\\') ∧
      (unescape "\\é\\n").toList = (segments "\\é\\n".toList).flatMap Segment.decoded ∧
      escapesInside ⟨0, 7⟩ (lex "\"\\é\\n\"").faults =
        (keptSpans 1 (segments "\\é\\n".toList)).map (fun e =>
          (LexFault.invalidEscape e).diagnostic) ∧
      (⟨0, 7⟩ : Span).Fits32 ∧ ∀ e ∈ keptSpans 1 (segments "\\é\\n".toList), e.Fits32 := by
  have htoks : (lex "\"\\é\\n\"").tokens =
      [⟨.stringLiteral, ⟨0, 7⟩, "\\é\\n"⟩, ⟨.eof, ⟨7, 7⟩, ""⟩] :=
    Token.eq_of_map_fields (by decide +kernel)
  have hmem : (⟨.stringLiteral, ⟨0, 7⟩, "\\é\\n"⟩ : Token) ∈ (lex "\"\\é\\n\"").tokens := by
    simp [htoks]
  have hs : "\"\\é\\n\"".utf8ByteSize < 2 ^ 32 := by decide
  exact ⟨hs, hmem, rfl, string_literal_escapes_agree hs hmem rfl⟩

end Sigh
