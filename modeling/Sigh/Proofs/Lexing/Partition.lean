import Sigh.Proofs.Lexing.Pieces

namespace Sigh

namespace Span

/-- Byte `i` lies in the span. -/
def Covers (sp : Span) (i : Nat) : Prop := sp.start ≤ i ∧ i < sp.stop

/-- `a` ends where `b` starts or before. -/
def Precedes (a b : Span) : Prop := a.stop ≤ b.start

/-- The spans share no byte. -/
def Disjoint (a b : Span) : Prop := a.stop ≤ b.start ∨ b.stop ≤ a.start

/-- `a` lies inside `b`. -/
def Within (a b : Span) : Prop := b.start ≤ a.start ∧ a.stop ≤ b.stop

/-- The offsets of the span fit the 32 bits in which the source program keeps them, so that its
casts of byte offsets to 32 bits keep them exactly. -/
def Fits32 (sp : Span) : Prop := sp.start < 2 ^ 32 ∧ sp.stop < 2 ^ 32

theorem fits32_of_le {sp : Span} {n : Nat} (h₁ : sp.start ≤ sp.stop) (h₂ : sp.stop ≤ n)
    (hn : n < 2 ^ 32) : sp.Fits32 :=
  ⟨by omega, by omega⟩

end Span

namespace Scan

variable {pos : Nat} {cs : List Char} {ps : List Piece}

theorem Piece.mem_spans {p : Piece} {sp : Span} (h : p.spans = [] ∨ p.spans = [⟨p.start, p.start + width p.chars⟩])
    (hsp : sp ∈ p.spans) : sp = ⟨p.start, p.start + width p.chars⟩ := by
  rcases h with h | h <;> simp_all

theorem Tiles.spans_ordered (h : Tiles pos cs ps) :
    (∀ sp ∈ ps.flatMap Piece.spans, pos ≤ sp.start ∧ sp.start < sp.stop ∧ sp.stop ≤ pos + width cs) ∧
      (ps.flatMap Piece.spans).Pairwise Span.Precedes := by
  induction h with
  | nil => simp
  | @cons pos w rest token faults ps ht _ ih =>
    have hw : 0 < width w := by
      obtain ⟨c, w', rfl⟩ := List.exists_cons_of_ne_nil ht.ne_nil
      exact width_cons_pos c w'
    have hhead : ∀ sp ∈ Piece.spans ⟨pos, w, token, faults⟩, sp = ⟨pos, pos + width w⟩ :=
      fun sp hsp => Piece.mem_spans ht.spans hsp
    refine ⟨fun sp hsp => ?_, ?_⟩
    · rcases List.mem_append.mp (List.flatMap_cons ▸ hsp) with hsp | hsp
      · rw [hhead sp hsp]
        simp only [width_append]
        omega
      · obtain ⟨h₁, h₂, h₃⟩ := ih.1 sp hsp
        simp only [width_append]
        omega
    · rw [List.flatMap_cons]
      refine List.pairwise_append.mpr ⟨?_, ih.2, fun a ha b hb => ?_⟩
      · rcases ht.spans with hs | hs <;> simp [hs]
      · rw [hhead a ha]
        exact (ih.1 b hb).1

theorem Tiles.spans_boundaries (h : Tiles pos cs ps) :
    ∀ sp ∈ ps.flatMap Piece.spans, (∃ pre post, cs = pre ++ post ∧ sp.start = pos + width pre) ∧
      ∃ pre post, cs = pre ++ post ∧ sp.stop = pos + width pre := by
  induction h with
  | nil => simp
  | @cons pos w rest token faults ps ht _ ih =>
    intro sp hsp
    rcases List.mem_append.mp (List.flatMap_cons ▸ hsp) with hsp | hsp
    · rw [Piece.mem_spans ht.spans hsp]
      exact ⟨⟨[], w ++ rest, rfl, rfl⟩, w, rest, rfl, rfl⟩
    · obtain ⟨⟨pre, post, hrest, hs⟩, pre', post', hrest', hs'⟩ := ih sp hsp
      exact ⟨⟨w ++ pre, post, by simp [hrest], by simp [hs]; omega⟩,
        w ++ pre', post', by simp [hrest'], by simp [hs']; omega⟩

theorem isBlank_utf8Size {c : Char} (h : isBlank c) : c.utf8Size = 1 := by
  simp only [isBlank, Bool.or_eq_true, decide_eq_true_eq] at h
  rcases h with (((rfl | rfl) | rfl) | rfl) | rfl <;> rfl

theorem Tiles.gaps (h : Tiles pos cs ps) {i : Nat} (hi₁ : pos ≤ i) (hi₂ : i < pos + width cs)
    (hout : ∀ sp ∈ ps.flatMap Piece.spans, ¬ sp.Covers i) :
    (∃ pre c post, cs = pre ++ c :: post ∧ isBlank c ∧ i = pos + width pre) ∨
      ∃ pre body post, cs = pre ++ '/' :: '/' :: body ++ post ∧ '\n' ∉ body ∧
        (∀ d ∈ post.head?, d = '\n') ∧ pos + width pre ≤ i ∧ i < pos + width pre + 2 + width body := by
  induction h with
  | nil => simp at hi₂; omega
  | @cons pos w rest token faults ps ht _ ih =>
    simp only [List.flatMap_cons, List.mem_append] at hout
    by_cases hin : i < pos + width w
    · rcases ht.spans with hs | hs
      · rcases ht.bare hs with ⟨c, rfl, hc⟩ | ⟨body, rfl, hb, hr⟩
        · refine .inl ⟨[], c, rest, rfl, hc, ?_⟩
          simp [isBlank_utf8Size hc] at hin
          simp
          omega
        · refine .inr ⟨[], body, rest, rfl, hb, hr, by simp; omega, ?_⟩
          simp at hin
          have hs : '/'.utf8Size = 1 := rfl
          simp [hs] at hin ⊢
          omega
      · exact absurd ⟨hi₁, hin⟩ (hout _ (.inl (hs ▸ List.mem_singleton_self _)))
    · simp only [width_append] at hi₂
      rcases ih (by omega) (by omega) (fun sp hsp => hout sp (.inr hsp)) with
        ⟨pre, c, post, rfl, hc, hi⟩ | ⟨pre, body, post, rfl, hb, hr, hi₃, hi₄⟩
      · exact .inl ⟨w ++ pre, c, post, by simp, hc, by simp; omega⟩
      · exact .inr ⟨w ++ pre, body, post, by simp, hb, hr, by simp; omega, by simp; omega⟩

theorem Tiles.escapes (h : Tiles pos cs ps) {sp : Span}
    (hf : .invalidEscape sp ∈ ps.flatMap Piece.faults) :
    (∃ pre c post, cs = pre ++ '\\' :: c :: post ∧
      sp = ⟨pos + width pre, pos + width pre + 1 + c.utf8Size⟩) ∧
    ((∃ t ∈ ps.flatMap Piece.tokens, t.kind = .stringLiteral ∧ sp.Within t.span) ∨
      ∃ sp', .unterminatedString sp' ∈ ps.flatMap Piece.faults ∧ sp.Within sp') := by
  induction h with
  | nil => simp at hf
  | @cons pos w rest token faults ps ht _ ih =>
    simp only [List.flatMap_cons, List.mem_append] at hf ⊢
    rcases hf with hf | hf
    · obtain ⟨⟨pre, c, post, rfl, rfl⟩, hin⟩ := ht.escape hf
      have hwithin : Span.Within ⟨pos + width pre, pos + width pre + 1 + c.utf8Size⟩
          ⟨pos, pos + width (pre ++ '\\' :: c :: post)⟩ := by
        simp only [Span.Within, width_append, width_cons]
        have hb : '\\'.utf8Size = 1 := rfl
        omega
      refine ⟨⟨pre, c, post ++ rest, by simp, rfl⟩, ?_⟩
      rcases hin with ⟨text, rfl⟩ | hu
      · exact .inl ⟨⟨.stringLiteral, ⟨pos, pos + width (pre ++ '\\' :: c :: post)⟩, text⟩,
          .inl (by simp [Piece.tokens]), rfl, hwithin⟩
      · exact .inr ⟨_, .inl hu, hwithin⟩
    · obtain ⟨⟨pre, c, post, rfl, rfl⟩, hin⟩ := ih hf
      refine ⟨⟨w ++ pre, c, post, by simp, by simp; omega⟩, ?_⟩
      rcases hin with ⟨t, ht', hk, hwt⟩ | ⟨sp', hu, hwt⟩
      · exact .inl ⟨t, .inr ht', hk, hwt⟩
      · exact .inr ⟨sp', .inr hu, hwt⟩

theorem Tiles.tokens_spelled (h : Tiles pos cs ps) :
    ∀ t ∈ ps.flatMap Piece.tokens, ∃ pre w post, cs = pre ++ w ++ post ∧
      t.span = ⟨pos + width pre, pos + width pre + width w⟩ ∧ t.kind.Spells t.text w ∧
      t.kind.EndsBefore post := by
  induction h with
  | nil => simp
  | @cons pos w rest token faults ps ht _ ih =>
    intro t htok
    rcases List.mem_append.mp (List.flatMap_cons ▸ htok) with htok | htok
    · cases hk : token with
      | none => simp [Piece.tokens, hk] at htok
      | some kt =>
        simp only [Piece.tokens, hk, Option.toList_some, List.map_cons, List.map_nil,
          List.mem_singleton] at htok
        subst htok
        obtain ⟨hs, he⟩ := ht.spells hk
        exact ⟨[], w, rest, rfl, by simp, hs, he⟩
    · obtain ⟨pre, w', post, rfl, hspan, hs, he⟩ := ih t htok
      exact ⟨w ++ pre, w', post, by simp, by rw [hspan]; simp; omega, hs, he⟩

end Scan

/-- A blank byte: space, tab, line feed, carriage return or semicolon. -/
def IsBlankByte (b : UInt8) : Prop := b = 32 ∨ b = 9 ∨ b = 10 ∨ b = 13 ∨ b = 59

instance : DecidablePred IsBlankByte := fun b =>
  inferInstanceAs (Decidable (b = 32 ∨ b = 9 ∨ b = 10 ∨ b = 13 ∨ b = 59))

/-- Bytes `a` to `b` of `s` hold a line comment: two slashes and the characters after them up to
a newline or the end of the text. -/
def LineComment (s : String) (a b : Nat) : Prop :=
  ∃ pre body post, s.toList = pre ++ '/' :: '/' :: body ++ post ∧ '\n' ∉ body ∧
    (∀ d ∈ post.head?, d = '\n') ∧ a = Scan.width pre ∧ b = Scan.width pre + 2 + Scan.width body

namespace Lexed

/-- The spans of the faults whose diagnostic has a code that passes `p`, in the order found. -/
def spansWith (L : Lexed) (p : Code → Bool) : List Span :=
  ((L.faults.map LexFault.diagnostic).filter (p ·.code)).map (·.span)

/-- The spans of the tokens before the end-of-input token. -/
def tokenSpans (L : Lexed) : List Span := L.tokens.dropLast.map (·.span)

/-- The spans of the unexpected characters (E0001) and unterminated strings (E0002). -/
def stopSpans (L : Lexed) : List Span := L.spansWith (· != .invalidEscape)

/-- What the tokens and the faults that stop a token cover. -/
def covered (L : Lexed) : List Span := L.tokenSpans ++ L.stopSpans

/-- How the tokens and faults of a reading lie on the text `s`, positions counted in bytes of its
UTF-8 encoding. One end-of-input token ends the tokens, at the end of the text. Every other token
and every unexpected character or unterminated string covers some bytes of the text, from a
character boundary to a character boundary; the tokens come in order, these faults come in
order, and no two of them overlap. A byte that none of them covers is a blank or lies in a line
comment. An invalid escape covers a backslash and the character after it, inside a string
literal or an unterminated string. Each token spells a word of its kind's class, and the text
after a name or a number cannot extend it. -/
structure Partitions (L : Lexed) (s : String) : Prop where
  eof : ∃ ts, L.tokens = ts ++ [⟨.eof, ⟨s.utf8ByteSize, s.utf8ByteSize⟩, ""⟩] ∧
    ∀ t ∈ ts, t.kind ≠ .eof
  nonempty : ∀ sp ∈ L.covered, sp.start < sp.stop
  inside : ∀ sp ∈ L.covered, sp.stop ≤ s.utf8ByteSize
  boundaries : ∀ sp ∈ L.covered,
    (String.Pos.Raw.mk sp.start).IsValid s ∧ (String.Pos.Raw.mk sp.stop).IsValid s
  tokens_ordered : L.tokenSpans.Pairwise Span.Precedes
  stops_ordered : L.stopSpans.Pairwise Span.Precedes
  disjoint : L.covered.Pairwise Span.Disjoint
  gaps : ∀ i (h : String.Pos.Raw.mk i < s.rawEndPos), (∀ sp ∈ L.covered, ¬ sp.Covers i) →
    IsBlankByte (s.getUTF8Byte ⟨i⟩ h) ∨ ∃ a b, LineComment s a b ∧ a ≤ i ∧ i < b
  escapes : ∀ sp ∈ L.spansWith (· == .invalidEscape),
    (∃ pre c post, s.toList = pre ++ '\\' :: c :: post ∧
      sp = ⟨Scan.width pre, Scan.width pre + 1 + c.utf8Size⟩) ∧
    ((∃ t ∈ L.tokens, t.kind = .stringLiteral ∧ sp.Within t.span) ∨
      ∃ sp' ∈ L.spansWith (· == .unterminatedString), sp.Within sp')
  spelled : ∀ t ∈ L.tokens.dropLast, ∃ pre w post, s.toList = pre ++ w ++ post ∧
    t.span = ⟨Scan.width pre, Scan.width pre + Scan.width w⟩ ∧ t.kind.Spells t.text w
  maximal : ∀ t ∈ L.tokens.dropLast, ∀ pre post, s.toList = pre ++ post →
    Scan.width pre = t.span.stop → t.kind.EndsBefore post

theorem mem_spansWith {L : Lexed} {p : Code → Bool} {sp : Span} :
    sp ∈ L.spansWith p ↔ ∃ f ∈ L.faults, p f.diagnostic.code ∧ f.diagnostic.span = sp := by
  simp [spansWith, and_assoc]

end Lexed

namespace Scan

theorem utf8ByteSize_ofList (l : List Char) : (String.ofList l).utf8ByteSize = width l := by
  induction l with
  | nil => rfl
  | cons c l ih =>
    rw [← List.singleton_append, String.ofList_append, String.utf8ByteSize_append, ih,
      ← String.singleton_eq_ofList, String.utf8ByteSize_singleton]
    simp

theorem utf8ByteSize_eq_width (s : String) : s.utf8ByteSize = width s.toList := by
  conv_lhs => rw [← String.ofList_toList (s := s)]
  exact utf8ByteSize_ofList _

theorem size_utf8Encode (l : List Char) : l.utf8Encode.size = width l := by
  rw [← String.toByteArray_ofList, String.size_toByteArray, utf8ByteSize_ofList]

theorem split_unique {a b a' b' : List Char} (h : a ++ b = a' ++ b') (hw : width a = width a') :
    a = a' ∧ b = b' := by
  induction a generalizing a' with
  | nil =>
    cases a' with
    | nil => exact ⟨rfl, h⟩
    | cons c a' =>
      have := width_cons_pos c a'
      rw [width_nil] at hw
      omega
  | cons c a ih =>
    cases a' with
    | nil =>
      have := width_cons_pos c a
      rw [width_nil] at hw
      omega
    | cons c' a' =>
      simp only [List.cons_append, List.cons.injEq] at h
      obtain ⟨rfl, h⟩ := h
      simp only [width_cons, Nat.add_left_cancel_iff] at hw
      obtain ⟨rfl, rfl⟩ := ih h hw
      exact ⟨rfl, rfl⟩

theorem isValid_of_split {s : String} {pre post : List Char} (h : s.toList = pre ++ post) :
    (String.Pos.Raw.mk (width pre)).IsValid s := by
  rw [String.Pos.Raw.isValid_iff_exists_take_toList]
  exact ⟨pre.length, by simp [h, utf8ByteSize_ofList]⟩

theorem getUTF8Byte_of_split {s : String} {pre post : List Char} {c : Char}
    (hs : s.toList = pre ++ c :: post) (hc : c.utf8Size = 1)
    (h : String.Pos.Raw.mk (width pre) < s.rawEndPos) :
    s.getUTF8Byte ⟨width pre⟩ h = c.val.toUInt8 := by
  have he : (pre ++ c :: post).utf8Encode =
      pre.utf8Encode ++ ((String.utf8EncodeChar c).toByteArray ++ post.utf8Encode) := by
    rw [← List.singleton_append, List.utf8Encode_append, List.utf8Encode_append,
      List.utf8Encode_singleton]
  have hb : s.toByteArray = s.toList.utf8Encode := by
    conv_lhs => rw [← String.ofList_toList (s := s)]
    exact String.toByteArray_ofList
  rw [String.getUTF8Byte_eq_getElem]
  simp only [hb, hs, he]
  rw [ByteArray.getElem_append_right (Nat.le_of_eq (by rw [size_utf8Encode])),
    ByteArray.getElem_append_left (by simp [size_utf8Encode, hc])]
  simp [String.utf8EncodeChar_eq_singleton hc, size_utf8Encode]

theorem isBlank_byte {c : Char} (h : isBlank c) : IsBlankByte c.val.toUInt8 := by
  simp only [isBlank, Bool.or_eq_true, decide_eq_true_eq] at h
  rcases h with (((rfl | rfl) | rfl) | rfl) | rfl <;> decide

end Scan

open Scan

theorem Span.Precedes.disjoint {a b : Span} (h : a.Precedes b) : a.Disjoint b := .inl h

theorem Span.Disjoint.symm {a b : Span} (h : a.Disjoint b) : b.Disjoint a := Or.symm h

theorem Lexed.stopSpans_eq (faults : List LexFault) :
    (⟨[], faults⟩ : Lexed).stopSpans = faults.filterMap LexFault.stopSpan? := by
  induction faults with
  | nil => rfl
  | cons f fs ih =>
    simp only [Lexed.stopSpans, Lexed.spansWith] at ih ⊢
    cases f with
    | invalidEscape sp =>
      simp only [List.map_cons, LexFault.diagnostic, List.filter_cons, bne_self_eq_false,
        Bool.false_eq_true, if_false]
      rw [ih]
      rfl
    | _ => simp [LexFault.diagnostic, LexFault.stopSpan?, ih]

theorem lex_text_partition (s : String) : (lex s).Partitions s := by
  obtain ⟨ps, htiles, hrun⟩ := run_tiles s.toList 0 #[] #[]
  have hL : lex s = ⟨ps.flatMap Piece.tokens ++ [⟨.eof, ⟨s.utf8ByteSize, s.utf8ByteSize⟩, ""⟩],
      ps.flatMap Piece.faults⟩ := by
    rw [lex, hrun]
    simp [utf8ByteSize_eq_width]
  have hn := utf8ByteSize_eq_width s
  rw [hL]
  have htok : (⟨ps.flatMap Piece.tokens ++ [⟨.eof, ⟨s.utf8ByteSize, s.utf8ByteSize⟩, ""⟩],
      ps.flatMap Piece.faults⟩ : Lexed).tokenSpans = ps.flatMap fun p => p.tokens.map (·.span) := by
    simp [Lexed.tokenSpans, List.map_flatMap]
  have hstop : (⟨ps.flatMap Piece.tokens ++ [⟨.eof, ⟨s.utf8ByteSize, s.utf8ByteSize⟩, ""⟩],
      ps.flatMap Piece.faults⟩ : Lexed).stopSpans =
        ps.flatMap fun p => p.faults.filterMap LexFault.stopSpan? := by
    rw [← List.filterMap_flatMap, ← Lexed.stopSpans_eq]
    rfl
  have hperm : (⟨ps.flatMap Piece.tokens ++ [⟨.eof, ⟨s.utf8ByteSize, s.utf8ByteSize⟩, ""⟩],
      ps.flatMap Piece.faults⟩ : Lexed).covered.Perm (ps.flatMap Piece.spans) := by
    rw [Lexed.covered, htok, hstop]
    exact List.flatMap_append_perm _ _ _
  obtain ⟨hbounds, hordered⟩ := htiles.spans_ordered
  have hmem : ∀ sp ∈ (⟨ps.flatMap Piece.tokens ++ [⟨.eof, ⟨s.utf8ByteSize, s.utf8ByteSize⟩, ""⟩],
      ps.flatMap Piece.faults⟩ : Lexed).covered, sp ∈ ps.flatMap Piece.spans :=
    fun sp hsp => hperm.mem_iff.mp hsp
  have hspelled := htiles.tokens_spelled
  refine
    { eof := ⟨ps.flatMap Piece.tokens, rfl, fun t ht hk => ?_⟩
      nonempty := fun sp hsp => (hbounds sp (hmem sp hsp)).2.1
      inside := fun sp hsp => by have := (hbounds sp (hmem sp hsp)).2.2; omega
      boundaries := fun sp hsp => ?_
      tokens_ordered := ?_
      stops_ordered := ?_
      disjoint := (hordered.imp Span.Precedes.disjoint).perm hperm.symm Span.Disjoint.symm
      gaps := ?_
      escapes := ?_
      spelled := ?_
      maximal := ?_ }
  · obtain ⟨_, w, _, _, _, hs, _⟩ := hspelled t ht
    rw [hk] at hs
    exact hs
  · obtain ⟨⟨pre, post, hcs, hs⟩, pre', post', hcs', hs'⟩ := htiles.spans_boundaries sp (hmem sp hsp)
    rw [hs, Nat.zero_add, hs', Nat.zero_add]
    exact ⟨isValid_of_split hcs, isValid_of_split hcs'⟩
  · rw [htok]
    exact hordered.sublist (List.Sublist.flatMap_right _ fun _ _ => List.sublist_append_left _ _)
  · rw [hstop]
    exact hordered.sublist (List.Sublist.flatMap_right _ fun _ _ => List.sublist_append_right _ _)
  · intro i hi hout
    have hi' : i < width s.toList := by
      have := String.Pos.Raw.lt_iff.mp hi
      simp only [String.byteIdx_rawEndPos] at this
      omega
    rcases htiles.gaps (Nat.zero_le i) (by omega) fun sp hsp hc => hout sp (hperm.mem_iff.mpr hsp) hc with
      ⟨pre, c, post, hcs, hc, rfl⟩ | ⟨pre, body, post, hcs, hb, hr, hi₁, hi₂⟩
    · left
      simp only [Nat.zero_add] at hi ⊢
      rw [getUTF8Byte_of_split hcs (isBlank_utf8Size hc)]
      exact isBlank_byte hc
    · right
      exact ⟨width pre, width pre + 2 + width body, ⟨pre, body, post, hcs, hb, hr, rfl, rfl⟩,
        by omega, by omega⟩
  · intro sp hsp
    obtain ⟨f, hf, hcode, rfl⟩ := Lexed.mem_spansWith.mp hsp
    cases f with
    | invalidEscape sp =>
      obtain ⟨⟨pre, c, post, hcs, hsp'⟩, hin⟩ := htiles.escapes hf
      refine ⟨⟨pre, c, post, hcs, by simpa [LexFault.diagnostic] using hsp'⟩, ?_⟩
      rcases hin with ⟨t, ht, hk, hw⟩ | ⟨sp', hu, hw⟩
      · exact .inl ⟨t, List.mem_append_left _ ht, hk, hw⟩
      · exact .inr ⟨sp', Lexed.mem_spansWith.mpr ⟨_, hu, rfl, rfl⟩, hw⟩
    | _ => simp [LexFault.diagnostic] at hcode
  · intro t ht
    rw [List.dropLast_concat] at ht
    obtain ⟨pre, w, post, hcs, hspan, hs, -⟩ := hspelled t ht
    exact ⟨pre, w, post, hcs, by simpa using hspan, hs⟩
  · intro t ht pre' post' hcs' hw'
    rw [List.dropLast_concat] at ht
    obtain ⟨pre, w, post, hcs, hspan, -, he⟩ := hspelled t ht
    rw [hspan] at hw'
    obtain ⟨-, rfl⟩ := split_unique (hcs.symm.trans hcs') (by simp at hw' ⊢; omega)
    exact he

theorem Token.eq_of_map_fields {xs ys : List Token}
    (h : xs.map (fun t => (t.kind, t.span, t.text)) = ys.map fun t => (t.kind, t.span, t.text)) :
    xs = ys :=
  List.map_injective_iff.mpr (by rintro ⟨_, _, _⟩ ⟨_, _, _⟩ h; simp_all) h

namespace Lexed.Partitions

variable {L : Lexed} {s : String}

theorem covered_le (h : L.Partitions s) {sp : Span} (hsp : sp ∈ L.covered) :
    sp.start ≤ sp.stop ∧ sp.stop ≤ s.utf8ByteSize :=
  ⟨(h.nonempty _ hsp).le, h.inside _ hsp⟩

theorem token_le (h : L.Partitions s) {t : Token} (ht : t ∈ L.tokens) :
    t.span.start ≤ t.span.stop ∧ t.span.stop ≤ s.utf8ByteSize := by
  obtain ⟨ts, hL, -⟩ := h.eof
  rw [hL] at ht
  rcases List.mem_append.mp ht with ht | ht
  · have hsp : t.span ∈ L.covered := by
      refine List.mem_append_left _ (List.mem_map.mpr ⟨t, ?_, rfl⟩)
      rw [hL, List.dropLast_concat]
      exact ht
    exact h.covered_le hsp
  · rw [List.mem_singleton] at ht
    subst ht
    exact ⟨Nat.le_refl _, Nat.le_refl _⟩

theorem fault_le (h : L.Partitions s) {f : LexFault} (hf : f ∈ L.faults) :
    f.diagnostic.span.start ≤ f.diagnostic.span.stop ∧ f.diagnostic.span.stop ≤ s.utf8ByteSize := by
  by_cases hcode : f.diagnostic.code = .invalidEscape
  · have hsp : f.diagnostic.span ∈ L.spansWith (· == .invalidEscape) :=
      Lexed.mem_spansWith.mpr ⟨f, hf, by simp [hcode], rfl⟩
    obtain ⟨⟨pre, c, post, hs, hsp'⟩, -⟩ := h.escapes _ hsp
    have hw : Scan.width s.toList = Scan.width pre + 1 + c.utf8Size + Scan.width post := by
      rw [hs]
      simp only [Scan.width_append, Scan.width_cons]
      have hb : '\\'.utf8Size = 1 := rfl
      omega
    rw [hsp', Scan.utf8ByteSize_eq_width, hw]
    exact ⟨by simp only; omega, by simp only; omega⟩
  · have hsp : f.diagnostic.span ∈ L.covered :=
      List.mem_append_right _ (Lexed.mem_spansWith.mpr ⟨f, hf, by simpa using hcode, rfl⟩)
    exact h.covered_le hsp

end Lexed.Partitions

theorem lex_offsets_fit32 {s : String} (hs : s.utf8ByteSize < 2 ^ 32) :
    (∀ t ∈ (lex s).tokens, t.span.Fits32) ∧ ∀ f ∈ (lex s).faults, f.diagnostic.span.Fits32 := by
  have h := lex_text_partition s
  refine ⟨fun t ht => ?_, fun f hf => ?_⟩
  · obtain ⟨h₁, h₂⟩ := h.token_le ht
    exact Span.fits32_of_le h₁ h₂ hs
  · obtain ⟨h₁, h₂⟩ := h.fault_le hf
    exact Span.fits32_of_le h₁ h₂ hs

/-- Reading a text of fewer than `2 ^ 32` bytes partitions it into tokens, faults, blanks and line
comments, and every offset it finds fits the 32 bits in which the program keeps offsets. -/
theorem lex_partitions (s : String) (hs : s.utf8ByteSize < 2 ^ 32) :
    (lex s).Partitions s ∧ (∀ t ∈ (lex s).tokens, t.span.Fits32) ∧
      ∀ f ∈ (lex s).faults, f.diagnostic.span.Fits32 :=
  ⟨lex_text_partition s, lex_offsets_fit32 hs⟩

/-- `a == "\q"` reads into a name, an operator and a string with a kept escape. -/
theorem lex_partitions_sample :
    "a == \"\\q\"".utf8ByteSize < 2 ^ 32 ∧ (lex "a == \"\\q\"").Partitions "a == \"\\q\"" ∧
      (∀ t ∈ (lex "a == \"\\q\"").tokens, t.span.Fits32) ∧
      ∀ f ∈ (lex "a == \"\\q\"").faults, f.diagnostic.span.Fits32 :=
  have hs : "a == \"\\q\"".utf8ByteSize < 2 ^ 32 := by decide
  ⟨hs, lex_partitions _ hs⟩

end Sigh
