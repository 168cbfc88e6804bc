import Sigh.Proofs.Grammar

namespace Sigh.Parse

/-- Reading went from cursor `c` to cursor `d` by taking the tokens `S`. -/
structure Reads (c : Cursor) (S : List Token) (d : Cursor) : Prop where
  rest : c.rest = S ++ d.rest
  lastEnd : d.lastEnd = (S.getLast?.map (·.span.stop)).getD c.lastEnd
  eofAt : d.eofAt = c.eofAt

theorem Reads.refl (c : Cursor) : Reads c [] c := ⟨rfl, rfl, rfl⟩

theorem Reads.trans {c d e : Cursor} {S T : List Token} (h₁ : Reads c S d) (h₂ : Reads d T e) :
    Reads c (S ++ T) e where
  rest := by rw [h₁.rest, h₂.rest, List.append_assoc]
  lastEnd := by
    rw [h₂.lastEnd, h₁.lastEnd, List.getLast?_append]
    cases T.getLast? <;> rfl
  eofAt := h₂.eofAt.trans h₁.eofAt

theorem Reads.length_lt {c d : Cursor} {S : List Token} (h : Reads c S d) (hS : S ≠ []) :
    d.rest.length < c.rest.length := by
  have hl : c.rest.length = S.length + d.rest.length := by rw [h.rest, List.length_append]
  have := List.length_pos_iff.mpr hS
  omega

theorem Reads.length_le {c d : Cursor} {S : List Token} (h : Reads c S d) :
    d.rest.length ≤ c.rest.length := by
  rw [h.rest, List.length_append]
  omega

theorem Reads.ne_nil {c d : Cursor} {S : List Token} (h : Reads c S d)
    (hd : d.rest.length < c.rest.length) : S ≠ [] := by
  rintro rfl
  have : c.rest = d.rest := h.rest
  rw [this] at hd
  exact Nat.lt_irrefl _ hd

/-- The cursor after reading `S` from `c`, when `S` stands at the front of what is left. -/
def Cursor.past (c : Cursor) (S : List Token) : Cursor :=
  ⟨c.rest.drop S.length, (S.getLast?.map (·.span.stop)).getD c.lastEnd, c.eofAt⟩

theorem Reads.past {c : Cursor} {S r : List Token} (h : c.rest = S ++ r) :
    Reads c S (c.past S) where
  rest := by simp [Cursor.past, h]
  lastEnd := rfl
  eofAt := rfl

theorem peekKind_of_rest {c : Cursor} {t : Token} {r : List Token} (h : c.rest = t :: r) :
    c.peekKind = t.kind := by
  simp [Cursor.peekKind, Cursor.peek, h]

theorem peekKind_of_nil {c : Cursor} (h : c.rest = []) : c.peekKind = .eof := by
  simp [Cursor.peekKind, Cursor.peek, h, Cursor.eofToken]

/-- The kind of the first token of `T`, the end of input when there is none. -/
def nextKind (T : List Token) : TokenKind := (T.head?.map (·.kind)).getD .eof

theorem nextKind_cons (t : Token) (T : List Token) : nextKind (t :: T) = t.kind := rfl

theorem Reads.peekKind {c d : Cursor} {S T : List Token} (h : Reads c S d)
    (hT : c.rest = S ++ T) : d.peekKind = nextKind T := by
  have hd : d.rest = T := List.append_cancel_left (h.rest.symm.trans hT)
  cases T with
  | nil => exact peekKind_of_nil hd
  | cons t r => exact peekKind_of_rest hd

theorem eat?_some {c : Cursor} {k : TokenKind} {t : Token} {d : Ahead c}
    (h : c.eat? k = some (t, d)) : t.kind = k ∧ Reads c [t] d.1 := by
  unfold Cursor.eat? at h
  split at h
  next t' r hr =>
    split at h
    next hk =>
      cases h
      exact ⟨hk, ⟨by simp [hr], rfl, rfl⟩⟩
    next => cases h
  next => cases h

theorem peekKind_ne_of_eat?_none {c : Cursor} {k : TokenKind} (h : c.eat? k = none)
    (hk : k ≠ .eof) : c.peekKind ≠ k := by
  unfold Cursor.eat? at h
  split at h
  next t r hr =>
    split at h
    next => cases h
    next hne => rw [peekKind_of_rest hr]; exact hne
  next hr => rw [peekKind_of_nil hr]; exact hk.symm

theorem eat?_of_rest {c : Cursor} {k : TokenKind} {t : Token} {r : List Token}
    (h : c.rest = t :: r) (hk : t.kind = k) :
    ∃ d : Ahead c, c.eat? k = some (t, d) ∧ Reads c [t] d.1 := by
  unfold Cursor.eat?
  split
  next t' r' hr =>
    rw [h] at hr
    cases hr
    simp only [hk, ↓reduceIte, Option.some.injEq, Prod.mk.injEq, true_and, exists_eq_left']
    exact ⟨by simp [h], rfl, rfl⟩
  next hr => rw [h] at hr; cases hr

theorem Reads.rest_of {c d : Cursor} {S T : List Token} (h : Reads c S d)
    (hc : c.rest = S ++ T) : d.rest = T :=
  List.append_cancel_left (h.rest.symm.trans hc)

theorem eat?_none_of_peekKind {c : Cursor} {k : TokenKind} (h : c.peekKind ≠ k) :
    c.eat? k = none := by
  unfold Cursor.eat?
  split
  next t r hr =>
    rw [peekKind_of_rest hr] at h
    simp [h]
  next => rfl

theorem expect_eq_ok {c : Cursor} {k : TokenKind} {r : Token × Ahead c} :
    c.expect k = .ok r ↔ c.eat? k = some r := by
  unfold Cursor.expect
  split <;> simp_all

theorem expect_of_rest {c : Cursor} {k : TokenKind} {t : Token} {r : List Token}
    (h : c.rest = t :: r) (hk : t.kind = k) :
    ∃ d : Ahead c, c.expect k = .ok (t, d) ∧ Reads c [t] d.1 := by
  obtain ⟨d, he, hr⟩ := eat?_of_rest h hk
  exact ⟨d, expect_eq_ok.mpr he, hr⟩

theorem ok_bind {ε α β : Type} (a : α) (f : α → Except ε β) : (Except.ok a >>= f) = f a := rfl

theorem bind_eq_ok {ε α β : Type} {x : Except ε α} {f : α → Except ε β} {b : β} :
    x >>= f = .ok b ↔ ∃ a, x = .ok a ∧ f a = .ok b := by
  cases x <;> simp [bind, Except.bind]

theorem exists_eq_ok_of_isSome {ε α : Type} {x : Except ε α} (h : x.toOption.isSome) :
    ∃ a, x = .ok a := by
  cases x with
  | error => simp [Except.toOption] at h
  | ok a => exact ⟨a, rfl⟩

theorem spanFrom_eq_upTo {c d : Cursor} {S : List Token} {t : Token} {start : Nat}
    (h : Reads c (S ++ [t]) d) : d.spanFrom start = Span.upTo start t := by
  simp [Cursor.spanFrom, Span.upTo, h.lastEnd]

theorem spanFrom_eq_ofTokens {c d : Cursor} {t : Token} {S : List Token}
    (h : Reads c (t :: S) d) : d.spanFrom t.span.start = Span.ofTokens (t :: S) := by
  simp only [Cursor.spanFrom, Span.ofTokens, Span.upTo, h.lastEnd]
  cases hS : S.getLast? <;> simp [List.getLast?_cons, hS]

theorem peek_of_rest {c : Cursor} {t : Token} {r : List Token} (h : c.rest = t :: r) :
    c.peek = t := by
  simp [Cursor.peek, h]

theorem Reads.peek_eq {c d : Cursor} {t : Token} {S : List Token} (h : Reads c (t :: S) d) :
    c.peek = t :=
  peek_of_rest (r := S ++ d.rest) h.rest

theorem Reads.peekKind_eq {c d : Cursor} {t : Token} {S : List Token} (h : Reads c (t :: S) d) :
    c.peekKind = t.kind :=
  peekKind_of_rest (r := S ++ d.rest) h.rest

theorem Reads.peekKind_head {c d : Cursor} {S : List Token} (h : Reads c S d) :
    ∀ t ∈ S.head?, c.peekKind = t.kind := by
  intro t ht
  cases S with
  | nil => cases ht
  | cons u S =>
    cases ht
    exact h.peekKind_eq

theorem ident_eq_ok {c : Cursor} {name : Ident} {d : Ahead c} (h : c.ident = .ok (name, d)) :
    ∃ t, t.kind = .ident ∧ name = ⟨t.text, t.span⟩ ∧ Reads c [t] d.1 := by
  unfold Cursor.ident at h
  obtain ⟨⟨t, d'⟩, ht, h⟩ := bind_eq_ok.mp h
  cases h
  obtain ⟨hk, hr⟩ := eat?_some (expect_eq_ok.mp ht)
  exact ⟨t, hk, rfl, hr⟩

theorem ident_of_rest {c : Cursor} {t : Token} {r : List Token} (h : c.rest = t :: r)
    (hk : t.kind = .ident) : ∃ d : Ahead c, c.ident = .ok (⟨t.text, t.span⟩, d) ∧ Reads c [t] d.1 := by
  obtain ⟨d, he, hr⟩ := expect_of_rest h hk
  refine ⟨d, ?_, hr⟩
  unfold Cursor.ident
  rw [he]
  rfl

theorem opLevel?_of_levelOp? {level : Nat} {k : TokenKind} {op : BinOp}
    (h : levelOp? level k = some op) : Grammar.opLevel? k = some level := by
  unfold levelOp? at h
  split at h <;> first | rfl | cases h

theorem binaryOp?_some {c : Cursor} {level : Nat} {op : BinOp} {d : Ahead c}
    (h : c.binaryOp? level = some (op, d)) :
    ∃ t, levelOp? level t.kind = some op ∧ Reads c [t] d.1 := by
  unfold Cursor.binaryOp? at h
  split at h
  next op' hop =>
    obtain ⟨⟨t, d'⟩, he, h⟩ := Option.map_eq_some_iff.mp h
    cases h
    obtain ⟨hk, hr⟩ := eat?_some he
    exact ⟨t, by rw [hk]; exact hop, hr⟩
  next => cases h

theorem binaryOp?_none {c : Cursor} {level : Nat} (h : c.binaryOp? level = none) :
    levelOp? level c.peekKind = none := by
  unfold Cursor.binaryOp? at h
  split at h
  next op hop =>
    have he := Option.map_eq_none_iff.mp h
    cases hr : c.rest with
    | nil =>
      have := opLevel?_of_levelOp? hop
      rw [peekKind_of_nil hr] at this
      cases this
    | cons t r =>
      obtain ⟨d, hs, -⟩ := eat?_of_rest hr (peekKind_of_rest hr).symm
      rw [he] at hs
      cases hs
  next hop => exact hop

theorem numberLiteral_eq_ok {t : Token} {negative : Bool} {mk : Span → Expr}
    (h : numberLiteral t negative = .ok mk) :
    (t.kind = .floatLiteral ∧ mk = .float (if negative then -((Decimal.readFloat? t.text).getD 0.0)
      else (Decimal.readFloat? t.text).getD 0.0)) ∨
    (t.kind ≠ .floatLiteral ∧
      (-2 ^ 63 ≤ (if negative then -(t.text.toNat! : Int) else t.text.toNat!) ∧
        (if negative then -(t.text.toNat! : Int) else t.text.toNat!) < 2 ^ 63) ∧
      mk = .int (Int64.ofInt (if negative then -(t.text.toNat! : Int) else t.text.toNat!))) := by
  unfold numberLiteral at h
  by_cases hk : t.kind = .floatLiteral
  · simp only [hk, ↓reduceIte, Except.ok.injEq] at h
    exact .inl ⟨hk, h.symm⟩
  · refine .inr ⟨hk, ?_⟩
    cases negative
    all_goals
      simp only [hk, ↓reduceIte, Bool.false_eq_true] at h ⊢
      split at h
      next hr => cases h; exact ⟨hr, rfl⟩
      next => cases h

theorem binaryOp?_of_rest {c : Cursor} {level : Nat} {op : BinOp} {t : Token} {r : List Token}
    (h : c.rest = t :: r) (hop : levelOp? level t.kind = some op) :
    ∃ d : Ahead c, c.binaryOp? level = some (op, d) ∧ Reads c [t] d.1 := by
  obtain ⟨d, he, hr⟩ := eat?_of_rest h rfl
  refine ⟨d, ?_, hr⟩
  unfold Cursor.binaryOp?
  rw [peekKind_of_rest h, hop, he]
  rfl

theorem binaryOp?_none_of_peekKind {c : Cursor} {level : Nat}
    (h : levelOp? level c.peekKind = none) : c.binaryOp? level = none := by
  unfold Cursor.binaryOp?
  rw [h]

end Sigh.Parse
