import Sigh.Proofs.Grammar.Sound
import Sigh.Syntax.Read

namespace Sigh.Grammar

open Parse

theorem continuesExpression_eq_false {k : TokenKind} :
    continuesExpression k = false ↔ k ≠ .equal ∧ extendsOperand 0 k = false := by
  simp [continuesExpression]

theorem extendsOperand_succ_of_levelOp? {level : Nat} {k : TokenKind} {op : BinOp}
    (h : levelOp? level k = some op) : extendsOperand (level + 1) k = false := by
  have hl := opLevel?_of_levelOp? h
  have hs : k ≠ .dot ∧ k ≠ .lBracket ∧ k ≠ .lParen := by
    refine ⟨?_, ?_, ?_⟩ <;> rintro rfl <;> cases hl
  simp [extendsOperand, hl, hs]

theorem levelOp?_eq_none {level : Nat} {k : TokenKind} (h : extendsOperand level k = false) :
    levelOp? level k = none := by
  cases hop : levelOp? level k with
  | none => rfl
  | some op => simp [extendsOperand, opLevel?_of_levelOp? hop] at h

theorem extendsOperand_succ {level : Nat} {k : TokenKind} (h : extendsOperand level k = false) :
    extendsOperand (level + 1) k = false := by
  cases hk : extendsOperand (level + 1) k
  · rfl
  · rw [extendsOperand_of_le (Nat.le_succ level) hk] at h
    cases h

theorem opLevel?_le {k : TokenKind} {l : Nat} (h : opLevel? k = some l) : l ≤ 4 := by
  cases k <;> simp [opLevel?] at h <;> omega

theorem extendsOperand_five {level : Nat} {k : TokenKind}
    (h : extendsOperand level k = false) : extendsOperand 5 k = false := by
  cases hk : opLevel? k with
  | none => simpa [extendsOperand, hk] using h
  | some l =>
    have := opLevel?_le hk
    simp only [extendsOperand, hk, Bool.or_eq_false_iff, decide_eq_false_iff_not] at h ⊢
    exact ⟨⟨⟨by omega, h.1.1.2⟩, h.1.2⟩, h.2⟩

theorem closer_facts {close : TokenKind} (h : close = .rParen ∨ close = .rBracket) :
    startsExpression close = false ∧ continuesExpression close = false ∧ close ≠ .comma := by
  rcases h with rfl | rfl <;> decide

theorem IsBasic.head {S : List Token} {e : Expr} (h : IsBasic S e) :
    ∃ t S', S = t :: S' ∧ startsExpression t.kind = true ∧ t.kind ≠ .bang := by
  cases h with
  | ctor hd _ => exact ⟨_, _, rfl, by rw [hd]; decide⟩
  | ref ht => exact ⟨_, _, rfl, by rw [ht]; decide⟩
  | int ht _ => exact ⟨_, _, rfl, by rw [ht]; decide⟩
  | negInt hm _ _ => exact ⟨_, _, rfl, by rw [hm]; decide⟩
  | float ht => exact ⟨_, _, rfl, by rw [ht]; decide⟩
  | negFloat hm _ => exact ⟨_, _, rfl, by rw [hm]; decide⟩
  | str ht => exact ⟨_, _, rfl, by rw [ht]; decide⟩
  | paren hl _ _ => exact ⟨_, _, rfl, by rw [hl]; decide⟩
  | array hl _ _ => exact ⟨_, _, rfl, by rw [hl]; decide⟩

theorem IsSuffix.head {S : List Token} {e : Expr} (h : IsSuffix S e) :
    ∃ t S', S = t :: S' ∧ startsExpression t.kind = true ∧ t.kind ≠ .bang := by
  cases h with
  | mk hb _ =>
    obtain ⟨t, S', rfl, ht⟩ := hb.head
    exact ⟨t, _, rfl, ht⟩

mutual
theorem IsExpr.head {S : List Token} {e : Expr} :
    IsExpr S e → ∃ t S', S = t :: S' ∧ startsExpression t.kind = true
  | .operand hb => hb.head
  | .assign hb _ _ => by
    obtain ⟨t, S', rfl, ht⟩ := hb.head
    exact ⟨t, _, rfl, ht⟩

theorem IsBinary.head {level : Nat} {S : List Token} {e : Expr} :
    IsBinary level S e → ∃ t S', S = t :: S' ∧ startsExpression t.kind = true
  | .mk ho _ => by
    obtain ⟨t, S', rfl, ht⟩ := ho.head
    exact ⟨t, _, rfl, ht⟩

theorem IsOperand.head {level : Nat} {S : List Token} {e : Expr} :
    IsOperand level S e → ∃ t S', S = t :: S' ∧ startsExpression t.kind = true
  | .tighter _ hb => hb.head
  | .tightest _ (.not hb _) => ⟨_, _, rfl, by rw [hb]; rfl⟩
  | .tightest _ (.suffix hs) => by
    obtain ⟨t, S', rfl, ht, -⟩ := hs.head
    exact ⟨t, S', rfl, ht⟩
end

theorem IsChain.next {level : Nat} {left e : Expr} {S T : List Token}
    (h : IsChain level left S e) (hf : extendsOperand level (nextKind T) = false) :
    extendsOperand (level + 1) (nextKind (S ++ T)) = false := by
  cases h with
  | done => exact extendsOperand_succ hf
  | more hop _ _ => exact extendsOperand_succ_of_levelOp? hop

theorem IsItems.head {S : List Token} {es : List Expr} (h : IsItems S es) :
    ∃ t S', S = t :: S' ∧ startsExpression t.kind = true := by
  cases h with
  | one he => exact he.head
  | more he _ _ =>
    obtain ⟨t, S', rfl, ht⟩ := he.head
    exact ⟨t, _, rfl, ht⟩

theorem numberLiteral_int {t : Token} (ht : t.kind = .intLiteral)
    (hr : (t.text.toNat! : Int) < 2 ^ 63) :
    numberLiteral t false = .ok (.int (Int64.ofInt t.text.toNat!)) := by
  unfold numberLiteral
  rw [if_neg (by rw [ht]; decide),
    if_pos (by simp only [Bool.false_eq_true, ↓reduceIte, Int.pow_eq]; omega)]
  rfl

theorem numberLiteral_negInt {t : Token} (ht : t.kind = .intLiteral)
    (hr : t.text.toNat! ≤ 2 ^ 63) :
    numberLiteral t true = .ok (.int (Int64.ofInt (-(t.text.toNat! : Int)))) := by
  unfold numberLiteral
  rw [if_neg (by rw [ht]; decide), if_pos (by simp only [↓reduceIte, Int.pow_eq]; omega)]
  rfl

theorem numberLiteral_float {t : Token} {negative : Bool} (ht : t.kind = .floatLiteral) :
    numberLiteral t negative = .ok (.float (if negative then -((Decimal.readFloat? t.text).getD 0.0)
      else (Decimal.readFloat? t.text).getD 0.0)) := by
  unfold numberLiteral
  rw [if_pos ht]

theorem operand_bind {level : Nat} {c : Cursor} {α : Type} {k : Expr × Ahead c → Except Diagnostic α}
    {a : Expr × Ahead c} (h : (if level < 4 then binary (level + 1) c else prefixExpr c) = .ok a) :
    (if level < 4 then binary (level + 1) c >>= k else prefixExpr c >>= k) = k a := by
  by_cases hl : level < 4
  · rw [if_pos hl] at h ⊢
    rw [h, ok_bind]
  · rw [if_neg hl] at h ⊢
    rw [h, ok_bind]

mutual
theorem IsExpr.complete {S T : List Token} {e : Expr} {c : Cursor} (hc : c.rest = S ++ T)
    (hf : continuesExpression (nextKind T) = false) :
    IsExpr S e → ∃ d, expression c = .ok (e, d) ∧ Reads c S d.1
  | .operand hb => by
    obtain ⟨hne, hf₀⟩ := continuesExpression_eq_false.mp hf
    obtain ⟨⟨c1, h1⟩, hr, r⟩ := hb.complete hc hf₀
    refine ⟨⟨c1, h1⟩, ?_, r⟩
    rw [expression, hr, ok_bind]
    dsimp only
    rw [eat?_none_of_peekKind (by rw [r.peekKind hc]; exact hne)]
    rfl
  | @IsExpr.assign S₁ S₂ _ _ eq hb heq hv => by
    have hc₁ : c.rest = S₁ ++ eq :: (S₂ ++ T) := by simp [hc]
    obtain ⟨⟨c1, h1⟩, hr, r₁⟩ := hb.complete hc₁ (by rw [nextKind_cons, heq]; rfl)
    have hc₂ : c1.rest = eq :: (S₂ ++ T) := r₁.rest_of hc₁
    obtain ⟨⟨c2, h2⟩, he, r₂⟩ := eat?_of_rest hc₂ heq
    obtain ⟨⟨c3, h3⟩, hv', r₃⟩ := hv.complete (r₂.rest_of hc₂) hf
    have r : Reads c (S₁ ++ eq :: S₂) c3 := by simpa using r₁.trans (r₂.trans r₃)
    refine ⟨⟨c3, r.length_lt (by simp)⟩, ?_, r⟩
    rw [expression, hr, ok_bind]
    dsimp only
    rw [he]
    dsimp only
    rw [hv', ok_bind]
    rfl

theorem IsBinary.complete {level : Nat} {S T : List Token} {e : Expr} {c : Cursor}
    (hc : c.rest = S ++ T) (hf : extendsOperand level (nextKind T) = false) :
    IsBinary level S e → ∃ d, binary level c = .ok (e, d) ∧ Reads c S d.1
  | @IsBinary.mk _ S₁ S₂ _ _ ho hch => by
    have hc₁ : c.rest = S₁ ++ (S₂ ++ T) := by simp [hc]
    obtain ⟨⟨c1, h1⟩, hr₁, r₁⟩ := ho.complete hc₁ (hch.next hf)
    obtain ⟨⟨c2, h2⟩, hr₂, r₂⟩ := hch.complete (r₁.rest_of hc₁) hf
    refine ⟨⟨c2, Nat.lt_of_le_of_lt r₂.length_le h1⟩, ?_, r₁.trans r₂⟩
    rw [binary, operand_bind hr₁]
    dsimp only
    rw [hr₂, ok_bind]
    rfl

theorem IsChain.complete {level : Nat} {left e : Expr} {S T : List Token} {c : Cursor}
    (hc : c.rest = S ++ T) (hf : extendsOperand level (nextKind T) = false) :
    IsChain level left S e → ∃ d, binaryRest level left c = .ok (e, d) ∧ Reads c S d.1
  | .done => by
    refine ⟨⟨c, Nat.le_refl _⟩, ?_, .refl c⟩
    rw [binaryRest, binaryOp?_none_of_peekKind
      (by rw [(Reads.refl c).peekKind hc]; exact levelOp?_eq_none hf)]
  | @IsChain.more _ _ S₁ S₂ _ _ _ t hop ho hch => by
    have hc₁ : c.rest = t :: (S₁ ++ (S₂ ++ T)) := by simp [hc]
    obtain ⟨⟨c1, h1⟩, hs, r₁⟩ := binaryOp?_of_rest hc₁ hop
    have hc₂ : c1.rest = S₁ ++ (S₂ ++ T) := r₁.rest_of hc₁
    obtain ⟨⟨c2, h2⟩, hr₂, r₂⟩ := ho.complete hc₂ (hch.next hf)
    obtain ⟨⟨c3, h3⟩, hr₃, r₃⟩ := hch.complete (r₂.rest_of hc₂) hf
    have r : Reads c (t :: S₁ ++ S₂) c3 := by simpa using r₁.trans (r₂.trans r₃)
    refine ⟨⟨c3, r.length_le⟩, ?_, r⟩
    rw [binaryRest, hs]
    dsimp only
    rw [operand_bind hr₂]
    dsimp only
    rw [hr₃, ok_bind]
    rfl

theorem IsOperand.complete {level : Nat} {S T : List Token} {e : Expr} {c : Cursor}
    (hc : c.rest = S ++ T) (hf : extendsOperand (level + 1) (nextKind T) = false) :
    IsOperand level S e →
      ∃ d, (if level < 4 then binary (level + 1) c else prefixExpr c) = .ok (e, d) ∧ Reads c S d.1
  | .tighter hl hb => by
    rw [if_pos hl]
    exact hb.complete hc hf
  | .tightest hl hp => by
    rw [if_neg hl]
    exact hp.complete hc (extendsOperand_five hf)

theorem IsPrefix.complete {S T : List Token} {e : Expr} {c : Cursor} (hc : c.rest = S ++ T)
    (hf : extendsOperand 5 (nextKind T) = false) :
    IsPrefix S e → ∃ d, prefixExpr c = .ok (e, d) ∧ Reads c S d.1
  | @IsPrefix.not S' _ bang hb hp => by
    have hc₁ : c.rest = bang :: (S' ++ T) := by simp [hc]
    obtain ⟨⟨c1, h1⟩, he, r₁⟩ := eat?_of_rest hc₁ hb
    obtain ⟨⟨c2, h2⟩, hr, r₂⟩ := hp.complete (r₁.rest_of hc₁) hf
    have r : Reads c (bang :: S') c2 := r₁.trans r₂
    refine ⟨⟨c2, r.length_lt (by simp)⟩, ?_, r⟩
    rw [prefixExpr, he]
    dsimp only
    rw [hr, ok_bind]
    rfl
  | .suffix hs => by
    obtain ⟨t, S', hS, -, hbang⟩ := hs.head
    have hk : c.peekKind = t.kind := peekKind_of_rest (r := S' ++ T) (by rw [hc, hS]; rfl)
    rw [prefixExpr, eat?_none_of_peekKind (by rw [hk]; exact hbang)]
    exact hs.complete hc hf

theorem IsSuffix.complete {S T : List Token} {e : Expr} {c : Cursor} (hc : c.rest = S ++ T)
    (hf : extendsOperand 5 (nextKind T) = false) :
    IsSuffix S e → ∃ d, suffixExpr c = .ok (e, d) ∧ Reads c S d.1
  | @IsSuffix.mk S₁ S₂ _ _ hb hs => by
    have hc₁ : c.rest = S₁ ++ (S₂ ++ T) := by simp [hc]
    obtain ⟨⟨c1, h1⟩, hr₁, r₁⟩ := hb.complete hc₁
    obtain ⟨⟨c2, h2⟩, hr₂, r₂⟩ := hs.complete (r₁.rest_of hc₁) hf
    refine ⟨⟨c2, Nat.lt_of_le_of_lt r₂.length_le h1⟩, ?_, r₁.trans r₂⟩
    rw [suffixExpr, hr₁, ok_bind]
    dsimp only
    rw [hr₂, ok_bind]
    rfl

theorem IsSuffixes.complete {e r : Expr} {S T : List Token} {c : Cursor} (hc : c.rest = S ++ T)
    (hf : extendsOperand 5 (nextKind T) = false) :
    IsSuffixes e S r → ∃ d, suffixRest e c = .ok (r, d) ∧ Reads c S d.1
  | .done => by
    refine ⟨⟨c, Nat.le_refl _⟩, ?_, .refl c⟩
    have hk := (Reads.refl c).peekKind hc
    rw [suffixRest]
    split
    next h => rw [hk] at h; rw [h] at hf; cases hf
    next h => rw [hk] at h; rw [h] at hf; cases hf
    next h => rw [hk] at h; rw [h] at hf; cases hf
    next => rfl
  | @IsSuffixes.field _ S' _ dot name hdot hn hs => by
    have hc₁ : c.rest = dot :: name :: (S' ++ T) := by simp [hc]
    obtain ⟨⟨c1, h1⟩, hx, r₁⟩ := expect_of_rest hc₁ hdot
    have hc₂ : c1.rest = name :: (S' ++ T) := r₁.rest_of hc₁
    obtain ⟨⟨c2, h2⟩, hi, r₂⟩ := ident_of_rest hc₂ hn
    obtain ⟨⟨c3, h3⟩, hr, r₃⟩ := hs.complete (r₂.rest_of hc₂) hf
    have r : Reads c (dot :: name :: S') c3 := r₁.trans (r₂.trans r₃)
    refine ⟨⟨c3, r.length_le⟩, ?_, r⟩
    rw [suffixRest, peekKind_of_rest hc₁, hdot]
    dsimp only
    rw [hx, ok_bind]
    dsimp only
    rw [hi, ok_bind]
    dsimp only
    rw [spanFrom_eq_upTo (S := []) r₂, hr, ok_bind]
    rfl
  | @IsSuffixes.index _ _ S₁ S₂ _ lb rb hlb hi hrb hs => by
    have hc₁ : c.rest = lb :: (S₁ ++ rb :: (S₂ ++ T)) := by simp [hc]
    obtain ⟨⟨c1, h1⟩, hx, r₁⟩ := expect_of_rest hc₁ hlb
    have hc₂ : c1.rest = S₁ ++ rb :: (S₂ ++ T) := r₁.rest_of hc₁
    obtain ⟨⟨c2, h2⟩, he, r₂⟩ := hi.complete hc₂ (by rw [nextKind_cons, hrb]; rfl)
    have hc₃ : c2.rest = rb :: (S₂ ++ T) := r₂.rest_of hc₂
    obtain ⟨⟨c3, h3⟩, hy, r₃⟩ := expect_of_rest hc₃ hrb
    obtain ⟨⟨c4, h4⟩, hr, r₄⟩ := hs.complete (r₃.rest_of hc₃) hf
    have r : Reads c (lb :: S₁ ++ rb :: S₂) c4 := by simpa using r₁.trans (r₂.trans (r₃.trans r₄))
    refine ⟨⟨c4, r.length_le⟩, ?_, r⟩
    rw [suffixRest, peekKind_of_rest hc₁, hlb]
    dsimp only
    rw [hx, ok_bind]
    dsimp only
    rw [he, ok_bind]
    dsimp only
    rw [hy, ok_bind]
    dsimp only
    rw [spanFrom_eq_upTo (S := []) r₃, hr, ok_bind]
    rfl
  | @IsSuffixes.call _ _ S₁ S₂ _ lp rp hlp ha hrp hs => by
    have hc₁ : c.rest = lp :: (S₁ ++ rp :: (S₂ ++ T)) := by simp [hc]
    obtain ⟨⟨c1, h1⟩, hx, r₁⟩ := expect_of_rest hc₁ hlp
    have hc₂ : c1.rest = S₁ ++ rp :: (S₂ ++ T) := r₁.rest_of hc₁
    obtain ⟨⟨c2, h2⟩, ha', r₂⟩ := ha.complete (.inl rfl) hc₂ hrp
    obtain ⟨⟨c3, h3⟩, hr, r₃⟩ := hs.complete (r₂.rest_of (by simpa using hc₂)) hf
    have r : Reads c (lp :: S₁ ++ rp :: S₂) c3 := by simpa using r₁.trans (r₂.trans r₃)
    refine ⟨⟨c3, r.length_le⟩, ?_, r⟩
    rw [suffixRest, peekKind_of_rest hc₁, hlp]
    dsimp only
    rw [hx, ok_bind]
    dsimp only
    rw [ha', ok_bind]
    dsimp only
    rw [spanFrom_eq_upTo r₂, hr, ok_bind]
    rfl

theorem IsBasic.complete {S T : List Token} {e : Expr} {c : Cursor} (hc : c.rest = S ++ T) :
    IsBasic S e → ∃ d, basicExpr c = .ok (e, d) ∧ Reads c S d.1
  | .ctor (d := dl) (n := n) hd hn => by
    have hc₁ : c.rest = dl :: n :: T := hc
    obtain ⟨⟨c1, h1⟩, hx, r₁⟩ := expect_of_rest hc₁ hd
    obtain ⟨⟨c2, h2⟩, hi, r₂⟩ := ident_of_rest (r₁.rest_of hc₁) hn
    have r : Reads c [dl, n] c2 := r₁.trans r₂
    refine ⟨⟨c2, r.length_lt (by simp)⟩, ?_, r⟩
    rw [basicExpr, peek_of_rest hc₁, hd]
    simp only [hx, hi, ok_bind, pure_bind, spanFrom_eq_upTo (S := [dl]) r]
    rfl
  | .ref (t := t) ht => by
    have hc₁ : c.rest = t :: T := hc
    obtain ⟨d, hx, r⟩ := expect_of_rest hc₁ ht
    refine ⟨d, ?_, r⟩
    rw [basicExpr, peek_of_rest hc₁, ht]
    simp only [hx, ok_bind, pure_bind, spanFrom_eq_upTo (S := []) r]
    rfl
  | .int (t := t) ht hr => by
    have hc₁ : c.rest = t :: T := hc
    obtain ⟨d, hx, r⟩ := expect_of_rest hc₁ ht
    refine ⟨d, ?_, r⟩
    rw [basicExpr, peek_of_rest hc₁, ht]
    simp only [hx, ok_bind, pure_bind, numberLiteral_int ht hr, spanFrom_eq_upTo (S := []) r]
    rfl
  | .float (t := t) ht => by
    have hc₁ : c.rest = t :: T := hc
    obtain ⟨d, hx, r⟩ := expect_of_rest hc₁ ht
    refine ⟨d, ?_, r⟩
    rw [basicExpr, peek_of_rest hc₁, ht]
    simp only [hx, ok_bind, pure_bind, numberLiteral_float ht, spanFrom_eq_upTo (S := []) r]
    rfl
  | .negInt (m := m) (t := t) hm ht hr => by
    have hc₁ : c.rest = m :: t :: T := hc
    obtain ⟨⟨c1, h1⟩, hx, r₁⟩ := expect_of_rest hc₁ hm
    have hc₂ : c1.rest = t :: T := r₁.rest_of hc₁
    obtain ⟨⟨c2, h2⟩, hy, r₂⟩ := expect_of_rest hc₂ (peekKind_of_rest hc₂).symm
    have r : Reads c [m, t] c2 := r₁.trans r₂
    refine ⟨⟨c2, r.length_lt (by simp)⟩, ?_, r⟩
    have hafter : c.kindAfter = .intLiteral := by rw [Cursor.kindAfter, hc₁]; exact ht
    rw [basicExpr, peek_of_rest hc₁, hm]
    simp only [hafter, hx, hy, ok_bind, pure_bind, numberLiteral_negInt ht hr,
      spanFrom_eq_upTo (S := [m]) r]
    rfl
  | .negFloat (m := m) (t := t) hm ht => by
    have hc₁ : c.rest = m :: t :: T := hc
    obtain ⟨⟨c1, h1⟩, hx, r₁⟩ := expect_of_rest hc₁ hm
    have hc₂ : c1.rest = t :: T := r₁.rest_of hc₁
    obtain ⟨⟨c2, h2⟩, hy, r₂⟩ := expect_of_rest hc₂ (peekKind_of_rest hc₂).symm
    have r : Reads c [m, t] c2 := r₁.trans r₂
    refine ⟨⟨c2, r.length_lt (by simp)⟩, ?_, r⟩
    have hafter : c.kindAfter = .floatLiteral := by rw [Cursor.kindAfter, hc₁]; exact ht
    rw [basicExpr, peek_of_rest hc₁, hm]
    simp only [hafter, hx, hy, ok_bind, pure_bind, numberLiteral_float ht,
      spanFrom_eq_upTo (S := [m]) r]
    rfl
  | .str (t := t) ht => by
    have hc₁ : c.rest = t :: T := hc
    obtain ⟨d, hx, r⟩ := expect_of_rest hc₁ ht
    refine ⟨d, ?_, r⟩
    rw [basicExpr, peek_of_rest hc₁, ht]
    simp only [hx, ok_bind, pure_bind, spanFrom_eq_upTo (S := []) r]
    rfl
  | @IsBasic.paren S' _ lp rp hlp he hrp => by
    have hc₁ : c.rest = lp :: (S' ++ rp :: T) := by simp [hc]
    obtain ⟨⟨c1, h1⟩, hx, r₁⟩ := expect_of_rest hc₁ hlp
    have hc₂ : c1.rest = S' ++ rp :: T := r₁.rest_of hc₁
    obtain ⟨⟨c2, h2⟩, he', r₂⟩ := he.complete hc₂ (by rw [nextKind_cons, hrp]; rfl)
    have hc₃ : c2.rest = rp :: T := r₂.rest_of hc₂
    obtain ⟨⟨c3, h3⟩, hy, r₃⟩ := expect_of_rest hc₃ hrp
    have r : Reads c (lp :: S' ++ [rp]) c3 := by simpa using r₁.trans (r₂.trans r₃)
    refine ⟨⟨c3, r.length_lt (by simp)⟩, ?_, r⟩
    rw [basicExpr, peek_of_rest hc₁, hlp]
    simp only [hx, he', hy, ok_bind, pure_bind, spanFrom_eq_upTo r]
    rfl
  | @IsBasic.array S' _ lb rb hlb ha hrb => by
    have hc₁ : c.rest = lb :: (S' ++ rb :: T) := by simp [hc]
    obtain ⟨⟨c1, h1⟩, hx, r₁⟩ := expect_of_rest hc₁ hlb
    obtain ⟨⟨c2, h2⟩, ha', r₂⟩ := ha.complete (.inr rfl) (r₁.rest_of hc₁) hrb
    have r : Reads c (lb :: S' ++ [rb]) c2 := by simpa using r₁.trans r₂
    refine ⟨⟨c2, r.length_lt (by simp)⟩, ?_, r⟩
    rw [basicExpr, peek_of_rest hc₁, hlb]
    simp only [hx, ha', ok_bind, pure_bind, spanFrom_eq_upTo r]
    rfl

theorem IsArgs.complete {close : TokenKind} {S T : List Token} {es : List Expr} {c : Cursor}
    {t : Token} (hclose : close = .rParen ∨ close = .rBracket) (hc : c.rest = S ++ t :: T)
    (ht : t.kind = close) :
    IsArgs S es → ∃ d, exprList close c = .ok (es, d) ∧ Reads c (S ++ [t]) d.1
  | .nil => by
    obtain ⟨d, he, r⟩ := eat?_of_rest hc ht
    refine ⟨d, ?_, r⟩
    rw [exprList, he]
  | .items hi => by
    obtain ⟨u, S', hS, hu⟩ := hi.head
    have hne : c.peekKind ≠ close := by
      rw [peekKind_of_rest (r := S' ++ t :: T) (by rw [hc, hS]; rfl)]
      rintro hk
      rw [hk, (closer_facts hclose).1] at hu
      cases hu
    obtain ⟨d, hr, r⟩ := hi.complete hclose hc ht #[]
    refine ⟨d, ?_, r⟩
    rw [exprList, eat?_none_of_peekKind hne]
    simpa using hr

theorem IsItems.complete {close : TokenKind} {S T : List Token} {es : List Expr} {c : Cursor}
    {t : Token} (hclose : close = .rParen ∨ close = .rBracket) (hc : c.rest = S ++ t :: T)
    (ht : t.kind = close) (acc : Array Expr) :
    IsItems S es → ∃ d, exprItems close c acc = .ok (acc.toList ++ es, d) ∧ Reads c (S ++ [t]) d.1
  | .one he => by
    obtain ⟨-, hcont, hcomma⟩ := closer_facts hclose
    obtain ⟨⟨c1, h1⟩, hr, r₁⟩ := he.complete hc (by rw [nextKind_cons, ht]; exact hcont)
    have hc₁ : c1.rest = t :: T := r₁.rest_of hc
    obtain ⟨⟨c2, h2⟩, hx, r₂⟩ := expect_of_rest hc₁ ht
    have r : Reads c (S ++ [t]) c2 := r₁.trans r₂
    refine ⟨⟨c2, r.length_lt (by simp)⟩, ?_, r⟩
    rw [exprItems, hr, ok_bind]
    dsimp only
    rw [eat?_none_of_peekKind (by rw [peekKind_of_rest hc₁, ht]; exact hcomma)]
    dsimp only
    rw [hx, ok_bind]
    simp [pure, Except.pure]
  | @IsItems.more S₁ S₂ e _ comma he hcomma hi => by
    have hc₁ : c.rest = S₁ ++ comma :: (S₂ ++ t :: T) := by simp [hc]
    obtain ⟨⟨c1, h1⟩, hr, r₁⟩ := he.complete hc₁ (by rw [nextKind_cons, hcomma]; rfl)
    have hc₂ : c1.rest = comma :: (S₂ ++ t :: T) := r₁.rest_of hc₁
    obtain ⟨⟨c2, h2⟩, hx, r₂⟩ := eat?_of_rest hc₂ hcomma
    obtain ⟨⟨c3, h3⟩, hr', r₃⟩ := hi.complete hclose (r₂.rest_of hc₂) ht (acc.push e)
    have r : Reads c (S₁ ++ comma :: S₂ ++ [t]) c3 := by simpa using r₁.trans (r₂.trans r₃)
    refine ⟨⟨c3, r.length_lt (by simp)⟩, ?_, r⟩
    rw [exprItems, hr, ok_bind]
    dsimp only
    rw [hx]
    dsimp only
    rw [hr', ok_bind]
    simp [pure, Except.pure]
end

theorem IsTypeSuffixes.complete {start : Nat} {t r : TypeExpr} {S T : List Token} {c : Cursor}
    (hc : c.rest = S ++ T) (hf : nextKind T ≠ .lBracket) (h : IsTypeSuffixes start t S r) :
    ∃ d, typeSuffixes start t c = .ok (r, d) ∧ Reads c S d.1 := by
  induction h generalizing c with
  | done =>
    refine ⟨⟨c, Nat.le_refl _⟩, ?_, .refl c⟩
    rw [typeSuffixes, eat?_none_of_peekKind (by rw [(Reads.refl c).peekKind hc]; exact hf)]
  | @more t S r lb rb hlb hrb hs ih =>
    have hc₁ : c.rest = lb :: rb :: (S ++ T) := by simp [hc]
    obtain ⟨⟨c1, h1⟩, he, r₁⟩ := eat?_of_rest hc₁ hlb
    have hc₂ : c1.rest = rb :: (S ++ T) := r₁.rest_of hc₁
    obtain ⟨⟨c2, h2⟩, hx, r₂⟩ := expect_of_rest hc₂ hrb
    obtain ⟨⟨c3, h3⟩, hr, r₃⟩ := ih (r₂.rest_of hc₂)
    have r : Reads c (lb :: rb :: S) c3 := r₁.trans (r₂.trans r₃)
    refine ⟨⟨c3, r.length_le⟩, ?_, r⟩
    rw [typeSuffixes, he]
    simp only [hx, ok_bind, spanFrom_eq_upTo (S := []) r₂, hr]
    rfl

theorem IsType.complete {t : TypeExpr} {S T : List Token} {c : Cursor} (hc : c.rest = S ++ T)
    (hf : nextKind T ≠ .lBracket) (h : IsType S t) :
    ∃ d, typeExpr c = .ok (t, d) ∧ Reads c S d.1 := by
  cases h with
  | @mk S t n hn hs =>
    have hc₁ : c.rest = n :: (S ++ T) := hc
    obtain ⟨⟨c1, h1⟩, hi, r₁⟩ := ident_of_rest hc₁ hn
    obtain ⟨⟨c2, h2⟩, ht, r₂⟩ := hs.complete (r₁.rest_of hc₁) hf
    have r : Reads c (n :: S) c2 := r₁.trans r₂
    refine ⟨⟨c2, r.length_lt (by simp)⟩, ?_, r⟩
    rw [typeExpr]
    simp only [hi, ok_bind, ht]
    rfl

theorem IsBinding.complete {b : Binding} {S T : List Token} {c : Cursor} (hc : c.rest = S ++ T)
    (hf : nextKind T ≠ .lBracket) (h : IsBinding S b) :
    ∃ d, binding c = .ok (b, d) ∧ Reads c S d.1 := by
  cases h with
  | @mk S t n col hn hcol ht =>
    have hc₁ : c.rest = n :: col :: (S ++ T) := hc
    obtain ⟨⟨c1, h1⟩, hi, r₁⟩ := ident_of_rest hc₁ hn
    have hc₂ : c1.rest = col :: (S ++ T) := r₁.rest_of hc₁
    obtain ⟨⟨c2, h2⟩, hx, r₂⟩ := expect_of_rest hc₂ hcol
    obtain ⟨⟨c3, h3⟩, ht', r₃⟩ := ht.complete (r₂.rest_of hc₂) hf
    have r : Reads c (n :: col :: S) c3 := r₁.trans (r₂.trans r₃)
    refine ⟨⟨c3, r.length_lt (by simp)⟩, ?_, r⟩
    rw [binding]
    simp only [hi, hx, ht', ok_bind]
    rfl

theorem IsBinding.head {b : Binding} {S : List Token} (h : IsBinding S b) :
    ∃ t S', S = t :: S' ∧ t.kind = .ident := by
  cases h with
  | mk hn _ _ => exact ⟨_, _, rfl, hn⟩

theorem IsBindings.complete {bs : List Binding} {S T : List Token} {c : Cursor}
    (hc : c.rest = S ++ T) (hf : nextKind T = .rParen) (acc : Array Binding)
    (h : IsBindings S bs) :
    ∃ d, paramItems c acc = .ok (acc.toList ++ bs, d) ∧ Reads c S d.1 := by
  induction h generalizing c acc with
  | @one S b hb =>
    obtain ⟨⟨c1, h1⟩, hr, r⟩ := hb.complete hc (by rw [hf]; decide)
    refine ⟨⟨c1, h1⟩, ?_, r⟩
    rw [paramItems, hr, ok_bind]
    dsimp only
    rw [eat?_none_of_peekKind (by rw [r.peekKind hc, hf]; decide)]
    simp [pure, Except.pure]
  | @more S₁ S₂ b bs comma hb hcomma hs ih =>
    have hc₁ : c.rest = S₁ ++ comma :: (S₂ ++ T) := by simp [hc]
    obtain ⟨⟨c1, h1⟩, hr, r₁⟩ := hb.complete hc₁ (by rw [nextKind_cons, hcomma]; decide)
    have hc₂ : c1.rest = comma :: (S₂ ++ T) := r₁.rest_of hc₁
    obtain ⟨⟨c2, h2⟩, he, r₂⟩ := eat?_of_rest hc₂ hcomma
    obtain ⟨⟨c3, h3⟩, hr', r₃⟩ := ih (r₂.rest_of hc₂) (acc.push b)
    have r : Reads c (S₁ ++ comma :: S₂) c3 := by simpa using r₁.trans (r₂.trans r₃)
    refine ⟨⟨c3, r.length_lt (by simp)⟩, ?_, r⟩
    rw [paramItems, hr, ok_bind]
    dsimp only
    rw [he]
    dsimp only
    rw [hr', ok_bind]
    simp [pure, Except.pure]

theorem IsParams.complete {bs : List Binding} {S T : List Token} {c : Cursor}
    (hc : c.rest = S ++ T) (hf : nextKind T = .rParen) (h : IsParams S bs) :
    ∃ d, params c = .ok (bs, d) ∧ Reads c S d.1 := by
  cases h with
  | nil =>
    refine ⟨⟨c, Nat.le_refl _⟩, ?_, .refl c⟩
    rw [params, if_pos (by rw [(Reads.refl c).peekKind hc, hf])]
  | items hs =>
    obtain ⟨⟨c1, h1⟩, hr, r⟩ := hs.complete hc hf #[]
    refine ⟨⟨c1, Nat.le_of_lt h1⟩, ?_, r⟩
    have hne : c.peekKind ≠ .rParen := by
      cases hs with
      | one hb | more hb _ _ =>
        obtain ⟨t, S', hS, hk⟩ := hb.head
        subst hS
        rw [peekKind_of_rest (r := S' ++ _) (by simpa using hc), hk]
        decide
    rw [params, if_neg hne, hr, ok_bind]
    simp only [List.nil_append]
    rfl

theorem dimensionSize_unsized {acc : Dimensions} {c : Cursor} (h : c.peekKind ≠ .intLiteral) :
    dimensionSize acc c = .ok ({ acc with unsized := acc.unsized + 1 }, ⟨c, Nat.le_refl _⟩) := by
  rw [dimensionSize, eat?_none_of_peekKind h]

theorem dimensionSize_sized {acc : Dimensions} {c : Cursor} {k : Token} {r : List Token}
    (hc : c.rest = k :: r) (hk : k.kind = .intLiteral) (hn : k.text.toNat! < 2 ^ 64) :
    ∃ d, dimensionSize acc c = .ok ({ acc with sized := acc.sized ++ [k.text.toNat!] }, d) ∧
      Reads c [k] d.1 := by
  obtain ⟨⟨d, hd⟩, he, r⟩ := eat?_of_rest hc hk
  refine ⟨⟨d, Nat.le_of_lt hd⟩, ?_, r⟩
  rw [dimensionSize, he]
  dsimp only
  rw [if_pos (by rw [Nat.pow_eq]; exact hn)]

theorem IsTypeSuffixes.dimensions_complete {start : Nat} {t r : TypeExpr} {S T : List Token}
    {c : Cursor} (hc : c.rest = S ++ T) (hf : nextKind T ≠ .lBracket)
    (h : IsTypeSuffixes start t S r) (u : Nat) :
    ∃ u' d, dimensions start ⟨t, [], u⟩ c = .ok (⟨r, [], u'⟩, d) ∧ Reads c S d.1 := by
  induction h generalizing c u with
  | done =>
    refine ⟨u, ⟨c, Nat.le_refl _⟩, ?_, .refl c⟩
    rw [dimensions, eat?_none_of_peekKind (by rw [(Reads.refl c).peekKind hc]; exact hf)]
  | @more t S r lb rb hlb hrb hs ih =>
    have hc₁ : c.rest = lb :: rb :: (S ++ T) := by simp [hc]
    obtain ⟨⟨c1, h1⟩, he, r₁⟩ := eat?_of_rest hc₁ hlb
    have hc₂ : c1.rest = rb :: (S ++ T) := r₁.rest_of hc₁
    have hs₁ := @dimensionSize_unsized ⟨t, [], u⟩ c1
      (by rw [peekKind_of_rest hc₂, hrb]; decide : c1.peekKind ≠ .intLiteral)
    obtain ⟨⟨c2, h2⟩, hx, r₂⟩ := expect_of_rest hc₂ hrb
    obtain ⟨u', ⟨c3, h3⟩, hr, r₃⟩ := ih (r₂.rest_of hc₂) (u + 1)
    have r : Reads c (lb :: rb :: S) c3 := r₁.trans (r₂.trans r₃)
    refine ⟨u', ⟨c3, r.length_le⟩, ?_, r⟩
    rw [dimensions, he]
    simp only [hs₁, hx, ok_bind, spanFrom_eq_upTo (S := []) r₂, hr]
    rfl

theorem IsDims.dimensions_complete {start : Nat} {ns : List Nat} {S T : List Token} {c : Cursor}
    (hc : c.rest = S ++ T) (hf : nextKind T ≠ .lBracket) (h : IsDims S ns) (ty : TypeExpr)
    (sz : List Nat) :
    ∃ ty' d, dimensions start ⟨ty, sz, 0⟩ c = .ok (⟨ty', sz ++ ns, 0⟩, d) ∧ Reads c S d.1 := by
  induction h generalizing c ty sz with
  | nil =>
    refine ⟨ty, ⟨c, Nat.le_refl _⟩, ?_, .refl c⟩
    rw [dimensions, eat?_none_of_peekKind (by rw [(Reads.refl c).peekKind hc]; exact hf)]
    simp
  | @more S ns lb k rb hlb hk hn hrb hs ih =>
    have hc₁ : c.rest = lb :: k :: rb :: (S ++ T) := by simp [hc]
    obtain ⟨⟨c1, h1⟩, he, r₁⟩ := eat?_of_rest hc₁ hlb
    have hc₂ : c1.rest = k :: rb :: (S ++ T) := r₁.rest_of hc₁
    obtain ⟨⟨c2, h2⟩, hs₁, r₂⟩ := @dimensionSize_sized ⟨ty, sz, 0⟩ _ _ _ hc₂ hk hn
    have hc₃ : c2.rest = rb :: (S ++ T) := r₂.rest_of hc₂
    obtain ⟨⟨c3, h3⟩, hx, r₃⟩ := expect_of_rest hc₃ hrb
    obtain ⟨ty', ⟨c4, h4⟩, hr, r₄⟩ := ih (r₃.rest_of hc₃)
      (.array ty (c3.spanFrom start)) (sz ++ [k.text.toNat!])
    have r : Reads c (lb :: k :: rb :: S) c4 := r₁.trans (r₂.trans (r₃.trans r₄))
    refine ⟨ty', ⟨c4, r.length_le⟩, ?_, r⟩
    rw [dimensions, he]
    simp only [hs₁, hx, ok_bind, hr, List.append_assoc, List.singleton_append]
    rfl

theorem varDecl_complete {S₁ S₂ T : List Token} {ty : TypeExpr} {init : Expr}
    {v n col eq : Token} {c : Cursor} (hc : c.rest = v :: n :: col :: S₁ ++ eq :: S₂ ++ T)
    (hv : v.kind = .kwVar) (hn : n.kind = .ident) (hcol : col.kind = .colon) (ht : IsType S₁ ty)
    (heq : eq.kind = .equal) (hi : IsExpr S₂ init) (hf : continuesExpression (nextKind T) = false) :
    ∃ d, varDecl c = .ok (.var ⟨n.text, n.span⟩ ty init, d) ∧
      Reads c (v :: n :: col :: S₁ ++ eq :: S₂) d.1 := by
  cases ht with
  | @mk S ty b hb hs =>
    have hc₁ : c.rest = v :: n :: col :: b :: (S ++ eq :: (S₂ ++ T)) := by simp [hc]
    obtain ⟨⟨c1, h1⟩, hx, r₁⟩ := expect_of_rest hc₁ hv
    have hc₂ : c1.rest = n :: col :: b :: (S ++ eq :: (S₂ ++ T)) := r₁.rest_of hc₁
    obtain ⟨⟨c2, h2⟩, hn', r₂⟩ := ident_of_rest hc₂ hn
    have hc₃ : c2.rest = col :: b :: (S ++ eq :: (S₂ ++ T)) := r₂.rest_of hc₂
    obtain ⟨⟨c3, h3⟩, hy, r₃⟩ := expect_of_rest hc₃ hcol
    have hc₄ : c3.rest = b :: (S ++ eq :: (S₂ ++ T)) := r₃.rest_of hc₃
    obtain ⟨⟨c4, h4⟩, hb', r₄⟩ := ident_of_rest hc₄ hb
    have hc₅ : c4.rest = S ++ eq :: (S₂ ++ T) := r₄.rest_of hc₄
    obtain ⟨u, ⟨c5, h5⟩, hd, r₅⟩ :=
      hs.dimensions_complete hc₅ (by rw [nextKind_cons, heq]; decide) 0
    have hc₆ : c5.rest = eq :: (S₂ ++ T) := r₅.rest_of hc₅
    obtain ⟨⟨c6, h6⟩, hz, r₆⟩ := expect_of_rest hc₆ heq
    obtain ⟨⟨c7, h7⟩, he, r₇⟩ := hi.complete (r₆.rest_of hc₆) hf
    have r : Reads c (v :: n :: col :: (b :: S) ++ eq :: S₂) c7 := by
      simpa using r₁.trans (r₂.trans (r₃.trans (r₄.trans (r₅.trans (r₆.trans r₇)))))
    refine ⟨⟨c7, r.length_lt (by simp)⟩, ?_, r⟩
    rw [varDecl]
    simp only [hx, hn', hy, hb', hd, hz, he, ok_bind, List.isEmpty_nil, ↓reduceIte]
    rfl

theorem varDecl_sized_complete {S T : List Token} {dims : List Nat} {v n col b : Token}
    {c : Cursor} (hc : c.rest = v :: n :: col :: b :: S ++ T) (hv : v.kind = .kwVar)
    (hn : n.kind = .ident) (hcol : col.kind = .colon) (hb : b.kind = .ident) (hd : IsDims S dims)
    (hne : dims ≠ []) (hlim : withinElementLimit dims = true)
    (hf : nextKind T ≠ .lBracket ∧ nextKind T ≠ .equal) :
    ∃ d, varDecl c = .ok (.sizedArray ⟨n.text, n.span⟩ (.named b.text b.span) dims, d) ∧
      Reads c (v :: n :: col :: b :: S) d.1 := by
  have hc₁ : c.rest = v :: n :: col :: b :: (S ++ T) := by simp [hc]
  obtain ⟨⟨c1, h1⟩, hx, r₁⟩ := expect_of_rest hc₁ hv
  have hc₂ : c1.rest = n :: col :: b :: (S ++ T) := r₁.rest_of hc₁
  obtain ⟨⟨c2, h2⟩, hn', r₂⟩ := ident_of_rest hc₂ hn
  have hc₃ : c2.rest = col :: b :: (S ++ T) := r₂.rest_of hc₂
  obtain ⟨⟨c3, h3⟩, hy, r₃⟩ := expect_of_rest hc₃ hcol
  have hc₄ : c3.rest = b :: (S ++ T) := r₃.rest_of hc₃
  obtain ⟨⟨c4, h4⟩, hb', r₄⟩ := ident_of_rest hc₄ hb
  have hc₅ : c4.rest = S ++ T := r₄.rest_of hc₄
  obtain ⟨ty, ⟨c5, h5⟩, hd', r₅⟩ :=
    @IsDims.dimensions_complete b.span.start _ _ _ _ hc₅ hf.1 hd (.named b.text b.span) []
  have r : Reads c (v :: n :: col :: b :: S) c5 := r₁.trans (r₂.trans (r₃.trans (r₄.trans r₅)))
  have hpk : c5.peekKind ≠ .equal := by rw [r₅.peekKind hc₅]; exact hf.2
  refine ⟨⟨c5, r.length_lt (by simp)⟩, ?_, r⟩
  rw [varDecl]
  simp only [hx, hn', hy, hb', hd', ok_bind, List.nil_append, hlim, hpk]
  simp [hne]
  rfl

theorem returnStmt_none_complete {T : List Token} {r : Token} {c : Cursor} (hc : c.rest = r :: T)
    (hr : r.kind = .kwReturn) (hf : startsExpression (nextKind T) = false) :
    ∃ d, returnStmt c = .ok (.ret none, d) ∧ Reads c [r] d.1 := by
  obtain ⟨⟨c1, h1⟩, hx, r₁⟩ := expect_of_rest hc hr
  refine ⟨⟨c1, h1⟩, ?_, r₁⟩
  rw [returnStmt, hx, ok_bind]
  dsimp only
  rw [if_neg (by rw [r₁.peekKind (T := T) hc, hf]; decide)]
  rfl

theorem returnStmt_some_complete {S T : List Token} {e : Expr} {r : Token} {c : Cursor}
    (hc : c.rest = r :: S ++ T) (hr : r.kind = .kwReturn) (he : IsExpr S e)
    (hf : continuesExpression (nextKind T) = false) :
    ∃ d, returnStmt c = .ok (.ret (some e), d) ∧ Reads c (r :: S) d.1 := by
  have hc₁ : c.rest = r :: (S ++ T) := hc
  obtain ⟨⟨c1, h1⟩, hx, r₁⟩ := expect_of_rest hc₁ hr
  have hc₂ : c1.rest = S ++ T := r₁.rest_of hc₁
  obtain ⟨⟨c2, h2⟩, he', r₂⟩ := he.complete hc₂ hf
  have r : Reads c (r :: S) c2 := r₁.trans r₂
  refine ⟨⟨c2, r.length_lt (by simp)⟩, ?_, r⟩
  obtain ⟨t, S', hS, ht⟩ := he.head
  rw [returnStmt, hx, ok_bind]
  dsimp only
  rw [if_pos (by rw [peekKind_of_rest (r := S' ++ T) (by rw [hc₂, hS]; rfl), ht]), he', ok_bind]
  rfl

theorem IsBlock.head {S : List Token} {body : List Stmt} {sp : Span} (h : IsBlock S body sp) :
    ∃ t S', S = t :: S' ∧ t.kind = .lBrace := by
  cases h with
  | mk hlb _ _ => exact ⟨_, _, rfl, hlb⟩

theorem IsFun.head {S : List Token} {f : FunDecl} (h : IsFun S f) :
    ∃ t S', S = t :: S' ∧ t.kind = .kwFun := by
  cases h with
  | mk hf _ _ _ _ _ _ => exact ⟨_, _, rfl, hf⟩

theorem IsStruct.head {S : List Token} {sd : StructDecl} (h : IsStruct S sd) :
    ∃ t S', S = t :: S' ∧ t.kind = .kwStruct := by
  cases h with
  | mk hs _ _ _ _ => exact ⟨_, _, rfl, hs⟩

theorem IsForm.head {S : List Token} {mk : Span → Stmt} (h : IsForm S mk) :
    ∃ t S', S = t :: S' ∧ t.kind ≠ .rBrace ∧ t.kind ≠ .eof := by
  cases h with
  | block hb =>
    obtain ⟨t, S', rfl, hk⟩ := hb.head
    exact ⟨t, S', rfl, by rw [hk]; decide⟩
  | fnDecl hf =>
    obtain ⟨t, S', rfl, hk⟩ := hf.head
    exact ⟨t, S', rfl, by rw [hk]; decide⟩
  | structDecl hs =>
    obtain ⟨t, S', rfl, hk⟩ := hs.head
    exact ⟨t, S', rfl, by rw [hk]; decide⟩
  | expr he =>
    obtain ⟨t, S', rfl, hk⟩ := he.head
    refine ⟨t, S', rfl, ?_, ?_⟩ <;> intro h <;> rw [h] at hk <;> cases hk
  | var hv _ _ _ _ _ => exact ⟨_, _, rfl, by rw [hv]; decide⟩
  | sizedArray hv _ _ _ _ _ _ => exact ⟨_, _, rfl, by rw [hv]; decide⟩
  | ifThen hi _ _ _ => exact ⟨_, _, rfl, by rw [hi]; decide⟩
  | ifElse hi _ _ _ _ _ _ => exact ⟨_, _, rfl, by rw [hi]; decide⟩
  | whileLoop hw _ _ _ => exact ⟨_, _, rfl, by rw [hw]; decide⟩
  | ret hr => exact ⟨_, _, rfl, by rw [hr]; decide⟩
  | retValue hr _ => exact ⟨_, _, rfl, by rw [hr]; decide⟩

theorem forbids_eq_false {k : TokenKind} (hc : continuesExpression k = false)
    (hs : startsExpression k = false) (hb : k ≠ .lBracket) (he : k ≠ .kwElse) :
    ∀ s : Stmt, s.forbids k = false := by
  have heq : k ≠ .equal := (continuesExpression_eq_false.mp hc).1
  intro s
  fun_induction Stmt.forbids s k <;> simp_all

theorem forbids_closing (s : Stmt) {k : TokenKind} (hk : k = .rBrace ∨ k = .eof) :
    s.forbids k = false := by
  rcases hk with rfl | rfl <;> exact forbids_eq_false (by decide) (by decide) (by decide)
    (by decide) s

theorem forbids_next {s : Stmt} {S T : List Token}
    (hs : ∀ t ∈ S.head?, s.forbids t.kind = false) (hT : s.forbids (nextKind T) = false) :
    s.forbids (nextKind (S ++ T)) = false := by
  cases S with
  | nil => exact hT
  | cons t S => exact hs t rfl

theorem IsMembers.next {S T : List Token} {fs : List Binding} {ms : List FunDecl} {rb : Token}
    (h : IsMembers S fs ms) (hrb : rb.kind = .rBrace) : nextKind (S ++ rb :: T) ≠ .lBracket := by
  cases h with
  | nil => rw [List.nil_append, nextKind_cons, hrb]; decide
  | field hv _ _ => rw [List.append_assoc, List.cons_append, nextKind_cons, hv]; decide
  | method hf _ =>
    obtain ⟨t, S', rfl, hk⟩ := hf.head
    rw [List.append_assoc, List.cons_append, nextKind_cons, hk]
    decide

theorem IsResult.complete {S T : List Token} {result : Option TypeExpr} {c : Cursor}
    (hc : c.rest = S ++ T) (hf : nextKind T = .lBrace) (h : IsResult S result) :
    ∃ d : Within c, Reads c S d.1 ∧ ∀ {α : Type} (k : Option TypeExpr × Within c → Except Diagnostic α),
      (match c.eat? .colon with
        | .some (_, ⟨d, hd⟩) => do
          let (t, ⟨e, he⟩) ← typeExpr d
          let x ← pure (Option.some t, (⟨e, Nat.le_of_lt (Nat.lt_trans he hd)⟩ : Within c))
          k x
        | .none => do
          let x ← pure (Option.none, (⟨c, Nat.le_refl _⟩ : Within c))
          k x) = k (result, d) := by
  cases h with
  | none =>
    refine ⟨⟨c, Nat.le_refl _⟩, .refl c, fun k => ?_⟩
    rw [eat?_none_of_peekKind (by rw [(Reads.refl c).peekKind hc, hf]; decide)]
    rfl
  | @some S t col hcol ht =>
    have hc₁ : c.rest = col :: (S ++ T) := hc
    obtain ⟨⟨c1, h1⟩, he, r₁⟩ := eat?_of_rest hc₁ hcol
    obtain ⟨⟨c2, h2⟩, ht', r₂⟩ := ht.complete (r₁.rest_of hc₁) (by rw [hf]; decide)
    have r : Reads c (col :: S) c2 := r₁.trans r₂
    refine ⟨⟨c2, r.length_le⟩, r, fun k => ?_⟩
    rw [he]
    simp only [ht', ok_bind, pure_bind]

theorem statement_of_startsExpression {c : Cursor} (h : startsExpression c.peekKind = true)
    {e : Expr} {d : Ahead c} (he : expression c = .ok (e, d)) :
    statement c = .ok (.expr e (d.1.spanFrom c.peek.span.start), d) := by
  rw [statement]
  split
  case h_8 =>
    rw [if_pos h]
    simp only [he, ok_bind, pure_bind]
    rfl
  all_goals
    rename_i hk
    rw [hk] at h
    cases h

theorem IsStmt.head {S : List Token} {s : Stmt} (h : IsStmt S s) :
    ∃ t S', S = t :: S' ∧ t.kind ≠ .rBrace ∧ t.kind ≠ .eof := by
  cases h with
  | mk hf _ => exact hf.head

theorem Ends.next {S T : List Token} (h : Ends S) (hS : S ≠ []) :
    continuesExpression (nextKind (S ++ T)) = false := by
  cases S with
  | nil => exact absurd rfl hS
  | cons t S => exact h t rfl

mutual
theorem IsStmt.complete {S T : List Token} {s : Stmt} {c : Cursor} (hc : c.rest = S ++ T)
    (hf : s.forbids (nextKind T) = false) :
    IsStmt S s → ∃ d, statement c = .ok (s, d) ∧ Reads c S d.1
  | .mk hform hs => by
    subst hs
    obtain ⟨⟨d, hd⟩, hr, r⟩ := hform.complete hc hf
    refine ⟨⟨d, hd⟩, ?_, r⟩
    obtain ⟨t, S', hS⟩ := List.exists_cons_of_ne_nil (r.ne_nil hd)
    rw [hr, hS]
    rw [hS] at r
    rw [r.peek_eq, spanFrom_eq_ofTokens r]

theorem IsForm.complete {S T : List Token} {mk : Span → Stmt} {c : Cursor} (hc : c.rest = S ++ T)
    (hf : (mk (Span.ofTokens S)).forbids (nextKind T) = false) :
    IsForm S mk → ∃ d, statement c = .ok (mk (d.1.spanFrom c.peek.span.start), d) ∧ Reads c S d.1
  | .block hb => by
    obtain ⟨⟨d, hd⟩, hr, r⟩ := hb.complete hc
    obtain ⟨t, S', hS, hk⟩ := hb.head
    refine ⟨⟨d, hd⟩, ?_, r⟩
    rw [statement, peekKind_of_rest (r := S' ++ T) (by rw [hc, hS]; rfl), hk]
    simp only [hr, ok_bind, pure_bind]
    rfl
  | .var hv hn hcol ht heq hi => by
    obtain ⟨⟨d, hd⟩, hr, r⟩ :=
      varDecl_complete hc hv hn hcol ht heq hi (by simpa [Stmt.forbids] using hf)
    refine ⟨⟨d, hd⟩, ?_, r⟩
    rw [statement, peekKind_of_rest (by rw [hc]; rfl), hv]
    simp only [hr, ok_bind]
    rfl
  | .sizedArray hv hn hcol hb hd hne hlim => by
    obtain ⟨⟨d, hd'⟩, hr, r⟩ :=
      varDecl_sized_complete hc hv hn hcol hb hd hne hlim (by simpa [Stmt.forbids] using hf)
    refine ⟨⟨d, hd'⟩, ?_, r⟩
    rw [statement, peekKind_of_rest (by rw [hc]; rfl), hv]
    simp only [hr, ok_bind]
    rfl
  | .fnDecl hfun => by
    obtain ⟨⟨d, hd⟩, hr, r⟩ := hfun.complete hc
    obtain ⟨t, S', hS, hk⟩ := hfun.head
    refine ⟨⟨d, hd⟩, ?_, r⟩
    rw [statement, peekKind_of_rest (r := S' ++ T) (by rw [hc, hS]; rfl), hk]
    simp only [hr, ok_bind, pure_bind]
    rfl
  | .structDecl hs => by
    obtain ⟨⟨d, hd⟩, hr, r⟩ := hs.complete hc
    obtain ⟨t, S', hS, hk⟩ := hs.head
    refine ⟨⟨d, hd⟩, ?_, r⟩
    rw [statement, peekKind_of_rest (r := S' ++ T) (by rw [hc, hS]; rfl), hk]
    simp only [hr, ok_bind, pure_bind]
    rfl
  | @IsForm.ifThen S₁ S₂ cond t i hi hcond hends ht => by
    have hnext : nextKind T ≠ .kwElse ∧ t.forbids (nextKind T) = false := by
      simpa [Stmt.forbids] using hf
    have hc₁ : c.rest = i :: (S₁ ++ (S₂ ++ T)) := by simp [hc]
    obtain ⟨⟨c1, h1⟩, hx, r₁⟩ := expect_of_rest hc₁ hi
    have hc₂ : c1.rest = S₁ ++ (S₂ ++ T) := r₁.rest_of hc₁
    obtain ⟨u, S', hS, -⟩ := ht.head
    obtain ⟨⟨c2, h2⟩, he, r₂⟩ := hcond.complete hc₂ (hends.next (by simp [hS]))
    have hc₃ : c2.rest = S₂ ++ T := r₂.rest_of hc₂
    obtain ⟨⟨c3, h3⟩, hs, r₃⟩ := ht.complete hc₃ hnext.2
    have r : Reads c (i :: S₁ ++ S₂) c3 := by simpa using r₁.trans (r₂.trans r₃)
    have hif : ifStmt c = .ok (Stmt.ifElse cond t none, ⟨c3, r.length_lt (by simp)⟩) := by
      rw [ifStmt]
      simp only [hx, he, hs, ok_bind]
      rw [eat?_none_of_peekKind (by rw [r₃.peekKind hc₃]; exact hnext.1)]
      rfl
    refine ⟨⟨c3, r.length_lt (by simp)⟩, ?_, r⟩
    rw [statement, peekKind_of_rest hc₁, hi]
    simp only [hif, ok_bind]
    rfl
  | @IsForm.ifElse S₁ S₂ S₃ cond t e i el
      hi hcond hends ht htel hel he => by
    have hc₁ : c.rest = i :: (S₁ ++ (S₂ ++ el :: (S₃ ++ T))) := by simp [hc]
    obtain ⟨⟨c1, h1⟩, hx, r₁⟩ := expect_of_rest hc₁ hi
    have hc₂ : c1.rest = S₁ ++ (S₂ ++ el :: (S₃ ++ T)) := r₁.rest_of hc₁
    obtain ⟨u, S', hS, -⟩ := ht.head
    obtain ⟨⟨c2, h2⟩, hce, r₂⟩ := hcond.complete hc₂ (hends.next (by simp [hS]))
    have hc₃ : c2.rest = S₂ ++ el :: (S₃ ++ T) := r₂.rest_of hc₂
    obtain ⟨⟨c3, h3⟩, hs, r₃⟩ := ht.complete hc₃ (by rw [nextKind_cons, hel]; exact htel)
    have hc₄ : c3.rest = el :: (S₃ ++ T) := r₃.rest_of hc₃
    obtain ⟨⟨c4, h4⟩, hy, r₄⟩ := eat?_of_rest hc₄ hel
    obtain ⟨⟨c5, h5⟩, hs', r₅⟩ := he.complete (r₄.rest_of hc₄) (by simpa [Stmt.forbids] using hf)
    have r : Reads c (i :: S₁ ++ S₂ ++ el :: S₃) c5 := by
      simpa using r₁.trans (r₂.trans (r₃.trans (r₄.trans r₅)))
    have hif : ifStmt c = .ok (Stmt.ifElse cond t (some e), ⟨c5, r.length_lt (by simp)⟩) := by
      rw [ifStmt]
      simp only [hx, hce, hs, ok_bind]
      rw [hy]
      simp only [hs', ok_bind]
      rfl
    refine ⟨⟨c5, r.length_lt (by simp)⟩, ?_, r⟩
    rw [statement, peekKind_of_rest hc₁, hi]
    simp only [hif, ok_bind]
    rfl
  | @IsForm.whileLoop S₁ S₂ cond b w hw hcond hends hb => by
    have hc₁ : c.rest = w :: (S₁ ++ (S₂ ++ T)) := by simp [hc]
    obtain ⟨⟨c1, h1⟩, hx, r₁⟩ := expect_of_rest hc₁ hw
    have hc₂ : c1.rest = S₁ ++ (S₂ ++ T) := r₁.rest_of hc₁
    obtain ⟨u, S', hS, -⟩ := hb.head
    obtain ⟨⟨c2, h2⟩, he, r₂⟩ := hcond.complete hc₂ (hends.next (by simp [hS]))
    have hc₃ : c2.rest = S₂ ++ T := r₂.rest_of hc₂
    obtain ⟨⟨c3, h3⟩, hs, r₃⟩ := hb.complete hc₃ (by simpa [Stmt.forbids] using hf)
    have r : Reads c (w :: S₁ ++ S₂) c3 := by simpa using r₁.trans (r₂.trans r₃)
    have hwhile : whileStmt c = .ok (Stmt.whileLoop cond b, ⟨c3, r.length_lt (by simp)⟩) := by
      rw [whileStmt]
      simp only [hx, he, hs, ok_bind]
      rfl
    refine ⟨⟨c3, r.length_lt (by simp)⟩, ?_, r⟩
    rw [statement, peekKind_of_rest hc₁, hw]
    simp only [hwhile, ok_bind]
    rfl
  | .ret hr => by
    obtain ⟨⟨d, hd⟩, hx, r⟩ := returnStmt_none_complete hc hr (by simpa [Stmt.forbids] using hf)
    refine ⟨⟨d, hd⟩, ?_, r⟩
    rw [statement, peekKind_of_rest (r := T) hc, hr]
    simp only [hx, ok_bind]
    rfl
  | .retValue hr he => by
    obtain ⟨⟨d, hd⟩, hx, r⟩ :=
      returnStmt_some_complete hc hr he (by simpa [Stmt.forbids] using hf)
    refine ⟨⟨d, hd⟩, ?_, r⟩
    rw [statement, peekKind_of_rest (by rw [hc]; rfl), hr]
    simp only [hx, ok_bind]
    rfl
  | .expr he => by
    obtain ⟨⟨d, hd⟩, hr, r⟩ := he.complete hc (by simpa [Stmt.forbids] using hf)
    obtain ⟨t, S', hS, hk⟩ := he.head
    have hpk : c.peekKind = t.kind := peekKind_of_rest (r := S' ++ T) (by rw [hc, hS]; rfl)
    exact ⟨⟨d, hd⟩, statement_of_startsExpression (by rw [hpk]; exact hk) hr, r⟩

theorem IsStmts.complete {S T : List Token} {ss : List Stmt} {c : Cursor} (hc : c.rest = S ++ T)
    (hf : nextKind T = .rBrace ∨ nextKind T = .eof) (acc : Array Stmt) :
    IsStmts S ss → ∃ d, blockItems c acc = .ok (acc.toList ++ ss, d) ∧ Reads c S d.1
  | .nil => by
    refine ⟨⟨c, Nat.le_refl _⟩, ?_, .refl c⟩
    rcases hf with hf | hf
    all_goals
      rw [blockItems, (Reads.refl c).peekKind hc, hf]
      simp
  | @IsStmts.cons S₁ S₂ s _ hs hss hfollow => by
    have hc₁ : c.rest = S₁ ++ (S₂ ++ T) := by simp [hc]
    obtain ⟨⟨c1, h1⟩, hr, r₁⟩ :=
      hs.complete hc₁ (forbids_next hfollow (forbids_closing s hf))
    obtain ⟨⟨c2, h2⟩, hr', r₂⟩ := hss.complete (r₁.rest_of hc₁) hf (acc.push s)
    refine ⟨⟨c2, Nat.le_trans r₂.length_le (Nat.le_of_lt h1)⟩, ?_, r₁.trans r₂⟩
    obtain ⟨t, S', hS, hk⟩ := hs.head
    have hpk : c.peekKind = t.kind := peekKind_of_rest (r := S' ++ (S₂ ++ T)) (by rw [hc₁, hS]; rfl)
    rw [blockItems]
    split
    next h => rw [hpk] at h; exact absurd h hk.1
    next h => rw [hpk] at h; exact absurd h hk.2
    next =>
      simp only [hr, hr', ok_bind]
      simp [pure, Except.pure]

theorem IsBlock.complete {S T : List Token} {body : List Stmt} {sp : Span} {c : Cursor}
    (hc : c.rest = S ++ T) : IsBlock S body sp → ∃ d, block c = .ok ((body, sp), d) ∧ Reads c S d.1
  | @IsBlock.mk S' _ lb rb hlb hss hrb => by
    have hc₁ : c.rest = lb :: (S' ++ rb :: T) := by simp [hc]
    obtain ⟨⟨c1, h1⟩, hx, r₁⟩ := expect_of_rest hc₁ hlb
    have hc₂ : c1.rest = S' ++ rb :: T := r₁.rest_of hc₁
    obtain ⟨⟨c2, h2⟩, hi, r₂⟩ := hss.complete hc₂ (.inl (by rw [nextKind_cons, hrb])) #[]
    have hc₃ : c2.rest = rb :: T := r₂.rest_of hc₂
    obtain ⟨⟨c3, h3⟩, hy, r₃⟩ := expect_of_rest hc₃ hrb
    have r : Reads c (lb :: S' ++ [rb]) c3 := by simpa using r₁.trans (r₂.trans r₃)
    refine ⟨⟨c3, r.length_lt (by simp)⟩, ?_, r⟩
    rw [block]
    simp only [hx, hi, hy, ok_bind, List.nil_append, spanFrom_eq_upTo r]
    rfl

theorem IsFun.complete {S T : List Token} {f : FunDecl} {c : Cursor} (hc : c.rest = S ++ T) :
    IsFun S f → ∃ d, funDecl c = .ok (f, d) ∧ Reads c S d.1
  | @IsFun.mk S₁ S₂ S₃ _ _ _ _ fk n lp rp
      hf hn hlp hps hrp hres hb => by
    have hc₁ : c.rest = fk :: n :: lp :: (S₁ ++ rp :: (S₂ ++ (S₃ ++ T))) := by simp [hc]
    obtain ⟨⟨c1, h1⟩, hx, r₁⟩ := expect_of_rest hc₁ hf
    have hc₂ : c1.rest = n :: lp :: (S₁ ++ rp :: (S₂ ++ (S₃ ++ T))) := r₁.rest_of hc₁
    obtain ⟨⟨c2, h2⟩, hi, r₂⟩ := ident_of_rest hc₂ hn
    have hc₃ : c2.rest = lp :: (S₁ ++ rp :: (S₂ ++ (S₃ ++ T))) := r₂.rest_of hc₂
    obtain ⟨⟨c3, h3⟩, hy, r₃⟩ := expect_of_rest hc₃ hlp
    have hc₄ : c3.rest = S₁ ++ rp :: (S₂ ++ (S₃ ++ T)) := r₃.rest_of hc₃
    obtain ⟨⟨c4, h4⟩, hp, r₄⟩ := hps.complete hc₄ (by rw [nextKind_cons, hrp])
    have hc₅ : c4.rest = rp :: (S₂ ++ (S₃ ++ T)) := r₄.rest_of hc₄
    obtain ⟨⟨c5, h5⟩, hz, r₅⟩ := expect_of_rest hc₅ hrp
    have hc₆ : c5.rest = S₂ ++ (S₃ ++ T) := r₅.rest_of hc₅
    obtain ⟨u, S', hS, hk⟩ := hb.head
    obtain ⟨⟨c6, h6⟩, r₆, hres'⟩ := hres.complete hc₆ (by rw [hS, List.cons_append, nextKind_cons, hk])
    have hc₇ : c6.rest = S₃ ++ T := r₆.rest_of hc₆
    obtain ⟨⟨c7, h7⟩, hbk, r₇⟩ := hb.complete hc₇
    have r : Reads c (fk :: n :: lp :: S₁ ++ rp :: S₂ ++ S₃) c7 := by
      simpa using r₁.trans (r₂.trans (r₃.trans (r₄.trans (r₅.trans (r₆.trans r₇)))))
    refine ⟨⟨c7, r.length_lt (by simp)⟩, ?_, r⟩
    rw [funDecl]
    simp only [hx, hi, hy, hp, hz, ok_bind]
    refine (hres' _).trans ?_
    simp only [hbk, ok_bind]
    rfl

theorem IsStruct.complete {S T : List Token} {sd : StructDecl} {c : Cursor}
    (hc : c.rest = S ++ T) : IsStruct S sd → ∃ d, structDecl c = .ok (sd, d) ∧ Reads c S d.1
  | @IsStruct.mk S' _ _ sk n lb rb hs hn hlb hm hrb => by
    have hc₁ : c.rest = sk :: n :: lb :: (S' ++ rb :: T) := by simp [hc]
    obtain ⟨⟨c1, h1⟩, hx, r₁⟩ := expect_of_rest hc₁ hs
    have hc₂ : c1.rest = n :: lb :: (S' ++ rb :: T) := r₁.rest_of hc₁
    obtain ⟨⟨c2, h2⟩, hi, r₂⟩ := ident_of_rest hc₂ hn
    have hc₃ : c2.rest = lb :: (S' ++ rb :: T) := r₂.rest_of hc₂
    obtain ⟨⟨c3, h3⟩, hy, r₃⟩ := expect_of_rest hc₃ hlb
    obtain ⟨⟨c4, h4⟩, hms, r₄⟩ := hm.complete (r₃.rest_of hc₃) hrb #[] #[]
    have r : Reads c (sk :: n :: lb :: S' ++ [rb]) c4 := by
      simpa using r₁.trans (r₂.trans (r₃.trans r₄))
    refine ⟨⟨c4, r.length_lt (by simp)⟩, ?_, r⟩
    rw [structDecl]
    simp only [hx, hi, hy, hms, ok_bind, List.nil_append]
    rfl

theorem IsMembers.complete {S T : List Token} {fs : List Binding} {ms : List FunDecl}
    {rb : Token} {c : Cursor} (hc : c.rest = S ++ rb :: T) (hrb : rb.kind = .rBrace)
    (fields : Array Binding) (methods : Array FunDecl) :
    IsMembers S fs ms → ∃ d, members c fields methods =
      .ok ((fields.toList ++ fs, methods.toList ++ ms), d) ∧ Reads c (S ++ [rb]) d.1
  | .nil => by
    have hc₁ : c.rest = rb :: T := hc
    obtain ⟨d, hx, r⟩ := expect_of_rest hc₁ hrb
    refine ⟨d, ?_, r⟩
    rw [members, peekKind_of_rest hc₁, hrb]
    simp only [hx, ok_bind, List.append_nil]
    rfl
  | @IsMembers.field S₁ S₂ b _ _ v hv hb hm => by
    have hc₁ : c.rest = v :: (S₁ ++ (S₂ ++ rb :: T)) := by simp [hc]
    obtain ⟨⟨c1, h1⟩, hx, r₁⟩ := expect_of_rest hc₁ hv
    have hc₂ : c1.rest = S₁ ++ (S₂ ++ rb :: T) := r₁.rest_of hc₁
    obtain ⟨⟨c2, h2⟩, hb', r₂⟩ := hb.complete hc₂ (hm.next hrb)
    obtain ⟨⟨c3, h3⟩, hm', r₃⟩ := hm.complete (r₂.rest_of hc₂) hrb (fields.push b) methods
    have r : Reads c (v :: S₁ ++ S₂ ++ [rb]) c3 := by simpa using r₁.trans (r₂.trans r₃)
    refine ⟨⟨c3, r.length_lt (by simp)⟩, ?_, r⟩
    rw [members, peekKind_of_rest hc₁, hv]
    simp only [hx, hb', hm', ok_bind]
    simp [pure, Except.pure]
  | @IsMembers.method S₁ S₂ f _ _ hfun hm => by
    have hc₁ : c.rest = S₁ ++ (S₂ ++ rb :: T) := by simp [hc]
    obtain ⟨⟨c1, h1⟩, hf', r₁⟩ := hfun.complete hc₁
    obtain ⟨⟨c2, h2⟩, hm', r₂⟩ := hm.complete (r₁.rest_of hc₁) hrb fields (methods.push f)
    have r : Reads c (S₁ ++ S₂ ++ [rb]) c2 := by simpa using r₁.trans r₂
    refine ⟨⟨c2, r.length_lt (by simp)⟩, ?_, r⟩
    obtain ⟨t, S', hS, hk⟩ := hfun.head
    rw [members, peekKind_of_rest (r := S' ++ (S₂ ++ rb :: T)) (by rw [hc₁, hS]; rfl), hk]
    simp only [hf', hm', ok_bind]
    simp [pure, Except.pure]
end

theorem IsStmts.programItems_complete {S : List Token} {ss : List Stmt} {c : Cursor}
    (hc : c.rest = S) (acc : Array Stmt) :
    IsStmts S ss → ∃ d, programItems c acc = .ok (acc.toList ++ ss, d) ∧ Reads c S d.1
  | .nil => by
    refine ⟨⟨c, Nat.le_refl _⟩, ?_, .refl c⟩
    rw [programItems, peekKind_of_nil hc]
    simp
  | @IsStmts.cons S₁ S₂ s _ hs hss hfollow => by
    have hc₁ : c.rest = S₁ ++ (S₂ ++ []) := by simp [hc]
    obtain ⟨⟨c1, h1⟩, hr, r₁⟩ :=
      hs.complete hc₁ (forbids_next hfollow (forbids_closing s (.inr rfl)))
    obtain ⟨⟨c2, h2⟩, hr', r₂⟩ := hss.programItems_complete (by simpa using r₁.rest_of hc₁) (acc.push s)
    refine ⟨⟨c2, Nat.le_trans r₂.length_le (Nat.le_of_lt h1)⟩, ?_, r₁.trans r₂⟩
    obtain ⟨t, S', hS, hk⟩ := hs.head
    rw [programItems]
    split
    next h =>
      rw [peekKind_of_rest (r := S' ++ S₂) (by rw [hc, hS]; rfl)] at h
      exact absurd h hk.2
    next =>
      simp only [hr, hr', ok_bind]
      simp [pure, Except.pure]

end Sigh.Grammar

namespace Sigh

open Parse Grammar

theorem Program.ofTokens_complete {tokens : List Token} {p : Program} (h : IsProgram tokens p) :
    Program.ofTokens tokens = .ok p := by
  obtain ⟨statements, span⟩ := p
  obtain ⟨hss, hne, hspan⟩ := h
  have hc : (Cursor.start tokens).rest = tokens.filter (·.kind ≠ .eof) := rfl
  generalize tokens.filter (·.kind ≠ .eof) = S at hss hspan hc
  cases hss with
  | nil => exact absurd rfl hne
  | @cons S₁ S₂ s ss hs hss hfollow =>
    have hc₁ : (Cursor.start tokens).rest = S₁ ++ (S₂ ++ []) := by simp [hc]
    obtain ⟨⟨c1, h1⟩, hr, r₁⟩ :=
      hs.complete hc₁ (forbids_next hfollow (forbids_closing s (.inr rfl)))
    obtain ⟨⟨c2, h2⟩, hr', r₂⟩ := hss.programItems_complete (by simpa using r₁.rest_of hc₁) #[]
    obtain ⟨t, S', hS, -⟩ := hs.head
    have r : Reads (Cursor.start tokens) (t :: (S' ++ S₂)) c2 := by
      simpa [hS] using r₁.trans r₂
    simp only at hspan
    subst hspan
    rw [Program.ofTokens]
    simp only [hr, hr', ok_bind, List.nil_append]
    rw [hS, List.cons_append, ← spanFrom_eq_ofTokens r, r.peek_eq]
    rfl

theorem Expr.ofTokens_complete {tokens : List Token} {e : Expr} (h : IsWholeExpr tokens e) :
    Expr.ofTokens tokens = .ok e := by
  have hc : (Cursor.start tokens).rest = tokens.filter (·.kind ≠ .eof) ++ [] := by
    simp [Cursor.start]
  obtain ⟨⟨c1, h1⟩, hr, r⟩ := IsExpr.complete hc (by decide) h
  have hk : c1.peekKind = .eof := r.peekKind hc
  rw [Expr.ofTokens]
  simp only [hr, ok_bind, hk, ↓reduceIte]
  rfl

theorem tokensOf_eq_ok {source : String} (h : (lex source).faults = []) :
    tokensOf source = .ok (lex source).tokens := by
  simp [tokensOf, h]

theorem mapError_eq_ok {ε ε' α : Type} {f : ε → ε'} {x : Except ε α} {a : α} :
    x.mapError f = .ok a ↔ x = .ok a := by
  cases x <;> simp [Except.mapError]

theorem tokens_of_tokensOf_eq_ok {source : String} {tokens : List Token}
    (h : tokensOf source = .ok tokens) : tokens = (lex source).tokens := by
  unfold tokensOf at h
  dsimp only at h
  split at h
  · cases h
    rfl
  · cases h

theorem Program.ofTokens_of_read {source : String} {p : Program}
    (h : Program.read source = .ok p) : Program.ofTokens (lex source).tokens = .ok p := by
  obtain ⟨tokens, htokens, hp⟩ := bind_eq_ok.mp h
  rw [← tokens_of_tokensOf_eq_ok htokens]
  exact mapError_eq_ok.mp hp

theorem Expr.ofTokens_of_read {source : String} {e : Expr}
    (h : Expr.read source = .ok e) : Expr.ofTokens (lex source).tokens = .ok e := by
  obtain ⟨tokens, htokens, he⟩ := bind_eq_ok.mp h
  rw [← tokens_of_tokensOf_eq_ok htokens]
  exact mapError_eq_ok.mp he

/-- On a text without lexical faults, the reader accepts exactly what the grammar derives, and
builds the tree of the derivation: a program of one or more statements, and an expression that
reaches the end of input. -/
theorem read_eq_ok_iff_derives {source : String} (h : (lex source).faults = []) :
    (∀ p, Program.read source = .ok p ↔ IsProgram (lex source).tokens p) ∧
      (∀ e, Expr.read source = .ok e ↔ IsWholeExpr (lex source).tokens e) := by
  refine ⟨fun p => ?_, fun e => ?_⟩
  · rw [Program.read, tokensOf_eq_ok h, ok_bind, mapError_eq_ok]
    exact ⟨Program.ofTokens_sound, Program.ofTokens_complete⟩
  · rw [Expr.read, tokensOf_eq_ok h, ok_bind, mapError_eq_ok]
    exact ⟨Expr.ofTokens_sound, Expr.ofTokens_complete⟩

theorem read_eq_ok_iff_derives_return :
    (lex "return x").faults = [] ∧
      ((∀ p, Program.read "return x" = .ok p ↔ IsProgram (lex "return x").tokens p) ∧
        (∀ e, Expr.read "return x" = .ok e ↔ IsWholeExpr (lex "return x").tokens e)) :=
  have h : (lex "return x").faults = [] := by decide +kernel
  ⟨h, read_eq_ok_iff_derives h⟩

end Sigh
