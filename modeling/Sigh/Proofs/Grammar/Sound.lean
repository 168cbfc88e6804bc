import Sigh.Proofs.Reading

namespace Sigh.Parse

open Grammar

theorem typeSuffixes_sound {start : Nat} {t r : TypeExpr} {c : Cursor} {d : Within c}
    (h : typeSuffixes start t c = .ok (r, d)) :
    ∃ S, Reads c S d.1 ∧ IsTypeSuffixes start t S r := by
  induction t, c using typeSuffixes.induct start generalizing r with
  | case1 t c hn =>
    rw [typeSuffixes, hn] at h
    simp only [Except.ok.injEq, Prod.mk.injEq] at h
    obtain ⟨rfl, rfl⟩ := h
    exact ⟨[], .refl c, .done⟩
  | case2 t c lb d' hd he ih =>
    rw [typeSuffixes, he] at h
    obtain ⟨⟨rb, e, hde⟩, hx, h⟩ := bind_eq_ok.mp h
    obtain ⟨⟨r', f, hf⟩, hy, h⟩ := bind_eq_ok.mp h
    cases h
    obtain ⟨hlb, h₁⟩ := eat?_some he
    obtain ⟨hrb, h₂⟩ := eat?_some (expect_eq_ok.mp hx)
    obtain ⟨S, h₃, hS⟩ := ih e hde hy
    rw [spanFrom_eq_upTo (S := []) h₂] at hS
    exact ⟨lb :: rb :: S, h₁.trans (h₂.trans h₃), .more hlb hrb hS⟩

theorem typeExpr_sound {c : Cursor} {t : TypeExpr} {d : Ahead c} (h : typeExpr c = .ok (t, d)) :
    ∃ S, Reads c S d.1 ∧ IsType S t := by
  unfold typeExpr at h
  obtain ⟨⟨name, c1, h1⟩, hn, h⟩ := bind_eq_ok.mp h
  obtain ⟨⟨t', c2, h2⟩, ht, h⟩ := bind_eq_ok.mp h
  cases h
  obtain ⟨n, hk, rfl, r₁⟩ := ident_eq_ok hn
  obtain ⟨S, r₂, hS⟩ := typeSuffixes_sound ht
  exact ⟨n :: S, r₁.trans r₂, .mk hk hS⟩

theorem binding_sound {c : Cursor} {b : Binding} {d : Ahead c} (h : binding c = .ok (b, d)) :
    ∃ S, Reads c S d.1 ∧ IsBinding S b := by
  unfold binding at h
  obtain ⟨⟨name, c1, h1⟩, hn, h⟩ := bind_eq_ok.mp h
  obtain ⟨⟨col, c2, h2⟩, hc, h⟩ := bind_eq_ok.mp h
  obtain ⟨⟨t, c3, h3⟩, ht, h⟩ := bind_eq_ok.mp h
  cases h
  obtain ⟨n, hk, rfl, r₁⟩ := ident_eq_ok hn
  obtain ⟨hcol, r₂⟩ := eat?_some (expect_eq_ok.mp hc)
  obtain ⟨S, r₃, hS⟩ := typeExpr_sound ht
  exact ⟨n :: col :: S, r₁.trans (r₂.trans r₃), .mk hk hcol hS⟩

theorem paramItems_sound {c : Cursor} {acc : Array Binding} {bs : List Binding} {d : Ahead c}
    (h : paramItems c acc = .ok (bs, d)) :
    ∃ S bs', Reads c S d.1 ∧ IsBindings S bs' ∧ bs = acc.toList ++ bs' := by
  induction c, acc using paramItems.induct generalizing bs with
  | case1 c acc ih =>
    rw [paramItems] at h
    obtain ⟨⟨b, d', hd⟩, hb, h⟩ := bind_eq_ok.mp h
    obtain ⟨S₁, r₁, h₁⟩ := binding_sound hb
    dsimp only at h
    split at h
    next comma e he hc =>
      obtain ⟨⟨r, f, hf⟩, hr, h⟩ := bind_eq_ok.mp h
      cases h
      obtain ⟨hcomma, r₂⟩ := eat?_some hc
      obtain ⟨S₂, bs', r₃, h₂, rfl⟩ := ih b d' hd e he hr
      exact ⟨S₁ ++ [comma] ++ S₂, b :: bs', (r₁.trans r₂).trans r₃,
        by simpa using IsBindings.more h₁ hcomma h₂, by simp⟩
    next =>
      simp only [pure, Except.pure, Except.ok.injEq, Prod.mk.injEq] at h
      obtain ⟨rfl, rfl⟩ := h
      exact ⟨S₁, [b], r₁, .one h₁, by simp⟩

theorem params_sound {c : Cursor} {bs : List Binding} {d : Within c}
    (h : params c = .ok (bs, d)) : ∃ S, Reads c S d.1 ∧ IsParams S bs := by
  unfold params at h
  split at h
  · simp only [Except.ok.injEq, Prod.mk.injEq] at h
    obtain ⟨rfl, rfl⟩ := h
    exact ⟨[], .refl c, .nil⟩
  · obtain ⟨⟨r, e, he⟩, hr, h⟩ := bind_eq_ok.mp h
    cases h
    obtain ⟨S, bs', r₁, h₁, rfl⟩ := paramItems_sound hr
    exact ⟨S, r₁, .items (by simpa using h₁)⟩

theorem dimensionSize_eq_ok {acc r : Dimensions} {c : Cursor} {d : Within c}
    (h : dimensionSize acc c = .ok (r, d)) :
    (∃ k, Reads c [k] d.1 ∧ k.kind = .intLiteral ∧ k.text.toNat! < 2 ^ 64 ∧
      r = { acc with sized := acc.sized ++ [k.text.toNat!] }) ∨
    (Reads c [] d.1 ∧ r = { acc with unsized := acc.unsized + 1 }) := by
  unfold dimensionSize at h
  split at h
  next k e he hk =>
    dsimp only at h
    split at h
    next hn =>
      simp only [Except.ok.injEq, Prod.mk.injEq] at h
      obtain ⟨rfl, rfl⟩ := h
      obtain ⟨hkind, r₁⟩ := eat?_some hk
      exact .inl ⟨k, r₁, hkind, hn, rfl⟩
    next => cases h
  next =>
    simp only [Except.ok.injEq, Prod.mk.injEq] at h
    obtain ⟨rfl, rfl⟩ := h
    exact .inr ⟨.refl c, rfl⟩

theorem dimensions_sound {start : Nat} {acc r : Dimensions} {c : Cursor} {d : Within c}
    (h : dimensions start acc c = .ok (r, d)) :
    ∃ S, Reads c S d.1 ∧ d.1.peekKind ≠ .lBracket ∧ (∃ ns, r.sized = acc.sized ++ ns) ∧
      acc.unsized ≤ r.unsized ∧
      (r.sized = acc.sized → IsTypeSuffixes start acc.type S r.type) ∧
      (r.unsized = acc.unsized → ∃ ns, IsDims S ns ∧ r.sized = acc.sized ++ ns) := by
  induction acc, c using dimensions.induct start generalizing r with
  | case1 acc c hn =>
    rw [dimensions, hn] at h
    simp only [Except.ok.injEq, Prod.mk.injEq] at h
    obtain ⟨rfl, rfl⟩ := h
    exact ⟨[], .refl c, peekKind_ne_of_eat?_none hn (by decide), ⟨[], by simp⟩, Nat.le_refl _,
      fun _ => .done, fun _ => ⟨[], .nil, by simp⟩⟩
  | case2 acc c lb d' hd hl ih =>
    rw [dimensions, hl] at h
    obtain ⟨⟨acc₁, e, he⟩, hs, h⟩ := bind_eq_ok.mp h
    obtain ⟨⟨rb, f, hf⟩, hx, h⟩ := bind_eq_ok.mp h
    obtain ⟨⟨r', g, hg⟩, hy, h⟩ := bind_eq_ok.mp h
    cases h
    obtain ⟨hlb, r₁⟩ := eat?_some hl
    obtain ⟨hrb, r₃⟩ := eat?_some (expect_eq_ok.mp hx)
    obtain ⟨S, r₄, hpk, ⟨ns, hns⟩, hun, hts, hds⟩ := ih acc₁ e he f hf hy
    rw [spanFrom_eq_upTo (S := []) r₃] at hts
    rcases dimensionSize_eq_ok hs with ⟨k, r₂, hk, hbound, rfl⟩ | ⟨r₂, rfl⟩
    · refine ⟨lb :: k :: rb :: S, r₁.trans (r₂.trans (r₃.trans r₄)), hpk,
        ⟨k.text.toNat! :: ns, by simp [hns]⟩, hun, fun hr => ?_, fun hr => ?_⟩
      · have := congrArg List.length (hns.symm.trans hr)
        simp at this
      · obtain ⟨ms, hms, hsz⟩ := hds hr
        exact ⟨k.text.toNat! :: ms, .more hlb hk hbound hrb hms, by simp [hsz]⟩
    · refine ⟨lb :: rb :: S, r₁.trans (r₂.trans (r₃.trans r₄)), hpk, ⟨ns, hns⟩,
        by simp at hun; omega, fun hr => .more hlb hrb (hts hr), fun hr => ?_⟩
      simp at hun
      omega

theorem extendsOperand_of_le {l l' : Nat} {k : TokenKind} (hl : l ≤ l')
    (h : extendsOperand l' k = true) : extendsOperand l k = true := by
  simp only [extendsOperand, Bool.or_eq_true, beq_iff_eq] at h ⊢
  rcases h with ((h | h) | h) | h
  · refine .inl (.inl (.inl ?_))
    cases hk : opLevel? k with
    | none => simp [hk] at h
    | some m => simp only [hk, decide_eq_true_eq] at h ⊢; omega
  · exact .inl (.inl (.inr h))
  · exact .inl (.inr h)
  · exact .inr h

theorem extendsOperand_of_levelOp?_none {level : Nat} {k : TokenKind}
    (hop : levelOp? level k = none) (h : extendsOperand (level + 1) k = false) :
    extendsOperand level k = false := by
  cases k <;> rcases level with _ | _ | _ | _ | _ | level <;>
    simp_all [extendsOperand, opLevel?, levelOp?]

/-- Reading an expression takes tokens that spell it, and stops before any token that would
extend it. -/
def ExpressionSound (c : Cursor) : Prop :=
  ∀ e d, expression c = .ok (e, d) →
    ∃ S, Reads c S d.1 ∧ IsExpr S e ∧ continuesExpression d.1.peekKind = false

def BinarySound (level : Nat) (c : Cursor) : Prop :=
  ∀ e d, binary level c = .ok (e, d) →
    ∃ S, Reads c S d.1 ∧ IsBinary level S e ∧ extendsOperand level d.1.peekKind = false

def ChainSound (level : Nat) (left : Expr) (c : Cursor) : Prop :=
  extendsOperand (level + 1) c.peekKind = false → ∀ e d, binaryRest level left c = .ok (e, d) →
    ∃ S, Reads c S d.1 ∧ IsChain level left S e ∧ extendsOperand level d.1.peekKind = false

def PrefixSound (c : Cursor) : Prop :=
  ∀ e d, prefixExpr c = .ok (e, d) →
    ∃ S, Reads c S d.1 ∧ IsPrefix S e ∧ extendsOperand 5 d.1.peekKind = false

def SuffixSound (c : Cursor) : Prop :=
  ∀ e d, suffixExpr c = .ok (e, d) →
    ∃ S, Reads c S d.1 ∧ IsSuffix S e ∧ extendsOperand 5 d.1.peekKind = false

def SuffixesSound (e : Expr) (c : Cursor) : Prop :=
  ∀ r d, suffixRest e c = .ok (r, d) →
    ∃ S, Reads c S d.1 ∧ IsSuffixes e S r ∧ extendsOperand 5 d.1.peekKind = false

def BasicSound (c : Cursor) : Prop :=
  ∀ e d, basicExpr c = .ok (e, d) → ∃ S, Reads c S d.1 ∧ IsBasic S e

def ArgsSound (close : TokenKind) (c : Cursor) : Prop :=
  ∀ es d, exprList close c = .ok (es, d) →
    ∃ S t, Reads c (S ++ [t]) d.1 ∧ IsArgs S es ∧ t.kind = close

def ItemsSound (close : TokenKind) (c : Cursor) : Prop :=
  ∀ acc es d, exprItems close c acc = .ok (es, d) →
    ∃ S t es', Reads c (S ++ [t]) d.1 ∧ IsItems S es' ∧ es = acc.toList ++ es' ∧ t.kind = close

theorem operand_sound {level : Nat} {c : Cursor} (hb : level < 4 → BinarySound (level + 1) c)
    (hp : ¬level < 4 → PrefixSound c) {α : Type} {k : Expr × Ahead c → Except Diagnostic α} {a : α}
    (h : (if level < 4 then binary (level + 1) c >>= k else prefixExpr c >>= k) = .ok a) :
    ∃ e d, k (e, d) = .ok a ∧ ∃ S, Reads c S d.1 ∧ IsOperand level S e ∧
      extendsOperand (level + 1) d.1.peekKind = false := by
  split at h
  next hl =>
    obtain ⟨⟨e, d⟩, he, h⟩ := bind_eq_ok.mp h
    obtain ⟨S, r, hS, hpk⟩ := hb hl _ _ he
    exact ⟨e, d, h, S, r, .tighter hl hS, hpk⟩
  next hl =>
    obtain ⟨⟨e, d⟩, he, h⟩ := bind_eq_ok.mp h
    obtain ⟨S, r, hS, hpk⟩ := hp hl _ _ he
    refine ⟨e, d, h, S, r, .tightest hl hS, ?_⟩
    cases hk : extendsOperand (level + 1) d.1.peekKind
    · rfl
    · rw [extendsOperand_of_le (by omega) hk] at hpk
      cases hpk

/-- Every reading function of the expression grammar is sound when started at `c`. -/
structure ExprReadersSound (c : Cursor) : Prop where
  expression : ExpressionSound c
  binary : ∀ level, BinarySound level c
  chain : ∀ level left, ChainSound level left c
  prefixExpr : PrefixSound c
  suffix : SuffixSound c
  suffixes : ∀ e, SuffixesSound e c
  basic : BasicSound c
  args : ∀ close, ArgsSound close c
  items : ∀ close, ItemsSound close c

section
variable {c : Cursor} (ih : ∀ d : Cursor, d.rest.length < c.rest.length → ExprReadersSound d)
include ih

theorem suffixes_sound_of (e : Expr) : SuffixesSound e c := by
  intro r d h
  rw [suffixRest] at h
  split at h
  next hk =>
    obtain ⟨⟨dot, c1, h1⟩, hx, h⟩ := bind_eq_ok.mp h
    obtain ⟨⟨name, c2, h2⟩, hn, h⟩ := bind_eq_ok.mp h
    obtain ⟨⟨r', c3, h3⟩, hr, h⟩ := bind_eq_ok.mp h
    cases h
    obtain ⟨hdot, r₁⟩ := eat?_some (expect_eq_ok.mp hx)
    obtain ⟨n, hnk, rfl, r₂⟩ := ident_eq_ok hn
    obtain ⟨S, r₃, hS, hpk⟩ := (ih c2 (by omega)).suffixes _ _ _ hr
    rw [spanFrom_eq_upTo (S := []) r₂] at hS
    exact ⟨dot :: n :: S, r₁.trans (r₂.trans r₃), .field hdot hnk hS, hpk⟩
  next hk =>
    obtain ⟨⟨lb, c1, h1⟩, hx, h⟩ := bind_eq_ok.mp h
    obtain ⟨⟨i, c2, h2⟩, hi, h⟩ := bind_eq_ok.mp h
    obtain ⟨⟨rb, c3, h3⟩, hy, h⟩ := bind_eq_ok.mp h
    obtain ⟨⟨r', c4, h4⟩, hr, h⟩ := bind_eq_ok.mp h
    cases h
    obtain ⟨hlb, r₁⟩ := eat?_some (expect_eq_ok.mp hx)
    obtain ⟨S₁, r₂, hS₁, -⟩ := (ih c1 h1).expression i ⟨c2, h2⟩ hi
    obtain ⟨hrb, r₃⟩ := eat?_some (expect_eq_ok.mp hy)
    obtain ⟨S₂, r₄, hS₂, hpk⟩ := (ih c3 (by omega)).suffixes _ _ _ hr
    rw [spanFrom_eq_upTo (S := []) r₃] at hS₂
    refine ⟨lb :: S₁ ++ rb :: S₂, ?_, .index hlb hS₁ hrb hS₂, hpk⟩
    simpa using r₁.trans (r₂.trans (r₃.trans r₄))
  next hk =>
    obtain ⟨⟨lp, c1, h1⟩, hx, h⟩ := bind_eq_ok.mp h
    obtain ⟨⟨args, c2, h2⟩, ha, h⟩ := bind_eq_ok.mp h
    obtain ⟨⟨r', c3, h3⟩, hr, h⟩ := bind_eq_ok.mp h
    cases h
    obtain ⟨hlp, r₁⟩ := eat?_some (expect_eq_ok.mp hx)
    obtain ⟨S₁, rp, r₂, hS₁, hrp⟩ := (ih c1 h1).args .rParen args ⟨c2, h2⟩ ha
    obtain ⟨S₂, r₃, hS₂, hpk⟩ := (ih c2 (by omega)).suffixes _ _ _ hr
    rw [spanFrom_eq_upTo r₂] at hS₂
    refine ⟨lp :: S₁ ++ rp :: S₂, ?_, .call hlp hS₁ hrp hS₂, hpk⟩
    simpa using r₁.trans (r₂.trans r₃)
  next hdot hlb hlp =>
    simp only [Except.ok.injEq, Prod.mk.injEq] at h
    obtain ⟨rfl, rfl⟩ := h
    refine ⟨[], .refl c, .done, ?_⟩
    generalize c.peekKind = k at hdot hlb hlp
    cases k <;> simp_all [extendsOperand, opLevel?]

theorem basic_sound_of : BasicSound c := by
  intro e d h
  rw [basicExpr] at h
  split at h
  next =>
    obtain ⟨⟨dol, c1, h1⟩, hx, h⟩ := bind_eq_ok.mp h
    obtain ⟨⟨name, c2, h2⟩, hn, h⟩ := bind_eq_ok.mp h
    cases h
    obtain ⟨hdol, r₁⟩ := eat?_some (expect_eq_ok.mp hx)
    obtain ⟨n, hnk, rfl, r₂⟩ := ident_eq_ok hn
    have r : Reads c [dol, n] c2 := r₁.trans r₂
    rw [r.peek_eq, spanFrom_eq_upTo (S := [dol]) r]
    exact ⟨_, r, .ctor hdol hnk⟩
  next =>
    obtain ⟨⟨t, d1⟩, hx, h⟩ := bind_eq_ok.mp h
    cases h
    obtain ⟨hk, r⟩ := eat?_some (expect_eq_ok.mp hx)
    rw [r.peek_eq, spanFrom_eq_upTo (S := []) r]
    exact ⟨_, r, .ref hk⟩
  next hi =>
    obtain ⟨⟨t, d1⟩, hx, h⟩ := bind_eq_ok.mp h
    obtain ⟨mk, hnum, h⟩ := bind_eq_ok.mp h
    cases h
    obtain ⟨hk, r⟩ := eat?_some (expect_eq_ok.mp hx)
    rw [r.peek_eq] at hnum hi ⊢
    rw [spanFrom_eq_upTo (S := []) r]
    rcases numberLiteral_eq_ok hnum with ⟨hf, rfl⟩ | ⟨-, hr, rfl⟩
    · rw [hi] at hf
      cases hf
    · simp only [Bool.false_eq_true, ↓reduceIte] at hr ⊢
      exact ⟨_, r, .int hi hr.2⟩
  next hf =>
    obtain ⟨⟨t, d1⟩, hx, h⟩ := bind_eq_ok.mp h
    obtain ⟨mk, hnum, h⟩ := bind_eq_ok.mp h
    cases h
    obtain ⟨hk, r⟩ := eat?_some (expect_eq_ok.mp hx)
    rw [r.peek_eq] at hnum hf ⊢
    rw [spanFrom_eq_upTo (S := []) r]
    rcases numberLiteral_eq_ok hnum with ⟨-, rfl⟩ | ⟨hi, -, -⟩
    · exact ⟨_, r, .float hf⟩
    · exact absurd hf hi
  next =>
    split at h
    next hafter =>
      obtain ⟨⟨m, c1, h1⟩, hx, h⟩ := bind_eq_ok.mp h
      obtain ⟨⟨lit, c2, h2⟩, hy, h⟩ := bind_eq_ok.mp h
      obtain ⟨mk, hnum, h⟩ := bind_eq_ok.mp h
      cases h
      obtain ⟨hm, r₁⟩ := eat?_some (expect_eq_ok.mp hx)
      obtain ⟨-, r₂⟩ := eat?_some (expect_eq_ok.mp hy)
      have r : Reads c [m, lit] c2 := r₁.trans r₂
      have hlit : c.kindAfter = lit.kind := by
        rw [Cursor.kindAfter, r.rest]
        rfl
      rw [r.peek_eq, spanFrom_eq_upTo (S := [m]) r]
      rcases numberLiteral_eq_ok hnum with ⟨hf, rfl⟩ | ⟨hf, hr, rfl⟩
      · exact ⟨_, r, .negFloat hm hf⟩
      · have hi : lit.kind = .intLiteral := by simp_all
        simp only [↓reduceIte] at hr ⊢
        exact ⟨_, r, .negInt hm hi (by omega)⟩
    next => cases h
  next =>
    obtain ⟨⟨t, d1⟩, hx, h⟩ := bind_eq_ok.mp h
    cases h
    obtain ⟨hk, r⟩ := eat?_some (expect_eq_ok.mp hx)
    rw [r.peek_eq, spanFrom_eq_upTo (S := []) r]
    exact ⟨_, r, .str hk⟩
  next =>
    obtain ⟨⟨lp, c1, h1⟩, hx, h⟩ := bind_eq_ok.mp h
    obtain ⟨⟨inner, c2, h2⟩, hi, h⟩ := bind_eq_ok.mp h
    obtain ⟨⟨rp, c3, h3⟩, hy, h⟩ := bind_eq_ok.mp h
    cases h
    obtain ⟨hlp, r₁⟩ := eat?_some (expect_eq_ok.mp hx)
    obtain ⟨S, r₂, hS, -⟩ := (ih c1 h1).expression _ _ hi
    obtain ⟨hrp, r₃⟩ := eat?_some (expect_eq_ok.mp hy)
    have r : Reads c (lp :: S ++ [rp]) c3 := by simpa using r₁.trans (r₂.trans r₃)
    rw [r.peek_eq, spanFrom_eq_upTo r]
    exact ⟨_, r, .paren hlp hS hrp⟩
  next =>
    obtain ⟨⟨lb, c1, h1⟩, hx, h⟩ := bind_eq_ok.mp h
    obtain ⟨⟨items, c2, h2⟩, hi, h⟩ := bind_eq_ok.mp h
    cases h
    obtain ⟨hlb, r₁⟩ := eat?_some (expect_eq_ok.mp hx)
    obtain ⟨S, rb, r₂, hS, hrb⟩ := (ih c1 h1).args .rBracket _ _ hi
    have r : Reads c (lb :: S ++ [rb]) c2 := by simpa using r₁.trans r₂
    rw [r.peek_eq, spanFrom_eq_upTo r]
    exact ⟨_, r, .array hlb hS hrb⟩
  next => cases h

theorem suffix_sound_of : SuffixSound c := by
  intro e d h
  rw [suffixExpr] at h
  obtain ⟨⟨b, c1, h1⟩, hb, h⟩ := bind_eq_ok.mp h
  obtain ⟨⟨r, c2, h2⟩, hr, h⟩ := bind_eq_ok.mp h
  cases h
  obtain ⟨S₁, r₁, hS₁⟩ := basic_sound_of ih _ _ hb
  obtain ⟨S₂, r₂, hS₂, hpk⟩ := (ih c1 h1).suffixes _ _ _ hr
  exact ⟨S₁ ++ S₂, r₁.trans r₂, .mk hS₁ hS₂, hpk⟩

theorem prefix_sound_of : PrefixSound c := by
  intro e d h
  rw [prefixExpr] at h
  split at h
  next bang c1 h1 hb =>
    obtain ⟨⟨e', c2, h2⟩, he, h⟩ := bind_eq_ok.mp h
    cases h
    obtain ⟨hbang, r₁⟩ := eat?_some hb
    obtain ⟨S, r₂, hS, hpk⟩ := (ih c1 h1).prefixExpr _ _ he
    exact ⟨bang :: S, r₁.trans r₂, .not hbang hS, hpk⟩
  next =>
    obtain ⟨S, r, hS, hpk⟩ := suffix_sound_of ih _ _ h
    exact ⟨S, r, .suffix hS, hpk⟩

theorem binary_sound_of (level : Nat) : BinarySound level c := by
  intro e d h
  rw [binary] at h
  obtain ⟨left, ⟨c1, h1⟩, h, S₁, r₁, hS₁, hpk⟩ :=
    operand_sound (fun _ => binary_sound_of (level + 1)) (fun _ => prefix_sound_of ih) h
  obtain ⟨⟨e', c2, h2⟩, hr, h⟩ := bind_eq_ok.mp h
  cases h
  obtain ⟨S₂, r₂, hS₂, hpk'⟩ := (ih c1 h1).chain level left hpk _ _ hr
  exact ⟨S₁ ++ S₂, r₁.trans r₂, .mk hS₁ hS₂, hpk'⟩
termination_by 4 - level

theorem chain_sound_of (level : Nat) (left : Expr) : ChainSound level left c := by
  intro hnext e d h
  rw [binaryRest] at h
  split at h
  next hn =>
    cases h
    exact ⟨[], .refl c, .done, extendsOperand_of_levelOp?_none (binaryOp?_none hn) hnext⟩
  next op c1 h1 hs =>
    dsimp only at h
    obtain ⟨right, ⟨c2, h2⟩, h, S₁, r₂, hS₁, hpk⟩ :=
      operand_sound (fun _ => (ih c1 h1).binary (level + 1)) (fun _ => (ih c1 h1).prefixExpr) h
    obtain ⟨⟨e', c3, h3⟩, hc, h⟩ := bind_eq_ok.mp h
    cases h
    obtain ⟨t, hop, r₁⟩ := binaryOp?_some hs
    obtain ⟨S₂, r₃, hS₂, hpk'⟩ := (ih c2 (by omega)).chain level _ hpk _ _ hc
    exact ⟨t :: S₁ ++ S₂, by simpa using r₁.trans (r₂.trans r₃), .more hop hS₁ hS₂, hpk'⟩

theorem expression_sound_of : ExpressionSound c := by
  intro e d h
  rw [expression] at h
  obtain ⟨⟨target, c1, h1⟩, hb, h⟩ := bind_eq_ok.mp h
  obtain ⟨S₁, r₁, hS₁, hpk⟩ := binary_sound_of ih 0 _ _ hb
  dsimp only at h
  split at h
  next hn =>
    cases h
    refine ⟨S₁, r₁, .operand hS₁, ?_⟩
    have hne := peekKind_ne_of_eat?_none hn (by decide)
    simp only [continuesExpression, hpk, Bool.or_false, beq_eq_false_iff_ne]
    exact hne
  next eq c2 h2 he =>
    obtain ⟨⟨value, c3, h3⟩, hv, h⟩ := bind_eq_ok.mp h
    cases h
    obtain ⟨heq, r₂⟩ := eat?_some he
    obtain ⟨S₂, r₃, hS₂, hpk'⟩ := (ih c2 (by omega)).expression _ _ hv
    exact ⟨S₁ ++ eq :: S₂, by simpa using r₁.trans (r₂.trans r₃), .assign hS₁ heq hS₂, hpk'⟩

theorem items_sound_of (close : TokenKind) : ItemsSound close c := by
  intro acc es d h
  rw [exprItems] at h
  obtain ⟨⟨e, c1, h1⟩, he, h⟩ := bind_eq_ok.mp h
  obtain ⟨S₁, r₁, hS₁, -⟩ := expression_sound_of ih _ _ he
  dsimp only at h
  split at h
  next comma c2 h2 hc =>
    obtain ⟨⟨es', c3, h3⟩, hr, h⟩ := bind_eq_ok.mp h
    cases h
    obtain ⟨hcomma, r₂⟩ := eat?_some hc
    obtain ⟨S₂, t, es', r₃, hS₂, rfl, ht⟩ := (ih c2 (by omega)).items close _ _ _ hr
    refine ⟨S₁ ++ comma :: S₂, t, e :: es', ?_, .more hS₁ hcomma hS₂, by simp, ht⟩
    simpa using r₁.trans (r₂.trans r₃)
  next =>
    obtain ⟨⟨t, c2, h2⟩, hx, h⟩ := bind_eq_ok.mp h
    cases h
    obtain ⟨ht, r₂⟩ := eat?_some (expect_eq_ok.mp hx)
    exact ⟨S₁, t, [e], r₁.trans r₂, .one hS₁, by simp, ht⟩

theorem args_sound_of (close : TokenKind) : ArgsSound close c := by
  intro es d h
  rw [exprList] at h
  split at h
  next t d' he =>
    cases h
    obtain ⟨ht, r⟩ := eat?_some he
    exact ⟨[], t, r, .nil, ht⟩
  next =>
    obtain ⟨S, t, es', r, hS, rfl, ht⟩ := items_sound_of ih close _ _ _ h
    exact ⟨S, t, r, .items (by simpa using hS), ht⟩

end

theorem exprReaders_sound (c : Cursor) : ExprReadersSound c :=
  have ih := fun (d : Cursor) (_ : d.rest.length < c.rest.length) => exprReaders_sound d
  { expression := expression_sound_of ih
    binary := binary_sound_of ih
    chain := chain_sound_of ih
    prefixExpr := prefix_sound_of ih
    suffix := suffix_sound_of ih
    suffixes := suffixes_sound_of ih
    basic := basic_sound_of ih
    args := args_sound_of ih
    items := items_sound_of ih }
termination_by c.rest.length

end Sigh.Parse

namespace Sigh.Parse

open Grammar

theorem Reads.ends {c d : Cursor} {S : List Token} (h : Reads c S d)
    (hc : continuesExpression c.peekKind = false) : Ends S :=
  fun t ht => h.peekKind_head t ht ▸ hc

/-- Reading a statement form takes tokens that spell it, and stops before any token the
statement forbids after it. -/
def FormSound (read : (c : Cursor) → Except Diagnostic ((Span → Stmt) × Ahead c))
    (c : Cursor) : Prop :=
  ∀ mk d, read c = .ok (mk, d) →
    ∃ S, Reads c S d.1 ∧ IsForm S mk ∧ ∀ sp, (mk sp).forbids d.1.peekKind = false

theorem isStmt_of_form {c d : Cursor} {S : List Token} {mk : Span → Stmt} (r : Reads c S d)
    (hd : d.rest.length < c.rest.length) (hf : IsForm S mk) :
    IsStmt S (mk (d.spanFrom c.peek.span.start)) := by
  obtain ⟨t, S, rfl⟩ := List.exists_cons_of_ne_nil (r.ne_nil hd)
  rw [r.peek_eq, spanFrom_eq_ofTokens r]
  exact .mk hf rfl

theorem returnStmt_sound (c : Cursor) : FormSound returnStmt c := by
  intro mk d h
  unfold returnStmt at h
  obtain ⟨⟨r, c1, h1⟩, hr, h⟩ := bind_eq_ok.mp h
  obtain ⟨hrk, r₁⟩ := eat?_some (expect_eq_ok.mp hr)
  dsimp only at h
  split at h
  next =>
    obtain ⟨⟨e, c2, h2⟩, he, h⟩ := bind_eq_ok.mp h
    cases h
    obtain ⟨S, r₂, hS, hpk⟩ := (exprReaders_sound c1).expression _ _ he
    exact ⟨r :: S, r₁.trans r₂, .retValue hrk hS, fun _ => hpk⟩
  next hs =>
    cases h
    exact ⟨[r], r₁, .ret hrk, fun _ => by simpa [Stmt.forbids] using hs⟩

theorem varDecl_sound (c : Cursor) : FormSound varDecl c := by
  intro mk d h
  unfold varDecl at h
  obtain ⟨⟨v, c1, h1⟩, hv, h⟩ := bind_eq_ok.mp h
  obtain ⟨⟨name, c2, h2⟩, hn, h⟩ := bind_eq_ok.mp h
  obtain ⟨⟨col, c3, h3⟩, hc, h⟩ := bind_eq_ok.mp h
  obtain ⟨⟨base, c4, h4⟩, hb, h⟩ := bind_eq_ok.mp h
  obtain ⟨⟨dims, c5, h5⟩, hd, h⟩ := bind_eq_ok.mp h
  obtain ⟨hvk, r₁⟩ := eat?_some (expect_eq_ok.mp hv)
  obtain ⟨n, hnk, rfl, r₂⟩ := ident_eq_ok hn
  obtain ⟨hck, r₃⟩ := eat?_some (expect_eq_ok.mp hc)
  obtain ⟨b, hbk, rfl, r₄⟩ := ident_eq_ok hb
  obtain ⟨S, r₅, hpk, -, hun, hts, hds⟩ := dimensions_sound hd
  dsimp only at h
  split at h
  next hsized =>
    obtain ⟨⟨eq, c6, h6⟩, he, h⟩ := bind_eq_ok.mp h
    obtain ⟨⟨init, c7, h7⟩, hi, h⟩ := bind_eq_ok.mp h
    cases h
    obtain ⟨heq, r₆⟩ := eat?_some (expect_eq_ok.mp he)
    obtain ⟨S₂, r₇, hS₂, hpk'⟩ := (exprReaders_sound c6).expression _ _ hi
    have hty := hts (by simpa using hsized)
    refine ⟨v :: n :: col :: (b :: S) ++ eq :: S₂, ?_,
      .var hvk hnk hck (.mk hbk hty) heq hS₂, fun _ => hpk'⟩
    simpa using r₁.trans (r₂.trans (r₃.trans (r₄.trans (r₅.trans (r₆.trans r₇)))))
  next hsized =>
    split at h
    next => cases h
    next hunsized =>
      split at h
      next => cases h
      next hlim =>
        split at h
        next => cases h
        next heq =>
          cases h
          obtain ⟨ns, hns, hsz⟩ := hds (by simp at hunsized ⊢; omega)
          simp only [List.nil_append] at hsz
          subst hsz
          refine ⟨v :: n :: col :: b :: S, ?_, .sizedArray hvk hnk hck hbk hns (by simpa using hsized)
            (by simpa using hlim), fun _ => by simpa [Stmt.forbids] using ⟨hpk, heq⟩⟩
          simpa using r₁.trans (r₂.trans (r₃.trans (r₄.trans r₅)))

theorem result_sound {c : Cursor} {α : Type} {k : Option TypeExpr × Within c → Except Diagnostic α}
    {a : α}
    (h : (match c.eat? .colon with
      | some (_, ⟨d, hd⟩) => do
        let (t, ⟨e, he⟩) ← typeExpr d
        let x ← pure (some t, (⟨e, Nat.le_of_lt (Nat.lt_trans he hd)⟩ : Within c))
        k x
      | none => do
        let x ← pure (none, (⟨c, Nat.le_refl _⟩ : Within c))
        k x) = .ok a) :
    ∃ result d, k (result, d) = .ok a ∧ ∃ S, Reads c S d.1 ∧ IsResult S result := by
  split at h
  next col d hd hc =>
    obtain ⟨⟨t, e, he⟩, ht, h⟩ := bind_eq_ok.mp h
    obtain ⟨hck, r₁⟩ := eat?_some hc
    obtain ⟨S, r₂, hS⟩ := typeExpr_sound ht
    exact ⟨some t, _, h, col :: S, r₁.trans r₂, .some hck hS⟩
  next => exact ⟨none, _, h, [], .refl c, .none⟩

def StatementSound (c : Cursor) : Prop :=
  ∀ s d, statement c = .ok (s, d) →
    ∃ S, Reads c S d.1 ∧ IsStmt S s ∧ s.forbids d.1.peekKind = false

def BlockSound (c : Cursor) : Prop :=
  ∀ body sp d, block c = .ok ((body, sp), d) → ∃ S, Reads c S d.1 ∧ IsBlock S body sp

def BlockItemsSound (c : Cursor) : Prop :=
  ∀ acc ss d, blockItems c acc = .ok (ss, d) →
    ∃ S ss', Reads c S d.1 ∧ IsStmts S ss' ∧ ss = acc.toList ++ ss'

def FunSound (c : Cursor) : Prop :=
  ∀ f d, funDecl c = .ok (f, d) → ∃ S, Reads c S d.1 ∧ IsFun S f

def StructSound (c : Cursor) : Prop :=
  ∀ s d, structDecl c = .ok (s, d) → ∃ S, Reads c S d.1 ∧ IsStruct S s

def MembersSound (c : Cursor) : Prop :=
  ∀ fields methods fs ms d, members c fields methods = .ok ((fs, ms), d) →
    ∃ S rb fs' ms', Reads c (S ++ [rb]) d.1 ∧ IsMembers S fs' ms' ∧ rb.kind = .rBrace ∧
      fs = fields.toList ++ fs' ∧ ms = methods.toList ++ ms'

/-- Every reading function of the statement grammar is sound when started at `c`. -/
structure StmtReadersSound (c : Cursor) : Prop where
  statement : StatementSound c
  block : BlockSound c
  blockItems : BlockItemsSound c
  funDecl : FunSound c
  structDecl : StructSound c
  members : MembersSound c
  ifStmt : FormSound ifStmt c
  whileStmt : FormSound whileStmt c

section
variable {c : Cursor} (ih : ∀ d : Cursor, d.rest.length < c.rest.length → StmtReadersSound d)
include ih

theorem block_sound_of : BlockSound c := by
  intro body sp d h
  rw [block] at h
  obtain ⟨⟨lb, c1, h1⟩, hx, h⟩ := bind_eq_ok.mp h
  obtain ⟨⟨ss, c2, h2⟩, hi, h⟩ := bind_eq_ok.mp h
  obtain ⟨⟨rb, c3, h3⟩, hy, h⟩ := bind_eq_ok.mp h
  cases h
  obtain ⟨hlb, r₁⟩ := eat?_some (expect_eq_ok.mp hx)
  obtain ⟨S, ss', r₂, hS, hss⟩ := (ih c1 h1).blockItems _ _ _ hi
  obtain ⟨hrb, r₃⟩ := eat?_some (expect_eq_ok.mp hy)
  have r : Reads c (lb :: S ++ [rb]) c3 := by simpa using r₁.trans (r₂.trans r₃)
  simp only [List.nil_append] at hss
  subst hss
  rw [spanFrom_eq_upTo r]
  exact ⟨_, r, .mk hlb hS hrb⟩

theorem funDecl_sound_of : FunSound c := by
  intro f d h
  rw [funDecl] at h
  obtain ⟨⟨fk, c1, h1⟩, hx, h⟩ := bind_eq_ok.mp h
  obtain ⟨⟨name, c2, h2⟩, hn, h⟩ := bind_eq_ok.mp h
  obtain ⟨⟨lp, c3, h3⟩, hy, h⟩ := bind_eq_ok.mp h
  obtain ⟨⟨ps, c4, h4⟩, hp, h⟩ := bind_eq_ok.mp h
  obtain ⟨⟨rp, c5, h5⟩, hz, h⟩ := bind_eq_ok.mp h
  obtain ⟨result, ⟨c6, h6⟩, h, S₂, r₆, hS₂⟩ := result_sound h
  obtain ⟨⟨⟨body, bs⟩, c7, h7⟩, hb, h⟩ := bind_eq_ok.mp h
  cases h
  obtain ⟨hf, r₁⟩ := eat?_some (expect_eq_ok.mp hx)
  obtain ⟨n, hnk, rfl, r₂⟩ := ident_eq_ok hn
  obtain ⟨hlp, r₃⟩ := eat?_some (expect_eq_ok.mp hy)
  obtain ⟨S₁, r₄, hS₁⟩ := params_sound hp
  obtain ⟨hrp, r₅⟩ := eat?_some (expect_eq_ok.mp hz)
  obtain ⟨S₃, r₇, hS₃⟩ := (ih c6 (by omega)).block _ _ _ hb
  refine ⟨_, ?_, .mk hf hnk hlp hS₁ hrp hS₂ hS₃⟩
  simpa using r₁.trans (r₂.trans (r₃.trans (r₄.trans (r₅.trans (r₆.trans r₇)))))

theorem members_sound_of : MembersSound c := by
  intro fields methods fs ms d h
  rw [members] at h
  split at h
  next =>
    obtain ⟨⟨v, c1, h1⟩, hx, h⟩ := bind_eq_ok.mp h
    obtain ⟨⟨b, c2, h2⟩, hb, h⟩ := bind_eq_ok.mp h
    obtain ⟨⟨⟨fs', ms'⟩, c3, h3⟩, hm, h⟩ := bind_eq_ok.mp h
    cases h
    obtain ⟨hv, r₁⟩ := eat?_some (expect_eq_ok.mp hx)
    obtain ⟨S₁, r₂, hS₁⟩ := binding_sound hb
    obtain ⟨S₂, rb, fs'', ms'', r₃, hS₂, hrb, rfl, rfl⟩ := (ih c2 (by omega)).members _ _ _ _ _ hm
    refine ⟨v :: S₁ ++ S₂, rb, b :: fs'', ms'', ?_, .field hv hS₁ hS₂, hrb, by simp, rfl⟩
    simpa using r₁.trans (r₂.trans r₃)
  next =>
    obtain ⟨⟨f, c1, h1⟩, hf, h⟩ := bind_eq_ok.mp h
    obtain ⟨⟨⟨fs', ms'⟩, c2, h2⟩, hm, h⟩ := bind_eq_ok.mp h
    cases h
    obtain ⟨S₁, r₁, hS₁⟩ := funDecl_sound_of ih _ _ hf
    obtain ⟨S₂, rb, fs'', ms'', r₂, hS₂, hrb, rfl, rfl⟩ := (ih c1 h1).members _ _ _ _ _ hm
    refine ⟨S₁ ++ S₂, rb, fs'', f :: ms'', ?_, .method hS₁ hS₂, hrb, rfl, by simp⟩
    simpa using r₁.trans r₂
  next =>
    obtain ⟨⟨rb, d'⟩, hx, h⟩ := bind_eq_ok.mp h
    cases h
    obtain ⟨hrb, r⟩ := eat?_some (expect_eq_ok.mp hx)
    exact ⟨[], rb, [], [], r, .nil, hrb, by simp, by simp⟩
  next => cases h

theorem structDecl_sound_of : StructSound c := by
  intro s d h
  rw [structDecl] at h
  obtain ⟨⟨sk, c1, h1⟩, hx, h⟩ := bind_eq_ok.mp h
  obtain ⟨⟨name, c2, h2⟩, hn, h⟩ := bind_eq_ok.mp h
  obtain ⟨⟨lb, c3, h3⟩, hy, h⟩ := bind_eq_ok.mp h
  obtain ⟨⟨⟨fs, ms⟩, c4, h4⟩, hm, h⟩ := bind_eq_ok.mp h
  cases h
  obtain ⟨hsk, r₁⟩ := eat?_some (expect_eq_ok.mp hx)
  obtain ⟨n, hnk, rfl, r₂⟩ := ident_eq_ok hn
  obtain ⟨hlb, r₃⟩ := eat?_some (expect_eq_ok.mp hy)
  obtain ⟨S, rb, fs', ms', r₄, hS, hrb, hfs, hms⟩ := (ih c3 (by omega)).members _ _ _ _ _ hm
  simp only [List.nil_append] at hfs hms
  subst hfs hms
  refine ⟨_, ?_, .mk hsk hnk hlb hS hrb⟩
  simpa using r₁.trans (r₂.trans (r₃.trans r₄))

theorem ifStmt_sound_of : FormSound ifStmt c := by
  intro mk d h
  rw [ifStmt] at h
  obtain ⟨⟨i, c1, h1⟩, hx, h⟩ := bind_eq_ok.mp h
  obtain ⟨⟨cond, c2, h2⟩, hc, h⟩ := bind_eq_ok.mp h
  obtain ⟨⟨t, c3, h3⟩, ht, h⟩ := bind_eq_ok.mp h
  obtain ⟨hi, r₁⟩ := eat?_some (expect_eq_ok.mp hx)
  obtain ⟨S₁, r₂, hS₁, hpk₁⟩ := (exprReaders_sound c1).expression _ _ hc
  obtain ⟨S₂, r₃, hS₂, hpk₂⟩ := (ih c2 (by omega)).statement _ _ ht
  dsimp only at h
  split at h
  next el c4 h4 he =>
    obtain ⟨⟨e, c5, h5⟩, hs, h⟩ := bind_eq_ok.mp h
    cases h
    obtain ⟨hel, r₄⟩ := eat?_some he
    obtain ⟨S₃, r₅, hS₃, hpk₃⟩ := (ih c4 (by omega)).statement _ _ hs
    have hfb : t.forbids .kwElse = false := by rw [← hel, ← r₄.peekKind_eq]; exact hpk₂
    refine ⟨i :: S₁ ++ S₂ ++ el :: S₃, ?_, .ifElse hi hS₁ (r₃.ends hpk₁) hS₂ hfb hel hS₃,
      fun _ => hpk₃⟩
    simpa using r₁.trans (r₂.trans (r₃.trans (r₄.trans r₅)))
  next hn =>
    cases h
    refine ⟨i :: S₁ ++ S₂, by simpa using r₁.trans (r₂.trans r₃), .ifThen hi hS₁ (r₃.ends hpk₁) hS₂,
      fun _ => ?_⟩
    simp only [Stmt.forbids, hpk₂, Bool.or_false, beq_eq_false_iff_ne]
    exact peekKind_ne_of_eat?_none hn (by decide)

theorem whileStmt_sound_of : FormSound whileStmt c := by
  intro mk d h
  rw [whileStmt] at h
  obtain ⟨⟨w, c1, h1⟩, hx, h⟩ := bind_eq_ok.mp h
  obtain ⟨⟨cond, c2, h2⟩, hc, h⟩ := bind_eq_ok.mp h
  obtain ⟨⟨b, c3, h3⟩, hb, h⟩ := bind_eq_ok.mp h
  cases h
  obtain ⟨hw, r₁⟩ := eat?_some (expect_eq_ok.mp hx)
  obtain ⟨S₁, r₂, hS₁, hpk₁⟩ := (exprReaders_sound c1).expression _ _ hc
  obtain ⟨S₂, r₃, hS₂, hpk₂⟩ := (ih c2 (by omega)).statement _ _ hb
  exact ⟨w :: S₁ ++ S₂, by simpa using r₁.trans (r₂.trans r₃),
    .whileLoop hw hS₁ (r₃.ends hpk₁) hS₂, fun _ => hpk₂⟩

theorem statement_sound_of : StatementSound c := by
  intro s d h
  rw [statement] at h
  split at h
  next =>
    obtain ⟨⟨⟨body, sp⟩, d', hd'⟩, hb, h⟩ := bind_eq_ok.mp h
    cases h
    obtain ⟨S, r, hS⟩ := block_sound_of ih _ _ _ hb
    exact ⟨S, r, isStmt_of_form r hd' (.block hS), rfl⟩
  next =>
    obtain ⟨⟨mk, d', hd'⟩, hv, h⟩ := bind_eq_ok.mp h
    cases h
    obtain ⟨S, r, hS, hpk⟩ := varDecl_sound c _ _ hv
    exact ⟨S, r, isStmt_of_form r hd' hS, hpk _⟩
  next =>
    obtain ⟨⟨f, d', hd'⟩, hf, h⟩ := bind_eq_ok.mp h
    cases h
    obtain ⟨S, r, hS⟩ := funDecl_sound_of ih _ _ hf
    exact ⟨S, r, isStmt_of_form r hd' (.fnDecl hS), rfl⟩
  next =>
    obtain ⟨⟨f, d', hd'⟩, hf, h⟩ := bind_eq_ok.mp h
    cases h
    obtain ⟨S, r, hS⟩ := structDecl_sound_of ih _ _ hf
    exact ⟨S, r, isStmt_of_form r hd' (.structDecl hS), rfl⟩
  next =>
    obtain ⟨⟨mk, d', hd'⟩, hv, h⟩ := bind_eq_ok.mp h
    cases h
    obtain ⟨S, r, hS, hpk⟩ := ifStmt_sound_of ih _ _ hv
    exact ⟨S, r, isStmt_of_form r hd' hS, hpk _⟩
  next =>
    obtain ⟨⟨mk, d', hd'⟩, hv, h⟩ := bind_eq_ok.mp h
    cases h
    obtain ⟨S, r, hS, hpk⟩ := whileStmt_sound_of ih _ _ hv
    exact ⟨S, r, isStmt_of_form r hd' hS, hpk _⟩
  next =>
    obtain ⟨⟨mk, d', hd'⟩, hv, h⟩ := bind_eq_ok.mp h
    cases h
    obtain ⟨S, r, hS, hpk⟩ := returnStmt_sound c _ _ hv
    exact ⟨S, r, isStmt_of_form r hd' hS, hpk _⟩
  next =>
    split at h
    next =>
      obtain ⟨⟨e, d', hd'⟩, he, h⟩ := bind_eq_ok.mp h
      cases h
      obtain ⟨S, r, hS, hpk⟩ := (exprReaders_sound c).expression _ _ he
      exact ⟨S, r, isStmt_of_form r hd' (.expr hS), hpk⟩
    next => cases h

theorem blockItems_sound_of : BlockItemsSound c := by
  intro acc ss d h
  rw [blockItems] at h
  split at h
  next =>
    cases h
    exact ⟨[], [], .refl c, .nil, by simp⟩
  next =>
    cases h
    exact ⟨[], [], .refl c, .nil, by simp⟩
  next =>
    obtain ⟨⟨s, c1, h1⟩, hs, h⟩ := bind_eq_ok.mp h
    obtain ⟨⟨ss', c2, h2⟩, hr, h⟩ := bind_eq_ok.mp h
    cases h
    obtain ⟨S₁, r₁, hS₁, hpk⟩ := statement_sound_of ih _ _ hs
    obtain ⟨S₂, ss'', r₂, hS₂, rfl⟩ := (ih c1 h1).blockItems _ _ _ hr
    exact ⟨S₁ ++ S₂, s :: ss'', r₁.trans r₂,
      .cons hS₁ hS₂ (fun t ht => r₂.peekKind_head t ht ▸ hpk), by simp⟩

end

theorem stmtReaders_sound (c : Cursor) : StmtReadersSound c :=
  have ih := fun (d : Cursor) (_ : d.rest.length < c.rest.length) => stmtReaders_sound d
  { statement := statement_sound_of ih
    block := block_sound_of ih
    blockItems := blockItems_sound_of ih
    funDecl := funDecl_sound_of ih
    structDecl := structDecl_sound_of ih
    members := members_sound_of ih
    ifStmt := ifStmt_sound_of ih
    whileStmt := whileStmt_sound_of ih }
termination_by c.rest.length

theorem programItems_sound {c : Cursor} {acc : Array Stmt} {ss : List Stmt} {d : Within c}
    (h : programItems c acc = .ok (ss, d)) :
    ∃ S ss', Reads c S d.1 ∧ IsStmts S ss' ∧ ss = acc.toList ++ ss' ∧ d.1.peekKind = .eof := by
  induction c, acc using programItems.induct generalizing ss with
  | case1 c acc he =>
    rw [programItems, he] at h
    cases h
    exact ⟨[], [], .refl c, .nil, by simp, he⟩
  | case2 c acc he ih =>
    rw [programItems] at h
    split at h
    next hk => exact absurd hk he
    next =>
      obtain ⟨⟨s, c1, h1⟩, hs, h⟩ := bind_eq_ok.mp h
      obtain ⟨⟨ss', c2, h2⟩, hr, h⟩ := bind_eq_ok.mp h
      cases h
      obtain ⟨S₁, r₁, hS₁, hpk⟩ := (stmtReaders_sound c).statement _ _ hs
      obtain ⟨S₂, ss'', r₂, hS₂, rfl, heof⟩ := ih s c1 h1 hr
      exact ⟨S₁ ++ S₂, s :: ss'', r₁.trans r₂,
        .cons hS₁ hS₂ (fun t ht => r₂.peekKind_head t ht ▸ hpk), by simp, heof⟩

theorem rest_eq_nil_of_peekKind {c : Cursor} (h : c.peekKind = .eof)
    (hc : ∀ t ∈ c.rest, t.kind ≠ .eof) : c.rest = [] := by
  cases hr : c.rest with
  | nil => rfl
  | cons t r =>
    rw [peekKind_of_rest hr] at h
    exact absurd h (hc t (by simp [hr]))

theorem Reads.start_all {tokens S : List Token} {d : Cursor} (r : Reads (Cursor.start tokens) S d)
    (h : d.peekKind = .eof) : S = tokens.filter (·.kind ≠ .eof) := by
  have hrest : (Cursor.start tokens).rest = S ++ d.rest := r.rest
  have hnil : d.rest = [] := by
    refine rest_eq_nil_of_peekKind h fun t ht => ?_
    have : t ∈ (Cursor.start tokens).rest := by rw [hrest]; exact List.mem_append_right _ ht
    simp only [Cursor.start, ne_eq, List.mem_filter, decide_not, Bool.not_eq_eq_eq_not,
      Bool.not_true, decide_eq_false_iff_not] at this
    exact this.2
  simpa [hnil, Cursor.start] using hrest.symm

end Sigh.Parse

namespace Sigh

open Parse Grammar

theorem Program.ofTokens_sound {tokens : List Token} {p : Program}
    (h : Program.ofTokens tokens = .ok p) : IsProgram tokens p := by
  unfold Program.ofTokens at h
  obtain ⟨⟨first, c1, h1⟩, hs, h⟩ := bind_eq_ok.mp h
  obtain ⟨⟨more, c2, h2⟩, hr, h⟩ := bind_eq_ok.mp h
  cases h
  obtain ⟨S₁, r₁, hS₁, hpk⟩ := (stmtReaders_sound _).statement _ _ hs
  obtain ⟨S₂, ss, r₂, hS₂, hss, heof⟩ := programItems_sound hr
  simp only [List.nil_append] at hss
  subst hss
  have r := r₁.trans r₂
  have hall := r.start_all heof
  refine ⟨hall ▸ .cons hS₁ hS₂ (fun t ht => r₂.peekKind_head t ht ▸ hpk), by simp, ?_⟩
  obtain ⟨t, S, hS⟩ := List.exists_cons_of_ne_nil (List.append_ne_nil_of_left_ne_nil (r₁.ne_nil h1) S₂)
  rw [hS] at r hall
  rw [← hall, r.peek_eq, spanFrom_eq_ofTokens r]

theorem Expr.ofTokens_sound {tokens : List Token} {e : Expr}
    (h : Expr.ofTokens tokens = .ok e) : IsWholeExpr tokens e := by
  unfold Expr.ofTokens at h
  obtain ⟨⟨e', c1, h1⟩, he, h⟩ := bind_eq_ok.mp h
  dsimp only at h
  split at h
  next heof =>
    cases h
    obtain ⟨S, r, hS, -⟩ := (exprReaders_sound _).expression _ _ he
    rw [r.start_all heof] at hS
    exact hS
  next => cases h

end Sigh
