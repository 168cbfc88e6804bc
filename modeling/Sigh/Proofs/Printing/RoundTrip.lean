import Sigh.Proofs.Printing.Shape
import Sigh.Proofs.Grammar.Complete

namespace Sigh

theorem Token.view_eq {t : Token} {k : TokenKind} {s : String} :
    t.view = (k, s) ↔ t.kind = k ∧ t.text = s := by
  simp [Token.view]

theorem Token.map_view_eq_cons {L : List Token} {k : TokenKind} {s : String}
    {rest : List (TokenKind × String)} :
    L.map Token.view = (k, s) :: rest ↔
      ∃ t L', L = t :: L' ∧ t.kind = k ∧ t.text = s ∧ L'.map Token.view = rest := by
  simp [List.map_eq_cons_iff, Token.view_eq, and_assoc]

theorem Token.map_view_eq_singleton {L : List Token} {k : TokenKind} {s : String} :
    L.map Token.view = [(k, s)] ↔ ∃ t, L = [t] ∧ t.kind = k ∧ t.text = s := by
  simp [List.map_eq_singleton_iff, Token.view_eq]

theorem Token.map_view_eq_bracketed {L : List Token} {k k' : TokenKind} {s s' : String}
    {inside : List (TokenKind × String)} (h : L.map Token.view = (k, s) :: (inside ++ [(k', s')])) :
    ∃ l M r, L = l :: (M ++ [r]) ∧ l.kind = k ∧ M.map Token.view = inside ∧ r.kind = k' := by
  obtain ⟨l, L₁, rfl, hl, -, h₁⟩ := Token.map_view_eq_cons.mp h
  obtain ⟨M, L₂, rfl, hM, h₂⟩ := List.map_eq_append_iff.mp h₁
  obtain ⟨r, rfl, hr, -⟩ := Token.map_view_eq_singleton.mp h₂
  exact ⟨l, M, r, rfl, hl, hM, hr⟩

theorem repr_toNat! (n : Nat) : (Nat.repr n).toNat! = n := by
  have h := Nat.toNat?_repr n
  simp only [String.toNat?, String.Slice.toNat?, String.toNat!, String.Slice.toNat!] at h ⊢
  split at h
  · rename_i hn
    rw [if_pos hn]
    exact Option.some.inj h
  · cases h

namespace Grammar

open Parse (levelOp?)

theorem IsPrefix.operand {S : List Token} {e : Expr} (h : IsPrefix S e) (level : Nat) :
    IsOperand level S e := by
  by_cases hl : level < 4
  · have hb := IsBinary.mk (IsPrefix.operand h (level + 1)) IsChain.done
    rw [List.append_nil] at hb
    exact .tighter hl hb
  · exact .tightest hl h
termination_by 4 - level

theorem IsPrefix.binary {S : List Token} {e : Expr} (h : IsPrefix S e) (level : Nat) :
    IsBinary level S e := by
  have hb := IsBinary.mk (h.operand level) IsChain.done
  rwa [List.append_nil] at hb

theorem IsPrefix.isExpr {S : List Token} {e : Expr} (h : IsPrefix S e) : IsExpr S e :=
  .operand (h.binary 0)

theorem IsBinary.lower {k : Nat} {S : List Token} {e : Expr} (h : IsBinary k S e) (hk : k ≤ 4) :
    ∀ j ≤ k, IsBinary j S e := by
  induction k with
  | zero =>
    intro j hj
    obtain rfl : j = 0 := by omega
    exact h
  | succ k ih =>
    intro j hj
    rcases Nat.lt_or_eq_of_le hj with hj | rfl
    · have hb := IsBinary.mk (IsOperand.tighter (by omega) h) IsChain.done
      rw [List.append_nil] at hb
      exact ih hb (by omega) j (by omega)
    · exact h

theorem IsBinary.single {k : Nat} {Sl Sr : List Token} {l r : Expr} {t : Token} {op : BinOp}
    (hl : IsPrefix Sl l) (hop : levelOp? k t.kind = some op) (hr : IsPrefix Sr r) :
    IsBinary k (Sl ++ t :: Sr) (.binary op l r (l.span.merge r.span)) := by
  have hb := IsBinary.mk (hl.operand k) (IsChain.more hop (hr.operand k) IsChain.done)
  rwa [List.append_nil] at hb

theorem IsArgs.items_of_ne_nil {S : List Token} {es : List Expr} (h : IsArgs S es) (hne : es ≠ []) :
    IsItems S es := by
  cases h with
  | nil => exact absurd rfl hne
  | items hi => exact hi

end Grammar

open Grammar

/-- The tokens `L` read back to a tree equal to `e` once spans and parentheses are erased: a
prefix expression, which, when `e` is no `!` expression, is also a suffixed expression that any
suffixes after `L` extend. -/
def Rereads (L : List Token) (e : Expr) : Prop :=
  ∃ e', e'.erase = e.erase ∧ IsPrefix L e' ∧
    (e.isNot = false → ∀ T r, IsSuffixes e' T r → IsSuffix (L ++ T) r)

theorem Rereads.of_suffix {L : List Token} {e e' : Expr}
    (hcont : ∀ T r, IsSuffixes e' T r → IsSuffix (L ++ T) r) (he : e'.erase = e.erase) :
    Rereads L e := by
  have hs := hcont [] e' .done
  rw [List.append_nil] at hs
  exact ⟨e', he, .suffix hs, fun _ => hcont⟩

theorem Rereads.of_basic {L : List Token} {e b : Expr} (hb : IsBasic L b)
    (he : b.erase = e.erase) : Rereads L e :=
  .of_suffix (fun _ _ hs => .mk hb hs) he

theorem Rereads.of_more {Ls M : List Token} {stem e' e : Expr}
    (hcont : ∀ T r, IsSuffixes stem T r → IsSuffix (Ls ++ T) r)
    (hmore : ∀ T r, IsSuffixes e' T r → IsSuffixes stem (M ++ T) r)
    (he : e'.erase = e.erase) : Rereads (Ls ++ M) e :=
  .of_suffix (fun T r hs => by simpa using hcont (M ++ T) r (hmore T r hs)) he

namespace Expr

open Scan

theorem rereads_int (v : Int64) (sp : Span) {L : List Token}
    (hL : L.map Token.view = literalTokens .intLiteral (toString v.toInt)) :
    Rereads L (.int v sp) := by
  rcases int_toString_cases v.toInt with ⟨hnn, h⟩ | ⟨hneg, h⟩
  · obtain ⟨hne, hd⟩ := repr_toList v.toInt.toNat
    obtain ⟨c, ds, hcs⟩ := List.exists_cons_of_ne_nil hne
    rw [h, literalTokens_of_digit hcs (hd c (by rw [hcs]; exact List.mem_cons_self))] at hL
    obtain ⟨t, rfl, hk, htext⟩ := Token.map_view_eq_singleton.mp hL
    have hn : (v.toInt.toNat : Int) = v.toInt := Int.toNat_of_nonneg hnn
    have hb := IsBasic.int (t := t) hk (by rw [htext, repr_toNat!, hn]; exact Int64.toInt_lt v)
    refine .of_basic hb ?_
    simp only [erase]
    rw [htext, repr_toNat!, hn, Int64.ofInt_toInt]
  · obtain ⟨hne, hd⟩ := repr_toList v.toInt.natAbs
    rw [h, literalTokens_neg] at hL
    obtain ⟨m, L', rfl, hm, -, hL'⟩ := Token.map_view_eq_cons.mp hL
    obtain ⟨t, rfl, hk, htext⟩ := Token.map_view_eq_singleton.mp hL'
    have hn : -(v.toInt.natAbs : Int) = v.toInt := by omega
    have hb := IsBasic.negInt (m := m) (t := t) hm hk
      (by rw [htext, repr_toNat!]; have := Int64.le_toInt v; omega)
    refine .of_basic hb ?_
    simp only [erase]
    rw [htext, repr_toNat!, hn, Int64.ofInt_toInt]

theorem rereads_float {x : Float} (hx : Decimal.PrintsPositionally x) (sp : Span) {L : List Token}
    (hL : L.map Token.view = literalTokens .floatLiteral (Decimal.literalStyle.render x)) :
    Rereads L (.float x sp) := by
  obtain ⟨neg, t, hrender, ⟨ws, fs, htl, hw, -, hd⟩, hval⟩ := Decimal.render_reads_back hx
  obtain ⟨c, ws', rfl⟩ := List.exists_cons_of_ne_nil hw
  rw [hrender] at hL
  cases neg
  · rw [if_neg Bool.false_ne_true, literalTokens_of_digit (by rw [htl]; rfl) (hd c (by simp))]
      at hL
    obtain ⟨tok, rfl, hk, htext⟩ := Token.map_view_eq_singleton.mp hL
    refine .of_basic (.float hk) ?_
    rw [if_neg Bool.false_ne_true] at hval
    simp [erase, htext, hval]
  · rw [if_pos rfl, literalTokens_neg] at hL
    obtain ⟨m, L', rfl, hm, -, hL'⟩ := Token.map_view_eq_cons.mp hL
    obtain ⟨tok, rfl, hk, htext⟩ := Token.map_view_eq_singleton.mp hL'
    refine .of_basic (.negFloat hm hk) ?_
    rw [if_pos rfl] at hval
    simp [erase, htext, hval]

theorem unescape_quoted {v : String} (hv : ∀ c ∈ v.toList, Text.WrittenPlain c) :
    unescape (String.ofList (v.toList.flatMap Text.quoteChar)) = v := by
  rw [unescape, String.toList_ofList, Text.unescapeChars_quoted hv, String.ofList_toList]

theorem rereads_str {v : String} (hv : ∀ c ∈ v.toList, Text.WrittenPlain c) (sp : Span)
    {L : List Token}
    (hL : L.map Token.view = [(.stringLiteral, String.ofList (v.toList.flatMap Text.quoteChar))]) :
    Rereads L (.str v sp) := by
  obtain ⟨t, rfl, hk, htext⟩ := Token.map_view_eq_singleton.mp hL
  refine .of_basic (.str hk) ?_
  simp [erase, htext, unescape_quoted hv]

mutual
theorem rereads : ∀ (e : Expr), e.Every Printable → ∀ (L : List Token),
    L.map Token.view = e.tokens → Rereads L e
  | int v sp, _, _, hL => rereads_int v sp hL
  | float _ sp, h, _, hL => rereads_float h.1.2 sp hL
  | str _ sp, h, _, hL => rereads_str h.1.2 sp hL
  | ref name _, _, _, hL => by
    obtain ⟨t, rfl, hk, htext⟩ := Token.map_view_eq_singleton.mp hL
    exact .of_basic (.ref hk) (by simp [erase, htext])
  | ctor name _, _, _, hL => by
    obtain ⟨d, L₁, rfl, hd, -, h₁⟩ := Token.map_view_eq_cons.mp hL
    obtain ⟨n, rfl, hnk, hnt⟩ := Token.map_view_eq_singleton.mp h₁
    exact .of_basic (.ctor hd hnk) (by simp [erase, hnt])
  | array items _, h, _, hL => by
    simp only [tokens, List.cons_append] at hL
    obtain ⟨lb, Li, rb, rfl, hlb, hLi, hrb⟩ := Token.map_view_eq_bracketed hL
    obtain ⟨items', herase, hargs⟩ := rereadsList items h.2 Li hLi
    exact .of_basic (.array hlb hargs hrb)
      (by simp [erase, herase])
  | paren inner _, h, _, hL => by
    simp only [tokens, List.cons_append] at hL
    obtain ⟨lp, Li, rp, rfl, hlp, hLi, hrp⟩ := Token.map_view_eq_bracketed hL
    obtain ⟨inner', herase, hpre, -⟩ := rereads inner h.2 Li hLi
    exact .of_basic (.paren hlp hpre.isExpr hrp)
      (by simp [erase, herase])
  | field stem name _, h, _, hL => by
    simp only [tokens] at hL
    obtain ⟨Ls, L₁, rfl, hLs, h₁⟩ := List.map_eq_append_iff.mp hL
    obtain ⟨d, L₂, rfl, hd, -, h₂⟩ := Token.map_view_eq_cons.mp h₁
    obtain ⟨n, rfl, hnk, hnt⟩ := Token.map_view_eq_singleton.mp h₂
    obtain ⟨stem', herase, -, hcont⟩ := rereads stem h.2 Ls hLs
    exact .of_more (hcont h.1.1.1) (fun _ _ hs => .field hd hnk hs) (by simp [erase, herase, hnt])
  | index a i _, h, _, hL => by
    simp only [tokens, List.cons_append, List.append_assoc] at hL
    obtain ⟨La, L₁, rfl, hLa, h₁⟩ := List.map_eq_append_iff.mp hL
    obtain ⟨lb, Li, rb, rfl, hlb, hLi, hrb⟩ := Token.map_view_eq_bracketed h₁
    obtain ⟨a', hae, -, hcont⟩ := rereads a h.2.1 La hLa
    obtain ⟨i', hie, hipre, -⟩ := rereads i h.2.2 Li hLi
    exact .of_more (hcont h.1.1)
      (fun _ _ hs => by simpa using IsSuffixes.index hlb hipre.isExpr hrb hs)
      (by simp [erase, hae, hie])
  | call callee args _, h, _, hL => by
    simp only [tokens, List.cons_append, List.append_assoc] at hL
    obtain ⟨Lc, L₁, rfl, hLc, h₁⟩ := List.map_eq_append_iff.mp hL
    obtain ⟨lp, La, rp, rfl, hlp, hLa, hrp⟩ := Token.map_view_eq_bracketed h₁
    obtain ⟨callee', hce, -, hcont⟩ := rereads callee h.2.1 Lc hLc
    obtain ⟨args', hae, hargs⟩ := rereadsList args h.2.2 La hLa
    exact .of_more (hcont h.1.1)
      (fun _ _ hs => by simpa using IsSuffixes.call hlp hargs hrp hs)
      (by simp [erase, hce, hae])
  | not operand _, h, _, hL => by
    obtain ⟨b, Lo, rfl, hb, -, hLo⟩ := Token.map_view_eq_cons.mp hL
    obtain ⟨operand', herase, hpre, -⟩ := rereads operand h.2 Lo hLo
    exact ⟨.not operand' (b.span.merge operand'.span), by simp [erase, herase],
      .not hb hpre, fun hn => by simp [isNot] at hn⟩
  | binary op l r _, h, _, hL => by
    simp only [tokens, List.cons_append, List.append_assoc] at hL
    obtain ⟨lp, L₁, rfl, hlp, -, h₁⟩ := Token.map_view_eq_cons.mp hL
    obtain ⟨Ll, L₂, rfl, hLl, h₂⟩ := List.map_eq_append_iff.mp h₁
    obtain ⟨t, L₃, rfl, ht, -, h₃⟩ := Token.map_view_eq_cons.mp h₂
    obtain ⟨Lr, L₄, rfl, hLr, h₄⟩ := List.map_eq_append_iff.mp h₃
    obtain ⟨rp, rfl, hrp, -⟩ := Token.map_view_eq_singleton.mp h₄
    obtain ⟨l', hle, hlpre, -⟩ := rereads l h.2.1 Ll hLl
    obtain ⟨r', hre, hrpre, -⟩ := rereads r h.2.2 Lr hLr
    have hop : Parse.levelOp? op.level t.kind = some op := by
      rw [ht]
      exact op.levelOp?_level
    have hinner : IsExpr (Ll ++ t :: Lr) (.binary op l' r' (l'.span.merge r'.span)) :=
      .operand ((IsBinary.single hlpre hop hrpre).lower op.level_le 0 (Nat.zero_le _))
    have hb := IsBasic.paren hlp hinner hrp
    rw [show lp :: (Ll ++ t :: Lr) ++ [rp] = lp :: (Ll ++ t :: (Lr ++ [rp])) by simp] at hb
    exact .of_basic hb (by simp [erase, hle, hre])
  | assign t v _, h, _, hL => by
    simp only [tokens, List.cons_append, List.append_assoc] at hL
    obtain ⟨lp, L₁, rfl, hlp, -, h₁⟩ := Token.map_view_eq_cons.mp hL
    obtain ⟨Lt, L₂, rfl, hLt, h₂⟩ := List.map_eq_append_iff.mp h₁
    obtain ⟨eq, L₃, rfl, heq, -, h₃⟩ := Token.map_view_eq_cons.mp h₂
    obtain ⟨Lv, L₄, rfl, hLv, h₄⟩ := List.map_eq_append_iff.mp h₃
    obtain ⟨rp, rfl, hrp, -⟩ := Token.map_view_eq_singleton.mp h₄
    obtain ⟨t', hte, htpre, -⟩ := rereads t h.2.1 Lt hLt
    obtain ⟨v', hve, hvpre, -⟩ := rereads v h.2.2 Lv hLv
    have hinner : IsExpr (Lt ++ eq :: Lv) (.assign t' v' (t'.span.merge v'.span)) :=
      .assign (htpre.binary 0) heq hvpre.isExpr
    have hb := IsBasic.paren hlp hinner hrp
    rw [show lp :: (Lt ++ eq :: Lv) ++ [rp] = lp :: (Lt ++ eq :: (Lv ++ [rp])) by simp] at hb
    exact .of_basic hb (by simp [erase, hte, hve])

theorem rereadsList : ∀ (es : List Expr), EveryList Printable es → ∀ (L : List Token),
    L.map Token.view = tokensList es → ∃ es', eraseList es' = eraseList es ∧ IsArgs L es'
  | [], _, _, hL => ⟨[], rfl, by rw [List.map_eq_nil_iff.mp hL]; exact .nil⟩
  | [e], h, L, hL => by
    obtain ⟨e', herase, hpre, -⟩ := rereads e h.1 L hL
    exact ⟨[e'], by simp [eraseList, herase], .items (.one hpre.isExpr)⟩
  | e :: e' :: es, h, _, hL => by
    simp only [tokensList] at hL
    obtain ⟨Le, L₁, rfl, hLe, h₁⟩ := List.map_eq_append_iff.mp hL
    obtain ⟨c, Lr, rfl, hc, -, hLr⟩ := Token.map_view_eq_cons.mp h₁
    obtain ⟨e₁, herase, hpre, -⟩ := rereads e h.1 Le hLe
    obtain ⟨es', hes, hargs⟩ := rereadsList (e' :: es) h.2 Lr hLr
    have hne : es' ≠ [] := by
      rintro rfl
      simp [eraseList] at hes
    exact ⟨e₁ :: es', by simp [eraseList, herase, hes],
      .items (.more hpre.isExpr hc (hargs.items_of_ne_nil hne))⟩
end

end Expr

theorem lex_identsSpelled (source : String) :
    IdentsSpelled ((lex source).tokens.filter (·.kind ≠ .eof)) := by
  intro t ht hk
  have hp := lex_text_partition source
  obtain ⟨ts, hts, -⟩ := hp.eof
  have hmem : t ∈ (lex source).tokens.dropLast := by
    rw [List.mem_filter, hts] at ht
    rw [hts, List.dropLast_concat]
    rcases List.mem_append.mp ht.1 with h | h
    · exact h
    · rw [List.mem_singleton.mp h] at hk
      cases hk
  obtain ⟨-, w, -, -, -, hsp⟩ := hp.spelled t hmem
  rw [hk] at hsp
  obtain ⟨htext, hname, hkw⟩ := hsp
  refine ⟨?_, hkw⟩
  rw [htext, String.toList_ofList]
  exact hname

theorem Expr.read_faults {source : String} {e : Expr} (h : Expr.read source = .ok e) :
    (lex source).faults = [] := by
  cases hf : (lex source).faults with
  | nil => rfl
  | cons f fs => simp [Expr.read, tokensOf, hf, bind, Except.bind] at h

/-- Printing an expression read from any source, whose float literals print positionally and
whose string literals hold no character quoted as `\0` or `\u`, gives a text that reads back to
the same expression once spans and parentheses are erased. -/
theorem printed_expression_reads_back {source : String} {e : Expr}
    (h : Expr.read source = .ok e) (hlit : e.Every Expr.PlainLiteral) :
    ∃ e', Expr.read e.text = .ok e' ∧ e'.erase = e.erase := by
  have hwhole := ((read_eq_ok_iff_derives (Expr.read_faults h)).2 e).mp h
  have hprint : e.Every Expr.Printable := (hwhole.shaped (lex_identsSpelled source)).and hlit
  obtain ⟨found, hview, hlex⟩ := Expr.lex_text hprint
  obtain ⟨e', herase, hpre, -⟩ := Expr.rereads e hprint found hview
  have hne : ∀ t ∈ found, t.kind ≠ .eof := by
    obtain ⟨ts, hts, hne⟩ := (lex_text_partition e.text).eof
    rw [hlex] at hts
    obtain ⟨rfl, -⟩ := List.append_inj' hts rfl
    exact hne
  refine ⟨e', ((read_eq_ok_iff_derives (by rw [hlex])).2 e').mpr ?_, herase⟩
  unfold IsWholeExpr
  rw [hlex, List.filter_append, List.filter_eq_self.mpr (by simpa using hne)]
  simpa using hpre.isExpr

namespace Expr

mutual
/-- Equality of trees node by node, floats compared by their bits. -/
def beq : Expr → Expr → Bool
  | int v s, int w t => v == w && s == t
  | float x s, float y t => x.toBits == y.toBits && s == t
  | str v s, str w t => v == w && s == t
  | ref n s, ref m t => n == m && s == t
  | ctor n s, ctor m t => n.name == m.name && n.span == m.span && s == t
  | array as s, array bs t => beqList as bs && s == t
  | paren a s, paren b t => beq a b && s == t
  | field a n s, field b m t => beq a b && n.name == m.name && n.span == m.span && s == t
  | index a i s, index b j t => beq a b && beq i j && s == t
  | call a as s, call b bs t => beq a b && beqList as bs && s == t
  | not a s, not b t => beq a b && s == t
  | binary op a c s, binary op' b d t => op == op' && beq a b && beq c d && s == t
  | assign a c s, assign b d t => beq a b && beq c d && s == t
  | _, _ => false
/-- `beq` on lists, element by element. -/
def beqList : List Expr → List Expr → Bool
  | [], [] => true
  | a :: as, b :: bs => beq a b && beqList as bs
  | _, _ => false
end

mutual
theorem eq_of_beq : ∀ {a b : Expr}, beq a b = true → a = b
  | int .., b, h | float .., b, h | str .., b, h | ref .., b, h | ctor .., b, h => by
    cases b <;> simp [beq] at h
    all_goals first
      | (obtain ⟨h₁, h₂⟩ := h; subst h₁ h₂; rfl)
      | (obtain ⟨⟨h₁, h₂⟩, h₃⟩ := h; cases ‹Ident›; subst h₁ h₂ h₃; rfl)
      | (obtain ⟨h₁, h₂⟩ := h; rw [Decimal.float_eq_of_toBits_eq h₁, h₂])
  | array .., b, h => by
    cases b <;> simp [beq] at h
    rw [eq_of_beqList h.1, h.2]
  | paren .., b, h | not .., b, h => by
    cases b <;> simp [beq] at h
    all_goals rw [eq_of_beq h.1, h.2]
  | field .., b, h => by
    cases b <;> simp [beq] at h
    obtain ⟨⟨⟨h₁, h₂⟩, h₃⟩, h₄⟩ := h
    rw [eq_of_beq h₁, h₄]
    congr 1
    exact Ident.mk.injEq .. ▸ ⟨h₂, h₃⟩
  | index .., b, h | assign .., b, h => by
    cases b <;> simp [beq] at h
    all_goals rw [eq_of_beq h.1.1, eq_of_beq h.1.2, h.2]
  | call .., b, h => by
    cases b <;> simp [beq] at h
    rw [eq_of_beq h.1.1, eq_of_beqList h.1.2, h.2]
  | binary .., b, h => by
    cases b <;> simp [beq] at h
    obtain ⟨⟨⟨h₁, h₂⟩, h₃⟩, h₄⟩ := h
    rw [h₁, eq_of_beq h₂, eq_of_beq h₃, h₄]

theorem eq_of_beqList : ∀ {as bs : List Expr}, beqList as bs = true → as = bs
  | [], bs, h => by cases bs <;> simp [beqList] at h ⊢
  | a :: as, bs, h => by
    cases bs <;> simp [beqList] at h
    rw [eq_of_beq h.1, eq_of_beqList h.2]
end

mutual
theorem beq_self : ∀ (a : Expr), beq a a = true
  | int .. | float .. | str .. | ref .. | ctor .. => by simp [beq]
  | array as _ => by simp [beq, beqList_self as]
  | paren a _ | not a _ | field a .. => by simp [beq, beq_self a]
  | index a b _ | assign a b _ | binary _ a b _ => by simp [beq, beq_self a, beq_self b]
  | call a as _ => by simp [beq, beq_self a, beqList_self as]

theorem beqList_self : ∀ (as : List Expr), beqList as as = true
  | [] => rfl
  | a :: as => by simp [beqList, beq_self a, beqList_self as]
end

instance : DecidableEq Expr := fun a b =>
  decidable_of_iff (a.beq b) ⟨eq_of_beq, fun h => h ▸ beq_self a⟩

end Expr

/-- `!f(x, "a\n").y || g == $P`, as the reader builds it. -/
def Expr.sampleOr : Expr :=
  .binary .or
    (.not (.field (.call (.ref "f" ⟨1, 2⟩) [.ref "x" ⟨3, 4⟩, .str "a\n" ⟨6, 11⟩] ⟨1, 12⟩)
      ⟨"y", ⟨13, 14⟩⟩ ⟨1, 14⟩) ⟨0, 14⟩)
    (.binary .eq (.ref "g" ⟨18, 19⟩) (.ctor ⟨"P", ⟨24, 25⟩⟩ ⟨23, 25⟩) ⟨18, 25⟩) ⟨0, 25⟩

theorem printed_expression_reads_back_sample :
    Expr.read "!f(x, \"a\\n\").y || g == $P" = .ok Expr.sampleOr ∧
      Expr.sampleOr.Every Expr.PlainLiteral ∧
      ∃ e', Expr.read Expr.sampleOr.text = .ok e' ∧ e'.erase = Expr.sampleOr.erase := by
  have hread : Expr.read "!f(x, \"a\\n\").y || g == $P" = .ok Expr.sampleOr := by
    have h : (Expr.read "!f(x, \"a\\n\").y || g == $P").toOption = some Expr.sampleOr := by
      decide +kernel
    cases hr : Expr.read "!f(x, \"a\\n\").y || g == $P" with
    | error => simp [hr, Except.toOption] at h
    | ok e => simp only [hr, Except.toOption, Option.some.injEq] at h; rw [h]
  have hlit : Expr.sampleOr.Every Expr.PlainLiteral := by
    simp [Expr.sampleOr, Expr.Every, Expr.EveryList, Expr.PlainLiteral, Text.WrittenPlain]
    decide +kernel
  exact ⟨hread, hlit, printed_expression_reads_back hread hlit⟩

end Sigh
