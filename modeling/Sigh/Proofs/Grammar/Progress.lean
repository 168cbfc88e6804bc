import Sigh.Proofs.Grammar.Sound

namespace Sigh

namespace Grammar

open Parse (levelOp?)

/-- No token of `S` is the end of input. -/
def NoEnd (S : List Token) : Prop := ∀ u ∈ S, u.kind ≠ .eof

namespace NoEnd

theorem nil : NoEnd [] := fun _ h => absurd h List.not_mem_nil

theorem cons {t : Token} {S : List Token} (ht : t.kind ≠ .eof) (hS : NoEnd S) : NoEnd (t :: S) :=
  List.forall_mem_cons.mpr ⟨ht, hS⟩

theorem append {S T : List Token} (hS : NoEnd S) (hT : NoEnd T) : NoEnd (S ++ T) :=
  List.forall_mem_append.mpr ⟨hS, hT⟩

end NoEnd

theorem IsTypeSuffixes.noEnd {start : Nat} {t r : TypeExpr} {S : List Token}
    (h : IsTypeSuffixes start t S r) : NoEnd S := by
  induction h with
  | done => exact .nil
  | more hlb hrb _ ih => exact .cons (by simp [hlb]) (.cons (by simp [hrb]) ih)

theorem IsType.noEnd {S : List Token} {t : TypeExpr} (h : IsType S t) : NoEnd S := by
  cases h with
  | mk hn hs => exact .cons (by simp [hn]) hs.noEnd

theorem IsBinding.noEnd {S : List Token} {b : Binding} (h : IsBinding S b) : NoEnd S := by
  cases h with
  | mk hn hc ht => exact .cons (by simp [hn]) (.cons (by simp [hc]) ht.noEnd)

theorem IsBindings.noEnd {S : List Token} {bs : List Binding} (h : IsBindings S bs) : NoEnd S := by
  induction h with
  | one hb => exact hb.noEnd
  | more hb hc _ ih => exact hb.noEnd.append (.cons (by simp [hc]) ih)

theorem IsParams.noEnd {S : List Token} {bs : List Binding} (h : IsParams S bs) : NoEnd S := by
  cases h with
  | nil => exact .nil
  | items hbs => exact hbs.noEnd

theorem IsResult.noEnd {S : List Token} {result : Option TypeExpr} (h : IsResult S result) :
    NoEnd S := by
  cases h with
  | none => exact .nil
  | some hc ht => exact .cons (by simp [hc]) ht.noEnd

theorem IsDims.noEnd {S : List Token} {ns : List Nat} (h : IsDims S ns) : NoEnd S := by
  induction h with
  | nil => exact .nil
  | more hlb hk _ hrb _ ih =>
    exact .cons (by simp [hlb]) (.cons (by simp [hk]) (.cons (by simp [hrb]) ih))

theorem kind_ne_eof_of_levelOp? {level : Nat} {t : Token} {op : BinOp}
    (h : levelOp? level t.kind = some op) : t.kind ≠ .eof := by
  intro heof
  rw [heof] at h
  cases level <;> simp [levelOp?] at h

mutual
theorem IsExpr.noEnd {S : List Token} {e : Expr} : IsExpr S e → NoEnd S
  | .operand hb, u, hu => hb.noEnd u hu
  | .assign hb heq hv, u, hu => hb.noEnd.append (.cons (by simp [heq]) hv.noEnd) u hu

theorem IsBinary.noEnd {level : Nat} {S : List Token} {e : Expr} : IsBinary level S e → NoEnd S
  | .mk ho hch, u, hu => ho.noEnd.append hch.noEnd u hu

theorem IsChain.noEnd {level : Nat} {left e : Expr} {S : List Token} :
    IsChain level left S e → NoEnd S
  | .done, u, hu => NoEnd.nil u hu
  | .more hop ho hch, u, hu =>
    NoEnd.cons (kind_ne_eof_of_levelOp? hop) (ho.noEnd.append hch.noEnd) u hu

theorem IsOperand.noEnd {level : Nat} {S : List Token} {e : Expr} : IsOperand level S e → NoEnd S
  | .tighter _ hb, u, hu => hb.noEnd u hu
  | .tightest _ hp, u, hu => hp.noEnd u hu

theorem IsPrefix.noEnd {S : List Token} {e : Expr} : IsPrefix S e → NoEnd S
  | .not hbang hp, u, hu => NoEnd.cons (by simp [hbang]) hp.noEnd u hu
  | .suffix hs, u, hu => hs.noEnd u hu

theorem IsSuffix.noEnd {S : List Token} {e : Expr} : IsSuffix S e → NoEnd S
  | .mk hb hs, u, hu => hb.noEnd.append hs.noEnd u hu

theorem IsSuffixes.noEnd {b r : Expr} {S : List Token} : IsSuffixes b S r → NoEnd S
  | .done, u, hu => NoEnd.nil u hu
  | .field hdot hn hs, u, hu => NoEnd.cons (by simp [hdot]) (.cons (by simp [hn]) hs.noEnd) u hu
  | .index hlb hi hrb hs, u, hu =>
    (NoEnd.cons (by simp [hlb]) hi.noEnd).append (.cons (by simp [hrb]) hs.noEnd) u hu
  | .call hlp ha hrp hs, u, hu =>
    (NoEnd.cons (by simp [hlp]) ha.noEnd).append (.cons (by simp [hrp]) hs.noEnd) u hu

theorem IsBasic.noEnd {S : List Token} {e : Expr} : IsBasic S e → NoEnd S
  | .ctor hd hn, u, hu => NoEnd.cons (by simp [hd]) (.cons (by simp [hn]) .nil) u hu
  | .ref ht, u, hu => NoEnd.cons (by simp [ht]) .nil u hu
  | .int ht _, u, hu => NoEnd.cons (by simp [ht]) .nil u hu
  | .negInt hm ht _, u, hu => NoEnd.cons (by simp [hm]) (.cons (by simp [ht]) .nil) u hu
  | .float ht, u, hu => NoEnd.cons (by simp [ht]) .nil u hu
  | .negFloat hm ht, u, hu => NoEnd.cons (by simp [hm]) (.cons (by simp [ht]) .nil) u hu
  | .str ht, u, hu => NoEnd.cons (by simp [ht]) .nil u hu
  | .paren hlp he hrp, u, hu =>
    (NoEnd.cons (by simp [hlp]) he.noEnd).append (.cons (by simp [hrp]) .nil) u hu
  | .array hlb ha hrb, u, hu =>
    (NoEnd.cons (by simp [hlb]) ha.noEnd).append (.cons (by simp [hrb]) .nil) u hu

theorem IsArgs.noEnd {S : List Token} {es : List Expr} : IsArgs S es → NoEnd S
  | .nil, u, hu => NoEnd.nil u hu
  | .items hi, u, hu => hi.noEnd u hu

theorem IsItems.noEnd {S : List Token} {es : List Expr} : IsItems S es → NoEnd S
  | .one he, u, hu => he.noEnd u hu
  | .more he hc hi, u, hu => he.noEnd.append (.cons (by simp [hc]) hi.noEnd) u hu
end

mutual
theorem IsStmt.noEnd {S : List Token} {s : Stmt} : IsStmt S s → NoEnd S
  | .mk hf _, u, hu => hf.noEnd u hu

theorem IsForm.noEnd {S : List Token} {mk : Span → Stmt} : IsForm S mk → NoEnd S
  | .block hb, u, hu => hb.noEnd u hu
  | .var hv hn hc hty heq hinit, u, hu =>
    (NoEnd.cons (by simp [hv]) (.cons (by simp [hn]) (.cons (by simp [hc]) hty.noEnd))).append
      (.cons (by simp [heq]) hinit.noEnd) u hu
  | .sizedArray hv hn hc hb hd _ _, u, hu =>
    NoEnd.cons (by simp [hv]) (.cons (by simp [hn]) (.cons (by simp [hc]) (.cons (by simp [hb])
      hd.noEnd))) u hu
  | .fnDecl hf, u, hu => hf.noEnd u hu
  | .structDecl hs, u, hu => hs.noEnd u hu
  | .ifThen hi hc _ ht, u, hu => (NoEnd.cons (by simp [hi]) hc.noEnd).append ht.noEnd u hu
  | .ifElse hi hc _ ht _ hel he, u, hu =>
    ((NoEnd.cons (by simp [hi]) hc.noEnd).append ht.noEnd).append
      (.cons (by simp [hel]) he.noEnd) u hu
  | .whileLoop hw hc _ hb, u, hu => (NoEnd.cons (by simp [hw]) hc.noEnd).append hb.noEnd u hu
  | .ret hr, u, hu => NoEnd.cons (by simp [hr]) .nil u hu
  | .retValue hr he, u, hu => NoEnd.cons (by simp [hr]) he.noEnd u hu
  | .expr he, u, hu => he.noEnd u hu

theorem IsStmts.noEnd {S : List Token} {ss : List Stmt} : IsStmts S ss → NoEnd S
  | .nil, u, hu => NoEnd.nil u hu
  | .cons hs hss _, u, hu => hs.noEnd.append hss.noEnd u hu

theorem IsBlock.noEnd {S : List Token} {body : List Stmt} {span : Span} :
    IsBlock S body span → NoEnd S
  | .mk hlb hss hrb, u, hu =>
    (NoEnd.cons (by simp [hlb]) hss.noEnd).append (.cons (by simp [hrb]) .nil) u hu

theorem IsFun.noEnd {S : List Token} {d : FunDecl} : IsFun S d → NoEnd S
  | .mk hf hn hlp hps hrp hres hb, u, hu =>
    ((NoEnd.cons (by simp [hf]) (.cons (by simp [hn]) (.cons (by simp [hlp]) hps.noEnd))).append
      (.cons (by simp [hrp]) hres.noEnd)).append hb.noEnd u hu

theorem IsStruct.noEnd {S : List Token} {d : StructDecl} : IsStruct S d → NoEnd S
  | .mk hs hn hlb hm hrb, u, hu =>
    (NoEnd.cons (by simp [hs]) (.cons (by simp [hn]) (.cons (by simp [hlb]) hm.noEnd))).append
      (.cons (by simp [hrb]) .nil) u hu

theorem IsMembers.noEnd {S : List Token} {fields : List Binding} {methods : List FunDecl} :
    IsMembers S fields methods → NoEnd S
  | .nil, u, hu => NoEnd.nil u hu
  | .field hv hb hm, u, hu => (NoEnd.cons (by simp [hv]) hb.noEnd).append hm.noEnd u hu
  | .method hf hm, u, hu => hf.noEnd.append hm.noEnd u hu
end

end Grammar

namespace Parse

open Grammar

/-- Reading went from `c` to `d` by taking at least one token, none of them the end of input. -/
def Advances (c d : Cursor) : Prop := ∃ S, Reads c S d ∧ S ≠ [] ∧ NoEnd S

theorem statement_advances {c : Cursor} {s : Stmt} {d : Ahead c} (h : statement c = .ok (s, d)) :
    Advances c d.1 := by
  obtain ⟨S, r, hS, -⟩ := (stmtReaders_sound c).statement _ _ h
  exact ⟨S, r, r.ne_nil d.2, hS.noEnd⟩

theorem expression_advances {c : Cursor} {e : Expr} {d : Ahead c} (h : expression c = .ok (e, d)) :
    Advances c d.1 := by
  obtain ⟨S, r, hS, -⟩ := (exprReaders_sound c).expression _ _ h
  exact ⟨S, r, r.ne_nil d.2, hS.noEnd⟩

theorem programItems_length {c : Cursor} {acc : Array Stmt} {ss : List Stmt} {d : Within c}
    (h : programItems c acc = .ok (ss, d)) :
    ss.length + d.1.rest.length ≤ acc.size + c.rest.length := by
  induction c, acc using programItems.induct generalizing ss with
  | case1 c acc he =>
    rw [programItems, he] at h
    cases h
    simp
  | case2 c acc he ih =>
    rw [programItems] at h
    split at h
    next hk => exact absurd hk he
    next =>
      obtain ⟨⟨s, c1, h1⟩, hs, h⟩ := bind_eq_ok.mp h
      obtain ⟨⟨ss', c2, h2⟩, hr, h⟩ := bind_eq_ok.mp h
      cases h
      obtain ⟨S, r, hne, -⟩ := statement_advances hs
      have hlt := r.length_lt hne
      have := ih s c1 h1 hr
      simp only [Array.size_push] at this
      dsimp only at hlt ⊢
      omega

end Parse

open Parse Grammar in
/-- The reader always makes progress. Reading a statement or an expression, from any cursor,
either fails or takes at least one token off the front of what is left, never the end of input;
so every descent into a statement or an expression and every turn of the loops that read them
reads on, and a program holds at most one statement per token of its text. -/
theorem reading_always_advances :
    (∀ (c : Cursor) s d, statement c = .ok (s, d) → Advances c d.1) ∧
      (∀ (c : Cursor) e d, expression c = .ok (e, d) → Advances c d.1) ∧
      ∀ tokens p, Program.ofTokens tokens = .ok p →
        p.statements.length ≤ (tokens.filter (·.kind ≠ .eof)).length := by
  refine ⟨fun _ _ _ h => statement_advances h, fun _ _ _ h => expression_advances h,
    fun tokens p h => ?_⟩
  unfold Program.ofTokens at h
  obtain ⟨⟨first, c1, h1⟩, hs, h⟩ := bind_eq_ok.mp h
  obtain ⟨⟨more, c2, h2⟩, hr, h⟩ := bind_eq_ok.mp h
  cases h
  have hmore := programItems_length hr
  simp only [Array.size_empty] at hmore
  have hstart : (Cursor.start tokens).rest.length = (tokens.filter (·.kind ≠ .eof)).length := rfl
  simp only [List.length_cons]
  omega

open Parse Grammar in
theorem return_statement_reads_on :
    (∃ s d, statement (Cursor.start (lex "return x").tokens) = .ok (s, d) ∧
      Advances (Cursor.start (lex "return x").tokens) d.1) ∧
    ∃ p, Program.ofTokens (lex "return x").tokens = .ok p ∧
      p.statements.length ≤ ((lex "return x").tokens.filter (·.kind ≠ .eof)).length := by
  obtain ⟨hst, -, hprog⟩ := reading_always_advances
  obtain ⟨⟨s, d⟩, hs⟩ := exists_eq_ok_of_isSome
    (x := statement (Cursor.start (lex "return x").tokens)) (by decide +kernel)
  obtain ⟨p, hp⟩ := exists_eq_ok_of_isSome
    (x := Program.ofTokens (lex "return x").tokens) (by decide +kernel)
  exact ⟨⟨s, d, hs, hst _ _ _ hs⟩, p, hp, hprog _ _ hp⟩

end Sigh
