import Sigh.Proofs.Grammar.Complete
import Sigh.Proofs.Lexing.Partition

namespace Sigh

/-- The span from the start of the first of the tokens to the end of the last. -/
def Span.extent (S : List Token) : Span :=
  ⟨(S.head?.map (·.span.start)).getD 0, (S.getLast?.map (·.span.stop)).getD 0⟩

/-- Tokens that each cover at least one byte, each ending where the next starts or before. -/
structure InOrder (S : List Token) : Prop where
  nonempty : ∀ t ∈ S, t.span.start < t.span.stop
  ordered : (S.map (·.span)).Pairwise Span.Precedes

/-- A name spans the identifier it is written with. -/
def IdentExtent (t : Token) (name : Ident) : Prop := name.span = Span.extent [t]

/-- The tokens of a written type: its name, then `[` and `]` for each level, each level spanning
from the name to its `]`. -/
inductive TypeExtent : List Token → TypeExpr → Prop
  | named {t : Token} {name : String} {sp : Span} : sp = Span.extent [t] →
      TypeExtent [t] (.named name sp)
  | array {S : List Token} {c : TypeExpr} {lb rb : Token} {sp : Span} : TypeExtent S c →
      sp = Span.extent (S ++ [lb, rb]) → TypeExtent (S ++ [lb, rb]) (.array c sp)

/-- `name: Type`. -/
inductive BindingExtent : List Token → Binding → Prop
  | mk {n col : Token} {S : List Token} {name : Ident} {ty : TypeExpr} : IdentExtent n name →
      TypeExtent S ty → BindingExtent (n :: col :: S) ⟨name, ty⟩

/-- Bindings separated by commas, possibly none. -/
inductive BindingsExtent : List Token → List Binding → Prop
  | nil : BindingsExtent [] []
  | one {S : List Token} {b : Binding} : BindingExtent S b → BindingsExtent S [b]
  | more {S₁ S₂ : List Token} {b : Binding} {bs : List Binding} {comma : Token} :
      BindingExtent S₁ b → BindingsExtent S₂ bs → bs ≠ [] → BindingsExtent (S₁ ++ comma :: S₂) (b :: bs)

/-- A colon and the result type, or nothing. -/
inductive ResultExtent : List Token → Option TypeExpr → Prop
  | none : ResultExtent [] none
  | some {col : Token} {S : List Token} {t : TypeExpr} : TypeExtent S t →
      ResultExtent (col :: S) (some t)

mutual
/-- The tokens of an expression, whose span is their extent. -/
inductive ExprExtent : List Token → Expr → Prop
  | int {t : Token} {v : Int64} {sp : Span} : sp = Span.extent [t] → ExprExtent [t] (.int v sp)
  | negInt {m t : Token} {v : Int64} {sp : Span} : sp = Span.extent [m, t] →
      ExprExtent [m, t] (.int v sp)
  | float {t : Token} {v : Float} {sp : Span} : sp = Span.extent [t] →
      ExprExtent [t] (.float v sp)
  | negFloat {m t : Token} {v : Float} {sp : Span} : sp = Span.extent [m, t] →
      ExprExtent [m, t] (.float v sp)
  | str {t : Token} {v : String} {sp : Span} : sp = Span.extent [t] → ExprExtent [t] (.str v sp)
  | ref {t : Token} {name : String} {sp : Span} : sp = Span.extent [t] →
      ExprExtent [t] (.ref name sp)
  | ctor {d n : Token} {name : Ident} {sp : Span} : IdentExtent n name →
      sp = Span.extent [d, n] → ExprExtent [d, n] (.ctor name sp)
  | array {lb rb : Token} {S : List Token} {items : List Expr} {sp : Span} :
      ItemsExtent S items → sp = Span.extent (lb :: S ++ [rb]) →
      ExprExtent (lb :: S ++ [rb]) (.array items sp)
  | paren {lp rp : Token} {S : List Token} {e : Expr} {sp : Span} : ExprExtent S e →
      sp = Span.extent (lp :: S ++ [rp]) → ExprExtent (lp :: S ++ [rp]) (.paren e sp)
  | field {S : List Token} {dot n : Token} {e : Expr} {name : Ident} {sp : Span} :
      ExprExtent S e → IdentExtent n name → sp = Span.extent (S ++ [dot, n]) →
      ExprExtent (S ++ [dot, n]) (.field e name sp)
  | index {S₁ S₂ : List Token} {lb rb : Token} {a i : Expr} {sp : Span} : ExprExtent S₁ a →
      ExprExtent S₂ i → sp = Span.extent (S₁ ++ lb :: S₂ ++ [rb]) →
      ExprExtent (S₁ ++ lb :: S₂ ++ [rb]) (.index a i sp)
  | call {S₁ S₂ : List Token} {lp rp : Token} {f : Expr} {args : List Expr} {sp : Span} :
      ExprExtent S₁ f → ItemsExtent S₂ args → sp = Span.extent (S₁ ++ lp :: S₂ ++ [rp]) →
      ExprExtent (S₁ ++ lp :: S₂ ++ [rp]) (.call f args sp)
  | not {bang : Token} {S : List Token} {e : Expr} {sp : Span} : ExprExtent S e →
      sp = Span.extent (bang :: S) → ExprExtent (bang :: S) (.not e sp)
  | binary {S₁ S₂ : List Token} {t : Token} {op : BinOp} {l r : Expr} {sp : Span} :
      ExprExtent S₁ l → ExprExtent S₂ r → sp = Span.extent (S₁ ++ t :: S₂) →
      ExprExtent (S₁ ++ t :: S₂) (.binary op l r sp)
  | assign {S₁ S₂ : List Token} {eq : Token} {l r : Expr} {sp : Span} : ExprExtent S₁ l →
      ExprExtent S₂ r → sp = Span.extent (S₁ ++ eq :: S₂) →
      ExprExtent (S₁ ++ eq :: S₂) (.assign l r sp)
/-- Expressions separated by commas, possibly none. -/
inductive ItemsExtent : List Token → List Expr → Prop
  | nil : ItemsExtent [] []
  | one {S : List Token} {e : Expr} : ExprExtent S e → ItemsExtent S [e]
  | more {S₁ S₂ : List Token} {e : Expr} {es : List Expr} {comma : Token} : ExprExtent S₁ e →
      ItemsExtent S₂ es → es ≠ [] → ItemsExtent (S₁ ++ comma :: S₂) (e :: es)
end

mutual
/-- The tokens of a statement, whose span is their extent. -/
inductive StmtExtent : List Token → Stmt → Prop
  | block {S : List Token} {body : List Stmt} {span sp : Span} : BlockExtent S body span →
      sp = Span.extent S → StmtExtent S (.block body sp)
  | var {v n col eq : Token} {S₁ S₂ : List Token} {name : Ident} {ty : TypeExpr} {init : Expr}
      {sp : Span} : IdentExtent n name → TypeExtent S₁ ty → ExprExtent S₂ init →
      sp = Span.extent (v :: n :: col :: S₁ ++ eq :: S₂) →
      StmtExtent (v :: n :: col :: S₁ ++ eq :: S₂) (.var name ty init sp)
  | sizedArray {v n col b : Token} {D : List Token} {name : Ident} {element : TypeExpr}
      {dims : List Nat} {sp : Span} : IdentExtent n name → TypeExtent [b] element →
      sp = Span.extent (v :: n :: col :: b :: D) →
      StmtExtent (v :: n :: col :: b :: D) (.sizedArray name element dims sp)
  | fnDecl {S : List Token} {d : FunDecl} {sp : Span} : FunExtent S d → sp = Span.extent S →
      StmtExtent S (.fnDecl d sp)
  | structDecl {S : List Token} {d : StructDecl} {sp : Span} : StructExtent S d →
      sp = Span.extent S → StmtExtent S (.structDecl d sp)
  | ifThen {i : Token} {S₁ S₂ : List Token} {c : Expr} {t : Stmt} {sp : Span} : ExprExtent S₁ c →
      StmtExtent S₂ t → sp = Span.extent (i :: S₁ ++ S₂) →
      StmtExtent (i :: S₁ ++ S₂) (.ifElse c t none sp)
  | ifElse {i el : Token} {S₁ S₂ S₃ : List Token} {c : Expr} {t e : Stmt} {sp : Span} :
      ExprExtent S₁ c → StmtExtent S₂ t → StmtExtent S₃ e →
      sp = Span.extent (i :: S₁ ++ S₂ ++ el :: S₃) →
      StmtExtent (i :: S₁ ++ S₂ ++ el :: S₃) (.ifElse c t (some e) sp)
  | whileLoop {w : Token} {S₁ S₂ : List Token} {c : Expr} {b : Stmt} {sp : Span} :
      ExprExtent S₁ c → StmtExtent S₂ b → sp = Span.extent (w :: S₁ ++ S₂) →
      StmtExtent (w :: S₁ ++ S₂) (.whileLoop c b sp)
  | ret {r : Token} {sp : Span} : sp = Span.extent [r] → StmtExtent [r] (.ret none sp)
  | retValue {r : Token} {S : List Token} {e : Expr} {sp : Span} : ExprExtent S e →
      sp = Span.extent (r :: S) → StmtExtent (r :: S) (.ret (some e) sp)
  | expr {S : List Token} {e : Expr} {sp : Span} : ExprExtent S e → sp = Span.extent S →
      StmtExtent S (.expr e sp)
/-- Statements side by side. -/
inductive StmtsExtent : List Token → List Stmt → Prop
  | nil : StmtsExtent [] []
  | cons {S₁ S₂ : List Token} {s : Stmt} {ss : List Stmt} : StmtExtent S₁ s →
      StmtsExtent S₂ ss → StmtsExtent (S₁ ++ S₂) (s :: ss)
/-- Statements between braces, and the span of the braces. -/
inductive BlockExtent : List Token → List Stmt → Span → Prop
  | mk {lb rb : Token} {S : List Token} {body : List Stmt} {sp : Span} : StmtsExtent S body →
      sp = Span.extent (lb :: S ++ [rb]) → BlockExtent (lb :: S ++ [rb]) body sp
/-- `fun name(params): Result { body }`, its body spanning the braces. -/
inductive FunExtent : List Token → FunDecl → Prop
  | mk {f n lp rp : Token} {S₁ S₂ S₃ : List Token} {name : Ident} {ps : List Binding}
      {result : Option TypeExpr} {body : List Stmt} {bodySpan : Span} : IdentExtent n name →
      BindingsExtent S₁ ps → ResultExtent S₂ result → BlockExtent S₃ body bodySpan →
      FunExtent (f :: n :: lp :: S₁ ++ rp :: S₂ ++ S₃) ⟨name, ps, result, body, bodySpan⟩
/-- `struct Name { members }`. -/
inductive StructExtent : List Token → StructDecl → Prop
  | mk {s n lb rb : Token} {S : List Token} {name : Ident} {fields : List Binding}
      {methods : List FunDecl} : IdentExtent n name → MembersExtent S fields methods →
      StructExtent (s :: n :: lb :: S ++ [rb]) ⟨name, fields, methods⟩
/-- Fields `var name: Type` and methods in the order written, each list keeping its order. -/
inductive MembersExtent : List Token → List Binding → List FunDecl → Prop
  | nil : MembersExtent [] [] []
  | field {v : Token} {S₁ S₂ : List Token} {b : Binding} {fields : List Binding}
      {methods : List FunDecl} : BindingExtent S₁ b → MembersExtent S₂ fields methods →
      MembersExtent (v :: S₁ ++ S₂) (b :: fields) methods
  | method {S₁ S₂ : List Token} {d : FunDecl} {fields : List Binding} {methods : List FunDecl} :
      FunExtent S₁ d → MembersExtent S₂ fields methods →
      MembersExtent (S₁ ++ S₂) fields (d :: methods)
end

/-- The statements of a program span its tokens, and so does the program. -/
def ProgramExtent (S : List Token) (p : Program) : Prop :=
  StmtsExtent S p.statements ∧ p.span = Span.extent S

theorem ExprExtent.span_eq {S : List Token} {e : Expr} (h : ExprExtent S e) :
    e.span = Span.extent S := by
  cases h <;> assumption

theorem TypeExtent.span_eq {S : List Token} {t : TypeExpr} (h : TypeExtent S t) :
    t.span = Span.extent S := by
  cases h <;> assumption

theorem ExprExtent.ne_nil {S : List Token} {e : Expr} (h : ExprExtent S e) : S ≠ [] := by
  cases h <;> simp

theorem TypeExtent.ne_nil {S : List Token} {t : TypeExpr} (h : TypeExtent S t) : S ≠ [] := by
  cases h <;> simp

namespace Span

theorem extent_singleton (t : Token) : extent [t] = t.span := rfl

theorem extent_cons_start (t : Token) (S : List Token) : (extent (t :: S)).start = t.span.start :=
  rfl

theorem extent_append_start {S : List Token} (T : List Token) (hS : S ≠ []) :
    (extent (S ++ T)).start = (extent S).start := by
  obtain ⟨t, S, rfl⟩ := List.exists_cons_of_ne_nil hS
  rfl

theorem extent_append_stop (S : List Token) {T : List Token} (hT : T ≠ []) :
    (extent (S ++ T)).stop = (extent T).stop := by
  simp [extent, List.getLast?_append_of_ne_nil _ hT]

end Span

namespace InOrder

theorem part {S U : List Token} (h : InOrder U) (a b : List Token) (hU : a ++ S ++ b = U) :
    InOrder S where
  nonempty t ht := h.nonempty t (hU ▸ by simp [ht])
  ordered := h.ordered.sublist ((List.IsInfix.sublist ⟨a, b, hU⟩).map _)

theorem precedes {S T : List Token} (h : InOrder (S ++ T)) {a b : Token} (ha : a ∈ S)
    (hb : b ∈ T) : a.span.Precedes b.span := by
  have hp := h.ordered
  rw [List.map_append, List.pairwise_append] at hp
  exact hp.2.2 _ (List.mem_map_of_mem ha) _ (List.mem_map_of_mem hb)

theorem extent_lt {S : List Token} (h : InOrder S) (hS : S ≠ []) :
    (Span.extent S).start < (Span.extent S).stop := by
  obtain ⟨f, V, rfl⟩ := List.exists_cons_of_ne_nil hS
  have hlast := List.getLast?_eq_some_getLast (List.cons_ne_nil f V)
  have hf := h.nonempty f List.mem_cons_self
  simp only [Span.extent, List.head?_cons, Option.map_some, Option.getD_some, hlast]
  cases V with
  | nil => exact hf
  | cons g W =>
    have hl := h.nonempty _ (List.getLast_mem (List.cons_ne_nil f (g :: W)))
    have hp : f.span.Precedes ((f :: g :: W).getLast (List.cons_ne_nil _ _)).span := by
      rw [List.getLast_cons (List.cons_ne_nil g W)]
      exact precedes (S := [f]) (T := g :: W) h List.mem_cons_self (List.getLast_mem _)
    unfold Span.Precedes at hp
    omega

theorem upTo_extent {U : List Token} (h : InOrder U) (L : List Token) {M : List Token}
    (hU : U = L ++ M) (hL : L ≠ []) {l : Token} (hl : U.getLast? = some l) :
    Span.upTo (Span.extent L).start l = Span.extent U := by
  have hne : U ≠ [] := by rw [hU]; simp [hL]
  have hlt := h.extent_lt hne
  have hstart : (Span.extent U).start = (Span.extent L).start := by
    rw [hU, Span.extent_append_start _ hL]
  have hstop : (Span.extent U).stop = l.span.stop := by simp [Span.extent, hl]
  rw [Span.upTo, ← hstart, ← hstop, Nat.max_eq_left (Nat.le_of_lt hlt)]

theorem merge_extent {U : List Token} (h : InOrder U) (S M T : List Token)
    (hU : U = S ++ M ++ T) (hS : S ≠ []) (hT : T ≠ []) :
    (Span.extent S).merge (Span.extent T) = Span.extent U := by
  have h' : InOrder (S ++ (M ++ T)) := by rw [← List.append_assoc, ← hU]; exact h
  have hmem : ∀ t ∈ T, t ∈ M ++ T := fun t ht => List.mem_append_right M ht
  have hstart : (Span.extent S).start ≤ (Span.extent T).start := by
    obtain ⟨f, S', rfl⟩ := List.exists_cons_of_ne_nil hS
    obtain ⟨g, T', rfl⟩ := List.exists_cons_of_ne_nil hT
    have hp := h'.precedes List.mem_cons_self (hmem g List.mem_cons_self)
    have hf := h'.nonempty f List.mem_cons_self
    unfold Span.Precedes at hp
    simp only [Span.extent_cons_start]
    omega
  have hstop : (Span.extent S).stop ≤ (Span.extent T).stop := by
    have hp := h'.precedes (List.getLast_mem hS) (hmem _ (List.getLast_mem hT))
    have hl := h'.nonempty _ (List.mem_append_right S (hmem _ (List.getLast_mem hT)))
    unfold Span.Precedes at hp
    simp only [Span.extent, List.getLast?_eq_some_getLast hS, List.getLast?_eq_some_getLast hT,
      Option.map_some, Option.getD_some]
    omega
  have hU' : U = S ++ (M ++ T) := by rw [hU, List.append_assoc]
  rw [Span.merge, Nat.min_eq_left hstart, Nat.max_eq_right hstop, hU',
    ← Span.extent_append_start (M ++ T) hS, ← Span.extent_append_stop M hT,
    ← Span.extent_append_stop S (by simp [hT])]

theorem ofTokens_eq {S : List Token} (h : InOrder S) : Span.ofTokens S = Span.extent S := by
  cases S with
  | nil => rfl
  | cons t rest =>
    have hl : (t :: rest).getLast? = some (rest.getLast?.getD t) := by
      cases hr : rest.getLast? with
      | none => simp [List.getLast?_eq_none_iff.mp hr]
      | some l => simp [List.getLast?_cons, hr]
    exact h.upTo_extent [t] (List.singleton_append) (List.cons_ne_nil _ _) hl

theorem start_le_of_append {a S : List Token} (h : InOrder (a ++ S)) (hS : S ≠ []) :
    (Span.extent (a ++ S)).start ≤ (Span.extent S).start := by
  cases a with
  | nil => exact Nat.le_refl _
  | cons f a =>
    obtain ⟨g, S', rfl⟩ := List.exists_cons_of_ne_nil hS
    have hp := h.precedes List.mem_cons_self List.mem_cons_self
    have hf := h.nonempty f List.mem_cons_self
    unfold Span.Precedes at hp
    simp only [List.cons_append, Span.extent_cons_start]
    omega

theorem stop_le_of_append {S b : List Token} (h : InOrder (S ++ b)) (hS : S ≠ []) :
    (Span.extent S).stop ≤ (Span.extent (S ++ b)).stop := by
  cases b with
  | nil => simp
  | cons g b =>
    have hb := List.cons_ne_nil g b
    have hp := h.precedes (List.getLast_mem hS) (List.getLast_mem hb)
    have hl := h.nonempty _ (List.mem_append_right S (List.getLast_mem hb))
    unfold Span.Precedes at hp
    rw [Span.extent_append_stop S hb]
    simp only [Span.extent, List.getLast?_eq_some_getLast hS, List.getLast?_eq_some_getLast hb,
      Option.map_some, Option.getD_some]
    omega

theorem sub {S U : List Token} (h : InOrder U) (hi : S <:+: U) : InOrder S := by
  obtain ⟨a, b, rfl⟩ := hi
  exact h.part a b rfl

theorem extent_within {S U : List Token} (h : InOrder U) (hi : S <:+: U) (hS : S ≠ []) :
    (Span.extent S).Within (Span.extent U) := by
  obtain ⟨a, b, rfl⟩ := hi
  refine ⟨?_, ?_⟩
  · rw [Span.extent_append_start b (by simp [hS])]
    exact start_le_of_append (h.part [] b (by simp)) hS
  · rw [List.append_assoc, Span.extent_append_stop a (by simp [hS])]
    exact stop_le_of_append (h.part a [] (by simp)) hS

theorem extent_precedes {S M T : List Token} (h : InOrder (S ++ M ++ T)) (hS : S ≠ [])
    (hT : T ≠ []) : (Span.extent S).Precedes (Span.extent T) := by
  have h' : InOrder (S ++ (M ++ T)) := by rw [← List.append_assoc]; exact h
  obtain ⟨g, T', rfl⟩ := List.exists_cons_of_ne_nil hT
  have hp := h'.precedes (List.getLast_mem hS) (List.mem_append_right M List.mem_cons_self)
  simpa [Span.Precedes, Span.extent, List.getLast?_eq_some_getLast hS] using hp

end InOrder

theorem Span.extent_fits32 {S : List Token} (h : ∀ t ∈ S, t.span.Fits32) :
    (Span.extent S).Fits32 := by
  constructor
  · cases hS : S.head? with
    | none => simp [Span.extent, hS]
    | some t => simpa [Span.extent, hS] using (h t (List.mem_of_mem_head? hS)).1
  · cases hS : S.getLast? with
    | none => simp [Span.extent, hS]
    | some t => simpa [Span.extent, hS] using (h t (List.mem_of_getLast? hS)).2

theorem lex_tokens_inOrder (source : String) :
    InOrder ((lex source).tokens.filter (·.kind ≠ .eof)) ∧
      ∀ t ∈ (lex source).tokens.filter (·.kind ≠ .eof), t.span.stop ≤ source.utf8ByteSize := by
  obtain ⟨ps, htiles, hrun⟩ := Scan.run_tiles source.toList 0 #[] #[]
  have hL : (lex source).tokens = ps.flatMap Scan.Piece.tokens ++
      [⟨.eof, ⟨source.utf8ByteSize, source.utf8ByteSize⟩, ""⟩] := by
    rw [lex, hrun]
    simp [Scan.utf8ByteSize_eq_width]
  have hfilter : (lex source).tokens.filter (·.kind ≠ .eof) = ps.flatMap Scan.Piece.tokens := by
    rw [hL, List.filter_append, List.filter_eq_self.mpr, List.filter_eq_nil_iff.mpr]
    · simp
    · simp
    · intro t ht
      obtain ⟨_, _, _, _, _, hs, _⟩ := htiles.tokens_spelled t ht
      have hk : t.kind ≠ .eof := fun hk => by rw [hk] at hs; exact hs
      simpa using hk
  obtain ⟨hbounds, hordered⟩ := htiles.spans_ordered
  have hsub : List.Sublist ((ps.flatMap Scan.Piece.tokens).map (·.span))
      (ps.flatMap Scan.Piece.spans) := by
    rw [List.map_flatMap]
    exact List.Sublist.flatMap_right _ fun _ _ => List.sublist_append_left _ _
  have hmem : ∀ t ∈ ps.flatMap Scan.Piece.tokens, t.span ∈ ps.flatMap Scan.Piece.spans :=
    fun t ht => hsub.subset (List.mem_map_of_mem ht)
  rw [hfilter]
  refine ⟨⟨fun t ht => (hbounds _ (hmem t ht)).2.1, hordered.sublist hsub⟩, fun t ht => ?_⟩
  have := (hbounds _ (hmem t ht)).2.2
  rw [Scan.utf8ByteSize_eq_width]
  omega

namespace Grammar

theorem IsTypeSuffixes.extent {start : Nat} {t r : TypeExpr} {S L : List Token}
    (hs : IsTypeSuffixes start t S r) (ht : TypeExtent L t) (hstart : start = (Span.extent L).start)
    (h : InOrder (L ++ S)) : TypeExtent (L ++ S) r := by
  induction hs generalizing L with
  | done => simpa using ht
  | @more t S r lb rb _ _ _ ih =>
    have hlevel : TypeExtent (L ++ [lb, rb]) (.array t (Span.upTo start rb)) :=
      .array ht (by rw [hstart]; exact (h.part [] S (by simp)).upTo_extent L rfl ht.ne_nil (by simp))
    have hnext := ih hlevel (by rw [Span.extent_append_start _ ht.ne_nil, hstart])
      (by simpa using h)
    simpa using hnext

theorem IsType.extent {S : List Token} {t : TypeExpr} (hS : IsType S t) (h : InOrder S) :
    TypeExtent S t := by
  cases hS with
  | @mk S t n _ hs => exact hs.extent (L := [n]) (.named rfl) rfl h

theorem IsBinding.extent {S : List Token} {b : Binding} (hS : IsBinding S b) (h : InOrder S) :
    BindingExtent S b := by
  cases hS with
  | @mk S t n col _ _ ht => exact .mk rfl (ht.extent (h.part [n, col] [] (by simp)))

theorem IsBindings.ne_nil {S : List Token} {bs : List Binding} (h : IsBindings S bs) : bs ≠ [] := by
  cases h <;> simp

theorem IsBindings.extent {S : List Token} {bs : List Binding} (hS : IsBindings S bs)
    (h : InOrder S) : BindingsExtent S bs := by
  induction hS with
  | one hb => exact .one (hb.extent h)
  | @more S₁ S₂ b bs comma hb _ hbs ih =>
    exact .more (hb.extent (h.part [] (comma :: S₂) (by simp)))
      (ih (h.part (S₁ ++ [comma]) [] (by simp))) hbs.ne_nil

theorem IsParams.extent {S : List Token} {bs : List Binding} (hS : IsParams S bs)
    (h : InOrder S) : BindingsExtent S bs := by
  cases hS with
  | nil => exact .nil
  | items hbs => exact hbs.extent h

theorem IsResult.extent {S : List Token} {result : Option TypeExpr} (hS : IsResult S result)
    (h : InOrder S) : ResultExtent S result := by
  cases hS with
  | none => exact .none
  | @some S t col _ ht => exact .some (ht.extent (h.part [col] [] (by simp)))

theorem IsItems.ne_nil {S : List Token} {es : List Expr} (h : IsItems S es) : es ≠ [] := by
  cases h <;> simp

mutual
theorem IsExpr.extent {S : List Token} {e : Expr} : IsExpr S e → InOrder S → ExprExtent S e
  | .operand hb, h => hb.extent h
  | @IsExpr.assign S₁ S₂ _ _ eq hb _ hv, h =>
    have hl := hb.extent (h.part [] (eq :: S₂) (by simp))
    have hr := hv.extent (h.part (S₁ ++ [eq]) [] (by simp))
    .assign hl hr (by
      rw [hl.span_eq, hr.span_eq]
      exact h.merge_extent S₁ [eq] S₂ (by simp) hl.ne_nil hr.ne_nil)

theorem IsBinary.extent {level : Nat} {S : List Token} {e : Expr} :
    IsBinary level S e → InOrder S → ExprExtent S e
  | @IsBinary.mk _ S₁ S₂ _ _ ho hch, h => hch.extent (ho.extent (h.part [] S₂ (by simp))) h

theorem IsChain.extent {level : Nat} {left e : Expr} {S L : List Token} :
    IsChain level left S e → ExprExtent L left → InOrder (L ++ S) → ExprExtent (L ++ S) e
  | .done, hl, _ => by simpa using hl
  | @IsChain.more _ _ S₁ S₂ right _ op t _ ho hch, hl, h => by
    have hr := ho.extent (h.part (L ++ [t]) S₂ (by simp))
    have hstep : ExprExtent (L ++ t :: S₁) (.binary op left right (left.span.merge right.span)) :=
      .binary hl hr (by
        rw [hl.span_eq, hr.span_eq]
        exact (h.part [] S₂ (by simp)).merge_extent L [t] S₁ (by simp) hl.ne_nil hr.ne_nil)
    have hnext := hch.extent hstep (by simpa using h)
    simpa using hnext

theorem IsOperand.extent {level : Nat} {S : List Token} {e : Expr} :
    IsOperand level S e → InOrder S → ExprExtent S e
  | .tighter _ hb, h => hb.extent h
  | .tightest _ hp, h => hp.extent h

theorem IsPrefix.extent {S : List Token} {e : Expr} : IsPrefix S e → InOrder S → ExprExtent S e
  | @IsPrefix.not S _ bang _ hp, h =>
    have he := hp.extent (h.part [bang] [] (by simp))
    .not he (by
      rw [he.span_eq, ← Span.extent_singleton bang]
      exact h.merge_extent [bang] [] S (by simp) (by simp) he.ne_nil)
  | .suffix hs, h => hs.extent h

theorem IsSuffix.extent {S : List Token} {e : Expr} : IsSuffix S e → InOrder S → ExprExtent S e
  | @IsSuffix.mk _ S₂ _ _ hb hs, h => hs.extent (hb.extent (h.part [] S₂ (by simp))) h

theorem IsSuffixes.extent {b r : Expr} {S L : List Token} :
    IsSuffixes b S r → ExprExtent L b → InOrder (L ++ S) → ExprExtent (L ++ S) r
  | .done, hl, _ => by simpa using hl
  | @IsSuffixes.field _ S _ dot name _ _ hs, hl, h => by
    have hstep : ExprExtent (L ++ [dot, name])
        (.field b ⟨name.text, name.span⟩ (Span.upTo b.span.start name)) :=
      .field hl rfl (by
        rw [hl.span_eq]
        exact (h.part [] S (by simp)).upTo_extent L rfl hl.ne_nil (by simp))
    have hnext := hs.extent hstep (by simpa using h)
    simpa using hnext
  | @IsSuffixes.index _ i S₁ S₂ _ lb rb _ hi _ hs, hl, h => by
    have hidx := hi.extent (h.part (L ++ [lb]) (rb :: S₂) (by simp))
    have hstep : ExprExtent (L ++ lb :: S₁ ++ [rb]) (.index b i (Span.upTo b.span.start rb)) :=
      .index hl hidx (by
        rw [hl.span_eq]
        exact (h.part [] S₂ (by simp)).upTo_extent L (M := lb :: S₁ ++ [rb]) (by simp) hl.ne_nil
          (List.getLast?_concat ..))
    have hnext := hs.extent hstep (by simpa using h)
    simpa using hnext
  | @IsSuffixes.call _ args S₁ S₂ _ lp rp _ ha _ hs, hl, h => by
    have hargs := ha.extent (h.part (L ++ [lp]) (rp :: S₂) (by simp))
    have hstep : ExprExtent (L ++ lp :: S₁ ++ [rp]) (.call b args (Span.upTo b.span.start rp)) :=
      .call hl hargs (by
        rw [hl.span_eq]
        exact (h.part [] S₂ (by simp)).upTo_extent L (M := lp :: S₁ ++ [rp]) (by simp) hl.ne_nil
          (List.getLast?_concat ..))
    have hnext := hs.extent hstep (by simpa using h)
    simpa using hnext

theorem IsBasic.extent {S : List Token} {e : Expr} : IsBasic S e → InOrder S → ExprExtent S e
  | @IsBasic.ctor d _ _ _, h => .ctor rfl (h.upTo_extent [d] rfl (by simp) rfl)
  | @IsBasic.ref t _, h => .ref (h.upTo_extent [t] rfl (by simp) rfl)
  | @IsBasic.int t _ _, h => .int (h.upTo_extent [t] rfl (by simp) rfl)
  | @IsBasic.negInt m _ _ _ _, h => .negInt (h.upTo_extent [m] rfl (by simp) rfl)
  | @IsBasic.float t _, h => .float (h.upTo_extent [t] rfl (by simp) rfl)
  | @IsBasic.negFloat m _ _ _, h => .negFloat (h.upTo_extent [m] rfl (by simp) rfl)
  | @IsBasic.str t _, h => .str (h.upTo_extent [t] rfl (by simp) rfl)
  | @IsBasic.paren S _ lp rp _ he _, h =>
    .paren (he.extent (h.part [lp] [rp] (by simp)))
      (h.upTo_extent [lp] rfl (by simp) (List.getLast?_concat (l := lp :: S) (a := rp)))
  | @IsBasic.array S _ lb rb _ ha _, h =>
    .array (ha.extent (h.part [lb] [rb] (by simp)))
      (h.upTo_extent [lb] rfl (by simp) (List.getLast?_concat (l := lb :: S) (a := rb)))

theorem IsArgs.extent {S : List Token} {es : List Expr} : IsArgs S es → InOrder S → ItemsExtent S es
  | .nil, _ => .nil
  | .items hi, h => hi.extent h

theorem IsItems.extent {S : List Token} {es : List Expr} :
    IsItems S es → InOrder S → ItemsExtent S es
  | .one he, h => .one (he.extent h)
  | @IsItems.more S₁ S₂ _ _ comma he _ hi, h =>
    .more (he.extent (h.part [] (comma :: S₂) (by simp))) (hi.extent (h.part (S₁ ++ [comma]) [] (by simp)))
      hi.ne_nil
end

mutual
theorem IsStmt.extent {S : List Token} {s : Stmt} : IsStmt S s → InOrder S → StmtExtent S s
  | .mk hf hs, h => by
    rw [hs, h.ofTokens_eq]
    exact hf.extent h

theorem IsForm.extent {S : List Token} {mk : Span → Stmt} :
    IsForm S mk → InOrder S → StmtExtent S (mk (Span.extent S))
  | .block hb, h => .block (hb.extent h) rfl
  | @IsForm.var S₁ S₂ _ _ v n col eq _ _ _ hty _ hinit, h =>
    .var rfl (hty.extent (h.part [v, n, col] (eq :: S₂) (by simp)))
      (hinit.extent (h.part (v :: n :: col :: S₁ ++ [eq]) [] (by simp))) rfl
  | .sizedArray .., _ => .sizedArray rfl (.named rfl) rfl
  | .fnDecl hf, h => .fnDecl (hf.extent h) rfl
  | .structDecl hs, h => .structDecl (hs.extent h) rfl
  | @IsForm.ifThen S₁ S₂ _ _ i _ hc _ ht, h =>
    .ifThen (hc.extent (h.part [i] S₂ (by simp))) (ht.extent (h.part (i :: S₁) [] (by simp))) rfl
  | @IsForm.ifElse S₁ S₂ S₃ _ _ _ i el _ hc _ ht _ _ he, h =>
    .ifElse (hc.extent (h.part [i] (S₂ ++ el :: S₃) (by simp)))
      (ht.extent (h.part (i :: S₁) (el :: S₃) (by simp)))
      (he.extent (h.part (i :: S₁ ++ S₂ ++ [el]) [] (by simp))) rfl
  | @IsForm.whileLoop S₁ S₂ _ _ w _ hc _ hb, h =>
    .whileLoop (hc.extent (h.part [w] S₂ (by simp))) (hb.extent (h.part (w :: S₁) [] (by simp)))
      rfl
  | .ret _, _ => .ret rfl
  | @IsForm.retValue _ _ r _ he, h => .retValue (he.extent (h.part [r] [] (by simp))) rfl
  | .expr he, h => .expr (he.extent h) rfl

theorem IsStmts.extent {S : List Token} {ss : List Stmt} :
    IsStmts S ss → InOrder S → StmtsExtent S ss
  | .nil, _ => .nil
  | @IsStmts.cons S₁ S₂ _ _ hs hss _, h =>
    .cons (hs.extent (h.part [] S₂ (by simp))) (hss.extent (h.part S₁ [] (by simp)))

theorem IsBlock.extent {S : List Token} {body : List Stmt} {span : Span} :
    IsBlock S body span → InOrder S → BlockExtent S body span
  | @IsBlock.mk S _ lb rb _ hss _, h =>
    .mk (hss.extent (h.part [lb] [rb] (by simp)))
      (h.upTo_extent [lb] rfl (by simp) (List.getLast?_concat (l := lb :: S) (a := rb)))

theorem IsFun.extent {S : List Token} {d : FunDecl} : IsFun S d → InOrder S → FunExtent S d
  | @IsFun.mk S₁ S₂ S₃ _ _ _ _ f n lp rp _ _ _ hps _ hres hb, h =>
    .mk rfl (hps.extent (h.part [f, n, lp] (rp :: S₂ ++ S₃) (by simp)))
      (hres.extent (h.part (f :: n :: lp :: S₁ ++ [rp]) S₃ (by simp)))
      (hb.extent (h.part (f :: n :: lp :: S₁ ++ rp :: S₂) [] (by simp)))

theorem IsStruct.extent {S : List Token} {d : StructDecl} :
    IsStruct S d → InOrder S → StructExtent S d
  | @IsStruct.mk _ _ _ s n lb rb _ _ _ hm _, h => .mk rfl (hm.extent (h.part [s, n, lb] [rb] (by simp)))

theorem IsMembers.extent {S : List Token} {fields : List Binding} {methods : List FunDecl} :
    IsMembers S fields methods → InOrder S → MembersExtent S fields methods
  | .nil, _ => .nil
  | @IsMembers.field S₁ S₂ _ _ _ v _ hb hm, h =>
    .field (hb.extent (h.part [v] S₂ (by simp))) (hm.extent (h.part (v :: S₁) [] (by simp)))
  | @IsMembers.method S₁ S₂ _ _ _ hf hm, h =>
    .method (hf.extent (h.part [] S₂ (by simp))) (hm.extent (h.part S₁ [] (by simp)))
end

end Grammar

open Grammar in
/-- Every program and expression read from a text spans its tokens node by node. A node whose
tokens lie among another's has its span within the other's, the spans of nodes on tokens one
after another follow one another, and every span lies within the text; on a text that fits 32-bit
offsets, so does every span. -/
theorem read_spans_token_extents (source : String) (hsize : source.utf8ByteSize < 2 ^ 32) :
    let tokens := (lex source).tokens.filter (·.kind ≠ .eof)
    (∀ p, Program.read source = .ok p → ProgramExtent tokens p) ∧
      (∀ e, Expr.read source = .ok e → ExprExtent tokens e) ∧
      (∀ S U, S <:+: U → U <:+: tokens → S ≠ [] → (Span.extent S).Within (Span.extent U)) ∧
      (∀ S M T, S ++ M ++ T <:+: tokens → S ≠ [] → T ≠ [] →
        (Span.extent S).Precedes (Span.extent T)) ∧
      (∀ S, S <:+: tokens → (Span.extent S).Within ⟨0, source.utf8ByteSize⟩) ∧
      (∀ S, S <:+: tokens → (Span.extent S).Fits32) := by
  intro tokens
  obtain ⟨hord, hbound⟩ := lex_tokens_inOrder source
  have hfit := (lex_offsets_fit32 hsize).1
  refine ⟨fun p hp => ?_, fun e he => ?_, fun S U hSU hU hS => ?_, fun S M T hi hS hT => ?_,
    fun S hi => ⟨Nat.zero_le _, ?_⟩,
    fun S hi => Span.extent_fits32 fun t ht => hfit t (List.mem_filter.mp (hi.subset ht)).1⟩
  · obtain ⟨hss, -, hspan⟩ := Program.ofTokens_sound (Program.ofTokens_of_read hp)
    exact ⟨hss.extent hord, hspan.trans hord.ofTokens_eq⟩
  · exact (Expr.ofTokens_sound (Expr.ofTokens_of_read he)).extent hord
  · exact (hord.sub hU).extent_within hSU hS
  · exact (hord.sub hi).extent_precedes hS hT
  · rcases List.eq_nil_or_concat S with rfl | ⟨L, t, rfl⟩
    · simp [Span.extent]
    · simpa [Span.extent] using hbound t (hi.subset (by simp))

/-- `return x` reads into a program that spans its two tokens. -/
theorem return_statement_spans_tokens :
    "return x".utf8ByteSize < 2 ^ 32 ∧
      ∃ p, Program.read "return x" = .ok p ∧
        ProgramExtent ((lex "return x").tokens.filter (·.kind ≠ .eof)) p ∧
        (Span.extent ((lex "return x").tokens.filter (·.kind ≠ .eof))).Fits32 := by
  have hs : "return x".utf8ByteSize < 2 ^ 32 := by decide
  obtain ⟨hprog, -, -, -, -, hfit⟩ := read_spans_token_extents "return x" hs
  obtain ⟨p, hp⟩ := Parse.exists_eq_ok_of_isSome (x := Program.read "return x") (by decide +kernel)
  exact ⟨hs, p, hp, hprog p hp, hfit _ (List.infix_refl _)⟩

end Sigh
