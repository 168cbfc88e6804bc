import Sigh.Proofs.Grammar.Complete

namespace Sigh

mutual
/-- Where the names of the functions, structs and methods declared in the statement start. -/
def Stmt.declStarts : Stmt → List Nat
  | .block body _ => Stmt.listDeclStarts body
  | .fnDecl d _ => d.declStarts
  | .structDecl d _ => d.declStarts
  | .ifElse _ thenBranch elseBranch _ => thenBranch.declStarts ++ Stmt.optionDeclStarts elseBranch
  | .whileLoop _ body _ => body.declStarts
  | .var .. | .sizedArray .. | .ret .. | .expr .. => []
def Stmt.optionDeclStarts : Option Stmt → List Nat
  | some s => s.declStarts
  | none => []
def Stmt.listDeclStarts : List Stmt → List Nat
  | [] => []
  | s :: rest => s.declStarts ++ Stmt.listDeclStarts rest
def FunDecl.declStarts : FunDecl → List Nat
  | ⟨name, _, _, body, _⟩ => name.span.start :: Stmt.listDeclStarts body
def FunDecl.listDeclStarts : List FunDecl → List Nat
  | [] => []
  | d :: rest => d.declStarts ++ FunDecl.listDeclStarts rest
def StructDecl.declStarts : StructDecl → List Nat
  | ⟨name, _, methods⟩ => name.span.start :: FunDecl.listDeclStarts methods
end

namespace Scan

theorem width_cons_pos (c : Char) (cs : List Char) : 0 < width (c :: cs) := by
  exact Nat.lt_of_lt_of_le c.utf8Size_pos (Nat.le_add_right _ _)

theorem step_width_pos (c : Char) (r : List Char) (pos : Nat) : 0 < (step c r pos).width := by
  unfold step
  split
  · exact c.utf8Size_pos
  split
  · dsimp only
    omega
  split
  · dsimp only
    split
    · exact Nat.lt_of_lt_of_le Nat.two_pos (Nat.le_add_right _ _)
    · exact width_cons_pos _ _
  split
  · dsimp only
    split
    · split
      · exact width_cons_pos _ _
      · exact width_cons_pos _ _
    · exact width_cons_pos _ _
  split
  · exact width_cons_pos _ _
  split
  · exact width_cons_pos _ _
  · split
    · exact width_cons_pos _ _
    · exact width_cons_pos _ _
  · split
    · split
      · exact width_cons_pos _ _
      · exact Nat.one_pos
    · exact Nat.one_pos
  · exact c.utf8Size_pos

theorem starts_push_ascending {tokens : Array Token} {t : Token}
    (hs : (tokens.toList.map (·.span.start)).Pairwise (· < ·))
    (hlt : ∀ u ∈ tokens.toList, u.span.start < t.span.start) :
    ((tokens.push t).toList.map (·.span.start)).Pairwise (· < ·) := by
  simp only [Array.toList_push, List.map_append, List.map_cons, List.map_nil]
  refine List.pairwise_append.mpr ⟨hs, List.pairwise_singleton _ _, fun a ha b hb => ?_⟩
  obtain ⟨u, hu, rfl⟩ := List.mem_map.mp ha
  rw [List.mem_singleton.mp hb]
  exact hlt u hu

theorem run_starts_ascending (cs : List Char) (pos : Nat) (tokens : Array Token)
    (faults : Array LexFault) (hs : (tokens.toList.map (·.span.start)).Pairwise (· < ·))
    (hlt : ∀ t ∈ tokens.toList, t.span.start < pos) :
    ((run cs pos tokens faults).tokens.map (·.span.start)).Pairwise (· < ·) := by
  induction cs, pos, tokens, faults using run.induct with
  | case1 pos tokens faults =>
    rw [run.eq_1]
    exact starts_push_ascending hs hlt
  | case2 pos tokens faults c r s next ih =>
    rw [run.eq_2]
    have hw := step_width_pos c r pos
    apply ih
    · dsimp only [next]
      split
      · exact starts_push_ascending hs hlt
      · exact hs
    · intro t ht
      dsimp only [next] at ht
      split at ht
      · rw [Array.toList_push, List.mem_append, List.mem_singleton] at ht
        rcases ht with ht | rfl
        · exact Nat.lt_of_lt_of_le (hlt t ht) (Nat.le_add_right _ _)
        · exact Nat.lt_add_of_pos_right hw
      · exact Nat.lt_of_lt_of_le (hlt t ht) (Nat.le_add_right _ _)

end Scan

theorem lex_starts_ascending (source : String) :
    ((lex source).tokens.map (·.span.start)).Pairwise (· < ·) :=
  Scan.run_starts_ascending _ _ _ _ List.Pairwise.nil nofun

namespace Grammar

/-- Where the tokens start. -/
def starts (S : List Token) : List Nat := S.map (·.span.start)

theorem starts_append (S T : List Token) : starts (S ++ T) = starts S ++ starts T :=
  List.map_append

theorem starts_cons (t : Token) (S : List Token) : starts (t :: S) = t.span.start :: starts S := rfl

mutual
theorem IsStmt.declStarts_sublist {S : List Token} {s : Stmt} :
    IsStmt S s → s.declStarts.Sublist (starts S)
  | .mk hform hs => by
    subst hs
    exact hform.declStarts_sublist _

theorem IsForm.declStarts_sublist {S : List Token} {mk : Span → Stmt} :
    IsForm S mk → ∀ span, (mk span).declStarts.Sublist (starts S)
  | .block hb => fun _ => hb.declStarts_sublist
  | .var .. => fun _ => List.nil_sublist _
  | .sizedArray .. => fun _ => List.nil_sublist _
  | .fnDecl hf => fun _ => hf.declStarts_sublist
  | .structDecl hs => fun _ => hs.declStarts_sublist
  | .ifThen _ _ _ ht => fun _ => by
    simp only [Stmt.declStarts, Stmt.optionDeclStarts, List.append_nil, starts_append, starts_cons]
    exact (ht.declStarts_sublist.trans (List.sublist_append_right _ _)).cons _
  | .ifElse _ _ _ ht _ _ he => fun _ => by
    simp only [Stmt.declStarts, Stmt.optionDeclStarts, starts_append, starts_cons]
    exact (((ht.declStarts_sublist.trans (List.sublist_append_right _ _)).append
      (he.declStarts_sublist.cons _))).cons _
  | .whileLoop _ _ _ hb => fun _ => by
    simp only [Stmt.declStarts, starts_append, starts_cons]
    exact (hb.declStarts_sublist.trans (List.sublist_append_right _ _)).cons _
  | .ret _ => fun _ => List.nil_sublist _
  | .retValue _ _ => fun _ => List.nil_sublist _
  | .expr _ => fun _ => List.nil_sublist _

theorem IsStmts.declStarts_sublist {S : List Token} {ss : List Stmt} :
    IsStmts S ss → (Stmt.listDeclStarts ss).Sublist (starts S)
  | .nil => List.Sublist.slnil
  | .cons hs hss _ => by
    rw [Stmt.listDeclStarts, starts_append]
    exact hs.declStarts_sublist.append hss.declStarts_sublist

theorem IsBlock.declStarts_sublist {S : List Token} {body : List Stmt} {span : Span} :
    IsBlock S body span → (Stmt.listDeclStarts body).Sublist (starts S)
  | .mk _ hss _ => by
    rw [starts_append, starts_cons]
    exact ((hss.declStarts_sublist).trans (List.sublist_append_left _ _)).cons _

theorem IsFun.declStarts_sublist {S : List Token} {d : FunDecl} :
    IsFun S d → d.declStarts.Sublist (starts S)
  | .mk _ _ _ _ _ _ hb => by
    simp only [FunDecl.declStarts, starts_append, starts_cons]
    exact ((hb.declStarts_sublist.trans (List.sublist_append_right _ _)).cons_cons _).cons _

theorem IsStruct.declStarts_sublist {S : List Token} {d : StructDecl} :
    IsStruct S d → d.declStarts.Sublist (starts S)
  | .mk _ _ _ hm _ => by
    simp only [StructDecl.declStarts, starts_append, starts_cons]
    exact ((((hm.declStarts_sublist).trans (List.sublist_append_left _ _)).cons _).cons_cons _).cons _

theorem IsMembers.declStarts_sublist {S : List Token} {fields : List Binding}
    {methods : List FunDecl} :
    IsMembers S fields methods → (FunDecl.listDeclStarts methods).Sublist (starts S)
  | .nil => List.Sublist.slnil
  | .field _ _ hm => by
    rw [starts_append]
    exact (hm.declStarts_sublist).trans (List.sublist_append_right _ _)
  | .method hf hm => by
    rw [FunDecl.listDeclStarts, starts_append]
    exact hf.declStarts_sublist.append hm.declStarts_sublist
end

end Grammar

open Parse Grammar in
theorem Program.read_declStarts_nodup {source : String} {p : Program}
    (h : Program.read source = .ok p) : (Stmt.listDeclStarts p.statements).Nodup := by
  have hsub := (Program.ofTokens_sound (Program.ofTokens_of_read h)).1.declStarts_sublist
  exact (((lex_starts_ascending source).imp Nat.ne_of_lt).sublist
    (List.filter_sublist.map _)).sublist hsub

end Sigh
