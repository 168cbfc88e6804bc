import Sigh.Proofs.Lexing.Partition
import Sigh.Proofs.SizedArrays
import Sigh.Proofs.Grammar.Complete

namespace Sigh

open Parse

theorem foldl_checkedProduct_none (ds : List Nat) :
    ds.foldl (fun acc n => acc.bind fun t =>
      if t * n < Nat.pow 2 64 then some (t * n) else none) none = none := by
  induction ds with
  | nil => rfl
  | cons n ds ih => exact ih

theorem foldl_checkedProduct_eq_some_iff : ∀ (ds : List Nat) {t r : Nat}, t < 2 ^ 64 →
    (ds.foldl (fun acc n => acc.bind fun t =>
      if t * n < Nat.pow 2 64 then some (t * n) else none) (some t) = some r ↔
      (∀ i ≤ ds.length, t * (ds.take i).prod < 2 ^ 64) ∧ r = t * ds.prod)
  | [], t, r, ht => by
    simp only [List.foldl_nil, Option.some.injEq, List.length_nil, Nat.le_zero, List.take_nil,
      List.prod_nil, Nat.mul_one]
    exact ⟨fun h => ⟨fun _ _ => by simpa using ht, h.symm⟩, fun h => h.2.symm⟩
  | n :: ds, t, r, ht => by
    rw [List.foldl_cons, Option.bind_some]
    by_cases hn : t * n < 2 ^ 64
    · rw [if_pos (show t * n < Nat.pow 2 64 from hn), foldl_checkedProduct_eq_some_iff ds hn]
      constructor
      · rintro ⟨hall, rfl⟩
        refine ⟨fun i hi => ?_, by simp [Nat.mul_assoc]⟩
        cases i with
        | zero => simpa using ht
        | succ i => simpa [Nat.mul_assoc] using hall i (by simpa using hi)
      · rintro ⟨hall, rfl⟩
        exact ⟨fun i hi => by simpa [Nat.mul_assoc] using hall (i + 1) (by simpa using hi),
          by simp [Nat.mul_assoc]⟩
    · rw [if_neg (show ¬ t * n < Nat.pow 2 64 from hn), foldl_checkedProduct_none]
      simp only [reduceCtorEq, false_iff, not_and]
      intro hall
      exact absurd (by simpa using hall 1 (by simp)) hn

theorem withinElementLimit_iff (ds : List Nat) :
    withinElementLimit ds = true ↔
      (∀ i ≤ ds.length, (ds.take i).prod < 2 ^ 64) ∧ ds.prod ≤ maxArrayElements := by
  unfold withinElementLimit
  cases h : ds.foldl (fun acc n => acc.bind fun t =>
      if t * n < Nat.pow 2 64 then some (t * n) else none) (some 1) with
  | none =>
    simp only [Bool.false_eq_true, false_iff, not_and]
    intro hall
    have := (foldl_checkedProduct_eq_some_iff ds (t := 1) (r := ds.prod) (by decide)).mpr
      ⟨by simpa using hall, by simp⟩
    rw [h] at this
    cases this
  | some r =>
    obtain ⟨hall, rfl⟩ := (foldl_checkedProduct_eq_some_iff ds (by decide)).mp h
    simp only [Nat.one_mul, decide_eq_true_eq] at hall ⊢
    exact ⟨fun h => ⟨hall, h⟩, fun h => h.2⟩

theorem arrayCount_eq_sum : ∀ ds : List Nat,
    arrayCount ds = ∑ i ∈ Finset.range ds.length, (ds.take i).prod
  | [] => rfl
  | n :: ds => by
    rw [arrayCount, arrayCount_eq_sum ds, List.length_cons, Finset.sum_range_succ',
      Finset.mul_sum]
    simp

theorem prod_take_le_prod {ds : List Nat} (h : 0 ∉ ds) (i : Nat) : (ds.take i).prod ≤ ds.prod := by
  rw [← List.take_append_drop i ds, List.prod_append, List.take_append_drop]
  have hpos : 0 < (ds.drop i).prod :=
    Nat.pos_of_ne_zero fun h0 => h (List.mem_of_mem_drop (List.prod_eq_zero_iff.mp h0))
  exact Nat.le_mul_of_pos_right _ hpos

theorem varDecl_sizedArray_within {c : Cursor} {name : Ident} {element : TypeExpr}
    {ds : List Nat} {d : Ahead c} (h : varDecl c = .ok (.sizedArray name element ds, d)) :
    withinElementLimit ds = true := by
  obtain ⟨S, -, hf, -⟩ := varDecl_sound c _ _ h
  have key : ∀ {S : List Token} {mk : Span → Stmt}, Grammar.IsForm S mk →
      mk default = .sizedArray name element ds default → withinElementLimit ds = true := by
    intro S mk hf hmk
    cases hf with
    | sizedArray _ _ _ _ _ _ hlim =>
      obtain ⟨-, -, rfl, -⟩ := Stmt.sizedArray.inj hmk
      exact hlim
    | _ => simp at hmk
  exact key hf rfl

/-- What the element limit bounds. For a dimension list that a sized array declaration is read
with, the product of the dimensions, which is the number of leaves, is at most
`maxArrayElements`, and no partial product reaches `2 ^ 64`; from any machine `allocate` then adds
exactly `1 + n₁ + n₁n₂ + ... + n₁⋯nₖ₋₁` arrays. Where no dimension is 0, every partial product is
at most `maxArrayElements` too, so at most `k · maxArrayElements + 1` arrays are added. -/
theorem element_limit_bounds_allocation {c : Cursor} {name : Ident} {element : TypeExpr}
    {ds : List Nat} {d : Ahead c} (h : varDecl c = .ok (.sizedArray name element ds, d)) :
    ds.prod ≤ maxArrayElements ∧ (∀ i ≤ ds.length, (ds.take i).prod < 2 ^ 64) ∧
      (∀ (T : Ty) (m : Machine), ∃ v m', (allocate T ds).run.run m = (.ok v, m') ∧
        m'.objects.size = m.objects.size + ∑ i ∈ Finset.range ds.length, (ds.take i).prod) ∧
      (0 ∉ ds → (∀ i, (ds.take i).prod ≤ maxArrayElements) ∧
        arrayCount ds ≤ ds.length * maxArrayElements + 1) := by
  obtain ⟨hpartial, hprod⟩ := (withinElementLimit_iff ds).mp (varDecl_sizedArray_within h)
  refine ⟨hprod, hpartial, fun T m => ?_, fun hz => ?_⟩
  · obtain ⟨v, m', hrun, -, hsize, -⟩ := allocate_lays_out T ds m
    exact ⟨v, m', hrun, by rw [hsize, arrayCount_eq_sum]⟩
  · have hle : ∀ i, (ds.take i).prod ≤ maxArrayElements := fun i =>
      (prod_take_le_prod hz i).trans hprod
    refine ⟨hle, ?_⟩
    calc arrayCount ds = ∑ i ∈ Finset.range ds.length, (ds.take i).prod := arrayCount_eq_sum ds
      _ ≤ ∑ _i ∈ Finset.range ds.length, maxArrayElements := Finset.sum_le_sum fun i _ => hle i
      _ = ds.length * maxArrayElements := by simp
      _ ≤ ds.length * maxArrayElements + 1 := Nat.le_succ _

/-- A declaration `var x: Int[a][b]`, given the tokens it lexes into, is read as a sized array of
the two dimensions its literals spell. -/
theorem matrix_declaration_is_read {source t₁ t₂ : String} {p q : Nat}
    (htoks : (lex source).tokens =
      [⟨.kwVar, ⟨0, 3⟩, "var"⟩, ⟨.ident, ⟨4, 5⟩, "x"⟩, ⟨.colon, ⟨5, 6⟩, ":"⟩,
        ⟨.ident, ⟨7, 10⟩, "Int"⟩, ⟨.lBracket, ⟨10, 11⟩, "["⟩, ⟨.intLiteral, ⟨11, p⟩, t₁⟩,
        ⟨.rBracket, ⟨p, p + 1⟩, "]"⟩, ⟨.lBracket, ⟨p + 1, p + 2⟩, "["⟩,
        ⟨.intLiteral, ⟨p + 2, q⟩, t₂⟩, ⟨.rBracket, ⟨q, q + 1⟩, "]"⟩, ⟨.eof, ⟨q + 1, q + 1⟩, ""⟩])
    (h₁ : t₁.toNat! < 2 ^ 64) (h₂ : t₂.toNat! < 2 ^ 64)
    (hlim : withinElementLimit [t₁.toNat!, t₂.toNat!] = true) :
    ∃ d, varDecl (Cursor.start (lex source).tokens) =
      .ok (.sizedArray ⟨"x", ⟨4, 5⟩⟩ (.named "Int" ⟨7, 10⟩) [t₁.toNat!, t₂.toNat!], d) := by
  obtain ⟨d, hd, -⟩ := Grammar.varDecl_sized_complete (T := [])
    (S := [⟨.lBracket, ⟨10, 11⟩, "["⟩, ⟨.intLiteral, ⟨11, p⟩, t₁⟩, ⟨.rBracket, ⟨p, p + 1⟩, "]"⟩,
      ⟨.lBracket, ⟨p + 1, p + 2⟩, "["⟩, ⟨.intLiteral, ⟨p + 2, q⟩, t₂⟩, ⟨.rBracket, ⟨q, q + 1⟩, "]"⟩])
    (c := Cursor.start (lex source).tokens) (by rw [htoks]; rfl) rfl rfl rfl rfl
    (.more rfl rfl h₁ rfl (.more rfl rfl h₂ rfl .nil)) (by simp) hlim (by decide)
  exact ⟨d, hd⟩

theorem trailing_zero_declaration_is_read :
    ∃ d, varDecl (Cursor.start (lex "var x: Int[100000000000][0]").tokens) =
      .ok (.sizedArray ⟨"x", ⟨4, 5⟩⟩ (.named "Int" ⟨7, 10⟩) [100000000000, 0], d) := by
  have htoks : (lex "var x: Int[100000000000][0]").tokens =
      [⟨.kwVar, ⟨0, 3⟩, "var"⟩, ⟨.ident, ⟨4, 5⟩, "x"⟩, ⟨.colon, ⟨5, 6⟩, ":"⟩,
        ⟨.ident, ⟨7, 10⟩, "Int"⟩, ⟨.lBracket, ⟨10, 11⟩, "["⟩,
        ⟨.intLiteral, ⟨11, 23⟩, "100000000000"⟩, ⟨.rBracket, ⟨23, 24⟩, "]"⟩,
        ⟨.lBracket, ⟨24, 25⟩, "["⟩, ⟨.intLiteral, ⟨25, 26⟩, "0"⟩, ⟨.rBracket, ⟨26, 27⟩, "]"⟩,
        ⟨.eof, ⟨27, 27⟩, ""⟩] :=
    Token.eq_of_map_fields (by decide +kernel)
  have hbig : "100000000000".toNat! = 100000000000 := by cbv
  have hzero : "0".toNat! = 0 := by cbv
  have h := matrix_declaration_is_read htoks (by rw [hbig]; decide) (by rw [hzero]; decide)
    (by rw [hbig, hzero]; decide)
  rwa [hbig, hzero] at h

/-- A 0 after a large dimension. `var x: Int[100000000000][0]` is read as a sized array of those
dimensions, though its first partial product is far above the limit; allocating it adds a hundred
billion and one arrays, more than twice the limit and one. -/
theorem trailing_zero_dimension_escapes_element_limit :
    (∃ d, varDecl (Cursor.start (lex "var x: Int[100000000000][0]").tokens) =
      .ok (.sizedArray ⟨"x", ⟨4, 5⟩⟩ (.named "Int" ⟨7, 10⟩) [100000000000, 0], d)) ∧
      maxArrayElements < ([100000000000, 0].take 1).prod ∧
      (∀ (T : Ty) (m : Machine), ∃ v m', (allocate T [100000000000, 0]).run.run m = (.ok v, m') ∧
        m'.objects.size = m.objects.size + 100000000001) ∧
      2 * maxArrayElements + 1 < 100000000001 := by
  refine ⟨trailing_zero_declaration_is_read, by decide, fun T m => ?_, by decide⟩
  obtain ⟨v, m', hrun, -, hsize, -⟩ := allocate_lays_out T [100000000000, 0] m
  exact ⟨v, m', hrun, by rw [hsize]; rfl⟩

theorem square_declaration_is_read :
    ∃ d, varDecl (Cursor.start (lex "var x: Int[4096][4096]").tokens) =
      .ok (.sizedArray ⟨"x", ⟨4, 5⟩⟩ (.named "Int" ⟨7, 10⟩) [4096, 4096], d) := by
  have htoks : (lex "var x: Int[4096][4096]").tokens =
      [⟨.kwVar, ⟨0, 3⟩, "var"⟩, ⟨.ident, ⟨4, 5⟩, "x"⟩, ⟨.colon, ⟨5, 6⟩, ":"⟩,
        ⟨.ident, ⟨7, 10⟩, "Int"⟩, ⟨.lBracket, ⟨10, 11⟩, "["⟩,
        ⟨.intLiteral, ⟨11, 15⟩, "4096"⟩, ⟨.rBracket, ⟨15, 16⟩, "]"⟩,
        ⟨.lBracket, ⟨16, 17⟩, "["⟩, ⟨.intLiteral, ⟨17, 21⟩, "4096"⟩, ⟨.rBracket, ⟨21, 22⟩, "]"⟩,
        ⟨.eof, ⟨22, 22⟩, ""⟩] :=
    Token.eq_of_map_fields (by decide +kernel)
  have hside : "4096".toNat! = 4096 := by cbv
  have h := matrix_declaration_is_read htoks (by rw [hside]; decide) (by rw [hside]; decide)
    (by rw [hside]; decide)
  rwa [hside] at h

/-- The bounds at a square declaration at the limit, with no 0 among its dimensions: every
partial product is within the limit, and so is the number of arrays its allocation adds. -/
theorem element_limit_bounds_allocation_square :
    ∃ d, varDecl (Cursor.start (lex "var x: Int[4096][4096]").tokens) =
      .ok (.sizedArray ⟨"x", ⟨4, 5⟩⟩ (.named "Int" ⟨7, 10⟩) [4096, 4096], d) ∧
      0 ∉ [4096, 4096] ∧
      ([4096, 4096].prod ≤ maxArrayElements ∧
        (∀ i ≤ [4096, 4096].length, ([4096, 4096].take i).prod < 2 ^ 64) ∧
        (∀ (T : Ty) (m : Machine), ∃ v m', (allocate T [4096, 4096]).run.run m = (.ok v, m') ∧
          m'.objects.size = m.objects.size +
            ∑ i ∈ Finset.range [4096, 4096].length, ([4096, 4096].take i).prod) ∧
        (0 ∉ [4096, 4096] → (∀ i, ([4096, 4096].take i).prod ≤ maxArrayElements) ∧
          arrayCount [4096, 4096] ≤ [4096, 4096].length * maxArrayElements + 1)) :=
  have ⟨d, hd⟩ := square_declaration_is_read
  ⟨d, hd, by decide, element_limit_bounds_allocation hd⟩

end Sigh
