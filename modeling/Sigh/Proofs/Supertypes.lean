import Sigh.Proofs.Checking.Reports

namespace Sigh

namespace Ty

mutual
theorem beq_iff : ∀ a b : Ty, beq a b = true ↔ a = b
  | array a, b => by cases b <;> simp [beq, beq_iff a]
  | fn ps r, b => by cases b <;> simp [beq, beqList_iff ps, beq_iff r]
  | int, b | float, b | bool, b | string, b | void, b | null, b | type, b | struct .., b => by
    cases b <;> simp [beq]
theorem beqList_iff : ∀ as bs : List Ty, beqList as bs = true ↔ as = bs
  | [], bs => by cases bs <;> simp [beqList]
  | a :: as, bs => by cases bs <;> simp [beqList, beq_iff a, beqList_iff as]
end

instance : LawfulBEq Ty where
  eq_of_beq h := (beq_iff _ _).mp h
  rfl := (beq_iff _ _).mpr rfl

/-- `Null` and the arrays nested around it: the types of `null`, `[]`, `[[]]`, ... -/
def isNullArray : Ty → Bool
  | null => true
  | array c => c.isNullArray
  | _ => false

theorem isReference_of_isNullArray {t : Ty} (h : t.isNullArray = true) : t.isReference = true := by
  cases t <;> simp_all [isNullArray, isReference, isPrimitive, isVoid]

theorem eq_of_isNullArray : ∀ {a b : Ty}, a.isNullArray = true → b.isNullArray = true →
    a.depth = b.depth → a = b
  | null, null, _, _, _ => rfl
  | array a, array b, ha, hb, h => by
    rw [eq_of_isNullArray (a := a) (b := b) ha hb (by simpa [depth] using h)]
  | null, array _, _, _, h | array _, null, _, _, h => by simp [depth] at h
  | int, _, ha, _, _ | float, _, ha, _, _ | bool, _, ha, _, _ | string, _, ha, _, _
  | void, _, ha, _, _ | type, _, ha, _, _ | struct .., _, ha, _, _ | fn .., _, ha, _, _ => by
    simp [isNullArray] at ha
  | _, int, _, hb, _ | _, float, _, hb, _ | _, bool, _, hb, _ | _, string, _, hb, _
  | _, void, _, hb, _ | _, type, _, hb, _ | _, struct .., _, hb, _ | _, fn .., _, hb, _ => by
    simp [isNullArray] at hb

theorem componentAssignable_iff : ∀ a b : Ty,
    componentAssignable a b = true ↔ a = b ∨ (a.isNullArray = true ∧ a.depth ≤ b.depth)
  | null, b => by simp [componentAssignable, isNullArray, depth]
  | array a, b => by
    cases b with
    | array b =>
      simp only [componentAssignable, componentAssignable_iff a b, isNullArray, depth, array.injEq,
        Nat.add_le_add_iff_right]
    | _ => simp [componentAssignable, depth]
  | int, b | float, b | bool, b | string, b | void, b | type, b | struct .., b | fn .., b => by
    simp [componentAssignable, isNullArray]

theorem assignable_iff (a b : Ty) :
    assignable a b = true ↔ a.isVoid = false ∧ b.isVoid = false ∧
      (a = b ∨ (a = int ∧ b = float) ∨
        (b.isReference = true ∧ a.isNullArray = true ∧ a.depth ≤ b.depth)) := by
  cases a <;> cases b <;>
    simp [assignable, componentAssignable_iff, isVoid, isReference, isPrimitive, isNullArray, depth]

theorem assignable_refl {t : Ty} (h : t.isVoid = false) : assignable t t = true :=
  (assignable_iff t t).mpr ⟨h, h, .inl rfl⟩

theorem assignable_trans {a b c : Ty} (hab : assignable a b = true)
    (hbc : assignable b c = true) : assignable a c = true := by
  rw [assignable_iff] at hab hbc ⊢
  obtain ⟨ha, -, hab⟩ := hab
  obtain ⟨-, hc, hbc⟩ := hbc
  refine ⟨ha, hc, ?_⟩
  rcases hab with rfl | ⟨rfl, rfl⟩ | ⟨hbr, han, hd⟩
  · exact hbc
  · rcases hbc with rfl | ⟨h, -⟩ | ⟨-, h, -⟩
    · exact .inr (.inl ⟨rfl, rfl⟩)
    · cases h
    · simp [isNullArray] at h
  · rcases hbc with rfl | ⟨rfl, -⟩ | ⟨hcr, -, hd'⟩
    · exact .inr (.inr ⟨hbr, han, hd⟩)
    · simp [isReference, isPrimitive] at hbr
    · exact .inr (.inr ⟨hcr, han, hd.trans hd'⟩)

theorem assignable_antisymm {a b : Ty} (hab : assignable a b = true)
    (hba : assignable b a = true) : a = b := by
  rw [assignable_iff] at hab hba
  rcases hab.2.2 with h | ⟨rfl, rfl⟩ | ⟨-, han, hd⟩
  · exact h
  · simp [isReference, isPrimitive, isNullArray] at hba
  · rcases hba.2.2 with h | ⟨-, rfl⟩ | ⟨-, hbn, hd'⟩
    · exact h.symm
    · simp [isNullArray] at han
    · exact eq_of_isNullArray han hbn (by omega)

theorem assignable_chain_below {a b c : Ty} (hac : assignable a c = true)
    (hbc : assignable b c = true) : assignable a b = true ∨ assignable b a = true := by
  obtain ⟨ha, -, hac'⟩ := (assignable_iff a c).mp hac
  obtain ⟨hb, -, hbc'⟩ := (assignable_iff b c).mp hbc
  rcases hac' with rfl | ⟨rfl, rfl⟩ | ⟨hcr, han, -⟩
  · exact .inr hbc
  · rcases hbc' with rfl | ⟨rfl, -⟩ | ⟨hcr, -, -⟩
    · exact .inl hac
    · exact .inl (assignable_refl ha)
    · simp [isReference, isPrimitive] at hcr
  · rcases hbc' with rfl | ⟨-, rfl⟩ | ⟨-, hbn, -⟩
    · exact .inl hac
    · simp [isReference, isPrimitive] at hcr
    · rcases Nat.le_total a.depth b.depth with h | h
      · exact .inl ((assignable_iff a b).mpr
          ⟨ha, hb, .inr (.inr ⟨isReference_of_isNullArray hbn, han, h⟩)⟩)
      · exact .inr ((assignable_iff b a).mpr
          ⟨hb, ha, .inr (.inr ⟨isReference_of_isNullArray han, hbn, h⟩)⟩)

theorem commonSupertype?_eq_some {a b c : Ty} (h : commonSupertype? a b = some c) :
    assignable a c = true ∧ assignable b c = true ∧ (c = a ∨ c = b) := by
  unfold commonSupertype? at h
  split at h
  · cases h
  · rename_i hv
    simp only [Bool.or_eq_true, not_or, Bool.not_eq_true] at hv
    split at h
    · cases h
      exact ⟨‹_›, assignable_refl hv.2, .inr rfl⟩
    · split at h
      · cases h
        exact ⟨assignable_refl hv.1, ‹_›, .inl rfl⟩
      · cases h

theorem commonSupertype?_isSome {a b : Ty} (ha : a.isVoid = false) (hb : b.isVoid = false) :
    (commonSupertype? a b).isSome ↔ assignable a b = true ∨ assignable b a = true := by
  unfold commonSupertype?
  by_cases hab : assignable a b = true <;> by_cases hba : assignable b a = true <;> simp_all

theorem commonSupertype?_of_assignable {a b : Ty} (h : assignable a b = true) :
    commonSupertype? a b = some b := by
  obtain ⟨ha, hb, -⟩ := (assignable_iff a b).mp h
  simp [commonSupertype?, ha, hb, h]

theorem commonSupertype?_comm (a b : Ty) : commonSupertype? a b = commonSupertype? b a := by
  by_cases hab : assignable a b = true
  · by_cases hba : assignable b a = true
    · rw [assignable_antisymm hab hba]
    · obtain ⟨ha, hb, -⟩ := (assignable_iff a b).mp hab
      simp [commonSupertype?, ha, hb, hab, hba]
  · by_cases hba : assignable b a = true
    · obtain ⟨hb, ha, -⟩ := (assignable_iff b a).mp hba
      simp [commonSupertype?, ha, hb, hab, hba]
    · simp [commonSupertype?, hab, hba]

theorem commonSupertype?_eq_none_iff (a b : Ty) :
    commonSupertype? a b = none ↔
      a.isVoid = true ∨ b.isVoid = true ∨ (assignable a b = false ∧ assignable b a = false) := by
  by_cases hv : a.isVoid = true ∨ b.isVoid = true
  · have hv' : (a.isVoid || b.isVoid) = true := by simpa using hv
    simp only [commonSupertype?, hv', if_true, true_iff]
    exact hv.elim .inl (.inr ∘ .inl)
  · obtain ⟨ha, hb⟩ : a.isVoid = false ∧ b.isVoid = false := by simpa using hv
    cases hab : assignable a b <;> cases hba : assignable b a <;>
      simp [commonSupertype?, ha, hb, hab, hba]

/-- `assignable` orders the types other than `Void`: it is reflexive, transitive and
antisymmetric there, the types below any one type form a chain, and `commonSupertype?` is the
greater of two comparable types, in either order, and fails exactly on incomparable ones or
`Void`. -/
theorem assignable_is_partial_order :
    IsPartialOrder {t : Ty // t.isVoid = false} (fun a b => assignable a.1 b.1 = true) ∧
      (∀ a b c : Ty, assignable a c = true → assignable b c = true →
        assignable a b = true ∨ assignable b a = true) ∧
      (∀ a b : Ty, commonSupertype? a b = commonSupertype? b a) ∧
      (∀ a b : Ty, (assignable a b = true → commonSupertype? a b = some b) ∧
        (assignable b a = true → commonSupertype? a b = some a)) ∧
      (∀ a b : Ty, commonSupertype? a b = none ↔
        a.isVoid = true ∨ b.isVoid = true ∨ (assignable a b = false ∧ assignable b a = false)) :=
  ⟨{ refl := fun t => assignable_refl t.2
     trans := fun _ _ _ => assignable_trans
     antisymm := fun _ _ hab hba => Subtype.ext (assignable_antisymm hab hba) },
    fun _ _ _ => assignable_chain_below, commonSupertype?_comm,
    fun a b => ⟨commonSupertype?_of_assignable, fun h => by
      rw [commonSupertype?_comm]
      exact commonSupertype?_of_assignable h⟩,
    commonSupertype?_eq_none_iff⟩

theorem null_array_below_int_matrix :
    assignable (.array .null) (.array (.array .int)) = true ∧
      assignable (.array (.array .int)) (.array (.array .int)) = true ∧
      commonSupertype? (.array .null) (.array (.array .int)) = some (.array (.array .int)) ∧
      (assignable (.array .null) (.array (.array .int)) = true ∨
        assignable (.array (.array .int)) (.array .null) = true) := by
  have hab : assignable (.array .null) (.array (.array .int)) = true := by decide
  have hbc : assignable (.array (.array .int)) (.array (.array .int)) = true := by decide
  obtain ⟨-, hchain, -, hsup, -⟩ := assignable_is_partial_order
  exact ⟨hab, hbc, (hsup _ _).1 hab, hchain _ _ _ hab hbc⟩

/-- `c` is one of `ts`, and every one of `ts` is assignable to it. -/
def Greatest (ts : List Ty) (c : Ty) : Prop := c ∈ ts ∧ ∀ t ∈ ts, assignable t c = true

theorem Greatest.unique {ts : List Ty} {c c' : Ty} (h : Greatest ts c) (h' : Greatest ts c') :
    c = c' :=
  assignable_antisymm (h'.2 c h.1) (h.2 c' h'.1)

theorem Greatest.isChain {ts : List Ty} {c : Ty} (h : Greatest ts c) :
    IsChain (fun a b => assignable a b = true) {t | t ∈ ts} :=
  fun a ha b hb _ => assignable_chain_below (h.2 a ha) (h.2 b hb)

theorem Greatest.perm {ts ts' : List Ty} (hp : ts.Perm ts') {c : Ty} (h : Greatest ts c) :
    Greatest ts' c :=
  ⟨hp.mem_iff.mp h.1, fun t ht => h.2 t (hp.mem_iff.mpr ht)⟩

theorem foldlM_commonSupertype?_greatest : ∀ (ts : List Ty) (cur c : Ty),
    (∀ t ∈ cur :: ts, t.isVoid = false) → ts.foldlM commonSupertype? cur = some c →
      Greatest (cur :: ts) c
  | [], cur, c, hv, h => by
    cases h
    refine ⟨List.mem_cons_self, fun t ht => ?_⟩
    rw [List.mem_singleton.mp ht]
    exact assignable_refl (hv cur List.mem_cons_self)
  | t :: ts, cur, c, hv, h => by
    rw [List.foldlM_cons] at h
    obtain ⟨n, hn, hrest⟩ := Option.bind_eq_some_iff.mp h
    obtain ⟨hcur, ht, hn'⟩ := commonSupertype?_eq_some hn
    have hnv : n.isVoid = false := by
      rcases hn' with rfl | rfl
      · exact hv n List.mem_cons_self
      · exact hv n (by simp)
    obtain ⟨hmem, hall⟩ := foldlM_commonSupertype?_greatest ts n c
      (fun u hu => by
        rcases List.mem_cons.mp hu with rfl | hu
        · exact hnv
        · exact hv u (by simp [hu])) hrest
    have hn_le : assignable n c = true := hall n List.mem_cons_self
    refine ⟨?_, fun u hu => ?_⟩
    · rcases List.mem_cons.mp hmem with rfl | hmem
      · rcases hn' with rfl | rfl <;> simp
      · simp [hmem]
    · rcases List.mem_cons.mp hu with rfl | hu
      · exact assignable_trans hcur hn_le
      · rcases List.mem_cons.mp hu with rfl | hu
        · exact assignable_trans ht hn_le
        · exact hall u (List.mem_cons_of_mem _ hu)

theorem foldlM_commonSupertype?_isSome : ∀ (ts : List Ty) (cur : Ty),
    (∀ t ∈ cur :: ts, t.isVoid = false) →
      IsChain (fun a b => assignable a b = true) {t | t ∈ cur :: ts} →
      (ts.foldlM commonSupertype? cur).isSome
  | [], _, _, _ => rfl
  | t :: ts, cur, hv, hc => by
    have hcur := hv cur List.mem_cons_self
    have ht := hv t (by simp)
    have hcomparable : assignable cur t = true ∨ assignable t cur = true := by
      by_cases heq : cur = t
      · exact .inl (heq ▸ assignable_refl hcur)
      · exact hc List.mem_cons_self (by simp) heq
    obtain ⟨n, hn⟩ := Option.isSome_iff_exists.mp ((commonSupertype?_isSome hcur ht).mpr hcomparable)
    have hn_mem : n ∈ cur :: t :: ts := by
      rcases (commonSupertype?_eq_some hn).2.2 with rfl | rfl <;> simp
    have hsub : ∀ u ∈ n :: ts, u ∈ cur :: t :: ts := by
      intro u hu
      rcases List.mem_cons.mp hu with rfl | hu
      · exact hn_mem
      · simp [hu]
    rw [List.foldlM_cons, hn]
    exact foldlM_commonSupertype?_isSome ts n (fun u hu => hv u (hsub u hu))
      (hc.mono fun u hu => hsub u hu)

end Ty

namespace Typing

/-- The state of the loop of an array literal: an early result, and the common supertype so far. -/
abbrev LiteralState := Option (Option Typed.Expr) × Option Ty

theorem literalLoop_run {f : Typed.Expr → LiteralState → CheckM (ForInStep LiteralState)}
    (hf : ∀ e cur c, e.ty.isVoid = false → ((f e (none, some cur)).run c).1 =
      match cur.commonSupertype? e.ty with
      | some t => .yield (none, some t)
      | none => .done (some none, some cur)) :
    ∀ (rest : List Typed.Expr) (cur : Ty) (c : Checker), (∀ e ∈ rest, e.ty.isVoid = false) →
      match (rest.map (·.ty)).foldlM Ty.commonSupertype? cur with
      | some t => ((forIn rest (none, some cur) f).run c).1 = (none, some t)
      | none => ((forIn rest (none, some cur) f).run c).1.1 = some none
  | [], cur, c, _ => rfl
  | e :: rest, cur, c, hv => by
    have he := hf e cur c (hv e List.mem_cons_self)
    rw [List.map_cons, List.foldlM_cons, List.forIn_cons, run_bind]
    revert he
    cases hmerge : cur.commonSupertype? e.ty with
    | none => intro he; rw [he]; rfl
    | some t =>
      intro he
      rw [he]
      exact literalLoop_run hf rest t _ fun e' he' => hv e' (List.mem_cons_of_mem _ he')

section LiteralLoop

variable {f : Typed.Expr → LiteralState → CheckM (ForInStep LiteralState)} {rest : List Typed.Expr}
  {cur : Ty} {c : Checker}

theorem literalLoop_of_some
    (hf : ∀ e cur c, e.ty.isVoid = false → ((f e (none, some cur)).run c).1 =
      match cur.commonSupertype? e.ty with
      | some t => .yield (none, some t)
      | none => .done (some none, some cur))
    (hv : ∀ e ∈ rest, e.ty.isVoid = false) {t : Ty}
    (h : (rest.map (·.ty)).foldlM Ty.commonSupertype? cur = some t) :
    ((forIn rest (none, some cur) f).run c).1 = (none, some t) := by
  have key := literalLoop_run hf rest cur c hv
  rw [h] at key
  exact key

theorem literalLoop_of_none
    (hf : ∀ e cur c, e.ty.isVoid = false → ((f e (none, some cur)).run c).1 =
      match cur.commonSupertype? e.ty with
      | some t => .yield (none, some t)
      | none => .done (some none, some cur))
    (hv : ∀ e ∈ rest, e.ty.isVoid = false)
    (h : (rest.map (·.ty)).foldlM Ty.commonSupertype? cur = none) :
    ((forIn rest (none, some cur) f).run c).1.1 = some none := by
  have key := literalLoop_run hf rest cur c hv
  rw [h] at key
  exact key

end LiteralLoop

theorem allChecked_map_some {α : Type} (xs : List α) : allChecked (xs.map some) = some xs := by
  induction xs with
  | nil => rfl
  | cons x xs ih =>
    simp only [allChecked, List.map_cons, List.mapM_cons] at ih ⊢
    rw [ih]
    rfl

theorem arrayLiteral_ty (items : List Typed.Expr) (hv : ∀ e ∈ items, e.ty.isVoid = false)
    (span : Span) (c : Checker) :
    ((arrayLiteral (items.map some) span).run c).1.map (·.ty) =
      match items with
      | [] => some (.array .null)
      | e :: rest => ((rest.map (·.ty)).foldlM Ty.commonSupertype? e.ty).map .array := by
  unfold arrayLiteral
  rw [allChecked_map_some]
  cases items with
  | nil => rfl
  | cons e rest =>
    have hrest : ∀ e' ∈ rest, e'.ty.isVoid = false := fun e' he' => hv e' (List.mem_cons_of_mem _ he')
    simp only [List.forIn_cons, hv e List.mem_cons_self, Bool.false_eq_true, if_false, pure_bind]
    rw [run_bind]
    cases hfold : (rest.map (·.ty)).foldlM Ty.commonSupertype? e.ty
    on_goal 1 => rw [literalLoop_of_none _ hrest hfold]; rfl
    on_goal 2 => rw [literalLoop_of_some _ hrest hfold]; rfl
    all_goals
      intro e' cur c' hv'
      rw [if_neg (by simp [hv'])]
      dsimp only
      cases cur.commonSupertype? e'.ty <;> rfl

theorem arrayLiteral_ty_of_isChain {items : List Typed.Expr}
    (hv : ∀ e ∈ items, e.ty.isVoid = false) (span : Span) (c : Checker)
    (hchain : IsChain (fun a b => Ty.assignable a b = true) {t | t ∈ items.map (·.ty)}) :
    ∃ C, ((arrayLiteral (items.map some) span).run c).1.map (·.ty) = some (.array C) ∧
      ((items = [] ∧ C = .null) ∨ Ty.Greatest (items.map (·.ty)) C) := by
  rw [arrayLiteral_ty items hv span c]
  cases items with
  | nil => exact ⟨.null, rfl, .inl ⟨rfl, rfl⟩⟩
  | cons e rest =>
    have hv' : ∀ t ∈ e.ty :: rest.map (·.ty), t.isVoid = false := by
      simpa using hv
    obtain ⟨C, hC⟩ := Option.isSome_iff_exists.mp
      (Ty.foldlM_commonSupertype?_isSome _ _ hv' (by simpa using hchain))
    refine ⟨C, by simp [hC], .inr ?_⟩
    simpa using Ty.foldlM_commonSupertype?_greatest _ _ _ hv' hC

theorem arrayLiteral_ty_eq_some_iff {items : List Typed.Expr}
    (hv : ∀ e ∈ items, e.ty.isVoid = false) (span : Span) (c : Checker) (C : Ty) :
    ((arrayLiteral (items.map some) span).run c).1.map (·.ty) = some (.array C) ↔
      (items = [] ∧ C = .null) ∨ Ty.Greatest (items.map (·.ty)) C := by
  constructor
  · intro h
    rw [arrayLiteral_ty items hv span c] at h
    cases items with
    | nil => cases h; exact .inl ⟨rfl, rfl⟩
    | cons e rest =>
      obtain ⟨M, hM, hMC⟩ := Option.map_eq_some_iff.mp h
      cases hMC
      have hv' : ∀ t ∈ e.ty :: rest.map (·.ty), t.isVoid = false := by
        simpa using hv
      exact .inr (by simpa using Ty.foldlM_commonSupertype?_greatest _ _ _ hv' hM)
  · intro h
    have hchain : IsChain (fun a b => Ty.assignable a b = true) {t | t ∈ items.map (·.ty)} := by
      rcases h with ⟨rfl, -⟩ | h
      · simp
      · exact h.isChain
    obtain ⟨C', hC', hgreatest⟩ := arrayLiteral_ty_of_isChain hv span c hchain
    rw [hC']
    rcases h with ⟨rfl, rfl⟩ | h <;> rcases hgreatest with ⟨hnil, rfl⟩ | h'
    · rfl
    · simp [Ty.Greatest] at h'
    · simp_all [Ty.Greatest]
    · rw [h'.unique h]

theorem arrayLiteral_eq_none_iff {items : List Typed.Expr}
    (hv : ∀ e ∈ items, e.ty.isVoid = false) (span : Span) (c : Checker) :
    ((arrayLiteral (items.map some) span).run c).1 = none ↔
      ¬ IsChain (fun a b => Ty.assignable a b = true) {t | t ∈ items.map (·.ty)} := by
  constructor
  · intro h hchain
    obtain ⟨C, hC, -⟩ := arrayLiteral_ty_of_isChain hv span c hchain
    rw [h] at hC
    cases hC
  · intro hchain
    cases hr : ((arrayLiteral (items.map some) span).run c).1 with
    | none => rfl
    | some e =>
      have h := arrayLiteral_ty items hv span c
      rw [hr] at h
      cases items with
      | nil => simp at hchain
      | cons e rest =>
        obtain ⟨M, hM, -⟩ := Option.map_eq_some_iff.mp h.symm
        have hv' : ∀ t ∈ e.ty :: rest.map (·.ty), t.isVoid = false := by
          simpa using hv
        exact absurd (by simpa using (Ty.foldlM_commonSupertype?_greatest _ _ _ hv' hM).isChain)
          hchain

/-- The type of an array literal does not depend on the order of its elements. For typed
elements other than `Void`, the literal gets the same type after any permutation of them, on any
state of the checker: an array of the greatest of their types under `assignable` (`Null[]` when
there are none), and no type exactly when their types do not form a chain. -/
theorem array_literal_type_is_greatest {items items' : List Typed.Expr} (hperm : items.Perm items')
    (hv : ∀ e ∈ items, e.ty.isVoid = false) (span : Span) (c c' : Checker) :
    ((arrayLiteral (items.map some) span).run c).1.map (·.ty) =
        ((arrayLiteral (items'.map some) span).run c').1.map (·.ty) ∧
      (∀ C, ((arrayLiteral (items.map some) span).run c).1.map (·.ty) = some (.array C) ↔
        (items = [] ∧ C = .null) ∨ Ty.Greatest (items.map (·.ty)) C) ∧
      (((arrayLiteral (items.map some) span).run c).1 = none ↔
        ¬ IsChain (fun a b => Ty.assignable a b = true) {t | t ∈ items.map (·.ty)}) := by
  have hv' : ∀ e ∈ items', e.ty.isVoid = false := fun e he => hv e (hperm.mem_iff.mpr he)
  have htypes : (items.map (·.ty)).Perm (items'.map (·.ty)) := hperm.map _
  have hset : {t | t ∈ items.map (·.ty)} = {t | t ∈ items'.map (·.ty)} := by
    ext t
    exact htypes.mem_iff
  refine ⟨?_, arrayLiteral_ty_eq_some_iff hv span c, arrayLiteral_eq_none_iff hv span c⟩
  by_cases hchain : IsChain (fun a b => Ty.assignable a b = true) {t | t ∈ items.map (·.ty)}
  · obtain ⟨C, hC, hgreatest⟩ := arrayLiteral_ty_of_isChain hv span c hchain
    rw [hC, eq_comm, arrayLiteral_ty_eq_some_iff hv' span c']
    rcases hgreatest with ⟨rfl, rfl⟩ | h
    · exact .inl ⟨List.Perm.nil_eq hperm |>.symm, rfl⟩
    · exact .inr (h.perm htypes)
  · have hnone := (arrayLiteral_eq_none_iff hv span c).mpr hchain
    have hnone' := (arrayLiteral_eq_none_iff hv' span c').mpr (hset ▸ hchain)
    rw [hnone, hnone']

/-- A literal of an empty array and a matrix of integers, in either order, is a matrix of
integers. -/
theorem array_literal_type_is_greatest_swapped :
    [(⟨.null, .array .null, ⟨0, 2⟩⟩ : Typed.Expr), ⟨.null, .array (.array .int), ⟨4, 9⟩⟩].Perm
        [⟨.null, .array (.array .int), ⟨4, 9⟩⟩, ⟨.null, .array .null, ⟨0, 2⟩⟩] ∧
      (∀ e ∈ [(⟨.null, .array .null, ⟨0, 2⟩⟩ : Typed.Expr), ⟨.null, .array (.array .int), ⟨4, 9⟩⟩],
        e.ty.isVoid = false) ∧
      ((arrayLiteral ([(⟨.null, .array .null, ⟨0, 2⟩⟩ : Typed.Expr),
            ⟨.null, .array (.array .int), ⟨4, 9⟩⟩].map some) ⟨0, 10⟩).run Checker.initial).1.map
          (·.ty) =
        ((arrayLiteral ([(⟨.null, .array (.array .int), ⟨4, 9⟩⟩ : Typed.Expr),
            ⟨.null, .array .null, ⟨0, 2⟩⟩].map some) ⟨0, 10⟩).run Checker.initial).1.map (·.ty) ∧
      (∀ C, ((arrayLiteral ([(⟨.null, .array .null, ⟨0, 2⟩⟩ : Typed.Expr),
            ⟨.null, .array (.array .int), ⟨4, 9⟩⟩].map some) ⟨0, 10⟩).run Checker.initial).1.map
          (·.ty) = some (.array C) ↔
        ([(⟨.null, .array .null, ⟨0, 2⟩⟩ : Typed.Expr), ⟨.null, .array (.array .int), ⟨4, 9⟩⟩] = [] ∧
          C = .null) ∨
        Ty.Greatest ([(⟨.null, .array .null, ⟨0, 2⟩⟩ : Typed.Expr),
          ⟨.null, .array (.array .int), ⟨4, 9⟩⟩].map (·.ty)) C) ∧
      (((arrayLiteral ([(⟨.null, .array .null, ⟨0, 2⟩⟩ : Typed.Expr),
            ⟨.null, .array (.array .int), ⟨4, 9⟩⟩].map some) ⟨0, 10⟩).run Checker.initial).1 = none ↔
        ¬ IsChain (fun a b => Ty.assignable a b = true)
          {t | t ∈ [(⟨.null, .array .null, ⟨0, 2⟩⟩ : Typed.Expr),
            ⟨.null, .array (.array .int), ⟨4, 9⟩⟩].map (·.ty)}) :=
  have hperm := List.Perm.swap _ _ []
  have hv : ∀ e ∈ [(⟨.null, .array .null, ⟨0, 2⟩⟩ : Typed.Expr),
      ⟨.null, .array (.array .int), ⟨4, 9⟩⟩], e.ty.isVoid = false := by simp [Ty.isVoid]
  ⟨hperm.symm, hv, array_literal_type_is_greatest hperm.symm hv ⟨0, 10⟩ Checker.initial
    Checker.initial⟩

end Typing

end Sigh
