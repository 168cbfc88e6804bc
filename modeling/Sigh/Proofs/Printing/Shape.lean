import Sigh.Proofs.Printing.Lexing
import Sigh.Proofs.Grammar

namespace Sigh

namespace Expr

mutual
theorem Every.and {p q : Expr → Prop} : ∀ {e : Expr}, e.Every p → e.Every q →
    e.Every fun x => p x ∧ q x
  | int .., hp, hq | float .., hp, hq | str .., hp, hq | ref .., hp, hq | ctor .., hp, hq =>
    ⟨⟨hp.1, hq.1⟩, trivial⟩
  | array .., hp, hq => ⟨⟨hp.1, hq.1⟩, EveryList.and hp.2 hq.2⟩
  | paren .., hp, hq | field .., hp, hq | not .., hp, hq => ⟨⟨hp.1, hq.1⟩, Every.and hp.2 hq.2⟩
  | index .., hp, hq | binary .., hp, hq | assign .., hp, hq =>
    ⟨⟨hp.1, hq.1⟩, Every.and hp.2.1 hq.2.1, Every.and hp.2.2 hq.2.2⟩
  | call .., hp, hq => ⟨⟨hp.1, hq.1⟩, Every.and hp.2.1 hq.2.1, EveryList.and hp.2.2 hq.2.2⟩

theorem EveryList.and {p q : Expr → Prop} : ∀ {es : List Expr}, EveryList p es → EveryList q es →
    EveryList (fun x => p x ∧ q x) es
  | [], _, _ => trivial
  | _ :: _, hp, hq => ⟨Every.and hp.1 hq.1, EveryList.and hp.2 hq.2⟩
end

end Expr

namespace Grammar

/-- Every identifier token of the list spells an identifier. -/
def IdentsSpelled (S : List Token) : Prop := ∀ t ∈ S, t.kind = .ident → IsIdentifier t.text

theorem IdentsSpelled.sub {S S' : List Token} (h : IdentsSpelled S) (hs : ∀ t ∈ S', t ∈ S) :
    IdentsSpelled S' :=
  fun t ht => h t (hs t ht)

open Sigh.Expr (Every EveryList ReaderShaped)

mutual
theorem IsExpr.shaped {S : List Token} {e : Expr} (hS : IdentsSpelled S) :
    IsExpr S e → e.Every ReaderShaped
  | .operand hb => hb.shaped hS
  | .assign hb _ hv =>
    ⟨trivial, hb.shaped (hS.sub fun _ h => by simp [h]), hv.shaped (hS.sub fun _ h => by simp [h])⟩

theorem IsBinary.shaped {level : Nat} {S : List Token} {e : Expr} (hS : IdentsSpelled S) :
    IsBinary level S e → e.Every ReaderShaped
  | .mk ho hch =>
    hch.shaped (hS.sub fun _ h => by simp [h]) (ho.shaped (hS.sub fun _ h => by simp [h]))

theorem IsChain.shaped {level : Nat} {left : Expr} {S : List Token} {e : Expr}
    (hS : IdentsSpelled S) :
    IsChain level left S e → left.Every ReaderShaped → e.Every ReaderShaped
  | .done, hleft => hleft
  | .more _ ho hch, hleft =>
    hch.shaped (hS.sub fun _ h => by simp [h])
      ⟨trivial, hleft, ho.shaped (hS.sub fun _ h => by simp [h])⟩

theorem IsOperand.shaped {level : Nat} {S : List Token} {e : Expr} (hS : IdentsSpelled S) :
    IsOperand level S e → e.Every ReaderShaped
  | .tighter _ hb => hb.shaped hS
  | .tightest _ hp => hp.shaped hS

theorem IsPrefix.shaped {S : List Token} {e : Expr} (hS : IdentsSpelled S) :
    IsPrefix S e → e.Every ReaderShaped
  | .not _ hp => ⟨trivial, hp.shaped (hS.sub fun _ h => by simp [h])⟩
  | .suffix hs => (hs.shaped hS).1

theorem IsSuffix.shaped {S : List Token} {e : Expr} (hS : IdentsSpelled S) :
    IsSuffix S e → e.Every ReaderShaped ∧ e.isNot = false
  | .mk hb hs =>
    have hbase := hb.shaped (hS.sub fun _ h => by simp [h])
    hs.shaped (hS.sub fun _ h => by simp [h]) hbase.1 hbase.2

theorem IsSuffixes.shaped {b : Expr} {S : List Token} {r : Expr} (hS : IdentsSpelled S) :
    IsSuffixes b S r → b.Every ReaderShaped → b.isNot = false →
      r.Every ReaderShaped ∧ r.isNot = false
  | .done, hb, hnot => ⟨hb, hnot⟩
  | .field _ hn hs, hb, hnot =>
    hs.shaped (hS.sub fun _ h => by simp [h]) ⟨⟨hnot, hS _ (by simp) hn⟩, hb⟩ rfl
  | .index _ hi _ hs, hb, hnot =>
    hs.shaped (hS.sub fun _ h => by simp [h])
      ⟨hnot, hb, hi.shaped (hS.sub fun _ h => by simp [h])⟩ rfl
  | .call _ ha _ hs, hb, hnot =>
    hs.shaped (hS.sub fun _ h => by simp [h])
      ⟨hnot, hb, ha.shaped (hS.sub fun _ h => by simp [h])⟩ rfl

theorem IsBasic.shaped {S : List Token} {e : Expr} (hS : IdentsSpelled S) :
    IsBasic S e → e.Every ReaderShaped ∧ e.isNot = false
  | .ctor _ hn => ⟨⟨hS _ (by simp) hn, trivial⟩, rfl⟩
  | .ref ht => ⟨⟨hS _ (by simp) ht, trivial⟩, rfl⟩
  | .int .. | .negInt .. | .float .. | .negFloat .. | .str .. => ⟨⟨trivial, trivial⟩, rfl⟩
  | .paren _ he _ => ⟨⟨trivial, he.shaped (hS.sub fun _ h => by simp [h])⟩, rfl⟩
  | .array _ ha _ => ⟨⟨trivial, ha.shaped (hS.sub fun _ h => by simp [h])⟩, rfl⟩

theorem IsArgs.shaped {S : List Token} {es : List Expr} (hS : IdentsSpelled S) :
    IsArgs S es → EveryList ReaderShaped es
  | .nil => trivial
  | .items hi => hi.shaped hS

theorem IsItems.shaped {S : List Token} {es : List Expr} (hS : IdentsSpelled S) :
    IsItems S es → EveryList ReaderShaped es
  | .one he => ⟨he.shaped hS, trivial⟩
  | .more he _ hi =>
    ⟨he.shaped (hS.sub fun _ h => by simp [h]), hi.shaped (hS.sub fun _ h => by simp [h])⟩
end

end Grammar

end Sigh
