import Sigh.Syntax

namespace Sigh

mutual
/-- Whether running the statement always ends in a `return`. -/
def Stmt.alwaysReturns : Stmt → Bool
  | .ret .. => true
  | .block body _ => Stmt.anyAlwaysReturns body
  | .ifElse _ thenBranch (some elseBranch) _ => thenBranch.alwaysReturns && elseBranch.alwaysReturns
  | _ => false
/-- Whether one of the statements always ends in a `return`. -/
def Stmt.anyAlwaysReturns : List Stmt → Bool
  | [] => false
  | s :: rest => s.alwaysReturns || Stmt.anyAlwaysReturns rest
end

end Sigh
