import TwigToLatte.Fault
import TwigToLatte.Template
import TwigToLatte.Text.Blank

/-!
# Templates that extend another one

* `checkChild` — the body of a template with a parent holds no text but blanks outside blocks, and
  its blocks do not stand inside loops, branches or other regions that do not capture their
  content. Captures and `apply` regions may hold anything.
-/

namespace TwigToLatte

mutual

/-- The first fault of a statement; `nested` tells that it stands inside another one. -/
def Stmt.childFault? (nested : Bool) : Stmt → Option Fault
  | ⟨kind, line⟩ => kind.childFault? nested line

def Stmt.Kind.childFault? (nested : Bool) (line : Nat) : Stmt.Kind → Option Fault
  | .text text => if Text.isAllBlank text then none else some ⟨.childContent, line⟩
  | .block _ => if nested then some ⟨.childNestedBlock, line⟩ else none
  | .loop _ _ _ body otherwise _ =>
    (bodyChildFault? true body).or (optionalChildFault? otherwise)
  | .branch branches otherwise =>
    (branchesChildFault? branches).or (optionalChildFault? otherwise)
  | .scope _ _ body | .autoescape _ body | .cache _ _ _ body | .sandbox body =>
    bodyChildFault? true body
  | _ => none

def bodyChildFault? (nested : Bool) : List Stmt → Option Fault
  | [] => none
  | stmt :: rest => (stmt.childFault? nested).or (bodyChildFault? nested rest)

def optionalChildFault? : Option (List Stmt) → Option Fault
  | none => none
  | some body => bodyChildFault? true body

def branchesChildFault? : List (Expr × List Stmt) → Option Fault
  | [] => none
  | (_, body) :: rest => (bodyChildFault? true body).or (branchesChildFault? rest)

end

/-- Checks the body of a template that extends another one. -/
def checkChild (body : List Stmt) : Except Fault Unit :=
  match bodyChildFault? false body with
  | some fault => .error fault
  | none => .ok ()

end TwigToLatte
