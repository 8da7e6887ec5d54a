import TwigToLatte.Pass

/-!
# Macros called through their own template

* `selfCalls` — turns each access to a named attribute of `_self` into a call of that macro, and
  lets a template that holds such a call import itself once.

The state tells of each template around the position, innermost first, whether it holds a call.
-/

namespace TwigToLatte

/-- The variable that stands for the template itself. -/
def selfName : String := "_self"

/-- Whether a statement imports the template itself. -/
def Stmt.isSelfImport (stmt : Stmt) : Bool :=
  match stmt.kind with
  | .importAs _ localName => localName == selfName
  | _ => false

/-- The statement by which a template imports itself. -/
def selfImport : Stmt := ⟨.importAs (Expr.name selfName 0) selfName, 0⟩

/-- The call that an access to the template itself stands for. -/
def Expr.selfCall? (e : Expr) : Option Expr :=
  match e.kind with
  | .access object key list _ defined =>
    if object.isName selfName then
      key.string?.map fun method =>
        { e with kind := .macroCall object method (list.map .positional) defined }
    else none
  | _ => none

/-- Calls of own macros. -/
def selfCalls : Pass (List Bool) where
  name := "macro_auto_import"
  enterTemplate _ := modify (false :: ·)
  leaveTemplate template := do
    let calls := (← get).head?.getD false
    modify List.tail
    if calls && !template.setup.any Stmt.isSelfImport then
      return { template with setup := template.setup ++ [selfImport] }
    else return template
  leaveExpr e := do
    match e.selfCall?, ← get with
    | some call, _ :: outer =>
      set (true :: outer)
      return call
    | _, _ => return e

end TwigToLatte
