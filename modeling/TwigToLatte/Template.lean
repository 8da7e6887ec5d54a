import TwigToLatte.Expr

/-!
# Templates

* `Stmt` — a statement with the line it comes from; `Stmt.Kind` lists the forms.
* `Template` — a parsed template: its body, the blocks and macros that it defines, and the
  template that it extends. A block is defined where its statement stands, and its body is kept
  beside the template's body.
-/

namespace TwigToLatte

/-- What an `include` or `embed` tag asks for. -/
structure Inclusion where
  template : Expr
  bindings : Option Expr := none
  only : Bool := false
  ignoreMissing : Bool := false
  sandboxed : Bool := false

mutual

/-- A statement and its line. -/
structure Stmt where
  kind : Stmt.Kind
  line : Nat

/-- The forms of statements. -/
inductive Stmt.Kind where
  | text (text : String)
  | comment (text : String)
  | verbatim (text : String)
  | print (expr : Expr)
  /-- An expression that is rendered as a statement of its own. -/
  | output (expr : Expr)
  /-- The place of a block; its body belongs to the template. -/
  | block (name : String)
  /-- A loop. `withLoop` tells that the body may use the loop variable. -/
  | loop (key : Option String) (value : String) (sequence : Expr) (body : List Stmt)
      (otherwise : Option (List Stmt)) (withLoop : Bool)
  | branch (branches : List (Expr × List Stmt)) (otherwise : Option (List Stmt))
  | assign (targets : List (String × Expr))
  | capture (name : String) (body : List Stmt)
  | inclusion (inclusion : Inclusion)
  | embed (inclusion : Inclusion) (template : Template)
  | importAs (template : Expr) (localName : String)
  | useBlocks (template : Expr) (targets : List (String × String))
  | inherit (template : Expr)
  | scope (bindings : Option Expr) (only : Bool) (body : List Stmt)
  | apply (filter : Expr) (body : List Stmt)
  | autoescape (strategy : Option String) (body : List Stmt)
  | sandbox (body : List Stmt)
  | cache (key : Expr) (ttl tags : Option Expr) (body : List Stmt)
  | evaluate (expr : Expr)
  | flush
  | deprecated (message : Expr)

/-- The definition of a block. -/
structure Block where
  body : List Stmt
  line : Nat

/-- The definition of a macro: its parameters with their defaults, and its body. -/
structure MacroDef where
  params : List (String × Expr)
  body : List Stmt
  line : Nat

/-- A parsed template. -/
structure Template where
  body : List Stmt
  /-- Blocks by name, in order of registration. -/
  blocks : List (String × Block)
  /-- Macros by name, in order of definition. -/
  macros : List (String × MacroDef)
  /-- The template that this one extends. -/
  parent : Option Expr
  /-- Statements that prepare the template and are not rendered. -/
  setup : List Stmt

end

instance : Inhabited Template := ⟨⟨[], [], [], none, []⟩⟩

/-- The template without the blocks of the given names. -/
def Template.eraseBlocks (names : List String) (template : Template) : Template :=
  { template with blocks := template.blocks.filter fun block => !names.contains block.1 }

end TwigToLatte
