import TwigToLatte.Latte.Expression
import TwigToLatte.Latte.Output
import TwigToLatte.Template

/-!
# Statements and templates in Latte

* `statement`, `statements` — a statement, and several in order. Every statement but plain text
  notes the line of the template that it comes from.
* `template` — a template: its body with each block in its place, followed by its macros.
* `BlockWriter` — how the blocks of the template around a statement are written. The body of a
  block may hold places of further blocks, so a writer is built to the depth that the number of
  blocks allows.
-/

namespace TwigToLatte.Latte

/-! ## Parts without statements -/

/-- A comment. Its text cannot end it. -/
def comment (text : String) : String := "\x7b*" ++ Text.replace "*\x7d" "* \x7d" text ++ "*\x7d"

/-- Text in which braces mean nothing. -/
def verbatim (text : String) : String := "\x7bsyntax off\x7d" ++ text ++ "\x7b/syntax\x7d"

/-- An expression as a tag that prints it. Only variables print without the equals sign. -/
def printTag (rendered : String) : String :=
  if rendered.toList.head? == some '$' then "\x7b" ++ rendered ++ "\x7d"
  else "\x7b=" ++ rendered ++ "\x7d"

def loopHead (scope : Scope) (key : Option String) (value : String) (sequence : Expr) :
    Rendered :=
  "\x7bforeach " ++ expression scope sequence ++
    (" as " ++ (key.map fun key => "$" ++ key ++ " => ").getD "" ++ "$" ++ value ++ "\x7d")

/-- The loop's variables are bound in its body. -/
def Scope.bind (scope : Scope) (key : Option String) (value : String) : Scope :=
  { scope with bound := scope.bound ++ key.toList ++ [value] }

def assignment (scope : Scope) (target : String × Expr) : Rendered :=
  ("$" ++ target.1 ++ " = ") ++ expression scope target.2

def commaSeparated : List Rendered → Rendered
  | [] => ""
  | first :: rest => rest.foldl (fun text r => text ++ ", " ++ r) first

def assignTag (scope : Scope) (targets : List (String × Expr)) : Rendered :=
  "\x7bvar " ++ commaSeparated (targets.map (assignment scope)) ++ "\x7d"

def captureHead (name : String) : String := "\x7bcapture $" ++ name ++ "\x7d"

/-- A tag that names another template, with what follows the name. -/
def nameTemplate (scope : Scope) (tag : String) (template : Expr) (rest : Rendered) :
    Emit Unit := do
  Emit.text ("\x7b" ++ tag ++ " ")
  Emit.mapped latteExtension (expression scope template)
  Emit.rendered rest

/-- The variables handed to an included template. -/
def inclusionVariables (scope : Scope) : Option Expr → Rendered
  | none => ""
  | some ⟨.array items, _, _⟩ => ", " ++ elements scope items
  | some e => ", ..." ++ expression scope e

def openInclusion (scope : Scope) (tag : String) (inclusion : Inclusion) : Emit Unit :=
  nameTemplate scope tag inclusion.template
    (inclusionVariables scope inclusion.bindings ++ "\x7d")

/-- The opening of a region in which a missing template is no error. -/
def tryOpen (inclusion : Inclusion) : String :=
  if inclusion.ignoreMissing then "\x7btry\x7d\n" else ""

/-- The end of such a region. -/
def tryClose (inclusion : Inclusion) : String :=
  if inclusion.ignoreMissing then "\x7b/try\x7d\n" else ""

/-- A variable of a scope; a name is written as such, any other key as an expression. -/
def scopeVariable (scope : Scope) (item : Expr × Expr) : Rendered :=
  (match item.1.string? with
    | some name => "$" ++ name
    | none => expression scope item.1 : Rendered) ++ " = " ++ expression scope item.2

def scopeTag (scope : Scope) (items : List (Expr × Expr)) : Rendered :=
  "\n\x7bvar " ++ commaSeparated (items.map (scopeVariable scope)) ++ "\x7d"

def scopeVariables (scope : Scope) : Expr → Emit Unit
  | ⟨.array [], _, _⟩ => pure ()
  | ⟨.array items, _, _⟩ => .rendered (scopeTag scope items)
  | e => do
    let name ← Emit.freshName
    .rendered (("\n\x7bvar $" ++ name ++ " = ") ++ expression scope e ++ "\x7d")

def scopeOpen (scope : Scope) (bindings : Option Expr) (only : Bool) : Emit Unit := do
  Emit.text "\x7bblock\x7d"
  match bindings with
  | none => pure ()
  | some e =>
    scopeVariables scope e
    if only then Emit.text "\x7b* WARNING: 'only' is not supported *\x7d"

/-- An option of a cached region. -/
def cacheOption (scope : Scope) (name : String) : Option Expr → Rendered
  | none => ""
  | some e => (", " ++ name ++ ": ") ++ expression scope e

/-- The notice that a template is deprecated, with its name and line. -/
def deprecation (scope : Scope) (message : Expr) (line : Nat) : Rendered :=
  "\x7bdo trigger_error(" ++ expression scope message ++ " . " ++
    string (" (\"" ++ scope.template ++ "\" at line " ++ toString line ++ ").") ++
    ", E_USER_DEPRECATED) \x7d"

/-- A parameter of a macro; null is implied. -/
def macroParam (scope : Scope) (param : String × Expr) : Rendered :=
  (", $" ++ param.1) ++
    (if param.2.isNull then "" else " = " ++ expression scope param.2 : Rendered)

/-- The head of a macro. The parameter that collects surplus arguments cannot be declared. -/
def macroHead (scope : Scope) (name : String) (params : List (String × Expr)) : Rendered :=
  match params.find? (·.1 == "varargs") with
  | some param => .fail (.fault ⟨.reservedArgument name, param.2.line⟩)
  | none =>
    (params.map (macroParam scope)).foldl (· ++ ·) (("\x7bdefine " ++ name : String) : Rendered)
      ++ "\x7d"

/-! ## Statements -/

/-- Writes the block of a name that stands at a line, in a scope. -/
abbrev BlockWriter := String → Nat → Scope → Emit Unit

/-- The bodies of blocks, each for a writer of the blocks inside it. -/
abbrev BlockBodies := List (String × (BlockWriter → Scope → Emit Unit))

/-- Writes a block at its place, given a way to write the blocks inside it. -/
def inlineBlock (bodies : BlockBodies) (block : BlockWriter) : BlockWriter :=
  fun name line scope =>
    match bodies.lookup name with
    | none => throw (.undefinedBlock name line)
    | some body => do
      Emit.text ("\x7bblock " ++ name ++ "\x7d")
      body block scope
      Emit.text "\x7b/block\x7d"

/-- Writes blocks that are nested up to the given depth. -/
def writeBlocks (bodies : BlockBodies) : Nat → BlockWriter
  | 0 => fun name line _ => throw (.undefinedBlock name line)
  | depth + 1 => inlineBlock bodies (writeBlocks bodies depth)

mutual

def statement : Stmt → BlockWriter → Scope → Emit Unit
  | ⟨.text text, _⟩, _, _ => .text text
  | ⟨kind, line⟩, block, scope => do
    Emit.mark line
    statementKind kind line block scope

/-- A statement by its form. -/
def statementKind : Stmt.Kind → Nat → BlockWriter → Scope → Emit Unit
  | .text text, _, _, _ => .text text
  | .comment text, _, _, _ => .text (comment text)
  | .verbatim text, _, _, _ => .text (verbatim text)
  | .print e, _, _, scope => .mapped printTag (expression scope e)
  | .output e, _, _, scope => .rendered (expression scope e)
  | .block name, line, block, scope => block name line scope
  | .loop key value sequence body otherwise _, _, block, scope => do
    Emit.rendered (loopHead scope key value sequence)
    statements body block (scope.bind key value)
    otherwiseBody otherwise block scope
    Emit.text "\x7b/foreach\x7d"
  | .branch branches otherwise, _, block, scope => do
    branchBodies "if" branches block scope
    otherwiseBody otherwise block scope
    Emit.text "\x7b/if\x7d"
  | .assign targets, _, _, scope => .rendered (assignTag scope targets)
  | .capture name body, _, block, scope => do
    Emit.text (captureHead name)
    statements body block scope
    Emit.text "\x7b/capture\x7d"
  | .inclusion inclusion, _, _, scope => do
    Emit.text (tryOpen inclusion)
    openInclusion scope (if inclusion.sandboxed then "sandbox" else "include") inclusion
    Emit.text (tryClose inclusion)
  | .embed inclusion embedded, _, _, scope => do
    Emit.text (tryOpen inclusion)
    openInclusion scope "embed" inclusion
    Emit.text "\n"
    template embedded scope
    Emit.text "\x7b/embed\x7d"
    Emit.text (tryClose inclusion)
  | .importAs template _, _, _, scope => nameTemplate scope "import" template "\x7d"
  | .useBlocks template _, _, _, scope => nameTemplate scope "import" template "\x7d"
  | .inherit template, _, _, scope => nameTemplate scope "layout" template "\x7d"
  | .scope bindings only body, _, block, scope => do
    scopeOpen scope bindings only
    statements body block scope
    Emit.text "\x7b/block\x7d"
  | .apply filter body, _, block, scope => do
    Emit.rendered ("\x7bblock" ++ expressionAlone scope filter ++ "\x7d")
    statements body block scope
    Emit.text "\x7b/block\x7d"
  | .autoescape _ body, _, block, scope => statements body block scope
  | .sandbox body, _, block, scope => statements body block scope
  | .cache key ttl tags body, _, block, scope => do
    Emit.rendered
      ("\x7bcache " ++ expression scope key ++ cacheOption scope "expire" ttl
        ++ cacheOption scope "tags" tags ++ "\x7d")
    statements body block scope
    Emit.text "\x7b/cache\x7d"
  | .evaluate e, _, _, scope => .rendered ("\x7bdo " ++ expression scope e ++ "\x7d")
  | .flush, _, _, _ => .text "\x7bdo flush()\x7d"
  | .deprecated message, line, _, scope => .rendered (deprecation scope message line)

def statements : List Stmt → BlockWriter → Scope → Emit Unit
  | [], _, _ => pure ()
  | stmt :: rest, block, scope => do
    statement stmt block scope
    statements rest block scope

/-- The alternative of a loop or a branch. -/
def otherwiseBody : Option (List Stmt) → BlockWriter → Scope → Emit Unit
  | none, _, _ => pure ()
  | some body, block, scope => do
    Emit.text "\x7belse\x7d"
    statements body block scope

/-- The branches of a condition, the first one under the given tag. -/
def branchBodies (tag : String) : List (Expr × List Stmt) → BlockWriter → Scope → Emit Unit
  | [], _, _ => pure ()
  | (test, body) :: rest, block, scope => do
    Emit.rendered (("\x7b" ++ tag ++ " ") ++ expression scope test ++ "\x7d")
    statements body block scope
    branchBodies "elseif" rest block scope

def blockBodies : List (String × Block) → BlockBodies
  | [] => []
  | (name, ⟨body, _⟩) :: rest => (name, statements body) :: blockBodies rest

def macroDefs : List (String × MacroDef) → BlockWriter → Scope → Emit Unit
  | [], _, _ => pure ()
  | (name, ⟨params, body, line⟩) :: rest, block, scope => do
    Emit.mark line
    Emit.rendered (macroHead scope name params)
    statements body block scope
    Emit.text "\x7b/define\x7d"
    macroDefs rest block scope

def template : Template → Scope → Emit Unit
  | ⟨body, blocks, macros, _, _⟩, scope => do
    let block := writeBlocks (blockBodies blocks) blocks.length
    statements body block scope
    macroDefs macros block scope

end

/-- The code of a template and its line map, or the first error. -/
def render (dialect : Dialect) (name : String) (tree : Template) :
    Except RenderError (String × Array (Nat × Nat)) :=
  match template tree { dialect, template := name } {} with
  | .ok _ out => .ok (out.text, out.lineMap)
  | .error e _ => .error e

end TwigToLatte.Latte
