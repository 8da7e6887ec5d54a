import TwigToLatte.Expr.Grammar
import TwigToLatte.Source
import TwigToLatte.Template.Child
import TwigToLatte.Token.Lexer

/-!
# The grammar of statements

A tag opens with its keyword and may enclose statements up to an end tag. The rules are written for
a given rule `inner` of the enclosed statements, which they ask only after a token has been taken;
`statementsUpTo n` reads statements that nest at most `n` deep.

* `statementsRule` — statements up to an end tag or the end of the template.
* `tagRule` — one tag, from after its keyword to its last delimiter.
* `finishTemplate`, `embedded` — a template from its body, and one embedded in another.
* `Template.parse` — the template that a source holds.
-/

namespace TwigToLatte

/-- The end tags at which statements stop, and the tag that they belong to. -/
structure EndTags where
  tag : String
  line : Nat
  names : List String
  deriving DecidableEq, Repr

namespace Grammar

open Parse

/-- Reads statements up to an end tag, or to the end of the template where none is given; the flag
asks to take the name of the end tag too. -/
abbrev Statements := Option EndTags → Bool → Parse (List Stmt)

/-! ## Tags with a body -/

/-- The body of a tag up to its end tag. -/
def region (inner : Statements) (tag : Tag) (line : Nat) (endName : String) :
    Parse (List Stmt) := do
  let _ ← expectBlockEnd
  let body ← inner (some ⟨tag.keyword, line, [endName]⟩) true
  let _ ← expectBlockEnd
  return body

/-- A test and the statements that depend on it. -/
def guardedBody (inner : Statements) (line : Nat) : Parse (Expr × List Stmt) := do
  let test ← expression
  let _ ← expectBlockEnd
  return (test, ← inner (some ⟨"if", line, ["elseif", "else", "endif"]⟩) false)

/-- The branches of an `if` tag after the first. -/
def moreBranches (inner : Statements) (line : Nat) (first : Expr × List Stmt) :
    Parse (List (Expr × List Stmt) × Option (List Stmt)) :=
  loop ([first], (none : Option (List Stmt))) fun (branches, otherwise) => do
    let token ← next
    match token.name? with
    | some "else" =>
      let _ ← expectBlockEnd
      return .inl (branches, some (← inner (some ⟨"if", line, ["endif"]⟩) false))
    | some "elseif" => return .inl (branches ++ [← guardedBody inner line], otherwise)
    | some "endif" => return .inr (branches, otherwise)
    | _ => fail (.ifNotClosed line) token.line

def branchTag (inner : Statements) (line : Nat) : Parse Stmt.Kind := do
  let first ← guardedBody inner line
  let (branches, otherwise) ← moreBranches inner line first
  let _ ← expectBlockEnd
  return .branch branches otherwise

def loopTag (inner : Statements) (line : Nat) : Parse Stmt.Kind := do
  let targets ← assignmentTargets
  let _ ← expectOperator "in"
  let sequence ← expression
  let _ ← expectBlockEnd
  let body ← inner (some ⟨"for", line, ["else", "endfor"]⟩) false
  let otherwise ←
    if (← next).isName "else" then do
      let _ ← expectBlockEnd
      pure (some (← inner (some ⟨"for", line, ["endfor"]⟩) true))
    else pure none
  let _ ← expectBlockEnd
  match targets with
  | key :: value :: _ => return .loop (some key) value sequence body otherwise true
  | [value] => return .loop none value sequence body otherwise true
  | [] => fail .loopTargets line

def assignTag (inner : Statements) (line : Nat) : Parse Stmt.Kind := do
  let names ← assignmentTargets
  if (← nextIfOperator "=").isSome then
    let values ← assignedValues
    let _ ← expectBlockEnd
    if names.length = values.length then return .assign (names.zip values)
    else fail .setCount (← currentLine)
  else
    match names with
    | [name] => return .capture name (← region inner .assign line "endset")
    | _ => fail .setCapture (← currentLine)

def scopeTag (inner : Statements) (line : Nat) : Parse Stmt.Kind := do
  if (← current).kind == .blockEnd then
    return .scope none false (← region inner .scope line "endwith")
  else
    let bindings ← expression
    let only ← nextIfName "only"
    return .scope (some bindings) only.isSome (← region inner .scope line "endwith")

def applyTag (inner : Statements) (line : Nat) : Parse Stmt.Kind := do
  let filter ← nested fun r => filterChain r { kind := .applyTarget, line }
  return .apply filter (← region inner .apply line "endapply")

/-- The escaping strategy of a region; `false` switches escaping off. -/
def escapingStrategy : Parse (Option String) := do
  if (← current).kind == .blockEnd then return some "html"
  else
    match (← expression).kind with
    | .constant (.string strategy) => return some strategy
    | .constant (.bool false) => return none
    | _ => fail .escapingStrategy (← currentLine)

def autoescapeTag (inner : Statements) (line : Nat) : Parse Stmt.Kind := do
  let strategy ← escapingStrategy
  return .autoescape strategy (← region inner .autoescape line "endautoescape")

/-- The statements of a sandbox: blank text, and inclusions, which become sandboxed. -/
def sandboxed : List Stmt → Except Fault (List Stmt)
  | [] => .ok []
  | stmt :: rest =>
    match stmt.kind with
    | .text text =>
      if Text.isAllBlank text then (sandboxed rest).map (stmt :: ·)
      else .error ⟨.sandboxContent, stmt.line⟩
    | .inclusion inclusion =>
      (sandboxed rest).map (⟨.inclusion { inclusion with sandboxed := true }, stmt.line⟩ :: ·)
    | _ => .error ⟨.sandboxContent, stmt.line⟩

def sandboxTag (inner : Statements) (line : Nat) : Parse Stmt.Kind := do
  let body ← region inner .sandbox line "endsandbox"
  return .sandbox (← check (sandboxed body))

/-- The argument of a modifier of a cached region, which must be the only one. -/
def modifierArgument (modifier : String) (list : List (Argument Expr)) : Parse Expr := do
  match list with
  | [argument] => return argument.value
  | _ => fail (.modifierArity modifier list.length) (← currentLine)

/-- The modifiers of a cached region: its time to live and its tags. -/
def cacheModifiers : Parse (Option Expr × Option Expr) :=
  loop ((none, none) : Option Expr × Option Expr) fun (ttl, tags) => do
    match (← current).name? with
    | none => return .inr (ttl, tags)
    | some modifier =>
      let _ ← next
      let list ← nested fun r => arguments r false false
      match modifier with
      | "ttl" => return .inl (some (← modifierArgument modifier list), tags)
      | "tags" => return .inl (ttl, some (← modifierArgument modifier list))
      | _ => fail (.modifierUnknown modifier) (← currentLine)

def cacheTag (inner : Statements) (line : Nat) : Parse Stmt.Kind := do
  let key ← expression
  let (ttl, tags) ← cacheModifiers
  return .cache key ttl tags (← region inner .cache line "endcache")

/-! ## Single tags -/

def evaluateTag : Parse Stmt.Kind := do
  let e ← expression
  let _ ← expectBlockEnd
  return .evaluate e

def flushTag : Parse Stmt.Kind := do
  let _ ← expectBlockEnd
  return .flush

/-- A notice that the template is deprecated, which is also recorded. -/
def deprecatedTag (line : Nat) : Parse Stmt.Kind := do
  let e ← expression
  let _ ← expectBlockEnd
  match e.string? with
  | some message =>
    record
      { level := .warn
        message := "Deprecated template: " ++ message
        fields := [("template", (← read).template), ("line", toString line)] }
  | none => pure ()
  return .deprecated e

/-! ## Blocks, macros and other templates -/

/-- A name with an optional alias; without one the name is its own alias. -/
def aliasedName : Parse (String × String) := do
  let name ← expectName
  if (← nextIfName "as").isSome then return (name, ← expectName) else return (name, name)

/-- The name that may be repeated after an end tag. -/
def checkEndName (tag : Tag) (name : String) : Parse Unit := do
  match (← nextIf (·.name?.isSome)).bind Token.name? with
  | none => return
  | some given =>
    if given = name then return else fail (.endName tag.keyword name given) (← currentLine)

/-- The body of a block: statements up to its end tag, or a single expression. -/
def blockBody (inner : Statements) (name : String) (line : Nat) : Parse (List Stmt) := do
  if (← nextIf (·.kind == .blockEnd)).isSome then
    let body ← inner (some ⟨"block", line, ["endblock"]⟩) true
    checkEndName .block name
    return body
  else return [⟨.print (← expression), line⟩]

/-- A block. It is registered before its body is read, so that no block inside it takes its
name. -/
def blockTag (inner : Statements) (line : Nat) : Parse Stmt.Kind := do
  let name ← expectName
  match (← getScope).blocks.get? name with
  | some block => fail (.duplicateBlock name block.line) (← currentLine)
  | none =>
    setBlock name ⟨[], line⟩
    pushImports
    pushBlock name
    let body ← blockBody inner name line
    let _ ← expectBlockEnd
    setBlock name ⟨body, line⟩
    popBlock
    popImports
    return .block name

/-- Where an `extends` tag may not stand. -/
def extendsMisuse? : Parse (Option Cause.Extends) := do
  if (← enclosingBlock).isSome then return some .inBlock
  else if !(← isMainScope) then return some .inMacro
  else if (← getScope).parent.isSome then return some .again
  else return none

def inheritTag (line : Nat) : Parse Stmt.Kind := do
  match ← extendsMisuse? with
  | some misuse => fail (.extendsMisuse misuse) line
  | none =>
    let parent ← expression
    let _ ← expectBlockEnd
    setParent parent
    return .inherit parent

def useTag (line : Nat) : Parse Stmt.Kind := do
  let template ← expression
  if template.constant?.isNone then fail .useTemplate line
  else
    let targets ← if (← nextIfName "with").isSome then commaList aliasedName else pure []
    let _ ← expectBlockEnd
    markUse
    return .useBlocks template targets

/-- A macro, which is registered and leaves no statement. -/
def macroTag (inner : Statements) (line : Nat) : Parse Unit := do
  let name ← expectName
  let params ← nested macroParams
  let _ ← expectBlockEnd
  pushImports
  let body ← inner (some ⟨"macro", line, ["endmacro"]⟩) true
  checkEndName .defineMacro name
  popImports
  let _ ← expectBlockEnd
  setMacro name ⟨params, body, line⟩

def importTag : Parse Stmt.Kind := do
  let template ← expression
  let _ ← expectNameValue "as"
  let localName ← expectName
  let _ ← expectBlockEnd
  addSymbol .template localName { name := localName }
  return .importAs template localName

/-- Macros imported by name, through a variable made up for their template. -/
def importNamesTag (line : Nat) : Parse Stmt.Kind := do
  let template ← expression
  let _ ← expectNameValue "import"
  let targets ← commaList aliasedName
  let _ ← expectBlockEnd
  let variableName ← freshName
  targets.forM fun (name, localName) =>
    addSymbol .function localName { name, object := some (Expr.name variableName line) }
  return .importAs template variableName

/-- What follows the template of an `include` or `embed` tag, up to the end of the tag. -/
def inclusion (template : Expr) : Parse Inclusion := do
  let ignored ← nextIfName "ignore"
  if ignored.isSome then
    let _ ← expectNameValue "missing"
  let bindings ← if (← nextIfName "with").isSome then do pure (some (← expression)) else pure none
  let only ← nextIfName "only"
  let _ ← expectBlockEnd
  return { template, bindings, only := only.isSome, ignoreMissing := ignored.isSome }

def inclusionTag : Parse Stmt.Kind := do
  return .inclusion (← inclusion (← expression))

/-- The template whose body has been read. What it defines leaves the scope. -/
def finishTemplate (body : List Stmt) : Parse Template := do
  let scope ← getScope
  if scope.parent.isSome then check (checkChild body)
  if !scope.blockStack.isEmpty || scope.imports.length != 1 then
    fail .unbalanced (← currentLine)
  else
    modifyScope fun s => { s with blocks := {}, macros := {}, parent := none }
    return ⟨body, scope.blocks.entries, scope.macros.entries, scope.parent, []⟩

/-- A template embedded in another one, with a scope of its own. -/
def embeddedTemplate (inner : Statements) (parent : Expr) (endTags : EndTags) : Parse Template :=
  withScope { parent := some parent } do
    finishTemplate (← inner (some endTags) true)

def embedTag (inner : Statements) (line : Nat) : Parse Stmt.Kind := do
  let parent ← expression
  let arguments ← inclusion parent
  let template ← embeddedTemplate inner parent ⟨"embed", line, ["endembed"]⟩
  let _ ← expectBlockEnd
  return .embed arguments template

/-- A tag, after its keyword. The definition of a macro leaves no statement. -/
def tagRule (inner : Statements) (tag : Tag) (line : Nat) : Parse (Option Stmt.Kind) := do
  match tag with
  | .apply => some <$> applyTag inner line
  | .autoescape => some <$> autoescapeTag inner line
  | .block => some <$> blockTag inner line
  | .cache => some <$> cacheTag inner line
  | .deprecated => some <$> deprecatedTag line
  | .evaluate => some <$> evaluateTag
  | .embed => some <$> embedTag inner line
  | .inherit => some <$> inheritTag line
  | .flush => some <$> flushTag
  | .loop => some <$> loopTag inner line
  | .importNames => some <$> importNamesTag line
  | .branch => some <$> branchTag inner line
  | .importAs => some <$> importTag
  | .inclusion => some <$> inclusionTag
  | .defineMacro => do
    macroTag inner line
    return none
  | .sandbox => some <$> sandboxTag inner line
  | .assign => some <$> assignTag inner line
  | .useBlocks => some <$> useTag line
  | .scope => some <$> scopeTag inner line

/-! ## Statements -/

/-- A print statement, after its delimiter. -/
def printRule : Parse Stmt.Kind := do
  let e ← expression
  let _ ← expectVarEnd
  return .print e

/-- The keyword of a tag, without taking it. -/
def tagName : Parse String := do
  let token ← current
  match token.name? with
  | some name => return name
  | none => fail .missingTagName token.line

/-- The complaint about a tag that the dialect does not know. -/
def unknownTag (name : String) (line : Nat) (endTags : Option EndTags) : Parse (Option Stmt) := do
  match endTags with
  | some endTags => fail (.misplacedTag name endTags.tag endTags.line) line
  | none => fail (.unknownTag name (← read).dialect.tags.keys) line

/-- A tag with its keyword. -/
def tagStatement (inner : Statements) (endTags : Option EndTags) (name : String) :
    Parse (Option Stmt) := do
  let line ← currentLine
  match (← read).dialect.tag? name with
  | none => unknownTag name line endTags
  | some tag =>
    let _ ← next
    record
      { level := .trace
        message := "Parsing \"" ++ name ++ "\" tag at line " ++ toString line }
    return (← tagRule inner tag line).map (⟨·, line⟩)

/-- The statements end where the template does, which is too early if an end tag is due. -/
def endOfStatements (endTags : Option EndTags) (body : List Stmt) : Parse (List Stmt) := do
  match endTags with
  | none => return body
  | some endTags => fail (.missingEndTag endTags.tag endTags.line) (← currentLine)

/-- Statements up to one of the end tags or the end of the template. -/
def statementsRule (inner : Statements) (endTags : Option EndTags) (takeEnd : Bool) :
    Parse (List Stmt) :=
  loop [] fun body => do
    let token ← current
    match token.kind with
    | .eof => return .inr (← endOfStatements endTags body)
    | .text text =>
      let _ ← next
      return .inl (body ++ [⟨.text text, token.line⟩])
    | .comment text =>
      let _ ← next
      return .inl (body ++ [⟨.comment text, token.line⟩])
    | .verbatim text =>
      let _ ← next
      return .inl (body ++ [⟨.verbatim text, token.line⟩])
    | .varStart =>
      let _ ← next
      return .inl (body ++ [⟨← printRule, token.line⟩])
    | .blockStart =>
      let _ ← next
      let name ← tagName
      if endTags.any (·.names.contains name) then
        if takeEnd then
          let _ ← next
        return .inr body
      else return .inl (body ++ (← tagStatement inner endTags name).toList)
    | found => fail (.unexpectedToken found) token.line

/-- No statement nests deeper than the template has tokens. -/
def tooDeepStatements : Parse (List Stmt) := do
  fail (.internal "A statement nests deeper than the template has tokens") (← currentLine)

/-- Statements that nest at most as deep as given. -/
def statementsUpTo : Nat → Statements
  | 0 => fun _ _ => tooDeepStatements
  | depth + 1 => statementsRule (statementsUpTo depth)

/-- Statements up to one of the end tags or the end of the template. -/
def statements : Statements := fun endTags takeEnd => do
  statementsUpTo ((← remaining) + 1) endTags takeEnd

/-- A template embedded in another one, up to its end tag. -/
def embedded (parent : Expr) (endTags : EndTags) : Parse Template :=
  embeddedTemplate statements parent endTags

/-- A template up to its end. -/
def template : Parse Template := do finishTemplate (← statements none false)

end Grammar

/-- The record of the tokens of a source. -/
def Source.tokenizedRecord (source : Source) (tokens : Array Token) : Log.Record :=
  ⟨.debug, "Tokenized template",
    [("template", source.displayName), ("tokens", toString tokens.size)]⟩

def Dialect.tokenize (dialect : Dialect) (source : Source) : Logged Fault (Array Token) :=
  match Lexer.tokenize source.text dialect.operatorSymbols with
  | .error fault => ⟨.error fault, #[]⟩
  | .ok tokens => ⟨.ok tokens, #[source.tokenizedRecord tokens]⟩

def Template.parse (dialect : Dialect) (source : Source) : Logged Fault Template :=
  match dialect.tokenize source with
  | ⟨.error fault, log⟩ => ⟨.error fault, log⟩
  | ⟨.ok tokens, log⟩ =>
    match Grammar.template ⟨dialect, source.displayName, tokens⟩ { log } with
    | .ok template state => ⟨.ok template, state.log⟩
    | .error fault state => ⟨.error fault, state.log⟩

end TwigToLatte
