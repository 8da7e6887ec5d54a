import TwigToLatte.Dialect
import TwigToLatte.Template

/-!
# Parsing tokens

* `Parse` — computations that read tokens: they see the tokens and the dialect, and keep a state
  that survives a fault as the fault left it.
* `Parse.State` — the position among the tokens, and the `Scope` of the template that is being
  read: its blocks, macros, parent and imported names.
* `look`, `next`, `nextIf`, `expect` — the ways to look at tokens and to take them. The end of the
  template is never taken.
* `loop` — repetition that ends because every round takes a token.
-/

namespace TwigToLatte

/-- What an imported name stands for. -/
inductive SymbolKind where
  /-- A macro imported by name. -/
  | function
  /-- A template imported under an alias. -/
  | template
  deriving DecidableEq, Repr

/-- Where an imported name points: a macro, and the variable that holds its template. -/
structure ImportedSymbol where
  name : String
  object : Option Expr := none

/-- The names imported in one scope, the latest first. -/
abbrev ImportScope := List ((SymbolKind × String) × ImportedSymbol)

/-- What the statements of a template share while they are read. -/
structure Scope where
  blocks : Registry Block := {}
  /-- The blocks that enclose the position, innermost first. -/
  blockStack : List String := []
  macros : Registry MacroDef := {}
  parent : Option Expr := none
  /-- Whether blocks of another template are used. -/
  usesBlocks : Bool := false
  /-- Scopes of imported names, innermost first; the last is that of the template. -/
  imports : List ImportScope := [[]]

namespace Parse

/-- What does not change while a template is read. -/
structure Context where
  dialect : Dialect
  /-- The name of the template in messages. -/
  template : String
  tokens : Array Token

structure State where
  /-- The index of the next token. -/
  cursor : Nat := 0
  scope : Scope := {}
  /-- The number of variable names made up so far. -/
  fresh : Nat := 0
  log : Array Log.Record := #[]

end Parse

/-- A computation that reads tokens. -/
abbrev Parse (α : Type) := ReaderT Parse.Context (EStateM Fault Parse.State) α

namespace Parse

variable {α β : Type}

/-! ## Faults and records -/

def fail (cause : Cause) (line : Nat) : Parse α := throw ⟨cause, line⟩

/-- The outcome of a pure check as a step of parsing. -/
def check (outcome : Except Fault α) : Parse α :=
  match outcome with
  | .ok a => pure a
  | .error fault => throw fault

def record (r : Log.Record) : Parse Unit := modify fun s => { s with log := s.log.push r }

/-! ## Tokens -/

/-- The token at an index, or the last one beyond it. -/
def Context.tokenAt (context : Context) (index : Nat) : Token :=
  context.tokens.getD (min index (context.tokens.size - 1)) Token.endOfTemplate

/-- The token `n` places ahead. -/
def look (n : Nat) : Parse Token := do
  return (← read).tokenAt ((← get).cursor + n)

def current : Parse Token := look 0

/-- The token taken last. -/
def previous : Parse (Option Token) := do
  let cursor := (← get).cursor
  if cursor = 0 then return none else return (← read).tokens[cursor - 1]?

def currentLine : Parse Nat := do
  return (← current).line

/-- The number of tokens not yet taken. -/
def remaining : Parse Nat := do
  return (← read).tokens.size - (← get).cursor

/-- Takes the next token, unless the template ends. -/
def next : Parse Token := do
  let token ← current
  if token.isEof then fail .endOfTemplate token.line
  else
    modify fun s => { s with cursor := s.cursor + 1 }
    return token

/-- Takes the next token if it passes the test. -/
def nextIf (test : Token → Bool) : Parse (Option Token) := do
  let token ← current
  if test token && !token.isEof then
    modify fun s => { s with cursor := s.cursor + 1 }
    return some token
  else return none

def nextIfPunctuation (mark : Char) : Parse (Option Token) := nextIf (·.isPunctuation mark)

def nextIfOperator (symbol : String) : Parse (Option Token) := nextIf (·.isOperator symbol)

def nextIfName (name : String) : Parse (Option Token) := nextIf (·.isName name)

/-- Takes the next token, which must pass the test; `wanted` describes it otherwise. -/
def expect (test : Token → Bool) (wanted : String) (context : Option String := none) :
    Parse Token := do
  let token ← current
  if test token then next else fail (.expected context token.kind wanted) token.line

def expectPunctuation (mark : Char) (context : Option String := none) : Parse Token :=
  expect (·.isPunctuation mark) ("\"punctuation\" with value \"" ++ String.singleton mark ++ "\"")
    context

def expectOperator (symbol : String) : Parse Token :=
  expect (·.isOperator symbol) ("\"operator\" with value \"" ++ symbol ++ "\"")

/-- Takes any name. -/
def expectNameToken (context : Option String := none) : Parse Token :=
  expect (·.name?.isSome) "\"name\"" context

/-- Takes any name and answers with it. -/
def expectName : Parse String := do
  return ((← expectNameToken).name?).getD ""

def expectNameValue (name : String) : Parse Token :=
  expect (·.isName name) ("\"name\" with value \"" ++ name ++ "\"")

def expectString : Parse String := do
  let token ← expect (fun t => t.kind matches .string _) "\"string\""
  match token.kind with
  | .string value => return value
  | _ => return ""

def expectBlockEnd : Parse Token := expect (·.kind == .blockEnd) "\"end of statement block\""

def expectVarEnd : Parse Token := expect (·.kind == .varEnd) "\"end of print statement\""

/-! ## Repetition -/

/-- Repeats `step` until it gives an answer, `limit` rounds at most. -/
def iterate (step : β → Parse (β ⊕ α)) : Nat → β → Parse α
  | 0, _ => do fail (.internal "A repetition took no token") (← currentLine)
  | limit + 1, state => do
    match ← step state with
    | .inl state => iterate step limit state
    | .inr answer => return answer

/-- Repeats `step`, which takes a token in every round but the last. -/
def loop (start : β) (step : β → Parse (β ⊕ α)) : Parse α := do
  iterate step ((← remaining) + 1) start

/-- A round of a list with commas: the elements so far, and whether it is the first round. -/
def separatedRound (close : Char) (comma : String) (element : β → Parse β) (round : β × Bool) :
    Parse ((β × Bool) ⊕ β) := do
  if (← current).isPunctuation close then return .inr round.1
  if !round.2 then
    let _ ← expectPunctuation ',' (some comma)
    if (← current).isPunctuation close then return .inr round.1
  return .inl (← element round.1, false)

/-- Elements up to the mark `close`, with commas between them and maybe one after the last;
`comma` says that one is missing. -/
def separated (close : Char) (comma : String) (element : β → Parse β) (start : β) : Parse β :=
  loop (start, true) (separatedRound close comma element)

/-- One or more elements with commas between them. -/
def commaList (element : Parse α) : Parse (List α) :=
  loop [] fun elements => do
    let elements := elements ++ [← element]
    if (← nextIfPunctuation ',').isSome then return .inl elements else return .inr elements

/-! ## The scope of the template -/

def getScope : Parse Scope := do
  return (← get).scope

def modifyScope (f : Scope → Scope) : Parse Unit := modify fun s => { s with scope := f s.scope }

/-- Runs `body` in a scope of its own and restores the present one, whatever the outcome. -/
def withScope (inner : Scope) (body : Parse α) : Parse α := fun context state =>
  match body context { state with scope := inner } with
  | .ok a after => .ok a { after with scope := state.scope }
  | .error fault after => .error fault { after with scope := state.scope }

/-- A variable name that no template uses. -/
def freshName : Parse String := do
  let n := (← get).fresh
  modify fun s => { s with fresh := n + 1 }
  return "__internal_" ++ toString n

def setBlock (name : String) (block : Block) : Parse Unit :=
  modifyScope fun s => { s with blocks := s.blocks.insert name block }

def pushBlock (name : String) : Parse Unit :=
  modifyScope fun s => { s with blockStack := name :: s.blockStack }

def popBlock : Parse Unit := modifyScope fun s => { s with blockStack := s.blockStack.tail }

/-- The innermost block around the position. -/
def enclosingBlock : Parse (Option String) := do
  return (← getScope).blockStack.head?

def setMacro (name : String) (definition : MacroDef) : Parse Unit :=
  modifyScope fun s => { s with macros := s.macros.insert name definition }

def setParent (parent : Expr) : Parse Unit := modifyScope fun s => { s with parent := some parent }

def markUse : Parse Unit := modifyScope fun s => { s with usesBlocks := true }

/-- Whether the position is outside blocks and macros. -/
def isMainScope : Parse Bool := do
  return (← getScope).imports.length == 1

def pushImports : Parse Unit := modifyScope fun s => { s with imports := [] :: s.imports }

/-- Leaves a scope of imported names, but never that of the template. -/
def popImports : Parse Unit :=
  modifyScope fun s => if 1 < s.imports.length then { s with imports := s.imports.tail } else s

/-- Registers an imported name in the innermost scope. -/
def addSymbol (kind : SymbolKind) (localName : String) (symbol : ImportedSymbol) : Parse Unit :=
  modifyScope fun s =>
    match s.imports with
    | [] => s
    | scope :: outer => { s with imports := (((kind, localName), symbol) :: scope) :: outer }

/-- The meaning of an imported name, the innermost scope first. -/
def symbol? (kind : SymbolKind) (localName : String) : Parse (Option ImportedSymbol) := do
  return (← getScope).imports.findSome? (·.lookup (kind, localName))

end Parse

end TwigToLatte
