import TwigToLatte.Latte.ClassAttribute
import TwigToLatte.Latte.Statement
import TwigToLatte.Pass.Pipeline
import TwigToLatte.Template.Grammar

/-!
# Conversions

* `Conversion` — the Latte code of a template, with the template's line for each of its lines that
  a statement begins.
* `convert` — reads a template, runs the passes over it and renders the result.
-/

namespace TwigToLatte

open Latte (RenderError)

/-- A converted template. -/
structure Conversion where
  code : String
  /-- Pairs of a line of the code and the line of the template it comes from. -/
  lineMap : Array (Nat × Nat)
  deriving DecidableEq, Repr

namespace Conversion

/-- The record of a template that was read. -/
def parsedRecord (name : String) (template : Template) : Log.Record :=
  ⟨.debug, "Parsed template",
    [("template", name), ("blocks", toString template.blocks.length),
      ("macros", toString template.macros.length)]⟩

/-- The record of a pass over a template. -/
def stageRecord (name : String) (stage : Stage) : Log.Record :=
  ⟨.debug, "Running node visitor", [("template", name), ("visitor", stage.name)]⟩

def finishedRecord (name : String) (conversion : Conversion) : Log.Record :=
  ⟨.info, "Converted template",
    [("template", name), ("bytes", toString conversion.code.utf8ByteSize)]⟩

end Conversion

/-- The conversion of a parsed template. -/
def Template.convert (dialect : Dialect) (name : String) (template : Template) :
    Except RenderError Conversion := do
  let (code, lineMap) ← Latte.render dialect name (dialect.runStages template)
  return { code := Latte.classAttributes code, lineMap }

/-- Converts a template. -/
def convert (dialect : Dialect) (source : Source) : Logged RenderError Conversion :=
  let name := source.displayName
  let parsed := Template.parse dialect source
  match parsed.result with
  | .error fault => ⟨.error (.fault fault), parsed.log⟩
  | .ok template =>
    let log := parsed.log.push (Conversion.parsedRecord name template)
      ++ (dialect.stages.map (Conversion.stageRecord name)).toArray
    match template.convert dialect name with
    | .error e => ⟨.error e, log⟩
    | .ok conversion => ⟨.ok conversion, log.push (Conversion.finishedRecord name conversion)⟩

end TwigToLatte
