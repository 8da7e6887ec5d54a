import TwigToLatte.Pass.LatteIdiom
import TwigToLatte.Pass.LoopContext
import TwigToLatte.Pass.SelfCall

/-!
# The passes of a conversion

* `Dialect.stages` — the passes that every conversion runs, in order.
* `Dialect.runStages` — a template after all of them.
-/

namespace TwigToLatte.Dialect

/-- The passes of a conversion, in the order in which they run. -/
def stages (dialect : Dialect) : List Stage :=
  Stage.order
    [selfCalls.stage [], (simplify dialect.optimizations).stage [], latteIdioms.stage ()]

/-- A template after the passes of a conversion. -/
def runStages (dialect : Dialect) (template : Template) : Template :=
  dialect.stages.foldl (fun template stage => stage.run template) template

end TwigToLatte.Dialect
