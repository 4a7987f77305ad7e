import Assay.Program.Reader
import Assay.Program.Unroll
import Assay.Flow.Graph
import Assay.Stream.OfProgram
import Assay.Stream.Simplify
import Assay.Settings

/-! The analysis of one program: its tree, its single-assignment stream, the simplified stream
and the control-flow graph. Loops are unrolled for the streams only. -/
namespace Assay

structure Analysis where
  program : Program Empty
  construction : Construction Empty
  optimized : Option (Stream Empty)
  graph : Graph
  encodesOptimized : Bool

def Analysis.encoded (a : Analysis) : Stream Empty :=
  if a.encodesOptimized then a.optimized.getD [] else a.construction.stream

def lowered (config : Config) (p : Program Empty) : Except Error (Program Empty) :=
  match config.unrollDepth with
  | none => .ok p
  | some depth => p.unroll depth

def analyze (config : Config) (text : String) : Traced Analysis := do
  let program ← parse text
  let construction ← Construction.empty.add (← Traced.ofExcept (lowered config program))
  let optimized ←
    if config.optimize then some <$> construction.stream.simplify else pure none
  let graph ← Traced.ofExcept (Graph.empty.add program)
  return ⟨program, construction, optimized, graph, config.encodeOptimized⟩

end Assay
