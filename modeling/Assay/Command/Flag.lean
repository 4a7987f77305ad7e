/-! The options of the command line, and the sections of output that can be asked for. -/
namespace Assay.Command

inductive Section where
  | ast | ssa | optimized | cfg | smt
  deriving DecidableEq, Repr

def Section.all : List Section := [.ast, .ssa, .optimized, .cfg, .smt]

def Section.name : Section → String
  | .ast => "ast"
  | .ssa => "ssa"
  | .optimized => "optimized"
  | .cfg => "cfg"
  | .smt => "smt"

inductive Flag where
  | help | version | unroll | timeout | models | noOptimize | encodeOptimized | shows | config
  | verbose
  deriving DecidableEq, Repr

namespace Flag

def names : Flag → List String
  | .help => ["-h", "--help"]
  | .version => ["--version"]
  | .unroll => ["--unroll"]
  | .timeout => ["--timeout"]
  | .models => ["--models"]
  | .noOptimize => ["--no-optimize"]
  | .encodeOptimized => ["--encode-optimized"]
  | .shows => ["--show"]
  | .config => ["--config"]
  | .verbose => ["-v", "--verbose"]

def title (f : Flag) : String := "/".intercalate f.names

def takesValue : Flag → Bool
  | .unroll | .timeout | .models | .shows | .config => true
  | _ => false

def general : List Flag := [.help, .version]

def ofCommand : List Flag :=
  [.help, .unroll, .timeout, .models, .noOptimize, .encodeOptimized, .shows, .config, .verbose]

end Flag

end Assay.Command
