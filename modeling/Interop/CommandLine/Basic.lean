import Interop.CommandLine.Arguments
import Interop.Configuration.File
import Interop.Generation.Output

/-! The command line as a function from its arguments and the files to what it prints, the
status it exits with and the files it leaves. -/
namespace Interop.CommandLine

structure Response where
  status : Nat
  output : String
  errors : String
  tree : FileTree

def programName : String := "csbind"

def versionText : String := programName ++ " 0.1.0\n"

def usageText : String :=
  "Usage: " ++ programName ++ " [OPTIONS] --config <CONFIG> --graph <GRAPH>\n"

def helpText : String :=
  "Generates per-platform C# P/Invoke bindings from C header declaration graphs\n\n" ++ usageText ++
  "\nOptions:\n" ++
  "  -c, --config <CONFIG>  Generator configuration (`.json`, anything else is read as TOML)\n" ++
  "  -g, --graph <GRAPH>    JSON dump of the parsed headers\n" ++
  "  -o, --output <DIR>     Overrides the configured output directory\n" ++
  "      --namespace <NS>   Overrides the configured namespace\n" ++
  "      --no-clear         Refuse a non-empty output directory instead of clearing it\n" ++
  "  -v, --verbose          Debug-level logging\n" ++
  "  -h, --help             Print help\n" ++
  "  -V, --version          Print version\n"

def Overrides.apply (overrides : Overrides) (configuration : Configuration) : Configuration :=
  { configuration with
    outputDir := overrides.output.getD configuration.outputDir
    namespaceName := overrides.namespaceName.getD configuration.namespaceName
    forceClear := configuration.forceClear && ¬ overrides.noClear }

inductive Failure where
  | configuration (error : FileError)
  | generation (directory : String) (error : GenerationError)

def Failure.message : Failure → String
  | .configuration error => error.message
  | .generation directory error => "generation into " ++ directory ++ " failed: " ++ error.message

/-- The configuration of a run: that of the file, accepted as it stands there, with the
overrides applied. -/
def Options.configuration (options : Options) (tree : FileTree) : Except Failure Configuration :=
  match Configuration.loadFile tree options.config with
  | .error error => .error (.configuration error)
  | .ok configuration => .ok (options.overrides.apply configuration)

def summary (directory : String) (report : Report) : String :=
  let orphans := match report.orphans with
    | [] => "no unreferenced declarations"
    | orphans => toString orphans.length ++ " unreferenced declarations"
  "generated " ++ toString report.artifacts.length ++ " artifacts in " ++ directory
    ++ " (" ++ orphans ++ ")\n"

def Options.generate (options : Options) (tree : FileTree) : Except Failure String × FileTree :=
  match options.configuration tree with
  | .error failure => (.error failure, tree)
  | .ok configuration =>
    let outcome := Generation.runInto configuration (Dump.scanFile tree options.graph) tree
    let directory := configuration.outputDir
    match outcome.result with
    | .error error => (.error (.generation directory error), outcome.tree)
    | .ok report => (.ok (summary directory report), outcome.tree)

def run (arguments : List String) (tree : FileTree) : Response :=
  match parse arguments with
  | .error .help => ⟨0, helpText, "", tree⟩
  | .error .version => ⟨0, versionText, "", tree⟩
  | .error (.usage error) => ⟨2, "", "error: " ++ error.message ++ "\n\n" ++ usageText, tree⟩
  | .ok options =>
    match options.generate tree with
    | (.error failure, tree) => ⟨1, "", "error: " ++ failure.message ++ "\n", tree⟩
    | (.ok text, tree) => ⟨0, text, "", tree⟩

end Interop.CommandLine
