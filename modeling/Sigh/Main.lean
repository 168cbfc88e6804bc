import Sigh.Run.Source

namespace Sigh.Command

/-- What the command line asks for. -/
structure Options where
  input : Option String := none
  check : Bool := false
  dumpAst : Bool := false
  help : Bool := false
  version : Bool := false

/-- The levels `--log-level` accepts. -/
def logLevels : List String := ["off", "error", "warn", "info", "debug", "trace"]

def usage : String :=
  "Usage: sigh [OPTIONS]\n"

def helpText : String :=
  "Run Sigh programs\n\n" ++ usage ++ "\nOptions:\n" ++
  "  -i, --input <PATH>       A .si file. Reads stdin when omitted\n" ++
  "      --check              Stop after semantic analysis\n" ++
  "      --dump-ast           Print the parsed AST before running\n" ++
  "      --log-level <LEVEL>  Log level: off, error, warn, info, debug, trace [default: warn]\n" ++
  "  -h, --help               Print help\n" ++
  "  -V, --version            Print version\n"

/-- Reads the arguments, or says what is wrong with them. -/
def parseArgs : List String → Options → Except String Options
  | [], o => .ok o
  | "--check" :: rest, o => parseArgs rest { o with check := true }
  | "--dump-ast" :: rest, o => parseArgs rest { o with dumpAst := true }
  | "-h" :: rest, o | "--help" :: rest, o => parseArgs rest { o with help := true }
  | "-V" :: rest, o | "--version" :: rest, o => parseArgs rest { o with version := true }
  | "-i" :: path :: rest, o | "--input" :: path :: rest, o =>
    parseArgs rest { o with input := some path }
  | "--log-level" :: level :: rest, o =>
    if logLevels.contains level.toLower then parseArgs rest o
    else .error ("invalid value '" ++ level ++ "' for '--log-level <LEVEL>'")
  | arg :: _, _ => .error ("unexpected argument '" ++ arg ++ "' found")

/-- What one program writes to standard output, what it writes to standard error, and whether
it failed. -/
def process (o : Options) (name source : String) : String × String × Bool :=
  let report (f : Failure) : String :=
    let lines := LineMap.new source
    String.join (f.diagnostics.map fun d => d.render lines name ++ "\n")
  let dumped : Except Failure String :=
    if o.dumpAst then (Program.read source).map fun p => toString (repr p) ++ "\n" else .ok ""
  match dumped with
  | .error f => ("", report f, true)
  | .ok text =>
    if o.check then
      match Program.readChecked source with
      | .ok _ => (text ++ "ok: " ++ name ++ "\n", "", false)
      | .error f => (text, report f, true)
    else
      let outcome := Program.run source
      match outcome.result with
      | .ok (some (value, _)) =>
        (text ++ outcome.output ++ "Program returned " ++ value ++ "\n", "", false)
      | .ok none => (text ++ outcome.output, "", false)
      | .error f => (text ++ outcome.output, report f, true)

/-- What programs of their own write to standard output and standard error, in turn, with a count
of the failures at the end, and whether any failed. -/
def processAll (o : Options) (files : List (String × String)) : String × String × Bool :=
  let results := files.map fun file => process o file.1 file.2
  let failures := (results.filter fun r => r.2.2).length
  let summary := if failures = 0 then "" else
    "Error: " ++ toString failures ++ " of " ++ toString files.length ++ " program(s) failed\n"
  (String.join (results.map (·.1)), String.join (results.map (·.2.1)) ++ summary, failures ≠ 0)

end Sigh.Command

open Sigh.Command in
/-- Runs the program that the arguments name, or the one on standard input. -/
def main (args : List String) : IO UInt32 := do
  let stdout ← IO.getStdout
  let stderr ← IO.getStderr
  match parseArgs args {} with
  | .error message =>
    stderr.putStr ("error: " ++ message ++ "\n\n" ++ usage ++ "\nFor more information, try '--help'.\n")
    pure 2
  | .ok o =>
    if o.help then
      stdout.putStr helpText
      pure 0
    else if o.version then
      stdout.putStr "sigh 0.1.0\n"
      pure 0
    else
      let loaded ← match o.input with
        | some path => do
          try pure (Except.ok (path, ← IO.FS.readFile path))
          catch e => pure (Except.error (path, toString e))
        | none => do pure (Except.ok ("<stdin>", ← (← IO.getStdin).readToEnd))
      match loaded with
      | .error (path, cause) =>
        stderr.putStr ("Error: failed to load sources from " ++ path ++ "\n\nCaused by:\n    " ++
          cause ++ "\n")
        pure 1
      | .ok (name, source) =>
        let (out, err, failed) := processAll o [(name, source)]
        stdout.putStr out
        stdout.flush
        stderr.putStr err
        pure (if failed then 1 else 0)
