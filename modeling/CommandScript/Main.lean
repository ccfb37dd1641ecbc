import CommandScript.CommandLine.Runner

/-! The program: it shows what the runner puts out, and gives it the lines of standard input one by one. -/

namespace CommandScript.CommandLine

/-- The time that has gone by, in seconds with three decimals. -/
def seconds (milliseconds : Nat) : String :=
  let rest := toString (milliseconds % 1000)
  toString (milliseconds / 1000) ++ "." ++ "".pushn '0' (3 - rest.length) ++ rest

/-- Bindings from texts in which an equals sign stands behind each name. -/
def readEnvironment (entries : List String) : Bindings String :=
  (entries.filterMap fun entry => (readDefine entry).toOption).foldl (fun b (name, value) => b.insert name value) []

def showOutput (begun : Nat) : Output → IO Unit
  | .out text => IO.print text
  | .err text => IO.eprint text
  | .elapsed => do IO.print (seconds ((← IO.monoMsNow) - begun))

partial def converse (begun : Nat) (input : IO.FS.Stream) (output : List Output) (phase : Phase) : IO UInt32 := do
  output.forM (showOutput begun)
  (← IO.getStdout).flush
  match phase with
  | .ended (.exit status) => return status.toUInt32
  | .ended (.crash reason) =>
    IO.eprintln (reason.kind ++ ": " ++ reason.message)
    return 1
  | .waiting .. =>
    let line ← input.getLine
    let (output, phase) := phase.feed (if line.isEmpty then none else some line)
    converse begun input output phase

/-- What there is at a path that is no directory, by what reading it comes to. -/
def fileNode? : Except IO.Error ByteArray → Option FileNode
  | .ok bytes =>
    match String.fromUTF8? bytes with
    | some text => some (.regular (.text text))
    | none => some (.regular (.bytes bytes.data.toList))
  | .error (.permissionDenied ..) => some .locked
  | .error _ => none

/-- What there is of the files that the arguments may name. -/
def readFiles (arguments : List String) : IO FileTree := do
  let here ← IO.currentDir
  let paths := arguments.flatMap fun argument => [argument, tidyPath argument]
  paths.foldlM (fun files (path : String) => do
    let node ←
      if ← (here / path).isDir then pure (some .directory)
      else pure (fileNode? (← (IO.FS.readBinFile (here / path)).toBaseIO))
    match node with
    | some node => return Bindings.insert files (tidyPath path) node
    | none => return files) []

/-- The whole program; its answer is the exit status. -/
def program (arguments : List String) : IO UInt32 := do
  let begun ← IO.monoMsNow
  let input ← IO.getStdin
  let environment ← (IO.FS.readFile "/proc/self/environ").toBaseIO
  let entries := match environment with
    | .ok text => text.splitOn "\x00"
    | .error _ => []
  let (output, phase) := start {
    arguments
    files := ← readFiles arguments
    terminal := ← input.isTty
    environment := readEnvironment entries }
  converse begun input output phase

end CommandScript.CommandLine

def main (arguments : List String) : IO UInt32 := CommandScript.CommandLine.program arguments
