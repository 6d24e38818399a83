import DealSql.CommandLine.Run

/-!
# The program

The command line over real files.
-/

open DealSql

/-- The file at a path. -/
def contentOfFile (path : String) : IO (Except ReadFailure String) := do
  try
    return .ok (← IO.FS.readFile path)
  catch
    | .noFileOrDirectory _ _ _ => return .error .missing
    | e => return .error ⟨true, toString e⟩

/-- The standard input. -/
def standardInput : IO (Except String String) := do
  try
    return .ok (← (← IO.getStdin).readToEnd)
  catch e => return .error (toString e)

/-- Real files, the standard input and the environment of the process. -/
def realSurroundings : Surroundings IO where
  contentOf := contentOfFile
  input := standardInput
  valueOf name := IO.getEnv name

def main (args : List String) : IO UInt32 := do
  let outcome ← CommandLine.run realSurroundings args
  for line in outcome.output do IO.println line
  for line in outcome.errors do IO.eprintln line
  return outcome.exit.toUInt32
