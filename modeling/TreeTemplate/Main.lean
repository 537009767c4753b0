import TreeTemplate.CommandLine.Run

/-!
The command line: reads the files that the arguments name, prints the reply.
-/

namespace TreeTemplate.CommandLine

/-- How many steps a render may take before it counts as endless. -/
def stepBudget : Nat :=
  Nat.pow 2 40

/-- Why a file cannot be read, in the words of the system. -/
def reason : IO.Error → String
  | .noFileOrDirectory _ _ _ => "No such file or directory (os error 2)"
  | e => toString e

def textOf (bytes : ByteArray) : Except String String :=
  match String.fromUTF8? bytes with
  | some s => .ok s
  | none => .error "stream did not contain valid UTF-8"

def readFile (path : String) : IO (Except String String) := do
  try
    return textOf (← IO.FS.readBinFile path)
  catch e =>
    return .error (reason e)

def readInput : IO (Except String String) := do
  try
    return textOf (← (← IO.getStdin).readBinToEnd)
  catch e =>
    return .error (reason e)

/-- The texts of all files that an invocation names. -/
def surroundings (i : Invocation) : IO Surroundings := do
  let files ← i.files.mapM fun path => do return (path, ← readFile path)
  let input ← if i.readsInput then readInput else pure (.ok "")
  return ⟨fun path => (Dict.get? files path).getD (.error "not read"), input⟩

def report (r : Reply) : IO UInt32 := do
  (← IO.getStdout).putStr r.output
  match r.error? with
  | some e => (← IO.getStderr).putStrLn ("Error: " ++ e.message)
  | none => pure ()
  return r.exitCode.toUInt32

end TreeTemplate.CommandLine

open TreeTemplate in
def main (args : List String) : IO UInt32 := do
  match Invocation.ofArguments? args with
  | none =>
    (← IO.getStderr).putStrLn "usage: (render | check | fingerprints) MARKUP [OPTION]..."
    return 2
  | some i => CommandLine.report (i.run CommandLine.stepBudget (← CommandLine.surroundings i))
