import ApiDrift.CommandLine.Run
/-! The command on the files of a system. Repositories exist in memory only, so the commands for
them say that there is none here. -/
namespace ApiDrift.CommandLine

/-- The number of a fault, which some calls report below zero. -/
def faultNumber (code : UInt32) : UInt32 := if 0x80000000 ≤ code then 0 - code else code

def faultOf (e : IO.Error) : Files.Fault :=
  match e with
  | .noFileOrDirectory _ _ _ => .notFound
  | .inappropriateType _ code _ => if faultNumber code = 21 then .isDirectory else .notDirectory
  | .invalidArgument _ code _ =>
    if faultNumber code = 36 then .nameTooLong else .other e.toString
  | .permissionDenied _ _ _ => .other "Permission denied (os error 13)"
  | e => .other e.toString

def readFile (path : String) : IO (Except Files.Fault Content) := do
  try
    let bytes ← IO.FS.readBinFile path
    return .ok (Content.ofBytes bytes.toList)
  catch e => return .error (faultOf e)

def Command.paths : Command → List String
  | .parse file _ => [file]
  | .diff options => [options.old, options.new]
  | .vcs _ _ => []

def readSources (paths : List String) : IO Sources := do
  let files ← (paths.filter (!isInput ·)).mapM fun path => return (path, ← readFile path)
  let input ← if paths.any isInput then (·.toList) <$> (← IO.getStdin).readBinToEnd else pure []
  return { file := fun path => (files.lookup path).getD (.error .notFound)
           input := Content.ofBytes input }

def runHere (i : Invocation) : IO Output := do
  let sources ← readSources i.command.paths
  match i.command with
  | .parse file json => return runParse sources i.pretty file json
  | .diff options => return runDiff sources i.pretty options
  | .vcs _ _ =>
    return .failed ⟨"Failed to open git repository", ["no repository in memory"]⟩ ""

end ApiDrift.CommandLine

open ApiDrift.CommandLine in
def main (args : List String) : IO UInt32 := do
  let output ← match Invocation.ofArguments? args with
    | none => pure usageFault
    | some invocation => runHere invocation
  IO.print output.stdout
  IO.eprint output.stderr
  return output.exit.toUInt32
