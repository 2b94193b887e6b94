import ApiDrift.CommandLine.Vcs
/-! The command as a whole, run in a directory. -/
namespace ApiDrift.CommandLine

def usage : String :=
  lines
    ["Usage: api-drift [--pretty] [--verbose] parse FILE [--json]",
     "       api-drift [--pretty] [--verbose] diff OLD NEW [--json] [WARNINGS]",
     "       api-drift [--verbose] vcs [GIT] install|dist|check|list ..."]

def usageFault : Output := ⟨2, "", usage⟩

def execute (w : Git.Workspace) (cwd : Files.Position) (input : Content) (i : Invocation) :
    Output × Git.Workspace :=
  let sources : Sources := ⟨w.files.read cwd, input⟩
  match i.command with
  | .parse file json => (runParse sources i.pretty file json, w)
  | .diff options => (runDiff sources i.pretty options, w)
  | .vcs git command => runVcs w cwd git command

def run (w : Git.Workspace) (cwd : Files.Position) (input : Content) (args : List String) :
    Output × Git.Workspace :=
  match Invocation.ofArguments? args with
  | none => (usageFault, w)
  | some invocation => execute w cwd input invocation

end ApiDrift.CommandLine
