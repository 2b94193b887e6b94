import ApiDrift.Json
import ApiDrift.Text.Split
/-! What a command prints, and how it tells why it failed. -/
namespace ApiDrift.CommandLine

structure Output where
  exit : Nat := 0
  stdout : String := ""
  stderr : String := ""
deriving DecidableEq, Repr

def lines (l : List String) : String := String.join (l.map (· ++ "\n"))

/-- What a command was about when it failed, and what came before that, the latest first. -/
structure Report where
  context : String
  causes : List String := []
deriving DecidableEq, Repr

namespace Report

def indent (margin text : String) : String := String.intercalate ("\n" ++ margin) (Text.split '\n' text)

def numberedCauses (n : Nat) : List String → List String
  | [] => []
  | cause :: rest => (s!"    {n}: " ++ indent "       " cause) :: numberedCauses (n + 1) rest

/-- Several causes are numbered from zero. -/
def render (r : Report) : String :=
  match r.causes with
  | [] => lines ["Error: " ++ r.context]
  | [cause] => lines ["Error: " ++ r.context, "", "Caused by:", "    " ++ indent "    " cause]
  | causes => lines (["Error: " ++ r.context, "", "Caused by:"] ++ numberedCauses 0 causes)

end Report

def Output.passed (passed : Bool) (stdout stderr : String) : Output :=
  ⟨if passed then 0 else 1, stdout, stderr⟩

def Output.failed (r : Report) (before : String) : Output := ⟨1, "", before ++ r.render⟩

end ApiDrift.CommandLine
