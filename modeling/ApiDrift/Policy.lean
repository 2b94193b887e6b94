import ApiDrift.Change.Compare
import ApiDrift.Table
import ApiDrift.Text.Blank
import ApiDrift.Text.Split
/-! Which changes are reported, and which of them make a check fail. -/
namespace ApiDrift

def allEntry : String := "all"

structure UnknownEntry where
  entry : String
deriving DecidableEq, Repr

def UnknownEntry.message (e : UnknownEntry) : String :=
  "Unknown warning category or code ‘" ++ e.entry ++ "’."

namespace WarningList

def isKnown (entry : String) : Bool :=
  (Category.ofText? entry).isSome || (ChangeCode.ofText? entry).isSome

def categories : NameSet := NameSet.ofNames (Category.all.map Category.text)

def addEntries (s : NameSet) : List String → Except UnknownEntry NameSet
  | [] => .ok s
  | entry :: rest =>
    if entry = allEntry then addEntries (s.union categories) rest
    else if isKnown entry then addEntries (s.add entry) rest
    else .error ⟨entry⟩

/-- The entries of a list with commas, without white space around them and without empty ones. -/
def entries (text : String) : List String :=
  ((Text.split ',' text).map Text.trim).filter (· ≠ "")

def parse (text : String) : Except UnknownEntry NameSet := addEntries .empty (entries text)

end WarningList

/-- What is reported, and what of it is fatal, by category or by code. -/
structure Policy where
  enabled : NameSet := WarningList.categories
  disabled : NameSet := .empty
  fatal : NameSet := NameSet.ofNames [Category.backwards.text]

structure Outcome where
  passed : Bool
  changes : List Change
deriving DecidableEq, Repr

namespace Policy

/-- The policy given by three lists, read in the order in which they stand. -/
def parse (enabled disabled fatal : String) : Except UnknownEntry Policy := do
  let enabled ← WarningList.parse enabled
  let disabled ← WarningList.parse disabled
  let fatal ← WarningList.parse fatal
  pure { enabled, disabled, fatal }

/-- A change is reported by its category, unless the category or the code is disabled, or by its
code, unless the code is disabled. -/
def isEnabled (p : Policy) (c : Change) : Bool :=
  let code := c.code.text
  let category := c.category.text
  (p.enabled.contains category && !p.disabled.contains category && !p.disabled.contains code)
    || (p.enabled.contains code && !p.disabled.contains code)

def isFatal (p : Policy) (c : Change) : Bool :=
  p.fatal.contains c.category.text || p.fatal.contains c.code.text

def judge (p : Policy) (changes : List Change) : Outcome :=
  let reported := changes.filter p.isEnabled
  ⟨!reported.any p.isFatal, reported⟩

end Policy

def check (old new : Node) (p : Policy) : Outcome := p.judge (compare old new)

end ApiDrift
