import QueryForest.Command.Arguments
import QueryForest.Number.Digit

namespace QueryForest.Command

inductive Source where
  | inline (text : String)
  | file (path : String)
  | input
  | absent
  deriving DecidableEq, Repr

inductive Task where
  | outline (showNames : Bool)
  | document
  | print (defaultField : Option String) (escaped : Bool)
  | compile (defaultField : Option String) (maxClauses : Option Nat)
  deriving DecidableEq, Repr

structure Request where
  task : Task
  source : Source
  deriving DecidableEq, Repr

def commonSwitches : List Switch :=
  [{ name := "tree", letter := some 't', kind := .value },
    { name := "verbose", letter := some 'v', kind := .counter, long := false }]

def defaultFieldSwitch : Switch :=
  { name := "default-field", kind := .value }

/-- The source that is given: a text, or else one operand, where a hyphen
stands for the standard input.  A path is never empty. -/
def sourceOf (given : Given) : Option Source :=
  match given.value? "tree", given.operands with
  | none, [] => some .absent
  | some text, [] => some (.inline text)
  | none, [path] =>
      if path = "" then none
      else if path = "-" then some .input
      else some (.file path)
  | _, _ => none

/-- The outline as elements, with names of nodes or not, or as a document. -/
def readOutline (arguments : List String) : Option Request := do
  let known :=
    commonSwitches ++ [{ name := "ids", kind := .flag }, { name := "json", kind := .flag }]
  let given ← readFrom known {} arguments
  let task ←
    match given.has "ids", given.has "json" with
    | true, true => none
    | showNames, false => some (.outline showNames)
    | false, true => some .document
  return ⟨task, ← sourceOf given⟩

def readPrint (arguments : List String) : Option Request := do
  let known :=
    commonSwitches ++ [defaultFieldSwitch, { name := "no-escape", kind := .flag }]
  let given ← readFrom known {} arguments
  return ⟨.print (given.value? "default-field") (!given.has "no-escape"),
    ← sourceOf given⟩

/-- The compiled form; the limit of clauses is a natural number. -/
def readCompile (arguments : List String) : Option Request := do
  let known :=
    commonSwitches ++ [defaultFieldSwitch, { name := "max-clauses", kind := .value }]
  let given ← readFrom known {} arguments
  let maxClauses ←
    match given.value? "max-clauses" with
    | none => some none
    | some text => some <$> Number.natural? text.toList
  return ⟨.compile (given.value? "default-field") maxClauses, ← sourceOf given⟩

def Request.ofArguments? : List String → Option Request
  | "dump" :: rest => readOutline rest
  | "print" :: rest => readPrint rest
  | "compile" :: rest => readCompile rest
  | _ => none

end QueryForest.Command
