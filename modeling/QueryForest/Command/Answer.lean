import QueryForest.Command.Request
import QueryForest.Compile.Standard
import QueryForest.Document.Encode
import QueryForest.Document.Load
import QueryForest.Document.Save
import QueryForest.Query.Outline
import QueryForest.Text
import QueryForest.View.Outline

namespace QueryForest.Command

inductive SourceError where
  | absent
  | file (path reason : String)
  | input (reason : String)
  deriving DecidableEq, Repr

namespace SourceError

def message : SourceError → String
  | .absent =>
      "query tree is required: use positional argument or -t/--tree"
  | .file path reason => "failed to read '" ++ path ++ "': " ++ reason
  | .input reason => "failed to read stdin: " ++ reason

def notText : String := "stream did not contain valid UTF-8"

end SourceError

/-- The text of a tree, given what reading from outside the arguments yields:
bytes, or the reason why there are none. -/
def Source.text (source : Source) (outside : Except String ByteArray) :
    Except SourceError String := do
  let decoded : Except String String := do
    let bytes ← outside
    match String.fromUTF8? bytes with
    | some text => return text
    | none => throw SourceError.notText
  match source with
  | .absent => throw .absent
  | .inline text => return text
  | .file path => decoded.mapError (.file path)
  | .input => decoded.mapError .input

structure Outcome where
  exitCode : UInt32
  output : String := ""
  errors : String := ""
  deriving DecidableEq, Repr

namespace Outcome

def printed (output : String) : Outcome :=
  { exitCode := 0, output }

def failed (message : String) : Outcome :=
  { exitCode := 1, errors := "error: " ++ message ++ "\n" }

def misused : Outcome :=
  { exitCode := 2
    errors := "usage: (dump | print | compile) [switches] [TREE | -t JSON]\n" }

end Outcome

def rootBranch (forest : Forest) : Except String Branch :=
  match forest.root with
  | none => .error "query tree has no root"
  | some root => (forest.branch root).mapError Breach.message

def Task.run (task : Task) (forest : Forest) : Except String String :=
  match task with
  | .outline showNames => do
      return (← rootBranch forest).outline showNames
  | .document => do
      let document ← (← rootBranch forest).save.mapError NodeError.message
      return document.pretty ++ "\n"
  | .print defaultField escaped => do
      let escaper := if escaped then Escaper.standard else Escaper.verbatim
      return (← rootBranch forest).write { escaper, defaultField } ++ "\n"
  | .compile defaultField maxClauses => do
      let standard : CompileOptions := {}
      let options : CompileOptions :=
        { defaultField := defaultField.getD standard.defaultField
          maxClauses := maxClauses.getD standard.maxClauses }
      let query ←
        ((Standard.compiler options).compile forest).mapError
          (Halt.message CompileError.message)
      return query.outline

/-- The answer to a request, given what reading from outside the arguments
yields. -/
def Request.answer (request : Request) (outside : Except String ByteArray) :
    Outcome :=
  let result : Except String String := do
    let text ← (request.source.text outside).mapError SourceError.message
    if Text.allBlank text then
      throw "query tree cannot be empty"
    let forest ← (Forest.ofText text).mapError LoadError.message
    request.task.run forest
  match result with
  | .ok output => .printed output
  | .error message => .failed message

end QueryForest.Command
