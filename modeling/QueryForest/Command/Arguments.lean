/-!
# Command-line arguments

Switches have a long name, or a letter, or both.  A switch that takes a value
has it attached or in the next argument; an argument that looks like a switch
is no such value.  Letters can be run together.  After two bare hyphens all
arguments are operands.
-/

namespace QueryForest.Command

inductive SwitchKind where
  | flag
  | counter
  | value
  deriving DecidableEq, Repr

structure Switch where
  name : String
  letter : Option Char := none
  kind : SwitchKind
  /-- Whether it can be given by its name. -/
  long : Bool := true
  deriving DecidableEq, Repr

/-- The switches and operands that were given, in order. -/
structure Given where
  switches : List (String × Option String) := []
  operands : List String := []
  deriving DecidableEq, Repr

namespace Given

def has (given : Given) (name : String) : Bool :=
  (given.switches.lookup name).isSome

def value? (given : Given) (name : String) : Option String :=
  (given.switches.lookup name).join

/-- Add a switch; only counters can be given again. -/
def add (given : Given) (switch : Switch) (value : Option String) :
    Option Given :=
  if switch.kind ≠ .counter && given.has switch.name then
    none
  else
    some { given with switches := given.switches ++ [(switch.name, value)] }

def addAll (given : Given) (switches : List Switch) : Option Given :=
  switches.foldlM (fun given switch => given.add switch none) given

def addOperands (given : Given) (operands : List String) : Given :=
  { given with operands := given.operands ++ operands }

end Given

/-- Whether an argument looks like a switch; a single hyphen does not. -/
def looksLikeSwitch (argument : String) : Bool :=
  match argument.toList with
  | '-' :: _ :: _ => true
  | _ => false

/-- What an argument by itself says: an operand, the end of the switches,
or switches, the last of which may have its value attached or still lack it. -/
inductive Reading where
  | operand
  | endOfSwitches
  | switches (plain : List Switch)
  | attached (plain : List Switch) (switch : Switch) (value : String)
  | lacking (plain : List Switch) (switch : Switch)
  deriving DecidableEq, Repr

/-- The letters of a cluster.  What follows a letter that takes a value is the
value, after an equals sign or not. -/
def readLetters (known : List Switch) (plain : List Switch) :
    List Char → Option Reading
  | [] => some (.switches plain)
  | head :: tail => do
      let switch ← known.find? (·.letter = some head)
      match switch.kind, tail with
      | .flag, _ | .counter, _ => readLetters known (plain ++ [switch]) tail
      | .value, [] => some (.lacking plain switch)
      | .value, '=' :: value => some (.attached plain switch (String.ofList value))
      | .value, value => some (.attached plain switch (String.ofList value))

def readName (known : List Switch) (text : List Char) : Option Reading := do
  let name := String.ofList (text.takeWhile (· ≠ '='))
  let switch ← known.find? fun switch => switch.long && switch.name = name
  match switch.kind, text.dropWhile (· ≠ '=') with
  | .flag, [] | .counter, [] => some (.switches [switch])
  | .value, [] => some (.lacking [] switch)
  | .value, _ :: value => some (.attached [] switch (String.ofList value))
  | _, _ :: _ => none

def readArgument (known : List Switch) (argument : String) : Option Reading :=
  match argument.toList with
  | ['-', '-'] => some .endOfSwitches
  | '-' :: '-' :: name => readName known name
  | '-' :: head :: tail => readLetters known [] (head :: tail)
  | _ => some .operand

/-- Read the arguments after those that are already read; nothing means that
they cannot be understood. -/
def readFrom (known : List Switch) (given : Given) :
    List String → Option Given
  | [] => some given
  | argument :: rest => do
      match ← readArgument known argument with
      | .operand => readFrom known (given.addOperands [argument]) rest
      | .endOfSwitches => some (given.addOperands rest)
      | .switches plain => readFrom known (← given.addAll plain) rest
      | .attached plain switch value =>
          readFrom known (← (← given.addAll plain).add switch (some value)) rest
      | .lacking plain switch =>
          match rest with
          | [] => none
          | value :: others =>
              if looksLikeSwitch value then
                none
              else
                readFrom known
                  (← (← given.addAll plain).add switch (some value)) others

end QueryForest.Command
