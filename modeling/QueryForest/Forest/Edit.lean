import QueryForest.Forest.Basic
import QueryForest.Node.Error

/-!
# Editing forests

An edit changes the forest step by step.  It is refused before it changes
anything, except that a breach met in the middle leaves the changes made so
far.  Whenever a term comes under a proximity node, it takes over the field of
that node, which is then written once for all its terms.
-/

namespace QueryForest

abbrev Edit (Result : Type) :=
  ExceptT (Halt NodeError) (StateM Forest) Result

namespace Edit

def check {Result : Type} (outcome : Except Breach Result) : Edit Result :=
  match outcome with
  | .ok result => pure result
  | .error breach => throw (.breach breach)

def refuse {Result : Type} (variant : Variant) (action : Action) : Edit Result :=
  throw (.error (.actionNotSupported variant action))

def node (id : NodeId) : Edit Node := do
  check ((← get).node id)

/-- Change the node with a name, which has to be there. -/
def modifyNode (id : NodeId) (change : Node → Node) : Edit Unit := do
  let _ ← node id
  modify (·.modifyNode id change)

/-- Refuse to put a node below itself. -/
def refuseAncestor (variant : Variant) (child parent : NodeId) : Edit Unit := do
  if ← check ((← get).isAncestorOrSelf child parent) then
    refuse variant .adoptAncestor

def add (kind : Kind) : Edit NodeId := do
  let forest ← get
  set (forest.push kind)
  pure forest.size

/-- Change the term of a leaf; the result tells whether the node has one. -/
def modifyTerm (id : NodeId) (change : Term → Term) : Edit Bool := do
  let found ← node id
  modifyNode id fun node => { node with kind := node.kind.mapTerm change }
  pure found.kind.term?.isSome

/-- Give the term of a child the field of a parent that is a proximity node. -/
def bindField (parent child : NodeId) : Edit Unit := do
  match (← node parent).kind.proximity? with
  | none => pure ()
  | some near =>
      let _ ← modifyTerm child fun term =>
        { term with field := near.field, ignoreField := true }

def bindFields (id : NodeId) : Edit Unit := do
  let found ← node id
  if found.kind.proximity?.isSome then
    found.children.forM (bindField id)

/-! ## Links -/

def detach (id : NodeId) : Edit Unit := do
  match (← node id).parent with
  | none => pure ()
  | some parent =>
      modifyNode id fun node => { node with parent := none }
      modifyNode parent fun node =>
        { node with children := node.children.filter (· != id) }

def setRoot (id : NodeId) : Edit Unit := do
  detach id
  modify fun forest => { forest with root := some id }

/-- Move a node to the end of the children of another. -/
def attach (parent child : NodeId) : Edit Unit := do
  detach child
  modify fun forest =>
    if forest.root = some child then { forest with root := none } else forest
  modifyNode child fun node => { node with parent := some parent }
  modifyNode parent fun node =>
    { node with children := node.children ++ [child] }
  bindField parent child

/-- Append a child, which leaves its former parent. -/
def addChild (parent child : NodeId) : Edit Unit := do
  let found ← node parent
  let variant := found.kind.variant
  match found.kind.arity with
  | .leaf => refuse variant .addChild
  | .one =>
      if !found.children.isEmpty then
        refuse variant .addSecondChild
  | .many => pure ()
  refuseAncestor variant child parent
  attach parent child

/-- Refuse children one by one that cannot be adopted after those before
them. -/
def refuseChildren (variant : Variant) (parent : NodeId) (before : List NodeId) :
    List NodeId → Edit Unit
  | [] => pure ()
  | head :: tail => do
      refuseAncestor variant head parent
      if before.contains head then
        refuse variant .adoptTwice
      refuseChildren variant parent (head :: before) tail

/-- Give a node new children instead of its old ones. -/
def setChildren (parent : NodeId) (children : List NodeId) : Edit Unit := do
  let found ← node parent
  let variant := found.kind.variant
  match found.kind.arity with
  | .leaf =>
      if !children.isEmpty then
        refuse variant .addChild
  | .one =>
      if 1 < children.length then
        refuse variant .addSecondChild
  | .many => pure ()
  refuseChildren variant parent [] children
  modifyNode parent fun node => { node with children := [] }
  found.children.forM fun former =>
    modifyNode former fun node => { node with parent := none }
  children.forM (attach parent)

def addWithChildren (kind : Kind) (children : List NodeId) : Edit NodeId := do
  let id ← add kind
  setChildren id children
  pure id

/-- Add a proximity node with children, whose terms take over its field. -/
def addProximity (near : Proximity) (children : List NodeId) : Edit NodeId := do
  let id ← addWithChildren (.composite (.proximity near)) children
  bindFields id
  pure id

def replaceBelow (parent former replacement : NodeId) : Edit Unit := do
  refuseAncestor (← node parent).kind.variant replacement parent
  detach replacement
  let siblings := (← node parent).children
  match siblings.idxOf? former with
  | none => throw (.breach (.unlisted parent former))
  | some place =>
      modifyNode parent fun node =>
        { node with children := node.children.set place replacement }
      modifyNode replacement fun node => { node with parent := some parent }
      modifyNode former fun node => { node with parent := none }
      bindField parent replacement

/-- Put a node into the place of another, as a child or as the root. -/
def replace (former replacement : NodeId) : Edit Unit := do
  if former = replacement then
    return
  let found ← node former
  match found.parent with
  | some parent => replaceBelow parent former replacement
  | none =>
      if (← get).root = some former then
        setRoot replacement
      else
        refuse found.kind.variant .replaceDetached

end Edit

/-- Run an edit; the changes made before it stopped stay. -/
def Forest.edit {Result : Type} (forest : Forest) (change : Edit Result) :
    Except (Halt NodeError) Result × Forest :=
  StateT.run (ExceptT.run change) forest

end QueryForest
