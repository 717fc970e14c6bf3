/-!
# Maps that keep an order

Annotations are held by a map that is not defined here: it is a parameter, with the
operations and the laws of one step that are documented of it.  A new key comes last, a
known key keeps its place, and the last entry takes the place of one that is removed.
-/

namespace QueryForest

/-- The operations of a map that keeps its entries in an order.  Setting and removing a key
also give back its former value. -/
class IndexMap (Map : Type → Type → Type) where
  empty {Key Value : Type} : Map Key Value
  toList {Key Value : Type} (map : Map Key Value) : List (Key × Value)
  size {Key Value : Type} (map : Map Key Value) : Nat
  isEmpty {Key Value : Type} (map : Map Key Value) : Bool
  clear {Key Value : Type} (map : Map Key Value) : Map Key Value
  get? {Key Value : Type} [DecidableEq Key] (map : Map Key Value) (key : Key) : Option Value
  contains {Key Value : Type} [DecidableEq Key] (map : Map Key Value) (key : Key) : Bool
  insert {Key Value : Type} [DecidableEq Key] (map : Map Key Value) (key : Key)
    (value : Value) : Option Value × Map Key Value
  swapRemove {Key Value : Type} [DecidableEq Key] (map : Map Key Value) (key : Key) :
    Option Value × Map Key Value

open IndexMap in
/-- What is documented of the operations: the keys are different, the answers are those of
the entries, and each change does one known thing to the entries. -/
class LawfulIndexMap (Map : Type → Type → Type) [IndexMap Map] : Prop where
  nodup_keys {Key Value : Type} (map : Map Key Value) : ((toList map).map Prod.fst).Nodup
  toList_empty {Key Value : Type} : toList (empty : Map Key Value) = []
  size_eq_length {Key Value : Type} (map : Map Key Value) : size map = (toList map).length
  isEmpty_iff {Key Value : Type} (map : Map Key Value) : isEmpty map = true ↔ toList map = []
  toList_clear {Key Value : Type} (map : Map Key Value) : toList (clear map) = []
  get?_eq_some_iff {Key Value : Type} [DecidableEq Key] {map : Map Key Value} {key : Key}
    {value : Value} : get? map key = some value ↔ (key, value) ∈ toList map
  contains_iff {Key Value : Type} [DecidableEq Key] {map : Map Key Value} {key : Key} :
    contains map key = true ↔ key ∈ (toList map).map Prod.fst
  insert_new {Key Value : Type} [DecidableEq Key] {map : Map Key Value} {key : Key}
    (new : key ∉ (toList map).map Prod.fst) (value : Value) :
    (insert map key value).1 = none ∧
      toList (insert map key value).2 = toList map ++ [(key, value)]
  insert_known {Key Value : Type} [DecidableEq Key] {map : Map Key Value} {key : Key}
    {former : Value} {before after : List (Key × Value)}
    (known : toList map = before ++ (key, former) :: after) (value : Value) :
    (insert map key value).1 = some former ∧
      toList (insert map key value).2 = before ++ (key, value) :: after
  swapRemove_unknown {Key Value : Type} [DecidableEq Key] {map : Map Key Value} {key : Key}
    (unknown : key ∉ (toList map).map Prod.fst) :
    (swapRemove map key).1 = none ∧ toList (swapRemove map key).2 = toList map
  swapRemove_last {Key Value : Type} [DecidableEq Key] {map : Map Key Value} {key : Key}
    {former : Value} {before : List (Key × Value)}
    (known : toList map = before ++ [(key, former)]) :
    (swapRemove map key).1 = some former ∧ toList (swapRemove map key).2 = before
  swapRemove_earlier {Key Value : Type} [DecidableEq Key] {map : Map Key Value} {key : Key}
    {former : Value} {last : Key × Value} {before after : List (Key × Value)}
    (known : toList map = before ++ (key, former) :: after ++ [last]) :
    (swapRemove map key).1 = some former ∧
      toList (swapRemove map key).2 = before ++ last :: after

end QueryForest
