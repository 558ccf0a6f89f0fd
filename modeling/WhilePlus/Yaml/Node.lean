import WhilePlus.Yaml.Resolve

namespace WhilePlus.Yaml

/-- A node of a document, with its line and its tag in short form. An alias
    holds the number of the node that it refers to, which may be a node around
    it. -/
inductive Node where
  | scalar (line : Nat) (tag text : String)
  | sequence (line : Nat) (tag : String) (items : List Node)
  | mapping (line : Nat) (tag : String) (pairs : List (Node × Node))
  /-- An alias, with a number of its own and that of the node that it refers to.
      -/
  | reference (line : Nat) (name : String) (serial target : Nat)
  deriving Inhabited

namespace Node

/-- The line of a node. -/
def line : Node → Nat
  | scalar line _ _ => line
  | sequence line _ _ => line
  | mapping line _ _ => line
  | reference line _ _ _ => line

/-- The tag of a node; an alias has none of its own. -/
def tag : Node → String
  | scalar _ tag _ => tag
  | sequence _ tag _ => tag
  | mapping _ tag _ => tag
  | reference _ _ _ _ => ""

/-- The text of a node: of a scalar its own, of an alias its name. -/
def text : Node → String
  | scalar _ _ text => text
  | sequence _ _ _ => ""
  | mapping _ _ _ => ""
  | reference _ name _ _ => name

/-- The number of a node's sort. -/
def sort : Node → Nat
  | scalar _ _ _ => 0
  | sequence _ _ _ => 1
  | mapping _ _ _ => 2
  | reference _ _ _ _ => 3

/-- Whether a node is the key that merges mappings. -/
def isMerge : Node → Bool
  | scalar _ tag text => text == "<<" && tag == mergeTag
  | _ => false

/-- Whether a node is a mapping. -/
def isMapping : Node → Bool
  | mapping _ _ _ => true
  | _ => false

/-- Whether two keys count as the same one. -/
def sameKey (a b : Node) : Bool :=
  a.sort == b.sort && a.text == b.text

/-- The node of a scalar, whose tag may be missing. -/
def ofScalar (line : Nat) (tag : String) (plain : Bool) (text : String) : Node :=
  .scalar line
    (if tag != "" && tag != "!" then shortTag tag
    else if !plain then strTag
    else if text == "<<" then mergeTag
    else plainTag text)
    text

/-- The tag of a list or a mapping: its own, or the one of its sort. -/
def collectionTag (own default : String) : String :=
  if own != "" && own != "!" then shortTag own else default

end Node

/-- A document as it is written: its outermost node, and the nodes that aliases
    may refer to. -/
structure Sheet where
  root : Node
  anchored : Array Node := #[]
  /-- More than the number of nodes on any way down, on which every alias is
      followed once. -/
  bound : Nat

namespace Sheet

/-- The node itself, or for an alias the node that it refers to. -/
def target (sheet : Sheet) : Node → Node
  | .reference line name serial target =>
    (sheet.anchored[target]?).getD (.reference line name serial target)
  | n => n

/-- The tag of a node; an alias has the tag of the node that it refers to. -/
def tag (sheet : Sheet) (n : Node) : String :=
  (sheet.target n).tag

end Sheet

end WhilePlus.Yaml
