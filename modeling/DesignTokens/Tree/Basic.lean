/-
Token trees.

A tree is a group: named children, each a token or a group again, and an
optional kind. A token is a value with optional metadata. The children of a
group are kept in order, and each name occurs once (`TokenTree.WellFormed`).

The value of a group is the object of the values of its children.
-/
import DesignTokens.Value

namespace DesignTokens

structure Token where
  value : Value
  kind : Option String
  description : Option String

inductive TokenNode
  | leaf (token : Token)
  | group (kind : Option String) (children : List (String × TokenNode))

structure TokenTree where
  kind : Option String
  children : List (String × TokenNode)

def Token.raw (value : Value) : Token := ⟨value, none, none⟩

def TokenNode.raw (value : Value) : TokenNode := .leaf (.raw value)

namespace TokenTree

def empty : TokenTree := ⟨none, []⟩

def toNode (tree : TokenTree) : TokenNode := .group tree.kind tree.children

/-- The direct child under a name, which is not a path. -/
def child? (tree : TokenTree) (name : String) : Option TokenNode :=
  tree.children.lookup name

/-- The tree with a node put under a name: in place when the name is present, else last. -/
def insert (tree : TokenTree) (name : String) (node : TokenNode) : TokenTree :=
  { tree with children := putMember name node tree.children }

def size (tree : TokenTree) : Nat := tree.children.length

end TokenTree

/-! ### Values of nodes -/

mutual

/-- The value of a node: of a token its value, of a group the object of its children. -/
def TokenNode.toValue : TokenNode → Value
  | .leaf token => token.value
  | .group _ children => .object (childValues children)

def childValues : List (String × TokenNode) → List (String × Value)
  | [] => []
  | (name, node) :: rest => (name, node.toValue) :: childValues rest

end

def TokenTree.toValue (tree : TokenTree) : Value := .object (childValues tree.children)

/-! ### Equality -/

def Token.equals (left right : Token) : Bool :=
  left.value.equals right.value && left.kind == right.kind
    && left.description == right.description

mutual

/-- Equality of nodes: metadata included, children in any order. -/
def TokenNode.equals : TokenNode → TokenNode → Bool
  | .leaf left, .leaf right => left.equals right
  | .group leftKind left, .group rightKind right =>
    left.length == right.length && childrenWithin left right && leftKind == rightKind
  | _, _ => false

def childrenWithin : List (String × TokenNode) → List (String × TokenNode) → Bool
  | [], _ => true
  | (name, node) :: rest, others =>
    (match others.lookup name with
      | some other => node.equals other
      | none => false) && childrenWithin rest others

end

def TokenTree.equals (left right : TokenTree) : Bool :=
  left.toNode.equals right.toNode

/-! ### Well-formedness -/

mutual

/-- In every group and every object below the node, each name occurs once. -/
def TokenNode.WellFormed : TokenNode → Prop
  | .leaf token => token.value.WellFormed
  | .group _ children => DistinctNames children ∧ ChildrenWellFormed children

def ChildrenWellFormed : List (String × TokenNode) → Prop
  | [] => True
  | (_, node) :: rest => node.WellFormed ∧ ChildrenWellFormed rest

end

def TokenTree.WellFormed (tree : TokenTree) : Prop := tree.toNode.WellFormed

end DesignTokens
