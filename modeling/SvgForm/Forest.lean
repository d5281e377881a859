/-! # Forests

A forest is a row of trees: the first tree's label, the forest of its children, and the trees after it.
The labels are listed in document order, a tree's label before those of its children.
-/

namespace SvgForm

inductive Forest (α : Type) where
  | nil
  | node (label : α) (children siblings : Forest α)

namespace Forest

variable {α β : Type}

/-- The labels in document order. -/
def toList : Forest α → List α
  | nil => []
  | node a children siblings => a :: (children.toList ++ siblings.toList)

/-- The labels of the trees that stand in the row. -/
def roots : Forest α → List α
  | nil => []
  | node a _ siblings => a :: siblings.roots

def map (f : α → β) : Forest α → Forest β
  | nil => nil
  | node a children siblings => node (f a) (children.map f) (siblings.map f)

/-- One row after another. -/
def append : Forest α → Forest α → Forest α
  | nil, g => g
  | node a children siblings, g => node a children (siblings.append g)

/-- A row of trees without children. -/
def ofRoots : List α → Forest α
  | [] => nil
  | a :: rest => node a nil (ofRoots rest)

/-- Numbers the labels in document order, from `n`. -/
def number (n : Nat) : Forest α → Forest Nat
  | nil => nil
  | node _ children siblings =>
    node n (children.number (n + 1)) (siblings.number (n + 1 + children.toList.length))

/-- The labels that stand below another, each with the label it is a child of. -/
def parents : Forest α → List (α × α)
  | nil => []
  | node a children siblings => children.roots.map (·, a) ++ (children.parents ++ siblings.parents)

variable [DecidableEq α]

/-- The children of the first tree labelled `a`. -/
def childrenOf? (a : α) : Forest α → Option (Forest α)
  | nil => none
  | node b children siblings =>
    if b = a then some children
    else (childrenOf? a children).or (childrenOf? a siblings)

/-- The labels above the first tree labelled `a`, the nearest first, followed by those of `above`. -/
def pathTo? (a : α) (above : List α) : Forest α → Option (List α)
  | nil => none
  | node b children siblings =>
    if b = a then some above
    else (pathTo? a (b :: above) children).or (pathTo? a above siblings)

/-- The forest with the children of the trees labelled `a` changed. -/
def mapChildren (a : α) (f : Forest α → Forest α) : Forest α → Forest α
  | nil => nil
  | node b children siblings =>
    node b (if b = a then f children else mapChildren a f children) (mapChildren a f siblings)

/-- The children of the tree labelled `a` in the row, and the row without that tree. -/
def takeRoot? (a : α) : Forest α → Option (Forest α × Forest α)
  | nil => none
  | node b children siblings =>
    if b = a then some (children, siblings)
    else (takeRoot? a siblings).map fun (taken, rest) => (taken, node b children rest)

/-- Which side of another tree a tree goes to. -/
inductive Side
  | before
  | after

/-- The row with the tree `a` next to the tree labelled `b`. -/
def insertRoot? (side : Side) (a : α) (below : Forest α) (b : α) : Forest α → Option (Forest α)
  | nil => none
  | node c children siblings =>
    if c = b then
      match side with
      | .before => some (node a below (node c children siblings))
      | .after => some (node c children (node a below siblings))
    else (insertRoot? side a below b siblings).map (node c children ·)

/-- The row with its tree `a` moved next to its tree `b`. -/
def moveRoot? (side : Side) (a b : α) (f : Forest α) : Option (Forest α) :=
  (takeRoot? a f).bind fun (below, rest) => insertRoot? side a below b rest

/-- The forest with `a` moved next to `b`, where both are children of one tree. -/
def move? (side : Side) (a b : α) : Forest α → Option (Forest α)
  | nil => none
  | node c children siblings =>
    match (moveRoot? side a b children).or (move? side a b children) with
    | some moved => some (node c moved siblings)
    | none => (move? side a b siblings).map (node c children ·)

end Forest

end SvgForm
