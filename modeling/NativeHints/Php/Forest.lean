import NativeHints.Php.Token

/-!
# Forests

What the grammar makes of tokens is a *forest*: a sequence of tokens and of
nodes, where a node has a kind and is again such a sequence.  A forest holds
its tokens in the order of the file, and `tokens` gives them back.

Most nodes only matter for their extent.  They decide to which construct a
comment belongs.  The others are named for what they are.
-/

namespace NativeHints

namespace Php

/-- The kinds of nodes. -/
inductive NodeKind where
  /-- A construct of which only the extent matters. -/
  | plain
  /-- Statements in braces. -/
  | block
  /-- The members of a class-like in braces. -/
  | members
  /-- A name, with its namespace perhaps. -/
  | name
  /-- The alias of an import. -/
  | aliasName
  /-- The common beginning of the names of an import. -/
  | start
  /-- One clause of an import. -/
  | clause
  /-- A `use` statement. -/
  | imports
  /-- A namespace up to the next one. -/
  | namespaceLine
  /-- A namespace in braces. -/
  | namespaceBlock
  /-- A `declare` statement. -/
  | declare
  /-- A function. -/
  | function
  /-- A method. -/
  | method
  /-- A closure. -/
  | closure
  /-- An arrow function. -/
  | arrow
  /-- A class. -/
  | ordinaryClass
  /-- An interface. -/
  | interface
  /-- A trait. -/
  | trait
  /-- An enumeration. -/
  | enumeration
  /-- A class without a name. -/
  | anonymousClass
  /-- What stands after `extends`. -/
  | bases
  /-- What stands after `implements`. -/
  | interfaces
  /-- Parameters in parentheses. -/
  | params
  /-- One parameter. -/
  | param
  /-- A hint. -/
  | hint
  /-- A variable that is declared. -/
  | variable
  /-- The default value of a parameter. -/
  | default
  /-- The variables that a closure captures. -/
  | captures
  /-- A property declaration. -/
  | property
  /-- One variable of a property declaration. -/
  | element
  /-- The use of traits in a class. -/
  | traitUse
deriving DecidableEq, Repr

/-- A sequence of tokens and nodes. -/
inductive Forest where
  /-- Nothing. -/
  | nil
  /-- A token and what follows. -/
  | leaf (token : Token) (rest : Forest)
  /-- A node and what follows. -/
  | node (kind : NodeKind) (children rest : Forest)
deriving DecidableEq, Repr

namespace Forest

/-- One forest after another. -/
def append : Forest → Forest → Forest
  | nil, f => f
  | leaf t rest, f => leaf t (append rest f)
  | node k children rest, f => node k children (append rest f)

instance : Append Forest := ⟨append⟩

/-- The tokens of a forest, from left to right. -/
def tokens : Forest → List Token
  | nil => []
  | leaf t rest => t :: tokens rest
  | node _ children rest => tokens children ++ tokens rest

/-- Whether a forest is a single token or node. -/
def isSingle : Forest → Bool
  | leaf _ nil => true
  | node _ _ nil => true
  | _ => false

@[simp] theorem nil_append (f : Forest) : nil ++ f = f := rfl

@[simp] theorem leaf_append (t : Token) (r f : Forest) : leaf t r ++ f = leaf t (r ++ f) := rfl

@[simp] theorem node_append (k : NodeKind) (c r f : Forest) :
    node k c r ++ f = node k c (r ++ f) := rfl

@[simp] theorem tokens_append (f g : Forest) : (f ++ g).tokens = f.tokens ++ g.tokens := by
  induction f with
  | nil => simp [tokens]
  | leaf t rest ih => simp [tokens, ih]
  | node k children rest _ ih => simp [tokens, ih, List.append_assoc]

/-! ## Looking into a forest -/

/-- The children of the first node of a kind. -/
def child? (k : NodeKind) : Forest → Option Forest
  | nil => none
  | leaf _ rest => child? k rest
  | node k' children rest => if k' = k then some children else child? k rest

/-- The children of every node of a kind. -/
def childrenOf (k : NodeKind) : Forest → List Forest
  | nil => []
  | leaf _ rest => childrenOf k rest
  | node k' children rest =>
      if k' = k then children :: childrenOf k rest else childrenOf k rest

/-- The first token. -/
def first? : Forest → Option Token
  | nil => none
  | leaf t _ => some t
  | node _ children rest =>
      match first? children with
      | some t => some t
      | none => first? rest

/-- The last token. -/
def last? : Forest → Option Token
  | nil => none
  | leaf t rest =>
      match last? rest with
      | some u => some u
      | none => some t
  | node _ children rest =>
      match last? rest with
      | some t => some t
      | none => last? children

/-- Where a forest begins. -/
def start (f : Forest) : Nat := (f.first?.map Token.start).getD 0

/-- Where a forest ends. -/
def stop (f : Forest) : Nat := (f.last?.map Token.stop).getD 0

/-- The text of tokens, without the trivia in front of the first. -/
def textOf : List Token → Text
  | [] => []
  | t :: ts => t.text ++ ts.flatMap Token.fullText

/-- The text of a forest, as it stands in the file. -/
def text (f : Forest) : Text := textOf f.tokens

end Forest

end Php

end NativeHints
