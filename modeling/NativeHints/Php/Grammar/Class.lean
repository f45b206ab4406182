import NativeHints.Php.Grammar.Function

/-!
# Grammar: class-likes

Classes, interfaces, traits and enumerations with their members.  The words in
front of a member are not checked against each other.
-/

namespace NativeHints

namespace Php

namespace Grammar

open Rule

/-! ## Members -/

/-- A word in front of a member. -/
def modifier : Rule :=
  any [visibility, word "static", word "abstract", word "final", word "readonly", word "var"]

/-- A method, with or without a body. -/
def method : Rule :=
  node .method (all [opt attributes, many modifier, namedHead, any [block, semicolon]])

/-- A name and the value of a constant. -/
def constantElement : Rule := node .plain (all [anyName, mark "=", expression])

/-- A constant of a class, perhaps with a type. -/
def classConstant : Rule :=
  node .plain
    (all [opt attributes, many modifier, word "const",
      any [seq (node .plain (type)) (commas constantElement), commas constantElement],
      semicolon])

/-- One variable of a property declaration. -/
def propertyElement : Rule :=
  node .element (seq declaredVariable (opt (seq (mark "=") expression)))

/-- A property declaration. -/
def property : Rule :=
  node .property
    (all [opt attributes, many1 modifier, opt hint, commas propertyElement,
      any [semicolon, hooks]])

/-- A method of a trait. -/
def traitMethod : Rule := seq qualifiedName (opt (seq (mark "::") anyName))

/-- One adaptation of the methods of traits. -/
def adaptation : Rule :=
  node .plain
    (all [traitMethod,
      any [seq (word "insteadof") (commas qualifiedName),
        seq (word "as") (any [seq modifier (opt anyName), anyName])],
      semicolon])

/-- The use of traits. -/
def traitUse : Rule :=
  node .traitUse
    (all [word "use", commas namePart, any [node .plain (braced (many adaptation)), semicolon]])

/-- A case of an enumeration. -/
def enumerationCase : Rule :=
  node .plain
    (all [opt attributes, word "case", anyName, opt (seq (mark "=") expression), semicolon])

/-- The members of a class-like. -/
def members : Rule :=
  node .members (braced (many (any [method, classConstant, property, traitUse])))

/-- The members of an enumeration. -/
def enumerationMembers : Rule :=
  node .members (braced (many (any [enumerationCase, method, traitUse])))

/-! ## Class-likes -/

/-- What a class-like extends. -/
def bases : Rule := node .bases (seq (word "extends") (commas namePart))

/-- What a class-like implements. -/
def interfaces : Rule := node .interfaces (seq (word "implements") (commas namePart))

/-- A class. -/
def ordinaryClass : Rule :=
  node .ordinaryClass
    (all [opt attributes, many (any [word "final", word "abstract", word "readonly"]),
      word "class", declaredName, opt bases, opt interfaces, members])

/-- An interface. -/
def interface : Rule :=
  node .interface (all [opt attributes, word "interface", declaredName, opt bases, members])

/-- A trait. -/
def trait : Rule := node .trait (all [opt attributes, word "trait", declaredName, members])

/-- An enumeration. -/
def enumeration : Rule :=
  node .enumeration
    (all [opt attributes, word "enum", declaredName, opt (seq (mark ":") (type)),
      opt interfaces, enumerationMembers])

/-- A class without a name. -/
def anonymousClass : Rule :=
  node .anonymousClass
    (all [opt attributes, many (any [word "final", word "readonly"]), word "class", opt arguments,
      opt bases, opt interfaces, members])

end Grammar

end Php

end NativeHints
