import NativeHints.Php.Grammar.Expression

/-!
# Grammar: statements

Statements and whole files.  Every kind of statement but one begins with a word
of its own, and an expression is tried last.
-/

namespace NativeHints

namespace Php

namespace Grammar

open Rule

/-- A statement. -/
def statement : Rule := symbol .statement

/-- A colon and statements. -/
def colonBlock : Rule := node .plain (seq (mark ":") (many statement))

/-- A body: statements between a colon and a word, or one statement. -/
def body (stop : String) : Rule :=
  any [all [colonBlock, word stop, semicolon], statement, semicolon]

/-- Expressions between commas. -/
def expressions : Rule := symbol .expressions

/-- Expressions between commas, each one together with those after it. -/
def sequence : Rule := group (seq expression (opt (seq (mark ",") expressions)))

/-! ## Branches and loops -/

/-- The branches of an `if` with colons. -/
def colonBranches : Rule :=
  all [colonBlock, many (node .plain (all [word "elseif", parenthesized, colonBlock])),
    opt (node .plain (seq (word "else") colonBlock)), word "endif", semicolon]

/-- The branches of an `if` with statements. -/
def plainBranches : Rule :=
  all [statement, many (node .plain (all [word "elseif", parenthesized, statement])),
    opt (node .plain (seq (word "else") statement))]

/-- An `if` statement. -/
def ifStatement : Rule :=
  node .plain (all [word "if", parenthesized, any [colonBranches, plainBranches]])

/-- A case of a `switch`. -/
def switchCase : Rule :=
  node .plain
    (all [any [seq (word "case") expression, word "default"], any [mark ":", mark ";"],
      many statement])

/-- A `switch` statement. -/
def switchStatement : Rule :=
  node .plain
    (all [word "switch", parenthesized,
      node .plain
        (any [braced (many switchCase),
          all [mark ":", many switchCase, word "endswitch", semicolon]])])

/-- A `while` statement. -/
def whileStatement : Rule := node .plain (all [word "while", parenthesized, body "endwhile"])

/-- A `do` statement. -/
def doStatement : Rule :=
  node .plain (all [word "do", statement, word "while", parenthesized, semicolon])

/-- A `for` statement. -/
def forStatement : Rule :=
  node .plain
    (all [word "for", mark "(", opt expressions, mark ";", opt expressions, mark ";",
      opt expressions, mark ")", body "endfor"])

/-- What a `foreach` assigns to. -/
def foreachTarget : Rule := any [reference, symbol .listTarget, expression]

/-- A `foreach` statement. -/
def foreachStatement : Rule :=
  node .plain
    (all [word "foreach", mark "(", expression, word "as",
      group (seq foreachTarget (opt (seq (mark "=>") foreachTarget))), mark ")",
      body "endforeach"])

/-- A `try` statement. -/
def tryStatement : Rule :=
  node .plain
    (all [word "try", block,
      many1 (any
        [node .plain
          (all [word "catch", mark "(", node .plain (separated "|" qualifiedName), opt declaredVariable, mark ")",
            block]),
          node .plain (seq (word "finally") block)])])

/-! ## Simple statements -/

/-- A word that leaves a loop or a function, with a value perhaps. -/
def leaving (text : String) : Rule :=
  node .plain (all [word text, opt (seq continued expression), semicolon])

/-- A `goto` statement. -/
def gotoStatement : Rule := node .plain (all [word "goto", anyName, semicolon])

/-- An `echo` statement. -/
def echoStatement : Rule := node .plain (all [word "echo", expressions, semicolon])

/-- An `exit` statement. -/
def exitStatement : Rule :=
  node .plain
    (all [word "exit", opt (all [mark "(", opt expression, mark ")"]), semicolon])

/-- An `unset` statement. -/
def unsetStatement : Rule :=
  node .plain
    (all [word "unset", mark "(", commas (symbol .place), opt (mark ","), mark ")", semicolon])

/-- A `global` statement. -/
def globalStatement : Rule :=
  node .plain (all [word "global", commas (symbol .variable), semicolon])

/-- The declaration of static variables. -/
def staticStatement : Rule :=
  node .plain
    (all [word "static",
      commas (node .plain (seq (symbol .variable) (opt (seq (mark "=") expression)))), semicolon])

/-- The declaration of constants. -/
def constStatement : Rule :=
  node .plain (all [opt attributes, word "const", commas constantElement, semicolon])

/-- A label. -/
def label : Rule := node .plain (seq freeName (mark ":"))

/-- An expression as a statement. -/
def expressionStatement : Rule := node .plain (seq expression semicolon)

/-! ## Namespaces, imports and `declare` -/

/-- A name in a namespace, without a backslash at the start. -/
def namespaceName : Rule := seq anyName segments

/-- A namespace up to the next one. -/
def namespaceLine : Rule :=
  node .namespaceLine (all [word "namespace", node .name namespaceName, semicolon])

/-- A namespace in braces. -/
def namespaceBlock : Rule :=
  node .namespaceBlock (all [word "namespace", opt (node .name namespaceName), block])

/-- The word that says what is imported, if not classes. -/
def importKind : Rule := any [word "function", word "const"]

/-- The alias of an import. -/
def importAlias : Rule := seq (word "as") (node .aliasName anyName)

/-- A clause of an import. -/
def importClause : Rule := node .clause (seq namePart (opt importAlias))

/-- A clause of an import with a common beginning. -/
def groupClause : Rule :=
  node .clause (all [opt importKind, node .name namespaceName, opt importAlias])

/-- A `use` statement. -/
def importStatement : Rule :=
  node .imports
    (all [word "use", opt importKind,
      any [all [opt (mark "\\"), node .start namespaceName, mark "\\", braced (commas groupClause)],
        commas importClause],
      semicolon])

/-- The value of a directive. -/
def literal : Rule :=
  any [token (.kind .number), token (.kind .string), template, word "true", word "false",
    word "null"]

/-- A `declare` statement.  It has one directive, in lower case. -/
def declareStatement : Rule :=
  node .declare
    (all [word "declare", mark "(",
      node .plain
        (all [any (["ticks", "encoding", "strict_types"].map fun s => token (.exactly s.toList)),
          mark "=", literal]),
      mark ")",
      any [all [mark ":", many statement, word "enddeclare", semicolon], semicolon, statement]])

/-! ## All statements -/

/-- Any statement. -/
def anyStatement : Rule :=
  any [block, node .plain (mark ";"), ifStatement, switchStatement, whileStatement, doStatement,
    forStatement, foreachStatement, tryStatement, leaving "return", leaving "break",
    leaving "continue", gotoStatement, echoStatement, exitStatement, unsetStatement,
    globalStatement, staticStatement, constStatement, function, ordinaryClass, interface, trait,
    enumeration, namespaceLine, namespaceBlock, importStatement, declareStatement, label,
    expressionStatement]

/-- A whole file: text, or an open tag and statements. -/
def program : Rule :=
  seq (opt (seq (token (.kind .openTag)) (many statement))) (token (.kind .ending))

end Grammar

/-- The grammar of PHP. -/
def grammar : Symbol → Grammar.Rule
  | .program => Grammar.program
  | .statement => Grammar.anyStatement
  | .expression => Grammar.wholeExpression
  | .value => Grammar.value
  | .coalesce => Grammar.coalesce
  | .power => Grammar.power
  | .unary => Grammar.unary
  | .variable => Grammar.dollarVariable
  | .expressions => Grammar.sequence
  | .listTarget => Grammar.listTarget
  | .place => Grammar.place

/-- The number of symbols that can stand inside each other without a token between
them, with some to spare. -/
def symbolDepth : Nat := 16

/-- The forest of a file. -/
def forest? (source : Text) : Option Forest := do
  let tokens ← tokens? source
  let (forest, _) ← Rule.readSymbol grammar (symbolDepth * (tokens.length + 1)) .program tokens
  return forest

end Php

end NativeHints
