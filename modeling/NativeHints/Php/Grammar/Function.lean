import NativeHints.Php.Grammar.Basic

/-!
# Grammar: functions

Parameters, results and bodies of function-likes, and those function-likes that
are expressions.
-/

namespace NativeHints

namespace Php

namespace Grammar

open Rule

/-- Statements in braces. -/
def block : Rule := node .block (braced (many (symbol .statement)))

/-- The words for the visibility of a member. -/
def visibility : Rule :=
  seq (any [word "public", word "protected", word "private"])
    (opt (all [mark "(", word "set", mark ")"]))

/-! ## Parameters -/

/-- A default value. -/
def defaultValue : Rule := seq (mark "=") (node .default expression)

/-- Parameters in parentheses, given the rule of one. -/
def parameterList (parameter : Rule) : Rule :=
  node .params (all [mark "(", opt (commas parameter), opt (mark ","), mark ")"])

/-- A parameter that is no property. -/
def plainParameter : Rule :=
  all [opt hint, opt (mark "&"),
    any [seq (mark "...") declaredVariable, seq declaredVariable (opt defaultValue)]]

/-- The parameters of a property hook. -/
def hookParameters : Rule :=
  parameterList (node .param (seq (opt attributes) plainParameter))

/-- One hook of a property. -/
def hook : Rule :=
  node .plain
    (all [opt attributes, opt (word "final"), opt (mark "&"), anyName, opt hookParameters,
      any [all [mark "=>", expression, semicolon], block, semicolon]])

/-- The hooks of a property. -/
def hooks : Rule := node .plain (braced (many hook))

/-- A parameter that declares a property. -/
def promotedParameter : Rule :=
  all [visibility, opt (word "readonly"), opt hint, opt (mark "&"), declaredVariable,
    opt defaultValue, opt hooks]

/-- A parameter. -/
def parameter : Rule :=
  node .param (seq (opt attributes) (any [promotedParameter, plainParameter]))

/-- Parameters in parentheses. -/
def parameters : Rule := parameterList parameter

/-- The hint of a result. -/
def result : Rule := seq (mark ":") hint

/-! ## Function-likes -/

/-- The head of a function-like with a name. -/
def namedHead : Rule :=
  all [word "function", opt (mark "&"), declaredName, parameters, opt result]

/-- A function. -/
def function : Rule := node .function (all [opt attributes, namedHead, block])

/-- The variables that a closure captures. -/
def captures : Rule :=
  node .captures
    (all [word "use", mark "(", commas (seq (opt (mark "&")) (symbol .variable)), opt (mark ","),
      mark ")"])

/-- A closure. -/
def closure : Rule :=
  node .closure
    (all [opt attributes, opt (word "static"), word "function", opt (mark "&"), parameters,
      opt captures, opt result, block])

/-- An arrow function. -/
def arrow : Rule :=
  node .arrow
    (all [opt attributes, opt (word "static"), word "fn", opt (mark "&"), parameters, opt result,
      mark "=>", expression])

end Grammar

end Php

end NativeHints
