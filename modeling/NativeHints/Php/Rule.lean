import NativeHints.Php.Forest

/-!
# Parsing rules

A grammar is given by *rules*.  A rule reads a forest from the start of a list
of tokens, or fails.  Choice is ordered: the second alternative is tried only
if the first fails, and then nothing else is tried.  Repetition takes as much as
it can.  A rule can refer to the rule of a symbol, so grammars are recursive.

`Rule.read` runs a rule, given how to read symbols and how often to repeat at
most.  `readSymbol` ties the knot for a number of nested symbols.  Whatever a
rule does, the tokens of the forest it reads are the tokens it takes.
-/

namespace NativeHints

namespace Php

/-- What a rule may ask of a token. -/
inductive Terminal where
  /-- A given mark. -/
  | mark (text : Text)
  /-- A given word, in any case. -/
  | word (text : Text)
  /-- A given word, in this case only. -/
  | exactly (text : Text)
  /-- Any word. -/
  | name
  /-- Any word that is not among the given ones, in any case. -/
  | nameExcept (words : List Text)
  /-- Any token of a class. -/
  | kind (k : LexemeKind)
deriving DecidableEq, Repr

/-- Whether a token is what is asked for. -/
def Terminal.accepts : Terminal → Token → Bool
  | mark text, t => t.piece.kind == .mark && t.text == text
  | word text, t => t.piece.kind == .word && decide (t.text.Same text)
  | exactly text, t => t.piece.kind == .word && t.text == text
  | name, t => t.piece.kind == .word
  | nameExcept words, t => t.piece.kind == .word && !t.text.isOneOf words
  | kind k, t => t.piece.kind == k

/-- A rule over symbols of a type. -/
inductive Rule (σ : Type) where
  /-- A token. -/
  | token (t : Terminal)
  /-- Nothing. -/
  | empty
  /-- One rule and then another. -/
  | seq (a b : Rule σ)
  /-- One rule or else another. -/
  | alt (a b : Rule σ)
  /-- A rule as often as it succeeds. -/
  | many (r : Rule σ)
  /-- Nothing, if the rule fails. -/
  | unless (r : Rule σ)
  /-- Nothing, if the next token is fresh. -/
  | fresh
  /-- A node around what a rule reads. -/
  | node (k : NodeKind) (r : Rule σ)
  /-- A node around what a rule reads, if that is more than one token or node. -/
  | group (r : Rule σ)
  /-- The rule of a symbol. -/
  | symbol (s : σ)

/-- What reads a forest from the start of a list of tokens. -/
abbrev Reader := List Token → Option (Forest × List Token)

namespace Reader

/-- Two readers, one after the other. -/
def andThen (a b : Reader) : Reader := fun ts =>
  match a ts with
  | none => none
  | some (f, rest) => (b rest).map fun (g, rest) => (f ++ g, rest)

/-- A reader as often as it succeeds, up to a number of times. -/
def repeated (a : Reader) : Nat → Reader
  | 0, ts => some (.nil, ts)
  | n + 1, ts =>
      match a ts with
      | none => some (.nil, ts)
      | some (f, rest) => (repeated a n rest).map fun (g, rest) => (f ++ g, rest)

/-- One token. -/
def token (t : Terminal) : Reader
  | [] => none
  | u :: rest => if t.accepts u then some (.leaf u .nil, rest) else none

/-- Nothing, in front of a fresh token. -/
def beforeFresh : Reader
  | [] => none
  | u :: rest => if u.fresh then some (.nil, u :: rest) else none

end Reader

/-- A node around a forest, unless it is a single token or node. -/
def Forest.grouped (f : Forest) : Forest := if f.isSingle then f else .node .plain f .nil

namespace Rule

variable {σ : Type}

/-- Runs a rule, given a bound on repetitions and the readers of symbols. -/
def read (bound : Nat) (call : σ → Reader) : Rule σ → Reader
  | token t => Reader.token t
  | empty => fun ts => some (.nil, ts)
  | seq a b => Reader.andThen (read bound call a) (read bound call b)
  | alt a b => fun ts => match read bound call a ts with
      | some found => some found
      | none => read bound call b ts
  | many r => Reader.repeated (read bound call r) bound
  | .unless r => fun ts => match read bound call r ts with
      | some _ => none
      | none => some (.nil, ts)
  | fresh => Reader.beforeFresh
  | node k r => fun ts => (read bound call r ts).map fun (f, rest) => (.node k f .nil, rest)
  | group r => fun ts => (read bound call r ts).map fun (f, rest) => (f.grouped, rest)
  | symbol s => call s

/-- Reads a symbol of a grammar, with at most a number of symbols inside each
other. -/
def readSymbol (grammar : σ → Rule σ) : Nat → σ → Reader
  | 0, _ => fun _ => none
  | n + 1, s => (grammar s).read n (readSymbol grammar n)

/-! ## Common forms -/

/-- One rule after another. -/
def all : List (Rule σ) → Rule σ
  | [] => empty
  | [r] => r
  | r :: rs => seq r (all rs)

/-- The first of several rules that succeeds. -/
def any : List (Rule σ) → Rule σ
  | [] => .unless empty
  | [r] => r
  | r :: rs => alt r (any rs)

/-- A rule or nothing. -/
def opt (r : Rule σ) : Rule σ := alt r empty

/-- A mark. -/
def mark (text : String) : Rule σ := token (.mark text.toList)

/-- A keyword. -/
def word (text : String) : Rule σ := token (.word text.toList)

/-- A rule once or more often. -/
def many1 (r : Rule σ) : Rule σ := seq r (many r)

/-- A rule once or more often, with commas between. -/
def commas (r : Rule σ) : Rule σ := seq r (many (seq (mark ",") r))

end Rule

end Php

end NativeHints
