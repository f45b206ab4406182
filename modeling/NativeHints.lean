import NativeHints.Codebase.Run
import NativeHints.Codebase.Sources
import NativeHints.CommandLine.Basic
import NativeHints.CommandLine.Reader
import NativeHints.CommandLine.Run
import NativeHints.Doc.Signature
import NativeHints.Doc.Tag
import NativeHints.Doc.TypeText
import NativeHints.Edit.Basic
import NativeHints.Error
import NativeHints.Files.Discovery
import NativeHints.Files.Disk
import NativeHints.Files.Mount
import NativeHints.Files.Tree
import NativeHints.Glob.Basic
import NativeHints.Glob.Reader
import NativeHints.Hierarchy.Builtin
import NativeHints.Hierarchy.Collect
import NativeHints.Hierarchy.Graph
import NativeHints.Hierarchy.Search
import NativeHints.Hierarchy.Table
import NativeHints.Hint.Basic
import NativeHints.Hint.Subtype
import NativeHints.Insertion.Basic
import NativeHints.Insertion.Plan
import NativeHints.Main
import NativeHints.Options.Config
import NativeHints.Options.Feature
import NativeHints.Options.File
import NativeHints.Options.Version
import NativeHints.Outline.Basic
import NativeHints.Php.Forest
import NativeHints.Php.Grammar.Basic
import NativeHints.Php.Grammar.Class
import NativeHints.Php.Grammar.Expression
import NativeHints.Php.Grammar.Function
import NativeHints.Php.Grammar.Statement
import NativeHints.Php.Lexeme
import NativeHints.Php.Lexer
import NativeHints.Php.Reading
import NativeHints.Php.Rule
import NativeHints.Php.Token
import NativeHints.Proofs.Alike
import NativeHints.Proofs.Annotated
import NativeHints.Proofs.AnonymousKeys
import NativeHints.Proofs.ByteOrder
import NativeHints.Proofs.Contract
import NativeHints.Proofs.Deletions
import NativeHints.Proofs.Derivation
import NativeHints.Proofs.Directories
import NativeHints.Proofs.Discovery
import NativeHints.Proofs.Due
import NativeHints.Proofs.EditFaults
import NativeHints.Proofs.EditInverse
import NativeHints.Proofs.EditOrder
import NativeHints.Proofs.Edits
import NativeHints.Proofs.Emitted
import NativeHints.Proofs.Failures
import NativeHints.Proofs.Features
import NativeHints.Proofs.FileOrder
import NativeHints.Proofs.Globs
import NativeHints.Proofs.Hinted
import NativeHints.Proofs.LastOption
import NativeHints.Proofs.Layout
import NativeHints.Proofs.Log
import NativeHints.Proofs.Members
import NativeHints.Proofs.Merging
import NativeHints.Proofs.MoreFeatures
import NativeHints.Proofs.NameCase
import NativeHints.Proofs.Names
import NativeHints.Proofs.Origins
import NativeHints.Proofs.Override
import NativeHints.Proofs.Places
import NativeHints.Proofs.PlainNames
import NativeHints.Proofs.Positions
import NativeHints.Proofs.PropertyReach
import NativeHints.Proofs.PropertySearch
import NativeHints.Proofs.Ranges
import NativeHints.Proofs.Reaching
import NativeHints.Proofs.Records
import NativeHints.Proofs.RejectedNames
import NativeHints.Proofs.RelativeHints
import NativeHints.Proofs.Removals
import NativeHints.Proofs.Replan
import NativeHints.Proofs.ReservedWords
import NativeHints.Proofs.Resolution
import NativeHints.Proofs.Revisit
import NativeHints.Proofs.Runs
import NativeHints.Proofs.ScopeHistory
import NativeHints.Proofs.Search
import NativeHints.Proofs.Shapes
import NativeHints.Proofs.ShortestNames
import NativeHints.Proofs.Sites
import NativeHints.Proofs.Spelling
import NativeHints.Proofs.Spots
import NativeHints.Proofs.Stored
import NativeHints.Proofs.Stripped
import NativeHints.Proofs.Subtype
import NativeHints.Proofs.Tables
import NativeHints.Proofs.TagLines
import NativeHints.Proofs.Text
import NativeHints.Proofs.TraitParents
import NativeHints.Proofs.TwinGraph
import NativeHints.Proofs.Twins
import NativeHints.Proofs.Undo
import NativeHints.Proofs.Unions
import NativeHints.Proofs.Upgrade
import NativeHints.Proofs.VersionText
import NativeHints.Proofs.Walk
import NativeHints.Proofs.WellNamed
import NativeHints.Proofs.Widening
import NativeHints.Removal.Plan
import NativeHints.Scope.Basic
import NativeHints.Scope.Shortest
import NativeHints.Text.Basic
import NativeHints.Text.Blank
import NativeHints.Text.Number
import NativeHints.Text.Word
import NativeHints.Toml.Document
import NativeHints.Toml.Quoted
import NativeHints.Toml.Value
