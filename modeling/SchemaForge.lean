import SchemaForge.Backend
import SchemaForge.Command.Arguments
import SchemaForge.Command.Basic
import SchemaForge.Command.Plan
import SchemaForge.Command.Session
import SchemaForge.Configuration
import SchemaForge.Document.Codec
import SchemaForge.Document.Format
import SchemaForge.Document.Json.Reader
import SchemaForge.Document.Json.Token
import SchemaForge.Document.Json.Writer
import SchemaForge.Document.Node
import SchemaForge.Document.Toml.Line
import SchemaForge.Document.Toml.Quoted
import SchemaForge.Document.Toml.Reader
import SchemaForge.Document.Toml.Scalar
import SchemaForge.Document.Toml.Table
import SchemaForge.Document.Toml.Writer
import SchemaForge.Document.Value
import SchemaForge.Document.Yaml.Block
import SchemaForge.Document.Yaml.Character
import SchemaForge.Document.Yaml.Folding
import SchemaForge.Document.Yaml.Meaning
import SchemaForge.Document.Yaml.Plain
import SchemaForge.Document.Yaml.Quoted
import SchemaForge.Document.Yaml.Reader
import SchemaForge.Document.Yaml.Tag
import SchemaForge.Document.Yaml.Token
import SchemaForge.Document.Yaml.Writer
import SchemaForge.Field
import SchemaForge.Files
import SchemaForge.Kind
import SchemaForge.Layer
import SchemaForge.Main
import SchemaForge.Number.Binary64
import SchemaForge.Number.Notation
import SchemaForge.Number.Shortest
import SchemaForge.Number.Width
import SchemaForge.Path
import SchemaForge.Rules
import SchemaForge.Schema
import SchemaForge.Settings
import SchemaForge.SourceUnit
import SchemaForge.Template
import SchemaForge.Text.Blank
import SchemaForge.Text.Comment
import SchemaForge.Text.Digits
import SchemaForge.Text.Quoted
import SchemaForge.Text.Word
import SchemaForge.TypeScript.Declaration
import SchemaForge.TypeScript.Import.Declared
import SchemaForge.TypeScript.Import.Item
import SchemaForge.TypeScript.Import.Reader
import SchemaForge.TypeScript.Import.TypeText
import SchemaForge.TypeScript.Ty
import SchemaForge.Zod.Chain
import SchemaForge.Zod.Declaration
import SchemaForge.Zod.Expr
import SchemaForge.Proofs.Import.Declared
import SchemaForge.Proofs.Import.Item
import SchemaForge.Proofs.Import.TypeText
import SchemaForge.Proofs.Text.Lines
import SchemaForge.Proofs.Import.EmittedType
import SchemaForge.Proofs.Import.Recovery
import SchemaForge.Proofs.Number.Rounding
import SchemaForge.Proofs.Number.Shortest
import SchemaForge.Proofs.Number.Covering
import SchemaForge.Proofs.Number.Fewest
import SchemaForge.Proofs.Json.Numeral
import SchemaForge.Proofs.Json.Scalar
import SchemaForge.Proofs.Document.Value
import SchemaForge.Proofs.Json.Tree
import SchemaForge.Proofs.Document.Codec
import SchemaForge.Proofs.Json.RoundTrip
import SchemaForge.Proofs.TypeScript.Inference
import SchemaForge.Proofs.Zod.Number
import SchemaForge.Proofs.Zod.Layout
import SchemaForge.Proofs.Zod.Base
import SchemaForge.Proofs.Zod.Comparison
import SchemaForge.Proofs.Zod.NormalForm
import SchemaForge.Proofs.Zod.Injectivity
import SchemaForge.Proofs.Import.LineComment
import SchemaForge.Proofs.Zod.Character
import SchemaForge.Proofs.Import.SourceUnit
import SchemaForge.Proofs.Import.Produced
import SchemaForge.Proofs.Import.Stability
import SchemaForge.Proofs.Command.Directory
import SchemaForge.Proofs.Import.Separator
import SchemaForge.Proofs.Import.DocComment
import SchemaForge.Proofs.Command.Arguments
import SchemaForge.Proofs.Command.Import
import SchemaForge.Proofs.Import.Document
import SchemaForge.Proofs.Command.Printed
import SchemaForge.Proofs.Command.Routes
import SchemaForge.Proofs.Toml.Quoted
import SchemaForge.Proofs.Toml.Line
import SchemaForge.Proofs.Toml.Build
import SchemaForge.Proofs.Import.Toml
import SchemaForge.Proofs.Yaml.Scalar
import SchemaForge.Proofs.Yaml.Scan
import SchemaForge.Proofs.Yaml.Tokens
import SchemaForge.Proofs.Yaml.Node
import SchemaForge.Proofs.Import.Yaml
import SchemaForge.Proofs.Command.Document
import SchemaForge.Proofs.Import.FirstDeclaration
import SchemaForge.Proofs.Comment.Deletion
import SchemaForge.Proofs.Comment.Description
import SchemaForge.Proofs.Comment.Emitted
import SchemaForge.Proofs.Document.Depth
import SchemaForge.Proofs.Document.Role
import SchemaForge.Proofs.Document.Object
import SchemaForge.Proofs.Document.KeyOrder
import SchemaForge.Proofs.Document.Conversion
import SchemaForge.Proofs.Configuration.Key
import SchemaForge.Proofs.Emission.Agreement
import SchemaForge.Proofs.Command.Workers
import SchemaForge.Proofs.Command.Generation
import SchemaForge.Proofs.Import.EscapedLiteral
import SchemaForge.Proofs.Import.NullMember
import SchemaForge.Proofs.Import.ProducedCode
import SchemaForge.Proofs.Import.BlockComment
import SchemaForge.Proofs.Emission.Literals
import SchemaForge.Proofs.Zod.Body
import SchemaForge.Proofs.Zod.Order
import SchemaForge.Proofs.Schema.Editing
import SchemaForge.Proofs.Schema.Moving
import SchemaForge.Proofs.Emission.Registration
