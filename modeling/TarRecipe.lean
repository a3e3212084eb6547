import TarRecipe.Archive.Header
import TarRecipe.Archive.Pack
import TarRecipe.Archive.Reader
import TarRecipe.Archive.Record
import TarRecipe.Build
import TarRecipe.CommandLine.Arguments
import TarRecipe.CommandLine.Help
import TarRecipe.CommandLine.Run
import TarRecipe.Compression
import TarRecipe.Config
import TarRecipe.Decimal.Shortest
import TarRecipe.Digest.Basic
import TarRecipe.Digest.Sha256
import TarRecipe.Disk.Basic
import TarRecipe.Disk.Fault
import TarRecipe.Disk.Output
import TarRecipe.Disk.Pathname
import TarRecipe.Disk.Scan
import TarRecipe.Error
import TarRecipe.Execute
import TarRecipe.Glob
import TarRecipe.Ignore.Rules
import TarRecipe.Ignore.Token
import TarRecipe.Json.Fault
import TarRecipe.Json.Number
import TarRecipe.Json.Reader
import TarRecipe.Json.Text
import TarRecipe.Listing
import TarRecipe.Main
import TarRecipe.Mode
import TarRecipe.Path
import TarRecipe.Proofs.Agreement
import TarRecipe.Proofs.Archive.Fields
import TarRecipe.Proofs.Archive.Headers
import TarRecipe.Proofs.Archive.Names
import TarRecipe.Proofs.Archive.Packing
import TarRecipe.Proofs.Archive.ReadBack
import TarRecipe.Proofs.Archive.Records
import TarRecipe.Proofs.Attributes
import TarRecipe.Proofs.Build.Inventory
import TarRecipe.Proofs.Build.Permissions
import TarRecipe.Proofs.Build.Provenance
import TarRecipe.Proofs.Build.Reproducible
import TarRecipe.Proofs.Config
import TarRecipe.Proofs.Copying
import TarRecipe.Proofs.Digest
import TarRecipe.Proofs.Directives
import TarRecipe.Proofs.Disk.Change
import TarRecipe.Proofs.Disk.Lookup
import TarRecipe.Proofs.Disk.Node
import TarRecipe.Proofs.Disk.Pathname
import TarRecipe.Proofs.Disk.Replacing
import TarRecipe.Proofs.Disk.Scan
import TarRecipe.Proofs.Disk.Storing
import TarRecipe.Proofs.Effect
import TarRecipe.Proofs.Glob
import TarRecipe.Proofs.Glob.Matching
import TarRecipe.Proofs.Glob.Pieces
import TarRecipe.Proofs.Glob.Reading
import TarRecipe.Proofs.InPlace
import TarRecipe.Proofs.Json.Lists
import TarRecipe.Proofs.Json.Rest
import TarRecipe.Proofs.Json.Text
import TarRecipe.Proofs.Mode
import TarRecipe.Proofs.Path
import TarRecipe.Proofs.Recipe.Arrays
import TarRecipe.Proofs.Recipe.Document
import TarRecipe.Proofs.Recipe.Joined
import TarRecipe.Proofs.Recipe.Layout
import TarRecipe.Proofs.Recipe.Passes
import TarRecipe.Proofs.Recipe.Reprinted
import TarRecipe.Proofs.Recipe.Seam
import TarRecipe.Proofs.Recipe.Validation
import TarRecipe.Proofs.Recopying
import TarRecipe.Proofs.Selection
import TarRecipe.Proofs.Text.Ascii
import TarRecipe.Proofs.Text.ByteOrder
import TarRecipe.Proofs.Text.Decoding
import TarRecipe.Proofs.Text.Pieces
import TarRecipe.Proofs.Toml.Number
import TarRecipe.Proofs.Toml.Text
import TarRecipe.Proofs.Tree.Children
import TarRecipe.Proofs.Tree.Coherence
import TarRecipe.Proofs.Tree.Consulted
import TarRecipe.Proofs.Tree.Descendants
import TarRecipe.Proofs.Tree.Insertions
import TarRecipe.Proofs.Tree.Layers
import TarRecipe.Proofs.Tree.Listing
import TarRecipe.Proofs.Tree.Lookup
import TarRecipe.Proofs.Tree.Merging
import TarRecipe.Proofs.Tree.Operations
import TarRecipe.Proofs.Tree.PathMap
import TarRecipe.Proofs.Tree.Pruning
import TarRecipe.Proofs.Tree.Related
import TarRecipe.Proofs.Tree.Repruning
import TarRecipe.Proofs.Tree.Rollback
import TarRecipe.Proofs.Tree.Search
import TarRecipe.Proofs.Tree.Survivors
import TarRecipe.Proofs.Tree.WellFormed
import TarRecipe.Proofs.Tree.Within
import TarRecipe.Proofs.UpToDate
import TarRecipe.Recipe.Command
import TarRecipe.Recipe.Document
import TarRecipe.Recipe.Lines
import TarRecipe.Recipe.Validation
import TarRecipe.Text.Blank
import TarRecipe.Text.GraphemeExtend
import TarRecipe.Text.Hex
import TarRecipe.Text.Printable
import TarRecipe.Text.Quoted
import TarRecipe.Text.Utf8
import TarRecipe.Toml.Number
import TarRecipe.Toml.Reader
import TarRecipe.Toml.Text
import TarRecipe.Toml.Value
import TarRecipe.Tree.Basic
import TarRecipe.Tree.Children
import TarRecipe.Tree.Edit
import TarRecipe.Tree.Kind
import TarRecipe.Tree.Lookup
import TarRecipe.Tree.Origins
import TarRecipe.Tree.Pruning
import TarRecipe.Tree.View
import TarRecipe.Zstandard
