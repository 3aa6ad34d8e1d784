import CssSort.Main
import CssSort.Proofs.Cursor.Locality
import CssSort.Proofs.Cursor.Hits
import CssSort.Proofs.Cursor.Passing
import CssSort.Proofs.Block.Shape
import CssSort.Proofs.Block.Rereading
import CssSort.Proofs.Block.Semicolon
import CssSort.Proofs.Bytes
import CssSort.Proofs.Item.Note
import CssSort.Proofs.Item.Order
import CssSort.Proofs.Block.Closed
import CssSort.Proofs.Block.Seams
import CssSort.Proofs.Block.Stability
import CssSort.Proofs.Block.Declarations
import CssSort.Proofs.Stylesheet.Sites
import CssSort.Proofs.Stylesheet.Idempotence
import CssSort.Proofs.Stylesheet.OnePass
import CssSort.Proofs.Stylesheet.LastUnit
import CssSort.Proofs.Item.Ties
import CssSort.Proofs.Item.StableOrder
import CssSort.Proofs.Block.Canonical
import CssSort.Proofs.Block.Conservation
import CssSort.Proofs.Stylesheet.Runs
import CssSort.Proofs.Stylesheet.Concatenation
import CssSort.Proofs.Text.Boundary
import CssSort.Proofs.Cursor.Characters
import CssSort.Proofs.Stylesheet.Slices
import CssSort.Proofs.Directory
import CssSort.Proofs.Command.Words
import CssSort.Proofs.Command.Reading
import CssSort.Proofs.Command.Failure
import CssSort.Proofs.Command.Rewriting
import CssSort.Proofs.Command.Modes
import CssSort.Proofs.Item.Groups
import CssSort.Proofs.Block.Split
import CssSort.Proofs.Block.Repair
import CssSort.Proofs.Stylesheet.Growth
import CssSort.Proofs.Item.Anatomy
import CssSort.Proofs.Item.Surroundings
import CssSort.Proofs.Json.Grammar
import CssSort.Proofs.Json.Scalars
import CssSort.Proofs.Json.Values
import CssSort.Proofs.Settings.Language
import CssSort.Proofs.Cursor.Operations
import CssSort.Proofs.Text.Tokens
import CssSort.Proofs.Cursor.Tokens
import CssSort.Proofs.Block.Endings
import CssSort.Proofs.Block.Remarks
import CssSort.Proofs.Block.Values
