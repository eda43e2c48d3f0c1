import AccessiblePdf.Annotation.Edit
import AccessiblePdf.Bytes
import AccessiblePdf.Color
import AccessiblePdf.CommandLine.Arguments
import AccessiblePdf.CommandLine.Summary
import AccessiblePdf.Content.Command
import AccessiblePdf.Content.Graphics
import AccessiblePdf.Content.Marking
import AccessiblePdf.Content.Operation
import AccessiblePdf.Content.Scan
import AccessiblePdf.Data.Basic
import AccessiblePdf.Data.Json
import AccessiblePdf.Data.JsonText
import AccessiblePdf.Data.Yaml.Document
import AccessiblePdf.Data.Yaml.Scalar
import AccessiblePdf.Data.Yaml.Token
import AccessiblePdf.Decimal.Binary
import AccessiblePdf.Decimal.Layout
import AccessiblePdf.Decimal.Read
import AccessiblePdf.Decimal.Shortest
import AccessiblePdf.Digest.Sha256
import AccessiblePdf.Document.Basic
import AccessiblePdf.Document.Change
import AccessiblePdf.Document.Content
import AccessiblePdf.Document.Pages
import AccessiblePdf.Document.Reachable
import AccessiblePdf.Document.Trees
import AccessiblePdf.Draft
import AccessiblePdf.Fault
import AccessiblePdf.File.CrossReference
import AccessiblePdf.File.Indirect
import AccessiblePdf.File.Read
import AccessiblePdf.File.Write
import AccessiblePdf.Filter.Ascii85
import AccessiblePdf.Filter.Inflate
import AccessiblePdf.Filter.Lzw
import AccessiblePdf.Filter.Predictor
import AccessiblePdf.Font.Encoding
import AccessiblePdf.Font.Glyph
import AccessiblePdf.Font.GlyphNames
import AccessiblePdf.Font.Loaded
import AccessiblePdf.Font.Program
import AccessiblePdf.Font.Repair
import AccessiblePdf.Font.Subset
import AccessiblePdf.Font.ToUnicode
import AccessiblePdf.Geometry.Box
import AccessiblePdf.Geometry.Matrix
import AccessiblePdf.Geometry.Region
import AccessiblePdf.Header
import AccessiblePdf.Instruction.Read
import AccessiblePdf.Instruction.Set
import AccessiblePdf.Instruction.Validate
import AccessiblePdf.Instruction.Violation
import AccessiblePdf.Instruction.Vocabulary
import AccessiblePdf.Main
import AccessiblePdf.Metadata.Settings
import AccessiblePdf.Metadata.Xmp
import AccessiblePdf.Number
import AccessiblePdf.Object.Basic
import AccessiblePdf.Object.Reader
import AccessiblePdf.Object.TextString
import AccessiblePdf.Object.Writer
import AccessiblePdf.Ocr.Layer
import AccessiblePdf.Ocr.Word
import AccessiblePdf.OrderedMap
import AccessiblePdf.Outline.Build
import AccessiblePdf.Outline.Heading
import AccessiblePdf.Proofs.Content.Brackets
import AccessiblePdf.Proofs.Content.Scan
import AccessiblePdf.Remedy.File
import AccessiblePdf.Remedy.Options
import AccessiblePdf.Remedy.Stage
import AccessiblePdf.Report.Basic
import AccessiblePdf.Report.Contrast
import AccessiblePdf.Report.Display
import AccessiblePdf.Report.File
import AccessiblePdf.Report.Font
import AccessiblePdf.Report.Format
import AccessiblePdf.Report.Navigation
import AccessiblePdf.Report.Page
import AccessiblePdf.Report.Structure
import AccessiblePdf.Structure.Build
import AccessiblePdf.Structure.Element
import AccessiblePdf.Structure.ParentTree
import AccessiblePdf.Structure.Role
import AccessiblePdf.Structure.Strip
import AccessiblePdf.Structure.Tagging
import AccessiblePdf.Text.Blank
import AccessiblePdf.Text.Composed
import AccessiblePdf.Text.Date
import AccessiblePdf.Text.Decomposition
import AccessiblePdf.Text.Numeral
import AccessiblePdf.Text.Utf16
import AccessiblePdf.Text.Utf8
import AccessiblePdf.Tree
import AccessiblePdf.Proofs.Content.Nesting
import AccessiblePdf.Proofs.Content.Spans
import AccessiblePdf.Proofs.Content.Levels
import AccessiblePdf.Proofs.Content.Retagging
import AccessiblePdf.Proofs.Content.Unwrapping
import AccessiblePdf.Proofs.Document.Lookup
import AccessiblePdf.Proofs.Draft
import AccessiblePdf.Proofs.Number
import AccessiblePdf.Proofs.OrderedMap
import AccessiblePdf.Proofs.Structure.NumberTree
import AccessiblePdf.Proofs.Structure.ParentTree
import AccessiblePdf.Proofs.Document.Extension
import AccessiblePdf.Proofs.Structure.Books
import AccessiblePdf.Proofs.Structure.Bookkeeping
import AccessiblePdf.Proofs.Structure.Ledger
import AccessiblePdf.Proofs.Content.Numbering
import AccessiblePdf.Proofs.Structure.Recording
import AccessiblePdf.Proofs.Structure.Untagged
import AccessiblePdf.Proofs.Structure.Regions
import AccessiblePdf.Proofs.Structure.Building
import AccessiblePdf.Proofs.Structure.Agreement
import AccessiblePdf.Proofs.Document.Appending
import AccessiblePdf.Proofs.Instruction.References
import AccessiblePdf.Proofs.Annotation.Agreement
import AccessiblePdf.Proofs.Content.Painting
import AccessiblePdf.Proofs.Document.Overlay
import AccessiblePdf.Proofs.Ocr.Face
import AccessiblePdf.Proofs.Ocr.Laying
import AccessiblePdf.Proofs.Ocr.Recognition
import AccessiblePdf.Proofs.Font.Remapping
import AccessiblePdf.Proofs.Structure.Readback
import AccessiblePdf.Proofs.Structure.KidLists
import AccessiblePdf.Proofs.Outline.Reading
import AccessiblePdf.Proofs.Document.Shedding
import AccessiblePdf.Proofs.Structure.Stripping
import AccessiblePdf.Proofs.Object.Tokens
import AccessiblePdf.Proofs.Object.Writing
import AccessiblePdf.Proofs.Content.Writing
import AccessiblePdf.Proofs.Structure.Listing
import AccessiblePdf.Proofs.Remedy.Leniency
import AccessiblePdf.Proofs.Instruction.Rules
import AccessiblePdf.Proofs.Instruction.Spellings
import AccessiblePdf.Proofs.Instruction.Validity
import AccessiblePdf.Proofs.Outline.Nesting
import AccessiblePdf.Proofs.Outline.ReadingOrder
import AccessiblePdf.Proofs.Report.Loops
import AccessiblePdf.Proofs.Structure.Keyed
import AccessiblePdf.Proofs.Structure.FreshKeys
import AccessiblePdf.Proofs.Document.Retention
import AccessiblePdf.Proofs.Font.Finding
import AccessiblePdf.Proofs.Table
import AccessiblePdf.Proofs.Font.Differences
import AccessiblePdf.Proofs.Font.Widths
import AccessiblePdf.Proofs.Font.CidWidths
import AccessiblePdf.Proofs.Font.SimpleWidths
import AccessiblePdf.Proofs.Text.Keys
import AccessiblePdf.Proofs.Structure.NameList
import AccessiblePdf.Proofs.Structure.NameTree
import AccessiblePdf.Proofs.Structure.ElementIds
import AccessiblePdf.Proofs.Font.Naming
import AccessiblePdf.Proofs.Ocr.Names
import AccessiblePdf.Proofs.Ocr.Readback
import AccessiblePdf.Proofs.Ocr.Repeating
import AccessiblePdf.Proofs.Content.Restoring
import AccessiblePdf.Proofs.Content.Isolation
import AccessiblePdf.Proofs.Content.Shorthands
import AccessiblePdf.Proofs.Outline.Destinations
import AccessiblePdf.Proofs.Metadata.Part
import AccessiblePdf.Proofs.Geometry.Matrix
import AccessiblePdf.Proofs.Geometry.Region
import AccessiblePdf.Proofs.Font.Ranges
import AccessiblePdf.Proofs.Annotation.Texts
import AccessiblePdf.Proofs.Font.Boundaries
import AccessiblePdf.Proofs.Font.Additions
import AccessiblePdf.Proofs.Text.Offset
import AccessiblePdf.Proofs.Font.CidSet
import AccessiblePdf.Proofs.Runs
import AccessiblePdf.Proofs.Text.DateFields
import AccessiblePdf.Proofs.Structure.RoleMap
