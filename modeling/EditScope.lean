import EditScope.Batch
import EditScope.Codec.Patch
import EditScope.Codec.SettingsText
import EditScope.Proofs.Attribution.BodyEdit
import EditScope.Proofs.Cursor.Queries
import EditScope.Proofs.Bracket.Scan
import EditScope.Proofs.Outline.Reflow
import EditScope.Proofs.Lexeme.Cut
import EditScope.Proofs.Token.Cut
import EditScope.Proofs.Sketch.Fence
import EditScope.Proofs.Sketch.Complete
import EditScope.Proofs.Sketch.Concat
import EditScope.Proofs.Outline.Concat
import EditScope.Proofs.Lexeme.Spelled
import EditScope.Proofs.Token.Printed
import EditScope.Proofs.Grammar.Basic
import EditScope.Proofs.Grammar.Walked
import EditScope.Proofs.Outline.Printed
import EditScope.Proofs.Lexeme.Whole
import EditScope.Proofs.Token.Regions
import EditScope.Proofs.Outline.Boundary
import EditScope.Proofs.Declaration.Numbered
import EditScope.Proofs.Sketch.Numbered
import EditScope.Proofs.Sketch.Shape
import EditScope.Proofs.Outline.Numbered
import EditScope.Proofs.Outline.Shape
import EditScope.Proofs.Outline.Distinct
import EditScope.Proofs.Attribution.Added
import EditScope.Proofs.Cursor.History
import EditScope.Proofs.Cursor.Overlap
import EditScope.Proofs.Attribution.Reversal
import EditScope.Proofs.Attribution.Lines
import EditScope.Proofs.Sketch.Nesting
import EditScope.Proofs.Outline.Nearest
import EditScope.Proofs.Attribution.Whole
import EditScope.Proofs.Batch.Isolation
import EditScope.Proofs.Codec.Respelled
import EditScope.Proofs.Codec.RoundTrip
import EditScope.Proofs.Lexeme.Filler
import EditScope.Proofs.Token.Filler
import EditScope.Proofs.Sketch.Skims
import EditScope.Proofs.Outline.Bodies
import EditScope.Proofs.Grammar.Constants
import EditScope.Proofs.Cursor.Range
import EditScope.Outline.Flattening
import EditScope.Proofs.Outline.Flattening
import EditScope.Proofs.Outline.Rows
import EditScope.Proofs.Declaration.Pruned
import EditScope.Proofs.Outline.Assembled
import EditScope.Proofs.Sketch.Pruned
import EditScope.Proofs.Outline.Pruned
import EditScope.Proofs.Settings.UnitName
import EditScope.Proofs.Attribution.Subtree
import EditScope.Bracket.Tables
import EditScope.Proofs.Bracket.Tables
import EditScope.Declaration.Descent
import EditScope.Proofs.Sketch.Descent
