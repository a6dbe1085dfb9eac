import MarkupTemplates.Text.Blank
import MarkupTemplates.Text.Numeral
import MarkupTemplates.Text.Quoted
import MarkupTemplates.Dictionary
import MarkupTemplates.Markup.Forest
import MarkupTemplates.Edit
import MarkupTemplates.Marker
import MarkupTemplates.Directive.Names
import MarkupTemplates.Directive.Comment
import MarkupTemplates.Symbols
import MarkupTemplates.Resource
import MarkupTemplates.Event
import MarkupTemplates.ParsedTemplate.OfSource
import MarkupTemplates.ParsedTemplate.Identity
import MarkupTemplates.Output
import MarkupTemplates.Printing
import MarkupTemplates.Program.OfChunks
import MarkupTemplates.Program.Dialect
import MarkupTemplates.Template.Outline
import MarkupTemplates.Frame
import MarkupTemplates.Rendering.Template
import MarkupTemplates.Template.Compiler
import MarkupTemplates.Proofs.Text.Bytes
import MarkupTemplates.Proofs.Edit.Spelling
import MarkupTemplates.Proofs.Edit.Application
import MarkupTemplates.Proofs.Edit.Rewrites
import MarkupTemplates.Proofs.Markup.Formation
import MarkupTemplates.Proofs.Markup.Legible
import MarkupTemplates.Proofs.Markup.Cutting
import MarkupTemplates.Proofs.Markup.Relocation
import MarkupTemplates.Proofs.Markup.Siblings
import MarkupTemplates.Proofs.Markup.Excerpt
import MarkupTemplates.Proofs.Markup.Placement
import MarkupTemplates.Proofs.Markup.Removal
import MarkupTemplates.Proofs.Markup.Retagging
import MarkupTemplates.Proofs.ParsedTemplate.Layout
import MarkupTemplates.Proofs.Markup.Rows
import MarkupTemplates.Proofs.ParsedTemplate.Passages
import MarkupTemplates.Proofs.ParsedTemplate.Coverage
import MarkupTemplates.Proofs.ParsedTemplate.Rewriting
import MarkupTemplates.Proofs.ParsedTemplate.Positions
import MarkupTemplates.Proofs.ParsedTemplate.ElementBody
import MarkupTemplates.Proofs.ParsedTemplate.Agenda
import MarkupTemplates.Proofs.Symbols.Consistency
import MarkupTemplates.Proofs.Program.Dialect
import MarkupTemplates.Proofs.ParsedTemplate.Names
import MarkupTemplates.Proofs.ParsedTemplate.OpenMacros
import MarkupTemplates.Proofs.ParsedTemplate.Attributes
import MarkupTemplates.Proofs.ParsedTemplate.Directives
import MarkupTemplates.Proofs.ParsedTemplate.Segments
import MarkupTemplates.Proofs.ParsedTemplate.Extraction
import MarkupTemplates.Proofs.ParsedTemplate.Values
import MarkupTemplates.Proofs.ParsedTemplate.ErrorPlaces
import MarkupTemplates.Proofs.Text.Trim
import MarkupTemplates.Proofs.Text.Chunks
import MarkupTemplates.Proofs.Program.Codes
import MarkupTemplates.Proofs.ParsedTemplate.Pieces
import MarkupTemplates.Proofs.Dictionary
import MarkupTemplates.Proofs.Charset.Encoding
import MarkupTemplates.Proofs.Directive.CommentForm
import MarkupTemplates.Proofs.Markup.Comments
import MarkupTemplates.Proofs.Markup.Quoting
import MarkupTemplates.Proofs.Markup.References
import MarkupTemplates.Proofs.ParsedTemplate.BodyTokens
import MarkupTemplates.Proofs.ParsedTemplate.MacroOrigin
import MarkupTemplates.Proofs.Program.Identifiers
import MarkupTemplates.Proofs.ParsedTemplate.Abstraction
import MarkupTemplates.Proofs.ParsedTemplate.Inheritance
import MarkupTemplates.Proofs.ParsedTemplate.Alongside
import MarkupTemplates.Proofs.ParsedTemplate.Unmarked
import MarkupTemplates.Proofs.Program.Instructions
import MarkupTemplates.Proofs.Program.Blocks
import MarkupTemplates.Proofs.Program.Nesting
import MarkupTemplates.Proofs.Rendering.Account
import MarkupTemplates.Proofs.Program.Bindings
import MarkupTemplates.Proofs.Program.Calls
import MarkupTemplates.Proofs.Program.Enclosure
import MarkupTemplates.Proofs.Program.OwnMacros
import MarkupTemplates.Proofs.Frame.Stage
import MarkupTemplates.Proofs.Frame.Ambient
import MarkupTemplates.Proofs.Rendering.Likeness
import MarkupTemplates.Proofs.Frame.Likeness
import MarkupTemplates.Proofs.Rendering.Bounds
import MarkupTemplates.Proofs.Rendering.Performance
import MarkupTemplates.Proofs.Rendering.Programs
import MarkupTemplates.Proofs.Rendering.Results
import MarkupTemplates.Proofs.Rendering.Simulation
import MarkupTemplates.Proofs.Rendering.Mirrors
import MarkupTemplates.Proofs.Rendering.Scripts
import MarkupTemplates.Proofs.Rendering.Restoring
import MarkupTemplates.Proofs.Template.Instances
import MarkupTemplates.Proofs.Template.Below
import MarkupTemplates.Proofs.Rendering.Companies
import MarkupTemplates.Proofs.Template.Compiling
import MarkupTemplates.Proofs.Rendering.Streams
import MarkupTemplates.Proofs.Rendering.Abstraction
import MarkupTemplates.Proofs.Rendering.Soundness
import MarkupTemplates.Proofs.Rendering.Configurations
import MarkupTemplates.Proofs.Rendering.Surroundings
import MarkupTemplates.Proofs.Rendering.Identity
import MarkupTemplates.Proofs.Markup.Spans
import MarkupTemplates.Proofs.Markup.Drafts
import MarkupTemplates.Proofs.ParsedTemplate.Arising
import MarkupTemplates.Proofs.ParsedTemplate.Unfolding
import MarkupTemplates.Proofs.Text.Cuts
import MarkupTemplates.Proofs.Markup.CheckedReading
import MarkupTemplates.Proofs.Edit.Bytewise
import MarkupTemplates.Proofs.Edit.CheckedApplication
import MarkupTemplates.Proofs.ParsedTemplate.CheckedPieces
import MarkupTemplates.Proofs.ParsedTemplate.CheckedWalk
import MarkupTemplates.Proofs.ParsedTemplate.CheckedParsing
import MarkupTemplates.Proofs.ParsedTemplate.Parameters
import MarkupTemplates.Proofs.Markup.Extension
import MarkupTemplates.Proofs.Markup.ClosedElements
import MarkupTemplates.Proofs.ParsedTemplate.Recurrence
import MarkupTemplates.Proofs.ParsedTemplate.WrittenAlike
import MarkupTemplates.Proofs.ParsedTemplate.Counterparts
import MarkupTemplates.Proofs.ParsedTemplate.SurfaceForms
import MarkupTemplates.Proofs.Text.Recognition
import MarkupTemplates.Proofs.ParsedTemplate.StatementPlaces
import MarkupTemplates.Proofs.Markup.OpenElements
import MarkupTemplates.Proofs.Markup.Preorder
import MarkupTemplates.Proofs.ParsedTemplate.Offsets
import MarkupTemplates.Proofs.Program.Misreadings
import MarkupTemplates.Proofs.Program.InterpolationFaults
import MarkupTemplates.Proofs.Program.StatementCodes
import MarkupTemplates.Proofs.Program.WellNested
import MarkupTemplates.Proofs.Program.ReadBack
import MarkupTemplates.Proofs.Charset.Utf8
import MarkupTemplates.Proofs.Charset.Decoding
import MarkupTemplates.Proofs.Charset.RoundTrip
import MarkupTemplates.Proofs.Charset.Cuts
import MarkupTemplates.Proofs.Template.Formatters
import MarkupTemplates.Proofs.Markup.RawContent
import MarkupTemplates.Proofs.ParsedTemplate.RawElements
import MarkupTemplates.Proofs.ParseError
import MarkupTemplates.Proofs.Template.Refusals
import MarkupTemplates.Proofs.Program.WrittenExpressions
import MarkupTemplates.Proofs.Frame.Views
import MarkupTemplates.Proofs.ParsedTemplate.Declarations
import MarkupTemplates.Proofs.Program.Fragments
