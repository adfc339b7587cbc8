import Scaffold.CommandLine
import Scaffold.Css.Block
import Scaffold.Css.Cursor
import Scaffold.Css.Location
import Scaffold.Css.Rule
import Scaffold.Css.SelectorList
import Scaffold.Css.Sheet
import Scaffold.Css.Support
import Scaffold.Css.Token
import Scaffold.Css.Token.Lexer
import Scaffold.Document.Window
import Scaffold.Element.Attributes
import Scaffold.Element.Basic
import Scaffold.Element.Edit
import Scaffold.Element.Forest
import Scaffold.Element.Markup
import Scaffold.Element.Slots
import Scaffold.Error
import Scaffold.Fragment
import Scaffold.Html.Entity
import Scaffold.Html.Layout
import Scaffold.Html.Node
import Scaffold.Html.Reference
import Scaffold.Html.Token
import Scaffold.Html.Token.Comment
import Scaffold.Html.Token.Content
import Scaffold.Html.Token.Lexer
import Scaffold.Html.Token.Tag
import Scaffold.Job
import Scaffold.Log
import Scaffold.Main
import Scaffold.Selector.Compound
import Scaffold.Selector.Path
import Scaffold.Store
import Scaffold.Tag
import Scaffold.Text.Basic
import Scaffold.Text.Blank
import Scaffold.Text.Occurrence
import Scaffold.Text.Quoted
import Scaffold.Text.Visible
import Scaffold.Proofs.Css.Component
import Scaffold.Proofs.Css.Display
import Scaffold.Proofs.Css.Extension
import Scaffold.Proofs.Css.Grammar
import Scaffold.Proofs.Css.Lexing
import Scaffold.Proofs.Css.NormalForm
import Scaffold.Proofs.Css.Part
import Scaffold.Proofs.Css.Prelude
import Scaffold.Proofs.Css.Reading
import Scaffold.Proofs.Css.Recovery
import Scaffold.Proofs.Css.Seam
import Scaffold.Proofs.Css.Sequence
import Scaffold.Proofs.Css.Stretch
import Scaffold.Proofs.Css.Value
import Scaffold.Proofs.Document.Window
import Scaffold.Proofs.Element.Caching
import Scaffold.Proofs.Element.Contiguity
import Scaffold.Proofs.Element.Listing
import Scaffold.Proofs.Element.Nesting
import Scaffold.Proofs.Element.Partition
import Scaffold.Proofs.Element.Pass
import Scaffold.Proofs.Element.Precedence
import Scaffold.Proofs.Element.QuotedValue
import Scaffold.Proofs.Element.Regrowth
import Scaffold.Proofs.Element.Separation
import Scaffold.Proofs.Html.Block
import Scaffold.Proofs.Html.Comment
import Scaffold.Proofs.Html.Content
import Scaffold.Proofs.Html.Enclosed
import Scaffold.Proofs.Html.Flatten
import Scaffold.Proofs.Html.Format
import Scaffold.Proofs.Html.HeldText
import Scaffold.Proofs.Html.KeepsTags
import Scaffold.Proofs.Html.Lexing
import Scaffold.Proofs.Html.Lookahead
import Scaffold.Proofs.Html.Outline
import Scaffold.Proofs.Html.Printing
import Scaffold.Proofs.Html.RawText
import Scaffold.Proofs.Html.Reference
import Scaffold.Proofs.Html.Spelling
import Scaffold.Proofs.Html.Tags
import Scaffold.Proofs.Html.Trimmed
import Scaffold.Proofs.Html.Unescaped
import Scaffold.Proofs.Html.Verbatim
import Scaffold.Proofs.Html.Writing
import Scaffold.Proofs.Job
import Scaffold.Proofs.Selector.Compound
import Scaffold.Proofs.Selector.Path
import Scaffold.Proofs.Sketch.Basic
import Scaffold.Proofs.Sketch.Compile
import Scaffold.Proofs.Sketch.Reading
import Scaffold.Proofs.Store
import Scaffold.Proofs.Text.Cut
import Scaffold.Proofs.Text.Trim
