import ForumMarkup.Config.Toml
import ForumMarkup.Element.Post
import ForumMarkup.Lookup.Handlers
import ForumMarkup.Main
import ForumMarkup.Outline
import ForumMarkup.Proofs.Bbcode.Conservation
import ForumMarkup.Proofs.Bbcode.RoundTrip
import ForumMarkup.Proofs.Markdown.QuoteMarks
import ForumMarkup.Proofs.Markdown.TextLoss
import ForumMarkup.Proofs.Bbcode.PlainText
import ForumMarkup.Proofs.Markdown.LineEnds
import ForumMarkup.Proofs.Markdown.PlainPost
import ForumMarkup.Proofs.Markdown.NestedList
import ForumMarkup.Proofs.Text.FilledLines
import ForumMarkup.Proofs.Markdown.Spelled
import ForumMarkup.Proofs.Markdown.KeptBreaks
import ForumMarkup.Proofs.Markdown.Quoted
import ForumMarkup.Proofs.Markdown.QuotedEnds
import ForumMarkup.Proofs.Markdown.Twin
import ForumMarkup.Proofs.Markdown.QuotedSpans
import ForumMarkup.Proofs.Markdown.QuotedContent
import ForumMarkup.Proofs.Markdown.QuotedPost
import ForumMarkup.Proofs.Markdown.Questions
import ForumMarkup.Proofs.Markdown.CodePost
import ForumMarkup.Proofs.Dictionary
import ForumMarkup.Proofs.Xml.Written
import ForumMarkup.Proofs.Xml.Tags
import ForumMarkup.Proofs.Xml.RoundTrip
import ForumMarkup.Proofs.Text.SpacedLines
import ForumMarkup.Proofs.Markdown.BlankLines
import ForumMarkup.Proofs.Markdown.Wrapper
import ForumMarkup.Proofs.Bbcode.TreeShape
import ForumMarkup.Proofs.Element.KeptLeaves
import ForumMarkup.Proofs.Lookup.Agrees
import ForumMarkup.Proofs.Markdown.EmptyAnswers
import ForumMarkup.Proofs.Span.Tidy
import ForumMarkup.Proofs.Markdown.WholeBreaks
import ForumMarkup.Proofs.Markdown.TornBreaks
import ForumMarkup.Proofs.Markdown.BreakRequests
import ForumMarkup.Proofs.Markdown.InertPost
import ForumMarkup.Proofs.Xml.OuterText
import ForumMarkup.Proofs.Markdown.RepeatedMarkers
import ForumMarkup.Proofs.Bbcode.Smilies
import ForumMarkup.Proofs.Bbcode.Warnings
import ForumMarkup.Proofs.Markdown.MarkerEdges
import ForumMarkup.Proofs.Markdown.EmphasisBreaks
import ForumMarkup.Proofs.Bbcode.QuoteHeader
import ForumMarkup.Proofs.Markdown.InlinePost
import ForumMarkup.Proofs.Span.Walk
import ForumMarkup.Proofs.Span.ListNumbers
import ForumMarkup.Proofs.Span.BreakRuns
import ForumMarkup.Proofs.Span.Fences
import ForumMarkup.Proofs.Element.CleanTrees
import ForumMarkup.Proofs.Markdown.SplitTexts
import ForumMarkup.Proofs.Outline.Exclusive
import ForumMarkup.Proofs.Span.CodeSpans
import ForumMarkup.Proofs.Format.StoredPosts
import ForumMarkup.Proofs.Bbcode.Closers
import ForumMarkup.Proofs.Lookup.Numbers
