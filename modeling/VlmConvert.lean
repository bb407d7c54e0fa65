import VlmConvert.Core.Lts
import VlmConvert.L4Service.BudgetLease
import VlmConvert.L4Service.Pipeline
import VlmConvert.L4Service.Protocol
import VlmConvert.L4Service.Admission
import VlmConvert.L4Service.Completion
import VlmConvert.Core.Bytes
import VlmConvert.Core.Base64
import VlmConvert.Core.CachedSearch
import VlmConvert.Core.LazyMatch
import VlmConvert.Core.Tiling
import VlmConvert.Core.Placement
import VlmConvert.L2Table.Table
import VlmConvert.L2Table.Grid
import VlmConvert.L2Table.TextTable
import VlmConvert.L2Table.Otsl
import VlmConvert.L2Table.OtslGrid
import VlmConvert.L1Text.Markup
import VlmConvert.L1Text.ElementScanner
import VlmConvert.L1Text.StripTags
import VlmConvert.L1Text.MathDelimiters
import VlmConvert.L1Text.MarkupText
import VlmConvert.L1Text.MarkupStack
import VlmConvert.L2Table.HtmlTable
import VlmConvert.L2Table.InlineText
import VlmConvert.L2Table.HtmlLayout
import VlmConvert.L2Table.SpanTable
import VlmConvert.L2Table.ChandraReference
import VlmConvert.L1Text.MarkdownInline
import VlmConvert.Core.Nesting
import VlmConvert.Core.Json
import VlmConvert.L1Text.Emphasis
import VlmConvert.L1Text.EmphasisFloor
import VlmConvert.L1Text.EmphasisSpans
import VlmConvert.L1Text.InlineTags
import VlmConvert.L1Text.InlineContent
import VlmConvert.L2Table.Latex
import VlmConvert.L2Table.LatexCellText
import VlmConvert.L2Table.LatexCellRender
import VlmConvert.L2Table.LatexCellRead
import VlmConvert.L2Table.LatexLayout
import VlmConvert.L2Table.LatexHtml
import VlmConvert.L2Table.LatexPositions
import VlmConvert.L2Table.LatexRender
import VlmConvert.L2Table.LatexRoundTrip
import VlmConvert.L2Table.LatexSplit
import VlmConvert.L2Table.Escapers
import VlmConvert.Core.Forest
import VlmConvert.L3Document.Document
import VlmConvert.L3Document.Markdown
import VlmConvert.L3Document.ImageCrop
import VlmConvert.L3Document.LayoutWriter
import VlmConvert.L3Document.Charspans
import VlmConvert.L3Document.AdjacentCaptions
import VlmConvert.L3Document.Concat
import VlmConvert.L3Document.Doctags
import VlmConvert.L3Document.PageItems
import VlmConvert.L3Document.WriterGrowth
import VlmConvert.L3Document.DoctagsTree
import VlmConvert.L3Document.DoctagsScan
import VlmConvert.L3Document.DoctagsElements
import VlmConvert.L3Document.DoctagsIndependence
import VlmConvert.L3Document.DoctagsInner
import VlmConvert.L3Document.DoctagsInline
import VlmConvert.L4Service.Endpoint
import VlmConvert.L4Service.VlmClient
import VlmConvert.L4Service.ImageData
import VlmConvert.L4Service.RetryLoop
import VlmConvert.L4Service.EndpointPolicy
import VlmConvert.L3Document.CutTables
import VlmConvert.L3Document.DoctagsText
import VlmConvert.L3Document.Doclang
import VlmConvert.L3Document.DoclangText
import VlmConvert.L3Document.Dots
import VlmConvert.L3Document.Deepseek
import VlmConvert.L3Document.DeepseekEmit
import VlmConvert.L3Document.UnlimitedOcr
import VlmConvert.L3Document.NemotronRegions
import VlmConvert.L3Document.DoclangTable
import VlmConvert.Core.Interrupt
import VlmConvert.Core.Utf8
import VlmConvert.L1Text.MarkupUtf8
import VlmConvert.L2Table.HtmlTextUtf8
import VlmConvert.L3Document.HeadingLevels
import VlmConvert.L3Document.Chandra
import VlmConvert.L3Document.ChandraWalk
import VlmConvert.L3Document.ChandraThread
import VlmConvert.L3Document.PictureData
import VlmConvert.L3Document.DoclangBlocks
import VlmConvert.L3Document.DoclangHeadings
import VlmConvert.L3Document.Html
import VlmConvert.L3Document.InlineFragment
import VlmConvert.L3Document.DotsPage
import VlmConvert.L3Document.NemotronText
import VlmConvert.L3Document.NemotronPage
import VlmConvert.L3Document.BuilderGrowth
import VlmConvert.L3Document.DoclangGrowth
import VlmConvert.L3Document.PageForms
import VlmConvert.L3Document.ResponseLevels
import VlmConvert.L3Document.Mapper
import VlmConvert.L4Service.Presets
import VlmConvert.L4Service.Settings
import VlmConvert.L4Service.Transports
import VlmConvert.L4Service.Gateway
