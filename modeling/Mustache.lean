import Mustache.Main
import Mustache.Stock
import Mustache.Proofs.Compositional
import Mustache.Proofs.SharedCache
import Mustache.Proofs.SharedSections
import Mustache.Proofs.Standalone
import Mustache.Proofs.DataAsText
import Mustache.Proofs.Reads
import Mustache.Proofs.Compiles
import Mustache.Proofs.Flat
import Mustache.Proofs.Segments
import Mustache.Proofs.Nesting
import Mustache.Proofs.Sections
import Mustache.Proofs.SectionTexts
import Mustache.Proofs.Verbatim
import Mustache.Proofs.SectionDelimiters
import Mustache.Proofs.Tiling
import Mustache.Proofs.Grown
import Mustache.Proofs.SectionSpans
import Mustache.Proofs.Found
import Mustache.Proofs.Finishing
import Mustache.Proofs.Failures
import Mustache.Proofs.PragmaTags
import Mustache.Proofs.Inheritance
import Mustache.Proofs.Listing
import Mustache.Proofs.Insertions
import Mustache.Proofs.PragmaLines
import Mustache.Proofs.UnknownPragmas
import Mustache.Proofs.LineStarts
import Mustache.Proofs.Shifted
import Mustache.Proofs.ShiftedCode
import Mustache.Proofs.Margins
import Mustache.Proofs.ReadBack
import Mustache.Proofs.Namesakes
import Mustache.Proofs.Spans
import Mustache.Proofs.Pipelines
import Mustache.Proofs.Escaping
import Mustache.Proofs.NullMasking
import Mustache.Proofs.Anchored
import Mustache.Proofs.JsonForms
import Mustache.Proofs.LineNumbers
import Mustache.Proofs.DelimiterTags
import Mustache.Proofs.InlineTexts
import Mustache.Proofs.ScanLoopSafe
