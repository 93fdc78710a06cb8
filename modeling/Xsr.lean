import Xsr.System.Isolation
import Xsr.Student.Parity
import Xsr.Student.Serialization
import Xsr.Parsing.Framing
import Xsr.Bm25.Agreement
import Xsr.Policy.Precedence
import Xsr.Policy.Compilation
import Xsr.Policy.MixedSelection
import Xsr.Policy.Bm25Terms
import Xsr.Connection.Routability
import Xsr.Connection.Drain
import Xsr.Connection.Enrolment
import Xsr.Connection.Baseline
import Xsr.Connection.HalfClose
import Xsr.Extraction.Messages
import Xsr.Extraction.Documents
import Xsr.Signals.Resynchronisation
import Xsr.Extraction.Surrogates
import Xsr.Parsing.SizeBoundary
import Xsr.Bm25.Lookup
import Xsr.Policy.QuotedKeywords
import Xsr.Signals.Overflow
import Xsr.Policy.UnicodeWord
import Xsr.Signals.PackedCounters
import Xsr.Signals.RuleResults
import Xsr.Bm25.Latching
import Xsr.System.Adapter
import Xsr.Policy.KeywordBlocks
import Xsr.Signals.Folding
import Xsr.Signals.Similarity
