import Xsr.Bm25.Stemmer
import Xsr.Lib.OrderedDict
import Xsr.Policy.Bm25Header

/-!
# Bm25Terms — the term table of `generate_bm25_policy_header.py`

The part of `parse` that reads the keyword texts: their words, the weight of
each stem in each document, the aliases of each stem and the stop words. The
weight of a term is floating-point arithmetic and the vocabulary is a pinned
file; both are parameters.
-/

namespace Xsr.Policy

open Kernel Lib Bm25 OrderedDict

/-! ## Words -/

/-- `ENGLISH_STOP_WORDS` -/
def englishStopWords : List Word :=
  ["i", "me", "my", "myself", "we", "our", "ours", "ourselves", "you", "you're", "you've",
    "you'll", "you'd", "your", "yours", "yourself", "yourselves", "he", "him", "his", "himself",
    "she", "she's", "her", "hers", "herself", "it", "it's", "its", "itself", "they", "them",
    "their", "theirs", "themselves", "what", "which", "who", "whom", "this", "that", "that'll",
    "these", "those", "am", "is", "are", "was", "were", "be", "been", "being", "have", "has",
    "had", "having", "do", "does", "did", "doing", "a", "an", "the", "and", "but", "if", "or",
    "because", "as", "until", "while", "of", "at", "by", "for", "with", "about", "against",
    "between", "into", "through", "during", "before", "after", "above", "below", "to", "from",
    "up", "down", "in", "out", "on", "off", "over", "under", "again", "further", "then", "once",
    "here", "there", "when", "where", "why", "how", "all", "any", "both", "each", "few", "more",
    "most", "other", "some", "such", "no", "nor", "not", "only", "own", "same", "so", "than",
    "too", "very", "s", "t", "can", "will", "just", "don", "don't", "should", "should've", "now",
    "d", "ll", "m", "o", "re", "ve", "y", "ain", "aren", "aren't", "couldn", "couldn't", "didn",
    "didn't", "doesn", "doesn't", "hadn", "hadn't", "hasn", "hasn't", "haven", "haven't", "isn",
    "isn't", "ma", "mightn", "mightn't", "mustn", "mustn't", "needn", "needn't", "shan", "shan't",
    "shouldn", "shouldn't", "wasn", "wasn't", "weren", "weren't", "won", "won't", "wouldn",
    "wouldn't"].map ascii

/-- The words of a text that are no stop words. -/
def contentWords (text : List UInt8) : List Word :=
  (Regex.findall asciiWord text).filter fun word => word ∉ englishStopWords

/-- `tokenize_query` -/
def tokenizeQuery (text : List Char) : List Word :=
  (contentWords (Bm25.queryText text)).map stemEnglish

/-- `is_ascii_word` -/
def isAsciiWord (text : List Char) : Bool :=
  match policyText text with
  | some s => (Regex.ways asciiWord s).any (·.rest.isEmpty)
  | none => false

/-- `token_hash` -/
def tokenHash (token : Word) : UInt32 := token.foldl fnvRound fnvOffset

/-- A word as text. -/
def wordText (word : Word) : String := String.ofList (word.map fun c => Char.ofNat c.toNat)

/-! ## The generator -/

/-- What the weight of a term in a document is computed from. -/
structure TermStats where
  corpusSize : Nat
  documentFrequency : Nat
  frequency : Nat
  documentLength : Nat
  totalLength : Nat
  deriving DecidableEq

/-- `MAX_DOCUMENT_TOKENS` -/
def maxDocumentTokens : Nat := 16
/-- `MAX_CORPUS_TERMS` -/
def maxCorpusTerms : Nat := 128
/-- `MAX_TERMS` -/
def maxTerms : Nat := 2048
/-- `MAX_TOKEN_BYTES` -/
def maxTokenBytes : Nat := 64
/-- `MAX_FIXED_TERM_WEIGHT` -/
def maxFixedTermWeight : Int := maxFixedScore / 131072

/-- The variables `term_vectors`, `hash_tokens` and `stem_surfaces`. -/
structure KnownTerms where
  termVectors : List (UInt32 × List Int)
  hashTokens : List (UInt32 × Word)
  stemSurfaces : List (Word × List Word)

/-- `[0] * MAX_DOCUMENTS` -/
def zeroWeights : List Int := List.replicate bm25MaxDocuments 0

section Generator
variable (u : Unicode)

/-- `ascii_words` -/
def asciiWords (text : String) : Except PyError (List Word) := do
  let s ← required (policyText text.toList) ("BM25 text " ++ pyRepr u text
    ++ " is outside XSR's exact ASCII tokenizer domain; "
    ++ "VSR deunicode normalization cannot be reproduced generally in eBPF")
  return contentWords s

/-- `tokenize` -/
def tokenize (text : String) : Except PyError (List Word) := do
  let words ← asciiWords u text
  return words.map stemEnglish

/-- `previous = hash_tokens.setdefault(hashed, token)` and the check behind
it. -/
def recordToken (tokens : List (UInt32 × Word)) (token : Word) :
    Except PyError (List (UInt32 × Word)) :=
  match tokens.lookup (tokenHash token) with
  | none => .ok (setItem tokens (tokenHash token) token)
  | some previous => do
      raiseIf (previous ≠ token) ("BM25 FNV-1a collision between " ++ pyRepr u (wordText previous)
        ++ " and " ++ pyRepr u (wordText token))
      return tokens

/-- `stem_surfaces.setdefault(stem_english(surface), set()).add(surface)` -/
def addSurface (surfaces : List (Word × List Word)) (surface : Word) : List (Word × List Word) :=
  let stem := stemEnglish surface
  setItem surfaces stem (add ((surfaces.lookup stem).getD []) surface)

/-- The statistics of `token` in the document `tokens` of `corpus`. -/
def termStats (corpus : List (List Word)) (tokens : List Word) (token : Word) : TermStats where
  corpusSize := corpus.length
  documentFrequency := corpus.countP fun tokens => token ∈ tokens
  frequency := tokens.count token
  documentLength := tokens.length
  totalLength := (corpus.map List.length).sum

/-- Weigh one token of the document `docId`. -/
def addTerm (weight : TermStats → Int) (corpus : List (List Word)) (tokens : List Word)
    (docId : Nat) (known : KnownTerms) (token : Word) : Except PyError KnownTerms := do
  let hashTokens ← recordToken u known.hashTokens token
  let w := weight (termStats corpus tokens token)
  raiseIf (!(0 < w && w ≤ maxFixedTermWeight)) ("BM25 term weight for "
    ++ pyRepr u (wordText token) ++ " exceeds the Q1e9 signed-64 accumulator bound for "
    ++ "MAX_QUERY_TOKENS=131072")
  let vector := (known.termVectors.lookup (tokenHash token)).getD zeroWeights
  return { known with
    hashTokens := hashTokens
    termVectors := setItem known.termVectors (tokenHash token) (vector.set docId w) }

/-- The tokens of one document, each once. -/
def addDocument (weight : TermStats → Int) (corpus : List (List Word)) (known : KnownTerms)
    (document : List Word × Nat) : Except PyError KnownTerms :=
  (collect document.1).foldlM (addTerm u weight corpus document.1 document.2) known

/-- The keywords of one rule. -/
def addKeywords (weight : TermStats → Int) (known : KnownTerms) (name : String)
    (documentStart : Nat) (values : List String) : Except PyError KnownTerms := do
  let corpus ← values.mapM (tokenize u)
  let rawCorpus ← values.mapM (asciiWords u)
  raiseIf (corpus.any List.isEmpty)
    (name ++ ": every keyword must contain an ASCII alphanumeric token")
  raiseIf (corpus.any fun tokens => maxDocumentTokens < tokens.length)
    (name ++ ": keyword documents support at most " ++ toString maxDocumentTokens ++ " tokens")
  let known := { known with stemSurfaces := rawCorpus.flatten.foldl addSurface known.stemSurfaces }
  (corpus.zipIdx documentStart).foldlM (addDocument u weight corpus) known

/-- The words of the lines of the vocabulary file. -/
def vocabularyWords (lines : List (List Char)) : List Word :=
  lines.filterMap fun line =>
    let word := u.lowerText (Unicode.strip line)
    if word ≠ [] ∧ isAsciiWord word then some (word.map fun c => UInt8.ofNat c.toNat) else none

/-- `vocabulary_by_stem().get(stem, ())` -/
def vocabularyByStem (lines : List (List Char)) (stem : Word) : List Word :=
  collect ((vocabularyWords u lines).filter fun word => stemEnglish word = stem)

/-- `surface + "'s"` -/
def possessive (surface : Word) : Word := surface ++ ascii "'s"

/-- `vocabulary_aliases` -/
def vocabularyAliases (lines : List (List Char)) (stem : Word) (configuredSurfaces : List Word) :
    List Word :=
  let aliases := add (configuredSurfaces.foldl add (vocabularyByStem u lines stem)) stem
  (aliases.filterMap fun surface =>
    if apostrophe ∈ surface then none
    else if stemEnglish (possessive surface) = stem then some (possessive surface)
    else none).foldl add aliases

/-- The variables of the alias loop. -/
structure AliasVectors where
  vectors : List (UInt32 × List Int)
  hashTokens : List (UInt32 × Word)

/-- One alias of a stem. -/
def addAlias (vector : List Int) (s : AliasVectors) (surface : Word) :
    Except PyError AliasVectors := do
  let hashTokens ← recordToken u s.hashTokens surface
  return ⟨setItem s.vectors (tokenHash surface) vector, hashTokens⟩

/-- The aliases of one stem. Its vector is there. -/
def addAliases (lines : List (List Char)) (termVectors : List (UInt32 × List Int))
    (s : AliasVectors) (entry : Word × List Word) : Except PyError AliasVectors :=
  let vector := (termVectors.lookup (tokenHash entry.1)).getD zeroWeights
  (vocabularyAliases u lines entry.1 entry.2).foldlM (addAlias u vector) s

/-- `hash_tokens.get(hashed) or stopword_hashes.setdefault(hashed, stopword)`
and the check behind it. -/
def addStopWord (hashTokens : List (UInt32 × Word)) (stopwords : List (UInt32 × Word))
    (stopword : Word) : Except PyError (List (UInt32 × Word)) :=
  match hashTokens.lookup (tokenHash stopword) with
  | some (c :: cs) => do
      raiseIf (c :: cs ≠ stopword) ("BM25 FNV-1a collision between "
        ++ pyRepr u (wordText (c :: cs)) ++ " and " ++ pyRepr u (wordText stopword))
      return stopwords
  | _ => recordToken u stopwords stopword

/-- The rows in the order of their hashes. -/
def sortByHash (rows : List TermRow) : List TermRow :=
  rows.mergeSort fun a b => a.hash ≤ b.hash

/-- The term table. -/
def termRows (lines : List (List Char)) (known : KnownTerms) : Except PyError (List TermRow) := do
  raiseIf (maxCorpusTerms < known.termVectors.length) ("BM25 policy has "
    ++ toString known.termVectors.length ++ " corpus terms; maximum is "
    ++ toString maxCorpusTerms)
  let s ← known.stemSurfaces.foldlM (addAliases u lines known.termVectors) ⟨[], known.hashTokens⟩
  let stopwords ← englishStopWords.foldlM (addStopWord u s.hashTokens) []
  -- each part in the order of its hashes, and then all the rows
  let terms := sortByHash (s.vectors.map fun e =>
      ⟨e.1, (s.hashTokens.lookup e.1).getD [], e.2, false⟩)
    ++ sortByHash (stopwords.map fun e => ⟨e.1, e.2, zeroWeights, true⟩)
  terms.forM fun term =>
    raiseIf (maxTokenBytes < term.token.length) ("BM25 token " ++ pyRepr u (wordText term.token)
      ++ " is " ++ toString term.token.length ++ " bytes; maximum is " ++ toString maxTokenBytes)
  raiseIf (maxTerms < terms.length) ("BM25 policy requires " ++ toString terms.length
    ++ " map terms; maximum is " ++ toString maxTerms)
  return sortByHash terms

/-- The tokens and weights of `parse`, for the float arithmetic `weight` and
the vocabulary file `lines`. -/
def termWeigher (weight : TermStats → Int) (lines : List (List Char)) : Weigher KnownTerms where
  initial := ⟨[], [], []⟩
  addRule := addKeywords u weight
  terms := termRows u lines

end Generator

end Xsr.Policy
