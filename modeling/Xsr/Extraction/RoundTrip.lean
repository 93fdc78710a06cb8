import Xsr.Extraction.Literals
import Xsr.Policy.Value

/-!
# RoundTrip — from `json.dumps` to the classifier and back

A prompt goes through three codecs on its way to the matcher: `json.dumps`
writes it with escapes, the content scanner undoes the escapes and scores
UTF-8, and the matcher decodes that. `chat_round_trip` says that nothing is
lost on the way, whatever the prompt.
-/

namespace Xsr.Extraction

open Kernel Lib Json Signals Policy

/-! ## `json.dumps` -/

/-- The arguments of a call to `json.dumps`: `ensure_ascii`, and whether the
separators are `(",", ":")` or the default ones. -/
structure Style where
  ascii : Bool
  compact : Bool

namespace Style
variable (style : Style)

/-- The separator between items. -/
def comma : List Char := if style.compact then [','] else [',', ' ']

/-- The separator after a key. -/
def colon : List Char := if style.compact then [':'] else [':', ' ']

/-- `json.dumps` of a string. -/
def string (s : String) : List Char := literal (encode style.ascii s.toList)

/-- The items with the separator between them. -/
def separated : List (List Char) → List Char
  | [] => []
  | x :: xs => x ++ xs.flatMap (style.comma ++ ·)

/-- `json.dumps` of a float. -/
def floatText (x : PyFloat) : String :=
  if x.text = "nan" then "NaN"
  else if x.text = "inf" then "Infinity"
  else if x.text = "-inf" then "-Infinity"
  else x.text

mutual

/-- `json.dumps(value)` -/
def dumps : PyVal → List Char
  | .none => "null".toList
  | .bool b => if b then "true".toList else "false".toList
  | .int z => (toString z).toList
  | .float x => (floatText x).toList
  | .str s => style.string s
  | .list values => '[' :: style.separated (dumpsValues values) ++ [']']
  | .dict entries => '\x7b' :: style.separated (dumpsEntries entries) ++ ['\x7d']

def dumpsValues : List PyVal → List (List Char)
  | [] => []
  | value :: values => dumps value :: dumpsValues values

def dumpsEntries : List (String × PyVal) → List (List Char)
  | [] => []
  | (key, value) :: entries => (style.string key ++ style.colon ++ dumps value) :: dumpsEntries entries

end

end Style

/-! ## The body of a chat request -/

/-- `{"role": role, "content": content}` -/
def message (m : String × String) : PyVal := .dict [("role", .str m.1), ("content", .str m.2)]

/-- `{"model": model, "messages": [...], ...}` -/
def requestBody (model : String) (messages : List (String × String)) (rest : Dict) : PyVal :=
  .dict (("model", .str model) :: ("messages", .list (messages.map message)) :: rest)

/-- The text of a body up to the content of its first message. -/
def opening (style : Style) (model role : String) : List Char :=
  ['\x7b'] ++ (style.string "model" ++ (style.colon ++ (style.string model ++ (style.comma
    ++ (style.string "messages" ++ (style.colon ++ (['[', '\x7b'] ++ (style.string "role"
    ++ (style.colon ++ (style.string role ++ (style.comma ++ (style.string "content"
    ++ (style.colon ++ ['"'])))))))))))))

theorem dumps_requestBody (style : Style) (model : String) (m : String × String)
    (messages : List (String × String)) (rest : Dict) :
    ∃ tail, style.dumps (requestBody model (m :: messages) rest) =
      opening style model m.1 ++ ((encode style.ascii m.2.toList).flatMap Item.chars
        ++ '"' :: tail) := by
  refine ⟨'\x7d' :: ((style.dumpsValues (messages.map message)).flatMap (style.comma ++ ·)
    ++ (']' :: ((style.dumpsEntries rest).flatMap (style.comma ++ ·) ++ ['\x7d']))), ?_⟩
  simp only [requestBody, message, Style.dumps, Style.dumpsEntries, Style.dumpsValues,
    Style.separated, opening, Style.string, literal, List.map_cons, List.flatMap_cons,
    List.flatMap_nil, List.append_nil, List.append_assoc, List.cons_append, List.nil_append]

section Opening
variable (style : Style)

theorem string_passes (s : String) :
    Passes (searching 0) (style.string s)
      (searching (if spellsContent (encode style.ascii s.toList) then 9 else 1)) [] :=
  search_literal _

theorem comma_passes (b : Bool) :
    Passes (searching (if b then 9 else 1)) style.comma (searching 0) [] := by
  rw [Style.comma]
  cases b <;> cases style.compact <;> rfl

theorem colon_passes : Passes (searching 1) style.colon (searching 0) [] := by
  rw [Style.colon]
  cases style.compact <;> rfl

theorem colon_waits : Passes (searching 9) style.colon waiting [] := by
  rw [Style.colon]
  cases style.compact <;> rfl

/-- A key other than `content`, with its colon. -/
theorem key_passes {s : String} (h : spellsContent (encode style.ascii s.toList) = false) :
    ∀ {text : List Char} {flow : ContentScan}, Passes (searching 0) text flow [] →
      Passes (searching 0) (style.string s ++ (style.colon ++ text)) flow [] := by
  intro text flow hrest
  have hkey := string_passes style s
  rw [h] at hkey
  exact hkey.silent ((colon_passes style).silent hrest)

/-- **The scanner reaches the content of the first message**, whatever the
model and the role. -/
theorem opening_passes (model role : String) :
    Passes (searching 0) (opening style model role) (inside 0) [] := by
  have hmodel : spellsContent (encode style.ascii "model".toList) = false := by
    cases style.ascii <;> decide
  have hmessages : spellsContent (encode style.ascii "messages".toList) = false := by
    cases style.ascii <;> decide
  have hrole : spellsContent (encode style.ascii "role".toList) = false := by
    cases style.ascii <;> decide
  have hcontent : spellsContent (encode style.ascii "content".toList) = true := by
    cases style.ascii <;> decide
  have hopen : Passes (searching 0) ['\x7b'] (searching 0) [] := rfl
  have hlist : Passes (searching 0) ['[', '\x7b'] (searching 0) [] := rfl
  have hkey := string_passes style "content"
  rw [hcontent] at hkey
  refine hopen.silent (key_passes style hmodel ?_)
  refine (string_passes style model).silent ((comma_passes style _).silent ?_)
  refine key_passes style hmessages (hlist.silent (key_passes style hrole ?_))
  refine (string_passes style role).silent ((comma_passes style _).silent ?_)
  exact hkey.silent ((colon_waits style).silent wait_quote)

/-- **What a request body scores**: the content of its first message. -/
theorem scored_requestBody (model : String) (m : String × String)
    (messages : List (String × String)) (rest : Dict) :
    (contentRun .initial (encodeUtf8 (style.dumps (requestBody model (m :: messages) rest)))).scored
      = encodeUtf8 m.2.toList := by
  obtain ⟨tail, htext⟩ := dumps_requestBody style model m messages rest
  have hstops := (opening_passes style model m.1).silent_stops
    (inside_literal (encode style.ascii m.2.toList) tail)
  rw [htext, ← literalBytes_text (text_encode style.ascii m.2.toList)]
  exact hstops.scored

end Opening

/-! ## The round trip -/

/-- The scanner finds the prompt in the body, and the matcher decodes it. -/
structure RoundTrips (m : ClassifierMaps) (body : List UInt8) (prompt : List Char) : Prop where
  scored : scoredBytes body = encodeUtf8 prompt
  classified : ∀ (g : QueryGrams) (s : ClassifierState),
    ((scan (bodyByte m) ⟨.initial, s, g⟩ body).1.grams,
      (scan (bodyByte m) ⟨.initial, s, g⟩ body).1.classifier) =
        classifierScoreChars m g s (encodeUtf8 prompt)
  points : ∀ u : Utf8Scan, u.utf8Remaining = 0 →
    (utf8Points u (encodeUtf8 prompt)).2 = prompt.map Char.toNat
  matched : ∀ (g : QueryGrams) (s : JaccardState), s.utf8Remaining = 0 → ∃ u : Utf8Scan,
    u.utf8Remaining = 0 ∧
      (encodeUtf8 prompt).foldl (fun t b => jaccardScoreChar m.jaccard t.1 t.2 b) (g, s) =
        jaccardScoreCodepoints m.jaccard g { s with toUtf8Scan := u } (prompt.map Char.toNat)

/-- **The prompt reaches the matcher unchanged**, in every style of
`json.dumps` and whatever else the body holds. -/
theorem chat_round_trip (m : ClassifierMaps) (style : Style) (prompt : String) (rest : Dict) :
    RoundTrips m (encodeUtf8 (style.dumps (requestBody "MoM" [("user", prompt)] rest)))
      prompt.toList := by
  have hrun := scored_requestBody style "MoM" ("user", prompt) [] rest
  refine ⟨(scoredBytes_eq _).trans hrun, fun g s => ?_, fun u hu => (utf8Points_text hu _).2,
    fun g s hs => ?_⟩
  · rw [bodyScan_eq, hrun]
  · obtain ⟨hend, hpoints⟩ := utf8Points_text hs prompt.toList
    exact ⟨_, hend, by rw [scoreChars_eq, hpoints]⟩

end Xsr.Extraction
