import Xsr.Extraction.RoundTrip

/-!
# Messages — which message is classified

The kernel scores the first `content` string of a body. The two references
in userspace, `content_from_request` of the student and `query_text` of the
router adapter, search the messages backwards for the last one of the user.
Over a conversation they agree exactly when these two messages say the same.
-/

namespace Xsr.Extraction

open Kernel Lib Json Signals Policy

/-! ## The references -/

/-- The values `reversed(value)` yields; `none` when it raises. -/
def reversedValues : PyVal → Option (List PyVal)
  | .list values => some values.reverse
  | .str s => some (s.toList.reverse.map fun c => .str (String.singleton c))
  | .dict entries => some (entries.reverse.map fun e => .str e.1)
  | _ => none

/-- `message.get("role") == "user" and isinstance(message.get("content"), str)`,
with the content. -/
def userContent (message : Dict) : Option String :=
  match message.lookup "role", message.lookup "content" with
  | some (.str role), some (.str content) => if role = "user" then some content else none
  | _, _ => none

/-- The loop of `content_from_request`: the content it returns, if any;
`none` when `message.get` raises. -/
def firstUserContent : List PyVal → Option (Option String)
  | [] => some none
  | message :: rest =>
      match message.asDict with
      | none => none
      | some entries =>
          match userContent entries with
          | some content => some (some content)
          | none => firstUserContent rest

/-- `content_from_request` -/
def contentFromRequest (body : Dict) : Option String :=
  match reversedValues (body.getD "messages" (.list [])) with
  | none => none
  | some messages =>
      match firstUserContent messages with
      | none => none
      | some (some content) => some content
      | some none =>
          match body.lookup "content" with
          | some (.str value) => some value
          | _ => some ""

/-- The loop of `query_text`, which passes over what is not a dictionary. -/
def firstUserText : List PyVal → Option String
  | [] => none
  | message :: rest =>
      match message.asDict.bind userContent with
      | some content => some content
      | none => firstUserText rest

/-- `query_text`; `none` is its `ValueError`. -/
def queryText (queryInput : Dict) : Option String :=
  match queryInput.lookup "query" with
  | some (.str query) => some query
  | _ =>
      match queryInput.lookup "prompt" with
      | some (.str prompt) => some prompt
      | _ =>
          match queryInput.lookup "messages" with
          | some (.list messages) => firstUserText messages.reverse
          | _ => none

/-! ## Conversations -/

/-- The body of a conversation, as a dictionary. -/
def conversation (model : String) (messages : List (String × String)) : Dict :=
  [("model", .str model), ("messages", .list (messages.map message))]

/-- The last message of the user. -/
def lastUserMessage (messages : List (String × String)) : Option (String × String) :=
  messages.reverse.find? (·.1 = "user")

theorem userContent_message (m : String × String) :
    (message m).asDict = some [("role", .str m.1), ("content", .str m.2)] ∧
      userContent [("role", .str m.1), ("content", .str m.2)] =
        if m.1 = "user" then some m.2 else none :=
  ⟨rfl, rfl⟩

theorem firstUserContent_messages (messages : List (String × String)) :
    firstUserContent (messages.map message) =
      some ((messages.find? (·.1 = "user")).map Prod.snd) := by
  induction messages with
  | nil => rfl
  | cons m ms ih =>
      obtain ⟨hdict, huser⟩ := userContent_message m
      rw [List.map_cons, firstUserContent, hdict]
      simp only [huser]
      by_cases hm : m.1 = "user"
      · simp [hm]
      · simp [hm, ih]

theorem firstUserText_messages (messages : List (String × String)) :
    firstUserText (messages.map message) = (messages.find? (·.1 = "user")).map Prod.snd := by
  induction messages with
  | nil => rfl
  | cons m ms ih =>
      obtain ⟨hdict, huser⟩ := userContent_message m
      rw [List.map_cons, firstUserText, hdict, Option.bind_some, huser]
      by_cases hm : m.1 = "user"
      · simp [hm]
      · simp [hm, ih]

/-- **Both references** return the last message of the user. -/
theorem references_eq (model : String) {messages : List (String × String)}
    {last : String × String} (h : lastUserMessage messages = some last) :
    contentFromRequest (conversation model messages) = some last.2 ∧
      queryText (conversation model messages) = some last.2 := by
  rw [lastUserMessage] at h
  constructor
  · have hlist : Dict.getD (conversation model messages) "messages" (.list []) =
        .list (messages.map message) := rfl
    rw [contentFromRequest, hlist, reversedValues, ← List.map_reverse]
    simp only [firstUserContent_messages, h, Option.map_some]
  · have hlist : (conversation model messages).lookup "messages" =
        some (.list (messages.map message)) := rfl
    have hquery : (conversation model messages).lookup "query" = none := rfl
    have hprompt : (conversation model messages).lookup "prompt" = none := rfl
    rw [queryText, hquery, hprompt, hlist]
    simp only [← List.map_reverse, firstUserText_messages, h, Option.map_some]

/-! ## The kernel and the references -/

theorem encodeUtf8_inj {cs ds : List Char} (h : encodeUtf8 cs = encodeUtf8 ds) : cs = ds := by
  have hdecode : ∀ cs, (utf8Points ⟨0, 0, 0⟩ (encodeUtf8 cs)).2 = cs.map Char.toNat := fun cs =>
    (utf8Points_text rfl cs).2
  have hmap : cs.map Char.toNat = ds.map Char.toNat := by rw [← hdecode cs, h, hdecode ds]
  exact List.map_injective_iff.mpr (fun _ _ => Char.toNat_inj.mp) hmap

/-- The kernel scores the message both references return. -/
structure ClassifiesSame (style : Style) (model : String) (messages : List (String × String)) :
    Prop where
  student : ∃ text, contentFromRequest (conversation model messages) = some text ∧
    scoredBytes (encodeUtf8 (style.dumps (.dict (conversation model messages)))) =
      encodeUtf8 text.toList
  adapter : queryText (conversation model messages) =
    contentFromRequest (conversation model messages)

theorem scored_conversation (style : Style) (model : String) (m : String × String)
    (ms : List (String × String)) :
    scoredBytes (encodeUtf8 (style.dumps (.dict (conversation model (m :: ms))))) =
      encodeUtf8 m.2.toList :=
  (scoredBytes_eq _).trans (scored_requestBody style model m ms [])

/-- **Which message is classified**: the kernel and the references agree on
a conversation of the user exactly when its first message says what the last
one of the user says. -/
theorem classifies_same_iff (style : Style) (model : String) (m : String × String)
    (ms : List (String × String)) (huser : ∃ x ∈ m :: ms, x.1 = "user") :
    ClassifiesSame style model (m :: ms) ↔
      (lastUserMessage (m :: ms)).map Prod.snd = some m.2 := by
  have hfound : (lastUserMessage (m :: ms)).isSome := by
    obtain ⟨x, hx, hrole⟩ := huser
    rw [lastUserMessage, List.find?_isSome]
    exact ⟨x, List.mem_reverse.mpr hx, by simpa using hrole⟩
  obtain ⟨last, hlast⟩ := Option.isSome_iff_exists.mp hfound
  obtain ⟨hstudent, hadapter⟩ := references_eq model hlast
  rw [hlast, Option.map_some, Option.some.injEq]
  constructor
  · rintro ⟨⟨text, htext, hscored⟩, -⟩
    obtain rfl : last.2 = text := Option.some.inj (hstudent.symm.trans htext)
    rw [scored_conversation] at hscored
    exact String.toList_inj.mp (encodeUtf8_inj hscored.symm)
  · intro hsame
    exact ⟨⟨last.2, hstudent, by rw [scored_conversation, hsame]⟩, hadapter.trans hstudent.symm⟩

/-- A question that is asked again is the one scored; behind a system message
it is not. -/
theorem classifies_same_again :
    ClassifiesSame ⟨true, false⟩ "MoM"
        [("user", "calculate"), ("assistant", "reply"), ("user", "calculate")] ∧
      ¬ ClassifiesSame ⟨true, false⟩ "MoM" [("system", "be brief"), ("user", "calculate")] := by
  have hagain := classifies_same_iff ⟨true, false⟩ "MoM" ("user", "calculate")
    [("assistant", "reply"), ("user", "calculate")] ⟨("user", "calculate"), by simp, rfl⟩
  have hbehind := classifies_same_iff ⟨true, false⟩ "MoM" ("system", "be brief")
    [("user", "calculate")] ⟨("user", "calculate"), by simp, rfl⟩
  exact ⟨hagain.mpr (by decide), fun h => absurd (hbehind.mp h) (by decide)⟩

/-- **A second question**: the kernel classifies the first. -/
theorem classifies_first :
    ¬ ClassifiesSame ⟨true, false⟩ "MoM"
      [("user", "old"), ("assistant", "reply"), ("user", "calculate derivative")] := by
  rintro ⟨⟨text, htext, hscored⟩, -⟩
  obtain rfl : "calculate derivative" = text := Option.some.inj htext
  rw [scored_conversation] at hscored
  exact absurd (encodeUtf8_inj hscored) (by decide)

end Xsr.Extraction
