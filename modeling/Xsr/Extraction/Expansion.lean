import Xsr.Extraction.Scanner

/-!
# Expansion — decoding a string does not make it longer

No escape sequence stands for more bytes than it is written with: a
`\uXXXX` escape scores at most five bytes, one of them for a high surrogate
that was pending. `owed` counts the bytes of an escape that have been read
and not yet answered for.
-/

namespace Xsr.Extraction

open Kernel Lib

/-- The bytes of an unfinished escape sequence. -/
def owed (flow : ContentScan) : Nat :=
  (if flow.escaped then 1 else 0) +
    if flow.unicodeRemaining = 0 then 0 else 6 - flow.unicodeRemaining

theorem length_scoreCodepoint (value : Nat) : (scoreCodepoint value).length ≤ 4 := by
  unfold scoreCodepoint
  split_ifs <;> simp

/-- What a finished `\uXXXX` escape scores. -/
theorem unicodeEscape_bound (flow : ContentScan) (value : Nat) :
    (unicodeEscape flow value).2.length ≤ 5 ∧
      (unicodeEscape flow value).1.escaped = flow.escaped ∧
      (unicodeEscape flow value).1.unicodeRemaining = flow.unicodeRemaining := by
  have hflush : (if flow.unicodeHighSurrogate ≠ 0 then [blank] else []).length ≤ 1 := by
    split_ifs <;> decide
  unfold unicodeEscape
  by_cases hhigh : 0xd800 ≤ value ∧ value ≤ 0xdbff
  · rw [if_pos hhigh]
    refine ⟨?_, rfl, rfl⟩
    dsimp only
    omega
  rw [if_neg hhigh]
  by_cases hlow : 0xdc00 ≤ value ∧ value ≤ 0xdfff ∧ flow.unicodeHighSurrogate ≠ 0
  · rw [if_pos hlow]
    refine ⟨?_, rfl, rfl⟩
    dsimp only
    have := length_scoreCodepoint (u32 (0x10000
      + (subU32 flow.unicodeHighSurrogate 0xd800 <<< 10) + (value - 0xdc00)))
    omega
  · rw [if_neg hlow]
    refine ⟨?_, rfl, rfl⟩
    have hrest : (if 0xdc00 ≤ value ∧ value ≤ 0xdfff then [blank]
        else scoreCodepoint value).length ≤ 4 := by
      split_ifs
      · decide
      · exact length_scoreCodepoint value
    rw [List.length_append]
    omega

/-- One byte of a `\uXXXX` escape. -/
theorem unicodeByte_owed {flow : ContentScan} (hrest : flow.unicodeRemaining ≠ 0)
    (hle : flow.unicodeRemaining ≤ 4) (c : UInt8) :
    (unicodeByte flow c).scored.length + owed (unicodeByte flow c).flow ≤ owed flow + 1 ∧
      (unicodeByte flow c).flow.unicodeRemaining ≤ 4 := by
  have howed : owed flow = (if flow.escaped then 1 else 0) + (6 - flow.unicodeRemaining) := by
    rw [owed, if_neg hrest]
  unfold unicodeByte
  cases contentHexValue c with
  | none =>
      refine ⟨?_, Nat.zero_le _⟩
      show 1 + ((if flow.escaped then 1 else 0) + 0) ≤ owed flow + 1
      omega
  | some hex =>
      dsimp only
      by_cases hlast : flow.unicodeRemaining - 1 ≠ 0
      · rw [if_pos hlast]
        refine ⟨?_, by dsimp only; omega⟩
        show 0 + ((if flow.escaped then 1 else 0) + if flow.unicodeRemaining - 1 = 0 then 0
          else 6 - (flow.unicodeRemaining - 1)) ≤ owed flow + 1
        rw [if_neg hlast]
        omega
      · rw [if_neg hlast]
        obtain ⟨hlen, hescaped, hremaining⟩ := unicodeEscape_bound
          { flow with
            unicodeValue := u16 ((flow.unicodeValue <<< 4) ||| hex)
            unicodeRemaining := flow.unicodeRemaining - 1 }
          (u16 ((flow.unicodeValue <<< 4) ||| hex))
        dsimp only at hescaped hremaining ⊢
        rw [owed, hescaped, hremaining, if_pos (not_not.mp hlast)]
        omega

/-- **One byte of the body.** -/
theorem contentByte_owed {flow : ContentScan} (hle : flow.unicodeRemaining ≤ 4) (c : UInt8) :
    (contentByte flow c).scored.length + owed (contentByte flow c).flow ≤ owed flow + 1 ∧
      (contentByte flow c).flow.unicodeRemaining ≤ 4 := by
  have hsame : ∀ flow' : ContentScan, flow'.escaped = flow.escaped →
      flow'.unicodeRemaining = flow.unicodeRemaining → owed flow' = owed flow := by
    intro flow' hescaped hremaining
    rw [owed, owed, hescaped, hremaining]
  unfold contentByte
  by_cases hin : flow.inContent = true
  · rw [if_pos hin]
    by_cases hrest : flow.unicodeRemaining ≠ 0
    · rw [if_pos hrest]
      exact unicodeByte_owed hrest hle c
    rw [if_neg hrest]
    have hzero : flow.unicodeRemaining = 0 := not_not.mp hrest
    have howed : owed flow = if flow.escaped then 1 else 0 := by
      rw [owed, if_pos hzero, Nat.add_zero]
    by_cases hescaped : flow.escaped = true
    · rw [if_pos hescaped] at howed ⊢
      by_cases hu : c = 117
      · rw [if_pos hu, howed]
        exact ⟨by simp [owed], Nat.le_refl _⟩
      · rw [if_neg hu, howed]
        exact ⟨by simp [owed, hzero], hle⟩
    · rw [if_neg hescaped] at howed ⊢
      split_ifs
      · exact ⟨by simp [owed, hzero, hescaped], hle⟩
      · exact ⟨by simp, hle⟩
      · exact ⟨(Nat.add_comm _ _).le, hle⟩
  · rw [if_neg hin]
    split_ifs <;>
      exact ⟨(Nat.zero_add _).le.trans ((hsame _ rfl rfl).le.trans (Nat.le_succ _)), hle⟩

/-- **No decoding is longer than its text**, up to any byte of it. -/
theorem length_contentRun_le (body : List UInt8) (flow : ContentScan)
    (hle : flow.unicodeRemaining ≤ 4) :
    (contentRun flow body).scored.length ≤ owed flow + body.length := by
  induction body generalizing flow with
  | nil => exact Nat.zero_le _
  | cons c cs ih =>
      obtain ⟨hbyte, hnext⟩ := contentByte_owed hle c
      cases hstop : (contentByte flow c).stop with
      | true =>
          rw [contentRun_stop hstop, List.length_cons]
          omega
      | false =>
          have hrest := ih _ hnext
          rw [contentRun_go hstop, List.length_cons, List.length_append]
          omega

/-- **The prompt of a body** is not longer than the body. -/
theorem length_scoredBytes_le (body : List UInt8) :
    (Signals.scoredBytes body).length ≤ body.length := by
  have h := length_contentRun_le body .initial (Nat.zero_le _)
  rw [scoredBytes_eq]
  exact h.trans (Nat.zero_add _).le

/-- The scanner behind the opening quote. -/
def contentOpened : ContentScan := { ContentScan.initial with inContent := true }

/-- The text ends with the opening quote of the content string. -/
def OpensContent (text : List UInt8) : Prop := contentRun .initial text = ⟨contentOpened, [], false⟩

/-- **Inside the content string**, what is scored is not longer than what has
been read of the string. -/
theorem OpensContent.length_le {text : List UInt8} (h : OpensContent text)
    (inside : List UInt8) :
    (Signals.scoredBytes (text ++ inside)).length ≤ inside.length := by
  have hinside := length_contentRun_le inside contentOpened (Nat.zero_le _)
  rw [scoredBytes_eq, contentRun_append h]
  exact hinside.trans (Nat.zero_add _).le

end Xsr.Extraction
