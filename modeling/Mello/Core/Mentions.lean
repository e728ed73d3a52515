import Mello.Library.Texts

/-!
Mentions in chat messages: a picked `@name` travels as a `<@user_id>` token and is shown as `@name` again. Positions are
of the bytes of the text.
-/

namespace Mello.Core.Mentions
open Mello.Library Texts

/-- Unicode white space. -/
def isWhitespace (c : Char) : Bool :=
  let n := c.toNat
  (0x9 ≤ n ∧ n ≤ 0xD) ∨ n = 0x20 ∨ n = 0x85 ∨ n = 0xA0 ∨ n = 0x1680 ∨ (0x2000 ≤ n ∧ n ≤ 0x200A) ∨ n = 0x2028 ∨ n = 0x2029 ∨
    n = 0x202F ∨ n = 0x205F ∨ n = 0x3000

structure MentionRef where
  userId : List Char
  name : List Char
  deriving DecidableEq, Repr

/-- Name shown for a mention whose user cannot be resolved. -/
def UNKNOWN_MENTION_NAME : List Char := ['u', 'n', 'k', 'n', 'o', 'w', 'n']

/-- A range of byte positions. -/
structure Range where
  start : ℕ
  stop : ℕ
  deriving DecidableEq, Repr

def isMentionId (id : List Char) : Bool := id ≠ [] ∧ ¬ id.any fun c => isWhitespace c || c = '<' || c = '@'

/-- The loop of `mention_tokens` on the text from `start` on. -/
def mentionTokensFrom (rest : List Char) (start : ℕ) : List (Range × List Char) :=
  match _opened : splitOnce ['<', '@'] rest with
  | none => []
  | some (front, idRest) =>
    let idStart := start + size front + 2
    match closed : splitOnce ['>'] idRest with
    | none => []
    | some (id, back) =>
      let idEnd := idStart + size id
      if isMentionId id then (⟨start + size front, idEnd + 1⟩, id) :: mentionTokensFrom back (idEnd + 1)
      else mentionTokensFrom idRest idStart
termination_by rest.length
decreasing_by
  · exact (length_of_splitOnce (List.cons_ne_nil _ _) closed).trans (length_of_splitOnce (List.cons_ne_nil _ _) _opened)
  · exact length_of_splitOnce (List.cons_ne_nil _ _) _opened

/-- Byte range and user id of each `<@user_id>` token in `body`, in order. -/
def mentionTokens (body : List Char) : List (Range × List Char) := mentionTokensFrom body 0

/-- Extract user IDs from `<@user_id>` tokens in a message body. -/
def extractMentions (body : List Char) : List (List Char) := (mentionTokens body).map Prod.snd

/-- The loop of `resolve_mentions`, with what is out so far. A slice that is not between characters is a panic. -/
def resolveTokens (body : List Char) (memberNames : List Char → Option (List Char)) :
    List (Range × List Char) → List Char → List MentionRef → ℕ → Option (List Char × List MentionRef)
  | [], out, mentions, cursor => (slice body cursor (size body)).map fun rest => (out ++ rest, mentions)
  | (range, userId) :: tokens, out, mentions, cursor =>
    let name := ((memberNames userId).filter (· ≠ [])).getD UNKNOWN_MENTION_NAME
    (slice body cursor range.start).bind fun front =>
      let mentions := if mentions.any (·.userId = userId) then mentions else mentions ++ [⟨userId, name⟩]
      resolveTokens body memberNames tokens (out ++ front ++ '@' :: name) mentions range.stop

/-- Replace each `<@user_id>` token with `@name`. -/
def resolveMentions (body : List Char) (memberNames : List Char → Option (List Char)) : Option (List Char × List MentionRef) :=
  resolveTokens body memberNames (mentionTokens body) [] [] 0

section Names

variable (isAlphanumeric : Char → Bool)

def continuesName (c : Char) : Bool := isAlphanumeric c || c = '_'

/-- The text starts with the name, and the name ends there. -/
def startsWithName (name after : List Char) : Bool :=
  name.isPrefixOf after && !(after.drop name.length).head?.any (continuesName isAlphanumeric)

/-- The inner loop of `mention_spans` on the text from `from` on, for one token. -/
def spansFrom (name : List Char) (rest : List Char) (from_ : ℕ) (spans : List Range) : List Range :=
  match found : splitOnce ('@' :: name) rest with
  | none => spans
  | some (front, back) =>
    let start := from_ + size front
    let stop := start + size ('@' :: name)
    let endsWord := !back.head?.any (continuesName isAlphanumeric)
    spansFrom name back stop
      (if endsWord ∧ ¬ spans.any (fun r => r.start < stop ∧ start < r.stop) then spans ++ [⟨start, stop⟩] else spans)
termination_by rest.length
decreasing_by exact length_of_splitOnce (List.cons_ne_nil _ _) found

/-- Longer tokens first, then in the order of their text. -/
def tokenLe (a b : List Char) : Bool := size b < size a ∨ size a = size b ∧ ¬ b < a

/-- Byte ranges of each mention's `@name` in a display body, in text order and without overlap. -/
def mentionSpans (displayBody : List Char) (mentions : List MentionRef) : List Range :=
  let names := (mentions.filter (·.name ≠ [])).map (·.name)
  let names := (names.mergeSort tokenLe).destutter (· ≠ ·)
  let spans := names.foldl (fun spans name => spansFrom isAlphanumeric name displayBody 0 spans) []
  spans.mergeSort fun r s => r.start ≤ s.start

/-- The loop of `encode_mentions` on the text that is left. -/
def encodeFrom (picks : List MentionRef) (prev : Option Char) (rest : List Char) : List Char :=
  match rest with
  | [] => []
  | c :: after =>
    if c = '@' ∧ ¬ prev.any (continuesName isAlphanumeric) then
      match picks.find? fun p => startsWithName isAlphanumeric p.name after with
      | some p => '<' :: '@' :: p.userId ++ '>' :: encodeFrom picks p.name.getLast? (after.drop p.name.length)
      | none => c :: encodeFrom picks (some c) after
    else c :: encodeFrom picks (some c) after
termination_by rest.length
decreasing_by
  · rw [List.length_drop, List.length_cons]
    omega
  · exact Nat.lt_succ_self _
  · exact Nat.lt_succ_self _

/-- Replace each picked `@name` in composer text with its `<@user_id>` token. -/
def encodeMentions (text : List Char) (picks : List MentionRef) : List Char :=
  let picks := picks.filter fun p => p.name ≠ [] ∧ isMentionId p.userId
  -- longest first
  let picks := picks.mergeSort fun p q => size q.name ≤ size p.name
  encodeFrom isAlphanumeric picks none text

end Names

end Mello.Core.Mentions
