import Mello.Core.Mentions

/-!
The way of a mention: the tokens of a body are its substrings of their form, encoded names come back as they were, and
the ranges of shown names are apart.
-/

namespace Mello.Core.MentionTrip
open Mello.Library Texts Mentions

/-! ## Tokens -/

/-- The id of the token that a text begins with. -/
def tokenAt : List Char → Option (List Char)
  | '<' :: '@' :: rest => (splitOnce ['>'] rest).bind fun (id, _) => if isMentionId id then some id else none
  | _ => none

theorem isMentionId_iff (id : List Char) :
    isMentionId id = true ↔ id ≠ [] ∧ ∀ c ∈ id, isWhitespace c = false ∧ c ≠ '<' ∧ c ≠ '@' := by
  unfold isMentionId
  rw [decide_eq_true_eq, Bool.not_eq_true, List.any_eq_false]
  refine and_congr_right fun _ => forall₂_congr fun c _ => ?_
  rw [Bool.or_eq_true, Bool.or_eq_true, decide_eq_true_eq, decide_eq_true_eq, not_or, not_or, Bool.not_eq_true, and_assoc]

theorem tokenAt_eq_some_iff (text id : List Char) :
    tokenAt text = some id ↔ (id ≠ [] ∧ ∀ c ∈ id, isWhitespace c = false ∧ c ≠ '<' ∧ c ≠ '@' ∧ c ≠ '>') ∧
      ∃ back, text = '<' :: '@' :: id ++ '>' :: back := by
  constructor
  · intro token
    unfold tokenAt at token
    split at token
    next rest =>
      obtain ⟨⟨id', back⟩, closed, chosen⟩ := Option.bind_eq_some_iff.mp token
      obtain ⟨rfl, clean⟩ := splitOnce_singleton_iff.mp closed
      dsimp only at chosen
      split_ifs at chosen with good
      obtain rfl := Option.some.inj chosen
      obtain ⟨some', all⟩ := (isMentionId_iff id').mp good
      refine ⟨⟨some', fun c member => ?_⟩, back, rfl⟩
      obtain ⟨space, open_, sign⟩ := all c member
      exact ⟨space, open_, sign, fun close => clean (close ▸ member)⟩
    next => cases token
  · rintro ⟨⟨some', all⟩, back, rfl⟩
    have clean : '>' ∉ id := fun member => (all '>' member).2.2.2 rfl
    have good : isMentionId id = true :=
      (isMentionId_iff id).mpr ⟨some', fun c member => ⟨(all c member).1, (all c member).2.1, (all c member).2.2.1⟩⟩
    change (splitOnce ['>'] (id ++ '>' :: back)).bind _ = some id
    rw [splitOnce_singleton_iff.mpr ⟨rfl, clean⟩]
    exact if_pos good

theorem mentionTokensFrom_eq (rest : List Char) (start : ℕ) :
    mentionTokensFrom rest start =
      match splitOnce ['<', '@'] rest with
      | none => []
      | some (front, idRest) =>
        match splitOnce ['>'] idRest with
        | none => []
        | some (id, back) =>
          if isMentionId id then (⟨start + size front, start + size front + 2 + size id + 1⟩, id) ::
            mentionTokensFrom back (start + size front + 2 + size id + 1)
          else mentionTokensFrom idRest (start + size front + 2) := by
  rw [mentionTokensFrom]
  split
  next none' => rw [none']
  next front idRest opened =>
    rw [opened]
    dsimp only
    split
    next none' => rw [none']
    next id back closed => rw [closed]

/-- Where no token can close there is none. -/
theorem mentionTokensFrom_eq_nil {rest : List Char} (open_ : '>' ∉ rest) (start : ℕ) : mentionTokensFrom rest start = [] := by
  rw [mentionTokensFrom_eq]
  cases opened : splitOnce ['<', '@'] rest with
  | none => rfl
  | some both =>
    obtain ⟨front, idRest⟩ := both
    have absent : '>' ∉ idRest := by
      intro member
      refine open_ ?_
      rw [eq_of_splitOnce opened]
      exact List.mem_append_right _ (List.mem_append_right _ member)
    dsimp only
    rw [splitOnce_eq_none List.mem_cons_self absent]

/-- Where a text does not begin with an opening, its tokens are those of the text after its first character. -/
theorem mentionTokensFrom_cons {c : Char} {rest : List Char} (plain : ¬ ['<', '@'] <+: c :: rest) (start : ℕ) :
    mentionTokensFrom (c :: rest) start = mentionTokensFrom rest (start + c.utf8Size) := by
  rw [mentionTokensFrom_eq, mentionTokensFrom_eq rest, splitOnce_cons plain]
  cases opened : splitOnce ['<', '@'] rest with
  | none => rfl
  | some both =>
    obtain ⟨front, idRest⟩ := both
    dsimp only [Option.map_some]
    rw [size_cons, ← Nat.add_assoc]

/-- Where a text does not begin with a token. -/
theorem mentionTokensFrom_of_none {c : Char} {rest : List Char} (none' : tokenAt (c :: rest) = none) (start : ℕ) :
    mentionTokensFrom (c :: rest) start = mentionTokensFrom rest (start + c.utf8Size) := by
  by_cases opens : ['<', '@'] <+: c :: rest
  · obtain ⟨idRest, same⟩ := opens
    obtain ⟨rfl, rfl⟩ := List.cons.inj same
    have second : ¬ ['<', '@'] <+: '@' :: idRest := by
      rintro ⟨tail, same⟩
      exact absurd (List.cons.inj same).1 (by decide)
    rw [mentionTokensFrom_eq, splitOnce_at_start ⟨idRest, rfl⟩]
    change _ = mentionTokensFrom ('@' :: idRest) _
    rw [mentionTokensFrom_cons second]
    change (match splitOnce ['>'] idRest with
      | none => []
      | some (id, back) => _) = _
    cases closed : splitOnce ['>'] idRest with
    | none =>
      exact (mentionTokensFrom_eq_nil (not_mem_of_splitOnce closed) _).symm
    | some both =>
      obtain ⟨id, back⟩ := both
      have bad : ¬ isMentionId id = true := by
        intro good
        have token : tokenAt ('<' :: '@' :: idRest) = some id := by
          change (splitOnce ['>'] idRest).bind _ = some id
          rw [closed]
          exact if_pos good
        exact absurd (token.symm.trans none') nofun
      exact if_neg bad
  · exact mentionTokensFrom_cons opens start

/-- Where a text begins with a token. -/
theorem mentionTokensFrom_token {id : List Char} (back : List Char) (good : isMentionId id = true) (clean : '>' ∉ id) (start : ℕ) :
    mentionTokensFrom ('<' :: '@' :: id ++ '>' :: back) start =
      (⟨start, start + 2 + size id + 1⟩, id) :: mentionTokensFrom back (start + 2 + size id + 1) := by
  have opened : splitOnce ['<', '@'] ('<' :: '@' :: id ++ '>' :: back) = some ([], id ++ '>' :: back) :=
    splitOnce_at_start ⟨id ++ '>' :: back, rfl⟩
  rw [mentionTokensFrom_eq, opened]
  dsimp only
  rw [splitOnce_singleton_iff.mpr ⟨rfl, clean⟩]
  exact if_pos good

/-- No token begins within a text without an opening bracket. -/
theorem filterMap_tails_append {pre : List Char} (plain : '<' ∉ pre) (back : List Char) :
    (pre ++ back).tails.filterMap tokenAt = back.tails.filterMap tokenAt := by
  induction pre with
  | nil => rfl
  | cons c rest ih =>
    have here : '<' ≠ c := List.ne_of_not_mem_cons plain
    have later : '<' ∉ rest := List.not_mem_of_not_mem_cons plain
    have none' : tokenAt (c :: (rest ++ back)) = none := by
      unfold tokenAt
      split
      next same => exact absurd (List.cons.inj same).1.symm here
      next => rfl
    rw [List.cons_append, List.tails_cons, List.filterMap_cons_none none', ih later]

/-- The ids are those of the tokens that the text's ends begin with. -/
theorem map_mentionTokensFrom (text : List Char) (start : ℕ) :
    (mentionTokensFrom text start).map Prod.snd = text.tails.filterMap tokenAt := by
  induction length : text.length using Nat.strong_induction_on generalizing text start with
  | _ n ih =>
    cases text with
    | nil =>
      rw [mentionTokensFrom_eq_nil List.not_mem_nil]
      rfl
    | cons c rest =>
      rw [List.length_cons] at length
      cases token : tokenAt (c :: rest) with
      | none => rw [mentionTokensFrom_of_none token, List.tails_cons, List.filterMap_cons_none token, ih rest.length (by omega) rest _ rfl]
      | some id =>
        obtain ⟨⟨some', all⟩, back, same⟩ := (tokenAt_eq_some_iff _ id).mp token
        have good : isMentionId id = true :=
          (isMentionId_iff id).mpr ⟨some', fun c member => ⟨(all c member).1, (all c member).2.1, (all c member).2.2.1⟩⟩
        have clean : '>' ∉ id := fun member => (all '>' member).2.2.2 rfl
        obtain ⟨rfl, tail⟩ := List.cons.inj same
        have split : rest = '@' :: id ++ ['>'] ++ back := by
          rw [tail, List.append_assoc]
          rfl
        have shorter : back.length < n := by
          rw [← length, split, List.length_append]
          omega
        have plain : '<' ∉ '@' :: id ++ ['>'] := by
          intro member
          rcases List.mem_append.mp member with inside | close
          · rcases List.mem_cons.mp inside with sign | inside
            · exact absurd sign (by decide)
            · exact (all '<' inside).2.1 rfl
          · exact absurd (List.mem_singleton.mp close) (by decide)
        rw [List.tails_cons, List.filterMap_cons_some token, same, mentionTokensFrom_token back good clean, List.map_cons,
          ih back.length shorter back _ rfl, split, filterMap_tails_append plain]

/-! ## Encoding -/

/-- A piece of composer text: one character, or a replaced name. -/
inductive Piece where
  | char (c : Char)
  | name (pick : MentionRef)

namespace Piece

def text : Piece → List Char
  | .char c => [c]
  | .name pick => '@' :: pick.name

def encoded : Piece → List Char
  | .char c => [c]
  | .name pick => '<' :: '@' :: pick.userId ++ ['>']

def id? : Piece → Option (List Char)
  | .char _ => none
  | .name pick => some pick.userId

end Piece

def textOf (pieces : List Piece) : List Char := pieces.flatMap Piece.text

def encodedOf (pieces : List Piece) : List Char := pieces.flatMap Piece.encoded

theorem encodedOf_name (p : MentionRef) (rest : List Piece) :
    encodedOf (.name p :: rest) = '<' :: '@' :: p.userId ++ '>' :: encodedOf rest := by
  change '<' :: '@' :: p.userId ++ ['>'] ++ encodedOf rest = _
  rw [List.append_assoc]
  rfl

theorem getLast?_append_cons {α : Type*} {front name : List α} {c : α} (some' : name ≠ []) :
    (front ++ c :: name).getLast? = name.getLast? := by
  obtain ⟨first, last, rfl⟩ := (List.eq_nil_or_concat name).resolve_left some'
  rw [List.concat_eq_append, List.getLast?_concat, ← List.cons_append, ← List.append_assoc, List.getLast?_concat]

section Names

variable {isAlphanumeric : Char → Bool}

/-- The text ends within a name. -/
def EndsInName (isAlphanumeric : Char → Bool) (done : List Char) : Prop := done.getLast?.any (continuesName isAlphanumeric) = true

/-- A name, that is not empty, follows and ends at a word boundary. -/
def Follows (isAlphanumeric : Char → Bool) (pick : MentionRef) (after : List Char) : Prop :=
  pick.name ≠ [] ∧ ∃ back, after = pick.name ++ back ∧ back.head?.any (continuesName isAlphanumeric) = false

/-- The names of the pieces are replaced where they are to be: at each sign that is not within a word, is not in a
replaced name, and that a pick follows; by a pick that no other one that follows is longer than. `done` is the text
before the pieces. -/
def Replaced (isAlphanumeric : Char → Bool) (follows : MentionRef → List Char → Prop) (picks : List MentionRef) :
    List Char → List Piece → Prop
  | _, [] => True
  | done, .char c :: rest =>
    (c = '@' → EndsInName isAlphanumeric done ∨ ∀ q ∈ picks, ¬ follows q (textOf rest)) ∧
      Replaced isAlphanumeric follows picks (done ++ [c]) rest
  | done, .name p :: rest =>
    (p ∈ picks ∧ ¬ EndsInName isAlphanumeric done ∧ follows p (p.name ++ textOf rest) ∧
      ∀ q ∈ picks, follows q (p.name ++ textOf rest) → size q.name ≤ size p.name) ∧
      Replaced isAlphanumeric follows picks (done ++ '@' :: p.name) rest

theorem startsWithName_iff (name after : List Char) :
    startsWithName isAlphanumeric name after = true ↔
      ∃ back, after = name ++ back ∧ back.head?.any (continuesName isAlphanumeric) = false := by
  unfold startsWithName
  rw [Bool.and_eq_true, List.isPrefixOf_iff_prefix, Bool.not_eq_true']
  constructor
  · rintro ⟨⟨back, rfl⟩, ends⟩
    rw [List.drop_left] at ends
    exact ⟨back, rfl, ends⟩
  · rintro ⟨back, rfl, ends⟩
    refine ⟨⟨back, rfl⟩, ?_⟩
    rw [List.drop_left]
    exact ends

section Encode

variable {picks : List MentionRef} {done after : List Char} {c : Char} {p : MentionRef} {prev : Option Char}

theorem encodeFrom_plain (plain : ¬ (c = '@' ∧ ¬ prev.any (continuesName isAlphanumeric) = true)) :
    encodeFrom isAlphanumeric picks prev (c :: after) = c :: encodeFrom isAlphanumeric picks (some c) after := by
  rw [encodeFrom, if_neg plain]

theorem encodeFrom_unpicked (sign : c = '@' ∧ ¬ prev.any (continuesName isAlphanumeric) = true)
    (none' : picks.find? (fun p => startsWithName isAlphanumeric p.name after) = none) :
    encodeFrom isAlphanumeric picks prev (c :: after) = c :: encodeFrom isAlphanumeric picks (some c) after := by
  rw [encodeFrom, if_pos sign, none']

theorem encodeFrom_picked (sign : c = '@' ∧ ¬ prev.any (continuesName isAlphanumeric) = true)
    (picked : picks.find? (fun p => startsWithName isAlphanumeric p.name after) = some p) :
    encodeFrom isAlphanumeric picks prev (c :: after) =
      '<' :: '@' :: p.userId ++ '>' :: encodeFrom isAlphanumeric picks p.name.getLast? (after.drop p.name.length) := by
  rw [encodeFrom, if_pos sign, picked]

/-- Of picks with the longer names first, the first that follows is a longest one. -/
theorem longest_of_find? (sorted : picks.Pairwise fun p q => size q.name ≤ size p.name) {starts : MentionRef → Bool}
    (picked : picks.find? starts = some p) : p ∈ picks ∧ starts p = true ∧ ∀ q ∈ picks, starts q = true → size q.name ≤ size p.name := by
  obtain ⟨here, before, behind, rfl, none'⟩ := List.find?_eq_some_iff_append.mp picked
  refine ⟨List.mem_append_right _ List.mem_cons_self, here, fun q member follows => ?_⟩
  rcases List.mem_append.mp member with early | late
  · have absent := none' q early
    rw [follows] at absent
    exact absurd absent (by decide)
  · rcases List.mem_cons.mp late with rfl | later
    · exact le_rfl
    · exact (List.pairwise_cons.mp (List.pairwise_append.mp sorted).2.1).1 q later

/-- The pieces of a text are found, and the encoding is of them. -/
theorem exists_pieces (sorted : picks.Pairwise fun p q => size q.name ≤ size p.name) (named : ∀ p ∈ picks, p.name ≠ [])
    (done text : List Char) :
    ∃ pieces, textOf pieces = text ∧ encodeFrom isAlphanumeric picks done.getLast? text = encodedOf pieces ∧
      Replaced isAlphanumeric (Follows isAlphanumeric) picks done pieces := by
  induction length : text.length using Nat.strong_induction_on generalizing text done with
  | _ n ih =>
    cases text with
    | nil =>
      refine ⟨[], rfl, ?_, trivial⟩
      rw [encodeFrom]
      rfl
    | cons c after =>
      rw [List.length_cons] at length
      have single (encoded : encodeFrom isAlphanumeric picks done.getLast? (c :: after) =
            c :: encodeFrom isAlphanumeric picks (some c) after)
          (stays : c = '@' → EndsInName isAlphanumeric done ∨ ∀ q ∈ picks, ¬ Follows isAlphanumeric q after) :
          ∃ pieces, textOf pieces = c :: after ∧ encodeFrom isAlphanumeric picks done.getLast? (c :: after) = encodedOf pieces ∧
            Replaced isAlphanumeric (Follows isAlphanumeric) picks done pieces := by
        obtain ⟨pieces, text, encodes, replaced⟩ := ih after.length (by omega) (done ++ [c]) after rfl
        rw [List.getLast?_concat] at encodes
        refine ⟨.char c :: pieces, congrArg (c :: ·) text, ?_, ?_, replaced⟩
        · rw [encoded, encodes]
          rfl
        · rw [text]
          exact stays
      by_cases sign : c = '@' ∧ ¬ done.getLast?.any (continuesName isAlphanumeric) = true
      · cases picked : picks.find? fun p => startsWithName isAlphanumeric p.name after with
        | none =>
          refine single (encodeFrom_unpicked sign picked) fun _ => .inr fun q member follows => ?_
          exact List.find?_eq_none.mp picked q member ((startsWithName_iff q.name after).mpr follows.2)
        | some p =>
          obtain ⟨known, starts, longest⟩ := longest_of_find? sorted picked
          obtain ⟨back, rfl, ends⟩ := (startsWithName_iff p.name after).mp starts
          have some' := List.length_pos_iff.mpr (named p known)
          rw [List.length_append] at length
          obtain ⟨pieces, text, encodes, replaced⟩ := ih back.length (by omega) (done ++ '@' :: p.name) back rfl
          have last : (done ++ '@' :: p.name).getLast? = p.name.getLast? := getLast?_append_cons (named p known)
          refine ⟨.name p :: pieces, ?_, ?_, ⟨known, sign.2, ?_, ?_⟩, replaced⟩
          · rw [sign.1, ← text]
            rfl
          · rw [encodeFrom_picked sign picked, List.drop_left, ← last, encodes, encodedOf_name]
          · rw [text]
            exact ⟨named p known, back, rfl, ends⟩
          · intro q member follows
            rw [text] at follows
            exact longest q member ((startsWithName_iff q.name _).mpr follows.2)
      · refine single (encodeFrom_plain sign) fun here => .inl ?_
        by_contra outside
        exact sign ⟨here, outside⟩

/-- The picks that the encoder keeps follow where some pick with an id does. -/
theorem Replaced.mono {others : List MentionRef} (kept : picks ⊆ others)
    (all : ∀ q ∈ others, q.name ≠ [] → q ∈ picks) {pieces : List Piece} {done : List Char}
    (replaced : Replaced isAlphanumeric (Follows isAlphanumeric) picks done pieces) :
    Replaced isAlphanumeric (Follows isAlphanumeric) others done pieces := by
  induction pieces generalizing done with
  | nil => trivial
  | cons piece rest ih =>
    cases piece with
    | char c =>
      obtain ⟨here, later⟩ := replaced
      refine ⟨fun sign => (here sign).imp_right fun none' q member follows => ?_, ih later⟩
      exact none' q (all q member follows.1) follows
    | name p =>
      obtain ⟨⟨known, outside, follows, longest⟩, later⟩ := replaced
      refine ⟨⟨kept known, outside, follows, fun q member also => ?_⟩, ih later⟩
      exact longest q (all q member also.1) also

/-- Each replaced name is of a pick. -/
theorem Replaced.picked {follows : MentionRef → List Char → Prop} {pieces : List Piece}
    (replaced : Replaced isAlphanumeric follows picks done pieces) : ∀ p, .name p ∈ pieces → p ∈ picks ∧ ∃ after, follows p after := by
  induction pieces generalizing done with
  | nil => exact nofun
  | cons piece rest ih =>
    intro p member
    rcases List.mem_cons.mp member with rfl | later
    · exact ⟨replaced.1.1, _, replaced.1.2.2.1⟩
    · cases piece with
      | char c => exact ih replaced.2 p later
      | name q => exact ih replaced.2 p later

end Encode

end Names

/-! ## The tokens of an encoded text -/

section Encoded

variable {pieces : List Piece}

/-- The ids of the replaced names can be told in a token. -/
def Tokened (pieces : List Piece) : Prop := ∀ p, .name p ∈ pieces → isMentionId p.userId = true ∧ '>' ∉ p.userId

/-- The tokens of the encoded pieces from a position on. -/
def tokensFrom : List Piece → ℕ → List (Range × List Char)
  | [], _ => []
  | .char c :: rest, start => tokensFrom rest (start + c.utf8Size)
  | .name p :: rest, start => (⟨start, start + 2 + size p.userId + 1⟩, p.userId) :: tokensFrom rest (start + 2 + size p.userId + 1)

/-- A character of the text begins no token. -/
theorem tokenAt_char {c : Char} {rest : List Piece} (plain : ¬ ['<', '@'] <:+: textOf (.char c :: rest)) :
    tokenAt (c :: encodedOf rest) = none := by
  unfold tokenAt
  split
  next tail same =>
    obtain ⟨rfl, next⟩ := List.cons.inj same
    refine absurd ?_ plain
    cases rest with
    | nil => cases next
    | cons piece others =>
      cases piece with
      | char d =>
        obtain ⟨rfl, -⟩ := List.cons.inj next
        exact ⟨[], textOf others, rfl⟩
      | name p => exact absurd (List.cons.inj next).1 (by decide)
  next => rfl

theorem mentionTokensFrom_encodedOf (plain : ¬ ['<', '@'] <:+: textOf pieces) (tokened : Tokened pieces) (start : ℕ) :
    mentionTokensFrom (encodedOf pieces) start = tokensFrom pieces start := by
  induction pieces generalizing start with
  | nil => exact mentionTokensFrom_eq_nil List.not_mem_nil start
  | cons piece rest ih =>
    have later : Tokened rest := fun p member => tokened p (List.mem_cons_of_mem piece member)
    have plain' : ¬ ['<', '@'] <:+: textOf rest := fun inside => plain (inside.trans (List.suffix_append piece.text _).isInfix)
    cases piece with
    | char c =>
      change mentionTokensFrom (c :: encodedOf rest) start = _
      rw [mentionTokensFrom_of_none (tokenAt_char plain), ih plain' later]
      rfl
    | name p =>
      obtain ⟨good, clean⟩ := tokened p List.mem_cons_self
      rw [encodedOf_name, mentionTokensFrom_token _ good clean, ih plain' later]
      rfl

theorem map_tokensFrom (start : ℕ) : (tokensFrom pieces start).map Prod.snd = pieces.filterMap Piece.id? := by
  induction pieces generalizing start with
  | nil => rfl
  | cons piece rest ih =>
    cases piece with
    | char c => exact ih _
    | name p => exact congrArg (p.userId :: ·) (ih _)

/-! ## The way back -/

theorem size_token (id : List Char) : size ('<' :: '@' :: id ++ ['>']) = 2 + size id + 1 := by
  have open_ : '<'.utf8Size = 1 := by decide
  have sign : '@'.utf8Size = 1 := by decide
  have close : '>'.utf8Size = 1 := by decide
  rw [size_append, size_cons, size_cons, size_cons, size_nil, open_, sign, close]
  omega

/-- The rest of a body that ends in encoded pieces, after `front` and the characters `gap` that are not out yet. -/
theorem resolveTokens_encodedOf {names : List Char → Option (List Char)}
    (known : ∀ p, .name p ∈ pieces → p.name ≠ [] ∧ names p.userId = some p.name) (front gap out : List Char) (mentions : List MentionRef) :
    ∃ shown, resolveTokens (front ++ (gap ++ encodedOf pieces)) names (tokensFrom pieces (size front + size gap)) out mentions (size front) =
      some (out ++ gap ++ textOf pieces, shown) := by
  induction pieces generalizing front gap out mentions with
  | nil =>
    refine ⟨mentions, ?_⟩
    have whole : size (front ++ (gap ++ [])) = size front + size gap := by
      rw [size_append, List.append_nil]
    change (slice (front ++ (gap ++ [])) (size front) (size (front ++ (gap ++ [])))).map _ = _
    rw [whole, slice_append, Option.map_some]
    exact congrArg (fun text => some (text, mentions)) (List.append_nil _).symm
  | cons piece rest ih =>
    have later := fun p member => known p (List.mem_cons_of_mem piece member)
    cases piece with
    | char c =>
      obtain ⟨shown, same⟩ := ih later front (gap ++ [c]) out mentions
      have wide : size (gap ++ [c]) = size gap + c.utf8Size := by
        rw [size_append]
        rfl
      rw [wide, ← Nat.add_assoc, List.append_assoc, ← List.append_assoc out, List.append_assoc (out ++ gap)] at same
      exact ⟨shown, same⟩
    | name p =>
      obtain ⟨some', name⟩ := known p List.mem_cons_self
      have shows : ((names p.userId).filter (· ≠ [])).getD UNKNOWN_MENTION_NAME = p.name := by
        rw [name, Option.filter_some, if_pos (decide_eq_true some'), Option.getD_some]
      obtain ⟨shown, same⟩ := ih later (front ++ (gap ++ ('<' :: '@' :: p.userId ++ ['>']))) [] (out ++ gap ++ '@' :: p.name)
        (if mentions.any (·.userId = p.userId) then mentions else mentions ++ [⟨p.userId, p.name⟩])
      have wide : size (front ++ (gap ++ ('<' :: '@' :: p.userId ++ ['>']))) = size front + size gap + 2 + size p.userId + 1 := by
        rw [size_append, size_append, size_token]
        omega
      have body : front ++ (gap ++ ('<' :: '@' :: p.userId ++ ['>'])) ++ ([] ++ encodedOf rest) =
          front ++ (gap ++ encodedOf (.name p :: rest)) := by
        rw [List.nil_append, List.append_assoc, List.append_assoc]
        rfl
      rw [body, wide, size_nil, Nat.add_zero, List.append_nil] at same
      refine ⟨shown, ?_⟩
      rw [tokensFrom, resolveTokens, shows, slice_append, Option.bind_some]
      refine same.trans ?_
      rw [List.append_assoc (out ++ gap)]
      rfl

end Encoded

/-! ## Ranges -/

section Spans

variable {isAlphanumeric : Char → Bool} {displayBody : List Char} {mentions : List MentionRef}

/-- The range is of a mention's `@name` that ends at a word boundary. -/
def Shows (isAlphanumeric : Char → Bool) (displayBody : List Char) (mentions : List MentionRef) (r : Range) : Prop :=
  ∃ front back, ∃ m ∈ mentions, m.name ≠ [] ∧ displayBody = front ++ ('@' :: m.name ++ back) ∧ r.start = size front ∧
    r.stop = size front + size ('@' :: m.name) ∧ back.head?.any (continuesName isAlphanumeric) = false

def Disjoint (r s : Range) : Prop := r.stop ≤ s.start ∨ s.stop ≤ r.start

/-- What holds of the ranges that are claimed so far. -/
structure Claimed (isAlphanumeric : Char → Bool) (displayBody : List Char) (mentions : List MentionRef) (spans : List Range) : Prop where
  shows : ∀ r ∈ spans, Shows isAlphanumeric displayBody mentions r
  disjoint : spans.Pairwise Disjoint

theorem Shows.lt {r : Range} (shows : Shows isAlphanumeric displayBody mentions r) : r.start < r.stop := by
  obtain ⟨front, back, m, -, -, -, start, stop, -⟩ := shows
  have wide := size_pos (List.cons_ne_nil '@' m.name)
  omega

theorem Claimed.concat {spans : List Range} (claimed : Claimed isAlphanumeric displayBody mentions spans) {r : Range}
    (shows : Shows isAlphanumeric displayBody mentions r) (apart : ∀ s ∈ spans, Disjoint s r) :
    Claimed isAlphanumeric displayBody mentions (spans ++ [r]) where
  shows := fun s member => by
    rcases List.mem_append.mp member with old | new
    · exact claimed.shows s old
    · exact List.mem_singleton.mp new ▸ shows
  disjoint := by
    rw [List.pairwise_append]
    refine ⟨claimed.disjoint, List.pairwise_singleton _ _, fun s member t new => ?_⟩
    rw [List.mem_singleton.mp new]
    exact apart s member

theorem Claimed.spansFrom {m : MentionRef} (member : m ∈ mentions) (some' : m.name ≠ []) (front rest : List Char)
    (whole : displayBody = front ++ rest) {spans : List Range} (claimed : Claimed isAlphanumeric displayBody mentions spans) :
    Claimed isAlphanumeric displayBody mentions (spansFrom isAlphanumeric m.name rest (size front) spans) := by
  induction length : rest.length using Nat.strong_induction_on generalizing rest front spans with
  | _ n ih =>
    rw [Mentions.spansFrom]
    split
    next => exact claimed
    next before back found =>
      have split := eq_of_splitOnce found
      have shorter := length_of_splitOnce (List.cons_ne_nil _ _) found
      have further : displayBody = front ++ (before ++ '@' :: m.name) ++ back := by
        rw [whole, split, List.append_assoc, List.append_assoc]
      have position : size (front ++ (before ++ '@' :: m.name)) = size front + size before + size ('@' :: m.name) := by
        rw [size_append, size_append, Nat.add_assoc]
      dsimp only
      rw [← position]
      refine ih back.length (length ▸ shorter) _ back further ?_ rfl
      split_ifs with claims
      · obtain ⟨ends, free⟩ := claims
        refine claimed.concat ?_ ?_
        · refine ⟨front ++ before, back, m, member, some', ?_, ?_, ?_, (Bool.not_eq_true' _).mp ends⟩
          · rw [further, List.append_assoc, List.append_assoc, List.append_assoc]
          · exact (size_append front before).symm
          · rw [position, size_append]
        · intro s inside
          by_contra overlaps
          refine free (List.any_eq_true.mpr ⟨s, inside, decide_eq_true ?_⟩)
          obtain ⟨after, before_⟩ := not_or.mp overlaps
          exact ⟨not_le.mp before_, not_le.mp after⟩
      · exact claimed

theorem claimed_foldl (names : List (List Char)) (known : ∀ name ∈ names, ∃ m ∈ mentions, m.name = name ∧ name ≠ [])
    {spans : List Range} (claimed : Claimed isAlphanumeric displayBody mentions spans) :
    Claimed isAlphanumeric displayBody mentions
      (names.foldl (fun spans name => spansFrom isAlphanumeric name displayBody 0 spans) spans) := by
  induction names generalizing spans with
  | nil => exact claimed
  | cons name rest ih =>
    obtain ⟨⟨m, member, rfl, some'⟩, later⟩ := List.forall_mem_cons.mp known
    exact ih later (claimed.spansFrom member some' [] displayBody rfl)

/-- The ranges are of names of the mentions, in order and apart. -/
theorem mentionSpans_spec (displayBody : List Char) (mentions : List MentionRef) :
    (∀ r ∈ mentionSpans isAlphanumeric displayBody mentions, Shows isAlphanumeric displayBody mentions r) ∧
      (mentionSpans isAlphanumeric displayBody mentions).Pairwise fun r s => r.stop ≤ s.start := by
  have known : ∀ name ∈ (((mentions.filter (·.name ≠ [])).map (·.name)).mergeSort tokenLe).destutter (· ≠ ·),
      ∃ m ∈ mentions, m.name = name ∧ name ≠ [] := by
    intro name member
    have sorted := (List.destutter_sublist _ _).subset member
    obtain ⟨m, kept, rfl⟩ := List.mem_map.mp ((List.mergeSort_perm _ tokenLe).mem_iff.mp sorted)
    obtain ⟨inside, some'⟩ := List.mem_filter.mp kept
    exact ⟨m, inside, rfl, of_decide_eq_true some'⟩
  have claimed := @claimed_foldl isAlphanumeric displayBody mentions _ known _
    ⟨fun r member => absurd member List.not_mem_nil, List.Pairwise.nil⟩
  unfold mentionSpans
  dsimp only
  generalize List.foldl _ [] _ = spans at claimed
  have perm := List.mergeSort_perm spans fun r s => decide (r.start ≤ s.start)
  have sorted : (spans.mergeSort fun r s => decide (r.start ≤ s.start)).Pairwise fun r s => decide (r.start ≤ s.start) = true := by
    refine List.pairwise_mergeSort ?_ ?_ spans
    · intro r s t first second
      rw [decide_eq_true_eq] at *
      exact first.trans second
    · intro r s
      rw [Bool.or_eq_true, decide_eq_true_eq, decide_eq_true_eq]
      exact le_total _ _
  have shows : ∀ r ∈ spans.mergeSort fun r s => decide (r.start ≤ s.start), Shows isAlphanumeric displayBody mentions r :=
    fun r member => claimed.shows r (perm.mem_iff.mp member)
  have disjoint := (perm.pairwise_iff fun {r s} (apart : Disjoint r s) => Or.symm apart).mpr claimed.disjoint
  refine ⟨shows, ?_⟩
  refine (sorted.imp₂ (fun r s before apart => And.intro before apart) disjoint).imp_of_mem fun {r s} _ here both => ?_
  have before := of_decide_eq_true both.1
  have wide := (shows s here).lt
  rcases both.2 with apart | reversed
  · exact apart
  · omega

end Spans

/-! ## The trip -/

section Trip

variable {isAlphanumeric : Char → Bool} {text : List Char} {picks : List MentionRef}

theorem exists_pieces_encodeMentions (good : ∀ p ∈ picks, isMentionId p.userId = true) :
    ∃ pieces, textOf pieces = text ∧ encodeMentions isAlphanumeric text picks = encodedOf pieces ∧
      Replaced isAlphanumeric (Follows isAlphanumeric) picks [] pieces := by
  have perm := List.mergeSort_perm (picks.filter fun p => p.name ≠ [] ∧ isMentionId p.userId = true)
    fun p q => decide (size q.name ≤ size p.name)
  have sorted := @List.pairwise_mergeSort MentionRef (fun p q => decide (size q.name ≤ size p.name))
    (fun p q r first second => by
      rw [decide_eq_true_eq] at *
      exact second.trans first)
    (fun p q => by
      rw [Bool.or_eq_true, decide_eq_true_eq, decide_eq_true_eq]
      exact le_total _ _)
    (picks.filter fun p => p.name ≠ [] ∧ isMentionId p.userId = true)
  have kept (p : MentionRef) : p ∈ (picks.filter fun p => p.name ≠ [] ∧ isMentionId p.userId = true).mergeSort
      (fun p q => decide (size q.name ≤ size p.name)) ↔ p ∈ picks ∧ p.name ≠ [] ∧ isMentionId p.userId = true := by
    rw [perm.mem_iff, List.mem_filter, decide_eq_true_eq]
  obtain ⟨pieces, same, encodes, replaced⟩ := @exists_pieces isAlphanumeric _
    (sorted.imp fun longer => of_decide_eq_true longer) (fun p member => ((kept p).mp member).2.1) [] text
  refine ⟨pieces, same, encodes, replaced.mono (fun p member => ((kept p).mp member).1) fun q member some' => ?_⟩
  exact (kept q).mpr ⟨member, some', good q member⟩

/-- The ids of a body are those of its tokens in order. A text without an opening is encoded by pieces: the names to
be replaced are, the tokens are those of the replaced names, and the names come back. The ranges of the shown names are
of the mentions' names, whole, in order and apart. -/
theorem mentions_survive (isAlphanumeric : Char → Bool) :
    (∀ body, extractMentions body = body.tails.filterMap tokenAt) ∧
    (∀ rest id, tokenAt rest = some id ↔ (id ≠ [] ∧ ∀ c ∈ id, isWhitespace c = false ∧ c ≠ '<' ∧ c ≠ '@' ∧ c ≠ '>') ∧
      ∃ back, rest = '<' :: '@' :: id ++ '>' :: back) ∧
    (∀ text picks, ¬ ['<', '@'] <:+: text → (∀ p ∈ picks, isMentionId p.userId = true ∧ '>' ∉ p.userId) →
      ∃ pieces, textOf pieces = text ∧ encodeMentions isAlphanumeric text picks = encodedOf pieces ∧
        Replaced isAlphanumeric (Follows isAlphanumeric) picks [] pieces ∧
        extractMentions (encodeMentions isAlphanumeric text picks) = pieces.filterMap Piece.id? ∧
        ∀ names, (∀ p ∈ picks, names p.userId = some p.name) →
          ∃ shown, resolveMentions (encodeMentions isAlphanumeric text picks) names = some (text, shown)) ∧
    (∀ displayBody mentions, (∀ r ∈ mentionSpans isAlphanumeric displayBody mentions, Shows isAlphanumeric displayBody mentions r) ∧
      (mentionSpans isAlphanumeric displayBody mentions).Pairwise fun r s => r.stop ≤ s.start) := by
  refine ⟨fun body => map_mentionTokensFrom body 0, tokenAt_eq_some_iff, ?_, mentionSpans_spec⟩
  intro text picks plain good
  obtain ⟨pieces, rfl, encodes, replaced⟩ :=
    @exists_pieces_encodeMentions isAlphanumeric text picks fun p member => (good p member).1
  have tokened : Tokened pieces := fun p member => good p (replaced.picked p member).1
  have tokens := mentionTokensFrom_encodedOf plain tokened 0
  refine ⟨pieces, rfl, encodes, replaced, ?_, fun names named => ?_⟩
  · rw [encodes, extractMentions, mentionTokens, tokens, map_tokensFrom]
  · have known : ∀ p, .name p ∈ pieces → p.name ≠ [] ∧ names p.userId = some p.name := by
      intro p member
      obtain ⟨inside, after, follows⟩ := replaced.picked p member
      exact ⟨follows.1, named p inside⟩
    rw [encodes, resolveMentions, mentionTokens, tokens]
    exact resolveTokens_encodedOf known [] [] [] []

/-- A pick with an empty name replaces nothing. -/
theorem empty_name_stays :
    ¬ ∀ (isAlphanumeric : Char → Bool) (text : List Char) (picks : List MentionRef), ¬ ['<', '@'] <:+: text →
      (∀ p ∈ picks, isMentionId p.userId = true ∧ '>' ∉ p.userId) →
      (∀ p ∈ picks, ∀ q ∈ picks, p.userId = q.userId → p.name = q.name) →
        ∃ pieces, textOf pieces = text ∧ encodeMentions isAlphanumeric text picks = encodedOf pieces ∧
          Replaced isAlphanumeric
            (fun q after => ∃ back, after = q.name ++ back ∧ back.head?.any (continuesName isAlphanumeric) = false) picks [] pieces := by
  intro holds
  obtain ⟨pieces, text, encodes, replaced⟩ := holds (fun _ => false) ['@'] [⟨['u'], []⟩] (by decide) (by decide) (by decide)
  have stays : encodeMentions (fun _ => false) ['@'] [⟨['u'], []⟩] = ['@'] := by
    simp [encodeMentions, encodeFrom]
  cases pieces with
  | nil => cases text
  | cons piece rest =>
    cases piece with
    | char c =>
      obtain ⟨rfl, nothing⟩ := List.cons.inj text
      rcases replaced.1 rfl with within | none'
      · cases within
      · exact none' ⟨['u'], []⟩ List.mem_cons_self ⟨[], nothing, rfl⟩
    | name p =>
      have opens := stays.symm.trans encodes
      exact absurd (List.cons.inj opens).1 (by decide)

end Trip

end Mello.Core.MentionTrip
