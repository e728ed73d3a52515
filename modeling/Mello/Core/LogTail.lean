import Mello.Library.Lines
import Mello.Library.Runs

/-!
The log tailer of the telemetry adapters (`tail_loop`). The game writes its log in pieces of any size,
replaces it and opens new ones, and each read of a line sees what is in the file by then.
-/

namespace Mello.Core.LogTail
open Mello.Library Runs Lines

/-! ## Text -/

/-- The Unicode property White_Space. -/
def isWhitespace (c : Char) : Bool :=
  let n := c.toNat
  (9 ≤ n && n ≤ 13) || n = 0x20 || n = 0x85 || n = 0xa0 || n = 0x1680 || (0x2000 ≤ n && n ≤ 0x200a) || n = 0x2028 || n = 0x2029 ||
    n = 0x202f || n = 0x205f || n = 0x3000

def trimEnd (line : List Char) : List Char := (line.reverse.dropWhile isWhitespace).reverse

def decode (bytes : List UInt8) : Option (List Char) := ((ByteArray.mk bytes.toArray).utf8Decode?).map Array.toList

def newline : UInt8 := 0x0a

def isNewline (byte : UInt8) : Bool := byte = newline

/-- What `on_line` gets of a line. -/
def text (line : List UInt8) : List Char := trimEnd ((decode line).getD [])

/-- The lines that are completed after the first `origin` bytes. -/
def after (content : List UInt8) (origin : Nat) : List (List Char) :=
  ((lines isNewline content).drop (lines isNewline (content.take origin)).length).map text

/-! ## The loop -/

inductive Start where
  | atEnd
  | beginning
  deriving DecidableEq

inductive Call where
  | line (text : List Char)
  | caughtUp
  deriving DecidableEq

def Call.line? : Call → Option (List Char)
  | .line text => some text
  | .caughtUp => none

/-- An open file: `offset` is where its reader is, `pos` what the loop has counted. -/
structure Tail (Path : Type) where
  path : Path
  file : Nat
  offset : Nat
  pos : Nat

/-- A file that was followed from `origin` on, with its content when the loop left it. -/
structure Followed where
  file : Nat
  origin : Nat
  content : List UInt8

/-- The files by number, never reused, what is under each path, and the loop; the rest is for the claim. -/
structure State (Path : Type) where
  files : Nat → List UInt8 := fun _ => []
  fresh : Nat := 0
  under : Path → Option Nat := fun _ => none
  current : Option (Tail Path) := none
  reading : Bool := false
  isCaughtUp : Bool := false
  calls : List Call := []
  opened : Bool := false
  /-- Where the current file was attached, its length at the end of the last pass, and the files before it. -/
  origin : Nat := 0
  seen : Nat := 0
  past : List Followed := []
  /-- The lines that were there at the first open. -/
  existed : List (List Char) := []
  /-- The last poll kept a file that its path no longer leads to. -/
  astray : Bool := false

section Loop

variable {Path : Type}

namespace State

def content (s : State Path) (tail : Tail Path) : List UInt8 := s.files tail.file

def open' (s : State Path) (path : Path) (opens : Bool) : Option Nat := if opens then s.under path else none

/-- The first file, or one after a failed open. -/
def attach (s : State Path) (start : Start) (path : Path) (file : Nat) : State Path :=
  let pos := match start with | .atEnd => (s.files file).length | .beginning => 0
  { s with
    current := some { path, file, offset := pos, pos }
    reading := true
    opened := true
    origin := if s.opened then 0 else pos
    existed := if s.opened then s.existed else after (s.files file) pos
    astray := false }

/-- The loop leaves its file. -/
def leave (s : State Path) (tail : Tail Path) (path : Path) (opened : Option Nat) : State Path :=
  { s with
    current := opened.map fun file => { path, file, offset := 0, pos := 0 }
    reading := opened.isSome
    origin := 0
    past := s.past ++ [⟨tail.file, s.origin, s.content tail⟩]
    astray := false }

def shrank (s : State Path) (tail : Tail Path) : Bool := (s.under tail.path).all fun file => (s.files file).length < tail.pos

/-- The inner loop ends. -/
def pause (s : State Path) (tail : Tail Path) : State Path :=
  { s with
    current := some tail
    reading := false
    isCaughtUp := true
    calls := if s.isCaughtUp then s.calls else s.calls ++ [.caughtUp]
    seen := (s.content tail).length }

/-- `read_line` at the place of the reader. -/
def bytes (s : State Path) (tail : Tail Path) : List UInt8 := line isNewline ((s.content tail).drop tail.offset)

/-- One turn of the inner loop. A line that is not UTF-8 is an error, with its bytes taken. -/
def read (s : State Path) (tail : Tail Path) : State Path :=
  let bytes := s.bytes tail
  if bytes = [] then s.pause tail
  else
    match decode bytes with
    | none => s.pause { tail with offset := tail.offset + bytes.length }
    | some line =>
      if bytes.getLast?.any isNewline then
        { s with
          current := some { tail with offset := tail.offset + bytes.length, pos := tail.pos + bytes.length }
          calls := s.calls ++ [.line (trimEnd line)] }
      else s.pause tail

variable [DecidableEq Path]

def poll (s : State Path) (start : Start) (resolved : Option Path) (opens : Bool) : State Path :=
  match s.current, resolved with
  | none, some path =>
    match s.open' path opens with
    | some file => s.attach start path file
    | none => s
  | some tail, some path =>
    if tail.path ≠ path || s.shrank tail then s.leave tail path (s.open' path opens)
    else { s with reading := true, astray := decide (s.under tail.path ≠ some tail.file) }
  | some _, none => { s with reading := true }
  | none, none => s

end State

variable [DecidableEq Path]

/-- The game writes UTF-8 lines, and a file is replaced by a shorter one. -/
inductive Action (Path : Type) where
  | append (file : Nat) (bytes : List UInt8)
  | replace (path : Path) (bytes : List UInt8)
  | remove (path : Path)
  | poll (resolved : Option Path) (opens : Bool)
  | read

def isText (content : List UInt8) : Bool := (lines isNewline content).all fun line => (decode line).isSome

def step (start : Start) (s : State Path) : Action Path → Option (State Path)
  | .append file bytes =>
    if file < s.fresh ∧ isText (s.files file ++ bytes) then
      some { s with files := Function.update s.files file (s.files file ++ bytes) }
    else none
  | .replace path bytes =>
    if isText bytes ∧ (s.under path).all fun file => bytes.length < (s.files file).length then
      some
        { s with
          files := Function.update s.files s.fresh bytes
          fresh := s.fresh + 1
          under := Function.update s.under path (some s.fresh) }
    else none
  | .remove path => some { s with under := Function.update s.under path none }
  | .poll resolved opens => if s.reading then none else some (s.poll start resolved opens)
  | .read =>
    match s.current with
    | some tail => if s.reading then some (s.read tail) else none
    | none => none

/-! ## What is claimed -/

namespace State

def lines (s : State Path) : List (List Char) := s.calls.filterMap Call.line?

/-- The lines of the files so far, the current one up to the reader. -/
def due (s : State Path) : List (List Char) :=
  (s.past.flatMap fun f => after f.content f.origin) ++
    s.current.elim [] fun tail => after ((s.content tail).take tail.offset) s.origin

def trail (s : State Path) : List Nat := s.past.map Followed.file ++ (s.current.map Tail.file).toList

end State

/-- Each line is passed once and in order, none is left over after a pass, no file is read twice, and a
file that is replaced is noticed. -/
structure Delivered (s : State Path) : Prop where
  lines : s.lines = s.due
  all : s.reading = false → ∀ tail ∈ s.current, Lines.lines isNewline (((s.content tail).take s.seen).drop tail.offset) = []
  once : s.trail.Nodup
  found : s.astray = false
  caughtUp : s.calls.count .caughtUp = if s.isCaughtUp then 1 else 0
  history : ∀ front back, s.calls = front ++ .caughtUp :: back → s.existed <+: front.filterMap Call.line?

/-- The first file ends with a line when the loop attaches at its end. A file that is opened after a
failed attempt has not been followed before, and is empty when the loop attaches at its end. -/
def Attaches (start : Start) (s : State Path) (file : Nat) : Prop :=
  file ∉ s.trail ∧ (start = .atEnd → if s.opened then s.files file = [] else unfinished isNewline (s.files file) = [])

/-- A file that the loop leaves has no line that was not read, and the next one was not followed
before. A file that it keeps is still under its path. A line that is cut is not cut in a character. -/
def Clean (start : Start) (s : State Path) : Action Path → Prop
  | .poll resolved opens =>
    match s.current, resolved with
    | none, some path => ∀ file ∈ s.open' path opens, Attaches start s file
    | some tail, some path =>
      if tail.path ≠ path || s.shrank tail then
        Lines.lines isNewline ((s.content tail).drop tail.offset) = [] ∧ ∀ file ∈ s.open' path opens, file ∉ s.trail
      else s.under tail.path = some tail.file
    | _, none => True
  | .read => ∀ tail ∈ s.current, (s.bytes tail).getLast?.any isNewline = false → (decode (s.bytes tail)).isSome
  | _ => True

end Loop

/-! ## Lines after a place -/

theorem after_append {front : List UInt8} (border : unfinished isNewline front = []) (back : List UInt8) {origin : Nat}
    (within : origin ≤ front.length) : after (front ++ back) origin = after front origin ++ (lines isNewline back).map text := by
  have fewer : (lines isNewline (front.take origin)).length ≤ (lines isNewline front).length := by
    have grown := @lines_grow _ isNewline (front.take origin) (front.drop origin)
    rw [List.take_append_drop] at grown
    exact grown.length_le
  unfold after
  rw [List.take_append_of_le_length within, lines_append border, List.drop_append_of_le_length fewer, List.map_append]

theorem after_grows (content more : List UInt8) {origin : Nat} (within : origin ≤ content.length) :
    after content origin <+: after (content ++ more) origin := by
  unfold after
  rw [List.take_append_of_le_length within]
  exact ((lines_grow content more).drop _).map text

/-- A file is attached with no line behind the reader. -/
theorem after_take_self (content : List UInt8) (origin : Nat) : after (content.take origin) origin = [] := by
  unfold after
  rw [List.take_take, min_self, List.drop_length, List.map_nil]

/-- The reader of a file is between two lines, at or after the place where the file was attached. -/
structure Placed {Path : Type} (content : List UInt8) (origin : Nat) (tail : Tail Path) : Prop where
  counted : tail.pos = tail.offset
  within : tail.offset ≤ content.length
  later : origin ≤ tail.offset
  border : unfinished isNewline (content.take tail.offset) = []

namespace Placed

variable {Path : Type} {content : List UInt8} {origin : Nat} {tail : Tail Path}

theorem length_take (placed : Placed content origin tail) : (content.take tail.offset).length = tail.offset := by
  rw [List.length_take, min_eq_left placed.within]

/-- With nothing left, the lines up to the reader are all. -/
theorem after_eq (placed : Placed content origin tail) (drained : lines isNewline (content.drop tail.offset) = []) :
    after content origin = after (content.take tail.offset) origin := by
  have whole := after_append placed.border (content.drop tail.offset) (placed.later.trans placed.length_take.ge)
  rw [List.take_append_drop, drained, List.map_nil, List.append_nil] at whole
  exact whole

theorem grows (placed : Placed content origin tail) (more : List UInt8) :
    Placed (content ++ more) origin tail ∧ (content ++ more).take tail.offset = content.take tail.offset := by
  have same : (content ++ more).take tail.offset = content.take tail.offset := List.take_append_of_le_length placed.within
  refine ⟨⟨placed.counted, ?_, placed.later, same ▸ placed.border⟩, same⟩
  rw [List.length_append]
  exact placed.within.trans (Nat.le_add_right _ _)

/-- A read of a complete line. -/
theorem reads (placed : Placed content origin tail) {bytes : List UInt8} (took : bytes = line isNewline (content.drop tail.offset))
    (complete : bytes.getLast?.any isNewline = true) :
    Placed content origin { tail with offset := tail.offset + bytes.length, pos := tail.pos + bytes.length } ∧
      after (content.take (tail.offset + bytes.length)) origin = after (content.take tail.offset) origin ++ [text bytes] ∧
      bytes ∈ lines isNewline content := by
  subst took
  obtain ⟨one, border⟩ := lines_line complete
  have rest := @line_append_drop _ isNewline (content.drop tail.offset)
  have taken : content.take (tail.offset + (line isNewline (content.drop tail.offset)).length) =
      content.take tail.offset ++ line isNewline (content.drop tail.offset) := by
    rw [List.take_add, take_line]
  refine ⟨⟨?_, ?_, placed.later.trans (Nat.le_add_right _ _), ?_⟩, ?_, ?_⟩
  · dsimp only
    rw [placed.counted]
  · have short := @line_length_le _ isNewline (content.drop tail.offset)
    rw [List.length_drop] at short
    have := placed.within
    dsimp only
    omega
  · dsimp only
    rw [taken, unfinished_append placed.border, border]
  · rw [taken, after_append placed.border _ (placed.later.trans placed.length_take.ge), one]
    rfl
  · have all := lines_append placed.border (content.drop tail.offset)
    have inner := lines_append border ((content.drop tail.offset).drop (line isNewline (content.drop tail.offset)).length)
    rw [rest, one] at inner
    rw [List.take_append_drop, inner] at all
    rw [all]
    exact List.mem_append_right _ List.mem_cons_self

end Placed

/-! ## The invariant -/

section Inv

variable {Path : Type} {start : Start} {s t : State Path}

structure Inv (s : State Path) : Prop where
  texts : ∀ file, isText (s.files file) = true
  under : ∀ path file, s.under path = some file → file < s.fresh
  held : ∀ tail ∈ s.current, tail.file < s.fresh
  placed : ∀ tail ∈ s.current, Placed (s.content tail) s.origin tail
  lines : s.lines = s.due
  all : s.reading = false → ∀ tail ∈ s.current, s.seen ≤ (s.content tail).length ∧
    Lines.lines isNewline (((s.content tail).take s.seen).drop tail.offset) = []
  once : s.trail.Nodup
  found : s.astray = false
  unopened : s.opened = false → s.current = none ∧ s.past = [] ∧ s.isCaughtUp = false
  /-- Until the first pass ends, the loop reads its first file. -/
  catching : s.isCaughtUp = false → .caughtUp ∉ s.calls ∧ (s.opened = true → s.reading = true ∧ s.past = [] ∧
    ∃ tail, s.current = some tail ∧ s.existed <+: after (s.content tail) s.origin)
  caughtUp : s.isCaughtUp = true → s.calls.count .caughtUp = 1
  history : ∀ front back, s.calls = front ++ .caughtUp :: back → s.existed <+: front.filterMap Call.line?

theorem Inv.delivered (inv : Inv s) : Delivered s where
  lines := inv.lines
  all := fun idle tail here => (inv.all idle tail here).2
  once := inv.once
  found := inv.found
  caughtUp := by
    cases caught : s.isCaughtUp with
    | false => exact List.count_eq_zero.mpr (inv.catching caught).1
    | true => exact inv.caughtUp caught
  history := inv.history

theorem inv_start : Inv ({} : State Path) where
  texts := fun _ => rfl
  under := nofun
  held := nofun
  placed := nofun
  lines := rfl
  all := nofun
  once := List.nodup_nil
  found := rfl
  unopened := fun _ => ⟨rfl, rfl, rfl⟩
  catching := fun _ => ⟨List.not_mem_nil, nofun⟩
  caughtUp := nofun
  history := fun front _ same => absurd same.symm (List.append_ne_nil_of_right_ne_nil front (List.cons_ne_nil _ _))

/-- Files that grow and come, with the held ones as they were or longer. -/
theorem Inv.files (inv : Inv s) (files : Nat → List UInt8) (fresh : Nat) (under : Path → Option Nat)
    (texts : ∀ file, isText (files file) = true) (more : s.fresh ≤ fresh) (known : ∀ path file, under path = some file → file < fresh)
    (grown : ∀ file < s.fresh, ∃ bytes, files file = s.files file ++ bytes) : Inv { s with files, fresh, under } := by
  have longer (tail : Tail Path) (here : s.current = some tail) : ∃ bytes, files tail.file = s.content tail ++ bytes :=
    grown tail.file (inv.held tail here)
  refine ⟨texts, known, fun tail here => (inv.held tail here).trans_le more, ?_, ?_, ?_, inv.once, inv.found, inv.unopened, ?_,
    inv.caughtUp, inv.history⟩
  · intro tail here
    obtain ⟨bytes, same⟩ := longer tail here
    change Placed (files tail.file) s.origin tail
    rw [same]
    exact ((inv.placed tail here).grows bytes).1
  · refine inv.lines.trans ?_
    unfold State.due
    dsimp only
    congr 1
    cases here : s.current with
    | none => rfl
    | some tail =>
      obtain ⟨bytes, same⟩ := longer tail here
      change after ((s.content tail).take tail.offset) s.origin = after ((files tail.file).take tail.offset) s.origin
      rw [same, ((inv.placed tail here).grows bytes).2]
  · intro idle tail here
    obtain ⟨bytes, same⟩ := longer tail here
    obtain ⟨short, none'⟩ := inv.all idle tail here
    change s.seen ≤ (files tail.file).length ∧ Lines.lines isNewline (((files tail.file).take s.seen).drop tail.offset) = []
    rw [same, List.take_append_of_le_length short, List.length_append]
    exact ⟨short.trans (Nat.le_add_right _ _), none'⟩
  · intro caught
    obtain ⟨fresh, first⟩ := inv.catching caught
    refine ⟨fresh, fun opened => ?_⟩
    obtain ⟨reading, past, tail, here, existed⟩ := first opened
    obtain ⟨bytes, same⟩ := longer tail here
    have placed := inv.placed tail here
    refine ⟨reading, past, tail, here, ?_⟩
    change s.existed <+: after (files tail.file) s.origin
    rw [same]
    exact existed.trans (after_grows _ _ (placed.later.trans placed.within))

/-- What the calls are not about. -/
theorem Inv.idle_of_none (inv : Inv s) (none' : s.current = none) : s.isCaughtUp = false → s.opened = false := by
  intro caught
  by_contra opened
  obtain ⟨-, -, tail, here, -⟩ := (inv.catching caught).2 (Bool.eq_true_of_not_eq_false opened)
  rw [none'] at here
  cases here

/-- The inner loop ends with nothing left. -/
theorem Inv.pause (inv : Inv s) {tail : Tail Path} (here : s.current = some tail)
    (drained : Lines.lines isNewline ((s.content tail).drop tail.offset) = []) : Inv (s.pause tail) := by
  have placed := inv.placed tail here
  have calls : (s.pause tail).lines = s.lines := by
    unfold State.pause State.lines
    dsimp only
    split_ifs
    · rfl
    · rw [List.filterMap_append]
      exact List.append_nil _
  refine ⟨inv.texts, inv.under, ?_, ?_, ?_, ?_, ?_, inv.found, ?_, nofun, ?_, ?_⟩
  · rintro other ⟨⟩
    exact inv.held tail here
  · rintro other ⟨⟩
    exact placed
  · rw [calls, inv.lines]
    unfold State.due
    rw [here]
    rfl
  · rintro - other ⟨⟩
    refine ⟨le_rfl, ?_⟩
    change Lines.lines isNewline (((s.content tail).take (s.content tail).length).drop tail.offset) = []
    rw [List.take_length]
    exact drained
  · have once := inv.once
    unfold State.trail at once ⊢
    rw [here] at once
    exact once
  · intro unopened
    have absent := (inv.unopened unopened).1
    rw [here] at absent
    cases absent
  · rintro -
    unfold State.pause
    dsimp only
    split_ifs with caught
    · exact inv.caughtUp caught
    · rw [List.count_append, List.count_eq_zero.mpr (inv.catching (Bool.eq_false_of_not_eq_true caught)).1]
      rfl
  · intro front back whole
    unfold State.pause at whole
    dsimp only at whole
    split_ifs at whole with caught
    · exact inv.history front back whole
    · obtain ⟨fresh, first⟩ := inv.catching (Bool.eq_false_of_not_eq_true caught)
      rcases split_concat whole with ⟨rest, -, old⟩ | ⟨rfl, -, -⟩
      · rw [old] at fresh
        exact absurd (List.mem_append_right front List.mem_cons_self) fresh
      · have opened : s.opened = true := by
          by_contra unopened
          have absent := (inv.unopened (Bool.eq_false_of_not_eq_true unopened)).1
          rw [here] at absent
          cases absent
        obtain ⟨-, past, other, same, existed⟩ := first opened
        obtain rfl := Option.some.inj (here.symm.trans same)
        have lines := inv.lines
        unfold State.lines State.due at lines
        rw [past, here] at lines
        change s.existed <+: s.calls.filterMap Call.line?
        rw [lines]
        change s.existed <+: [] ++ after ((s.content tail).take tail.offset) s.origin
        rw [List.nil_append, ← placed.after_eq drained]
        exact existed

theorem Inv.read (inv : Inv s) {tail : Tail Path} (here : s.current = some tail)
    (clean : (s.bytes tail).getLast?.any isNewline = false → (decode (s.bytes tail)).isSome) (reading : s.reading = true) :
    Inv (s.read tail) := by
  have placed := inv.placed tail here
  cases complete : (s.bytes tail).getLast?.any isNewline with
  | false =>
    have drained : Lines.lines isNewline ((s.content tail).drop tail.offset) = [] := (line_incomplete complete).2
    obtain ⟨chars, decoded⟩ := Option.isSome_iff_exists.mp (clean complete)
    unfold State.read
    dsimp only
    rw [decoded]
    dsimp only
    rw [complete, if_neg Bool.false_ne_true]
    split_ifs <;> exact inv.pause here drained
  | true =>
    obtain ⟨next, lines, member⟩ := @Placed.reads _ _ _ _ placed (s.bytes tail) rfl complete
    obtain ⟨chars, decoded⟩ := Option.isSome_iff_exists.mp (List.all_eq_true.mp (inv.texts tail.file) _ member)
    have some' : s.bytes tail ≠ [] := by
      intro empty
      rw [empty] at complete
      cases complete
    unfold State.read
    dsimp only
    rw [decoded]
    dsimp only
    rw [if_neg some', complete, if_pos rfl]
    have said : text (s.bytes tail) = trimEnd chars := by
      unfold text
      rw [decoded]
      rfl
    refine ⟨inv.texts, inv.under, ?_, ?_, ?_, ?_, ?_, inv.found, ?_, ?_, ?_, ?_⟩
    · rintro other ⟨⟩
      exact inv.held tail here
    · rintro other ⟨⟩
      exact next
    · have before := inv.lines
      unfold State.lines State.due at before ⊢
      rw [here] at before
      dsimp only
      rw [List.filterMap_append, before]
      change _ = _ ++ after ((s.content tail).take (tail.offset + (s.bytes tail).length)) s.origin
      rw [lines, said, ← List.append_assoc]
      rfl
    · intro idle
      rw [reading] at idle
      cases idle
    · have once := inv.once
      unfold State.trail at once ⊢
      rw [here] at once
      exact once
    · intro unopened
      have absent := (inv.unopened unopened).1
      rw [here] at absent
      cases absent
    · intro caught
      obtain ⟨fresh, first⟩ := inv.catching caught
      refine ⟨?_, fun opened => ?_⟩
      · intro member
        rcases List.mem_append.mp member with old | new
        · exact fresh old
        · cases List.mem_singleton.mp new
      · obtain ⟨reading, past, other, same, existed⟩ := first opened
        obtain rfl := Option.some.inj (here.symm.trans same)
        exact ⟨reading, past, _, rfl, existed⟩
    · intro caught
      rw [List.count_append, inv.caughtUp caught]
      rfl
    · intro front back whole
      rcases split_concat whole with ⟨rest, -, old⟩ | ⟨-, other, -⟩
      · exact inv.history front rest old
      · cases other

theorem Inv.attach (inv : Inv s) (none' : s.current = none) {path : Path} {file : Nat} (there : s.under path = some file)
    (attaches : Attaches start s file) : Inv (s.attach start path file) := by
  obtain ⟨unread, whole⟩ := attaches
  have uncaught := inv.idle_of_none none'
  -- The reader starts at the first byte, or behind the last line of the first file.
  have place : ∃ pos, s.attach start path file =
      { s with
        current := some { path, file, offset := pos, pos }
        reading := true
        opened := true
        origin := if s.opened then 0 else pos
        existed := if s.opened then s.existed else after (s.files file) pos
        astray := false } ∧ pos ≤ (s.files file).length ∧ (s.opened = true → pos = 0) ∧
      unfinished isNewline ((s.files file).take pos) = [] := by
    refine ⟨_, rfl, ?_⟩
    cases start with
    | beginning => exact ⟨Nat.zero_le _, fun _ => rfl, rfl⟩
    | atEnd =>
      have empty := whole rfl
      refine ⟨le_rfl, fun opened => ?_, ?_⟩
      · rw [if_pos opened] at empty
        rw [empty]
        rfl
      · dsimp only
        rw [List.take_length]
        split_ifs at empty
        · rw [empty]
          rfl
        · exact empty
  obtain ⟨pos, same, within, zero, border⟩ := place
  rw [same]
  have begin' : (if s.opened then 0 else pos) = pos := by
    split_ifs with opened
    · exact (zero opened).symm
    · rfl
  rw [begin']
  refine ⟨inv.texts, inv.under, ?_, ?_, ?_, nofun, ?_, rfl, nofun, ?_, inv.caughtUp, ?_⟩
  · rintro tail ⟨⟩
    exact inv.under path file there
  · rintro tail ⟨⟩
    exact ⟨rfl, within, le_rfl, border⟩
  · refine inv.lines.trans ?_
    unfold State.due
    rw [none']
    change _ ++ [] = _ ++ after ((s.files file).take pos) pos
    rw [after_take_self]
  · have once := inv.once
    unfold State.trail at once unread ⊢
    rw [none'] at once unread
    rw [Option.map_none, Option.toList_none, List.append_nil] at once unread
    exact List.Nodup.append once (List.nodup_singleton file) (List.disjoint_singleton.mpr unread)
  · intro caught
    have closed := uncaught caught
    refine ⟨(inv.catching caught).1, fun _ => ⟨rfl, (inv.unopened closed).2.1, _, rfl, ?_⟩⟩
    rw [closed]
    exact List.prefix_rfl
  · intro front back whole
    split_ifs
    · exact inv.history front back whole
    · rename_i closed
      exfalso
      have fresh : .caughtUp ∉ s.calls := (inv.catching (inv.unopened (Bool.eq_false_of_not_eq_true closed)).2.2).1
      exact fresh (whole ▸ List.mem_append_right front List.mem_cons_self)

theorem Inv.leave (inv : Inv s) (idle : s.reading = false) {tail : Tail Path} (here : s.current = some tail)
    (drained : Lines.lines isNewline ((s.content tail).drop tail.offset) = []) {path : Path} {opened : Option Nat}
    (there : ∀ file ∈ opened, s.under path = some file ∧ file ∉ s.trail) : Inv (s.leave tail path opened) := by
  have placed := inv.placed tail here
  have caught : s.isCaughtUp = true := by
    by_contra uncaught
    have open' : s.opened = true := by
      by_contra unopened
      have absent := (inv.unopened (Bool.eq_false_of_not_eq_true unopened)).1
      rw [here] at absent
      cases absent
    have reading := ((inv.catching (Bool.eq_false_of_not_eq_true uncaught)).2 open').1
    rw [idle] at reading
    cases reading
  have once := inv.once
  unfold State.trail at once there
  rw [here] at once there
  change (s.past.map Followed.file ++ [tail.file]).Nodup at once
  refine ⟨inv.texts, inv.under, ?_, ?_, ?_, ?_, ?_, rfl, ?_, fun uncaught => ?_, inv.caughtUp, inv.history⟩
  · intro next held
    obtain ⟨file, new, rfl⟩ := Option.map_eq_some_iff.mp held
    exact inv.under path file (there file new).1
  · intro next held
    obtain ⟨file, new, rfl⟩ := Option.map_eq_some_iff.mp held
    exact ⟨rfl, Nat.zero_le _, le_rfl, rfl⟩
  · refine inv.lines.trans ?_
    unfold State.due State.leave
    rw [here]
    dsimp only
    rw [List.flatMap_append, List.flatMap_singleton, placed.after_eq drained]
    cases opened with
    | none => exact (List.append_nil _).symm
    | some file => exact (List.append_nil _).symm
  · intro stopped next held
    obtain ⟨file, new, -⟩ := Option.map_eq_some_iff.mp held
    change opened.isSome = false at stopped
    rw [new] at stopped
    cases stopped
  · unfold State.trail State.leave
    dsimp only
    rw [List.map_append]
    cases opened with
    | none =>
      rw [Option.map_none, Option.map_none, Option.toList_none, List.append_nil]
      exact once
    | some file => exact List.Nodup.append once (List.nodup_singleton file) (List.disjoint_singleton.mpr (there file rfl).2)
  · intro unopened
    have absent := (inv.unopened unopened).1
    rw [here] at absent
    cases absent
  · change s.isCaughtUp = false at uncaught
    rw [caught] at uncaught
    cases uncaught

/-- The loop goes on with its file. -/
theorem Inv.keeps (inv : Inv s) {astray : Bool} (found : astray = false) :
    Inv { s with reading := true, astray } := by
  refine ⟨inv.texts, inv.under, inv.held, inv.placed, inv.lines, nofun, inv.once, found, inv.unopened, ?_, inv.caughtUp, inv.history⟩
  intro caught
  obtain ⟨fresh, first⟩ := inv.catching caught
  exact ⟨fresh, fun opened => ⟨rfl, (first opened).2⟩⟩

variable [DecidableEq Path]

theorem inv_poll (inv : Inv s) (idle : s.reading = false) (resolved : Option Path) (opens : Bool)
    (clean : Clean start s (.poll resolved opens)) : Inv (s.poll start resolved opens) := by
  have known (path : Path) (file : Nat) (opened : s.open' path opens = some file) : s.under path = some file := by
    unfold State.open' at opened
    split_ifs at opened
    exact opened
  unfold State.poll
  unfold Clean at clean
  cases here : s.current with
  | none =>
    rw [here] at clean
    cases resolved with
    | none => exact inv
    | some path =>
      dsimp only at clean ⊢
      cases opened : s.open' path opens with
      | none => exact inv
      | some file => exact inv.attach here (known path file opened) (clean file opened)
  | some tail =>
    rw [here] at clean
    cases resolved with
    | none =>
      have kept := inv.keeps inv.found
      rw [here] at kept
      exact kept
    | some path =>
      dsimp only at clean ⊢
      split_ifs at clean ⊢ with leaves
      · exact inv.leave idle here clean.1 fun file opened => ⟨known path file opened, clean.2 file opened⟩
      · have kept := inv.keeps (decide_eq_false (not_not_intro clean))
        rw [here] at kept
        exact kept

theorem inv_step (action : Action Path) (inv : Inv s) (clean : Clean start s action) (stepped : step start s action = some t) :
    Inv t := by
  unfold step at stepped
  cases action with
  | append file bytes =>
    dsimp only at stepped
    split_ifs at stepped with guard
    cases stepped
    refine inv.files _ _ _ ?_ le_rfl inv.under ?_
    · intro other
      rcases eq_or_ne other file with rfl | apart
      · rw [Function.update_self]
        exact guard.2
      · rw [Function.update_of_ne apart]
        exact inv.texts other
    · intro other held
      rcases eq_or_ne other file with rfl | apart
      · exact ⟨bytes, Function.update_self ..⟩
      · exact ⟨[], by rw [Function.update_of_ne apart, List.append_nil]⟩
  | replace path bytes =>
    dsimp only at stepped
    split_ifs at stepped with guard
    cases stepped
    refine inv.files _ _ _ ?_ (Nat.le_succ _) ?_ ?_
    · intro other
      rcases eq_or_ne other s.fresh with rfl | apart
      · rw [Function.update_self]
        exact guard.1
      · rw [Function.update_of_ne apart]
        exact inv.texts other
    · intro other file there
      rcases eq_or_ne other path with rfl | apart
      · rw [Function.update_self] at there
        cases there
        exact Nat.lt_succ_self _
      · rw [Function.update_of_ne apart] at there
        exact (inv.under other file there).trans (Nat.lt_succ_self _)
    · intro other held
      exact ⟨[], by rw [Function.update_of_ne held.ne, List.append_nil]⟩
  | remove path =>
    cases stepped
    refine inv.files s.files s.fresh _ inv.texts le_rfl ?_ fun file _ => ⟨[], (List.append_nil _).symm⟩
    intro other file there
    rcases eq_or_ne other path with rfl | apart
    · rw [Function.update_self] at there
      cases there
    · rw [Function.update_of_ne apart] at there
      exact inv.under other file there
  | poll resolved opens =>
    dsimp only at stepped
    split_ifs at stepped with reading
    cases stepped
    exact inv_poll inv (Bool.eq_false_of_not_eq_true reading) resolved opens clean
  | read =>
    dsimp only at stepped
    split at stepped
    · rename_i tail here
      split_ifs at stepped with reading
      cases stepped
      exact inv.read here (clean tail here) reading
    · cases stepped

end Inv

instance {Path : Type} [DecidableEq Path] (start : Start) (s : State Path) (file : Nat) : Decidable (Attaches start s file) := by
  unfold Attaches
  infer_instance

instance {Path : Type} [DecidableEq Path] (start : Start) (s : State Path) (action : Action Path) : Decidable (Clean start s action) := by
  unfold Clean
  split
  · split <;> infer_instance
  · infer_instance
  · infer_instance

/-- The first of the two bytes of a letter is there at one pass, and the other at the next. -/
def cut : List (Action Nat) :=
  [.replace 0 [0xc3], .poll (some 0) true, .read, .append 0 [0xa9, 0x0a], .poll (some 0) true, .read, .poll (some 0) true, .read]

end Mello.Core.LogTail
