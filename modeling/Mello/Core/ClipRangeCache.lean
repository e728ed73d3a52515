import Mello.Core.ClipRangeReader

/-!
The cache of a remote clip serves only what it has and fetches what is waited for, in any order of reads and steps of
the fetch thread.
-/

namespace Mello.Core.ClipRangeCache
open Mello.Library Extents Runs ClipRangeReader RangeReader

/-! ## Ranges -/

/-- A byte of `offset` to `offset + n` is in the range. -/
def Touches (offset n chunk : ℕ) : Prop := chunk * CHUNK < offset + n ∧ offset < (chunk + 1) * CHUNK

theorem lt_chunks_iff {chunk length : ℕ} : chunk < chunks length ↔ chunk * CHUNK < length := by
  unfold chunks CHUNK
  omega

theorem div_lt_chunks {offset length : ℕ} (inside : offset < length) : offset / CHUNK < chunks length := by
  unfold chunks CHUNK
  omega

section Coverage

variable {c : Coverage} {chunk : ℕ}

theorem lt_of_has (present : c.has chunk = true) : chunk < c.have_.length := by
  by_contra past
  unfold Coverage.has at present
  rw [List.getD_eq_default _ _ (not_lt.mp past)] at present
  exact Bool.false_ne_true present

theorem has_mark (inside : chunk < c.have_.length) (other : ℕ) : (c.mark chunk).has other = true ↔ other = chunk ∨ c.has other = true := by
  unfold Coverage.has Coverage.mark
  rw [List.getD_eq_getElem?_getD, List.getD_eq_getElem?_getD, List.getElem?_set]
  split_ifs with same
  · rw [same] at inside ⊢
    simp
  · simp [Ne.symm same]

theorem has_mark_of_has (other : ℕ) (present : c.has other = true) : (c.mark chunk).has other = true := by
  by_cases inside : chunk < c.have_.length
  · exact (has_mark inside other).mpr (.inr present)
  · unfold Coverage.mark Coverage.has
    rw [List.set_eq_of_length_le (not_lt.mp inside)]
    exact present

/-- From a position in the range `chunk` on, all ranges before the end that was reached are there. -/
theorem reach_spec {stop : ℕ} (present : List Bool) {chunk pos : ℕ} (near : pos ≤ (chunk + 1) * CHUNK) (before : pos ≤ stop) :
    pos ≤ reach stop present chunk pos ∧ reach stop present chunk pos ≤ stop ∧
      ∀ other, chunk ≤ other → pos < reach stop present chunk pos → other * CHUNK < reach stop present chunk pos →
        present[other - chunk]? = some true := by
  induction present generalizing chunk pos with
  | nil => exact ⟨le_rfl, before, fun _ _ moved => absurd moved (lt_irrefl _)⟩
  | cons first rest ih =>
    cases first with
    | false => exact ⟨le_rfl, before, fun _ _ moved => absurd moved (lt_irrefl _)⟩
    | true =>
      unfold reach
      split_ifs with more
      · have further : min ((chunk + 1) * CHUNK) stop ≤ (chunk + 1 + 1) * CHUNK :=
          (min_le_left _ _).trans (Nat.mul_le_mul_right CHUNK (Nat.le_succ _))
        obtain ⟨low, high, all⟩ := ih further (min_le_right _ _)
        refine ⟨(le_min near before).trans low, high, fun other from_ _ touched => ?_⟩
        rcases from_.eq_or_lt with rfl | later
        · rw [Nat.sub_self]
          rfl
        · obtain ⟨k, rfl⟩ : ∃ k, other = chunk + 1 + k := ⟨other - (chunk + 1), by omega⟩
          have moved : min ((chunk + 1) * CHUNK) stop < reach stop rest (chunk + 1) (min ((chunk + 1) * CHUNK) stop) := by
            have start : (chunk + 1) * CHUNK ≤ (chunk + 1 + k) * CHUNK := Nat.mul_le_mul_right CHUNK (Nat.le_add_right _ _)
            exact (min_le_left _ _).trans_lt (start.trans_lt touched)
          have there := all (chunk + 1 + k) (Nat.le_add_right _ _) moved touched
          rw [Nat.add_sub_cancel_left] at there
          rw [show chunk + 1 + k - chunk = k + 1 by omega, List.getElem?_cons_succ]
          exact there
      · exact ⟨le_rfl, before, fun _ _ moved => absurd moved (lt_irrefl _)⟩

/-- A read with room in a range that is there has something to read. -/
theorem lt_reach {stop : ℕ} {present : List Bool} {chunk pos : ℕ} (here : present[0]? = some true) (near : pos < (chunk + 1) * CHUNK)
    (before : pos < stop) : pos < reach stop present chunk pos := by
  cases present with
  | nil => cases here
  | cons first rest =>
    obtain rfl : first = true := Option.some.inj here
    unfold reach
    rw [if_pos before]
    have further : min ((chunk + 1) * CHUNK) stop ≤ (chunk + 1 + 1) * CHUNK :=
      (min_le_left _ _).trans (Nat.mul_le_mul_right CHUNK (Nat.le_succ _))
    exact (lt_min near before).trans_le (reach_spec rest further (min_le_right _ _)).1

/-- The next range to fetch is missing, and it is the wanted one where that is missing. -/
theorem next_eq_some {next : ℕ} (chosen : c.next = some next) (known : ∀ w, c.wanted = some w → w < c.have_.length) :
    c.has next = false ∧ next < c.have_.length := by
  unfold Coverage.next at chosen
  cases wanted : c.wanted.filter fun w => !c.has w with
  | some w =>
    rw [wanted] at chosen
    obtain rfl : w = next := Option.some.inj chosen
    obtain ⟨same, missing⟩ := Option.filter_eq_some_iff.mp wanted
    exact ⟨(Bool.not_eq_true' _).mp missing, known w same⟩
  | none =>
    rw [wanted] at chosen
    dsimp only at chosen
    split_ifs at chosen with none'
    have missing := List.find?_some chosen
    have inside := List.mem_range'_1.mp (List.mem_of_find?_eq_some chosen)
    have some' : 0 < c.have_.length := by
      rw [List.length_pos_iff]
      exact fun nil => none' (List.isEmpty_iff.mpr nil)
    exact ⟨(Bool.not_eq_true' _).mp missing, by omega⟩

theorem next_of_wanted {w : ℕ} (wanted : c.wanted = some w) (missing : c.has w = false) : c.next = some w := by
  unfold Coverage.next
  rw [wanted, Option.filter_some_pos (by rw [missing]; rfl)]

/-- No read waits far from the wanted range. -/
theorem not_wantsFarFrom {w : ℕ} (wanted : c.wanted = some w) : c.wantsFarFrom w = false := by
  unfold Coverage.wantsFarFrom
  rw [wanted, Option.any_some, decide_eq_false_iff_not, Nat.sub_self]
  exact fun far => absurd far.1 (by decide)

end Coverage

/-! ## A read -/

/-- What a read does under the lock. -/
inductive Reads (r : RangeReader) (offset len : ℕ) : RangeReader × Answer → Prop where
  | past (past : r.length ≤ offset) : Reads r offset len (r, .now (.bytes []))
  | failed (inside : offset < r.length) (failed : r.failed = true) : Reads r offset len (r, .now .error)
  | missing (head : ℕ) (inside : offset < r.length) (sound : r.failed = false) (missing : r.coverage.has (offset / CHUNK) = false) :
      Reads r offset len ({ r with coverage := { r.coverage with wanted := some (offset / CHUNK), head } }, .now .wait)
  | empty (head : ℕ) (inside : offset < r.length) (sound : r.failed = false) (here : r.coverage.has (offset / CHUNK) = true)
      (none' : len = 0) : Reads r offset len ({ r with coverage := { r.coverage with head } }, .now .wait)
  | granted (head n : ℕ) (inside : offset < r.length) (sound : r.failed = false) (here : r.coverage.has (offset / CHUNK) = true)
      (some' : 0 < n) (room : n ≤ len) (fits : offset + n ≤ r.length)
      (present : ∀ chunk, Touches offset n chunk → r.coverage.has chunk = true) :
      Reads r offset len ({ r with coverage := { r.coverage with head }, reads := r.reads ++ [(offset, n)] }, .file n)

theorem has_eq_getElem? {c : Coverage} {chunk : ℕ} (present : c.have_[chunk]? = some true) : c.has chunk = true := by
  unfold Coverage.has
  rw [List.getD_eq_getElem?_getD, present]
  rfl

theorem getElem?_of_has {c : Coverage} {chunk : ℕ} (present : c.has chunk = true) : c.have_[chunk]? = some true := by
  have inside := lt_of_has present
  unfold Coverage.has at present
  rw [List.getD_eq_getElem?_getD, List.getElem?_eq_getElem inside, Option.getD_some] at present
  rw [List.getElem?_eq_getElem inside, present]

/-- A read moves the head, and either counts what is there or wants the first range. -/
theorem exists_readable (c : Coverage) (offset len length : ℕ) :
    ∃ head, c.readable offset len length =
      if c.has (offset / CHUNK) then
        ({ c with head }, reach (min (offset + len) length) (c.have_.drop (offset / CHUNK)) (offset / CHUNK) offset - offset)
      else ({ c with head, wanted := some (offset / CHUNK) }, 0) := by
  unfold Coverage.readable
  dsimp only
  by_cases moves : c.head < offset / CHUNK ∨ offset / CHUNK + AHEAD_CHUNKS < c.head
  · rw [if_pos moves]
    exact ⟨offset / CHUNK, rfl⟩
  · rw [if_neg moves]
    exact ⟨c.head, rfl⟩

theorem lt_next_range (offset : ℕ) : offset < (offset / CHUNK + 1) * CHUNK := by
  unfold CHUNK
  omega

/-- All ranges that the counted bytes touch are there. -/
theorem has_of_touches {c : Coverage} {offset stop n chunk : ℕ} (before : offset ≤ stop) (some' : 0 < n)
    (count : reach stop (c.have_.drop (offset / CHUNK)) (offset / CHUNK) offset = offset + n) (touched : Touches offset n chunk) :
    c.has chunk = true := by
  obtain ⟨-, -, all⟩ := reach_spec (c.have_.drop (offset / CHUNK)) (lt_next_range offset).le before
  rw [count] at all
  obtain ⟨start, stop_⟩ := touched
  have first : offset / CHUNK ≤ chunk := by
    unfold CHUNK at *
    omega
  have there := all chunk first (by omega) start
  rw [List.getElem?_drop, Nat.add_sub_cancel' first] at there
  exact has_eq_getElem? there

theorem read_cases (r : RangeReader) (offset len : ℕ) : Reads r offset len (r.read offset len) := by
  unfold RangeReader.read
  split_ifs with past failed
  · exact .past past
  · exact .failed (not_le.mp past) failed
  · have inside := not_le.mp past
    have sound : r.failed = false := (Bool.not_eq_true _).mp failed
    obtain ⟨head, readable⟩ := exists_readable r.coverage offset len r.length
    rw [readable]
    cases here : r.coverage.has (offset / CHUNK) with
    | false => exact .missing head inside sound here
    | true =>
      rw [if_pos rfl]
      dsimp only
      have before : offset ≤ min (offset + len) r.length := le_min (Nat.le_add_right _ _) inside.le
      have fits := min_le_right (offset + len) r.length
      have room := min_le_left (offset + len) r.length
      have first : (r.coverage.have_.drop (offset / CHUNK))[0]? = some true := by
        rw [List.getElem?_drop]
        exact getElem?_of_has here
      have more (some' : 0 < len) := lt_reach first (lt_next_range offset) (lt_min (Nat.lt_add_of_pos_right some') inside)
      generalize min (offset + len) r.length = stop at *
      obtain ⟨low, high, -⟩ := reach_spec (r.coverage.have_.drop (offset / CHUNK)) (lt_next_range offset).le before
      split_ifs with none'
      · refine .empty head inside sound here ?_
        by_contra some'
        exact absurd (more (Nat.pos_of_ne_zero some')) (by omega)
      · exact .granted head _ inside sound here (by omega) (by omega) (by omega) fun chunk =>
          has_of_touches before (by omega) (by omega)

/-! ## What is kept -/

/-- The range was received whole and written, and the file has it. -/
def Fetched (r : RangeReader) (chunk : ℕ) : Prop :=
  ∃ start bytes, (start, bytes) ∈ r.writes ∧ start ≤ chunk * CHUNK ∧ r.rangeEnd chunk ≤ start + bytes.length ∧
    ∀ i, chunk * CHUNK ≤ i → i < r.rangeEnd chunk → r.file[i]? = bytes[i - start]?

/-- The range that the fetch thread is at. -/
def inFlight : Fetch → Option ℕ
  | .fetching chunk _ _ | .fetched chunk _ => some chunk
  | .choosing | .returned => none

structure Kept (r : RangeReader) : Prop where
  size : r.coverage.have_.length = chunks r.length
  fits : r.length ≤ r.file.length
  wanted : ∀ w, r.coverage.wanted = some w → w < chunks r.length ∧ r.coverage.has w = false
  flight : ∀ chunk, inFlight r.fetch = some chunk → chunk < chunks r.length ∧ r.coverage.has chunk = false
  landed : ∀ chunk, r.fetch = .fetched chunk true → Fetched r chunk
  present : ∀ chunk, r.coverage.has chunk = true → Fetched r chunk
  granted : ∀ offset n, (offset, n) ∈ r.reads → 0 < n ∧ offset + n ≤ r.length ∧
    ∀ chunk, Touches offset n chunk → r.coverage.has chunk = true

section Step

variable {r s : RangeReader} {chunk : ℕ}

/-- All that an event can do. -/
inductive Stepped (r : RangeReader) : Event → RangeReader → Prop where
  | read (offset len : ℕ) : Stepped r (.read offset len) (r.read offset len).1
  | served (offset n : ℕ) : Stepped r (.served offset n) { r with reads := r.reads.erase (offset, n) }
  | choose : Stepped r .choose r.choose
  | left (chunk : ℕ) (ahead : Bool) (attempt : ℕ) (flying : r.fetch = .fetching chunk ahead attempt) (gives : r.givesWay chunk ahead) :
      Stepped r .giveWay { r with fetch := .choosing }
  | went (chunk : ℕ) (ahead : Bool) (attempt : ℕ) (flying : r.fetch = .fetching chunk ahead attempt) (keeps : ¬ r.givesWay chunk ahead) :
      Stepped r .giveWay r
  | refused (chunk : ℕ) (ahead : Bool) (attempt : ℕ) (flying : r.fetch = .fetching chunk ahead attempt) :
      Stepped r .refused (r.attemptFailed chunk ahead attempt)
  | received (chunk : ℕ) (ahead : Bool) (attempt : ℕ) (flying : r.fetch = .fetching chunk ahead attempt) (bytes : List UInt8)
      (wrote : Option ℕ) : Stepped r (.received bytes wrote) (r.received chunk ahead attempt bytes wrote)
  | finish (chunk : ℕ) (landed : r.fetch = .fetched chunk true) :
      Stepped r .finish { r with coverage := r.coverage.mark chunk, fetch := .choosing }
  | failed (chunk : ℕ) (landed : r.fetch = .fetched chunk false) : Stepped r .finish { r with failed := true, fetch := .choosing }
  | drop : Stepped r .drop { r with stop := true }

theorem stepped_cases {event : Event} (stepped : r.step event = some s) : Stepped r event s := by
  cases event with
  | read offset len =>
    obtain rfl := Option.some.inj stepped
    exact .read offset len
  | served offset n =>
    dsimp only [RangeReader.step] at stepped
    split_ifs at stepped
    obtain rfl := Option.some.inj stepped
    exact .served offset n
  | choose =>
    dsimp only [RangeReader.step] at stepped
    split_ifs at stepped
    obtain rfl := Option.some.inj stepped
    exact .choose
  | giveWay =>
    dsimp only [RangeReader.step] at stepped
    split at stepped
    next chunk ahead attempt flying =>
      obtain rfl := Option.some.inj stepped
      split_ifs with gives
      · exact .left chunk ahead attempt flying gives
      · exact .went chunk ahead attempt flying gives
    next => cases stepped
  | refused =>
    dsimp only [RangeReader.step] at stepped
    split at stepped
    next chunk ahead attempt flying =>
      obtain rfl := Option.some.inj stepped
      exact .refused chunk ahead attempt flying
    next => cases stepped
  | received bytes wrote =>
    dsimp only [RangeReader.step] at stepped
    split at stepped
    next chunk ahead attempt flying =>
      obtain rfl := Option.some.inj stepped
      exact .received chunk ahead attempt flying bytes wrote
    next => cases stepped
  | finish =>
    dsimp only [RangeReader.step] at stepped
    split at stepped
    next chunk landed =>
      obtain rfl := Option.some.inj stepped
      exact .finish chunk landed
    next chunk landed =>
      obtain rfl := Option.some.inj stepped
      exact .failed chunk landed
    next => cases stepped
  | drop =>
    obtain rfl := Option.some.inj stepped
    exact .drop

theorem Kept.read (kept : Kept r) (offset len : ℕ) : Kept (r.read offset len).1 := by
  have reads := read_cases r offset len
  generalize r.read offset len = result at reads
  cases reads with
  | past past => exact kept
  | failed inside failed => exact kept
  | missing head inside sound missing =>
    refine { kept with wanted := ?_ }
    intro w wanted
    obtain rfl := Option.some.inj wanted
    exact ⟨div_lt_chunks inside, missing⟩
  | empty head inside sound here none' => exact { kept with }
  | granted head n inside sound here some' room fits present =>
    refine { kept with granted := ?_ }
    intro other m member
    rcases List.mem_append.mp member with old | new
    · exact kept.granted other m old
    · obtain ⟨rfl, rfl⟩ := Prod.mk.inj (List.mem_singleton.mp new)
      exact ⟨some', fits, present⟩

/-- The fetch thread moves on without a range, or stays at its range. -/
theorem Kept.moved (kept : Kept r) (fetch : Fetch) (same : ∀ chunk, inFlight fetch = some chunk → inFlight r.fetch = some chunk)
    (undone : ∀ chunk, fetch ≠ .fetched chunk true) : Kept { r with fetch } :=
  { kept with
    flight := fun chunk flying => kept.flight chunk (same chunk flying)
    landed := fun chunk landed => absurd landed (undone chunk) }

theorem Kept.choose (kept : Kept r) : Kept r.choose := by
  unfold RangeReader.choose
  split_ifs with over_
  · exact kept.moved .returned nofun nofun
  · cases next : r.coverage.next with
    | none => exact kept
    | some chunk =>
      obtain ⟨missing, inside⟩ := next_eq_some next fun w wanted => (kept.wanted w wanted).1.trans_eq kept.size.symm
      refine { kept with flight := ?_, landed := nofun }
      intro other flying
      obtain rfl := Option.some.inj flying
      exact ⟨inside.trans_eq kept.size, missing⟩

theorem Kept.attemptFailed (kept : Kept r) {ahead : Bool} {attempt : ℕ} (flying : r.fetch = .fetching chunk ahead attempt) :
    Kept (r.attemptFailed chunk ahead attempt) := by
  have same : inFlight r.fetch = some chunk := congrArg inFlight flying
  unfold RangeReader.attemptFailed
  split_ifs
  · exact kept.moved .returned nofun nofun
  · exact kept.moved _ (fun _ next => same.trans next) nofun
  · exact kept.moved _ (fun _ next => same.trans next) nofun

/-- Bytes of one range leave the other ranges as they are. -/
theorem getElem?_write_apart {other : ℕ} {data : List UInt8} (fits : r.length ≤ r.file.length)
    (inside : chunk * CHUNK + data.length ≤ r.rangeEnd chunk) (apart : other ≠ chunk) {i : ℕ} (low : other * CHUNK ≤ i)
    (high : i < r.rangeEnd other) : (writeAt r.file (chunk * CHUNK) data)[i]? = r.file[i]? := by
  have limit := min_le_right ((chunk + 1) * CHUNK) r.length
  have stop := min_le_left ((chunk + 1) * CHUNK) r.length
  have stop_ := min_le_left ((other + 1) * CHUNK) r.length
  unfold rangeEnd at inside high
  rw [getElem?_writeAt (by omega)]
  split_ifs with before here
  · rfl
  · refine absurd ?_ apart
    unfold CHUNK at *
    omega
  · rfl

/-- Another file that has the range, and more writes. -/
theorem Fetched.write {other : ℕ} (fetched : Fetched r other) {file : List UInt8} {writes : List (ℕ × List UInt8)} (fetch : Fetch)
    (more : r.writes ⊆ writes) (same : ∀ i, other * CHUNK ≤ i → i < r.rangeEnd other → file[i]? = r.file[i]?) :
    Fetched { r with file, writes, fetch } other := by
  obtain ⟨start, bytes, member, low, high, has_⟩ := fetched
  exact ⟨start, bytes, more member, low, high, fun i from_ until_ => (same i from_ until_).trans (has_ i from_ until_)⟩

/-- The last byte of a range of the clip is in the clip. -/
theorem start_lt_rangeEnd (inside : chunk < chunks r.length) : chunk * CHUNK < r.rangeEnd chunk := by
  have start := lt_chunks_iff.mp inside
  unfold rangeEnd CHUNK at *
  omega

theorem Kept.write (kept : Kept r) {file : List UInt8} (fits : r.length ≤ file.length) (flying : inFlight r.fetch = some chunk)
    (apart : ∀ other, other ≠ chunk → ∀ i, other * CHUNK ≤ i → i < r.rangeEnd other → file[i]? = r.file[i]?)
    {writes : List (ℕ × List UInt8)} (more : r.writes ⊆ writes) (done : Bool)
    (whole : done = true → Fetched { r with file, writes, fetch := .fetched chunk done } chunk) :
    Kept { r with file, writes, fetch := .fetched chunk done } := by
  obtain ⟨known, missing⟩ := kept.flight chunk flying
  refine { kept with fits, flight := ?_, landed := ?_, present := ?_ }
  · intro other next
    obtain rfl := Option.some.inj next
    exact ⟨known, missing⟩
  · intro other landed
    obtain ⟨rfl, finished⟩ := Fetch.fetched.inj landed
    exact whole finished
  · intro other present
    refine (kept.present other present).write _ more (apart other ?_)
    rintro rfl
    exact Bool.false_ne_true (missing.symm.trans present)

/-- A range is fetched when all its bytes are written. -/
theorem fetched_of_write {file data : List UInt8} {writes : List (ℕ × List UInt8)} (fetch : Fetch)
    (member : (chunk * CHUNK, data) ∈ writes) (ends : r.rangeEnd chunk = chunk * CHUNK + data.length)
    (has_ : ∀ i, chunk * CHUNK ≤ i → i < r.rangeEnd chunk → file[i]? = data[i - chunk * CHUNK]?) :
    Fetched { r with file, writes, fetch } chunk :=
  ⟨chunk * CHUNK, data, member, le_rfl, ends.le, has_⟩

/-- What a write in a range does to the file. -/
theorem Kept.writeAt (kept : Kept r) {data : List UInt8} (inside : chunk * CHUNK + data.length ≤ r.rangeEnd chunk) :
    r.length ≤ (Extents.writeAt r.file (chunk * CHUNK) data).length ∧
      ∀ i, chunk * CHUNK ≤ i → i < chunk * CHUNK + data.length →
        (Extents.writeAt r.file (chunk * CHUNK) data)[i]? = data[i - chunk * CHUNK]? := by
  have limit : r.rangeEnd chunk ≤ r.length := min_le_right _ _
  have within : chunk * CHUNK + data.length ≤ r.file.length := inside.trans (limit.trans kept.fits)
  refine ⟨kept.fits.trans_eq (length_writeAt within).symm, fun i from_ until_ => ?_⟩
  rw [getElem?_writeAt within, if_neg (not_lt.mpr from_), if_pos until_]

theorem Kept.received (kept : Kept r) {ahead : Bool} {attempt : ℕ} (flying : r.fetch = .fetching chunk ahead attempt)
    (bytes : List UInt8) (wrote : Option ℕ) : Kept (r.received chunk ahead attempt bytes wrote) := by
  have same : inFlight r.fetch = some chunk := congrArg inFlight flying
  have some' := start_lt_rangeEnd (kept.flight chunk same).1
  unfold RangeReader.received
  dsimp only
  split_ifs with length
  · have ends : r.rangeEnd chunk = chunk * CHUNK + bytes.length := by omega
    cases wrote with
    | none =>
      obtain ⟨fits, has_⟩ := kept.writeAt ends.ge
      refine kept.write fits same (fun other apart i => getElem?_write_apart kept.fits ends.ge apart) (List.subset_append_left _ _) true ?_
      rw [← ends] at has_
      exact fun _ => fetched_of_write _ (List.mem_append_right _ List.mem_cons_self) ends has_
    | some most =>
      have short : (bytes.take most).length ≤ bytes.length := List.length_take_le' most bytes
      have inside : chunk * CHUNK + (bytes.take most).length ≤ r.rangeEnd chunk := (Nat.add_le_add_left short _).trans_eq ends.symm
      obtain ⟨fits, -⟩ := kept.writeAt inside
      exact kept.write fits same (fun other apart i => getElem?_write_apart kept.fits inside apart) (List.Subset.refl _) false nofun
  · exact kept.attemptFailed flying

theorem Kept.finish (kept : Kept r) (landed : r.fetch = .fetched chunk true) :
    Kept { r with coverage := r.coverage.mark chunk, fetch := .choosing } := by
  obtain ⟨known, missing⟩ := kept.flight chunk (congrArg inFlight landed)
  have inside : chunk < r.coverage.have_.length := known.trans_eq kept.size.symm
  refine { kept with size := ?_, wanted := ?_, flight := nofun, landed := nofun, present := ?_, granted := ?_ }
  · exact List.length_set.trans kept.size
  · intro w wanted
    change (if r.coverage.wanted = some chunk then none else r.coverage.wanted) = some w at wanted
    split_ifs at wanted with here
    obtain ⟨low, absent⟩ := kept.wanted w wanted
    refine ⟨low, ?_⟩
    rw [← Bool.not_eq_true, has_mark inside]
    rintro (rfl | present)
    · exact here wanted
    · exact Bool.false_ne_true (absent.symm.trans present)
  · intro other present
    rcases (has_mark inside other).mp present with rfl | old
    · exact kept.landed other landed
    · exact kept.present other old
  · intro offset n member
    obtain ⟨some', fits, present⟩ := kept.granted offset n member
    exact ⟨some', fits, fun other touched => has_mark_of_has other (present other touched)⟩

theorem Kept.step (kept : Kept r) {event : Event} (stepped : r.step event = some s) : Kept s := by
  cases stepped_cases stepped with
  | read offset len => exact kept.read offset len
  | served offset n => exact { kept with granted := fun other m member => kept.granted other m (List.mem_of_mem_erase member) }
  | choose => exact kept.choose
  | left chunk ahead attempt flying gives => exact kept.moved .choosing nofun nofun
  | went chunk ahead attempt flying keeps => exact kept
  | refused chunk ahead attempt flying => exact kept.attemptFailed flying
  | received chunk ahead attempt flying bytes wrote => exact kept.received flying bytes wrote
  | finish chunk landed => exact kept.finish landed
  | failed chunk landed => exact { kept.moved .choosing nofun nofun with }
  | drop => exact { kept with }

theorem length_read (offset len : ℕ) : (r.read offset len).1.length = r.length := by
  have reads := read_cases r offset len
  generalize r.read offset len = result at reads
  cases reads with
  | _ => rfl

/-- The fetch thread alone leaves the length and the coverage. -/
theorem choose_frame : r.choose.length = r.length ∧ r.choose.coverage = r.coverage := by
  unfold RangeReader.choose
  split_ifs
  · exact ⟨rfl, rfl⟩
  · cases r.coverage.next with
    | _ => exact ⟨rfl, rfl⟩

theorem attemptFailed_frame (ahead : Bool) (attempt : ℕ) :
    (r.attemptFailed chunk ahead attempt).length = r.length ∧ (r.attemptFailed chunk ahead attempt).coverage = r.coverage := by
  unfold RangeReader.attemptFailed
  split_ifs
  · exact ⟨rfl, rfl⟩
  · exact ⟨rfl, rfl⟩
  · exact ⟨rfl, rfl⟩

theorem write_frame (r : RangeReader) (file : List UInt8) (writes : List (ℕ × List UInt8)) (fetch : Fetch) :
    { r with file, writes, fetch }.length = r.length ∧ { r with file, writes, fetch }.coverage = r.coverage := ⟨rfl, rfl⟩

theorem received_frame (ahead : Bool) (attempt : ℕ) (bytes : List UInt8) (wrote : Option ℕ) :
    (r.received chunk ahead attempt bytes wrote).length = r.length ∧
      (r.received chunk ahead attempt bytes wrote).coverage = r.coverage := by
  unfold RangeReader.received
  dsimp only
  split_ifs
  · cases wrote with
    | _ => exact write_frame r _ _ _
  · exact attemptFailed_frame ahead attempt

theorem length_step {event : Event} (stepped : r.step event = some s) : s.length = r.length := by
  cases stepped_cases stepped with
  | read offset len => exact length_read offset len
  | choose => exact choose_frame.1
  | refused chunk ahead attempt flying => exact (attemptFailed_frame ahead attempt).1
  | received chunk ahead attempt flying bytes wrote => exact (received_frame ahead attempt bytes wrote).1
  | _ => rfl

end Step

/-! ## The first body -/

/-- Ranges are marked where the body has them. -/
theorem foldl_mark (has_ : ℕ → Prop) [DecidablePred has_] (ranges : List ℕ) (c : Coverage) (none' : c.wanted = none)
    (known : ∀ chunk, c.has chunk = true → has_ chunk) :
    let d := ranges.foldl (fun c chunk => if has_ chunk then c.mark chunk else c) c
    d.wanted = none ∧ d.have_.length = c.have_.length ∧ ∀ chunk, d.has chunk = true → has_ chunk := by
  induction ranges generalizing c with
  | nil => exact ⟨none', rfl, known⟩
  | cons first rest ih =>
    rw [List.foldl_cons]
    split_ifs with here
    · have marked : (c.mark first).wanted = none := by
        unfold Coverage.mark
        dsimp only
        rw [none', if_neg nofun]
      obtain ⟨wanted, size, all⟩ := ih (c.mark first) marked fun chunk present => by
        by_cases inside : first < c.have_.length
        · rcases (has_mark inside chunk).mp present with rfl | old
          · exact here
          · exact known chunk old
        · unfold Coverage.mark Coverage.has at present
          rw [List.set_eq_of_length_le (not_lt.mp inside)] at present
          exact known chunk present
      exact ⟨wanted, size.trans List.length_set, all⟩
    · exact ih c none' known

theorem kept_opened (length : ℕ) (body : List UInt8) : Kept (opened length body) := by
  obtain ⟨wanted, size, marked⟩ := foldl_mark (fun chunk => (chunk + 1) * CHUNK ≤ body.length ∨ length ≤ body.length)
    (List.range (chunks length)) (Coverage.new length) rfl fun chunk present => by
      unfold Coverage.new Coverage.has at present
      rw [List.getD_eq_getElem?_getD, List.getElem?_replicate] at present
      split_ifs at present
      · exact absurd present Bool.false_ne_true
      · exact absurd present Bool.false_ne_true
  have file : (opened length body).file = body ++ (List.replicate length 0).drop body.length := by
    unfold opened writeAt
    dsimp only
    rw [List.take_zero, List.nil_append, Nat.zero_add]
  have none' : (opened length body).coverage.wanted = none := wanted
  exact {
    size := size.trans List.length_replicate
    fits := by
      rw [file, List.length_append, List.length_drop, List.length_replicate]
      change length ≤ _
      omega
    wanted := fun w asked => absurd (none'.symm.trans asked) nofun
    flight := nofun
    landed := nofun
    present := fun chunk present => by
      have whole : (opened length body).rangeEnd chunk ≤ body.length := by
        rcases marked chunk present with inside | all
        · exact (min_le_left _ _).trans inside
        · exact (min_le_right _ _).trans all
      refine ⟨0, body, List.mem_cons_self, Nat.zero_le _, whole.trans_eq (Nat.zero_add _).symm, fun i _ until_ => ?_⟩
      rw [file, List.getElem?_append_left (until_.trans_le whole), Nat.sub_zero]
    granted := nofun }

/-! ## Runs -/

theorem kept_run {length : ℕ} {body : List UInt8} {events : List Event} {r : RangeReader}
    (ran : run step (opened length body) events = some r) : Kept r ∧ r.length = length := by
  refine run_invariant (fun r => Kept r ∧ r.length = length) ?_ ⟨kept_opened length body, rfl⟩ ran
  intro event _ s t kept stepped
  exact ⟨kept.1.step stepped, (length_step stepped).trans kept.2⟩

section Sought

variable {r s : RangeReader} {w : ℕ}

/-- The range is there, or it is the wanted one. -/
def Sought (w : ℕ) (r : RangeReader) : Prop := r.coverage.has w = true ∨ r.coverage.wanted = some w

theorem asks_of_missing {offset len : ℕ} (inside : offset < r.length) (sound : r.failed = false)
    (missing : r.coverage.has (offset / CHUNK) = false) : r.asks (.read offset len) = some (offset / CHUNK) :=
  if_pos ⟨inside, sound, missing⟩

theorem asks_of_has {offset len : ℕ} (here : r.coverage.has (offset / CHUNK) = true) : r.asks (.read offset len) = none :=
  if_neg fun all => Bool.false_ne_true (all.2.2.symm.trans here)

/-- A read that asks for a range makes it the wanted one. -/
theorem wanted_of_asks {event : Event} (asked : r.asks event = some w) (stepped : r.step event = some s) :
    s.coverage.wanted = some w := by
  cases stepped_cases stepped with
  | read offset len =>
    have reads := read_cases r offset len
    generalize r.read offset len = result at reads
    unfold asks at asked
    dsimp only at asked
    split_ifs at asked with all
    obtain ⟨inside, sound, missing⟩ := all
    obtain rfl := Option.some.inj asked
    cases reads with
    | past past => exact absurd inside (not_lt.mpr past)
    | failed _ failed => exact absurd (sound.symm.trans failed) Bool.false_ne_true
    | missing head _ _ _ => rfl
    | empty head _ _ here _ => exact absurd (missing.symm.trans here) Bool.false_ne_true
    | granted head n _ _ here _ _ _ _ => exact absurd (missing.symm.trans here) Bool.false_ne_true
  | _ => cases asked

/-- The range stays wanted until it is there, or a read asks for another one. -/
theorem Sought.step (sought : Sought w r) (kept : Kept r) {event : Event} (only : ∀ other, r.asks event = some other → other = w)
    (stepped : r.step event = some s) : Sought w s := by
  cases stepped_cases stepped with
  | read offset len =>
    have reads := read_cases r offset len
    generalize r.read offset len = result at reads
    cases reads with
    | past past => exact sought
    | failed inside failed => exact sought
    | missing head inside sound missing =>
      right
      exact congrArg some (only (offset / CHUNK) (asks_of_missing inside sound missing))
    | empty head inside sound here none' => exact sought
    | granted head n inside sound here some' room fits present => exact sought
  | choose =>
    unfold Sought
    rw [choose_frame.2]
    exact sought
  | refused chunk ahead attempt flying =>
    unfold Sought
    rw [(attemptFailed_frame ahead attempt).2]
    exact sought
  | received chunk ahead attempt flying bytes wrote =>
    unfold Sought
    rw [(received_frame ahead attempt bytes wrote).2]
    exact sought
  | finish chunk landed =>
    rcases sought with present | wanted
    · exact .inl (has_mark_of_has w present)
    · by_cases same : chunk = w
      · refine .inl ((has_mark ?_ w).mpr (.inl same.symm))
        obtain ⟨inside, -⟩ := kept.flight chunk (congrArg inFlight landed)
        exact inside.trans_eq kept.size.symm
      · right
        have other : r.coverage.wanted ≠ some chunk := fun wanted' => same (Option.some.inj (wanted'.symm.trans wanted))
        exact (if_neg other).trans wanted
  | _ => exact sought

/-- What holds of a range that a read waits for: it is the next choice, and its fetch gives way to the end of the
reader alone. -/
structure Awaited (r : RangeReader) (w : ℕ) : Prop where
  wanted : r.coverage.wanted = some w
  next : r.coverage.next = some w
  chosen : r.stop = false → r.failed = false → r.choose.fetch = .fetching w false 1
  keeps : ∀ ahead, r.givesWay w ahead → r.stop = true

theorem awaited_of_wanted (wanted : r.coverage.wanted = some w) (missing : r.coverage.has w = false) : Awaited r w where
  wanted := wanted
  next := next_of_wanted wanted missing
  chosen := fun running sound => by
    unfold RangeReader.choose
    rw [if_neg (by rw [running, sound]; decide), next_of_wanted wanted missing]
    exact congrArg (Fetch.fetching w · 1) (decide_eq_false fun other => other wanted)
  keeps := fun ahead gives => gives.resolve_right fun far => Bool.false_ne_true ((not_wantsFarFrom wanted).symm.trans far.2)

/-- From the read that asks for a range on, while no read asks for another one. -/
theorem awaited_run (kept : Kept r) {event : Event} {t : RangeReader} {back : List Event} (asked : r.asks event = some w)
    (stepped : r.step event = some t) (only : EachStep step (fun u event => ∀ other, u.asks event = some other → other = w) t back)
    (ran : run step t back = some s) : s.coverage.has w = true ∨ Awaited s w := by
  have all : Always step (fun u => Kept u ∧ Sought w u) t back := by
    refine always_of_eachStep ?_ ⟨kept.step stepped, .inr (wanted_of_asks asked stepped)⟩ back only
    intro u event v both only stepped
    exact ⟨both.1.step stepped, both.2.step both.1 only stepped⟩
  rcases all.last ran with ⟨-, present | wanted⟩
  · exact .inl present
  · cases present : s.coverage.has w with
    | true => exact .inl rfl
    | false => exact .inr (awaited_of_wanted wanted present)

end Sought

/-! ## The cache -/

/-- The file has all that a read of it was granted. -/
theorem readFileAt_spec {r : RangeReader} (kept : Kept r) {offset n : ℕ} (granted : (offset, n) ∈ r.reads) {io : Option ℕ}
    {bytes : List UInt8} (served : r.readFileAt offset n io = .bytes bytes) :
    bytes = (r.file.drop offset).take bytes.length ∧ bytes ≠ [] ∧ bytes.length ≤ n := by
  obtain ⟨some', fits, -⟩ := kept.granted offset n granted
  have file := kept.fits
  unfold readFileAt at served
  rw [if_neg (by omega)] at served
  cases io with
  | none => cases served
  | some most =>
    obtain rfl := Served.bytes.inj served
    have length : ((r.file.drop offset).take (min (most + 1) (min n (r.length - offset)))).length =
        min (most + 1) (min n (r.length - offset)) := by
      rw [List.length_take, List.length_drop]
      omega
    refine ⟨congrArg ((r.file.drop offset).take ·) length.symm, ?_, ?_⟩
    · rw [← List.length_pos_iff, length]
      omega
    · rw [length]
      omega

/-- A read gives bytes of ranges that were fetched whole, within the clip, and the end of the clip only at or past it.
The next range to fetch is a missing one of the clip. A range that a read waits for is the next choice, is not left for
another one, and stays wanted until it is there or a read asks for another one. -/
theorem clip_range_cache (length : ℕ) (body : List UInt8) {events : List Event} {r : RangeReader}
    (ran : run step (opened length body) events = some r) :
    (∀ offset n, (offset, n) ∈ r.reads → ∀ io bytes, r.readFileAt offset n io = .bytes bytes →
      bytes = (r.file.drop offset).take bytes.length ∧ bytes ≠ [] ∧ bytes.length ≤ n ∧ offset + bytes.length ≤ length ∧
        ∀ chunk, Touches offset bytes.length chunk → Fetched r chunk) ∧
    (∀ offset len, match (r.read offset len).2 with
      | .now (.bytes bytes) => bytes = [] ∧ length ≤ offset
      | .now .wait => 0 < len → r.asks (.read offset len) = some (offset / CHUNK)
      | .now .error => r.failed = true
      | .file n => 0 < n ∧ n ≤ len ∧ offset + n ≤ length ∧ r.asks (.read offset len) = none ∧ ∀ chunk, Touches offset n chunk → Fetched r chunk) ∧
    (∀ chunk, r.coverage.next = some chunk → r.coverage.has chunk = false ∧ chunk * CHUNK < length) ∧
    (∀ front event back s t w, events = front ++ event :: back → run step (opened length body) front = some s →
      s.asks event = some w → s.step event = some t →
        EachStep step (fun u event => ∀ other, u.asks event = some other → other = w) t back →
          r.coverage.has w = true ∨ Awaited r w) := by
  obtain ⟨kept, rfl⟩ := kept_run ran
  refine ⟨?_, ?_, ?_, ?_⟩
  · intro offset n granted io bytes served
    obtain ⟨same, some', room⟩ := readFileAt_spec kept granted served
    obtain ⟨-, fits, present⟩ := kept.granted offset n granted
    refine ⟨same, some', room, by omega, fun chunk touched => kept.present chunk (present chunk ?_)⟩
    exact ⟨touched.1.trans_le (Nat.add_le_add_left room offset), touched.2⟩
  · intro offset len
    have reads := read_cases r offset len
    generalize r.read offset len = result at reads
    cases reads with
    | past past => exact ⟨rfl, past⟩
    | failed inside failed => exact failed
    | missing head inside sound missing => exact fun _ => asks_of_missing inside sound missing
    | empty head inside sound here none' => exact fun some' => absurd none' some'.ne'
    | granted head n inside sound here some' room fits present =>
      exact ⟨some', room, fits, asks_of_has here, fun chunk touched => kept.present chunk (present chunk touched)⟩
  · intro chunk next
    obtain ⟨missing, inside⟩ := next_eq_some next fun w wanted => (kept.wanted w wanted).1.trans_eq kept.size.symm
    exact ⟨missing, lt_chunks_iff.mp (inside.trans_eq kept.size)⟩
  · intro front event back s t w split before asked stepped only
    rw [split, run_append, before, Option.bind_some, run_cons, stepped, Option.bind_some] at ran
    exact awaited_run (kept_run before).1 asked stepped only ran

/-- A clip of three bytes of which the first body has two. -/
def threeBytes : List Event := [.read 1 2, .choose, .giveWay, .received [7, 8, 9] none, .finish, .read 1 2]

theorem clip_range_cache_threeBytes :
    ∃ r, run step (opened 3 [7, 8]) threeBytes = some r ∧ (1, 2) ∈ r.reads ∧ r.readFileAt 1 2 (some 5) = .bytes [8, 9] ∧ Fetched r 0 := by
  obtain ⟨r, ran⟩ : ∃ r, run step (opened 3 [7, 8]) threeBytes = some r := ⟨_, rfl⟩
  have granted : (1, 2) ∈ r.reads := by
    obtain rfl := Option.some.inj (Eq.symm ran)
    decide
  have served : r.readFileAt 1 2 (some 5) = .bytes [8, 9] := by
    obtain rfl := Option.some.inj (Eq.symm ran)
    decide
  obtain ⟨-, -, -, -, fetched⟩ := (clip_range_cache 3 [7, 8] ran).1 1 2 granted (some 5) [8, 9] served
  exact ⟨r, ran, granted, served, fetched 0 (by unfold Touches; decide)⟩

end Mello.Core.ClipRangeCache
