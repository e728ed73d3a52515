import Mello.Library.Extents
import Mello.Library.Runs

/-!
The bytes of a remote game clip for the player. It is fetched in ranges of 1 MiB by a thread of its own, a few ranges
ahead of the last read, into a cache file at their offsets. A read never waits on the network.
-/

namespace Mello.Core.ClipRangeReader
open Mello.Library Extents

/-- One range request. -/
def CHUNK : ℕ := 1024 * 1024

def AHEAD_CHUNKS : ℕ := 4

def RETRIES : ℕ := 3

/-- The ranges of a clip; the last one may be short. -/
def chunks (length : ℕ) : ℕ := (length + CHUNK - 1) / CHUNK

/-! ## Which ranges are there -/

structure Coverage where
  have_ : List Bool
  wanted : Option ℕ := none
  head : ℕ := 0
  deriving DecidableEq, Repr

/-- The bytes from `pos` in the range `chunk` up to the first missing range, or to `stop`. The list is of the ranges
from `chunk` on. -/
def reach (stop : ℕ) : List Bool → ℕ → ℕ → ℕ
  | true :: rest, chunk, pos => if pos < stop then reach stop rest (chunk + 1) (min ((chunk + 1) * CHUNK) stop) else pos
  | _, _, pos => pos

namespace Coverage

def new (length : ℕ) : Coverage := { have_ := List.replicate (chunks length) false }

variable (c : Coverage)

def mark (chunk : ℕ) : Coverage where
  have_ := c.have_.set chunk true
  wanted := if c.wanted = some chunk then none else c.wanted
  head := c.head

def has (chunk : ℕ) : Bool := c.have_.getD chunk false

/-- The bytes from `offset` that are there, up to `len`. A missing range becomes the wanted one. -/
def readable (offset len length : ℕ) : Coverage × ℕ :=
  let first := offset / CHUNK
  -- the head follows the reads forward, and a seek far back
  let c := if c.head < first ∨ first + AHEAD_CHUNKS < c.head then { c with head := first } else c
  if c.has first then (c, reach (min (offset + len) length) (c.have_.drop first) first offset - offset)
  else ({ c with wanted := some first }, 0)

/-- A read waits for a range far from `chunk`. -/
def wantsFarFrom (chunk : ℕ) : Bool := c.wanted.any fun w => AHEAD_CHUNKS < (w - chunk) + (chunk - w) ∧ c.has w = false

def next : Option ℕ :=
  match c.wanted.filter fun w => !c.has w with
  | some w => some w
  | none =>
    if c.have_.isEmpty then none
    else
      let last := min (c.head + AHEAD_CHUNKS) (c.have_.length - 1)
      (List.range' c.head (last + 1 - c.head)).find? fun chunk => !c.has chunk

end Coverage

/-! ## The reader and its fetch thread -/

/-- Where the fetch thread is: about to choose, in an attempt at a range, after the attempts, or gone. -/
inductive Fetch where
  | choosing
  | fetching (chunk : ℕ) (ahead : Bool) (attempt : ℕ)
  | fetched (chunk : ℕ) (done : Bool)
  | returned
  deriving DecidableEq, Repr

/-- `reads` are the reads that go on to the file after the lock, each with its offset and count. `writes` are the whole
bodies that were written to the file, with their offsets. -/
structure RangeReader where
  length : ℕ
  file : List UInt8
  coverage : Coverage
  stop : Bool := false
  failed : Bool := false
  fetch : Fetch := .choosing
  reads : List (ℕ × ℕ) := []
  writes : List (ℕ × List UInt8)
  deriving DecidableEq, Repr

/-- What a read gives: bytes, `READ_WAIT` or `READ_ERROR`. -/
inductive Served where
  | bytes (bytes : List UInt8)
  | wait
  | error
  deriving DecidableEq, Repr

/-- What a read has when it leaves the lock: its result, or the count to read from the file. -/
inductive Answer where
  | now (served : Served)
  | file (n : ℕ)
  deriving DecidableEq, Repr

inductive Event where
  /-- A read takes the lock. -/
  | read (offset len : ℕ)
  /-- A read has read the file. -/
  | served (offset n : ℕ)
  /-- The fetch thread takes the lock to choose a range. -/
  | choose
  /-- `give_way` is asked before the next piece of the response. -/
  | giveWay
  /-- A request fails. -/
  | refused
  /-- The response ends. The file takes it, or only some of it. -/
  | received (bytes : List UInt8) (wrote : Option ℕ)
  /-- The fetch thread takes the lock with the outcome of a range. -/
  | finish
  | drop
  deriving DecidableEq, Repr

namespace RangeReader

/-- The first body is of the whole clip where the server ignored the range. -/
def opened (length : ℕ) (body : List UInt8) : RangeReader where
  length
  file := writeAt (List.replicate length 0) 0 body
  coverage := (List.range (chunks length)).foldl
    (fun c chunk => if (chunk + 1) * CHUNK ≤ body.length ∨ length ≤ body.length then c.mark chunk else c) (Coverage.new length)
  writes := [(0, body)]

variable (r : RangeReader)

/-- The file gives at most `io + 1` bytes, or fails. -/
def readFileAt (offset len : ℕ) (io : Option ℕ) : Served :=
  if r.length ≤ offset then .bytes []
  else
    match io with
    | none => .error
    | some most => .bytes ((r.file.drop offset).take (min (most + 1) (min len (r.length - offset))))

def read (offset len : ℕ) : RangeReader × Answer :=
  if r.length ≤ offset then (r, .now (.bytes []))
  else if r.failed then (r, .now .error)
  else
    let (coverage, n) := r.coverage.readable offset len r.length
    let r := { r with coverage }
    if n = 0 then (r, .now .wait) else ({ r with reads := r.reads ++ [(offset, n)] }, .file n)

/-- Where a range ends. -/
def rangeEnd (chunk : ℕ) : ℕ := min ((chunk + 1) * CHUNK) r.length

/-- An attempt at a range failed. -/
def attemptFailed (chunk : ℕ) (ahead : Bool) (attempt : ℕ) : RangeReader :=
  if r.stop then { r with fetch := .returned }
  else if attempt < RETRIES then { r with fetch := .fetching chunk ahead (attempt + 1) }
  else { r with fetch := .fetched chunk false }

def choose : RangeReader :=
  if r.stop ∨ r.failed then { r with fetch := .returned }
  else
    match r.coverage.next with
    -- only a range ahead gives way
    | some chunk => { r with fetch := .fetching chunk (r.coverage.wanted ≠ some chunk) 1 }
    | none => r

/-- Whether `give_way` stops the fetch of a range. -/
def givesWay (chunk : ℕ) (ahead : Bool) : Prop := r.stop = true ∨ (ahead = true ∧ r.coverage.wantsFarFrom chunk = true)

instance (chunk : ℕ) (ahead : Bool) : Decidable (r.givesWay chunk ahead) := inferInstanceAs (Decidable (_ ∨ _))

def received (chunk : ℕ) (ahead : Bool) (attempt : ℕ) (bytes : List UInt8) (wrote : Option ℕ) : RangeReader :=
  let start := chunk * CHUNK
  let last := r.rangeEnd chunk - 1
  if bytes.length = last - start + 1 then
    match wrote with
    | none =>
      { r with file := writeAt r.file start bytes, writes := r.writes ++ [(start, bytes)], fetch := .fetched chunk true }
    | some some_ => { r with file := writeAt r.file start (bytes.take some_), fetch := .fetched chunk false }
  else r.attemptFailed chunk ahead attempt

/-- One event, where the fetch thread is at it. -/
def step (r : RangeReader) : Event → Option RangeReader
  | .read offset len => some (r.read offset len).1
  | .served offset n => if (offset, n) ∈ r.reads then some { r with reads := r.reads.erase (offset, n) } else none
  | .choose => if r.fetch = .choosing then some r.choose else none
  | .giveWay =>
    match r.fetch with
    | .fetching chunk ahead _ => some (if r.givesWay chunk ahead then { r with fetch := .choosing } else r)
    | _ => none
  | .refused =>
    match r.fetch with
    | .fetching chunk ahead attempt => some (r.attemptFailed chunk ahead attempt)
    | _ => none
  | .received bytes wrote =>
    match r.fetch with
    | .fetching chunk ahead attempt => some (r.received chunk ahead attempt bytes wrote)
    | _ => none
  | .finish =>
    match r.fetch with
    | .fetched chunk true => some { r with coverage := r.coverage.mark chunk, fetch := .choosing }
    | .fetched _ false => some { r with failed := true, fetch := .choosing }
    | _ => none
  | .drop => some { r with stop := true }

/-- The range that an event asks for: a read of a range that is not there. -/
def asks (r : RangeReader) : Event → Option ℕ
  | .read offset _ =>
    if offset < r.length ∧ r.failed = false ∧ r.coverage.has (offset / CHUNK) = false then some (offset / CHUNK) else none
  | _ => none

end RangeReader

end Mello.Core.ClipRangeReader
