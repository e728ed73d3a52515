import Mello.Core.AppIds
import Mello.Library.Extents

/-!
When the index answers right: the reader takes the low 32 bits of each number, so what it says of a file is right
where the numbers of the file have no more.
-/

namespace Mello.Core.AppIdAnswers
open Mello.Library LittleEndian Leb128 AppIds AppIdIndex

/-! ## Varints -/

theorem and_high_eq_zero_iff : ∀ byte : Byte, byte &&& 0x80 = 0 ↔ byte.toNat < 128 := by decide

theorem toNat_and_low (byte : Byte) : (byte &&& 0x7F).toNat = byte.toNat % 128 := by
  rw [BitVec.toNat_and]
  exact Nat.and_two_pow_sub_one_eq_mod byte.toNat 7

/-- Seven more bits, of which those past the 32nd are lost. -/
theorem or_shifted {x k : ℕ} (below : x < 2 ^ (7 * k)) (byte : Byte) :
    BitVec.ofNat 32 x ||| (byte &&& 0x7F).setWidth 32 <<< (7 * k) = BitVec.ofNat 32 (x + 2 ^ (7 * k) * (byte.toNat % 128)) := by
  have narrow : byte.toNat % 128 % 2 ^ 32 = byte.toNat % 128 := Nat.mod_eq_of_lt (by omega)
  have join : x ||| (byte.toNat % 128) <<< (7 * k) = x + 2 ^ (7 * k) * (byte.toNat % 128) := by
    rw [Nat.or_comm, ← Nat.shiftLeft_add_eq_or_of_lt below, Nat.shiftLeft_eq, Nat.add_comm, Nat.mul_comm]
  apply BitVec.eq_of_toNat_eq
  rw [BitVec.toNat_or, BitVec.toNat_shiftLeft, BitVec.toNat_setWidth, BitVec.toNat_ofNat, BitVec.toNat_ofNat, toNat_and_low, narrow,
    ← Nat.or_mod_two_pow, join]

/-- After `k` bytes. -/
theorem readVarintFrom_eq (bytes : List Byte) {x k : ℕ} (few : k ≤ 5) (below : x < 2 ^ (7 * k)) :
    readVarintFrom (BitVec.ofNat 32 x) (7 * k) bytes =
      (decode (5 - k) bytes).map fun (high, rest) => (BitVec.ofNat 32 (x + 2 ^ (7 * k) * high), rest) := by
  induction bytes generalizing x k with
  | nil =>
    rw [decode_nil]
    rfl
  | cons byte rest ih =>
    unfold readVarintFrom
    by_cases last : k = 5
    · rw [last]
      rfl
    · have room : ¬ 28 < 7 * k := by omega
      obtain ⟨more, left⟩ : ∃ more, 5 - k = more + 1 := ⟨4 - k, by omega⟩
      rw [if_neg room, left, decode_cons]
      dsimp only
      rw [or_shifted below]
      have small := byte.isLt
      split_ifs with ends short short
      · rw [Option.map_some, Nat.mod_eq_of_lt short]
      · exact absurd ((and_high_eq_zero_iff byte).mp ends) short
      · exact absurd ((and_high_eq_zero_iff byte).mpr short) ends
      · have power : 2 ^ (7 * (k + 1)) = 2 ^ (7 * k) * 128 := pow_add 2 (7 * k) 7
        have low : byte.toNat % 128 = byte.toNat - 128 := by omega
        have below' : x + 2 ^ (7 * k) * (byte.toNat % 128) < 2 ^ (7 * (k + 1)) := by
          calc x + 2 ^ (7 * k) * (byte.toNat % 128) < 2 ^ (7 * k) + 2 ^ (7 * k) * (byte.toNat % 128) := Nat.add_lt_add_right below _
            _ = 2 ^ (7 * k) * (byte.toNat % 128 + 1) := by ring
            _ ≤ 2 ^ (7 * k) * 128 := Nat.mul_le_mul_left _ (by omega)
            _ = 2 ^ (7 * (k + 1)) := power.symm
        have later := ih (show k + 1 ≤ 5 by omega) below'
        have left' : 5 - (k + 1) = more := by omega
        rw [left', power, low] at later
        rw [Option.map_map, low]
        refine later.trans (congrArg (Option.map · (decode more rest)) ?_)
        funext ⟨high, after⟩
        have same : x + 2 ^ (7 * k) * (byte.toNat - 128) + 2 ^ (7 * k) * 128 * high =
            x + 2 ^ (7 * k) * (byte.toNat - 128 + 128 * high) := by ring
        dsimp only [Function.comp_apply]
        rw [same]

/-- What is read is the low 32 bits of the number, where its bytes are at most five. -/
theorem readVarint_eq (bytes : List Byte) :
    readVarint bytes = (decode 5 bytes).map fun (n, rest) => (BitVec.ofNat 32 n, rest) := by
  have read := @readVarintFrom_eq bytes 0 0 (by decide) (by decide)
  simp only [Nat.mul_zero, pow_zero, one_mul, Nat.zero_add, Nat.sub_zero] at read
  exact read

/-! ## What a file declares -/

/-- The pairs of numbers that the bytes begin with. -/
def declaredPairs : ℕ → List Byte → Option (List (ℕ × ℕ))
  | 0, _ => some []
  | count + 1, bytes => do
    let (delta, next) ← decode 5 bytes
    let (gid, next) ← decode 5 next
    let rest ← declaredPairs count next
    return (delta, gid) :: rest

/-- The pairs with the sums of the differences. -/
def running : ℕ → List (ℕ × ℕ) → List (ℕ × ℕ)
  | _, [] => []
  | appid, (delta, gid) :: rest => (appid + delta, gid) :: running (appid + delta) rest

/-- The magic is right and the body starts with the declared count of pairs. -/
structure Declares (bytes : List Byte) (pairs : List (ℕ × ℕ)) : Prop where
  header : INDEX_HEADER_LEN ≤ bytes.length
  magic : bytes.take 4 = MAGIC_INDEX
  body : declaredPairs (number ((bytes.drop 4).take 4)) (bytes.drop INDEX_HEADER_LEN) = some pairs

/-- The numbers and the sums have 32 bits. -/
structure WellFormed (bytes : List Byte) (pairs : List (ℕ × ℕ)) : Prop where
  declares : Declares bytes pairs
  fits : ∀ p ∈ pairs, p.1 < 2 ^ 32 ∧ p.2 < 2 ^ 32
  sums : ∀ p ∈ running 0 pairs, p.1 < 2 ^ 32

/-- The index answers for these pairs of appids and ids. -/
structure Answers (index : AppIdIndex) (entries : List (ℕ × ℕ)) : Prop where
  igdbId : ∀ a g : BitVec 32, index.igdbId a = some g ↔ (a.toNat, g.toNat) ∈ entries
  ascending : ∀ g, ((index.appidsForIgdb g).map BitVec.toNat).Pairwise (· < ·)
  appids : ∀ a g : BitVec 32, a ∈ index.appidsForIgdb g ↔ (a.toNat, g.toNat) ∈ entries

/-! ## The reader's pairs -/

/-- The pairs with the sums that the reader keeps. -/
def sums : BitVec 32 → List (ℕ × ℕ) → Option (List (BitVec 32 × BitVec 32))
  | _, [] => some []
  | appid, (delta, gid) :: rest => do
    let appid ← checkedAdd appid (BitVec.ofNat 32 delta)
    let rest ← sums appid rest
    return (appid, BitVec.ofNat 32 gid) :: rest

/-- Pairs as the reader keeps them. -/
def flat (pairs : List (BitVec 32 × BitVec 32)) : List Byte := pairs.flatMap fun p => wordBytes 4 p.1 ++ wordBytes 4 p.2

theorem readPairs_eq (count : ℕ) (appid : BitVec 32) (bytes : List Byte) :
    readPairs count appid bytes = ((declaredPairs count bytes).bind (sums appid)).map flat := by
  induction count generalizing appid bytes with
  | zero => rfl
  | succ count ih =>
    rw [readPairs, declaredPairs, readVarint_eq]
    cases first : decode 5 bytes with
    | none => rfl
    | some pair =>
      obtain ⟨delta, next⟩ := pair
      dsimp only [Option.map_some, Option.bind_eq_bind, Option.bind_some]
      rw [readVarint_eq]
      cases second : decode 5 next with
      | none => rfl
      | some pair =>
        obtain ⟨gid, next⟩ := pair
        dsimp only [Option.map_some, Option.bind_eq_bind, Option.bind_some]
        cases pairs : declaredPairs count next with
        | none =>
          cases checkedAdd appid (BitVec.ofNat 32 delta) with
          | none => rfl
          | some appid =>
            dsimp only [Option.bind_some]
            rw [ih, pairs]
            rfl
        | some pairs' =>
          change _ = Option.map flat (sums appid ((delta, gid) :: pairs'))
          rw [sums]
          cases checkedAdd appid (BitVec.ofNat 32 delta) with
          | none => rfl
          | some appid =>
            dsimp only [Option.bind_eq_bind, Option.bind_some]
            rw [ih, pairs, Option.bind_some]
            cases sums appid pairs' with
            | none => rfl
            | some kept => rfl

theorem length_declaredPairs {count : ℕ} {bytes : List Byte} {pairs : List (ℕ × ℕ)} (declared : declaredPairs count bytes = some pairs) :
    pairs.length = count := by
  induction count generalizing bytes pairs with
  | zero =>
    obtain rfl := Option.some.inj declared
    rfl
  | succ count ih =>
    rw [declaredPairs] at declared
    obtain ⟨⟨delta, next⟩, -, declared⟩ := Option.bind_eq_some_iff.mp declared
    obtain ⟨⟨gid, next⟩, -, declared⟩ := Option.bind_eq_some_iff.mp declared
    obtain ⟨rest, later, same⟩ := Option.bind_eq_some_iff.mp declared
    obtain rfl := Option.some.inj same
    exact congrArg (· + 1) (ih later)

section Sums

variable {appid : BitVec 32} {pairs : List (ℕ × ℕ)} {kept : List (BitVec 32 × BitVec 32)}

/-- The sum of the differences, each of them cut to 32 bits. -/
def cutSum (pairs : List (ℕ × ℕ)) : ℕ := (pairs.map fun p => p.1 % 2 ^ 32).sum

theorem checkedAdd_of_lt {a b : BitVec 32} (fits : a.toNat + b.toNat < 2 ^ 32) :
    checkedAdd a b = some (a + b) ∧ (a + b).toNat = a.toNat + b.toNat := by
  refine ⟨if_pos fits, ?_⟩
  rw [BitVec.toNat_add, Nat.mod_eq_of_lt fits]

/-- The reader keeps the pairs exactly where their sum has 32 bits. -/
theorem isSome_sums_iff : (sums appid pairs).isSome = true ↔ appid.toNat + cutSum pairs < 2 ^ 32 := by
  induction pairs generalizing appid with
  | nil => exact iff_of_true rfl appid.isLt
  | cons pair rest ih =>
    have sum : cutSum (pair :: rest) = pair.1 % 2 ^ 32 + cutSum rest := rfl
    have cut : (BitVec.ofNat 32 pair.1).toNat = pair.1 % 2 ^ 32 := BitVec.toNat_ofNat ..
    rw [sums, sum]
    by_cases fits : appid.toNat + (BitVec.ofNat 32 pair.1).toNat < 2 ^ 32
    · obtain ⟨added, total⟩ := checkedAdd_of_lt fits
      rw [added, Option.bind_eq_bind, Option.bind_some, ← Nat.add_assoc, ← cut, ← total, ← ih]
      cases sums (appid + BitVec.ofNat 32 pair.1) rest with
      | _ => rfl
    · rw [checkedAdd, if_neg fits]
      exact iff_of_false nofun (by omega)

theorem length_sums (kept_ : sums appid pairs = some kept) : kept.length = pairs.length := by
  induction pairs generalizing appid kept with
  | nil =>
    obtain rfl := Option.some.inj kept_
    rfl
  | cons pair rest ih =>
    rw [sums] at kept_
    obtain ⟨next, -, kept_⟩ := Option.bind_eq_some_iff.mp kept_
    obtain ⟨later, known, same⟩ := Option.bind_eq_some_iff.mp kept_
    obtain rfl := Option.some.inj same
    exact congrArg (· + 1) (ih known)

/-- Where the numbers have 32 bits, the kept pairs are those of the file. -/
theorem map_sums (fits : ∀ p ∈ pairs, p.1 < 2 ^ 32 ∧ p.2 < 2 ^ 32) (kept_ : sums appid pairs = some kept) :
    kept.map (fun p => (p.1.toNat, p.2.toNat)) = running appid.toNat pairs := by
  induction pairs generalizing appid kept with
  | nil =>
    obtain rfl := Option.some.inj kept_
    rfl
  | cons pair rest ih =>
    obtain ⟨here, later⟩ := List.forall_mem_cons.mp fits
    rw [sums] at kept_
    obtain ⟨next, added, kept_⟩ := Option.bind_eq_some_iff.mp kept_
    obtain ⟨tail, known, same⟩ := Option.bind_eq_some_iff.mp kept_
    obtain rfl := Option.some.inj same
    have delta : (BitVec.ofNat 32 pair.1).toNat = pair.1 := (BitVec.toNat_ofNat ..).trans (Nat.mod_eq_of_lt here.1)
    have gid : (BitVec.ofNat 32 pair.2).toNat = pair.2 := (BitVec.toNat_ofNat ..).trans (Nat.mod_eq_of_lt here.2)
    have sum : next.toNat = appid.toNat + pair.1 := by
      unfold checkedAdd at added
      split_ifs at added with inside
      obtain rfl := Option.some.inj added
      rw [(checkedAdd_of_lt inside).2, delta]
    rw [List.map_cons, ih later known, running, sum, gid]

theorem cutSum_of_fits (fits : ∀ p ∈ pairs, p.1 < 2 ^ 32) : cutSum pairs = (pairs.map Prod.fst).sum := by
  unfold cutSum
  congr 1
  exact List.map_congr_left fun p member => Nat.mod_eq_of_lt (fits p member)

/-- The last sum is the largest. -/
theorem running_lt_iff (start : ℕ) (bound : start < 2 ^ 32) :
    (∀ p ∈ running start pairs, p.1 < 2 ^ 32) ↔ start + (pairs.map Prod.fst).sum < 2 ^ 32 := by
  induction pairs generalizing start with
  | nil => exact iff_of_true nofun bound
  | cons pair rest ih =>
    rw [running, List.forall_mem_cons, List.map_cons, List.sum_cons, ← Nat.add_assoc]
    by_cases fits : start + pair.1 < 2 ^ 32
    · rw [ih _ fits]
      exact and_iff_right fits
    · exact iff_of_false (fun all => fits all.1) (by omega)

end Sums

/-! ## Lookups -/

section Lookups

variable {kept : List (BitVec 32 × BitVec 32)}

theorem length_pair (p : BitVec 32 × BitVec 32) : (wordBytes 4 p.1 ++ wordBytes 4 p.2).length = INDEX_PAIR_LEN := by
  rw [List.length_append, length_wordBytes, length_wordBytes]
  rfl

theorem length_flat : (flat kept).length = INDEX_PAIR_LEN * kept.length := by
  rw [Nat.mul_comm]
  exact Extents.length_blocks fun p _ => length_pair p

theorem drop_flat (i : ℕ) : (flat kept).drop (i * INDEX_PAIR_LEN) = flat (kept.drop i) := Extents.drop_blocks (fun p _ => length_pair p) i

theorem u32At_flat {i : ℕ} (inside : i < kept.length) :
    u32At (flat kept) (i * INDEX_PAIR_LEN) = some (kept[i]).1 ∧ u32At (flat kept) (i * INDEX_PAIR_LEN + 4) = some (kept[i]).2 := by
  have room : i * INDEX_PAIR_LEN + 4 + 4 ≤ (flat kept).length := by
    rw [length_flat]
    unfold INDEX_PAIR_LEN
    omega
  have tail : kept.drop i = kept[i] :: kept.drop (i + 1) := List.drop_eq_getElem_cons inside
  have bytes : (flat kept).drop (i * INDEX_PAIR_LEN) = wordBytes 4 (kept[i]).1 ++ (wordBytes 4 (kept[i]).2 ++ flat (kept.drop (i + 1))) := by
    rw [drop_flat, tail, flat, List.flatMap_cons, List.append_assoc]
    rfl
  unfold u32At
  constructor
  · rw [if_pos (by omega), bytes]
    exact congrArg some (word_wordBytes_append 4 (kept[i]).1 _)
  · rw [if_pos room, ← List.drop_drop, bytes, List.drop_left' (length_wordBytes 4 (kept[i]).1)]
    exact congrArg some (word_wordBytes_append 4 (kept[i]).2 _)

/-- The index of the kept pairs. -/
def indexOf (kept : List (BitVec 32 × BitVec 32)) : AppIdIndex := ⟨flat kept, kept.length⟩

theorem igdbId_indexOf (ascending : (kept.map fun p => p.1.toNat).Pairwise (· < ·)) (a g : BitVec 32) :
    (indexOf kept).igdbId a = some g ↔ (a, g) ∈ kept := by
  have reads : ∀ j < (kept.map fun p => p.1.toNat).length,
      (u32At (flat kept) (j * INDEX_PAIR_LEN)).map BitVec.toNat = (kept.map fun p => p.1.toNat)[j]? := by
    intro j inside
    rw [List.length_map] at inside
    rw [(u32At_flat inside).1, List.getElem?_map, List.getElem?_eq_getElem inside]
    rfl
  have found (i : ℕ) := @BinarySearch.search_eq_some_iff ℕ _ _ a.toNat i _ ascending reads
  rw [List.length_map] at found
  unfold AppIdIndex.igdbId
  rw [Option.bind_eq_some_iff]
  constructor
  · rintro ⟨i, here, there⟩
    have known := (found i).mp here
    rw [List.getElem?_map] at known
    obtain ⟨p, at_, same⟩ := Option.map_eq_some_iff.mp known
    obtain ⟨inside, rfl⟩ := List.getElem?_eq_some_iff.mp at_
    have second := (u32At_flat inside).2.symm.trans there
    obtain rfl := Option.some.inj second
    obtain rfl := BitVec.eq_of_toNat_eq same
    exact List.getElem_mem inside
  · intro member
    obtain ⟨i, inside, same⟩ := List.mem_iff_getElem.mp member
    refine ⟨i, (found i).mpr ?_, ?_⟩
    · rw [List.getElem?_map, List.getElem?_eq_getElem inside, same]
      rfl
    · refine (u32At_flat inside).2.trans ?_
      rw [same]

/-- A list by its positions. -/
theorem filterMap_range {α β : Type*} (f : α → Option β) (items : List α) :
    (List.range items.length).filterMap (fun i => items[i]?.bind f) = items.filterMap f := by
  induction items with
  | nil => rfl
  | cons first rest ih =>
    rw [List.length_cons, List.range_succ_eq_map, List.filterMap_cons, List.filterMap_map, List.filterMap_cons, ← ih]
    rfl

theorem appidsForIgdb_indexOf (g : BitVec 32) :
    (indexOf kept).appidsForIgdb g = kept.filterMap fun p => if p.2 = g then some p.1 else none := by
  rw [← filterMap_range]
  unfold appidsForIgdb
  apply List.filterMap_congr
  intro i member
  have inside : i < kept.length := List.mem_range.mp member
  obtain ⟨first, second⟩ := u32At_flat inside
  change (u32At (flat kept) (i * INDEX_PAIR_LEN + 4)).bind (fun id => if id = g then u32At (flat kept) (i * INDEX_PAIR_LEN) else none) = _
  rw [first, second, List.getElem?_eq_getElem inside]
  rfl

theorem answers_indexOf (ascending : (kept.map fun p => p.1.toNat).Pairwise (· < ·)) :
    Answers (indexOf kept) (kept.map fun p => (p.1.toNat, p.2.toNat)) := by
  have same (a g : BitVec 32) : (a.toNat, g.toNat) ∈ kept.map (fun p => (p.1.toNat, p.2.toNat)) ↔ (a, g) ∈ kept := by
    rw [List.mem_map]
    constructor
    · rintro ⟨⟨a', g'⟩, member, same⟩
      obtain ⟨first, second⟩ := Prod.mk.inj same
      rw [← BitVec.eq_of_toNat_eq first, ← BitVec.eq_of_toNat_eq second]
      exact member
    · intro member
      exact ⟨(a, g), member, rfl⟩
  exact {
    igdbId := fun a g => (igdbId_indexOf ascending a g).trans (same a g).symm
    ascending := fun g => by
      rw [appidsForIgdb_indexOf, List.map_filterMap, List.pairwise_filterMap]
      refine (List.pairwise_map.mp ascending).imp fun {p q} less first here second there => ?_
      split_ifs at here with matching
      · split_ifs at there
        · obtain rfl := Option.some.inj here
          obtain rfl := Option.some.inj there
          exact less
        · cases there
      · cases here
    appids := fun a g => by
      rw [appidsForIgdb_indexOf, same, List.mem_filterMap]
      constructor
      · rintro ⟨⟨a', g'⟩, member, chosen⟩
        split_ifs at chosen with matching
        obtain rfl := Option.some.inj chosen
        obtain rfl : g' = g := matching
        exact member
      · intro member
        exact ⟨(a, g), member, if_pos rfl⟩ }

end Lookups

/-! ## Any file -/

theorem parse_eq (bytes : List Byte) (header : INDEX_HEADER_LEN ≤ bytes.length) (magic : bytes.take 4 = MAGIC_INDEX) :
    parse bytes = ((declaredPairs (number ((bytes.drop 4).take 4)) (bytes.drop INDEX_HEADER_LEN)).bind (sums 0)).map indexOf := by
  have known : ¬ (bytes.length < INDEX_HEADER_LEN ∨ bytes.take 4 ≠ MAGIC_INDEX) := by
    rintro (short | other)
    · exact absurd header (not_le.mpr short)
    · exact other magic
  have count : u32At bytes 4 = some (word 4 (bytes.drop 4)) := if_pos header
  unfold parse
  rw [if_neg known, count, Option.bind_eq_bind, Option.bind_some, toNat_word, readPairs_eq]
  cases declared : declaredPairs (number ((bytes.drop 4).take 4)) (bytes.drop INDEX_HEADER_LEN) with
  | none => rfl
  | some pairs =>
    rw [Option.bind_some]
    cases kept : sums 0 pairs with
    | none => rfl
    | some kept' =>
      rw [← length_declaredPairs declared, ← length_sums kept]
      rfl

/-- A number of the file has more than 32 bits, and the sum of the differences cut to 32 bits does not. -/
def Wraps (bytes : List Byte) : Prop :=
  ∃ pairs, Declares bytes pairs ∧ (∃ p ∈ pairs, 2 ^ 32 ≤ p.1 ∨ 2 ^ 32 ≤ p.2) ∧ cutSum pairs < 2 ^ 32

/-- The file is read exactly where it is well-formed, and the index answers for its pairs. -/
structure NeverWrong (bytes : List Byte) : Prop where
  read : (parse bytes).isSome = true ↔ ∃ pairs, WellFormed bytes pairs
  answers : ∀ index pairs, parse bytes = some index → Declares bytes pairs → ((running 0 pairs).map Prod.fst).Pairwise (· < ·) →
    Answers index (running 0 pairs)

section File

variable {bytes : List Byte} {pairs : List (ℕ × ℕ)}

theorem Declares.reads (declares : Declares bytes pairs) : parse bytes = (sums 0 pairs).map indexOf := by
  rw [parse_eq bytes declares.header declares.magic, declares.body]
  rfl

theorem Declares.unique (declares : Declares bytes pairs) {others : List (ℕ × ℕ)} (declares' : Declares bytes others) :
    pairs = others := Option.some.inj (declares.body.symm.trans declares'.body)

/-- What is read declares its pairs. -/
theorem declares_of_parse {index : AppIdIndex} (parsed : parse bytes = some index) : ∃ pairs, Declares bytes pairs := by
  have header : INDEX_HEADER_LEN ≤ bytes.length ∧ bytes.take 4 = MAGIC_INDEX := by
    by_contra bad
    unfold AppIdIndex.parse at parsed
    rw [if_pos] at parsed
    · cases parsed
    · rw [not_and_or, not_le] at bad
      exact bad
  obtain ⟨header, magic⟩ := header
  rw [parse_eq bytes header magic] at parsed
  obtain ⟨kept, bound, -⟩ := Option.map_eq_some_iff.mp parsed
  obtain ⟨pairs, body, -⟩ := Option.bind_eq_some_iff.mp bound
  exact ⟨pairs, header, magic, body⟩

theorem Declares.isSome_iff (declares : Declares bytes pairs) : (parse bytes).isSome = true ↔ cutSum pairs < 2 ^ 32 := by
  rw [declares.reads, Option.isSome_map, isSome_sums_iff]
  exact iff_of_eq (congrArg (· < 2 ^ 32) (Nat.zero_add _))

/-- With numbers of 32 bits the file is well-formed where their sum has 32 bits too. -/
theorem Declares.wellFormed (declares : Declares bytes pairs) (fits : ∀ p ∈ pairs, p.1 < 2 ^ 32 ∧ p.2 < 2 ^ 32)
    (sum : cutSum pairs < 2 ^ 32) : WellFormed bytes pairs where
  declares := declares
  fits := fits
  sums := by
    rw [running_lt_iff 0 (by decide), Nat.zero_add, ← cutSum_of_fits fun p member => (fits p member).1]
    exact sum

theorem WellFormed.sum (formed : WellFormed bytes pairs) : cutSum pairs < 2 ^ 32 := by
  have all := (running_lt_iff 0 (by decide)).mp formed.sums
  rw [Nat.zero_add] at all
  rw [cutSum_of_fits fun p member => (formed.fits p member).1]
  exact all

/-- The pairs of a file that wraps no number, where it is read, have 32 bits. -/
theorem fits_of_not_wraps (none' : ¬ Wraps bytes) (declares : Declares bytes pairs) (sum : cutSum pairs < 2 ^ 32) :
    ∀ p ∈ pairs, p.1 < 2 ^ 32 ∧ p.2 < 2 ^ 32 := by
  intro p member
  by_contra large
  exact none' ⟨pairs, declares, ⟨p, member, by omega⟩, sum⟩

theorem neverWrong_iff : NeverWrong bytes ↔ ¬ Wraps bytes := by
  constructor
  · rintro ⟨read, -⟩ ⟨pairs, declares, ⟨p, member, large⟩, sum⟩
    obtain ⟨others, formed⟩ := read.mp (declares.isSome_iff.mpr sum)
    obtain rfl := declares.unique formed.declares
    have small := formed.fits p member
    omega
  · intro none'
    refine ⟨⟨fun some' => ?_, ?_⟩, ?_⟩
    · obtain ⟨index, parsed⟩ := Option.isSome_iff_exists.mp some'
      obtain ⟨pairs, declares⟩ := declares_of_parse parsed
      have sum := declares.isSome_iff.mp some'
      exact ⟨pairs, declares.wellFormed (fits_of_not_wraps none' declares sum) sum⟩
    · rintro ⟨pairs, formed⟩
      exact formed.declares.isSome_iff.mpr formed.sum
    · intro index pairs parsed declares ascending
      have sum := declares.isSome_iff.mp (Option.isSome_iff_exists.mpr ⟨index, parsed⟩)
      have fits := fits_of_not_wraps none' declares sum
      rw [declares.reads] at parsed
      obtain ⟨kept, known, rfl⟩ := Option.map_eq_some_iff.mp parsed
      have same := map_sums fits known
      change _ = running 0 pairs at same
      rw [← same] at ascending ⊢
      refine answers_indexOf ?_
      rw [List.map_map] at ascending
      exact ascending

end File

/-! ## What the build script packs -/

theorem varint_eq (n : ℕ) : varint n = encode n := by
  induction n using encode.induct with
  | case1 n small =>
    have none' : n >>> 7 = 0 := by
      have := Nat.shiftRight_eq_div_pow n 7
      omega
    rw [encode_of_lt small, varint, if_pos none', show n &&& 0x7F = n % 128 from Nat.and_two_pow_sub_one_eq_mod n 7, Nat.mod_eq_of_lt small]
  | case2 n large ih =>
    have shifted : n >>> 7 = n / 128 := Nat.shiftRight_eq_div_pow n 7
    have high : n % 128 ||| 0x80 = n % 128 + 128 := by
      rw [Nat.or_comm, Nat.add_comm]
      exact (Nat.two_pow_add_eq_or_of_lt (Nat.mod_lt n (by decide : 0 < 2 ^ 7)) 1).symm
    rw [encode_of_le (not_lt.mp large), varint, shifted, if_neg (by omega), show n &&& 0x7F = n % 128 from Nat.and_two_pow_sub_one_eq_mod n 7, high, ih]

/-- The differences of the appids, with the ids. -/
def deltas : ℕ → List (ℕ × ℕ) → List (ℕ × ℕ)
  | _, [] => []
  | prev, (appid, gid) :: rest => (appid - prev, gid) :: deltas appid rest

section Packed

variable {pairs : List (ℕ × ℕ)}

theorem declaredPairs_pairsBody (fits : ∀ p ∈ pairs, p.1 < 2 ^ 32 ∧ p.2 < 2 ^ 32) (prev : ℕ) :
    declaredPairs pairs.length (pairsBody prev pairs) = some (deltas prev pairs) := by
  induction pairs generalizing prev with
  | nil => rfl
  | cons pair rest ih =>
    obtain ⟨appid, gid⟩ := pair
    obtain ⟨⟨appid32, gid32⟩, later⟩ := List.forall_mem_cons.mp fits
    have wide : 2 ^ 32 ≤ 128 ^ (4 + 1) := by decide
    have delta : decode 5 (varint (appid - prev) ++ (varint gid ++ pairsBody appid rest)) =
        some (appid - prev, varint gid ++ pairsBody appid rest) := by
      rw [varint_eq]
      exact decode_encode_append (((Nat.sub_le appid prev).trans_lt appid32).trans_le wide) _
    have id : decode 5 (varint gid ++ pairsBody appid rest) = some (gid, pairsBody appid rest) := by
      rw [varint_eq]
      exact decode_encode_append (gid32.trans_le wide) _
    rw [List.length_cons, declaredPairs, pairsBody, List.append_assoc, delta, Option.bind_eq_bind, Option.bind_some]
    dsimp only
    rw [id, Option.bind_some, ih later]
    rfl

/-- The sums of the differences are the appids again. -/
theorem running_deltas {prev : ℕ} (low : ∀ p ∈ pairs, prev ≤ p.1) (ascending : (pairs.map Prod.fst).Pairwise (· < ·)) :
    running prev (deltas prev pairs) = pairs := by
  induction pairs generalizing prev with
  | nil => rfl
  | cons pair rest ih =>
    obtain ⟨first, later⟩ := List.pairwise_cons.mp ascending
    have back : prev + (pair.1 - prev) = pair.1 := Nat.add_sub_cancel' (low pair List.mem_cons_self)
    rw [deltas, running, back, ih (fun p member => (first p.1 (List.mem_map_of_mem member)).le) later]

theorem deltas_fits (fits : ∀ p ∈ pairs, p.1 < 2 ^ 32 ∧ p.2 < 2 ^ 32) (prev : ℕ) :
    ∀ p ∈ deltas prev pairs, p.1 < 2 ^ 32 ∧ p.2 < 2 ^ 32 := by
  induction pairs generalizing prev with
  | nil => exact nofun
  | cons pair rest ih =>
    obtain ⟨here, later⟩ := List.forall_mem_cons.mp fits
    exact List.forall_mem_cons.mpr ⟨⟨(Nat.sub_le _ _).trans_lt here.1, here.2⟩, ih later pair.1⟩

/-- The packed file of pairs in ascending order. -/
theorem wellFormed_packed (few : pairs.length < 2 ^ 32) (fits : ∀ p ∈ pairs, p.1 < 2 ^ 32 ∧ p.2 < 2 ^ 32)
    (ascending : (pairs.map Prod.fst).Pairwise (· < ·)) :
    WellFormed (MAGIC_INDEX ++ wordBytes 4 (BitVec.ofNat 32 pairs.length) ++ pairsBody 0 pairs) (deltas 0 pairs) := by
  have count : number (wordBytes 4 (BitVec.ofNat 32 pairs.length)) = pairs.length := by
    rw [wordBytes, number_digits, BitVec.toNat_ofNat, Nat.mod_eq_of_lt few]
    exact Nat.mod_eq_of_lt few
  have size : (wordBytes 4 (BitVec.ofNat 32 pairs.length)).length = 4 := length_wordBytes 4 _
  refine ⟨⟨?_, ?_, ?_⟩, deltas_fits fits 0, ?_⟩
  · rw [List.length_append, List.length_append, size]
    exact Nat.le_add_right _ _
  · rw [List.append_assoc]
    exact List.take_left' rfl
  · have words : (MAGIC_INDEX ++ wordBytes 4 (BitVec.ofNat 32 pairs.length) ++ pairsBody 0 pairs).drop 4 =
        wordBytes 4 (BitVec.ofNat 32 pairs.length) ++ pairsBody 0 pairs := by
      rw [List.append_assoc]
      exact List.drop_left' rfl
    have body : (MAGIC_INDEX ++ wordBytes 4 (BitVec.ofNat 32 pairs.length) ++ pairsBody 0 pairs).drop INDEX_HEADER_LEN =
        pairsBody 0 pairs := by
      refine List.drop_left' ?_
      rw [List.length_append, size]
      rfl
    rw [words, body, List.take_left' size, count]
    exact declaredPairs_pairsBody fits 0
  · rw [running_deltas (fun p _ => Nat.zero_le p.1) ascending]
    exact fun p member => (fits p member).1

theorem tupleLe_iff (p q : ℕ × ℕ) : tupleLe p q = true ↔ p.1 < q.1 ∨ p.1 = q.1 ∧ p.2 ≤ q.2 := decide_eq_true_iff

/-- The items of a map, sorted, have their keys in ascending order. -/
theorem ascending_mergeSort {steam : List (ℕ × ℕ)} (distinct : (steam.map Prod.fst).Nodup) :
    ((steam.mergeSort tupleLe).map Prod.fst).Pairwise (· < ·) := by
  have sorted : (steam.mergeSort tupleLe).Pairwise fun p q => tupleLe p q := by
    refine List.pairwise_mergeSort ?_ ?_ steam
    · intro p q r first second
      rw [tupleLe_iff] at *
      omega
    · intro p q
      rw [Bool.or_eq_true, tupleLe_iff, tupleLe_iff]
      omega
  have nodup : ((steam.mergeSort tupleLe).map Prod.fst).Pairwise (· ≠ ·) := ((List.mergeSort_perm steam tupleLe).map Prod.fst).nodup_iff.mpr distinct
  rw [List.pairwise_map] at nodup ⊢
  refine sorted.imp₂ (fun p q le ne => ?_) nodup
  rw [tupleLe_iff] at le
  omega

end Packed

/-! ## Files and maps -/

/-- The index of a map is packed, and answers for exactly the map. -/
def Survives (steam : List (ℕ × ℕ)) : Prop :=
  ∃ bytes index, buildAppidIndex steam = some bytes ∧ parse bytes = some index ∧ Answers index steam

theorem survives_of_lt {steam : List (ℕ × ℕ)} (distinct : (steam.map Prod.fst).Nodup)
    (fits : ∀ p ∈ steam, p.1 < 2 ^ 32 ∧ p.2 < 2 ^ 32) (few : steam.length < 2 ^ 32) : Survives steam := by
  have perm := List.mergeSort_perm steam tupleLe
  have ascending := ascending_mergeSort distinct
  have fits' : ∀ p ∈ steam.mergeSort tupleLe, p.1 < 2 ^ 32 ∧ p.2 < 2 ^ 32 := fun p member => fits p (perm.mem_iff.mp member)
  have few' : (steam.mergeSort tupleLe).length < 2 ^ 32 := perm.length_eq ▸ few
  have formed := wellFormed_packed few' fits' ascending
  have total := running_deltas (fun p _ => Nat.zero_le p.1) ascending
  have never : NeverWrong (MAGIC_INDEX ++ wordBytes 4 (BitVec.ofNat 32 (steam.mergeSort tupleLe).length) ++
      pairsBody 0 (steam.mergeSort tupleLe)) := by
    rw [neverWrong_iff]
    rintro ⟨others, declares, ⟨p, member, large⟩, -⟩
    obtain rfl := formed.declares.unique declares
    have small := formed.fits p member
    omega
  obtain ⟨index, parsed⟩ := Option.isSome_iff_exists.mp (never.read.mpr ⟨_, formed⟩)
  have answers := never.answers index _ parsed formed.declares (total.symm ▸ ascending)
  rw [total] at answers
  refine ⟨_, index, if_pos few', parsed, ?_⟩
  exact {
    igdbId := fun a g => (answers.igdbId a g).trans perm.mem_iff
    ascending := answers.ascending
    appids := fun a g => (answers.appids a g).trans perm.mem_iff }

/-- A file is read as it should be unless it wraps a number: a declared number has more than 32 bits, and the sum of the
differences, each cut to 32 bits, does not. A map is packed and read back where its count has 32 bits. -/
theorem appid_index_iff (bytes : List Byte) (steam : List (ℕ × ℕ)) :
    (NeverWrong bytes ↔ ¬ Wraps bytes) ∧
      ((steam.map Prod.fst).Nodup → (∀ p ∈ steam, p.1 < 2 ^ 32 ∧ p.2 < 2 ^ 32) → (Survives steam ↔ steam.length < 2 ^ 32)) := by
  refine ⟨neverWrong_iff, fun distinct fits => ⟨?_, survives_of_lt distinct fits⟩⟩
  rintro ⟨bytes, index, built, -⟩
  unfold buildAppidIndex at built
  dsimp only at built
  split_ifs at built with few
  exact (List.mergeSort_perm steam tupleLe).length_eq ▸ few

/-- One pair whose difference is 2³⁵ - 1. -/
def wideDelta : List Byte := MAGIC_INDEX ++ [1, 0, 0, 0, 0xFF, 0xFF, 0xFF, 0xFF, 0x7F, 1]

theorem wideDelta_read : ¬ ∀ bytes, NeverWrong bytes := by
  intro all
  have declares : Declares wideDelta [(2 ^ 35 - 1, 1)] := ⟨by decide, by decide, by decide⟩
  obtain ⟨pairs, formed⟩ := (all wideDelta).read.mp (by decide)
  obtain rfl := declares.unique formed.declares
  exact absurd (formed.fits _ List.mem_cons_self).1 (by decide)

end Mello.Core.AppIdAnswers
