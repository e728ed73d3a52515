import Mello.Transport.Twcc

/-!
The packet status chunks. What `encode_status_chunks` writes, the parser's first
pass reads back symbol for symbol, whatever mix of the three chunk shapes the
greedy encoder picks; and it never needs more than one chunk for 7 symbols.
-/

namespace Mello.Transport.TwccChunks
open Mello.Library Twcc

/-! ## Bytes at an offset -/

theorem ok_bind {α β ε : Type} (a : α) (f : α → Except ε β) :
    (Except.ok a >>= f) = f a := rfl

theorem byteAt_of_drop {data rest : List Byte} {i : Nat} {byte : Byte}
    (here : data.drop i = byte :: rest) : byteAt data i = .ok byte := by
  have found : data[i]? = some byte := by
    rw [← List.head?_drop, here]
    rfl
  simp only [byteAt, found]

theorem drop_succ_of_drop {data rest : List Byte} {i : Nat} {byte : Byte}
    (here : data.drop i = byte :: rest) : data.drop (i + 1) = rest := by
  rw [← List.drop_drop, here]
  rfl

theorem drop_add_of_drop {data front rest : List Byte} {i : Nat}
    (here : data.drop i = front ++ rest) : data.drop (i + front.length) = rest := by
  rw [← List.drop_drop, here, List.drop_left]

theorem extract_append_16 (v : BitVec 16) : v.extractLsb' 8 8 ++ v.extractLsb' 0 8 = v := by
  apply BitVec.eq_of_toNat_eq
  have bound := v.isLt
  simp only [BitVec.toNat_append, BitVec.extractLsb'_toNat, Nat.shiftRight_eq_div_pow,
    Nat.shiftLeft_eq]
  rw [← Nat.shiftLeft_eq, ← Nat.shiftLeft_add_eq_or_of_lt (Nat.mod_lt _ (by decide)),
    Nat.shiftLeft_eq]
  omega

theorem readU16_of_drop {data rest : List Byte} {i : Nat} {v : BitVec 16}
    (here : data.drop i = u16Bytes v ++ rest) : readU16 data i = .ok v := by
  have second : data.drop (i + 1) = v.extractLsb' 0 8 :: rest := drop_succ_of_drop here
  simp only [readU16, byteAt_of_drop here, byteAt_of_drop second]
  exact congrArg Except.ok (extract_append_16 v)

@[simp] theorem u16Bytes_length (v : BitVec 16) : (u16Bytes v).length = 2 := rfl

/-! ## One chunk -/

/-- The three status symbols a report can carry. -/
def IsSymbol (symbol : Byte) : Prop :=
  symbol = kNotReceived ∨ symbol = kSmallDelta ∨ symbol = kLargeDelta

theorem IsSymbol.toNat_lt {symbol : Byte} (valid : IsSymbol symbol) : symbol.toNat < 3 := by
  rcases valid with rfl | rfl | rfl <;> decide

theorem toNat_runLengthChunk {symbol : Byte} {run : Nat} (valid : IsSymbol symbol)
    (short : run ≤ 0x1fff) : (runLengthChunk symbol run).toNat = symbol.toNat * 8192 + run := by
  have small := valid.toNat_lt
  rw [runLengthChunk, BitVec.toNat_or, BitVec.toNat_shiftLeft, BitVec.toNat_setWidth,
    BitVec.toNat_ofNat, Nat.mod_eq_of_lt (a := run) (by omega),
    Nat.mod_eq_of_lt (a := symbol.toNat) (by omega), Nat.mod_eq_of_lt,
    ← Nat.shiftLeft_add_eq_or_of_lt (by omega), Nat.shiftLeft_eq]
  rw [Nat.shiftLeft_eq]
  omega

theorem and_top_eq_zero_iff (chunk : BitVec 16) :
    chunk &&& 0x8000#16 = 0 ↔ chunk.getLsbD 15 = false := by
  rw [show 0x8000#16 = BitVec.twoPow 16 15 by decide, BitVec.and_twoPow]
  cases chunk.getLsbD 15 <;> decide

theorem and_second_eq_zero_iff (chunk : BitVec 16) :
    chunk &&& 0x4000#16 = 0 ↔ chunk.getLsbD 14 = false := by
  rw [show 0x4000#16 = BitVec.twoPow 16 14 by decide, BitVec.and_twoPow]
  cases chunk.getLsbD 14 <;> decide

theorem toNat_and_mask (chunk : BitVec 16) (width : Nat) (fits : width ≤ 16) :
    (chunk &&& BitFields.mask 16 width).toNat = chunk.toNat % 2 ^ width := by
  have bound : 2 ^ width ≤ 2 ^ 16 := Nat.pow_le_pow_right (by decide) fits
  have positive : 0 < 2 ^ width := Nat.two_pow_pos width
  rw [BitVec.toNat_and, BitFields.mask, BitVec.toNat_ofNat, Nat.mod_eq_of_lt (by omega),
    Nat.and_two_pow_sub_one_eq_mod]

theorem expandChunk_runLength {symbol : Byte} {run remaining : Nat} (valid : IsSymbol symbol)
    (positive : 0 < run) (short : run ≤ 0x1fff) (enough : run ≤ remaining) :
    expandChunk (runLengthChunk symbol run) remaining = .ok (List.replicate run symbol) := by
  have small := valid.toNat_lt
  have value := toNat_runLengthChunk valid short
  have top : runLengthChunk symbol run &&& 0x8000#16 = 0 := by
    rw [and_top_eq_zero_iff, BitVec.getLsbD]
    exact Nat.testBit_lt_two_pow (by omega)
  have length : (runLengthChunk symbol run &&& 0x1fff#16).toNat = run := by
    rw [show 0x1fff#16 = BitFields.mask 16 13 by decide, toNat_and_mask _ _ (by decide)]
    omega
  have shape : ((runLengthChunk symbol run >>> 13) &&& 3#16).setWidth 8 = symbol := by
    apply BitVec.eq_of_toNat_eq
    rw [BitVec.toNat_setWidth, show 3#16 = BitFields.mask 16 2 by decide,
      toNat_and_mask _ _ (by decide), BitVec.toNat_ushiftRight, Nat.shiftRight_eq_div_pow]
    omega
  have accepted : ¬(symbol = 3 ∨ run = 0) := by
    rintro (rfl | rfl)
    · exact absurd small (by decide)
    · omega
  simp only [expandChunk, top, ↓reduceIte, length, shape, accepted, Nat.min_eq_left enough]

/-- The bits of a vector chunk above its fields are those of its header. -/
theorem oneBitChunk_header (symbols : List Byte) (short : symbols.length ≤ 14) (p : Nat)
    (above : 14 ≤ p) : (oneBitChunk symbols).getLsbD p = (0x8000#16).getLsbD p := by
  apply BitFields.getLsbD_orFields_above
  · intro value member
    obtain ⟨symbol, -, rfl⟩ := List.mem_map.mp member
    split_ifs <;> decide
  · rw [List.length_map]
    omega
  · omega

theorem twoBitChunk_header (symbols : List Byte) (valid : ∀ symbol ∈ symbols, IsSymbol symbol)
    (short : symbols.length ≤ 7) (p : Nat) (above : 14 ≤ p) :
    (twoBitChunk symbols).getLsbD p = (0xc000#16).getLsbD p := by
  apply BitFields.getLsbD_orFields_above
  · intro value member
    obtain ⟨symbol, inside, rfl⟩ := List.mem_map.mp member
    rcases valid symbol inside with rfl | rfl | rfl <;> decide
  · rw [List.length_map]
    omega
  · omega

theorem header_low_bits {word : BitVec 16} {p : Nat} (low : p < 14)
    (shape : word = 0x8000#16 ∨ word = 0xc000#16) : word.getLsbD p = false := by
  rcases shape with rfl | rfl <;> interval_cases p <;> rfl

theorem expandChunk_oneBit {symbols : List Byte} {remaining : Nat}
    (valid : ∀ symbol ∈ symbols, IsSymbol symbol) (noLarge : kLargeDelta ∉ symbols)
    (count : min 14 remaining = symbols.length) :
    expandChunk (oneBitChunk symbols) remaining = .ok symbols := by
  have top : ¬(oneBitChunk symbols &&& 0x8000#16 = 0) := by
    rw [and_top_eq_zero_iff, oneBitChunk_header _ (by omega) 15 (by decide)]
    decide
  have second : oneBitChunk symbols &&& 0x4000#16 = 0 := by
    rw [and_second_eq_zero_iff, oneBitChunk_header _ (by omega) 14 (by decide)]
    decide
  simp only [expandChunk, top, second, ↓reduceIte, count]
  congr 1
  apply List.ext_getElem?
  intro i
  rw [List.getElem?_map]
  by_cases inside : i < symbols.length
  · rw [List.getElem?_range inside, List.getElem?_eq_getElem inside]
    have bit := @BitFields.field_orFields 16 1 13
      (symbols.map fun symbol => if symbol = kSmallDelta then (1 : BitVec 16) else 0) 0 0x8000#16
      (by
        intro value member
        obtain ⟨symbol, -, rfl⟩ := List.mem_map.mp member
        split_ifs <;> decide)
      (fun p low => header_low_bits (by omega) (Or.inl rfl)) (by rw [List.length_map]; omega)
      (by decide) i (if symbols[i] = kSmallDelta then 1 else 0)
      (by rw [List.getElem?_map, List.getElem?_eq_getElem inside]; rfl)
    rw [Nat.zero_add, BitFields.field, Nat.one_mul] at bit
    simp only [Option.map_some, Option.some.injEq]
    rw [show (1#16) = BitFields.mask 16 1 by decide, oneBitChunk, bit]
    rcases valid _ (List.getElem_mem inside) with zero | one | large
    · rw [zero]; decide
    · rw [one]; decide
    · exact absurd (large ▸ List.getElem_mem inside) noLarge
  · rw [List.getElem?_eq_none (by simpa using inside), List.getElem?_eq_none (by omega)]
    rfl

theorem mapM_ok {α β ε : Type} (f : α → Except ε β) (g : α → β) (xs : List α)
    (each : ∀ x ∈ xs, f x = .ok (g x)) : xs.mapM f = .ok (xs.map g) := by
  induction xs with
  | nil => rfl
  | cons x xs ih =>
    rw [List.mapM_cons, each x List.mem_cons_self,
      ih fun y member => each y (List.mem_cons_of_mem _ member)]
    rfl

theorem expandChunk_twoBit {symbols : List Byte} {remaining : Nat}
    (valid : ∀ symbol ∈ symbols, IsSymbol symbol) (count : min 7 remaining = symbols.length) :
    expandChunk (twoBitChunk symbols) remaining = .ok symbols := by
  have top : ¬(twoBitChunk symbols &&& 0x8000#16 = 0) := by
    rw [and_top_eq_zero_iff, twoBitChunk_header _ valid (by omega) 15 (by decide)]
    decide
  have second : ¬(twoBitChunk symbols &&& 0x4000#16 = 0) := by
    rw [and_second_eq_zero_iff, twoBitChunk_header _ valid (by omega) 14 (by decide)]
    decide
  simp only [expandChunk, top, second, ↓reduceIte, count]
  rw [mapM_ok _ (fun i => symbols.getD i 0)]
  · congr 1
    apply List.ext_getElem?
    intro i
    by_cases inside : i < symbols.length
    · simp [inside]
    · simp [inside]
  · intro i member
    have inside : i < symbols.length := List.mem_range.mp member
    have bits := @BitFields.field_orFields 16 2 12
      (symbols.map (BitVec.setWidth 16)) 0 0xc000#16
      (by
        intro value member
        obtain ⟨symbol, within, rfl⟩ := List.mem_map.mp member
        rcases valid symbol within with rfl | rfl | rfl <;> decide)
      (fun p low => header_low_bits (by omega) (Or.inr rfl)) (by rw [List.length_map]; omega)
      (by decide) i (symbols[i].setWidth 16)
      (by rw [List.getElem?_map, List.getElem?_eq_getElem inside]; rfl)
    rw [Nat.zero_add, BitFields.field, Nat.mul_comm] at bits
    rw [show (3#16) = BitFields.mask 16 2 by decide, twoBitChunk, bits]
    rcases valid _ (List.getElem_mem inside) with same | same | same <;>
      simp [inside, same, kNotReceived, kSmallDelta, kLargeDelta]

/-! ## The whole list -/

theorem runLength_le (symbol : Byte) (rest : List Byte) :
    runLength symbol rest ≤ (symbol :: rest).length := by
  have bound := (List.takeWhile_sublist (· == symbol) (l := rest)).length_le
  rw [runLength, List.length_cons]
  omega

theorem runLength_pos (symbol : Byte) (rest : List Byte) : 0 < runLength symbol rest := by
  rw [runLength]
  omega

theorem take_runLength (symbol : Byte) (rest : List Byte) :
    (symbol :: rest).take (runLength symbol rest) =
      List.replicate (runLength symbol rest) symbol := by
  have bound := runLength_le symbol rest
  rw [List.eq_replicate_iff]
  refine ⟨by rw [List.length_take]; omega, ?_⟩
  intro other member
  have equal : symbol :: rest.takeWhile (· == symbol) = (symbol :: rest).takeWhile (· == symbol) := by
    rw [List.takeWhile_cons]
    simp
  have short : runLength symbol rest ≤ ((symbol :: rest).takeWhile (· == symbol)).length := by
    rw [← equal, List.length_cons, runLength]
    omega
  have inside : other ∈ (symbol :: rest).takeWhile (· == symbol) := by
    rw [← List.takeWhile_append_dropWhile (p := (· == symbol)) (l := symbol :: rest),
      List.take_append_of_le_length short] at member
    exact List.mem_of_mem_take member
  simpa using List.mem_takeWhile_imp inside

theorem drop_min_length (k : Nat) (symbols : List Byte) :
    symbols.drop (min k symbols.length) = symbols.drop k := by
  rcases Nat.le_total k symbols.length with short | long
  · rw [Nat.min_eq_left short]
  · rw [Nat.min_eq_right long, List.drop_length, List.drop_eq_nil_of_le long]

theorem take_min_length (k : Nat) (symbols : List Byte) :
    symbols.take (min k symbols.length) = symbols.take k := by
  rcases Nat.le_total k symbols.length with short | long
  · rw [Nat.min_eq_left short]
  · rw [Nat.min_eq_right long, List.take_length, List.take_of_length_le long]

/-- One greedy step: a chunk that the parser expands to the symbols it took, at
least 7 of them unless it ends the list. -/
theorem encode_step (fuel : Nat) (symbol : Byte) (rest : List Byte)
    (valid : ∀ s ∈ symbol :: rest, IsSymbol s) :
    ∃ k chunk, 0 < k ∧ k ≤ (symbol :: rest).length ∧ (7 ≤ k ∨ k = (symbol :: rest).length) ∧
      encodeStatusChunksFrom (fuel + 1) (symbol :: rest) =
        u16Bytes chunk ++ encodeStatusChunksFrom fuel ((symbol :: rest).drop k) ∧
      expandChunk chunk (symbol :: rest).length = .ok ((symbol :: rest).take k) := by
  have positive := runLength_pos symbol rest
  have bound := runLength_le symbol rest
  have nonempty : 0 < (symbol :: rest).length := by simp
  have validTake : ∀ k, ∀ s ∈ (symbol :: rest).take k, IsSymbol s :=
    fun k s member => valid s (List.mem_of_mem_take member)
  simp only [encodeStatusChunksFrom]
  by_cases long : 14 ≤ runLength symbol rest ∨
      (runLength symbol rest = (symbol :: rest).length ∧ 7 ≤ runLength symbol rest)
  · refine ⟨runLength symbol rest, runLengthChunk symbol (runLength symbol rest), positive, bound,
      Or.inl (by omega), by rw [if_pos long], ?_⟩
    rw [take_runLength]
    exact expandChunk_runLength (valid symbol List.mem_cons_self) positive
      (Nat.min_le_right _ _) bound
  · rw [if_neg long]
    by_cases noLarge : kLargeDelta ∉ (symbol :: rest).take 14
    · rw [if_pos noLarge]
      refine ⟨min 14 (symbol :: rest).length, _, by omega, by omega, by omega,
        by rw [drop_min_length], ?_⟩
      rw [take_min_length]
      exact expandChunk_oneBit (validTake 14) noLarge (by rw [List.length_take])
    · rw [if_neg noLarge]
      refine ⟨min 7 (symbol :: rest).length, _, by omega, by omega, by omega,
        by rw [drop_min_length], ?_⟩
      rw [take_min_length]
      exact expandChunk_twoBit (validTake 7) (by rw [List.length_take])

/-- The first pass reads back every symbol, whatever it has read before. -/
theorem readStatusChunks_encode {data rest : List Byte} {packetSize fuel readFuel offset : Nat}
    (symbols before : List Byte) (valid : ∀ symbol ∈ symbols, IsSymbol symbol)
    (enough : symbols.length ≤ fuel) (enoughRead : symbols.length ≤ readFuel)
    (here : data.drop offset = encodeStatusChunksFrom fuel symbols ++ rest)
    (inside : offset + (encodeStatusChunksFrom fuel symbols).length ≤ packetSize) :
    readStatusChunks data packetSize (before.length + symbols.length) readFuel before offset =
      .ok (before ++ symbols, offset + (encodeStatusChunksFrom fuel symbols).length) := by
  induction fuel generalizing symbols before readFuel offset with
  | zero =>
    obtain rfl : symbols = [] := List.length_eq_zero_iff.mp (by omega)
    unfold readStatusChunks
    simp [encodeStatusChunksFrom]
  | succ fuel ih =>
    cases symbols with
    | nil =>
      unfold readStatusChunks
      simp [encodeStatusChunksFrom]
    | cons symbol tail =>
      obtain ⟨k, chunk, positive, bound, -, encoded, expanded⟩ := encode_step fuel symbol tail valid
      obtain ⟨readFuel, rfl⟩ : ∃ left, readFuel = left + 1 := ⟨readFuel - 1, by
        rw [List.length_cons] at enoughRead
        omega⟩
      rw [encoded, List.append_assoc] at here
      rw [encoded, List.length_append, u16Bytes_length] at inside
      have taken : (before ++ (symbol :: tail).take k).length +
          ((symbol :: tail).drop k).length = before.length + (symbol :: tail).length := by
        rw [List.length_append, List.length_take, List.length_drop]
        omega
      have next := @ih readFuel (offset + 2) ((symbol :: tail).drop k)
        (before ++ (symbol :: tail).take k)
        (fun s member => valid s (List.mem_of_mem_drop member))
        (by rw [List.length_drop]; omega) (by rw [List.length_drop]; omega)
        (drop_add_of_drop here) (by omega)
      rw [taken, List.append_assoc, List.take_append_drop] at next
      have more : before.length < before.length + (symbol :: tail).length := by
        rw [List.length_cons]
        omega
      have fits : ¬(offset + 2 > packetSize) := by omega
      unfold readStatusChunks
      simp only [more, ↓reduceIte, fits, Nat.add_sub_cancel_left]
      rw [readU16_of_drop here, ok_bind, expanded, ok_bind]
      refine next.trans ?_
      rw [encoded, List.length_append, u16Bytes_length, Nat.add_assoc]

/-- Every chunk but the last takes at least 7 symbols. -/
theorem encodeStatusChunksFrom_length (fuel : Nat) (symbols : List Byte)
    (valid : ∀ symbol ∈ symbols, IsSymbol symbol) :
    (encodeStatusChunksFrom fuel symbols).length ≤ (symbols.length + 6) / 7 * 2 := by
  induction fuel generalizing symbols with
  | zero => simp [encodeStatusChunksFrom]
  | succ fuel ih =>
    cases symbols with
    | nil => simp [encodeStatusChunksFrom]
    | cons symbol tail =>
      obtain ⟨k, chunk, positive, bound, most, encoded, -⟩ := encode_step fuel symbol tail valid
      have rest := ih ((symbol :: tail).drop k) (fun s member => valid s (List.mem_of_mem_drop member))
      rw [List.length_drop] at rest
      rw [encoded, List.length_append, u16Bytes_length]
      omega

theorem encodeStatusChunks_length (symbols : List Byte)
    (valid : ∀ symbol ∈ symbols, IsSymbol symbol) :
    (encodeStatusChunks symbols).length ≤ (symbols.length + 6) / 7 * 2 :=
  encodeStatusChunksFrom_length _ _ valid

/-- The gap before the first received packet costs one run length chunk for
8191 symbols: the one case where the report bound is not checked. -/
theorem encodeStatusChunksFrom_gap_length (fuel gap : Nat) (last : Byte) (valid : IsSymbol last)
    (received : last ≠ kNotReceived) :
    (encodeStatusChunksFrom fuel (List.replicate gap kNotReceived ++ [last])).length ≤
      (gap / 8191 + 3) * 2 := by
  have general : ∀ fuel gap, (encodeStatusChunksFrom fuel
      (List.replicate gap kNotReceived ++ [last])).length ≤ (gap + 1 + 6) / 7 * 2 := by
    intro fuel gap
    have bound := encodeStatusChunksFrom_length fuel (List.replicate gap kNotReceived ++ [last]) (by
      intro symbol member
      rcases List.mem_append.mp member with zero | one
      · exact Or.inl (List.eq_of_mem_replicate zero)
      · exact List.mem_singleton.mp one ▸ valid)
    rwa [List.length_append, List.length_replicate, List.length_singleton] at bound
  induction fuel generalizing gap with
  | zero => simp [encodeStatusChunksFrom]
  | succ fuel ih =>
    by_cases short : gap < 14
    · have bound := general (fuel + 1) gap
      omega
    · obtain ⟨gap, rfl⟩ : ∃ left, gap = left + 1 := ⟨gap - 1, by omega⟩
      have run : runLength kNotReceived (List.replicate gap kNotReceived ++ [last]) =
          min (1 + gap) 0x1fff := by
        rw [runLength, List.takeWhile_append_of_pos (by
          intro symbol member
          rw [List.eq_of_mem_replicate member]
          rfl), List.takeWhile_cons_of_neg (by simpa using received)]
        simp
      rw [List.replicate_succ, List.cons_append]
      simp only [encodeStatusChunksFrom, run]
      rw [if_pos (Or.inl (by omega)), List.length_append, u16Bytes_length, ← List.cons_append,
        ← List.replicate_succ, List.drop_append_of_le_length (by rw [List.length_replicate]; omega),
        List.drop_replicate]
      have rest := ih (gap + 1 - min (1 + gap) 0x1fff)
      have tail := general fuel (gap + 1 - min (1 + gap) 0x1fff)
      by_cases one : gap + 1 ≤ 0x1fff
      · rw [Nat.min_eq_left (by omega)] at tail ⊢
        omega
      · rw [Nat.min_eq_right (by omega)] at rest ⊢
        omega

end Mello.Transport.TwccChunks
