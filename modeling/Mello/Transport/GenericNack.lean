import Mello.Library.Ring

/-!
The blocks of a generic NACK. The lost sequence numbers are sorted and cut at the largest
gap of the ring, and each block names up to seventeen of them: its pid, and a bit for each of
the sixteen numbers behind it.
-/

namespace Mello.Transport.GenericNack
open Mello.Library Ring Serial

structure GenericNackBlock where
  pid : BitVec 16
  blp : BitVec 16
  deriving DecidableEq, Repr

/-- The gap behind one of the ordered numbers, the last one to the first. -/
def gap (ordered : List (BitVec 16)) (index : ℕ) : ℕ :=
  let current := (ordered.getD index 0).toNat
  let next := (ordered.getD ((index + 1) % ordered.length) 0).toNat
  if index + 1 < ordered.length then next - current else next + 65536 - current

/-- The index behind the first largest gap. -/
def cut (ordered : List (BitVec 16)) : ℕ :=
  if 1 < ordered.length then
    ((List.range ordered.length).foldl (fun (largestGap, start) index =>
      if largestGap < gap ordered index then (gap ordered index, (index + 1) % ordered.length) else (largestGap, start)) (0, 0)).2
  else 0

/-- The last block comes first. -/
def push (blocks : List GenericNackBlock) (sequence : BitVec 16) : List GenericNackBlock :=
  match blocks with
  | [] => [⟨sequence, 0⟩]
  | block :: rest =>
    let delta := sequence - block.pid
    if 1 ≤ delta ∧ delta ≤ 16 then { block with blp := block.blp ||| (1 <<< (delta.toNat - 1)) } :: rest
    else ⟨sequence, 0⟩ :: block :: rest

def compressGenericNackSequences (sequences : List (BitVec 16)) : List GenericNackBlock :=
  let ordered := (sequences.insertionSort (· ≤ ·)).dedup
  ((ordered.rotate (cut ordered)).foldl push []).reverse

/-- The numbers that a block asks for. -/
def named (block : GenericNackBlock) : List (BitVec 16) :=
  block.pid :: ((List.range 16).filter fun k => block.blp.getLsbD k).map fun k => block.pid + BitVec.ofNat 16 (k + 1)

/-! ## Packing -/

/-- A bit above all bits that are set names one more number, the last one. -/
theorem filter_range_or {set : ℕ → Bool} {m n : ℕ} (below : ∀ k, set k = true → k < m) (inside : m < n) :
    ((List.range n).filter fun k => set k || decide (k = m)) = (List.range n).filter set ++ [m] := by
  induction n with
  | zero => cases inside
  | succ n ih =>
    rw [List.range_succ, List.filter_append, List.filter_append]
    rcases Nat.lt_succ_iff_lt_or_eq.mp inside with lower | rfl
    · have clear : ¬ set n = true := fun high => absurd (below n high) (by omega)
      have other : ¬ (set n || decide (n = m)) = true := by
        rw [Bool.or_eq_true, decide_eq_true_eq]
        rintro (high | rfl)
        · exact clear high
        · exact lt_irrefl n lower
      rw [ih lower, List.filter_cons_of_neg (p := fun k => set k || decide (k = m)) other, List.filter_cons_of_neg clear,
        List.filter_nil, List.append_nil, List.filter_nil, List.append_nil]
    · have clear : ¬ set m = true := fun high => lt_irrefl m (below m high)
      have here : (set m || decide (m = m)) = true := by
        rw [Bool.or_eq_true]
        exact .inr (decide_eq_true rfl)
      have same : ((List.range m).filter fun k => set k || decide (k = m)) = (List.range m).filter set := by
        refine List.filter_congr fun k member => ?_
        rw [decide_eq_false (List.mem_range.mp member).ne, Bool.or_false]
      rw [same, List.filter_cons_of_pos (p := fun k => set k || decide (k = m)) here, List.filter_cons_of_neg clear,
        List.filter_nil, List.filter_nil, List.append_nil]

theorem getLsbD_bit (m k : ℕ) : (1#16 <<< m).getLsbD k = (decide (k < 16) && decide (k = m)) := by
  rw [BitVec.getLsbD_shiftLeft, BitVec.getLsbD_one]
  rcases lt_trichotomy k m with less | rfl | more
  · simp [less, less.ne]
  · simp
  · have past_it : k - m ≠ 0 := by omega
    simp [past_it, more.ne']

theorem named_or {block : GenericNackBlock} {sequence : BitVec 16} {m : ℕ} (delta : past block.pid sequence = m + 1) (few : m < 16)
    (below : ∀ k, block.blp.getLsbD k = true → k < m) :
    named { block with blp := block.blp ||| (1 <<< m) } = named block ++ [sequence] := by
  have bits : ((List.range 16).filter fun k => (block.blp ||| (1 <<< m)).getLsbD k) =
      (List.range 16).filter fun k => block.blp.getLsbD k || decide (k = m) := by
    refine List.filter_congr fun k member => ?_
    rw [BitVec.getLsbD_or]
    refine congrArg _ ((getLsbD_bit m k).trans ?_)
    rw [decide_eq_true (List.mem_range.mp member), Bool.true_and]
  have last : block.pid + BitVec.ofNat 16 (m + 1) = sequence := by
    rw [← delta, past, BitVec.ofNat_toNat, BitVec.setWidth_eq, add_sub_cancel]
  unfold named
  rw [bits, filter_range_or below few, List.map_append, List.map_singleton, last]
  rfl

theorem named_new (sequence : BitVec 16) : named ⟨sequence, 0⟩ = [sequence] := by
  have clear : ((List.range 16).filter fun k => (0 : BitVec 16).getLsbD k) = [] := by
    refine List.filter_eq_nil_iff.mpr fun k _ => ?_
    rw [BitVec.ofNat_eq_ofNat, BitVec.getLsbD_zero]
    exact Bool.false_ne_true
  rw [named, clear]
  rfl

/-! ## The blocks -/

/-- The blocks of the numbers up to one of them, in the order of the ring. -/
structure Packed (base : BitVec 16) (blocks : List GenericNackBlock) (last : BitVec 16) : Prop where
  head : ∃ block rest, blocks = block :: rest ∧ past base block.pid ≤ past base last ∧
    ∀ k, block.blp.getLsbD k = true → k + 1 ≤ past block.pid last
  order : blocks.Pairwise fun later earlier => past base earlier.pid < past base later.pid
  far : blocks.IsChain fun later earlier => 16 < past earlier.pid later.pid

/-- A number behind the last one goes into the last block, or opens the next one. -/
theorem push_packed {base last sequence : BitVec 16} {blocks : List GenericNackBlock} (packed : Packed base blocks last)
    (behind : past base last < past base sequence) :
    Packed base (push blocks sequence) sequence ∧
      (push blocks sequence).reverse.flatMap named = blocks.reverse.flatMap named ++ [sequence] := by
  obtain ⟨⟨block, rest, rfl, reached, bits⟩, order, far⟩ := packed
  have step : past block.pid sequence = past base sequence - past base block.pid := past_eq_sub (by omega)
  have before : past block.pid last = past base last - past base block.pid := past_eq_sub reached
  have first : 1 ≤ past block.pid sequence := by omega
  unfold push
  dsimp only
  have delta : (sequence - block.pid).toNat = past block.pid sequence := rfl
  split_ifs with fits
  · have few := BitVec.le_def.mp fits.2
    have most : (16 : BitVec 16).toNat = 16 := rfl
    rw [delta, most] at few
    have up : past block.pid sequence = (past block.pid sequence - 1) + 1 := by omega
    have below : ∀ k, block.blp.getLsbD k = true → k < past block.pid sequence - 1 := by
      intro k high
      have := bits k high
      omega
    have names := named_or up (by omega) below
    rw [delta]
    refine ⟨⟨⟨_, rest, rfl, by dsimp only; omega, ?_⟩, ?_, ?_⟩, ?_⟩
    · intro k high
      rw [BitVec.getLsbD_or, Bool.or_eq_true] at high
      rcases high with old | new
      · have := below k old
        dsimp only
        omega
      · have here := (getLsbD_bit (past block.pid sequence - 1) k).symm.trans new
        rw [Bool.and_eq_true, decide_eq_true_eq, decide_eq_true_eq] at here
        dsimp only
        omega
    · exact List.pairwise_cons.mpr ⟨(List.pairwise_cons.mp order).1, (List.pairwise_cons.mp order).2⟩
    · cases rest with
      | nil => exact .singleton _
      | cons other older => exact List.isChain_cons_cons.mpr (List.isChain_cons_cons.mp far)
    · rw [List.reverse_cons, List.reverse_cons, List.flatMap_append, List.flatMap_append, List.flatMap_singleton, List.flatMap_singleton,
        names, List.append_assoc]
  · have more : 16 < past block.pid sequence := by
      by_contra few
      refine fits ⟨BitVec.le_def.mpr ?_, BitVec.le_def.mpr ?_⟩
      · rw [delta]
        exact first
      · rw [delta]
        exact not_lt.mp few
    refine ⟨⟨⟨_, _, rfl, le_rfl, fun k high => ?_⟩, ?_, ?_⟩, ?_⟩
    · rw [BitVec.ofNat_eq_ofNat, BitVec.getLsbD_zero] at high
      cases high
    · refine List.pairwise_cons.mpr ⟨fun earlier member => ?_, order⟩
      rcases List.mem_cons.mp member with rfl | older
      · dsimp only
        omega
      · have := (List.pairwise_cons.mp order).1 earlier older
        dsimp only
        omega
    · exact List.isChain_cons_cons.mpr ⟨more, far⟩
    · rw [List.reverse_cons, List.flatMap_append, List.flatMap_singleton, named_new]

theorem foldl_packed {base last : BitVec 16} {blocks : List GenericNackBlock} {words : List (BitVec 16)}
    (packed : Packed base blocks last) (order : InOrder base (last :: words)) :
    (∃ final, Packed base (words.foldl push blocks) final) ∧
      (words.foldl push blocks).reverse.flatMap named = blocks.reverse.flatMap named ++ words := by
  induction words generalizing blocks last with
  | nil => exact ⟨⟨last, packed⟩, (List.append_nil _).symm⟩
  | cons sequence rest ih =>
    obtain ⟨behind, later⟩ := List.pairwise_cons.mp order
    obtain ⟨next, names⟩ := push_packed packed (behind sequence List.mem_cons_self)
    obtain ⟨ends, all⟩ := ih next later
    refine ⟨ends, ?_⟩
    rw [List.foldl_cons, all, names, List.append_assoc]
    rfl

/-- What the blocks of numbers in the order of the ring are. -/
theorem packed_words {base : BitVec 16} {words : List (BitVec 16)} (order : InOrder base words) :
    (words.foldl push []).reverse.flatMap named = words ∧
      ((words.foldl push []).reverse.map fun b => b.pid).Pairwise (fun a b => past base a < past base b) ∧
      ((words.foldl push []).reverse.map fun b => b.pid).IsChain fun a b => 16 < past a b := by
  cases words with
  | nil => exact ⟨rfl, .nil, .nil⟩
  | cons first rest =>
    have start : Packed base [⟨first, 0⟩] first := by
      refine ⟨⟨_, [], rfl, le_rfl, fun k high => ?_⟩, List.pairwise_singleton _ _, .singleton _⟩
      rw [BitVec.ofNat_eq_ofNat, BitVec.getLsbD_zero] at high
      cases high
    obtain ⟨⟨final, packed⟩, names⟩ := foldl_packed start order
    refine ⟨?_, ?_, ?_⟩
    · refine names.trans ?_
      rw [List.reverse_singleton, List.flatMap_singleton, named_new]
      rfl
    · rw [List.pairwise_map, List.pairwise_reverse]
      exact packed.order
    · rw [List.isChain_map, List.isChain_reverse]
      exact packed.far

/-! ## The cut -/

section Cut

variable {ordered : List (BitVec 16)}

theorem getD_lt (sorted : ordered.Pairwise (· < ·)) {i j : ℕ} (less : i < j) (inside : j < ordered.length) :
    (ordered.getD i 0).toNat < (ordered.getD j 0).toNat := by
  rw [List.getD_eq_getElem _ _ inside, List.getD_eq_getElem _ _ (less.trans inside)]
  exact BitVec.lt_def.mp (List.pairwise_iff_getElem.mp sorted i j (less.trans inside) inside less)

theorem gap_eq_past (sorted : ordered.Pairwise (· < ·)) (many : 1 < ordered.length) {index : ℕ} (inside : index < ordered.length) :
    gap ordered index = past (ordered.getD index 0) (ordered.getD ((index + 1) % ordered.length) 0) := by
  unfold gap
  split_ifs with next
  · rw [Nat.mod_eq_of_lt next]
    exact (past_of_le (BitVec.le_def.mpr (getD_lt sorted (Nat.lt_succ_self index) next).le)).symm
  · have last : index + 1 = ordered.length := by omega
    rw [last, Nat.mod_self]
    rw [past_of_lt (BitVec.lt_def.mpr (getD_lt (i := 0) sorted (by omega) inside)), Nat.add_comm (2 ^ 16)]
    rfl

theorem getD_inj (sorted : ordered.Pairwise (· < ·)) {i j : ℕ} (first : i < ordered.length) (second : j < ordered.length)
    (same : ordered.getD i 0 = ordered.getD j 0) : i = j := by
  rcases lt_trichotomy i j with less | equal | more
  · exact absurd (congrArg BitVec.toNat same) (getD_lt sorted less second).ne
  · exact equal
  · exact absurd (congrArg BitVec.toNat same) (getD_lt sorted more first).ne'

theorem next_ne (many : 1 < ordered.length) {index : ℕ} (inside : index < ordered.length) :
    index ≠ (index + 1) % ordered.length := by
  rcases Nat.lt_or_ge (index + 1) ordered.length with next | last
  · rw [Nat.mod_eq_of_lt next]
    omega
  · rw [show index + 1 = ordered.length by omega, Nat.mod_self]
    omega

/-- The cut is behind the largest gap. -/
theorem cut_spec (sorted : ordered.Pairwise (· < ·)) (many : 1 < ordered.length) :
    ∃ i < ordered.length, cut ordered = (i + 1) % ordered.length ∧ ∀ j < ordered.length, gap ordered j ≤ gap ordered i := by
  have positive : ∀ j < ordered.length, 0 < gap ordered j := by
    intro j inside
    rw [gap_eq_past sorted many inside, Nat.pos_iff_ne_zero]
    intro none
    have same := past_inj (none.trans (past_self _).symm)
    exact next_ne many inside (getD_inj sorted inside (Nat.mod_lt _ (by omega)) same.symm)
  have search : ∀ n, 0 < n → n ≤ ordered.length → ∃ i < n,
      (List.range n).foldl (fun (acc : ℕ × ℕ) index =>
        if acc.1 < gap ordered index then (gap ordered index, (index + 1) % ordered.length) else acc) (0, 0) =
        (gap ordered i, (i + 1) % ordered.length) ∧ ∀ j < n, gap ordered j ≤ gap ordered i := by
    intro n some
    induction n, some using Nat.le_induction with
    | base =>
      intro inside
      refine ⟨0, Nat.one_pos, if_pos (positive 0 inside), fun j less => ?_⟩
      rw [Nat.lt_one_iff.mp less]
    | succ n some ih =>
      intro inside
      obtain ⟨i, before, found, largest⟩ := ih (by omega)
      rw [List.range_succ, List.foldl_append, found]
      dsimp only [List.foldl_cons, List.foldl_nil]
      split_ifs with larger
      · refine ⟨n, Nat.lt_succ_self n, rfl, fun j less => ?_⟩
        rcases Nat.lt_succ_iff_lt_or_eq.mp less with old | rfl
        · exact (largest j old).trans larger.le
        · exact le_rfl
      · refine ⟨i, by omega, rfl, fun j less => ?_⟩
        rcases Nat.lt_succ_iff_lt_or_eq.mp less with old | rfl
        · exact largest j old
        · exact not_lt.mp larger
  obtain ⟨i, inside, found, largest⟩ := search ordered.length (by omega) le_rfl
  refine ⟨i, inside, ?_, largest⟩
  rw [cut, if_pos many]
  exact congrArg Prod.snd found

theorem cut_lt (sorted : ordered.Pairwise (· < ·)) (some : 0 < ordered.length) : cut ordered < ordered.length := by
  by_cases many : 1 < ordered.length
  · obtain ⟨i, -, same, -⟩ := cut_spec sorted many
    rw [same]
    exact Nat.mod_lt _ some
  · rw [cut, if_neg many]
    exact some

/-- Numbers in half of the ring are in the half behind the cut. -/
theorem near_cut (sorted : ordered.Pairwise (· < ·)) {window : BitVec 16} (half : ∀ s ∈ ordered, past window s < 2 ^ 15)
    {s : BitVec 16} (member : s ∈ ordered) : past (ordered.getD (cut ordered) 0) s < 2 ^ 15 := by
  have some := List.length_pos_of_mem member
  have inside := cut_lt sorted some
  have order := inOrder_rotate sorted inside
  rw [← List.getD_eq_getElem ordered 0 inside] at order
  rcases Nat.lt_or_ge 1 ordered.length with many | single
  · obtain ⟨i, here, same, largest⟩ := cut_spec sorted many
    have gap_i := gap_eq_past sorted many here
    rw [← same] at gap_i
    -- the last number of the window has more than half of the ring behind it
    obtain ⟨k, there, last⟩ : ∃ k < ordered.length, ∀ j < ordered.length, past window (ordered.getD j 0) ≤ past window (ordered.getD k 0) := by
      obtain ⟨k, found, most⟩ := Finset.exists_max_image (Finset.range ordered.length) (fun j => past window (ordered.getD j 0))
        ⟨0, Finset.mem_range.mpr some⟩
      exact ⟨k, Finset.mem_range.mp found, fun j less => most j (Finset.mem_range.mpr less)⟩
    have wrapped : (k + 1) % ordered.length < ordered.length := Nat.mod_lt _ some
    have apart : ordered.getD k 0 ≠ ordered.getD ((k + 1) % ordered.length) 0 :=
      fun equal => next_ne many there (getD_inj sorted there wrapped equal)
    have turn := past_add_past apart
    have back := past_eq_sub (last _ wrapped)
    have few := half (ordered.getD k 0) (List.getD_eq_getElem ordered 0 there ▸ List.getElem_mem there)
    have wide := largest k there
    rw [gap_eq_past sorted many there] at wide
    -- so has the number before the cut, and it is the last one
    have distinct : ordered.getD i 0 ≠ ordered.getD (cut ordered) 0 := by
      intro equal
      rw [same] at equal
      exact next_ne many here (getD_inj sorted here (Nat.mod_lt _ some) equal)
    have whole := past_add_past distinct
    have most : past (ordered.getD (cut ordered) 0) s ≤ past (ordered.getD (cut ordered) 0) (ordered.getD i 0) := by
      have turned : s ∈ ordered.rotate (cut ordered) := List.mem_rotate.mpr member
      obtain ⟨p, bound, rfl⟩ := List.getElem_of_mem turned
      have size : (ordered.rotate (cut ordered)).length = ordered.length := List.length_rotate _ _
      have final : ordered.length - 1 < (ordered.rotate (cut ordered)).length := by omega
      have place : (ordered.length - 1 + cut ordered) % ordered.length = i := by
        rw [same]
        rcases Nat.lt_or_ge (i + 1) ordered.length with next | end_
        · rw [Nat.mod_eq_of_lt next, show ordered.length - 1 + (i + 1) = i + ordered.length by omega, Nat.add_mod_right,
            Nat.mod_eq_of_lt here]
        · rw [show i + 1 = ordered.length by omega, Nat.mod_self, Nat.add_zero, Nat.mod_eq_of_lt (by omega)]
          omega
      have before : ordered.getD i 0 = (ordered.rotate (cut ordered))[ordered.length - 1] := by
        rw [List.getElem_rotate, ← List.getD_eq_getElem _ 0]
        exact congrArg (ordered.getD · 0) place.symm
      rw [before]
      rcases Nat.lt_or_ge p (ordered.length - 1) with less | last
      · exact (List.pairwise_iff_getElem.mp order p _ bound final less).le
      · have : p = ordered.length - 1 := by omega
        subst this
        exact le_rfl
    omega
  · have only : ordered.length = 1 := by omega
    obtain ⟨word, rfl⟩ := List.length_eq_one_iff.mp only
    rw [List.mem_singleton.mp member]
    exact (past_self word).trans_lt (by decide)

end Cut

/-! ## The request -/

theorem ordered_sorted (sequences : List (BitVec 16)) : ((sequences.insertionSort (· ≤ ·)).dedup).Pairwise (· < ·) := by
  have : Std.Total fun a b : BitVec 16 => a ≤ b := ⟨fun a b => Nat.le_total a.toNat b.toNat⟩
  have : IsTrans (BitVec 16) fun a b => a ≤ b := ⟨fun a b c first second => Nat.le_trans first second⟩
  have sorted := (List.pairwise_insertionSort (fun a b : BitVec 16 => a ≤ b) sequences).sublist (List.dedup_sublist _)
  refine (sorted.and (List.nodup_dedup _)).imp ?_
  rintro a b ⟨le, apart⟩
  refine BitVec.lt_def.mpr (Nat.lt_of_le_of_ne (BitVec.le_def.mp le) fun same => ?_)
  exact apart (BitVec.eq_of_toNat_eq same)

/-- The blocks name each lost number once, and nothing else. Where the numbers are in half of
the ring, the blocks stand in its order, more than sixteen numbers apart. -/
theorem compress_exact (sequences : List (BitVec 16)) :
    ((compressGenericNackSequences sequences).flatMap named).Nodup ∧
      (∀ s, s ∈ (compressGenericNackSequences sequences).flatMap named ↔ s ∈ sequences) ∧
      ((∃ window, ∀ s ∈ sequences, (s - window).toNat < 2 ^ 15) →
        ((compressGenericNackSequences sequences).map fun b => b.pid).Pairwise (fun a b => 0 < ahead b a) ∧
          ((compressGenericNackSequences sequences).map fun b => b.pid).IsChain fun a b => 16 < ahead b a) := by
  have sorted := ordered_sorted sequences
  have same : ∀ s, s ∈ (sequences.insertionSort (· ≤ ·)).dedup ↔ s ∈ sequences := by
    intro s
    rw [List.mem_dedup, List.mem_insertionSort]
  unfold compressGenericNackSequences
  generalize (sequences.insertionSort (· ≤ ·)).dedup = ordered at sorted same
  dsimp only
  rcases Nat.eq_zero_or_pos ordered.length with none | some
  · obtain rfl := List.length_eq_zero_iff.mp none
    exact ⟨.nil, same, fun _ => ⟨.nil, .nil⟩⟩
  · have inside := cut_lt sorted some
    have order := inOrder_rotate sorted inside
    rw [← List.getD_eq_getElem ordered 0 inside] at order
    obtain ⟨names, forward, far⟩ := packed_words order
    refine ⟨?_, ?_, ?_⟩
    · rw [names, List.nodup_rotate]
      exact sorted.imp fun less same => absurd (congrArg BitVec.toNat same) (BitVec.lt_def.mp less).ne
    · intro s
      rw [names, List.mem_rotate]
      exact same s
    · rintro ⟨window, half⟩
      generalize ((ordered.rotate (cut ordered)).foldl push []).reverse = blocks at names forward far
      have near : ∀ p ∈ blocks.map fun b => b.pid, past (ordered.getD (cut ordered) 0) p < 2 ^ 15 := by
        intro p member
        obtain ⟨block, here, rfl⟩ := List.mem_map.mp member
        have inside : block.pid ∈ blocks.flatMap named := List.mem_flatMap.mpr ⟨block, here, List.mem_cons_self⟩
        rw [names, List.mem_rotate] at inside
        exact near_cut sorted (fun s there => half s ((same s).mp there)) inside
      have ahead_past : (blocks.map fun b => b.pid).Pairwise fun a b => ahead b a = past a b ∧ 0 < ahead b a := by
        refine forward.imp_of_mem fun {a b} first second less => ?_
        have between := past_eq_sub less.le
        have last := near b second
        have signed : ahead b a = past a b := ahead_of_past (by omega)
        exact ⟨signed, by omega⟩
      refine ⟨ahead_past.imp fun both => both.2, List.isChain_iff_getElem.mpr fun i bound => ?_⟩
      have apart := List.isChain_iff_getElem.mp far i bound
      have signed := List.pairwise_iff_getElem.mp ahead_past i (i + 1) (by omega) bound (Nat.lt_succ_self i)
      rw [signed.1]
      exact_mod_cast apart

/-- Losses around the wrap. -/
theorem compress_wrapped :
    ((compressGenericNackSequences [2#16, 65535#16, 40#16]).map fun b => b.pid).Pairwise (fun a b => 0 < ahead b a) ∧
      ((compressGenericNackSequences [2#16, 65535#16, 40#16]).map fun b => b.pid).IsChain fun a b => 16 < ahead b a := by
  obtain ⟨-, -, ordered⟩ := compress_exact [2#16, 65535#16, 40#16]
  exact ordered ⟨65535#16, by simp⟩

example : compressGenericNackSequences [2#16, 65535#16, 40#16] = [⟨65535#16, 4#16⟩, ⟨40#16, 0#16⟩] := by decide +kernel

end Mello.Transport.GenericNack
