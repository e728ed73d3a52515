import Mello.Library.Nearest

/-!
The sizes of a stream. The host takes the top rung from the size of the source and the
lower rungs from the top one. libmello takes each encode size from the source. Both keep
the aspect with a width that is a multiple of 16, in exact arithmetic here.
-/

namespace Mello.Stream.Rungs
open Mello.Library Nearest

def LEVEL51_MAX_FRAME_MBS : ℕ := 36864

def LEVEL51_MAX_MBS_PER_SEC : ℕ := 983040

def GEOMETRY_HEIGHTS : List ℕ := [540, 480, 360]

def LOW_FPS : ℕ := 30

/-- The height, two rows less at a time until the size fits or two rows are left. -/
def lower (width : ℕ → ℕ) (fits : ℕ → ℕ → Bool) : ℕ → ℕ
  | h + 3 => if fits (width (h + 3)) (h + 3) then h + 3 else lower width fits (h + 1)
  | h => h

/-! ## mello-core -/

/-- The product is a `u32` and wraps. -/
def widthFor (width height targetHeight : ℕ) : ℕ :=
  if height = 0 ∨ height ≤ targetHeight then width
  else
    let exact : ℚ := width * targetHeight / height
    let w := nearest 16 exact % 2 ^ 32
    let w := if width < w then width / 16 * 16 else w
    if w < 16 then min width 16 else w

def fits (fps w h : ℕ) : Bool :=
  let mbs := (w + 15) / 16 * ((h + 15) / 16)
  mbs ≤ LEVEL51_MAX_FRAME_MBS ∧ mbs * fps ≤ LEVEL51_MAX_MBS_PER_SEC

def encodeSizeFor (sourceW sourceH presetH fps : ℕ) : ℕ × ℕ :=
  let capW := sourceW / 2 * 2
  let capH := sourceH / 2 * 2
  if capW = 0 ∨ capH = 0 then (0, 0)
  else
    let h := if 0 < presetH ∧ presetH < capH then presetH / 2 * 2 else capH
    let h := lower (widthFor capW capH) (fits fps) h
    (widthFor capW capH h, h)

structure Rung where
  width : ℕ
  height : ℕ
  fps : ℕ
  deriving DecidableEq

def rungsFor (width height fps : ℕ) : List Rung :=
  ⟨width, height, fps⟩ :: (if LOW_FPS < fps then [⟨width, height, LOW_FPS⟩] else []) ++
    (GEOMETRY_HEIGHTS.filter (· < height)).map fun target => ⟨widthFor width height target, target, min LOW_FPS fps⟩

/-! ## libmello -/

namespace VideoPipeline

structure EncodeSize where
  width : ℕ := 0
  height : ℕ := 0
  levelCapped : Bool := false
  deriving DecidableEq

def widthFor (capW capH h : ℕ) : ℕ :=
  if capH ≤ h then capW
  else
    let exact : ℚ := capW * h / capH
    let w := nearest 16 exact % 2 ^ 32
    let w := if capW < w then capW / 16 * 16 else w
    if w < 16 then min 16 capW else w

/-- The sums are of `uint32_t` and wrap. -/
def fitsLevel (fps w h : ℕ) : Bool :=
  let mbs := (w + 15) % 2 ^ 32 / 16 * ((h + 15) % 2 ^ 32 / 16)
  mbs ≤ LEVEL51_MAX_FRAME_MBS ∧ mbs * fps ≤ LEVEL51_MAX_MBS_PER_SEC

def encodeSizeFor (captureW captureH presetH fps : ℕ) : EncodeSize :=
  let capW := captureW / 2 * 2
  let capH := captureH / 2 * 2
  if capW = 0 ∨ capH = 0 then {}
  else
    let start := if 0 < presetH ∧ presetH < capH then presetH / 2 * 2 else capH
    let h := lower (widthFor capW capH) (fitsLevel fps) start
    { width := widthFor capW capH h, height := h, levelCapped := h ≠ start }

end VideoPipeline

/-! ## The width -/

/-- A width up to the source's, of at least 16. -/
def clamp (width w : ℕ) : ℕ :=
  let w := if width < w then width / 16 * 16 else w
  if w < 16 then min width 16 else w

section Width

variable {width height target w v : ℕ}

theorem clamp_le (width w : ℕ) : clamp width w ≤ width := by
  unfold clamp
  dsimp only
  split_ifs <;> omega

theorem two_le_clamp (two : 2 ≤ width) (w : ℕ) : 2 ≤ clamp width w := by
  unfold clamp
  dsimp only
  split_ifs <;> omega

theorem clamp_mono (width : ℕ) (multiple : 16 ∣ w) (le : w ≤ v) : clamp width w ≤ clamp width v := by
  unfold clamp
  dsimp only
  split_ifs <;> omega

theorem clamp_small (small : width < 16) (w : ℕ) : clamp width w = width := by
  unfold clamp
  dsimp only
  split_ifs <;> omega

theorem clamp_of_le (wide : 16 ≤ width) (le : w ≤ width) : clamp width w = max w 16 := by
  unfold clamp
  rw [if_neg (Nat.not_lt.mpr le)]
  dsimp only
  split_ifs <;> omega

theorem exact_mono (width height : ℕ) (le : w ≤ v) : (width : ℚ) * w / height ≤ width * v / height := by
  have wide : (0 : ℚ) ≤ width := Nat.cast_nonneg _
  have higher : (w : ℚ) ≤ v := by exact_mod_cast le
  gcongr

theorem exact_le (width : ℕ) (le : target ≤ height) : (width : ℚ) * target / height ≤ width := by
  rcases Nat.eq_zero_or_pos height with rfl | pos
  · rw [Nat.cast_zero, div_zero]
    exact Nat.cast_nonneg _
  · have high : (0 : ℚ) < height := by exact_mod_cast pos
    rw [div_le_iff₀ high]
    exact mul_le_mul_of_nonneg_left (by exact_mod_cast le) (Nat.cast_nonneg _)

/-- Where the exact width is no over 2^32 - 16, the rounded one does not wrap. -/
theorem widthFor_eq_clamp_of_exact (less : target < height) (small : (width : ℚ) * target / height ≤ (2 ^ 32 - 16 : ℕ)) :
    widthFor width height target = clamp width (nearest 16 (width * target / height)) := by
  have lower : ¬(height = 0 ∨ height ≤ target) := by omega
  have near : nearest 16 ((width : ℚ) * target / height) ≤ 2 ^ 32 - 16 :=
    nearest_le_of_le (by decide) (by decide) small
  rw [widthFor, if_neg lower]
  dsimp only
  rw [Nat.mod_eq_of_lt (by omega)]
  rfl

theorem widthFor_eq_clamp (fits : width + 16 ≤ 2 ^ 32) (less : target < height) :
    widthFor width height target = clamp width (nearest 16 (width * target / height)) := by
  refine widthFor_eq_clamp_of_exact less ((exact_le width less.le).trans ?_)
  exact_mod_cast (by omega : width ≤ 2 ^ 32 - 16)

theorem widthFor_of_le (le : height ≤ target) : widthFor width height target = width := if_pos (.inr le)

theorem widthFor_le (width height target : ℕ) : widthFor width height target ≤ width := by
  unfold widthFor
  split_ifs with top
  · exact le_rfl
  · exact clamp_le width _

theorem two_le_widthFor (two : 2 ≤ width) (height target : ℕ) : 2 ≤ widthFor width height target := by
  unfold widthFor
  split_ifs with top
  · exact two
  · exact two_le_clamp two _

theorem widthFor_mono (fits : width + 16 ≤ 2 ^ 32) (le : w ≤ v) : widthFor width height w ≤ widthFor width height v := by
  by_cases top : height ≤ v
  · rw [widthFor_of_le top]
    exact widthFor_le width height w
  · rw [widthFor_eq_clamp fits (by omega), widthFor_eq_clamp fits (by omega)]
    exact clamp_mono width (dvd_nearest 16 _) (nearest_mono 16 (exact_mono width height le))

/-- The same width on both sides. -/
theorem videoPipeline_widthFor (pos : height ≠ 0) : VideoPipeline.widthFor width height = widthFor width height := by
  funext h
  unfold VideoPipeline.widthFor widthFor
  simp only [pos, false_or]
  rw [min_comm]

/-- Two roundings that are at most one step apart stay so within their limits. -/
theorem clamp_near {inner outer a b : ℕ} (wide : 16 ≤ inner) (within : inner ≤ outer) (least : a ≤ inner)
    (left : 16 ∣ a) (right : 16 ∣ b) (above : a ≤ b + 16) (below : b ≤ a + 16) :
    clamp inner a ≤ clamp outer b + 16 ∧ clamp outer b ≤ clamp inner a + 16 := by
  rw [clamp_of_le wide least]
  unfold clamp
  dsimp only
  split_ifs <;> omega

/-- What the limits do to a rounded width: nothing, or one step up from zero, or down. -/
theorem clamp_cases (wide : 16 ≤ width) (multiple : 16 ∣ w) :
    (16 ∣ clamp width w ∧ 16 ≤ clamp width w) ∧
      (clamp width w = w ∨ (w = 0 ∧ clamp width w = 16) ∨ (clamp width w ≤ width ∧ width < w ∧ width < clamp width w + 16)) := by
  unfold clamp
  dsimp only
  split_ifs <;> omega

/-- A scaled width is a step or less from the exact one. -/
theorem scaled_near (wide : 16 ≤ width) (fits : width + 16 ≤ 2 ^ 32) (less : target < height) :
    (16 ∣ widthFor width height target ∧ 16 ≤ widthFor width height target) ∧
      |(widthFor width height target : ℚ) - width * target / height| ≤ 16 := by
  have nonneg : (0 : ℚ) ≤ width * target / height := by positivity
  have near := abs_le.mp (abs_nearest_sub_le (by decide : 0 < 16) nonneg)
  have under := exact_le width less.le
  obtain ⟨whole, cases⟩ := clamp_cases wide (dvd_nearest 16 ((width : ℚ) * target / height))
  rw [widthFor_eq_clamp fits less]
  refine ⟨whole, abs_le.mpr ?_⟩
  generalize (width : ℚ) * target / height = exact at *
  generalize nearest 16 exact = w at *
  push_cast at near
  rcases cases with same | ⟨zero, least⟩ | ⟨le, more, close⟩
  · rw [same]
    constructor <;> linarith
  · rw [zero, Nat.cast_zero] at near
    rw [least]
    push_cast
    constructor <;> linarith
  · have le' : (clamp width w : ℚ) ≤ width := by exact_mod_cast le
    have more' : (width : ℚ) < w := by exact_mod_cast more
    have close' : (width : ℚ) < clamp width w + 16 := by exact_mod_cast close
    constructor <;> linarith

/-- Scaled again, a width is at most one step from the width scaled once, and the same
where the first one kept the aspect. -/
theorem widthFor_again {inner : ℕ} (fits : width + 16 ≤ 2 ^ 32) (le : inner ≤ height) (less : target < inner) :
    (widthFor (widthFor width height inner) inner target ≤ widthFor width height target + 16 ∧
        widthFor width height target ≤ widthFor (widthFor width height inner) inner target + 16) ∧
      (widthFor width height inner * height = width * inner →
        widthFor (widthFor width height inner) inner target = widthFor width height target) := by
  rcases le.eq_or_lt with rfl | lower
  · rw [widthFor_of_le le_rfl]
    exact ⟨⟨Nat.le_add_right _ _, Nat.le_add_right _ _⟩, fun _ => rfl⟩
  · set scaled := widthFor width height inner with first
    have within : scaled ≤ width := widthFor_le width height inner
    have again : widthFor scaled inner target = clamp scaled (nearest 16 (scaled * target / inner)) :=
      widthFor_eq_clamp (by omega) less
    have once := widthFor_eq_clamp fits (less.trans lower)
    have pos : (0 : ℚ) < inner := by exact_mod_cast Nat.zero_lt_of_lt less
    have high : (0 : ℚ) < height := pos.trans (by exact_mod_cast lower)
    rw [again, once]
    by_cases wide : 16 ≤ width
    · obtain ⟨⟨multiple, least⟩, near⟩ := scaled_near wide fits lower
      rw [← first] at multiple least near
      have below := nearest_le_of_le (by decide) multiple (exact_le scaled less.le)
      have nonneg : (0 : ℚ) ≤ target / inner := by positivity
      have part : (target / inner : ℚ) < 1 := by
        rw [div_lt_one pos]
        exact_mod_cast less
      have apart : (scaled * target / inner : ℚ) - width * target / height =
          (scaled - width * inner / height) * (target / inner) := by
        field_simp
      obtain ⟨low, up⟩ := abs_le.mp near
      have le_part := mul_le_mul_of_nonneg_right up nonneg
      have part_le := mul_le_mul_of_nonneg_right low nonneg
      have left : nearest 16 (scaled * target / inner) ≤ nearest 16 (width * target / height) + 16 :=
        nearest_le_add (by decide) (by push_cast; linarith)
      have right : nearest 16 (width * target / height) ≤ nearest 16 (scaled * target / inner) + 16 :=
        nearest_le_add (by decide) (by push_cast; linarith)
      refine ⟨clamp_near least within below (dvd_nearest 16 _) (dvd_nearest 16 _) left right, ?_⟩
      intro kept
      have kept' : (scaled : ℚ) * height = width * inner := by exact_mod_cast kept
      have same : (scaled * target / inner : ℚ) = width * target / height := by
        rw [div_eq_div_iff pos.ne' high.ne', mul_right_comm, kept']
        ring
      rw [← same, clamp_of_le least below, clamp_of_le (least.trans within) (below.trans within)]
    · have small : width < 16 := Nat.not_le.mp wide
      have whole : scaled = width := (widthFor_eq_clamp fits lower).trans (clamp_small small _)
      rw [whole, clamp_small small, clamp_small small]
      exact ⟨⟨Nat.le_add_right _ _, Nat.le_add_right _ _⟩, fun _ => rfl⟩

end Width

/-! ## The height -/

section Height

variable {width : ℕ → ℕ} {fits other : ℕ → ℕ → Bool} {h : ℕ}

theorem lower_le (width : ℕ → ℕ) (fits : ℕ → ℕ → Bool) (h : ℕ) : lower width fits h ≤ h := by
  fun_induction lower width fits h with
  | case1 h fit => exact le_rfl
  | case2 h fit ih => omega
  | case3 h few => exact le_rfl

theorem lower_even (width : ℕ → ℕ) (fits : ℕ → ℕ → Bool) (even : 2 ∣ h) : 2 ∣ lower width fits h := by
  fun_induction lower width fits h with
  | case1 h fit => exact even
  | case2 h fit ih => exact ih (by omega)
  | case3 h few => exact even

theorem lower_pos (width : ℕ → ℕ) (fits : ℕ → ℕ → Bool) (pos : 0 < h) : 0 < lower width fits h := by
  fun_induction lower width fits h with
  | case1 h fit => exact pos
  | case2 h fit ih => exact ih (Nat.succ_pos h)
  | case3 h few => exact pos

/-- The loop ends at a size that fits, or at two rows. -/
theorem lower_fits (width : ℕ → ℕ) (fits : ℕ → ℕ → Bool) (h : ℕ) :
    lower width fits h ≤ 2 ∨ fits (width (lower width fits h)) (lower width fits h) := by
  fun_induction lower width fits h with
  | case1 h fit => exact .inr fit
  | case2 h fit ih => exact ih
  | case3 h few =>
    left
    by_contra more
    exact few (h - 3) (by omega)

theorem lower_of_fits (fit : h ≤ 2 ∨ fits (width h) h) : lower width fits h = h := by
  fun_cases lower width fits h with
  | case1 h fit => rfl
  | case2 h unfit => exact absurd fit (by simp [unfit])
  | case3 h few => rfl

theorem lower_congr (same : ∀ n ≤ h, fits (width n) n = other (width n) n) : lower width fits h = lower width other h := by
  fun_induction lower width fits h with
  | case1 h fit => rw [lower, if_pos ((same _ le_rfl).symm.trans fit)]
  | case2 h fit ih =>
    rw [lower, if_neg (by rwa [← same _ le_rfl]), ih fun n le => same n (by omega)]
  | case3 h few =>
    symm
    apply lower_of_fits
    left
    by_contra more
    exact few (h - 3) (by omega)

end Height

/-- Less of each fits where more of each does. -/
theorem fits_mono {fps w h fps' w' h' : ℕ} (slower : fps' ≤ fps) (narrower : w' ≤ w) (lower : h' ≤ h) (fit : fits fps w h) :
    fits fps' w' h' := by
  unfold fits at *
  simp only [decide_eq_true_eq] at *
  have mbs : (w' + 15) / 16 * ((h' + 15) / 16) ≤ (w + 15) / 16 * ((h + 15) / 16) := by gcongr
  exact ⟨mbs.trans fit.1, (Nat.mul_le_mul mbs slower).trans fit.2⟩

theorem fitsLevel_eq {fps w h : ℕ} (wide : w + 16 ≤ 2 ^ 32) (high : h + 16 ≤ 2 ^ 32) :
    VideoPipeline.fitsLevel fps w h = fits fps w h := by
  unfold VideoPipeline.fitsLevel fits
  rw [Nat.mod_eq_of_lt (by omega), Nat.mod_eq_of_lt (by omega)]

/-! ## The sizes -/

/-- What every size keeps: even rows, not nothing, not over the source, within the level
or down to two rows. -/
structure Sound (sourceW sourceH fps width height : ℕ) : Prop where
  even : 2 ∣ height
  seen : 2 ≤ sourceW → 2 ≤ sourceH → 2 ≤ width ∧ 2 ≤ height
  within : width ≤ sourceW ∧ height ≤ sourceH
  level : height = 2 ∨ fits fps width height

section Sizes

variable {sourceW sourceH presetH fps : ℕ}

theorem encodeSizeFor_none (none : sourceW / 2 * 2 = 0 ∨ sourceH / 2 * 2 = 0) :
    encodeSizeFor sourceW sourceH presetH fps = (0, 0) := if_pos none

/-- The height that the loop starts at. -/
def startHeight (sourceH presetH : ℕ) : ℕ :=
  if 0 < presetH ∧ presetH < sourceH / 2 * 2 then presetH / 2 * 2 else sourceH / 2 * 2

theorem encodeSizeFor_some (wide : sourceW / 2 * 2 ≠ 0) (high : sourceH / 2 * 2 ≠ 0) :
    encodeSizeFor sourceW sourceH presetH fps =
      (widthFor (sourceW / 2 * 2) (sourceH / 2 * 2)
          (lower (widthFor (sourceW / 2 * 2) (sourceH / 2 * 2)) (fits fps) (startHeight sourceH presetH)),
        lower (widthFor (sourceW / 2 * 2) (sourceH / 2 * 2)) (fits fps) (startHeight sourceH presetH)) :=
  if_neg (not_or.mpr ⟨wide, high⟩)

theorem startHeight_spec (high : sourceH / 2 * 2 ≠ 0) (preset : presetH ≠ 1) :
    2 ∣ startHeight sourceH presetH ∧ 0 < startHeight sourceH presetH ∧ startHeight sourceH presetH ≤ sourceH / 2 * 2 := by
  unfold startHeight
  split_ifs <;> omega

/-- An even height up to the source's is where the loop starts. -/
theorem startHeight_eq (even : 2 ∣ presetH) (pos : 0 < presetH) (le : presetH ≤ sourceH / 2 * 2) :
    startHeight sourceH presetH = presetH := by
  unfold startHeight
  split_ifs <;> omega

/-- The two sides take the same size. -/
theorem videoPipeline_encodeSizeFor (wide : sourceW + 15 ≤ 2 ^ 32) (high : sourceH + 15 ≤ 2 ^ 32) :
    ((VideoPipeline.encodeSizeFor sourceW sourceH presetH fps).width,
        (VideoPipeline.encodeSizeFor sourceW sourceH presetH fps).height) = encodeSizeFor sourceW sourceH presetH fps := by
  by_cases none : sourceW / 2 * 2 = 0 ∨ sourceH / 2 * 2 = 0
  · rw [encodeSizeFor_none none, VideoPipeline.encodeSizeFor, if_pos none]
  · obtain ⟨some, rows⟩ := not_or.mp none
    have within : startHeight sourceH presetH ≤ sourceH / 2 * 2 := by
      unfold startHeight
      split_ifs <;> omega
    have loop : lower (widthFor (sourceW / 2 * 2) (sourceH / 2 * 2)) (VideoPipeline.fitsLevel fps) (startHeight sourceH presetH) =
        lower (widthFor (sourceW / 2 * 2) (sourceH / 2 * 2)) (fits fps) (startHeight sourceH presetH) := by
      refine lower_congr fun n le => fitsLevel_eq ?_ (by omega)
      have narrow := widthFor_le (sourceW / 2 * 2) (sourceH / 2 * 2) n
      omega
    rw [encodeSizeFor_some some rows, VideoPipeline.encodeSizeFor, if_neg none, ← loop, videoPipeline_widthFor rows]
    rfl

/-- The top size: a height of the source or less, its width, within the level. -/
theorem encodeSizeFor_top (wide : sourceW / 2 * 2 ≠ 0) (high : sourceH / 2 * 2 ≠ 0) (preset : presetH ≠ 1) (fps : ℕ) :
    ∃ h, encodeSizeFor sourceW sourceH presetH fps = (widthFor (sourceW / 2 * 2) (sourceH / 2 * 2) h, h) ∧
      (2 ∣ h ∧ 0 < h ∧ h ≤ sourceH / 2 * 2) ∧ (h = 2 ∨ fits fps (widthFor (sourceW / 2 * 2) (sourceH / 2 * 2) h) h) := by
  obtain ⟨even, pos, le⟩ := startHeight_spec high preset
  refine ⟨_, encodeSizeFor_some wide high, ⟨lower_even _ _ even, lower_pos _ _ pos, (lower_le _ _ _).trans le⟩, ?_⟩
  rcases lower_fits (widthFor (sourceW / 2 * 2) (sourceH / 2 * 2)) (fits fps) (startHeight sourceH presetH) with low | fit
  · left
    have rows := lower_pos (widthFor (sourceW / 2 * 2) (sourceH / 2 * 2)) (fits fps) pos
    have pairs := lower_even (widthFor (sourceW / 2 * 2) (sourceH / 2 * 2)) (fits fps) even
    omega
  · exact .inr fit

/-- Asked for an even height that fits, a side takes that height. -/
theorem encodeSizeFor_rung (wide : sourceW / 2 * 2 ≠ 0) (high : sourceH / 2 * 2 ≠ 0) (even : 2 ∣ presetH) (pos : 0 < presetH)
    (le : presetH ≤ sourceH / 2 * 2)
    (fit : presetH = 2 ∨ fits fps (widthFor (sourceW / 2 * 2) (sourceH / 2 * 2) presetH) presetH) :
    encodeSizeFor sourceW sourceH presetH fps = (widthFor (sourceW / 2 * 2) (sourceH / 2 * 2) presetH, presetH) := by
  rw [encodeSizeFor_some wide high, startHeight_eq even pos le, lower_of_fits]
  exact fit.imp_left fun two => two.le

/-- A rung has the top size, at the frame rate or a lower one, or is one of the geometries. -/
theorem mem_rungsFor {width height : ℕ} {rung : Rung} (member : rung ∈ rungsFor width height fps) :
    (∃ slower ≤ fps, rung = ⟨width, height, slower⟩) ∨
      ∃ target, (2 ∣ target ∧ 2 < target ∧ target < height) ∧ rung = ⟨widthFor width height target, target, min LOW_FPS fps⟩ := by
  unfold rungsFor at member
  rcases List.mem_append.mp member with first | geometry
  · left
    rcases List.mem_cons.mp first with rfl | low
    · exact ⟨fps, le_rfl, rfl⟩
    · split_ifs at low with faster
      · exact ⟨LOW_FPS, faster.le, List.mem_singleton.mp low⟩
      · cases low
  · right
    obtain ⟨target, listed, rfl⟩ := List.mem_map.mp geometry
    obtain ⟨listed, less⟩ := List.mem_filter.mp listed
    refine ⟨target, ?_, rfl⟩
    have even : ∀ n ∈ GEOMETRY_HEIGHTS, 2 ∣ n ∧ 2 < n := by decide
    exact ⟨(even target listed).1, (even target listed).2, of_decide_eq_true less⟩

theorem sound_none (none : sourceW / 2 * 2 = 0 ∨ sourceH / 2 * 2 = 0) (fps : ℕ) : Sound sourceW sourceH fps 0 0 := by
  refine ⟨by decide, ?_, ⟨Nat.zero_le _, Nat.zero_le _⟩, .inr ?_⟩
  · intro wide high
    omega
  · unfold fits
    rw [decide_eq_true_eq]
    exact ⟨Nat.zero_le _, (Nat.zero_mul fps).trans_le (Nat.zero_le _)⟩

theorem sound_some {width height : ℕ} (even : 2 ∣ height) (pos : 0 < height) (le : height ≤ sourceH / 2 * 2)
    (two : 2 ≤ width) (within : width ≤ sourceW / 2 * 2) (level : height = 2 ∨ fits fps width height) :
    Sound sourceW sourceH fps width height :=
  ⟨even, fun _ _ => ⟨two, by omega⟩, by omega, level⟩

/-- A rung as it is announced, beside the size that is encoded for it. -/
structure Encoded (sourceW sourceH : ℕ) (top : ℕ × ℕ) (rung : Rung) (size : VideoPipeline.EncodeSize) : Prop where
  height : size.height = rung.height
  width : size.width ≤ rung.width + 16 ∧ rung.width ≤ size.width + 16
  exact : rung.height = top.2 ∨ top.1 * (sourceH / 2 * 2) = sourceW / 2 * 2 * top.2 → size.width = rung.width
  announced : Sound sourceW sourceH rung.fps rung.width rung.height
  encoded : Sound sourceW sourceH rung.fps size.width size.height

/-- The host and libmello take the same top size, and the same height for every rung.
The width of a rung is at most 16 off what is encoded, and not off where the rung is of
the top height or the top size kept the aspect. -/
theorem rungs_encoded (wide : sourceW + 15 ≤ 2 ^ 32) (high : sourceH + 15 ≤ 2 ^ 32) (preset : presetH ≠ 1) (fps : ℕ) :
    ((VideoPipeline.encodeSizeFor sourceW sourceH presetH fps).width,
        (VideoPipeline.encodeSizeFor sourceW sourceH presetH fps).height) = encodeSizeFor sourceW sourceH presetH fps ∧
      ∀ rung ∈ rungsFor (encodeSizeFor sourceW sourceH presetH fps).1 (encodeSizeFor sourceW sourceH presetH fps).2 fps,
        Encoded sourceW sourceH (encodeSizeFor sourceW sourceH presetH fps) rung
          (VideoPipeline.encodeSizeFor sourceW sourceH rung.height rung.fps) := by
  refine ⟨videoPipeline_encodeSizeFor wide high, ?_⟩
  intro rung member
  have size : ((VideoPipeline.encodeSizeFor sourceW sourceH rung.height rung.fps).width,
      (VideoPipeline.encodeSizeFor sourceW sourceH rung.height rung.fps).height) =
        encodeSizeFor sourceW sourceH rung.height rung.fps := videoPipeline_encodeSizeFor wide high
  by_cases none : sourceW / 2 * 2 = 0 ∨ sourceH / 2 * 2 = 0
  · rw [encodeSizeFor_none none] at member size ⊢
    obtain ⟨width, height⟩ := Prod.mk.inj size
    rcases mem_rungsFor member with ⟨slower, -, rfl⟩ | ⟨target, ⟨-, -, less⟩, -⟩
    · refine ⟨height, ?_, fun _ => width, sound_none none slower, ?_⟩
      · rw [width]
        exact ⟨Nat.zero_le _, Nat.zero_le _⟩
      · rw [width, height]
        exact sound_none none slower
    · omega
  · obtain ⟨some, rows⟩ := not_or.mp none
    have two : 2 ≤ sourceW / 2 * 2 := by omega
    have near : sourceW / 2 * 2 + 16 ≤ 2 ^ 32 := by omega
    obtain ⟨h, top, ⟨even, pos, le⟩, fit⟩ := encodeSizeFor_top some rows preset fps
    rw [top] at member ⊢
    rcases mem_rungsFor member with ⟨slower, slow, rfl⟩ | ⟨target, ⟨pairs, more, less⟩, rfl⟩
    · have level := fit.imp_right (fits_mono slow le_rfl le_rfl)
      obtain ⟨width, height⟩ := Prod.mk.inj (size.trans (encodeSizeFor_rung some rows even pos le level))
      have sound := sound_some even pos le (two_le_widthFor two _ h) (widthFor_le _ _ h) level
      refine ⟨height, ?_, fun _ => width, sound, ?_⟩
      · rw [width]
        exact ⟨Nat.le_add_right _ _, Nat.le_add_right _ _⟩
      · rw [width, height]
        exact sound
    · have fitted := fit.resolve_left (by omega)
      have level : target = 2 ∨ fits (min LOW_FPS fps) (widthFor (sourceW / 2 * 2) (sourceH / 2 * 2) target) target :=
        .inr (fits_mono (min_le_right _ _) (widthFor_mono near less.le) less.le fitted)
      have lower : 0 < target ∧ target ≤ sourceH / 2 * 2 := by omega
      obtain ⟨width, height⟩ := Prod.mk.inj (size.trans (encodeSizeFor_rung some rows pairs lower.1 lower.2 level))
      obtain ⟨close, same⟩ := widthFor_again near le less
      refine ⟨height, ?_, ?_, ?_, ?_⟩
      · rw [width]
        exact close.symm
      · rw [width]
        rintro (other | kept)
        · exact absurd other less.ne
        · exact (same kept).symm
      · have narrow := widthFor_le (widthFor (sourceW / 2 * 2) (sourceH / 2 * 2) h) h target
        refine sound_some pairs lower.1 lower.2 (two_le_widthFor (two_le_widthFor two _ h) _ _)
          (narrow.trans (widthFor_le _ _ h)) (.inr ?_)
        exact fits_mono (min_le_right _ _) narrow less.le fitted
      · rw [width, height]
        exact sound_some pairs lower.1 lower.2 (two_le_widthFor two _ target) (widthFor_le _ _ target) level

/-- An ultrawide screen at 120 frames a second, over the level at the preset height. -/
theorem ultrawide_encoded :
    ((VideoPipeline.encodeSizeFor 3440 1440 1080 120).width, (VideoPipeline.encodeSizeFor 3440 1440 1080 120).height) =
        encodeSizeFor 3440 1440 1080 120 ∧
      ∀ rung ∈ rungsFor (encodeSizeFor 3440 1440 1080 120).1 (encodeSizeFor 3440 1440 1080 120).2 120,
        Encoded 3440 1440 (encodeSizeFor 3440 1440 1080 120) rung
          (VideoPipeline.encodeSizeFor 3440 1440 rung.height rung.fps) :=
  rungs_encoded (by decide) (by decide) (by decide) 120

example : encodeSizeFor 3440 1440 1080 60 = (2576, 1080) := by decide +kernel

/-- A rung is announced 16 too wide, a preset of one row gives no rows, two rows can be
over the level, and near 2^32 the sums of libmello wrap. -/
theorem rungs_apart :
    (⟨864, 360, 30⟩ ∈ rungsFor (encodeSizeFor 2560 1080 720 60).1 (encodeSizeFor 2560 1080 720 60).2 60 ∧
      (VideoPipeline.encodeSizeFor 2560 1080 360 30).width = 848) ∧
    (encodeSizeFor 1920 1080 1 60).2 = 0 ∧
    (encodeSizeFor 4 4 0 1000000 = (4, 2) ∧ fits 1000000 4 2 = false) ∧
    ((VideoPipeline.encodeSizeFor 4294967295 4 0 60).height = 4 ∧ (encodeSizeFor 4294967295 4 0 60).2 = 2) := by
  decide +kernel

end Sizes

end Mello.Stream.Rungs
