import Mathlib
import RyanAI.Lib.JsNumber
import RyanAI.Lib.Utf16

/-!
# The chunks of a reply

`chunkText` of `chunk.ts` cuts a text of UTF-16 code units into chunks of at most `maxCodePoints` points, after a line
or a sentence where that leaves a chunk of some length. The place of a marker in the joined window is counted back into
points; whatever that count is, the loop slices the list of points. So `chunkLoop_groups` speaks of groups of points and
`chunkText_lossless` of the text.
-/

namespace RyanAI.Gateway.ReplyChunks

open Lib Lib.Utf16

/-- `joined.lastIndexOf(marker)`. -/
def lastIndexOf (marker : List UInt16) : List UInt16 → Option Nat
  | [] => if marker.isPrefixOf [] then some 0 else none
  | u :: rest =>
    match lastIndexOf marker rest with
    | some index => some (index + 1)
    | none => if marker.isPrefixOf (u :: rest) then some 0 else none

/-- `preferred`. -/
def preferred : List (List UInt16) :=
  [[10, 10], [10], [0x3002], [0xFF01], [0xFF1F], [0x21], [0x3F], [0xFF1B], [0x3B], [0x20]]

/-- `Math.floor(maxCodePoints * 0.55)`, in double arithmetic. -/
def minimumPreferredBreak (maxCodePoints : Nat) : Int :=
  ⌊NumericText.roundDouble (maxCodePoints * NumericText.roundDouble (55 / 100))⌋

def preferredCut (minimum : Int) (joined : List UInt16) : List (List UInt16) → Int
  | [] => -1
  | marker :: markers =>
    match lastIndexOf marker joined with
    | none => preferredCut minimum joined markers
    | some index =>
      let candidate : Int := (points (joined.take (index + marker.length))).length
      if minimum ≤ candidate then candidate else preferredCut minimum joined markers

def cutOf (maxCodePoints : Nat) (window : List (List UInt16)) : Nat :=
  let cut := preferredCut (minimumPreferredBreak maxCodePoints) window.flatten preferred
  if cut < 1 then maxCodePoints else cut.toNat

/-- The `while` loop. `none` means that the fuel is used up. -/
def chunkLoop (points : List (List UInt16)) (maxCodePoints : Nat) :
    Nat → Nat → List (List UInt16) → Option (List (List UInt16))
  | 0, _, _ => none
  | fuel + 1, offset, chunks =>
    if offset < points.length then
      let remaining := points.length - offset
      if remaining ≤ maxCodePoints then some (chunks ++ [(points.drop offset).flatten])
      else
        let cut := cutOf maxCodePoints ((points.drop offset).take maxCodePoints)
        chunkLoop points maxCodePoints fuel (offset + cut)
          (chunks ++ [((points.drop offset).take cut).flatten])
    else some chunks

def positiveSafeInteger : JsNumber → Option Nat
  | .finite q => if q.den = 1 ∧ |q.num| < 2 ^ 53 ∧ 1 ≤ q then some q.num.toNat else none
  | _ => none

/-- `chunkText`. -/
def chunkText (fuel : Nat) (text : List UInt16) (maxCodePoints : JsNumber) :
    Option (Except String (List (List UInt16))) :=
  if text = [] then some (.ok [])
  else
    match positiveSafeInteger maxCodePoints with
    | none => some (.error "maxCodePoints must be a positive integer")
    | some n =>
      let points := points text
      if points.length ≤ n then some (.ok [text]) else (chunkLoop points n fuel 0 []).map .ok

theorem positiveSafeInteger_pos (h : positiveSafeInteger maxCodePoints = some n) : 0 < n := by
  cases maxCodePoints with
  | finite q =>
    simp only [positiveSafeInteger] at h
    split at h
    · rename_i hq
      cases h
      have hnum : (0 : ℤ) < q.num := Rat.num_pos.2 (lt_of_lt_of_le one_pos hq.2.2)
      omega
    · cases h
  | infinite negative => cases h
  | nan => cases h

theorem preferredCut_le (minimum : Int) (window : List UInt16) (markers : List (List UInt16)) :
    preferredCut minimum window markers ≤ (points window).length := by
  induction markers with
  | nil => simp only [preferredCut]; omega
  | cons marker markers ih =>
    simp only [preferredCut]
    cases lastIndexOf marker window with
    | none => exact ih
    | some index =>
      dsimp only
      split
      · have hle := length_points_le (window.take (index + marker.length))
          (window.drop (index + marker.length))
        rw [List.take_append_drop] at hle
        exact_mod_cast hle
      · exact ih

theorem cutOf_bounds (hpos : 0 < maxCodePoints)
    (hpoints : points window.flatten = window) (hlength : window.length = maxCodePoints) :
    0 < cutOf maxCodePoints window ∧ cutOf maxCodePoints window ≤ maxCodePoints := by
  have hle := preferredCut_le (minimumPreferredBreak maxCodePoints) window.flatten preferred
  rw [hpoints, hlength] at hle
  unfold cutOf
  dsimp only
  split
  · exact ⟨hpos, le_rfl⟩
  · omega

theorem chunkLoop_groups (text : List UInt16) (hpos : 0 < maxCodePoints) (m : Nat) :
    ∀ offset, (points text).length - offset ≤ m →
    ∃ groups : List (List (List UInt16)), groups.flatten = (points text).drop offset ∧
      (∀ g ∈ groups, g ≠ [] ∧ g.length ≤ maxCodePoints) ∧
      ∀ fuel chunks, m < fuel → chunkLoop (points text) maxCodePoints fuel offset chunks =
        some (chunks ++ groups.map List.flatten) := by
  induction m with
  | zero =>
    intro offset hm
    have hend : (points text).length ≤ offset := by omega
    refine ⟨[], by simpa using hend, by simp, fun fuel chunks hfuel => ?_⟩
    obtain ⟨fuel, rfl⟩ := Nat.exists_eq_add_one_of_ne_zero hfuel.ne'
    rw [chunkLoop, if_neg (by omega)]
    simp
  | succ m ih =>
    intro offset hm
    by_cases hoffset : offset < (points text).length
    · by_cases hlast : (points text).length - offset ≤ maxCodePoints
      · refine ⟨[(points text).drop offset], by simp, ?_, fun fuel chunks hfuel => ?_⟩
        · intro g hg
          rw [List.mem_singleton.1 hg]
          refine ⟨fun hnil => ?_, by rw [List.length_drop]; exact hlast⟩
          rw [List.drop_eq_nil_iff] at hnil
          omega
        · obtain ⟨fuel, rfl⟩ := Nat.exists_eq_add_one_of_ne_zero (by omega : fuel ≠ 0)
          rw [chunkLoop, if_pos hoffset, if_pos hlast]
          simp
      · -- A full round: the window has `maxCodePoints` points, and the cut is within it.
        have hlength : (((points text).drop offset).take maxCodePoints).length = maxCodePoints := by
          rw [List.length_take, List.length_drop]
          omega
        have hwindow : points (((points text).drop offset).take maxCodePoints).flatten =
            ((points text).drop offset).take maxCodePoints := by
          have hparts : points text = (points text).take offset ++
              ((points text).drop offset).take maxCodePoints ++
              ((points text).drop offset).drop maxCodePoints := by
            rw [List.append_assoc, List.take_append_drop, List.take_append_drop]
          exact points_segment hparts
        obtain ⟨hcut, hle⟩ := cutOf_bounds hpos hwindow hlength
        generalize hk : cutOf maxCodePoints (((points text).drop offset).take maxCodePoints) = k
          at hcut hle
        obtain ⟨groups, hflat, hbound, hloop⟩ := ih (offset + k) (by omega)
        refine ⟨((points text).drop offset).take k :: groups, ?_, ?_, fun fuel chunks hfuel => ?_⟩
        · rw [List.flatten_cons, hflat, ← List.drop_drop, List.take_append_drop]
        · intro g hg
          rcases List.mem_cons.1 hg with rfl | hg
          · rw [← List.length_pos_iff, List.length_take, List.length_drop]
            omega
          · exact hbound g hg
        · obtain ⟨fuel, rfl⟩ := Nat.exists_eq_add_one_of_ne_zero (by omega : fuel ≠ 0)
          rw [chunkLoop, if_pos hoffset, if_neg hlast]
          rw [hk, hloop fuel _ (by omega)]
          simp
    · refine ⟨[], by simpa using hoffset, by simp, fun fuel chunks hfuel => ?_⟩
      obtain ⟨fuel, rfl⟩ := Nat.exists_eq_add_one_of_ne_zero (by omega : fuel ≠ 0)
      rw [chunkLoop, if_neg hoffset]
      simp

/-- The chunks spell the text, are within the limit, and never part a surrogate pair. -/
theorem chunkText_lossless (text : List UInt16) {maxCodePoints : JsNumber} {n : Nat}
    (h : positiveSafeInteger maxCodePoints = some n) :
    ∃ chunks, (∀ fuel, text.length < fuel → chunkText fuel text maxCodePoints = some (.ok chunks)) ∧
      chunks.flatten = text ∧ (∀ c ∈ chunks, c ≠ [] ∧ (points c).length ≤ n) ∧
      ∀ k, ¬ Splits (chunks.take k).flatten (chunks.drop k).flatten := by
  by_cases htext : text = []
  · refine ⟨[], fun fuel _ => by simp [chunkText, htext], by simp [htext], by simp, fun k => ?_⟩
    simpa using not_splits_nil_left []
  have hpos : 0 < n := positiveSafeInteger_pos h
  -- Both ways of the function cut the points into groups.
  obtain ⟨groups, hflat, hbound, hrun⟩ : ∃ groups : List (List (List UInt16)),
      groups.flatten = points text ∧ (∀ g ∈ groups, g ≠ [] ∧ g.length ≤ n) ∧
      ∀ fuel, text.length < fuel → chunkText fuel text maxCodePoints = some (.ok (groups.map List.flatten)) := by
    by_cases hshort : (points text).length ≤ n
    · refine ⟨[points text], by simp, ?_, fun fuel _ => ?_⟩
      · simpa using ⟨htext, hshort⟩
      · simp [chunkText, htext, h, hshort]
    · obtain ⟨groups, hflat, hbound, hloop⟩ := chunkLoop_groups text hpos (points text).length 0
        (by omega)
      refine ⟨groups, by simpa using hflat, hbound, fun fuel hfuel => ?_⟩
      have hle : (points text).length ≤ text.length := length_points_le_length text
      simp [chunkText, htext, h, hshort, hloop fuel [] (by omega)]
  refine ⟨groups.map List.flatten, hrun, ?_, ?_, fun k => ?_⟩
  · rw [← List.flatten_flatten, hflat, flatten_points]
  · intro c hc
    obtain ⟨g, hg, rfl⟩ := List.mem_map.1 hc
    obtain ⟨hne, hlength⟩ := hbound g hg
    obtain ⟨before, after, rfl⟩ := List.append_of_mem hg
    have hsegment : points text = before.flatten ++ g ++ after.flatten := by
      rw [← hflat]
      simp
    refine ⟨fun hnil => ?_, by rw [points_segment hsegment]; exact hlength⟩
    have := points_segment hsegment
    rw [hnil, points_nil] at this
    exact hne this.symm
  · have hfront : (groups.take k).flatten = (points text).take (groups.take k).flatten.length := by
      rw [← hflat]
      conv_rhs => rw [← List.take_append_drop k groups, List.flatten_append]
      simp
    have hback : (groups.drop k).flatten = (points text).drop (groups.take k).flatten.length := by
      rw [← hflat]
      conv_rhs => rw [← List.take_append_drop k groups, List.flatten_append]
      simp
    rw [← List.map_take, ← List.map_drop, ← List.flatten_flatten, ← List.flatten_flatten, hfront, hback]
    exact (points_cut text _).2.2

def smile : List UInt16 := [0x41, 0xD83D, 0xDE00, 0x3002, 0x42, 0x43]

theorem chunkText_lossless_smile :
    ∃ chunks, chunkText 7 smile (.finite 3) = some (.ok chunks) ∧ chunks.flatten = smile ∧
      ∀ c ∈ chunks, c ≠ [] ∧ (points c).length ≤ 3 := by
  have hthree : positiveSafeInteger (.finite 3) = some 3 := by decide
  obtain ⟨chunks, hrun, hflat, hbound, -⟩ := chunkText_lossless smile hthree
  exact ⟨chunks, hrun 7 (by decide), hflat, hbound⟩

end RyanAI.Gateway.ReplyChunks
