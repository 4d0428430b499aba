import ChipEight.Proofs.Text.Lines
import ChipEight.Screen.Picture

namespace ChipEight

theorem pixelMark_eq_star_iff (on : Bool) : pixelMark on = '*' ↔ on = true := by
  cases on <;> simp [pixelMark]

theorem pixelMark_injective : Function.Injective pixelMark := by
  intro on on' h
  rw [Bool.eq_iff_iff, ← pixelMark_eq_star_iff, ← pixelMark_eq_star_iff, h]

theorem newline_not_mem_pixelMarks (row : List Bool) : '\n' ∉ (pixelMarks row).toList := by
  have hmark (on : Bool) : pixelMark on ≠ '\n' := by
    cases on <;> simp [pixelMark]
  simp [pixelMarks, hmark]

namespace Screen

variable {s s' : Screen}

def markLines (s : Screen) : List Line :=
  s.rows.map (List.map pixelMark)

theorem linesOf_picture (s : Screen) : linesOf s.picture = s.markLines ++ [[]] := by
  have hrows : ∀ line ∈ s.rows.map pixelMarks, '\n' ∉ line.toList :=
    List.forall_mem_map.2 fun row _ => newline_not_mem_pixelMarks row
  have hlines : s.picture = joinLines (s.rows.map pixelMarks) := by
    simp [picture, joinLines, Function.comp_def]
  rw [hlines, linesOf_joinLines_whole hrows]
  simp [markLines, pixelMarks]

theorem length_markLines (s : Screen) : s.markLines.length = height := by
  simp [markLines, rows]

theorem length_markLine {y : Nat} (hy : y < s.markLines.length) :
    s.markLines[y].length = width := by
  simp [markLines, rows, row]

theorem mark_at {x y : Nat} (hy : y < s.markLines.length) (hx : x < s.markLines[y].length) :
    s.markLines[y][x] = pixelMark (s.pixel x y) := by
  simp [markLines, rows, row]

theorem pixel_mod (s : Screen) (x y : Nat) : s.pixel (x % width) (y % height) = s.pixel x y :=
  Grid.get_congr s.pixels (Nat.mod_mod x width) (Nat.mod_mod y height)

theorem pixel_of_markLines (h : s.markLines = s'.markLines) (x y : Nat) :
    s.pixel x y = s'.pixel x y := by
  have hy : y % height < s.markLines.length := by
    rw [length_markLines]
    exact Nat.mod_lt y (by decide)
  have hx : x % width < s.markLines[y % height].length := by
    rw [length_markLine hy]
    exact Nat.mod_lt x (by decide)
  have hmark := mark_at hy hx
  simp only [h] at hmark
  rw [mark_at] at hmark
  rw [← s.pixel_mod, ← s'.pixel_mod]
  exact (pixelMark_injective hmark).symm

theorem picture_eq_iff : s.picture = s'.picture ↔ ∀ x y, s.pixel x y = s'.pixel x y := by
  constructor
  · intro h
    have hlines : s.markLines ++ [[]] = s'.markLines ++ [[]] := by
      rw [← linesOf_picture, ← linesOf_picture, h]
    exact pixel_of_markLines (List.append_cancel_right hlines)
  · intro h
    have hrow : s.row = s'.row := by
      funext y
      simp [row, h]
    rw [picture, picture, rows, rows, hrow]

end Screen

end ChipEight
