import ChipEight.Screen.Basic

namespace ChipEight

def pixelMark (on : Bool) : Char :=
  if on then '*' else '_'

def pixelMarks (row : List Bool) : String :=
  String.ofList (row.map pixelMark)

namespace Screen

def row (s : Screen) (y : Nat) : List Bool :=
  (List.range width).map fun x => s.pixel x y

def rows (s : Screen) : List (List Bool) :=
  (List.range height).map s.row

def picture (s : Screen) : String :=
  String.join (s.rows.map fun row => pixelMarks row ++ "\n")

end Screen

end ChipEight
