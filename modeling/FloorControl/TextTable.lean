/-!
# Tables of text

A table has a heading and rows below it, all of one length. Every column is as wide as its widest
cell, cells are set to the left, and a rule stands above and below each row.
-/

namespace FloorControl

def setLeft (width : Nat) (text : String) : String :=
  text ++ String.ofList (List.replicate (width - text.length) ' ')

def setRight (width : Nat) (text : String) : String :=
  String.ofList (List.replicate (width - text.length) ' ') ++ text

theorem length_setLeft (width : Nat) (text : String) :
    (setLeft width text).length = max width text.length := by
  simp [setLeft]; omega

theorem length_setRight (width : Nat) (text : String) :
    (setRight width text).length = max width text.length := by
  simp [setRight]; omega

namespace TextTable

def widths (heading : List String) (rows : List (List String)) : List Nat :=
  rows.foldl (fun widths row => List.zipWith (fun w cell => max w cell.length) widths row)
    (heading.map String.length)

def rule (widths : List Nat) : String :=
  String.join (widths.map fun w => String.ofList ('+' :: List.replicate (w + 2) '-')) ++ "+"

def row (widths : List Nat) (cells : List String) : String :=
  String.join (List.zipWith (fun w cell => "| " ++ setLeft w cell ++ " ") widths cells) ++ "|"

def lines (heading : List String) (rows : List (List String)) : List String :=
  let w := widths heading rows
  rule w :: (heading :: rows).flatMap fun cells => [row w cells, rule w]

end TextTable
end FloorControl
