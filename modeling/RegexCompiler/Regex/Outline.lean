import RegexCompiler.Palette
import RegexCompiler.Regex.Basic

/-!
# Outlines of expressions

An outline shows a tree with one line for every node, parents before children. The children of a
node stand two columns further to the right, so the indentation alone carries the structure.
-/

namespace RegexCompiler.Regex

/-- The spaces in front of a line at the given depth. -/
def margin (depth : Nat) : String :=
  String.ofList (List.replicate (2 * depth) ' ')

mutual

/-- The lines of a tree whose root is at the given depth. -/
def outlineLines (palette : Palette) (depth : Nat) : Regex → List String
  | letter c =>
    [margin depth ++ "Letter " ++ palette.symbol ++ c.toString ++ palette.reset]
  | start c =>
    [margin depth ++ "Start " ++ palette.symbol ++ c.toString ++ palette.reset]
  | word [] => [margin depth ++ "Word " ++ palette.muted ++ "∅" ++ palette.reset]
  | word (child :: children) =>
    (margin depth ++ "Word") :: outlineLinesOf palette (depth + 1) (child :: children)
  | union left right =>
    (margin depth ++ "Union") ::
      (outlineLines palette (depth + 1) left ++ outlineLines palette (depth + 1) right)
  | star child => (margin depth ++ "Star") :: outlineLines palette (depth + 1) child

def outlineLinesOf (palette : Palette) (depth : Nat) : List Regex → List String
  | [] => []
  | child :: children =>
    outlineLines palette depth child ++ outlineLinesOf palette depth children

end

/-- The outline of a tree, every line ended by a line break. -/
def outline (palette : Palette) (regex : Regex) : String :=
  String.join ((outlineLines palette 0 regex).map (· ++ "\n"))

end RegexCompiler.Regex
