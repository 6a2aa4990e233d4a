import RegexCompiler.Regex.Parser
import RegexCompiler.Regex.Refusal

/-!
# Reading by recursive descent

The pass from right to left, with calls in the place of the stack of open groups and waiting
operators. A step reads one expression, a group reads steps up to its `(`, and an operator reads the
step that is its operand. The three share a cursor and call one another, so nothing in their form
shows that they come to an end. They get a budget for nested calls and further rounds of a loop, and
have no result where it is used up. They read the text between two marks, `$(` and `)`, which make
it a group.

Nothing here is taken for granted. Every access to a character and every move of the cursor is
checked, and whatever must not happen has an outcome of its own. The cursor keeps account of the
characters that were read and of the groups that were closed.
-/

namespace RegexCompiler.Regex.Descent

/-- A text with the marks around it. The sign in front of it is no symbol of any alphabet. -/
def frame (text : List Char) : List Char :=
  '$' :: '(' :: text ++ [')']

/-- The position in the text of a character of the frame. -/
def textPosition (index : Nat) : Nat :=
  index - 2

/-- The arms that only stand there for safety. -/
inductive Arm where
  /-- A group finds the beginning of the input instead of its `(`. -/
  | groupAtBeginning
  /-- An operator finds the mark instead of its operand. -/
  | operandAtMark
  /-- A step finds a character that is no symbol. -/
  | foreignSymbol

/-- Why reading stops without an expression. -/
inductive Stop where
  /-- The text is refused. -/
  | refused (fault : Fault)
  /-- The text is refused by an arm that only stands there for safety. -/
  | guarded (arm : Arm) (fault : Fault)
  /-- A step is taken where no input is left. -/
  | withoutInput
  /-- The whole frame is not one expression. -/
  | notOneRoot
  /-- A character or a part of the frame is asked for that it does not have. -/
  | outOfRange
  /-- The cursor is moved to the left of the beginning. -/
  | underflow

structure Cursor where
  /-- The number of characters that have not been read. -/
  remaining : Nat
  depth : Nat
  /-- The indices of the characters that were read, the latest one first. -/
  consumed : List Nat
  /-- The groups that were closed, as the indices of their `)` and their `(`. -/
  closed : List (Nat × Nat)

/-- The cursor behind the last character. -/
def Cursor.start (text : List Char) : Cursor :=
  ⟨(frame text).length, 0, [], []⟩

/-- A computation on the cursor that may stop, or have no result. Where it stops, the cursor
stays. -/
abbrev Reading := ExceptT Stop (StateT Cursor Option)

/-- The budget is used up. -/
def unfinished {α : Type} : Reading α :=
  ExceptT.mk fun _ => none

/-- What one step yields. -/
inductive Parsed where
  | node (r : Regex)
  /-- The mark in front of the text. -/
  | mark

section Characters

variable (chars : List Char)

/-- The next character to the left. -/
def peek : Reading (Option Char) := do
  let remaining := (← get).remaining
  if remaining = 0 then return none
  else
    match chars[remaining - 1]? with
    | some c => return some c
    | none => throw .outOfRange

/-- Moves behind the next character to the left and gives its index. -/
def advance : Reading Nat := do
  let cursor ← get
  if cursor.remaining = 0 then throw .underflow
  else
    let index := cursor.remaining - 1
    set { cursor with remaining := index, consumed := index :: cursor.consumed }
    return index

/-- Notes that a group reaches from one parenthesis to the other. -/
def close (closing opening : Nat) : Reading Unit :=
  modify fun cursor => { cursor with closed := (closing, opening) :: cursor.closed }

/-- The characters from one index up to another. -/
def slice (first last : Nat) : Reading (List Char) :=
  if first ≤ last ∧ last ≤ chars.length then return between chars first last
  else throw .outOfRange

/-- Whether only parentheses stand between the mark and a character. -/
def followsMark (index : Nat) : Reading Bool := do
  let before ← slice chars 0 index
  return before.reverse.find? (· ≠ '(') == some '$'

end Characters

/-- Stops with the fault of a check that does not pass. -/
def check {α : Type} : Except Fault α → Reading α
  | .ok a => return a
  | .error fault => throw (.refused fault)

section Limit

variable (limit : Option Nat)

/-- Goes one level deeper, if the limit allows for it. -/
def goDown (c : Char) (index : Nat) : Reading Unit := do
  let depth ← check (enter limit (← get).depth c (textPosition index))
  modify fun cursor => { cursor with depth := depth }

def goUp : Reading Unit :=
  modify fun cursor => { cursor with depth := cursor.depth - 1 }

def limitUnion (union : Regex) (index : Nat) : Reading Unit := do
  check (checkUnion limit (← get).depth union (textPosition index))

end Limit

variable (alphabet : Alphabet) (limit : Option Nat) (chars : List Char)

mutual

/-- Reads one expression. An alternative takes its right operand from the expressions that its group
has read so far, the leftmost of which comes first. -/
def walk : Nat → List Regex → Reading (Parsed × List Regex)
  | 0, _ => unfinished
  | budget + 1, siblings => do
    match ← peek chars with
    | none => throw .withoutInput
    | some c =>
      let index ← advance
      match c with
      | '*' => do
        goDown limit c index
        let (child, siblings) ← operand budget c index siblings
        goUp
        return (.node (.star child), siblings)
      | '+' =>
        match siblings with
        | [] => throw (.refused (.dangling c (textPosition index)))
        | right :: siblings => do
          goDown limit c index
          let (left, siblings) ← operand budget c index siblings
          goUp
          limitUnion limit (.union left right) index
          return (.node (.union left right), siblings)
      | ')' => do
        goDown limit c index
        let r ← group budget index []
        goUp
        return (.node r, siblings)
      | c =>
        if c = '$' ∧ index = 0 then return (.mark, siblings)
        else if c ∈ alphabet then do
          if ← followsMark chars index then return (.node (.start c), siblings)
          else return (.node (.letter c), siblings)
        else throw (.guarded .foreignSymbol (.foreign c (textPosition index)))

/-- Reads the rest of the group that ends at an index. -/
def group : Nat → Nat → List Regex → Reading Regex
  | 0, _, _ => unfinished
  | budget + 1, closing, children => do
    match ← peek chars with
    | some '(' => do
      let opening ← advance
      close closing opening
      return .word children
    | some _ => do
      match ← walk budget children with
      | (.node r, children) => group budget closing (r :: children)
      | (.mark, children) => group budget closing children
    | none => throw (.guarded .groupAtBeginning (.unopened (textPosition closing)))

/-- Reads the operand of an operator. -/
def operand : Nat → Char → Nat → List Regex → Reading (Regex × List Regex)
  | 0, _, _, _ => unfinished
  | budget + 1, operator, index, siblings => do
    match ← peek chars with
    | none => throw (.refused (.dangling operator (textPosition index)))
    | some '(' => throw (.refused (.dangling operator (textPosition index)))
    | some '+' => throw (.refused (.dangling operator (textPosition index)))
    | some _ => do
      match ← walk budget siblings with
      | (.node r, siblings) => return (r, siblings)
      | (.mark, _) => throw (.guarded .operandAtMark (.dangling operator (textPosition index)))

end

/-- Reads expressions as long as there is input. -/
def roots : Nat → List Regex → Reading (List Regex)
  | 0, _ => unfinished
  | budget + 1, top => do
    if (← get).remaining = 0 then return top
    else
      match ← walk alphabet limit chars budget top with
      | (.node r, top) => roots budget (r :: top)
      | (.mark, top) => roots budget top

/-- The expression that makes up the whole frame. -/
def onlyRoot : List Regex → Reading Regex
  | [root] => return root
  | _ => throw .notOneRoot

/-- Checks the text between the marks and reads the frame. -/
def read (budget : Nat) : Reading Regex := do
  let text ← slice chars 2 (chars.length - 1)
  check (checkBalance alphabet text.zipIdx [])
  onlyRoot (← roots alphabet limit chars budget [])

/-- Reads a text by descent. There is no result if the budget is too small. -/
def run (text : List Char) (budget : Nat) : Option (Except Stop Regex × Cursor) :=
  (read alphabet limit (frame text) budget).run.run (.start text)

/-- The pairs of parentheses that the first pass matches, as the positions of their `)` and their
`(`. The positions of the `(` that are open are given innermost first. -/
def matching : Located → List Nat → List (Nat × Nat)
  | [], _ => []
  | ('(', i) :: rest, opened => matching rest (i :: opened)
  | (')', _) :: rest, [] => matching rest []
  | (')', j) :: rest, i :: outer => (j, i) :: matching rest outer
  | _ :: rest, opened => matching rest opened

/-- The indices of these pairs in the frame, which is itself one more pair. -/
def pairs (text : List Char) : List (Nat × Nat) :=
  (text.length + 2, 1) :: (matching text.zipIdx []).map fun (j, i) => (j + 2, i + 2)

/-- The cursor has read the characters to its right one after the other, and of the pairs that the
first pass matches it has closed those whose `(` is among them. -/
structure Cursor.Accounts (text : List Char) (cursor : Cursor) : Prop where
  bounded : cursor.remaining ≤ (frame text).length
  consumed : cursor.consumed =
    List.range' cursor.remaining ((frame text).length - cursor.remaining)
  closed : ∀ pair, pair ∈ cursor.closed ↔ pair ∈ pairs text ∧ cursor.remaining ≤ pair.2

end RegexCompiler.Regex.Descent
