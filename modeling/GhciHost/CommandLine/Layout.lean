import GhciHost.Text.Blank

/-! # Layout of help pages

Help pages are made of texts filled into lines and of tables with two columns. -/

namespace GhciHost.CommandLine

open Text

/-- The words of a text, each with the blanks in front of it. -/
def spacedWords (s : List Char) : List (List Char × List Char) :=
  let rec go : List Char → List Char → List Char → List (List Char × List Char)
    | [], _, [] => []
    | [], blanks, word => [(blanks.reverse, word.reverse)]
    | c :: s, blanks, word =>
      if isBlank c then
        if word.isEmpty then go s (c :: blanks) []
        else (blanks.reverse, word.reverse) :: go s [c] []
      else go s blanks (c :: word)
  go s [] []

/-- Go on with a line as long as words fit into it. -/
def fillFrom (width : Nat) (line : List Char) : List (List Char × List Char) → List (List Char)
  | [] => [line]
  | (blanks, word) :: rest =>
    if line.length + blanks.length + word.length ≤ width then
      fillFrom width (line ++ blanks ++ word) rest
    else line :: fillFrom width word rest

/-- The text in lines of at most `width` characters; a longer word has a line of its own. -/
def fill (width : Nat) (text : String) : List (List Char) :=
  match spacedWords text.toList with
  | [] => []
  | (_, word) :: rest => fillFrom width word rest

/-- The width of a page. -/
def pageWidth : Nat := 78

/-- A table with two columns.  The first is as wide as its longest entry, and the second is
    filled. -/
def table (entries : List (String × String)) : String :=
  let first := (entries.map fun e => e.1.length).foldl max 0 + 2
  let pad (n : Nat) : List Char := List.replicate n ' '
  String.ofList <| entries.flatMap fun (name, text) =>
    let lines := fill (pageWidth - first - 2) text
    let head := pad 2 ++ name.toList ++ pad (first - name.length)
    List.intercalate ('\n' :: pad (first + 2)) ((head ++ lines.headD []) :: lines.tail) ++ ['\n']

/-- The first sentence of a text, or as many words as fit into `limit` characters with an
    ellipsis behind them. -/
def abridge (limit : Nat) (text : String) : String :=
  let words := words text.toList
  let ends (w : List Char) : Bool := w.getLast? == some '.'
  let sentence := words.takeWhile (!ends ·) ++ (words.dropWhile (!ends ·)).take 1
  let join (ws : List (List Char)) : List Char := List.intercalate [' '] ws
  let isComplete := (sentence.getLast?.any ends) || sentence.length == words.length
  if isComplete && (join sentence).length ≤ limit then String.ofList (join sentence)
  else
    let counts := (List.range words.length).filter fun n => (join (words.take n)).length + 3 ≤ limit
    String.ofList (join (words.take (counts.getLast?.getD 0)) ++ "...".toList)

end GhciHost.CommandLine
