/-! # Quoting words for a shell -/

namespace BlockFlow.Shell

/-- Whether a character means itself wherever it stands in a word. -/
def isPlain (c : Char) : Bool :=
  c.isAlphanum || ['_', '-', '.', '/', '@', ':', '=', '+', ',', '%'].contains c

/-- A character between single quotes.  A single quote closes them, stands after a backslash, and
opens them again. -/
def quoteChar (c : Char) : List Char := if c = '\'' then ['\'', '\\', '\'', '\''] else [c]

/-- A word between single quotes. -/
def quoteChars (cs : List Char) : List Char := '\'' :: (cs.flatMap quoteChar ++ ['\''])

/-- The text that a shell reads as the word `w`: `w` itself where that is safe, and `w` between
single quotes otherwise. -/
def quote (w : String) : String :=
  if w ≠ "" && w.toList.all isPlain then w else String.ofList (quoteChars w.toList)

end BlockFlow.Shell
