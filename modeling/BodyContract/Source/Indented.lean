/-!
Text that is written line by line, with the lines of a block indented.

A statement can be terminated after its line is written: the terminator is put in front of a newline
that ends the text, and it is left out where it stands already and behind an opening brace.
-/

namespace BodyContract

/-- A text that is being written. -/
structure IndentedText where
  content : String
  /-- What a line is indented with, once for each open block. -/
  spacer : String
  /-- The number of open blocks. -/
  depth : Nat
  /-- What terminates a statement. -/
  terminator : String
  /-- What stands in front of a label. -/
  labelPrefix : String
deriving DecidableEq, Repr

namespace IndentedText

/-- A text with nothing written. -/
def empty (spacer : String) (terminator : String := "") (labelPrefix : String := "") :
    IndentedText :=
  ⟨"", spacer, 0, terminator, labelPrefix⟩

/-- Opens a block. -/
def openBlock (text : IndentedText) : IndentedText := { text with depth := text.depth + 1 }

/-- Closes a block, if one is open. -/
def closeBlock (text : IndentedText) : IndentedText := { text with depth := text.depth - 1 }

/-- Opens two blocks. -/
def indent (text : IndentedText) : IndentedText := text.openBlock.openBlock

/-- Closes two blocks. -/
def unindent (text : IndentedText) : IndentedText := text.closeBlock.closeBlock

/-- Writes a text as it is. -/
def append (text : IndentedText) (addition : String) : IndentedText :=
  { text with content := text.content ++ addition }

/-- Writes the indentation of a line. -/
def indentation (text : IndentedText) : IndentedText :=
  text.append (String.join (List.replicate text.depth text.spacer))

/-- Writes the beginning of a line with its indentation. -/
def indented (text : IndentedText) (addition : String) : IndentedText :=
  text.indentation.append addition

/-- Ends a line. -/
def newline (text : IndentedText) : IndentedText := text.append "\n"

/-- Writes a line with its indentation. -/
def line (text : IndentedText) (addition : String) : IndentedText :=
  (text.indented addition).newline

/-- Writes a label. -/
def label (text : IndentedText) (name : String) : IndentedText :=
  (text.append text.labelPrefix).append name

/-- Whether the text ends with another one. -/
def endsWith (text : IndentedText) (ending : String) : Bool := text.content.endsWith ending

/-- Puts another text in the place of what is written. -/
def replaceContent (text : IndentedText) (content : String) : IndentedText :=
  { text with content := content }

/-- Whether nothing is to be added behind a character: behind an opening brace, behind the addition
itself, and where blank would follow blank. -/
def isClosedBy (text : IndentedText) (addition : String) (c : Char) : Bool :=
  c == '\x7b' ||
    (String.singleton c == text.spacer && (addition == text.spacer || addition == " ")) ||
    String.singleton c == addition ||
    (c == '\n' && (addition == "\n" || addition == " " || addition == text.terminator))

/-- Adds something to the end of the last line, in front of a newline that ends the text, unless the
line is closed already. -/
def endWith (text : IndentedText) (addition : String) : IndentedText :=
  if addition.isEmpty then
    text
  else
    match text.content.toList.reverse with
    | [] => text.append addition
    | '\n' :: before =>
        if addition == "\n" || (before.head?.map (text.isClosedBy addition)).getD false then
          text
        else
          text.replaceContent (String.ofList before.reverse ++ addition ++ "\n")
    | last :: _ =>
        if String.singleton last == addition ||
            (text.isClosedBy addition last && addition == text.terminator) then
          text
        else
          text.append addition

/-- Terminates the last statement, unless it is terminated already. -/
def terminate (text : IndentedText) : IndentedText := text.endWith text.terminator

/-- Writes a statement on a line of its own. -/
def terminatedLine (text : IndentedText) (addition : String) : IndentedText :=
  (text.indented addition).terminate.newline

end IndentedText

end BodyContract
