import BodyContract.Regex.Folding
import BodyContract.Regex.Property
/-!
Texts in lower case, in upper case and between quotes, by the tables of Unicode.

* A letter in upper or title case becomes what it folds to; one that folds to nothing else becomes
  the letter that folds to it, if there is one.
* A letter that is not in upper case becomes the first letter in upper case that folds to the same,
  or the longer text of a table.
* A capital sigma at the end of a word becomes a final sigma.
-/

namespace BodyContract

namespace FoldRun

/-- What a code point folds to in this run. -/
def target? (run : FoldRun) (point : Nat) : Option Nat :=
  let distance := point - run.first
  if run.first ≤ point && distance % run.step = 0 && distance / run.step < run.count then
    some (run.target + distance)
  else
    none

/-- The code point of this run that folds to another one. -/
def source? (run : FoldRun) (point : Nat) : Option Nat :=
  let distance := point - run.target
  if run.target ≤ point && distance % run.step = 0 && distance / run.step < run.count then
    some (run.first + distance)
  else
    none

end FoldRun

namespace LetterCase

/-- What a character folds to, if that is another one. -/
def fold? (c : Char) : Option Char :=
  (FoldRun.table.findSome? fun run => run.target? c.toNat).map Char.ofNat

/-- The characters that fold to a character. -/
def sources (c : Char) : List Char :=
  (FoldRun.table.filterMap fun run => run.source? c.toNat).map Char.ofNat

/-- Letters in title case. -/
def titlecase : CharSet := Category.union (· == "Lt")

/-- Whether a character is in upper case. -/
def isUpper (c : Char) : Bool := Property.uppercase.contains c

/-- Whether a character has a case. -/
def isCased (c : Char) : Bool :=
  isUpper c || Property.lowercase.contains c || titlecase.contains c

/-- Characters inside words that do not count where the neighbours of a letter are looked at: marks,
formats, modifiers, and punctuation such as apostrophes and full stops. -/
def ignorable : CharSet :=
  (Category.union fun category =>
    category == "Mn" || category == "Me" || category == "Cf" || category == "Lm" ||
      category == "Sk").union
    (.ofRanges [⟨0x27, 0x27⟩, ⟨0x2E, 0x2E⟩, ⟨0x3A, 0x3A⟩, ⟨0xB7, 0xB7⟩, ⟨0x387, 0x387⟩,
      ⟨0x55F, 0x55F⟩, ⟨0x5F4, 0x5F4⟩, ⟨0x2018, 0x2019⟩, ⟨0x2024, 0x2024⟩, ⟨0x2027, 0x2027⟩,
      ⟨0xFE13, 0xFE13⟩, ⟨0xFE52, 0xFE52⟩, ⟨0xFE55, 0xFE55⟩, ⟨0xFF07, 0xFF07⟩, ⟨0xFF0E, 0xFF0E⟩,
      ⟨0xFF1A, 0xFF1A⟩])

/-- A character in lower case. -/
def lowerChar (c : Char) : List Char :=
  if c = '\u0130' then
    ['i', '\u0307']
  else if isUpper c || titlecase.contains c then
    [((fold? c).or (sources c).head?).getD c]
  else
    [c]

/-- The capital letters of lower-case letters that need more than one, with those letters in front.
-/
def longCapitals : List (List Nat) :=
  [[0xDF, 0x53, 0x53], [0x131, 0x49], [0x149, 0x2BC, 0x4E], [0x1F0, 0x4A, 0x30C],
    [0x390, 0x399, 0x308, 0x301], [0x3B0, 0x3A5, 0x308, 0x301], [0x587, 0x535, 0x552],
    [0x1E96, 0x48, 0x331], [0x1E97, 0x54, 0x308], [0x1E98, 0x57, 0x30A], [0x1E99, 0x59, 0x30A],
    [0x1E9A, 0x41, 0x2BE], [0x1F50, 0x3A5, 0x313], [0x1F52, 0x3A5, 0x313, 0x300],
    [0x1F54, 0x3A5, 0x313, 0x301], [0x1F56, 0x3A5, 0x313, 0x342], [0x1FB2, 0x1FBA, 0x399],
    [0x1FB3, 0x391, 0x399], [0x1FB4, 0x386, 0x399], [0x1FB6, 0x391, 0x342],
    [0x1FB7, 0x391, 0x342, 0x399], [0x1FBC, 0x391, 0x399], [0x1FC2, 0x1FCA, 0x399],
    [0x1FC3, 0x397, 0x399], [0x1FC4, 0x389, 0x399], [0x1FC6, 0x397, 0x342],
    [0x1FC7, 0x397, 0x342, 0x399], [0x1FCC, 0x397, 0x399], [0x1FD2, 0x399, 0x308, 0x300],
    [0x1FD3, 0x399, 0x308, 0x301], [0x1FD6, 0x399, 0x342], [0x1FD7, 0x399, 0x308, 0x342],
    [0x1FE2, 0x3A5, 0x308, 0x300], [0x1FE3, 0x3A5, 0x308, 0x301], [0x1FE4, 0x3A1, 0x313],
    [0x1FE6, 0x3A5, 0x342], [0x1FE7, 0x3A5, 0x308, 0x342], [0x1FF2, 0x1FFA, 0x399],
    [0x1FF3, 0x3A9, 0x399], [0x1FF4, 0x38F, 0x399], [0x1FF6, 0x3A9, 0x342],
    [0x1FF7, 0x3A9, 0x342, 0x399], [0x1FFC, 0x3A9, 0x399], [0xFB00, 0x46, 0x46],
    [0xFB01, 0x46, 0x49], [0xFB02, 0x46, 0x4C], [0xFB03, 0x46, 0x46, 0x49],
    [0xFB04, 0x46, 0x46, 0x4C], [0xFB05, 0x53, 0x54], [0xFB06, 0x53, 0x54], [0xFB13, 0x544, 0x546],
    [0xFB14, 0x544, 0x535], [0xFB15, 0x544, 0x53B], [0xFB16, 0x54E, 0x546], [0xFB17, 0x544, 0x53D]]

/-- The capital letters of a Greek vowel with a breathing and an iota below: the vowel with its
breathing, then the iota. -/
def iotaCapitals? (point : Nat) : Option (List Char) :=
  let vowel (first : Nat) : List Char := [Char.ofNat (first + point % 8), Char.ofNat 0x399]
  if 0x1F80 ≤ point && point < 0x1F90 then some (vowel 0x1F08)
  else if 0x1F90 ≤ point && point < 0x1FA0 then some (vowel 0x1F28)
  else if 0x1FA0 ≤ point && point < 0x1FB0 then some (vowel 0x1F68)
  else none

/-- The capital letters of a character that needs more than one. -/
def longCapitals? (c : Char) : Option (List Char) :=
  match longCapitals.find? fun row => row.head? == some c.toNat with
  | some (_ :: capitals) => some (capitals.map Char.ofNat)
  | _ => iotaCapitals? c.toNat

/-- A character in upper case. -/
def upperChar (c : Char) : List Char :=
  if isUpper c then
    [c]
  else
    match longCapitals? c with
    | some capitals => capitals
    | none =>
        let folded := (fold? c).getD c
        [if isUpper folded then folded else ((sources folded).find? isUpper).getD c]

/-- Whether the first character that counts has a case. -/
def startsCased (text : List Char) : Bool :=
  match text.dropWhile ignorable.contains with
  | [] => false
  | c :: _ => isCased c

/-- Writes a text in lower case; `before` is what has been read, from the end. -/
def lowerAux (before : List Char) : List Char → List Char
  | [] => []
  | c :: rest =>
      let lower :=
        if c = '\u03A3' then
          [if startsCased before && !startsCased rest then '\u03C2' else '\u03C3']
        else
          lowerChar c
      lower ++ lowerAux (c :: before) rest

end LetterCase

/-- A text in lower case. -/
def lowerText (text : String) : String := String.ofList (LetterCase.lowerAux [] text.toList)

/-- A text in upper case. -/
def upperText (text : String) : String := String.ofList (text.toList.flatMap LetterCase.upperChar)

/-- A text with the ASCII letters in lower case. -/
def lowerAscii (text : String) : String := String.ofList (text.toList.map Char.toLower)

end BodyContract
