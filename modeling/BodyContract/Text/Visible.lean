import BodyContract.Json.Printer
import BodyContract.Regex.Category
/-!
Texts between double quotes in which everything can be seen: quotes, backslashes and line ends are
escaped, and so are characters that have no shape of their own.
-/

namespace BodyContract

namespace Visible

/-- Characters that change the shape of the one in front: marks that take no space, and others that
are written like them. -/
def extending : CharSet :=
  (Category.union fun category => category == "Mn" || category == "Me").union
    (.ofRanges [⟨0x9BE, 0x9BE⟩, ⟨0x9D7, 0x9D7⟩, ⟨0xB3E, 0xB3E⟩, ⟨0xB57, 0xB57⟩, ⟨0xBBE, 0xBBE⟩,
      ⟨0xBD7, 0xBD7⟩, ⟨0xCC2, 0xCC2⟩, ⟨0xCD5, 0xCD6⟩, ⟨0xD3E, 0xD3E⟩, ⟨0xD57, 0xD57⟩,
      ⟨0xDCF, 0xDCF⟩, ⟨0xDDF, 0xDDF⟩, ⟨0x1B35, 0x1B35⟩, ⟨0x200C, 0x200C⟩, ⟨0x302E, 0x302F⟩,
      ⟨0xFF9E, 0xFF9F⟩, ⟨0x1133E, 0x1133E⟩, ⟨0x11357, 0x11357⟩, ⟨0x114B0, 0x114B0⟩,
      ⟨0x114BD, 0x114BD⟩, ⟨0x115AF, 0x115AF⟩, ⟨0x11930, 0x11930⟩, ⟨0x1D165, 0x1D165⟩,
      ⟨0x1D16E, 0x1D172⟩, ⟨0xE0020, 0xE007F⟩])

/-- Characters without a shape: controls, formats, private and unassigned ones, and all blanks but
the space. -/
def shapeless : CharSet :=
  (Category.union fun category => category.startsWith "C" || category.startsWith "Z").inter
    (CharSet.single ' ').compl

/-- The escape of a character by its code point. -/
def pointEscape (c : Char) : List Char :=
  '\\' :: 'u' :: '\x7b' :: (Nat.toDigits 16 c.toNat ++ ['\x7d'])

/-- A character between double quotes. -/
def escapeChar (c : Char) : List Char :=
  if c = '\x00' then ['\\', '0']
  else if c = '\t' then ['\\', 't']
  else if c = '\r' then ['\\', 'r']
  else if c = '\n' then ['\\', 'n']
  else if c = '\\' || c = '"' then ['\\', c]
  else if extending.contains c || shapeless.contains c then pointEscape c
  else [c]

/-- A text between double quotes. -/
def quoted (text : String) : String :=
  String.ofList ('"' :: (text.toList.flatMap escapeChar ++ ['"']))

end Visible

end BodyContract
