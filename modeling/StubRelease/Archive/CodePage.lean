/-
# StubRelease.Archive.CodePage -- the characters of bytes in old names

A name in an archive that is not marked as UTF-8 has one byte for each character. Below 128 the characters
are those of ASCII; the others come from the table of code page 437.
-/
import StubRelease.Bytes

namespace StubRelease.Archive

/-- The characters of the bytes from 128 on. -/
def upperCharacters : List Char :=
  ("ÇüéâäàåçêëèïîìÄÅÉæÆôöòûùÿÖÜ¢£¥₧ƒ" ++ "áíóúñÑªº¿⌐¬½¼¡«»" ++ "░▒▓│┤╡╢╖╕╣║╗╝╜╛┐" ++ "└┴┬├─┼╞╟╚╔╩╦╠═╬╧"
    ++ "╨╤╥╙╘╒╓╫╪┘┌█▄▌▐▀" ++ "αßΓπΣσµτΦΘΩδ∞φε∩" ++ "≡±≥≤⌠⌡÷≈°∙·√ⁿ²■\u00A0").toList

/-- The character of a byte. -/
def characterOf (b : UInt8) : Char :=
  if b < 128 then Char.ofNat b.toNat else (upperCharacters[b.toNat - 128]?).getD '\uFFFD'

/-- The text of bytes, one character for each. -/
def ofCodePage (bs : Bytes) : String := String.ofList (bs.map characterOf)

end StubRelease.Archive
