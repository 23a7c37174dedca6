import SourceJar.Text.Utf8

/-!
Entry names without the UTF-8 mark: code page 437.

Bytes below 128 are ASCII; the upper half holds accented letters, box drawing and signs.
-/

namespace SourceJar.Archive

/-- The characters of the bytes from 128 on. -/
def upperHalf : String :=
  "ÇüéâäàåçêëèïîìÄÅÉæÆôöòûùÿÖÜ¢£¥₧ƒ" ++
  "áíóúñÑªº¿⌐¬½¼¡«»░▒▓│┤╡╢╖╕╣║╗╝╜╛┐" ++
  "└┴┬├─┼╞╟╚╔╩╦╠═╬╧╨╤╥╙╘╒╓╫╪┘┌█▄▌▐▀" ++
  "αßΓπΣσµτΦΘΩδ∞φε∩≡±≥≤⌠⌡÷≈°∙·√ⁿ²■\u00A0"

def codePageChar (b : UInt8) : Char :=
  if b < 0x80 then Char.ofNat b.toNat
  else (upperHalf.toList[b.toNat - 0x80]?).getD '?'

/-- Reads bytes as text of the code page. -/
def codePageText (bytes : Bytes) : String := String.ofList (bytes.map codePageChar)

end SourceJar.Archive
