import CssSort.Ascii

/-! Text as the list of its UTF-8 bytes. Positions and lengths count bytes, and
text is ordered byte by byte. -/
namespace CssSort

abbrev Bytes := List UInt8

namespace Bytes

def ofString (text : String) : Bytes :=
  text.toUTF8.data.toList

def isUtf8 (bytes : Bytes) : Bool :=
  (ByteArray.mk bytes.toArray).validateUTF8

def trimStart (bytes : Bytes) : Bytes :=
  bytes.dropWhile Ascii.isBlank

def trimEnd (bytes : Bytes) : Bytes :=
  (bytes.reverse.dropWhile Ascii.isBlank).reverse

def trim (bytes : Bytes) : Bytes :=
  trimEnd (trimStart bytes)

/-- The blanks that `trimEnd` cuts off. -/
def blankEnd (bytes : Bytes) : Bytes :=
  (bytes.reverse.takeWhile Ascii.isBlank).reverse

theorem trimEnd_append_blankEnd (bytes : Bytes) : trimEnd bytes ++ blankEnd bytes = bytes := by
  rw [trimEnd, blankEnd, ← List.reverse_append, List.takeWhile_append_dropWhile,
    List.reverse_reverse]

end Bytes
end CssSort
