/-!
# Texts as bytes

A text is the bytes of its characters, one to four for each. It can be cut at its end and where a character starts; a
cut anywhere else is a fault.
-/

namespace MigrationLint.Text

abbrev Bytes := List UInt8

def bytes (text : String) : Bytes := text.toUTF8.data.toList

/-- Whether the text can be cut before its byte `i`. The bytes from `0x80` to `0xBF` go on with a character. -/
def isBoundary (s : Bytes) (i : Nat) : Bool :=
  i == 0 || match s[i]? with
    | some b => b < 0x80 || 0xC0 ≤ b
    | none => i == s.length

def sliceFrom? (s : Bytes) (i : Nat) : Option Bytes := if isBoundary s i then some (s.drop i) else none

def sliceTo? (s : Bytes) (i : Nat) : Option Bytes := if isBoundary s i then some (s.take i) else none

def firstChar? (s : Bytes) : Option Char := (ByteArray.mk s.toArray).utf8DecodeChar? 0

def startsWith (s : Bytes) (mark : String) : Bool := (bytes mark).isPrefixOf s

end MigrationLint.Text
