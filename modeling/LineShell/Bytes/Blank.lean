import LineShell.Bytes

namespace LineShell.Blank

-- The Unicode property `White_Space`. No blank's bytes begin another's, so trimming needs no
-- decoding and never cuts into a character.
def blanks : List Bytes :=
  [[0x09], [0x0A], [0x0B], [0x0C], [0x0D], [0x20], [0xC2, 0x85], [0xC2, 0xA0], [0xE1, 0x9A, 0x80],
    [0xE2, 0x80, 0x80], [0xE2, 0x80, 0x81], [0xE2, 0x80, 0x82], [0xE2, 0x80, 0x83],
    [0xE2, 0x80, 0x84], [0xE2, 0x80, 0x85], [0xE2, 0x80, 0x86], [0xE2, 0x80, 0x87],
    [0xE2, 0x80, 0x88], [0xE2, 0x80, 0x89], [0xE2, 0x80, 0x8A], [0xE2, 0x80, 0xA8],
    [0xE2, 0x80, 0xA9], [0xE2, 0x80, 0xAF], [0xE2, 0x81, 0x9F], [0xE3, 0x80, 0x80]]

def width (patterns : List Bytes) (text : Bytes) : Nat :=
  match patterns.find? (·.isPrefixOf text) with
  | some blank => blank.length
  | none => 0

def dropLeading (patterns : List Bytes) : Nat → Bytes → Bytes
  | _, [] => []
  | skip + 1, _ :: rest => dropLeading patterns skip rest
  | 0, b :: rest =>
    match width patterns (b :: rest) with
    | 0 => b :: rest
    | n + 1 => dropLeading patterns n rest

def trimLeft (text : Bytes) : Bytes := dropLeading blanks 0 text

def trimRight (text : Bytes) : Bytes :=
  (dropLeading (blanks.map List.reverse) 0 text.reverse).reverse

def trim (text : Bytes) : Bytes := trimRight (trimLeft text)

end LineShell.Blank
