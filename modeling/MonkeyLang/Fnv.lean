/-!
The 64-bit hash of Fowler, Noll and Vo, in the variant that adds a byte before it multiplies.
-/

namespace MonkeyLang.Fnv

def offsetBasis : UInt64 := 0xCBF29CE484222325

def prime : UInt64 := 0x100000001B3

/-- One round: a byte is added to the hash bit by bit, and the sum multiplied. -/
def round (hash : UInt64) (byte : UInt8) : UInt64 := (hash ^^^ byte.toUInt64) * prime

def digest (bytes : List UInt8) : UInt64 := bytes.foldl round offsetBasis

/-- The hash of the UTF-8 form of a text. -/
def digestText (text : String) : UInt64 := digest (text.toList.flatMap String.utf8EncodeChar)

end MonkeyLang.Fnv
