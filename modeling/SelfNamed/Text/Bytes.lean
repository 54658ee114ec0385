/-!
# The size of texts

Texts are lists of characters. Places in them are counted in bytes where a message does so, in
UTF-8.
-/

namespace SelfNamed.Text

/-- The number of bytes that characters take in UTF-8. -/
def byteLength (text : List Char) : Nat := text.foldl (fun total c => total + c.utf8Size) 0

end SelfNamed.Text
