/-!
# Length in bytes

Offsets into a source count the bytes of its UTF-8 form.
-/

namespace BoundView.Text

/-- How many bytes of UTF-8 characters take. -/
def byteLength : List Char → Nat
  | [] => 0
  | c :: cs => c.utf8Size + byteLength cs

theorem byteLength_append (cs ds : List Char) :
    byteLength (cs ++ ds) = byteLength cs + byteLength ds := by
  induction cs with
  | nil => simp [byteLength]
  | cons c cs ih => simp [byteLength, ih, Nat.add_assoc]

end BoundView.Text
