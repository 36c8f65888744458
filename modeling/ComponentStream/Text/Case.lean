/-!
# Letter case

Words and names that may be written in any case are compared in small letters.  In words only the letters of
ASCII have a case; in names the sign of the kelvin counts as a capital k too, the one character outside ASCII
whose small letter lies in it.  Every other character stays as it is.
-/

namespace ComponentStream.Text

def lower (s : String) : String := String.ofList (s.toList.map Char.toLower)

/-- A letter of a name as a small letter. -/
def small (c : Char) : Char := if c = '\u212A' then 'k' else c.toLower

/-- A name in small letters. -/
def lowerName (s : String) : String := String.ofList (s.toList.map small)

end ComponentStream.Text
