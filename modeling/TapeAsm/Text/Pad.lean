/-
Text set in columns. A column has a width in characters; a text that is
too long for it is kept whole.
-/

namespace TapeAsm.Text

/-- A text filled up with blanks on the right, to the given width at
least. -/
def padRight (width : Nat) (s : String) : String :=
  s ++ String.ofList (List.replicate (width - s.length) ' ')

/-- Filling up adds blanks at the end, if the text is too short. -/
theorem toList_padRight (width : Nat) (s : String) :
    (padRight width s).toList
      = s.toList ++ List.replicate (width - s.length) ' ' := by
  simp [padRight]

end TapeAsm.Text
