/- # Letters without regard to case

Names of tags and attributes are compared by the twenty-six Latin letters, in either case; all
other characters stand for themselves.
-/
namespace ComponentHost.Text

/-- The text in small letters. -/
def lowercase (s : String) : String := String.ofList (s.toList.map Char.toLower)

/-- Are the characters equal up to case? -/
def sameLetter (a b : Char) : Bool := a.toLower == b.toLower

/-- Are the texts equal up to case? -/
def sameWord (a b : String) : Bool := lowercase a == lowercase b

/-- Does the text start with the word, up to case? -/
def startsWithWord : List Char → List Char → Bool
  | [], _ => true
  | _ :: _, [] => false
  | w :: ws, c :: cs => sameLetter w c && startsWithWord ws cs

theorem length_le_of_startsWithWord {w cs : List Char} (h : startsWithWord w cs = true) :
    w.length ≤ cs.length := by
  induction w generalizing cs with
  | nil => exact Nat.zero_le _
  | cons a w ih =>
    cases cs with
    | nil => simp [startsWithWord] at h
    | cons c cs =>
      simp only [startsWithWord, Bool.and_eq_true] at h
      exact Nat.succ_le_succ (ih h.2)

end ComponentHost.Text
