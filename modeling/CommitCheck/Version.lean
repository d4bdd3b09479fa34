set_option autoImplicit false

/-! The version of the program and the commit it was built from. -/

namespace CommitCheck.Version

def number : String := "1.0.0"

def commit : String := "0123456789abcdef0123456789abcdef01234567"

def date : String := "2024-01-02"

def summary : String :=
  number ++ " (" ++ String.ofList (commit.toList.take 7) ++ " " ++ date ++ ")"

end CommitCheck.Version
