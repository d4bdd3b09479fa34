set_option autoImplicit false

/-! Glob patterns: `?` stands for one character, `*` for any characters, `**` as a whole path
component for any path components, and `[…]` for one character of a set. All other characters stand
for themselves. A pattern that breaks these rules is refused with the position of the offence,
counted in characters from zero. -/

namespace CommitCheck.Glob

inductive SetMember where
  | single (c : Char)
  | range (first last : Char)
deriving DecidableEq, Repr

def SetMember.holds (c : Char) : SetMember → Bool
  | single d => c = d
  | range first last => first ≤ c && c ≤ last

inductive Token where
  | literal (c : Char)
  | anyChar
  | anySequence
  | anyPath
  | oneOf (members : List SetMember)
  | noneOf (members : List SetMember)
deriving DecidableEq, Repr

inductive Offence where
  | tooManyWildcards
  | partialComponent
  | unclosedSet
deriving DecidableEq, Repr

def Offence.message : Offence → String
  | tooManyWildcards => "wildcards are either regular `*` or recursive `**`"
  | partialComponent => "recursive wildcards must form a single path component"
  | unclosedSet => "invalid range pattern"

structure PatternError where
  position : Nat
  offence : Offence
deriving DecidableEq, Repr

def PatternError.message (error : PatternError) : String :=
  "Pattern syntax error near position " ++ toString error.position ++ ": " ++ error.offence.message

def setMembers : List Char → List SetMember
  | [] => []
  | first :: '-' :: last :: rest => .range first last :: setMembers rest
  | c :: rest => .single c :: setMembers rest

/-- Splits what follows an opening bracket into the characters of the set, of which there is at
least one, and what follows the closing bracket. A bracket in first place is a member. -/
def splitSet? : List Char → Option (List Char × List Char)
  | [] => none
  | first :: rest =>
      match rest.dropWhile (· ≠ ']') with
      | [] => none
      | _ :: after => some (first :: rest.takeWhile (· ≠ ']'), after)

def readSet? : List Char → Option (Token × List Char)
  | '!' :: rest => (splitSet? rest).map fun parts => (.noneOf (setMembers parts.1), parts.2)
  | rest => (splitSet? rest).map fun parts => (.oneOf (setMembers parts.1), parts.2)

theorem length_splitSet? {cs : List Char} {parts : List Char × List Char}
    (found : splitSet? cs = some parts) : parts.2.length < cs.length := by
  cases cs with
  | nil => simp [splitSet?] at found
  | cons first rest =>
      simp only [splitSet?] at found
      split at found
      · simp at found
      · next closing after closed =>
          simp only [Option.some.injEq] at found
          subst found
          have shorter : (rest.dropWhile (· ≠ ']')).length ≤ rest.length :=
            (List.dropWhile_sublist _).length_le
          rw [closed] at shorter
          simp only [List.length_cons] at shorter ⊢
          omega

theorem length_readSet? {cs : List Char} {parts : Token × List Char}
    (found : readSet? cs = some parts) : parts.2.length < cs.length := by
  unfold readSet? at found
  split at found
  · obtain ⟨inner, split, rfl⟩ := Option.map_eq_some_iff.1 found
    have := length_splitSet? split
    simp only [List.length_cons]
    omega
  · obtain ⟨inner, split, rfl⟩ := Option.map_eq_some_iff.1 found
    exact length_splitSet? split

/-- The elements of the rest of a pattern, `position` being where the rest starts and `atComponent`
that it starts a path component. -/
def tokensFrom (position : Nat) (atComponent : Bool) :
    List Char → Except PatternError (List Token)
  | [] => .ok []
  | '?' :: rest => (tokensFrom (position + 1) false rest).map (.anyChar :: ·)
  | '*' :: '*' :: '*' :: _ => .error ⟨position + 2, .tooManyWildcards⟩
  | '*' :: '*' :: rest =>
      if atComponent then
        match rest with
        | [] => .ok [.anyPath]
        | '/' :: after => (tokensFrom (position + 3) true after).map (.anyPath :: ·)
        | _ => .error ⟨position + 2, .partialComponent⟩
      else
        .error ⟨position - 1, .partialComponent⟩
  | '*' :: rest => (tokensFrom (position + 1) false rest).map (.anySequence :: ·)
  | '[' :: rest =>
      match found : readSet? rest with
      | some (set, after) =>
          have := length_readSet? found
          (tokensFrom (position + 1 + (rest.length - after.length)) false after).map (set :: ·)
      | none => .error ⟨position, .unclosedSet⟩
  | c :: rest => (tokensFrom (position + 1) (c = '/') rest).map (.literal c :: ·)
termination_by cs => cs.length
decreasing_by
  all_goals simp_all
  all_goals omega

def tokens (pattern : List Char) : Except PatternError (List Token) :=
  tokensFrom 0 true pattern

end CommitCheck.Glob
