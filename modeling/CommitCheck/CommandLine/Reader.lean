import CommitCheck.CommandLine.Grammar
import CommitCheck.Text.Search

set_option autoImplicit false

/-! Reading the words of a command line. Words are read from left to right, level by level. A value
that has been read is only accepted when the next word that can follow it turns up or the level
ends; so a word that makes no sense is reported before a value in front of it that is not allowed.
-/

namespace CommitCheck.CommandLine

inductive Refusal where
  | unknownArgument
  | invalidValue
  | tooManyValues
  | argumentConflict
  | invalidSubcommand
  | missingSubcommand
  | missingRequiredArgument
  | displayHelp
  /-- Help is shown since there is nothing else at a level that needs a command. -/
  | displayHelpOnMissing
  | displayVersion
deriving DecidableEq, Repr

def Refusal.isRequest : Refusal → Bool
  | displayHelp | displayVersion => true
  | _ => false

inductive Word where
  | escape
  | long (name : String) (value? : Option String)
  | short (cluster : List Char)
  | plain
deriving DecidableEq, Repr

def Word.ofText (text : String) : Word :=
  match text.toList with
  | ['-', '-'] => .escape
  | '-' :: '-' :: cs =>
      match Text.splitOnce? ['='] cs with
      | some (name, value) => .long (String.ofList name) (some (String.ofList value))
      | none => .long (String.ofList cs) none
  | '-' :: c :: cs => .short (c :: cs)
  | _ => .plain

/-- What a level has been given: parameters and their values; a flag has an empty value. -/
abbrev Given := List (Parameter × String)

structure Progress where
  given : Given := []
  /-- The parameter that was read last, with its value if there is one, and not accepted yet. -/
  pending : Option (Parameter × Option String) := none
  awaiting : Bool := false
  trailing : Bool := false
  operandRead : Bool := false
deriving DecidableEq, Repr

/-- Accepts a parameter: it needs a value, must not be given already, and its value has to be
allowed. -/
def Progress.accept (progress : Progress) (level : Level) (parameter : Parameter)
    (value? : Option String) : Except Refusal Progress :=
  match value? with
  | none => .error .invalidValue
  | some value =>
      if (progress.given.lookup parameter).isSome then .error .argumentConflict
      else if !allows level parameter value then .error .invalidValue
      else .ok { progress with given := progress.given ++ [(parameter, value)] }

def Progress.settle (progress : Progress) (level : Level) : Except Refusal Progress :=
  match progress.pending with
  | none => .ok progress
  | some (parameter, value?) =>
      Progress.accept { progress with pending := none } level parameter value?

def Progress.takeFlag (progress : Progress) (level : Level) (meaning : Meaning) :
    Except Refusal Progress := do
  let settled ← progress.settle level
  match meaning with
  | .flag parameter => settled.accept level parameter (some "")
  | .valued _ => .error .unknownArgument
  | .help => .error .displayHelp
  | .version => .error .displayVersion

def Progress.takeValued (progress : Progress) (level : Level) (parameter : Parameter)
    (attached? : Option String) : Except Refusal Progress := do
  let settled ← progress.settle level
  match attached? with
  | some value => settled.accept level parameter (some value)
  | none => .ok { settled with pending := some (parameter, none), awaiting := true }

def Progress.takeLong (progress : Progress) (level : Level) (name : String)
    (attached? : Option String) : Except Refusal Progress :=
  match longOption? level name, attached? with
  | none, _ => .error .unknownArgument
  | some (.valued parameter), _ => progress.takeValued level parameter attached?
  | some _, some _ => .error .tooManyValues
  | some meaning, none => progress.takeFlag level meaning

def attachedValue? : List Char → Option String
  | [] => none
  | '=' :: cs => some (String.ofList cs)
  | cs => some (String.ofList cs)

def Progress.takeShort (progress : Progress) (level : Level) : List Char → Except Refusal Progress
  | [] => .ok progress
  | c :: cs =>
      match shortOption? level c with
      | none => .error .unknownArgument
      | some (.valued parameter) => progress.takeValued level parameter (attachedValue? cs)
      | some meaning => do
          let next ← progress.takeFlag level meaning
          next.takeShort level cs

/-- The word names a command below the level. Where there are commands, `help` is one of them. -/
def isCommand (level : Level) (word : String) : Bool :=
  !(commands level).isEmpty && (word == "help" || ((commands level).lookup word).isSome)

def Progress.takeOperand (progress : Progress) (level : Level) (word : String) :
    Except Refusal Progress :=
  if takesOperand level && !progress.operandRead then do
    let settled ← progress.settle level
    .ok { settled with pending := some (.operand, some word), operandRead := true }
  else if (commands level).isEmpty || progress.trailing && isCommand level word then
    .error .unknownArgument
  else
    .error .invalidSubcommand

def Progress.take (progress : Progress) (level : Level) (word : String) :
    Except Refusal Progress :=
  if progress.trailing then progress.takeOperand level word
  else
    match Word.ofText word with
    | .escape => .ok { progress with trailing := true }
    | .long name value? => Progress.takeLong { progress with awaiting := false } level name value?
    | .short cluster => Progress.takeShort { progress with awaiting := false } level cluster
    | .plain =>
        match progress.awaiting, progress.pending with
        | true, some (parameter, _) =>
            .ok { progress with pending := some (parameter, some word), awaiting := false }
        | _, _ => progress.takeOperand level word

def showHelp (level : Level) : List String → Refusal
  | [] => .displayHelp
  | word :: words =>
      match (commands level).lookup word with
      | some below => showHelp below words
      | none =>
          if isCommand level word && words.isEmpty then .displayHelp else .invalidSubcommand

/-- Ends a level, below which a command may have been read. A configuration file can also be named
by a variable, which does not count if the level names one. -/
def Progress.finish (progress : Progress) (level : Level) (fallback? : Option String)
    (hasCommand : Bool) : Except Refusal Given := do
  let settled ← progress.settle level
  let named := (settled.given.lookup .config).isSome
  if fallback? = some "" && !named then
    .error .invalidValue
  else if !hasCommand && !(commands level).isEmpty then
    if settled.given.isEmpty && fallback?.isNone then .error .displayHelpOnMissing
    else .error .missingSubcommand
  else if level = .hook && (settled.given.lookup .operand).isNone then
    .error .missingRequiredArgument
  else
    .ok settled.given

/-- Reads a level and the levels below it, and gives what each of them has been given, outermost
first. -/
def readLevel (fallback? : Option String) (level : Level) (progress : Progress) :
    List String → Except Refusal (List (Level × Given))
  | [] => do
      let given ← progress.finish level fallback? false
      .ok [(level, given)]
  | word :: words =>
      if !progress.trailing && !progress.awaiting && isCommand level word then
        match (commands level).lookup word with
        | none => .error (showHelp level words)
        | some below => do
            let inner ← readLevel fallback? below {} words
            let given ← progress.finish level fallback? true
            .ok ((level, given) :: inner)
      else do
        let next ← progress.take level word
        readLevel fallback? level next words

end CommitCheck.CommandLine
