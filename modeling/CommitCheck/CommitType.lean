set_option autoImplicit false

/-! The registry of commit types: which types a summary may name, the token that stands for each of
them, and what it is for. -/

namespace CommitCheck

inductive CommitType where
  | bug
  | config
  | feature
  | format
  | refactor
  | docs
  | setup
deriving DecidableEq, Repr

namespace CommitType

def all : List CommitType :=
  [bug, config, feature, format, refactor, docs, setup]

theorem mem_all (kind : CommitType) : kind ∈ all := by
  cases kind <;> decide

def token : CommitType → String
  | bug => "BUG"
  | config => "CONFIG"
  | feature => "FEATURE"
  | format => "FORMAT"
  | refactor => "REFACTOR"
  | docs => "DOCS"
  | setup => "SETUP"

def description : CommitType → String
  | bug => "A bug fix"
  | config => "Configuration changes"
  | feature => "A new feature"
  | format => "Formatting or whitespace only"
  | refactor => "Code restructuring without behaviour change"
  | docs => "Documentation only changes"
  | setup => "Project setup, tooling or dependencies"

/-- The type with the given token. Case counts. -/
def ofToken? (token : String) : Option CommitType :=
  all.find? fun kind => kind.token == token

theorem token_injective {a b : CommitType} (same : a.token = b.token) : a = b := by
  revert same
  cases a <;> cases b <;> decide

def alternatives : String :=
  "|".intercalate (all.map token)

def listing : String :=
  ", ".intercalate (all.map token)

end CommitType

end CommitCheck
