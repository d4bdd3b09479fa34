import CommitCheck.Config.Basic
import CommitCheck.Error

set_option autoImplicit false

/-! Builds: which build service runs, and what it asks to be checked. A build of a pull request
checks the range of its commits, unless its branch is ignored; any other build checks its commit. -/

namespace CommitCheck

abbrev Environment := String → Option String

namespace Build

inductive Provider where
  | travis
  | appVeyor
deriving DecidableEq, Repr

def Provider.name : Provider → String
  | .travis => "Travis CI"
  | .appVeyor => "AppVeyor"

inductive Plan where
  | skip (reason : String)
  | range (range : String)
  | commit (commit : String)
deriving DecidableEq, Repr

/-- Two texts that differ in the case of ASCII letters at most. -/
def sameIgnoringCase (a b : String) : Bool :=
  a.toList.map Char.toLower == b.toList.map Char.toLower

def filled? (env : Environment) (name : String) : Option String :=
  (env name).filter fun value => !value.isEmpty

/-- The build service that runs. Travis CI is asked first. -/
def provider? (env : Environment) : Option Provider :=
  if env "TRAVIS" == some "true" then
    some .travis
  else if (env "APPVEYOR").any (sameIgnoringCase · "true") then
    some .appVeyor
  else
    none

def isPullRequest (env : Environment) : Provider → Bool
  | .travis => (env "TRAVIS_PULL_REQUEST").any (· != "false")
  | .appVeyor => (filled? env "APPVEYOR_PULL_REQUEST_NUMBER").isSome

def sourceBranch? (env : Environment) : Provider → Option String
  | .travis => filled? env "TRAVIS_PULL_REQUEST_BRANCH"
  | .appVeyor => filled? env "APPVEYOR_PULL_REQUEST_HEAD_REPO_BRANCH"

def require (env : Environment) (name : String) : Except BuildError String :=
  match filled? env name with
  | some value => .ok value
  | none => .error (.missingVariable name)

def pullRequestRange (env : Environment) : Provider → Except BuildError String
  | .travis => require env "TRAVIS_COMMIT_RANGE"
  | .appVeyor => (require env "APPVEYOR_REPO_BRANCH").map (· ++ "..HEAD")

def pushedCommit (env : Environment) : Provider → Except BuildError String
  | .travis => require env "TRAVIS_COMMIT"
  | .appVeyor => require env "APPVEYOR_REPO_COMMIT"

def skipReason (branch : String) : String :=
  "Not checking commit messages as pull requests from '" ++ branch ++ "' are ignored"

def planFor (config : CiConfig) (env : Environment) (provider : Provider) :
    Except BuildError Plan :=
  if isPullRequest env provider then
    match (sourceBranch? env provider).filter config.ignores with
    | some branch => .ok (.skip (skipReason branch))
    | none => (pullRequestRange env provider).map .range
  else
    (pushedCommit env provider).map .commit

def plan (config : CiConfig) (env : Environment) : Except BuildError Plan :=
  match provider? env with
  | some provider => planFor config env provider
  | none => .error .notDetected

end Build

end CommitCheck
