import Mathlib.Data.List.Basic

namespace Tapsmith.Dispatch

/-!
# Test files and test results

The records that the dispatcher passes around: the files it hands to workers and the results it
gets back or makes up.
-/

inductive TestStatus
  | passed
  | failed
  | skipped
deriving DecidableEq

/-- A `TestResult`, without the artefacts that the dispatcher passes through unread. -/
structure TestResult where
  name : String
  fullName : String
  status : TestStatus
  durationMs : ℕ
  error : Option String := none
  project : Option String := none
  willRetry : Bool := false
  filePath : Option String := none
deriving DecidableEq

/-- A `TaggedFile`, without the options that go to the worker unread. -/
structure TaggedFile where
  filePath : String
  projectName : Option String := none
deriving DecidableEq

/-- `path.basename`: what follows the last slash, trailing slashes aside. -/
def basename (file : String) : String :=
  String.ofList ((file.toList.reverse.dropWhile (· = '/')).takeWhile (· ≠ '/')).reverse

example : basename "tests/login.test.ts" = "login.test.ts" := by decide +kernel

end Tapsmith.Dispatch
