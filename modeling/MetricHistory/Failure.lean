import MetricHistory.Analyzer.Document
import MetricHistory.Config.Basic
import MetricHistory.FileSystem.Basic

/-!
# Failures

Everything that can go wrong while a framework is measured.  A failure has a cause and says on
the way up what was being done: `Failure.during` puts a context in front of it.

* `Failure.cause` is what went wrong, without the contexts.
* `Failure.message` is the wording.
-/

namespace MetricHistory

/-- What can go wrong. -/
inductive Failure where
  /-- No commit is as old as a date asks for. -/
  | noCommit
  /-- A commit has no parent. -/
  | noParent
  /-- A directory has no files that the analyzer understands. -/
  | noSources
  /-- The work was called off. -/
  | canceled
  /-- The work took too long. -/
  | deadlineExceeded
  /-- A name leads out of the directory that it belongs to. -/
  | unsafePath (name : Text)
  /-- The output of the analyzer cannot be used. -/
  | malformedOutput (e : DocumentError)
  /-- The analyzer did not finish its work. -/
  | analyzerFailed (detail : Text)
  /-- No framework has the id. -/
  | unknownFramework (id : Text)
  /-- A version control command failed. -/
  | command (arguments : List Text) (reason : Text)
  /-- An operation on files failed. -/
  | file (e : FileError)
  /-- The program broke down. -/
  | breakdown
  /-- Anything else. -/
  | other (detail : Text)
  /-- A failure with what was being done. -/
  | during (context : Text) (f : Failure)

namespace Failure

/-- What went wrong, without what was being done. -/
def cause : Failure → Failure
  | during _ f => f.cause
  | f => f

/-- The wording of a failure. -/
def message : Failure → Text
  | noCommit => "no commit at or before date"
  | noParent => "commit has no parent"
  | noSources => "no source files to analyze"
  | canceled => "context canceled"
  | deadlineExceeded => "context deadline exceeded"
  | unsafePath name => "path escapes destination: " ++ name
  | malformedOutput e => e.message
  | analyzerFailed detail => "analyzer failed: " ++ detail
  | unknownFramework id => Config.unknownFramework id
  | command arguments reason => "git " ++ Text.join " " arguments ++ ": " ++ reason
  | file e => e.message
  | breakdown => "the program broke down"
  | other detail => detail
  | during context f => context ++ ": " ++ f.message

/-- The cause is that a commit has no parent. -/
def isNoParent (f : Failure) : Bool :=
  match f.cause with
  | noParent => true
  | _ => false

/-- The cause is that no commit is old enough. -/
def isNoCommit (f : Failure) : Bool :=
  match f.cause with
  | noCommit => true
  | _ => false

/-- The cause is that there is nothing to analyze. -/
def isNoSources (f : Failure) : Bool :=
  match f.cause with
  | noSources => true
  | _ => false

end Failure

end MetricHistory
