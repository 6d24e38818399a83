/-!
# Surroundings

What a run takes from outside: files, the standard input and the variables
of the environment.  They are actions of any monad, so a run is the same
function whether it is given real files or only a table of texts.
-/

namespace DealSql

/-- Why a file cannot be read. -/
structure ReadFailure where
  /-- Whether there is something at the path. -/
  found : Bool
  reason : String
  deriving Repr, DecidableEq

/-- Nothing is at the path. -/
def ReadFailure.missing : ReadFailure := ⟨false, "No such file or directory (os error 2)"⟩

/-- Where a run takes its data from. -/
structure Surroundings (m : Type → Type) where
  contentOf : String → m (Except ReadFailure String)
  /-- The standard input, or why it cannot be read. -/
  input : m (Except String String)
  valueOf : String → m (Option String)

end DealSql
