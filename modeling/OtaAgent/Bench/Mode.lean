import OtaAgent.Status

set_option autoImplicit false

namespace OtaAgent

inductive Mode
  | success
  | failure
  /-- Failure and success in turn, failure first. -/
  | toggle
  /-- Completes the rollback version alone and falls back to it from every other. -/
  | rollback
  | prepareFailure
  deriving DecidableEq, Repr

namespace Mode

def all : List Mode := [success, failure, toggle, rollback, prepareFailure]

def spelling : Mode → String
  | success => "success"
  | failure => "failure"
  | toggle => "toggle"
  | rollback => "rollback"
  | prepareFailure => "prepare-failure"

def title : Mode → String
  | success => "Success"
  | failure => "Failure"
  | toggle => "Toggle"
  | rollback => "Rollback"
  | prepareFailure => "PrepareFailure"

def ofSpelling? (s : String) : Option Mode := all.find? (·.spelling == s)

end Mode

namespace DownloadStatus

/-- How the answer to all offers is spelled when it is laid down beforehand. -/
def spelling : DownloadStatus → String
  | consent => "consent"
  | denied => "denied"
  | postponed => "postponed"

def ofSpelling? (s : String) : Option DownloadStatus := all.find? (·.spelling == s)

end DownloadStatus
end OtaAgent
