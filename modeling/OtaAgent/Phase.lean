import OtaAgent.Fault

set_option autoImplicit false

namespace OtaAgent

inductive Phase
  | idle
  | confirmDownload
  | awaitingTransfer
  | prepareInstall
  | preInstall
  | installing
  | postInstall
  | completed
  | failed
  | rolledBack
  | aborted
  deriving DecidableEq, Repr

namespace Phase

def all : List Phase :=
  [idle, confirmDownload, awaitingTransfer, prepareInstall, preInstall, installing, postInstall,
    completed, failed, rolledBack, aborted]

def text : Phase → String
  | idle => "IDLE"
  | confirmDownload => "CONFIRM_DOWNLOAD"
  | awaitingTransfer => "AWAITING_TRANSFER"
  | prepareInstall => "PREPARE_INSTALL"
  | preInstall => "PRE_INSTALL"
  | installing => "INSTALLING"
  | postInstall => "POST_INSTALL"
  | completed => "COMPLETED"
  | failed => "FAILED"
  | rolledBack => "ROLLED_BACK"
  | aborted => "ABORTED"

def ofText? (s : String) : Option Phase := all.find? (·.text == s)

def isTerminal : Phase → Bool
  | completed | failed | rolledBack | aborted => true
  | _ => false

/-- The transitions that an update makes of itself. -/
def isStep : Phase → Phase → Bool
  | idle, confirmDownload => true
  | idle, awaitingTransfer => true
  | confirmDownload, awaitingTransfer => true
  | confirmDownload, idle => true
  | confirmDownload, confirmDownload => true
  | awaitingTransfer, prepareInstall => true
  | awaitingTransfer, failed => true
  | awaitingTransfer, idle => true
  | prepareInstall, preInstall => true
  | prepareInstall, failed => true
  | preInstall, installing => true
  | preInstall, failed => true
  | installing, postInstall => true
  | installing, failed => true
  | installing, rolledBack => true
  | postInstall, completed => true
  | _, _ => false

/-- An update that is over can only be left behind, and one that is under way can always be
aborted. -/
def canEnter (source target : Phase) : Bool :=
  if source.isTerminal then target == idle
  else if target == aborted && source != idle then true
  else source.isStep target

def enter (source target : Phase) : Except Error Phase :=
  if source.canEnter target then .ok target
  else .error (.invalidTransition source.text target.text)

end Phase
end OtaAgent
