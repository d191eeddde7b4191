set_option autoImplicit false

namespace OtaAgent

inductive DownloadStatus
  | consent
  | denied
  | postponed
  deriving DecidableEq, Repr

inductive InstallStatus
  | ready
  | pending
  | inProgress
  | completed
  | aborted
  | rollback
  | failed
  deriving DecidableEq, Repr

inductive Status
  | download (s : DownloadStatus)
  | install (s : InstallStatus)
  deriving DecidableEq, Repr

namespace DownloadStatus

def all : List DownloadStatus := [consent, denied, postponed]

def text : DownloadStatus → String
  | consent => "DOWNLOAD_CONSENT"
  | denied => "DOWNLOAD_DENIED"
  | postponed => "DOWNLOAD_POSTPONED"

end DownloadStatus

namespace InstallStatus

def all : List InstallStatus := [ready, pending, inProgress, completed, aborted, rollback, failed]

def text : InstallStatus → String
  | ready => "INSTALL_READY"
  | pending => "INSTALL_PENDING"
  | inProgress => "INSTALL_IN_PROGRESS"
  | completed => "INSTALL_COMPLETED"
  | aborted => "INSTALL_ABORTED"
  | rollback => "INSTALL_ROLLBACK"
  | failed => "INSTALL_FAILED"

end InstallStatus

namespace Status

instance : Coe DownloadStatus Status := ⟨download⟩

instance : Coe InstallStatus Status := ⟨install⟩

def all : List Status := DownloadStatus.all.map download ++ InstallStatus.all.map install

def text : Status → String
  | download s => s.text
  | install s => s.text

/-- The status that `s` is the text of. -/
def ofText? (s : String) : Option Status := all.find? (·.text == s)

theorem ofText?_text (s : Status) : ofText? s.text = some s := by
  rcases s with s | s <;> cases s <;> decide

end Status

def DownloadStatus.ofText? (s : String) : Option DownloadStatus :=
  match Status.ofText? s with
  | some (.download s) => some s
  | _ => none

def InstallStatus.ofText? (s : String) : Option InstallStatus :=
  match Status.ofText? s with
  | some (.install s) => some s
  | _ => none

end OtaAgent
