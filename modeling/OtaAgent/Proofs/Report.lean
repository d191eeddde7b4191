import OtaAgent.Report
import OtaAgent.Proofs.Table

set_option autoImplicit false

namespace OtaAgent

theorem Json.member?_ofMembers (members : List (String × Json)) (key : String) :
    (Json.ofMembers members).member? key = Table.get? members.reverse key :=
  Table.get?_ofList members key

namespace Report

/-- What an envelope says of a package. -/
def package? (v : Json) : Option Json := (v.member? "body").bind (·.member? "package")

/-- The release and the status that an envelope reports, if it is the report of a status. -/
def stated? (v : Json) : Option (Release × Status) :=
  if kind v = Wire.updateStatus then do
    let package ← package? v
    let name ← (← package.member? "name").string?
    let version ← (← package.member? "version").string?
    let status ← Status.ofText? (← (← package.member? "status").string?)
    return (⟨name, version⟩, status)
  else none

/-- What the report of a status says of the files of other versions. -/
def listed? (v : Json) : Option Json :=
  if kind v = Wire.updateStatus then (package? v).bind (·.member? "version-list") else none

theorem get?_given (name key : String) (v : Option Json) :
    Table.get? (given name v).reverse key = if key = name then v else none := by
  cases v <;> simp [given, Table.get?]

theorem kind_envelope (name : String) (body : List (String × Json)) :
    kind (envelope name body) = name := by
  simp [kind, envelope, Json.member?_ofMembers, Table.get?, Json.string?]

theorem package?_envelope (name : String) (body : List (String × Json)) :
    package? (envelope name body) = Table.get? body.reverse "package" := by
  simp [package?, envelope, Json.member?_ofMembers, Table.get?]

section Status

variable (handler : String) (release : Release) (s : Status) (remarks : Remarks)

@[simp] theorem kind_status : kind (status handler release s remarks) = Wire.updateStatus :=
  kind_envelope ..

@[simp] theorem stated?_status :
    stated? (status handler release s remarks) = some (release, s) := by
  rw [stated?, if_pos (kind_status ..), status, package?_envelope]
  simp [Json.member?_ofMembers, Table.get?, Table.get?_append, get?_given, Json.string?,
    Status.ofText?_text]

@[simp] theorem listed?_status : listed? (status handler release s remarks) =
    remarks.versionList := by
  rw [listed?, if_pos (kind_status ..), status, package?_envelope]
  simp [Json.member?_ofMembers, Table.get?, Table.get?_append, get?_given]

end Status

section Others

variable {v : Json}

theorem stated?_of_kind (other : kind v ≠ Wire.updateStatus) : stated? v = none := if_neg other

theorem listed?_of_kind (other : kind v ≠ Wire.updateStatus) : listed? v = none := if_neg other

theorem kind_progress (release : Release) (stage : Stage) (percent : Nat) (indeterminate : Bool) :
    kind (progress release stage percent indeterminate) ≠ Wire.updateStatus := by
  rw [progress, kind_envelope]
  decide

theorem kind_queryReply (replyTo : Option String) (package : Json) :
    kind (queryReply replyTo package) ≠ Wire.updateStatus := by
  have named : kind (queryReply replyTo package) = Wire.queryPackage := by
    simp [kind, queryReply, Json.member?_ofMembers, Table.get?, Table.get?_append, get?_given,
      Json.string?]
  rw [named]
  decide

@[simp] theorem stated?_progress (release : Release) (stage : Stage) (percent : Nat)
    (indeterminate : Bool) : stated? (progress release stage percent indeterminate) = none :=
  stated?_of_kind (kind_progress release stage percent indeterminate)

@[simp] theorem listed?_progress (release : Release) (stage : Stage) (percent : Nat)
    (indeterminate : Bool) : listed? (progress release stage percent indeterminate) = none :=
  listed?_of_kind (kind_progress release stage percent indeterminate)

@[simp] theorem stated?_queryReply (replyTo : Option String) (package : Json) :
    stated? (queryReply replyTo package) = none :=
  stated?_of_kind (kind_queryReply replyTo package)

@[simp] theorem listed?_queryReply (replyTo : Option String) (package : Json) :
    listed? (queryReply replyTo package) = none :=
  listed?_of_kind (kind_queryReply replyTo package)

end Others

end Report
end OtaAgent
