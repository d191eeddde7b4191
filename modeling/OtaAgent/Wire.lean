import OtaAgent.Json.Reader

set_option autoImplicit false

namespace OtaAgent.Wire

def queryPackage : String := "xl4.query-package"
def readyDownload : String := "xl4.ready-download"
def prepareUpdate : String := "xl4.prepare-update"
def readyUpdate : String := "xl4.ready-update"
def confirmUpdate : String := "xl4.confirm-update"
def downloadReport : String := "xl4.download-report"
def updateStatus : String := "xl4.update-status"
def updateReport : String := "xl4.update-report"
def logReport : String := "xl4.log-report"
def presence : String := "xl4.presence"

/-- The messages that stand for an event of their own. -/
def handled : List String :=
  [queryPackage, readyDownload, prepareUpdate, readyUpdate, confirmUpdate, downloadReport]

structure Version where
  file : Option String
  digest : Option String
  downloaded : Bool

structure Package where
  handler : String
  name : String
  version : Option String
  versions : Table Version
  rollbackVersion : Option String
  rollbackVersions : List String

structure Body where
  package : Option Package
  downloadedBytes : Option Nat
  totalBytes : Option Nat

structure Envelope where
  kind : String
  replyId : Option String
  body : Body

open Json

def Version.ofDoc? (d : Doc) : Option Version := do
  match ← fields? ["file", "sha-256", "downloaded"] 2 d with
  | [file, digest, downloaded] =>
    return {
      file := ← optional? text? file
      digest := ← optional? text? digest
      downloaded := ← default? false flag? downloaded }
  | _ => none

def Package.ofDoc? (d : Doc) : Option Package := do
  let names :=
    ["type", "name", "version", "version-list", "rollback-version", "rollback-versions"]
  match ← fields? names 5 d with
  | [handler, name, version, versions, rollbackVersion, rollbackVersions] =>
    return {
      handler := ← required? text? handler
      name := ← required? text? name
      version := ← optional? text? version
      versions := ← default? [] (table? Version.ofDoc?) versions
      rollbackVersion := ← optional? text? rollbackVersion
      rollbackVersions := ← default? [] (list? text?) rollbackVersions }
  | _ => none

def Body.ofDoc? (d : Doc) : Option Body := do
  match ← fields? ["package", "downloaded-bytes", "total-bytes"] 3 d with
  | [package, downloadedBytes, totalBytes] =>
    return {
      package := ← optional? Package.ofDoc? package
      downloadedBytes := ← optional? count? downloadedBytes
      totalBytes := ← optional? count? totalBytes }
  | _ => none

def Envelope.ofDoc? (d : Doc) : Option Envelope := do
  match ← fields? ["type", "reply-id", "body"] 2 d with
  | [kind, replyId, body] =>
    return {
      kind := ← required? text? kind
      replyId := ← optional? text? replyId
      body := ← default? ⟨none, none, none⟩ Body.ofDoc? body }
  | _ => none

end OtaAgent.Wire
