import AgentKnowledge.Core.Id
import AgentKnowledge.Core.Path
import AgentKnowledge.Core.Time
import AgentKnowledge.Lib.Results

/-!
Change requests and their state-independent validation
(`crates/core/src/request.rs`).

`ChangeRequest.validate` follows the source's order of checks. The title checks
are not all made on the same text: emptiness and control characters are looked
for in the trimmed title, the length is that of the title as it stands. What the
checks leave open about a title shows in the commit message that quotes it.
-/

namespace AgentKnowledge

open Results

/-- The only protocol version supported by this implementation. -/
def currentProtocolVersion : Nat := 1

/-- A built-in document classification with defined mutation semantics. -/
inductive DocumentType where
  | index
  | log
  | experiment
  | decision
  | runbook
  | reference
deriving DecidableEq, Repr

/-- One atomic content mutation inside a change request. -/
inductive Operation where
  | createDocument (documentId : DocumentId) (content : PayloadPath)
  | updateDocument (documentId : DocumentId) (expectedRevision : Revision) (content : PayloadPath)
  | moveDocument (documentId : DocumentId) (expectedRevision : Revision)
      (project : Option ProjectId) (documentType : DocumentType)
  | archiveDocument (documentId : DocumentId) (expectedRevision : Revision)
  | addAttachment (documentId : DocumentId) (source : PayloadPath) (name : AttachmentName)
deriving DecidableEq

/-- One client-authored logical change that must be applied atomically. -/
structure ChangeRequest where
  protocolVersion : Nat
  requestId : RequestId
  title : String
  project : Option ProjectId
  documentType : DocumentType
  node : Option String
  agent : Option String
  session : Option SessionId
  createdAt : OffsetDateTime
  operations : List Operation
deriving DecidableEq

/-- Configurable request limits used by deterministic validation. -/
structure RequestLimits where
  maximumTitleCharacters : Nat := 200
  maximumOperations : Nat := 100
deriving DecidableEq, Repr

/-- A deterministic request validation failure. -/
inductive RequestValidationError where
  | unsupportedProtocolVersion (found : Nat)
  | emptyTitle
  | titleContainsControlCharacter
  | titleTooLong (maximum actual : Nat)
  | emptyOperations
  | tooManyOperations (maximum actual : Nat)
  | missingLogMetadata (field : String)
  | invalidMetadata (field : String)
  | duplicateCreatedDocument (documentId : DocumentId)
deriving DecidableEq, Repr

def validateOptionalMetadata (field : String) :
    Option String → Except RequestValidationError Unit
  | none => .ok ()
  | some value =>
      if (Text.trim value.toList).isEmpty ∨ value.toList.any Text.isControl then
        .error (.invalidMetadata field)
      else .ok ()

/-- The document IDs of the create operations, in order. -/
def createdDocuments (operations : List Operation) : List DocumentId :=
  operations.filterMap fun
    | .createDocument documentId _ => some documentId
    | _ => none

/-- The first ID that occurs earlier in the list. -/
def firstDuplicate : List DocumentId → List DocumentId → Option DocumentId
  | _, [] => none
  | seen, id :: rest => if id ∈ seen then some id else firstDuplicate (id :: seen) rest

/-- A log request must say where it comes from. -/
def ChangeRequest.validateLogMetadata (request : ChangeRequest) :
    Except RequestValidationError Unit := do
  rejectIf request.node.isNone (.missingLogMetadata "node")
  rejectIf request.agent.isNone (.missingLogMetadata "agent")
  rejectIf request.session.isNone (.missingLogMetadata "session")

/-- Validate request-level invariants that do not require repository state. -/
def ChangeRequest.validate (request : ChangeRequest) (limits : RequestLimits) :
    Except RequestValidationError Unit := do
  rejectIf (request.protocolVersion ≠ currentProtocolVersion)
    (.unsupportedProtocolVersion request.protocolVersion)
  let title := Text.trim request.title.toList
  rejectIf title.isEmpty .emptyTitle
  rejectIf (title.any Text.isControl) .titleContainsControlCharacter
  let titleCharacters := request.title.toList.length
  rejectIf (limits.maximumTitleCharacters < titleCharacters)
    (.titleTooLong limits.maximumTitleCharacters titleCharacters)
  rejectIf request.operations.isEmpty .emptyOperations
  rejectIf (limits.maximumOperations < request.operations.length)
    (.tooManyOperations limits.maximumOperations request.operations.length)
  validateOptionalMetadata "node" request.node
  validateOptionalMetadata "agent" request.agent
  if request.documentType = .log then request.validateLogMetadata else pure ()
  match firstDuplicate [] (createdDocuments request.operations) with
  | some documentId => .error (.duplicateCreatedDocument documentId)
  | none => pure ()

end AgentKnowledge
