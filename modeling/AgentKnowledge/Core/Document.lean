import AgentKnowledge.Core.Request

/-!
Document front matter (`crates/core/src/document.rs`) and the shared status and
error codes (`crates/core/src/error_code.rs`).

`DocumentMetadata.effectiveTime` is the time a later update has to exceed: the
last update if there is one, else the creation.
-/

namespace AgentKnowledge

open Results

/-- The lifecycle status recorded in document front matter. -/
inductive DocumentStatus where
  | active
  | completed
  | deprecated
  | archived
deriving DecidableEq, Repr

/-- A stable machine-readable failure code. -/
inductive ErrorCode where
  | invalidProtocol
  | invalidRequest
  | invalidFrontMatter
  | invalidPath
  | unsupportedFileType
  | limitExceeded
  | requestIdReused
  | requestNotFound
  | documentIdConflict
  | documentNotFound
  | revisionConflict
  | operationForbidden
  | contentValidationFailed
  | quartzBuildFailed
  | temporaryFailure
  | internalError
deriving DecidableEq, Repr

/-- The only document front-matter schema version currently supported. -/
def currentDocumentSchemaVersion : Nat := 1

/-- Typed metadata stored in every Markdown document's YAML front matter. -/
structure DocumentMetadata where
  schemaVersion : Nat
  documentId : DocumentId
  title : String
  created : OffsetDateTime
  updated : Option OffsetDateTime
  node : Option String
  agent : Option String
  session : Option SessionId
  requestId : RequestId
  tags : List String
  status : DocumentStatus
  supersededBy : Option DocumentId
deriving DecidableEq

/-- The most recent update, or the creation of a document never updated. -/
def DocumentMetadata.effectiveTime (metadata : DocumentMetadata) : OffsetDateTime :=
  metadata.updated.getD metadata.created

/-- Configurable limits for document front matter. -/
structure DocumentLimits where
  maximumTitleCharacters : Nat := 200
  maximumMetadataCharacters : Nat := 200
  maximumTags : Nat := 64
  maximumTagCharacters : Nat := 64
deriving DecidableEq, Repr

/-- A deterministic document front-matter validation failure. -/
inductive DocumentValidationError where
  | unsupportedSchemaVersion (found : Nat)
  | emptyText (field : String)
  | controlCharacter (field : String)
  | textTooLong (field : String) (maximum actual : Nat)
  | updatedBeforeCreated
  | selfSuperseded
  | tooManyTags (maximum actual : Nat)
  | duplicateTag (tag : String)
  | missingLogMetadata (field : String)
deriving DecidableEq, Repr

/-- Unlike the request title, a document text is searched for control characters
as it stands, not trimmed. -/
def validateText (field value : String) (maximum : Nat) : Except DocumentValidationError Unit :=
  if (Text.trim value.toList).isEmpty then .error (.emptyText field)
  else if value.toList.any Text.isControl then .error (.controlCharacter field)
  else if maximum < value.toList.length then
    .error (.textTooLong field maximum value.toList.length)
  else .ok ()

def validateOptionalText (field : String) (value : Option String) (maximum : Nat) :
    Except DocumentValidationError Unit :=
  match value with
  | some value => validateText field value maximum
  | none => .ok ()

def validateTags (maximumTagCharacters : Nat) :
    List String → List String → Except DocumentValidationError Unit
  | _, [] => .ok ()
  | seen, tag :: rest => do
      validateText "tag" tag maximumTagCharacters
      if tag ∈ seen then .error (.duplicateTag tag)
      else validateTags maximumTagCharacters (tag :: seen) rest

/-- Validate front-matter invariants shared by every document type. -/
def DocumentMetadata.validateCommon (metadata : DocumentMetadata) (limits : DocumentLimits) :
    Except DocumentValidationError Unit := do
  rejectIf (metadata.schemaVersion ≠ currentDocumentSchemaVersion)
    (.unsupportedSchemaVersion metadata.schemaVersion)
  validateText "title" metadata.title limits.maximumTitleCharacters
  validateOptionalText "node" metadata.node limits.maximumMetadataCharacters
  validateOptionalText "agent" metadata.agent limits.maximumMetadataCharacters
  rejectIf (metadata.effectiveTime.instant < metadata.created.instant) .updatedBeforeCreated
  rejectIf (metadata.supersededBy = some metadata.documentId) .selfSuperseded
  rejectIf (limits.maximumTags < metadata.tags.length)
    (.tooManyTags limits.maximumTags metadata.tags.length)
  validateTags limits.maximumTagCharacters [] metadata.tags

/-- A log document must say where it comes from. -/
def DocumentMetadata.validateLogMetadata (metadata : DocumentMetadata) :
    Except DocumentValidationError Unit := do
  rejectIf metadata.node.isNone (.missingLogMetadata "node")
  rejectIf metadata.agent.isNone (.missingLogMetadata "agent")
  rejectIf metadata.session.isNone (.missingLogMetadata "session")

/-- Validate front-matter invariants independent of repository state. -/
def DocumentMetadata.validate (metadata : DocumentMetadata) (documentType : DocumentType)
    (limits : DocumentLimits) : Except DocumentValidationError Unit := do
  metadata.validateCommon limits
  if documentType = .log then metadata.validateLogMetadata else pure ()

end AgentKnowledge
