/-!
# Errors

A fallible operation of the database returns a value or an `Error`: a code that does not depend on
the text, and a message. Only the codes that a modelled operation can return are listed.
-/

namespace MoDb

inductive ErrorCode
  | invalidArgument
  | fileNotFound
  | ioError
  | invalidFileFormat
  | incompatibleFormatVersion
  | incompatiblePageVersion
  | corruptFile
  | pageNotFound
  | corruptPage
  | invalidPageFormat
  | pageChainCycle
  | pageFull
  | recordTooLarge
  | slotNotFound
  | reservedPage
  | walCorrupt
  | replicationGap
  | transactionActive
  | transactionRequired
  | transactionCommitted
  | valueTooLarge
  | typeMismatch
  | nullConstraintViolation
  | invalidIdentifier
  | duplicateColumn
  | duplicateType
  | tooManyColumns
  | recordNotFound
  | duplicateField
  | fieldNotFound
  | typeNotFound
  | invalidObjectId
  | incompatibleProjection
  | snapshotConflict
  | unexpectedEndOfInput
  | invalidEncoding
  | trailingData
  | protocolError
  | frameTooLarge
  | edgeTargetNotFound
  | graphLimitExceeded
  | graphCycle
  deriving DecidableEq, Repr

structure Error where
  code : ErrorCode
  message : String
  deriving DecidableEq, Repr

end MoDb
