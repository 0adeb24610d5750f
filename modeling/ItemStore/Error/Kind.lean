/-!
# Kinds of errors

The closed list of kinds that a failed operation can have. Some are raised by the server, as the
code of an error document or by a status; the local ones arise on the way there and back.
-/

namespace ItemStore

/-- What kind of error an operation ended in. -/
inductive ErrorKind where
  /-- A conditional write met another version of the item. -/
  | versionMismatch
  /-- A write that must create an item found one. -/
  | alreadyPresent
  /-- An operation of a patch could not be applied. -/
  | patchConflict
  /-- A test of a patch did not hold. -/
  | testAssertionFailed
  /-- The server could not read the request. -/
  | badRequest
  /-- The server did not accept the credentials. -/
  | invalidCredential
  /-- Any other answer that is no success. -/
  | requestFailed
  /-- No channel was free in time. -/
  | channelUnavailable
  /-- Something took too long. -/
  | timeout
  /-- A channel failed. -/
  | transport
  /-- An answer could not be understood. -/
  | invalidResponse
  /-- The client is set up wrongly. -/
  | configuration
  /-- An argument is not acceptable. -/
  | invalidArgument
deriving DecidableEq, Repr

namespace ErrorKind

/-- The kind in words. -/
def label : ErrorKind → String
  | .versionMismatch => "version mismatch"
  | .alreadyPresent => "already present"
  | .patchConflict => "patch conflict"
  | .testAssertionFailed => "test assertion failed"
  | .badRequest => "bad request"
  | .invalidCredential => "invalid credential"
  | .requestFailed => "request failed"
  | .channelUnavailable => "channel unavailable"
  | .timeout => "timeout"
  | .transport => "transport error"
  | .invalidResponse => "invalid response"
  | .configuration => "configuration error"
  | .invalidArgument => "invalid argument"

/-- The message of an error of which nothing but the kind is known. -/
def defaultMessage : ErrorKind → String
  | .versionMismatch => "item version does not match"
  | .alreadyPresent => "item already present"
  | .patchConflict => "patch operation could not be applied"
  | .testAssertionFailed => "patch test operation failed"
  | .badRequest => "request was rejected as malformed"
  | .invalidCredential => "authentication failed"
  | .requestFailed => "request failed"
  | .channelUnavailable => "no channel available"
  | .timeout => "timed out"
  | .transport => "transport failure"
  | .invalidResponse => "invalid response"
  | .configuration => "configuration error"
  | .invalidArgument => "invalid argument"

/-- Whether the error arose on this side and not at the server. -/
def isLocal : ErrorKind → Bool
  | .channelUnavailable | .timeout | .transport | .invalidResponse | .configuration
  | .invalidArgument => true
  | _ => false

/-- Whether the same request can be sent again as it is. -/
def isRetriable : ErrorKind → Bool
  | .channelUnavailable | .timeout | .transport => true
  | _ => false

/-- Whether the item should be read again before another attempt. -/
def requiresRefresh : ErrorKind → Bool
  | .versionMismatch | .testAssertionFailed => true
  | _ => false

/-- The code by which the server names the kind. -/
def serverCode? : ErrorKind → Option String
  | .versionMismatch => some "item_version_mismatch"
  | .alreadyPresent => some "item_already_present"
  | .patchConflict | .testAssertionFailed => some "patch_conflict"
  | .badRequest => some "api_bad_request"
  | _ => none

end ErrorKind

end ItemStore
