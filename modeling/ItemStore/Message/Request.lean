import ItemStore.Request.Envelope

/-!
# Requests

A request as it goes over a channel: fully addressed, with every header that is sent.
-/

namespace ItemStore

/-- A request on its way to a service. -/
structure Request where
  /-- The id by which both sides refer to the request. -/
  id : String
  method : Method
  url : Url
  headers : Headers
  body : Option ByteArray

end ItemStore
