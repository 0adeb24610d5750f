import ItemStore.Message.Request
import ItemStore.Pool.Basic
import ItemStore.Request.StandardHeaders

/-!
# Clients

A client knows the endpoint of a service, the headers that every request to it has, and the limits
of the pool that it sends them over. `Client.request` addresses an envelope.
-/

namespace ItemStore

/-- What requests to a service have in common. -/
structure Client where
  endpoint : Endpoint
  headers : StandardHeaders
  /-- The limits of the pool. -/
  config : PoolConfig

namespace Client

/-- The request for an envelope: addressed to the endpoint, with the standard headers and its id. -/
def request (c : Client) (e : Envelope) (id : String) : Request :=
  { id
    method := e.method
    url := c.endpoint.resolve e.path e.queryString
    headers := (c.headers.apply e.headers).insert "X-Request-Id" id
    body := e.body }

/-- Inspection text. -/
def inspect (c : Client) : String :=
  Text.record "Client" [("endpoint", Text.quoted c.endpoint.text)] false

/-- Inspection text of the part that sends requests over a pool. -/
def inspectSender (c : Client) (p : Pool) : String :=
  Text.record "Dispatcher" [("pool", p.inspect), ("headers", c.headers.inspect)] true

end Client

end ItemStore
