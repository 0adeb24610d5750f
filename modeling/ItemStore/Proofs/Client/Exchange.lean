import ItemStore.Proofs.Client.Requests
import ItemStore.Proofs.Message.Compression
import ItemStore.Verdict.Interpret

/-!
# Requests and their answers

What a client makes of the answer of a server to one of its requests: it judges and decodes what the
route gives, with the id of the request in it, whether the server compresses its answers or not.
-/

namespace ItemStore.Client

theorem interpret_handle {α : Type} {client : Client} {e : Envelope} {server server' : Server}
    {locator id : String} {r : Response}
    (hroute : server.route locator (client.request e id) = (r, server')) (hplain : r.Plain)
    (decode : Decoder α) :
    (server.handle locator (client.request e id)).1.interpret e.success decode id =
      (r.withHeader "X-Request-Id" id).classify e.success id >>= fun _ =>
        (decode (r.withHeader "X-Request-Id" id)).mapError
          ((r.withHeader "X-Request-Id" id).decodingError id) := by
  have hanswer : server.answer locator (client.request e id) = r.withHeader "X-Request-Id" id := by
    rw [Server.answer, Client.get?_request_id, hroute]
  have hplain' : (server.route locator (client.request e id)).1.Plain := by rwa [hroute]
  rw [Response.interpret, Server.decompressed_handle hplain', hanswer]
  rfl

end ItemStore.Client
