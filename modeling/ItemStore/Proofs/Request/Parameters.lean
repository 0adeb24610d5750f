import ItemStore.Proofs.Request.Link

/-!
# Parameters on their way

The parameters of an envelope are written into the URL of its request, read there by a server,
written into a link, and read by the client that follows it. Names and values are percent-encoded on
the way out, what a query cannot hold is encoded in the URL, and the whole is read as forms are on
the way in. None of this changes them, whatever characters they have.

- `Envelope.parameters_survive`: the URL of a request gives the list of its parameters back, and so
  does a link with the text of them;
- `Envelope.Hops.query_eq`: so does any number of links, each with the query of the URL of the
  request before it.
-/

namespace ItemStore

open Url

/-- The text of a list of parameters is that of no other list. -/
theorem Query.encode_inj {pairs pairs' : List (String × String)} :
    encode pairs = encode pairs' ↔ pairs = pairs' := by
  constructor
  · intro h
    rw [← decode_encode pairs, h, decode_encode]
  · rintro rfl
    rfl

/-- The query of a request's URL is the text of the parameters. -/
theorem Endpoint.query_resolve (e : Endpoint) (path : String) (pairs : List (String × String)) :
    (e.resolve path (Query.encode pairs)).query.getD "" = Query.encode pairs :=
  query_withQuery _ pairs

namespace Envelope

variable {e e' next : Envelope}

/-! ## Any number of links -/

/-- A link is followed that has the query of the URL of a request for the envelope. The request can
go to any endpoint and any path, the link leads to any plain segments, and any other envelope may be
the one that follows it. -/
inductive Hop (e next : Envelope) : Prop where
  | mk (endpoint : Endpoint) (path : String) (origin : Envelope) {first : String}
      {rest : List String} (named : first ≠ "")
      (plain : ∀ part ∈ first :: rest, IsPlainSegment part)
      (followed : origin.follow (segmentsText (first :: rest) ++ "?" ++
        (endpoint.resolve path e.queryString).query.getD "") = .ok next)

/-- Any number of links, one after the other. -/
inductive Hops (e : Envelope) : Envelope → Prop where
  | refl : Hops e e
  | step {e' next : Envelope} (h : Hops e e') (hop : Hop e' next) : Hops e next

theorem Hop.query_eq (h : Hop e next) : next.query = e.query := by
  obtain ⟨endpoint, path, origin, named, plain, followed⟩ := h
  rw [queryString, Endpoint.query_resolve] at followed
  have hnext := (follow_link named plain e.query origin).symm.trans followed
  rw [← Except.ok.inj hnext]

/-- However many links are followed, the parameters stay as they are. -/
theorem Hops.query_eq (h : Hops e e') : e'.query = e.query := by
  induction h with
  | refl => rfl
  | step h hop ih => exact hop.query_eq.trans ih

/-! ## One request and one link -/

theorem isPlainSegment_items : IsPlainSegment "items" :=
  ⟨List.all_eq_true.mp (by decide), by decide, by decide⟩

/-- What it means that parameters survive, on the wire and in a link. -/
structure ParametersSurvive (endpoint : Endpoint) (path : String) (origin e : Envelope) : Prop where
  /-- The query of the URL is the text of the parameters. -/
  query_eq : (endpoint.resolve path e.queryString).query.getD "" = e.queryString
  /-- It is read as the list of the parameters, in its order and with what it holds more than
  once. -/
  queryPairs_eq : (endpoint.resolve path e.queryString).queryPairs = e.query
  /-- A link with this text is followed to the same parameters, which have the same text. -/
  followed : ∃ next, origin.follow ("/v0/items?" ++ e.queryString) = .ok next ∧
    next.path = "/v0/items" ∧
    next.query = e.query ∧ next.queryString = e.queryString
  /-- No other parameters have this text. -/
  queryString_inj : ∀ other : Envelope, other.queryString = e.queryString ↔ other.query = e.query

/-- **Parameters survive** the wire and links, for every list of them. -/
theorem parameters_survive (endpoint : Endpoint) (path : String) (origin e : Envelope) :
    ParametersSurvive endpoint path origin e where
  query_eq := Endpoint.query_resolve endpoint path e.query
  queryPairs_eq := Endpoint.queryPairs_resolve endpoint path e.query
  followed := by
    have hplain : ∀ part ∈ ["v0", "items"], IsPlainSegment part := by
      simp [isPlainSegment_root, isPlainSegment_items]
    have hlink : "/v0/items?" ++ e.queryString = linkTo ["v0", "items"] e.query := by
      rw [linkTo, queryString]
      congr 1
    exact ⟨_, (congrArg origin.follow hlink).trans (follow_link (by decide) hplain e.query origin),
      rfl, rfl, rfl⟩
  queryString_inj other := Query.encode_inj

end Envelope

end ItemStore
