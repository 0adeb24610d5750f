import ItemStore.Proofs.Assoc
import ItemStore.Server.Handle

/-!
# The store of a server as a map

A server's store is seen through `Server.item?`, the item at an address. This module says what a
write and a deletion do to that view, and what a patch does to a store.

- `Server.item?_write`: a write changes one item, which gets the next version;
- `Server.item?_delete`: a deletion removes one item, in a store whose collections are in order;
- `Server.Ordered`: they are, and whatever changes the store keeps them so;
- `Server.route_of_patch`: an authorized request to patch an item applies the document of its body
  to the item's value.
-/

namespace ItemStore.Server

/-! ## Writing -/

theorem itemsOf_place (s : Server) (collection key : String) (item : StoredItem)
    (collection' : String) :
    (s.place collection key item).itemsOf collection' =
      if collection = collection' then Assoc.insert key item (s.itemsOf collection)
        else s.itemsOf collection' := by
  unfold place itemsOf
  simp only [Assoc.get?_insert]
  split <;> rfl

theorem item?_place (s : Server) (collection key : String) (item : StoredItem)
    (collection' key' : String) :
    (s.place collection key item).item? collection' key' =
      if collection = collection' ∧ key = key' then some item else s.item? collection' key' := by
  unfold item?
  rw [itemsOf_place]
  by_cases hcollection : collection = collection'
  · subst hcollection
    by_cases hkey : key = key' <;> simp [hkey]
  · simp [hcollection]

/-- A write changes one item. -/
theorem item?_write (s : Server) (collection key : String) (value : Json)
    (collection' key' : String) :
    (s.write collection key value).1.item? collection' key' =
      if collection = collection' ∧ key = key' then some ⟨value, refText s.nextRef⟩
        else s.item? collection' key' :=
  item?_place s.takeRef.1 collection key ⟨value, refText s.nextRef⟩ collection' key'

/-! ## Deleting -/

theorem itemsOf_delete (s : Server) (collection key collection' : String) :
    (s.delete collection key).itemsOf collection' =
      if collection = collection' then Assoc.erase key (s.itemsOf collection)
        else s.itemsOf collection' := by
  unfold delete
  cases hknown : Assoc.get? collection s.collections with
  | none =>
    -- a collection that is not known has no items
    by_cases hcollection : collection = collection'
    · subst hcollection
      simp [itemsOf, hknown, Assoc.erase]
    · simp [hcollection]
  | some items =>
    by_cases hcollection : collection = collection'
    · subst hcollection
      simp [itemsOf, hknown, Assoc.get?_set_self hknown]
    · simp [itemsOf, hcollection, Assoc.get?_set_of_ne hcollection]

theorem nextRef_delete (s : Server) (collection key : String) :
    (s.delete collection key).nextRef = s.nextRef := by
  unfold delete
  split <;> rfl

theorem authorization_delete (s : Server) (collection key : String) :
    (s.delete collection key).authorization = s.authorization := by
  unfold delete
  split <;> rfl

/-- The items of every collection are in the order of their keys. -/
def Ordered (s : Server) : Prop :=
  ∀ collection, Assoc.Sorted (s.itemsOf collection)

theorem ordered_new (apiKey : String) (gzip : Bool) : (new apiKey gzip).Ordered :=
  fun _ => List.Pairwise.nil

theorem Ordered.place {s : Server} (h : s.Ordered) (collection key : String) (item : StoredItem) :
    (s.place collection key item).Ordered := by
  intro collection'
  rw [itemsOf_place]
  split
  next => exact (h collection).insert key item
  next => exact h collection'

theorem Ordered.write {s : Server} (h : s.Ordered) (collection key : String) (value : Json) :
    (s.write collection key value).1.Ordered :=
  Ordered.place (s := s.takeRef.1) h collection key _

theorem Ordered.delete {s : Server} (h : s.Ordered) (collection key : String) :
    (s.delete collection key).Ordered := by
  intro collection'
  rw [itemsOf_delete]
  split
  next => exact (h collection).sublist (Assoc.erase_sublist ..)
  next => exact h collection'

/-- A deletion removes one item. -/
theorem item?_delete {s : Server} (h : s.Ordered) (collection key collection' key' : String) :
    (s.delete collection key).item? collection' key' =
      if collection = collection' ∧ key = key' then none else s.item? collection' key' := by
  unfold item?
  rw [itemsOf_delete]
  by_cases hcollection : collection = collection'
  · subst hcollection
    rw [if_pos rfl, Assoc.get?_erase (h collection)]
    simp
  · simp [hcollection]

/-! ## Addresses -/

/-- The item that a path leads to. -/
def itemAt? (s : Server) (path : String) : Option StoredItem :=
  match segments? path with
  | some [collection, key] => s.item? collection key
  | _ => none

theorem itemAt?_eq_some_iff {s : Server} {path : String} {item : StoredItem} :
    s.itemAt? path = some item ↔
      ∃ collection key, segments? path = some [collection, key] ∧
      s.item? collection key = some item := by
  unfold itemAt?
  constructor
  · intro h
    split at h
    next collection key hsegments => exact ⟨collection, key, hsegments, h⟩
    next => cases h
  · rintro ⟨collection, key, hsegments, hitem⟩
    rw [hsegments]
    exact hitem

/-! ## Patches -/

/-- A request without conditions meets them. -/
theorem precondition_eq_none {headers : Headers} (hmatch : headers.get? "If-Match" = none)
    (hnoneMatch : headers.get? "If-None-Match" = none) (locator : String)
    (current : Option StoredItem) :
    precondition locator headers current = none := by
  simp [precondition, hmatch, hnoneMatch]

/-- **What a patch does**: the document of an authorized request without conditions is applied to
the value of the item that the request addresses. -/
theorem route_of_patch {s : Server} {locator : String} {request : Request} {collection key : String}
    {item : StoredItem} {body : ByteArray} {doc : PatchDocument}
    (hauthorized : request.headers.get? "Authorization" = some s.authorization)
    (hmethod : request.method = .patch)
    (hsegments : segments? request.url.path = some [collection, key])
    (hitem : s.item? collection key = some item) (hmatch : request.headers.get? "If-Match" = none)
    (hnoneMatch : request.headers.get? "If-None-Match" = none) (hbody : request.body = some body)
    (hdoc : PatchDocument.ofBytes body = .ok doc) :
    s.route locator request = match PatchDocument.apply doc item.value with
      | .error f => (conflict f, s)
      | .ok value => s.store collection key value := by
  have hcondition := precondition_eq_none hmatch hnoneMatch locator (some item)
  rw [route, if_neg (not_not_intro hauthorized), hsegments, hmethod]
  -- authorized and free of conditions, so what is left is to apply the document
  cases happly : PatchDocument.apply doc item.value <;>
    simp only [patch, hbody, hdoc, hitem, hcondition, happly]

end ItemStore.Server
