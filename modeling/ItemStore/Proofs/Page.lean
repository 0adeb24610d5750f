import ItemStore.Page
import ItemStore.Proofs.Json.Fits

/-!
# Reading pages

A page is read from the text of an object as from the object itself (`Page.ofText?_compact`). The
two readers differ: the one for texts refuses a field that is listed twice, which no object in order
has.
-/

namespace ItemStore.Page

theorem distinctFields_of_sorted {members : Members} (h : Assoc.Sorted members) :
    distinctFields members = true := by
  refine List.all_eq_true.mpr fun name _ => decide_eq_true ?_
  have hcount := List.nodup_iff_count.mp (Assoc.nodup_of_increasing h) name
  rwa [Assoc.keys, List.count_eq_countP, List.countP_map, List.countP_eq_length_filter] at hcount

/-- **Text and value are read alike**, if the value fits into a text. -/
theorem ofText?_compact {members : Members} (h : (Json.obj members).Fits Json.depthLimit) :
    ofText? (Json.obj members).compact = ofJson? (.obj members) := by
  have hcanonical := h.canonical
  rw [Json.Canonical] at hcanonical
  have hmembers := Json.membersOf?_compact h.canonical h.faithful h.depth_le
  simp only [ofText?, hmembers, distinctFields_of_sorted hcanonical.1, if_true, ofJson?]

theorem ofBytes?_toUTF8 (text : String) : ofBytes? text.toUTF8 = ofText? text := by
  rw [ofBytes?, String.toUTF8_eq_toByteArray, Text.fromUTF8?_toByteArray, Option.bind_some]

end ItemStore.Page
