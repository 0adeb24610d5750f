import ItemStore.Proofs.Pointer

/-!
# Written pointers

A list of tokens is written as a pointer, and the pointer is read again.

## Main result

- `Pointer.tokens_read_back`: every list of tokens is read back from its pointer, except the list of
  a single empty token; reading fails for the texts that are not empty and do not start with a
  slash, and for no others; and the escapes of a token are undone by two replacements one after the
  other.

## Architecture

1. `Pointer.unescape_escape` is the round trip of one token, and `Pointer.unescape_eq_replacePair`
   compares the single pass over a token with the two replacements.
2. `Pointer.pieces_print` cuts a written pointer at its slashes: an escaped token holds none.
-/

namespace ItemStore

/-! ## Replacements -/

namespace Text

/-- Puts characters in the place of two others wherever these stand in a row, from left to right. -/
def replacePair (a b : Char) (new : List Char) : List Char → List Char
  | c :: d :: rest =>
    if c = a ∧ d = b then new ++ replacePair a b new rest else c :: replacePair a b new (d :: rest)
  | cs => cs

/-- A text with another one in the place of two characters wherever they stand in a row. -/
def replace (a b : Char) (new s : String) : String :=
  String.ofList (replacePair a b new.toList s.toList)

variable {a b c d : Char} {new : List Char}

theorem replacePair_cons_of_ne (h : c ≠ a) (cs : List Char) :
    replacePair a b new (c :: cs) = c :: replacePair a b new cs := by
  cases cs with
  | nil => rfl
  | cons d rest =>
    rw [replacePair, if_neg]
    intro hpair
    exact h hpair.1

theorem replacePair_cons_cons_of_ne (h : d ≠ b) (rest : List Char) :
    replacePair a b new (c :: d :: rest) = c :: replacePair a b new (d :: rest) := by
  rw [replacePair, if_neg]
  intro hpair
  exact h hpair.2

theorem replacePair_pair (rest : List Char) :
    replacePair a b new (a :: b :: rest) = new ++ replacePair a b new rest := by
  rw [replacePair, if_pos ⟨rfl, rfl⟩]

/-- A text begins as before, or with what was put in. -/
theorem exists_replacePair_cons {n : Char} (news : List Char) (rest : List Char) :
    ∃ c' cs, replacePair a b (n :: news) (c :: rest) = c' :: cs ∧ (c' = c ∨ c' = n) := by
  cases rest with
  | nil => exact ⟨c, [], rfl, .inl rfl⟩
  | cons d rest =>
    unfold replacePair
    split
    · exact ⟨n, _, rfl, .inr rfl⟩
    · exact ⟨c, _, rfl, .inl rfl⟩

end Text

namespace Pointer

/-! ## Tokens -/

theorem unescape_cons_of_ne {c : Char} (h : c ≠ '~') (rest : List Char) :
    unescape (c :: rest) = c :: unescape rest := by
  rw [unescape]
  · rintro rest' rfl
    exact absurd rfl h
  · rintro rest' rfl
    exact absurd rfl h

theorem escape_cons_of_ne {c : Char} (htilde : c ≠ '~') (hslash : c ≠ '/') (rest : List Char) :
    escape (c :: rest) = c :: escape rest := by
  rw [escape, if_neg htilde, if_neg hslash]

/-- The escapes of a token are undone. -/
theorem unescape_escape (cs : List Char) : unescape (escape cs) = cs := by
  induction cs with
  | nil => rfl
  | cons c rest ih =>
    by_cases htilde : c = '~'
    · subst htilde
      show '~' :: unescape (escape rest) = '~' :: rest
      rw [ih]
    · by_cases hslash : c = '/'
      · subst hslash
        show '/' :: unescape (escape rest) = '/' :: rest
        rw [ih]
      · rw [escape_cons_of_ne htilde hslash, unescape_cons_of_ne htilde, ih]

/-- An escaped token holds no slash, so that it is not cut. -/
theorem slash_not_mem_escape (cs : List Char) : '/' ∉ escape cs := by
  induction cs with
  | nil => exact List.not_mem_nil
  | cons c rest ih =>
    unfold escape
    split
    · simpa using ih
    · split
      · simpa using ih
      next hslash => simpa [Ne.symm hslash] using ih

theorem escape_eq_nil_iff {cs : List Char} : escape cs = [] ↔ cs = [] := by
  cases cs with
  | nil => exact ⟨fun _ => rfl, fun _ => rfl⟩
  | cons c rest =>
    constructor
    · intro h
      unfold escape at h
      repeat' split at h
      all_goals cases h
    · intro h
      cases h

/-- **Two replacements**: undoing the escapes in one pass is the same as first putting slashes in
the place of `~1` and then tildes in the place of `~0`. In the other order `~01` would become a
slash. -/
theorem unescape_eq_replacePair (cs : List Char) :
    unescape cs = Text.replacePair '~' '0' ['~'] (Text.replacePair '~' '1' ['/'] cs) := by
  fun_induction unescape cs with
  | case1 rest ih =>
    have hslash : '/' ≠ '~' := by decide
    rw [Text.replacePair_pair, List.singleton_append, Text.replacePair_cons_of_ne hslash, ih]
  | case2 rest ih =>
    have hone : '0' ≠ '1' := by decide
    have htilde : '0' ≠ '~' := by decide
    rw [Text.replacePair_cons_cons_of_ne hone, Text.replacePair_cons_of_ne htilde,
      Text.replacePair_pair, List.singleton_append, ih]
  | case3 c rest hslash htilde ih =>
    by_cases hc : c = '~'
    · subst hc
      cases rest with
      | nil => rfl
      | cons d rest =>
        have hd : d ≠ '1' := fun h => hslash rest rfl (h ▸ rfl)
        have hd' : d ≠ '0' := fun h => htilde rest rfl (h ▸ rfl)
        -- the first replacement puts in no zero, so that the tilde still stands for itself
        obtain ⟨d', ds, hds, hfirst⟩ :=
          Text.exists_replacePair_cons (a := '~') (b := '1') (c := d) (n := '/') [] rest
        have hzero : d' ≠ '0' := by
          rcases hfirst with rfl | rfl
          · exact hd'
          · decide
        rw [Text.replacePair_cons_cons_of_ne hd, hds,
          Text.replacePair_cons_cons_of_ne hzero, ih, hds]
    · rw [Text.replacePair_cons_of_ne hc, Text.replacePair_cons_of_ne hc, ih]
  | case4 => rfl

/-! ## Pointers -/

/-- A written pointer is cut into its tokens. -/
theorem pieces_print (token : String) (tokens : List String) :
    Text.pieces '/'
      (escape token.toList ++ tokens.flatMap fun token => '/' :: escape token.toList) =
      (token :: tokens).map fun token => escape token.toList := by
  induction tokens generalizing token with
  | nil =>
    rw [List.flatMap_nil, List.append_nil]
    exact Text.pieces_of_not_mem (slash_not_mem_escape token.toList)
  | cons next tokens ih =>
    rw [List.flatMap_cons, List.cons_append, Text.pieces_append, ih,
      Text.pieces_of_not_mem (slash_not_mem_escape token.toList)]
    rfl

theorem toList_print_cons (token : String) (tokens : List String) :
    (print (token :: tokens)).toList =
      '/' :: (escape token.toList ++ tokens.flatMap fun token => '/' :: escape token.toList) := by
  rw [print, String.toList_ofList]
  rfl

/-- Only the list of a single empty token is written as a lone slash. -/
theorem parse?_print {tokens : List String} (h : tokens ≠ [""]) :
    parse? (print tokens) = some tokens := by
  cases tokens with
  | nil => rfl
  | cons token tokens =>
    have hlist := toList_print_cons token tokens
    have hpieces := pieces_print token tokens
    cases hrest : escape token.toList ++ tokens.flatMap fun token => '/' :: escape token.toList with
    | nil =>
      obtain ⟨htoken, htokens⟩ := List.append_eq_nil_iff.mp hrest
      have hempty : token = "" := String.toList_eq_nil_iff.mp (escape_eq_nil_iff.mp htoken)
      have hnone : tokens = [] := by
        cases tokens with
        | nil => rfl
        | cons next tokens => cases htokens
      exact absurd (by rw [hempty, hnone]) h
    | cons c rest =>
      rw [hrest] at hlist hpieces
      rw [parse?_of_slash hlist, hpieces, List.map_map]
      simp [Function.comp_def, unescape_escape]

/-- A text that starts with a slash and goes on is read piece by piece. -/
theorem parse?_slash_append {rest : String} (h : rest ≠ "") :
    parse? ("/" ++ rest) =
      some ((Text.split '/' rest).map fun token => String.ofList (unescape token.toList)) := by
  obtain ⟨c, cs, hrest⟩ := List.exists_cons_of_ne_nil (mt String.toList_eq_nil_iff.mp h)
  have hlist : ("/" ++ rest).toList = '/' :: c :: cs := by
    rw [String.toList_append, hrest]
    rfl
  rw [parse?_of_slash hlist, Text.split, hrest, List.map_map]
  simp [Function.comp_def]

theorem parse?_eq_none_iff {path : String} :
    parse? path = none ↔ path ≠ "" ∧ ∀ rest, path ≠ "/" ++ rest := by
  constructor
  · intro hnone
    constructor
    · rintro rfl
      cases hnone
    · rintro rest rfl
      by_cases hrest : rest = ""
      · subst hrest
        cases hnone
      · rw [parse?_slash_append hrest] at hnone
        cases hnone
  · rintro ⟨hempty, hslash⟩
    unfold parse?
    split
    next hlist => exact absurd (String.toList_eq_nil_iff.mp hlist) hempty
    next hlist => exact absurd (String.toList_inj.mp hlist) (hslash "")
    next rest _ hlist =>
      have hpath : path = "/" ++ String.ofList rest := String.toList_inj.mp (by simp [hlist])
      exact absurd hpath (hslash _)
    next => rfl

/-- **Escapes are undone exactly.** Each list of tokens is read back from the pointer that is
written for it, unless it consists of a single empty token, whose pointer addresses the whole
document. No text is refused unless it is not empty and does not start with a slash. Behind the
slash a text is cut, and in each piece first `~1` and then `~0` is replaced. -/
theorem tokens_read_back :
    (∀ tokens, parse? (print tokens) = some tokens ↔ tokens ≠ [""]) ∧
      (∀ path, parse? path = none ↔ path ≠ "" ∧ ∀ rest, path ≠ "/" ++ rest) ∧
      ∀ rest, rest ≠ "" → parse? ("/" ++ rest) =
        some ((Text.split '/' rest).map fun token =>
          Text.replace '~' '0' "~" (Text.replace '~' '1' "/" token)) := by
  refine ⟨fun tokens => ⟨?_, parse?_print⟩, fun path => parse?_eq_none_iff, fun rest hrest => ?_⟩
  · rintro hread rfl
    cases hread
  · rw [parse?_slash_append hrest]
    simp only [unescape_eq_replacePair, Text.replace, String.toList_ofList]
    rfl

/-- A token in which an escaped tilde stands before a digit, next to an empty one and one with a
slash. -/
theorem tokens_read_back_of_three :
    print ["~1", "", "a/b"] = "/~01//a~1b" ∧ parse? "/~01//a~1b" = some ["~1", "", "a/b"] ∧
    parse? "~01" = none := by
  obtain ⟨hread, hfails, -⟩ := tokens_read_back
  have hprint : print ["~1", "", "a/b"] = "/~01//a~1b" := by decide
  have htokens : parse? (print ["~1", "", "a/b"]) = some ["~1", "", "a/b"] :=
    (hread ["~1", "", "a/b"]).mpr (by decide)
  refine ⟨hprint, hprint ▸ htokens, (hfails "~01").mpr ⟨by decide, fun rest hslash => ?_⟩⟩
  have hlist := congrArg String.toList hslash
  rw [String.toList_append] at hlist
  exact absurd (List.cons.inj hlist).1 (by decide)

end Pointer

end ItemStore
