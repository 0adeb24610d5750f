import ItemStore.Proofs.Assoc
import ItemStore.Proofs.Json.Numbers
import ItemStore.Proofs.Text.Utf8

/-!
# Reading compact text

The compact text of a value whose objects are in order is accepted if it is not nested more deeply
than readers accept. It is read as the value with each number replaced by what is read of that
number's text, so it is read back if its numbers are, as all integers are.

## Architecture

- `Token.readText?_flatMap`, `Number.readAs_reread`: strings are read back, and numbers are read as
  numbers;
- `Token.cuts_compact`: the text of a value is cut into the `Json.tokens` of what is read;
- `Reader.run_tokens`: the reader assembles these into a value again;
- `Json.parseWithin?_compact`, `Json.legible_of_canonical`: the text as a whole is read, and read
  back.
-/

namespace ItemStore

/-! ## Strings -/

namespace Token

private theorem hexValue?_hexDigit : ∀ n < 16, hexValue? (Json.hexDigit n) = some n := by
  decide

/-- The unit of a character that is escaped by its number. -/
theorem unit?_hexDigit {n : Nat} (h : n < 256) :
    unit? '0' '0' (Json.hexDigit (n / 16)) (Json.hexDigit (n % 16)) = some n := by
  have hzero : hexValue? '0' = some 0 := by decide
  have hhigh := hexValue?_hexDigit (n / 16) (by omega)
  have hlow := hexValue?_hexDigit (n % 16) (by omega)
  simp only [unit?, hzero, hhigh, hlow]
  congr 1
  omega

/-- A character between quotes is escaped by a letter, escaped by its number, or stands for
itself. -/
theorem escapeChar_cases (c : Char) :
    (∃ letter, Json.escapeChar c = ['\\', letter] ∧ letter ≠ 'u' ∧ escape? letter = some c) ∨
      (c.toNat < 32 ∧
        Json.escapeChar c =
          ['\\', 'u', '0', '0', Json.hexDigit (c.toNat / 16), Json.hexDigit (c.toNat % 16)]) ∨
      (¬c.toNat < 32 ∧ c ≠ '"' ∧ c ≠ '\\' ∧ Json.escapeChar c = [c]) := by
  by_cases hletter : c ∈ ['"', '\\', '\x08', '\x0c', '\n', '\r', '\t']
  · simp only [List.mem_cons, List.not_mem_nil, or_false] at hletter
    rcases hletter with rfl | rfl | rfl | rfl | rfl | rfl | rfl <;>
      exact .inl ⟨_, rfl, by decide, rfl⟩
  · simp only [List.mem_cons, List.not_mem_nil, or_false, not_or] at hletter
    obtain ⟨hquote, hslash, hback, hfeed, hline, hreturn, htab⟩ := hletter
    have hrest : Json.escapeChar c = if c.toNat < 32 then
        ['\\', 'u', '0', '0', Json.hexDigit (c.toNat / 16), Json.hexDigit (c.toNat % 16)]
          else [c] := by
      rw [Json.escapeChar, if_neg hquote, if_neg hslash, if_neg hback, if_neg hfeed, if_neg hline,
        if_neg hreturn, if_neg htab]
    by_cases hcontrol : c.toNat < 32
    · exact .inr (.inl ⟨hcontrol, hrest.trans (if_pos hcontrol)⟩)
    · exact .inr (.inr ⟨hcontrol, hquote, hslash, hrest.trans (if_neg hcontrol)⟩)

/-- A character is read back from how it stands between quotes. -/
theorem readText?_escapeChar (c : Char) (cs : List Char) :
    readText? (Json.escapeChar c ++ cs) = (readText? cs).map fun (chars, after) =>
      (c :: chars, after) := by
  rcases escapeChar_cases c with
    ⟨letter, hchar, hletter, hescape⟩ | ⟨hcontrol, hchar⟩ | ⟨hcontrol, hquote, hslash, hchar⟩
  · simp [hchar, readText?, hescape, hletter]
  · have hunit := unit?_hexDigit (n := c.toNat) (by omega)
    -- a control character is no half of a surrogate pair
    have hlow : ¬(0xDC00 ≤ c.toNat ∧ c.toNat < 0xE000) := by omega
    have hhigh : ¬(0xD800 ≤ c.toNat ∧ c.toNat < 0xDC00) := by omega
    simp only [hchar, List.cons_append, List.nil_append, readText?, hunit, if_neg hlow,
      if_neg hhigh, Char.ofNat_toNat]
  · simp [hchar, readText?, hcontrol, hslash]

/-- A string is read back from between its quotes. -/
theorem readText?_flatMap (cs rest : List Char) :
    readText? (cs.flatMap Json.escapeChar ++ '"' :: rest) = some (cs, rest) := by
  induction cs with
  | nil => simp [readText?]
  | cons c cs ih =>
    rw [List.flatMap_cons, List.append_assoc, readText?_escapeChar, ih, Option.map_some]

/-! ## Tokens -/

/-- What follows a number does not go on with it. -/
def Delimits (rest : List Char) : Prop :=
  rest.takeWhile isNumberChar = []

/-- How a token is cut off where no literal starts. -/
theorem ofChars?_cons {c : Char} (rest : List Char) (ht : c ≠ 't') (hf : c ≠ 'f') (hn : c ≠ 'n') :
    ofChars? (c :: rest) =
      if isBlank c then ofChars? rest
      else if c = '"' then
        (readText? rest).bind fun (chars, after) =>
          (ofChars? after).map (.text (String.ofList chars) :: ·)
      else if c.isDigit || c = '-' then
        ((NumberParts.ofChars? (c :: rest.takeWhile isNumberChar)).bind NumberParts.number?).bind
          fun n => (ofChars? (rest.dropWhile isNumberChar)).map (.scalar (.num n) :: ·)
      else (punctuation? c).bind fun t => (ofChars? rest).map (t :: ·) := by
  rw [ofChars?]
  · split
    next => rfl
    next =>
      split
      next =>
        split
        next hnone => simp [hnone]
        next hsome => simp [hsome]
      next => rfl
  · exact fun _ hc => absurd hc ht
  · exact fun _ hc => absurd hc hf
  · exact fun _ hc => absurd hc hn

theorem ofChars?_punctuation {c : Char} {t : Token} (h : punctuation? c = some t)
    (rest : List Char) :
    ofChars? (c :: rest) = (ofChars? rest).map (t :: ·) := by
  unfold punctuation? at h
  split at h <;> cases h <;> rw [ofChars?_cons rest (by decide) (by decide) (by decide)] <;> rfl

theorem ofChars?_quote (text : String) (rest : List Char) :
    ofChars? ((Json.quote text).toList ++ rest) = (ofChars? rest).map (.text text :: ·) := by
  have hchars : (Json.quote text).toList ++ rest =
      '"' :: (text.toList.flatMap Json.escapeChar ++ '"' :: rest) := by
    simp [Json.quote]
  rw [hchars, ofChars?_cons _ (by decide) (by decide) (by decide), readText?_flatMap]
  simp [isBlank]

theorem delimits_nil : Delimits [] := rfl

theorem delimits_cons {c : Char} (h : isNumberChar c = false) (rest : List Char) :
    Delimits (c :: rest) := by
  rw [Delimits, List.takeWhile_cons_of_neg (by simp [h])]

/-- What is written of a number is one token. -/
theorem ofChars?_number (n : Number) {rest : List Char} (hrest : Delimits rest) :
    ofChars? (n.text.toList ++ rest) = (ofChars? rest).map (.scalar (.num n.reread) :: ·) := by
  obtain ⟨⟨c, cs, htext, hstart⟩, hcontinues, hdenotes⟩ := n.readAs_reread
  rw [htext] at hcontinues hdenotes ⊢
  have hcs : ∀ a ∈ cs, isNumberChar a = true := fun a ha => hcontinues a (List.mem_cons_of_mem _ ha)
  have htake : (cs ++ rest).takeWhile isNumberChar = cs := by
    rw [List.takeWhile_append_of_pos hcs, hrest, List.append_nil]
  have hdrop : (cs ++ rest).dropWhile isNumberChar = rest := by
    have hwhole := @List.takeWhile_append_dropWhile _ isNumberChar rest
    rw [hrest, List.nil_append] at hwhole
    rw [List.dropWhile_append_of_pos hcs, hwhole]
  -- the first character decides which rule applies, and the others need other characters
  have hne (d : Char) (hd : (d.isDigit || decide (d = '-')) = false) : c ≠ d := by
    rintro rfl
    rw [hd] at hstart
    cases hstart
  have hblank : isBlank c = false := by
    simp [isBlank, hne ' ' (by decide), hne '\n' (by decide), hne '\t' (by decide),
      hne '\r' (by decide)]
  have hquote : c ≠ '"' := hne '"' (by decide)
  rw [List.cons_append,
    ofChars?_cons _ (hne 't' (by decide)) (hne 'f' (by decide)) (hne 'n' (by decide)), htake, hdrop]
  simp [hblank, hquote, hstart, hdenotes]

end Token

namespace Json

mutual

/-- The value that is read from what is written of a value: each number is replaced by what is read
of it. -/
def reread : Json → Json
  | .num n => .num n.reread
  | .arr items => .arr (rereadItems items)
  | .obj members => .obj (rereadMembers members)
  | v => v

/-- What is read of each element. -/
def rereadItems : List Json → List Json
  | [] => []
  | v :: rest => v.reread :: rereadItems rest

/-- What is read of each member. -/
def rereadMembers : List (String × Json) → List (String × Json)
  | [] => []
  | (key, v) :: rest => (key, v.reread) :: rereadMembers rest

end

/-- Every number in the value is read back from its text. -/
def Faithful (v : Json) : Prop :=
  v.reread = v

mutual

/-- The tokens of a value. -/
def tokens : Json → List Token
  | .str text => [.text text]
  | .arr items => .arrayOpen :: ([.comma].intercalate (tokensOfItems items) ++ [.arrayClose])
  | .obj members =>
    .objectOpen :: ([.comma].intercalate (tokensOfMembers members) ++ [.objectClose])
  | v => [.scalar v]

/-- The tokens of each element. -/
def tokensOfItems : List Json → List (List Token)
  | [] => []
  | v :: rest => v.tokens :: tokensOfItems rest

/-- The tokens of each member. -/
def tokensOfMembers : List (String × Json) → List (List Token)
  | [] => []
  | (key, v) :: rest => (.text key :: .colon :: v.tokens) :: tokensOfMembers rest

end

end Json

namespace Token

open Json

/-- A text is cut into these tokens wherever it stands, if what follows does not go on with a
number. -/
def Cuts (text : List Char) (ts : List Token) : Prop :=
  ∀ rest, Delimits rest → ofChars? (text ++ rest) = (ofChars? rest).map (ts ++ ·)

/-- Between two texts stands a comma. -/
theorem Cuts.append {text more : List Char} {ts us : List Token} (h : Cuts text ts)
    (h' : Cuts more us) :
    Cuts (text ++ ',' :: more) (ts ++ .comma :: us) := by
  intro rest hrest
  rw [List.append_assoc, List.cons_append, h _ (delimits_cons (by decide) _),
    ofChars?_punctuation (t := .comma) rfl, h' rest hrest]
  simp [Function.comp_def]

/-- Around a text stand brackets or braces. -/
theorem Cuts.enclose {text : List Char} {ts : List Token} {left right : Char} {l r : Token}
    (h : Cuts text ts) (hleft : punctuation? left = some l) (hright : punctuation? right = some r)
    (hend : isNumberChar right = false) :
    Cuts (left :: (text ++ [right])) (l :: (ts ++ [r])) := by
  intro rest hrest
  rw [List.cons_append, List.append_assoc, List.singleton_append, ofChars?_punctuation hleft,
    h _ (delimits_cons hend rest), ofChars?_punctuation hright]
  simp [Function.comp_def]

/-- Before a member's value stands its key. -/
theorem Cuts.member {text : List Char} {ts : List Token} (key : String) (h : Cuts text ts) :
    Cuts ((quote key).toList ++ ':' :: text) (.text key :: .colon :: ts) := by
  intro rest hrest
  rw [List.append_assoc, List.cons_append, ofChars?_quote, ofChars?_punctuation (t := .colon) rfl,
    h rest hrest]
  simp [Function.comp_def]

mutual

/-- The compact text of a value is cut into the tokens of what is read. -/
theorem cuts_compact (v : Json) : Cuts v.compact.toList v.reread.tokens := by
  cases v with
  | null => intro rest hrest; simp [compact, ofChars?, reread, tokens]
  | bool b => intro rest hrest; cases b <;> simp [compact, ofChars?, reread, tokens]
  | num n =>
    intro rest hrest
    simpa [compact, reread, tokens] using ofChars?_number n hrest
  | str text =>
    intro rest hrest
    simpa [compact, reread, tokens] using ofChars?_quote text rest
  | arr items =>
    have hitems : Cuts ('[' :: (_ ++ [']'])) (.arrayOpen :: (_ ++ [.arrayClose])) :=
      (cuts_compactItems items).enclose rfl rfl (by decide)
    simpa [compact, reread, tokens] using hitems
  | obj members =>
    have hmembers : Cuts ('\x7b' :: (_ ++ ['\x7d'])) (.objectOpen :: (_ ++ [.objectClose])) :=
      (cuts_compactMembers members).enclose rfl rfl (by decide)
    simpa [compact, reread, tokens] using hmembers

theorem cuts_compactItems (items : List Json) :
    Cuts ([','].intercalate ((compactItems items).map String.toList))
      ([.comma].intercalate (tokensOfItems (rereadItems items))) := by
  match items with
  | [] =>
    intro rest hrest
    simp [compactItems, rereadItems, tokensOfItems]
  | [v] => simpa [compactItems, rereadItems, tokensOfItems] using cuts_compact v
  | v :: w :: rest =>
    have hrest := (cuts_compact v).append (cuts_compactItems (w :: rest))
    simpa [compactItems, rereadItems, tokensOfItems] using hrest

theorem cuts_compactMembers (members : List (String × Json)) :
    Cuts ([','].intercalate ((compactMembers members).map String.toList))
      ([.comma].intercalate (tokensOfMembers (rereadMembers members))) := by
  match members with
  | [] =>
    intro rest hrest
    simp [compactMembers, rereadMembers, tokensOfMembers]
  | [(key, v)] =>
    simpa [compactMembers, rereadMembers, tokensOfMembers] using (cuts_compact v).member key
  | (key, v) :: member :: rest =>
    have hmember := ((cuts_compact v).member key).append (cuts_compactMembers (member :: rest))
    simpa [compactMembers, rereadMembers, tokensOfMembers] using hmember

end

end Token

/-! ## Readers -/

namespace Reader

open Json

variable {limit : Nat}

/-- Where a value is allowed a container may be opened, if there is room for it. -/
theorem run_arrayOpen {stack : List Frame} {e : Expect} (he : Expect.allowsValue e = true)
    (h : stack.length < limit) (ts : List Token) :
    run limit ⟨stack, e, none⟩ (.arrayOpen :: ts) =
      run limit ⟨.array [] :: stack, .firstItem, none⟩ ts := by
  simp only [run, step, Option.isSome_none, Bool.false_eq_true, he, h, if_false, and_self, if_true,
    Option.bind_some]

theorem run_objectOpen {stack : List Frame} {e : Expect} (he : Expect.allowsValue e = true)
    (h : stack.length < limit) (ts : List Token) :
    run limit ⟨stack, e, none⟩ (.objectOpen :: ts) =
      run limit ⟨.object [] none :: stack, .firstKey, none⟩ ts := by
  simp only [run, step, Option.isSome_none, Bool.false_eq_true, he, h, if_false, and_self, if_true,
    Option.bind_some]

/-- A container is closed behind one of its parts, or behind its opening. -/
theorem run_arrayClose {e : Expect} (he : e = .separator ∨ e = .firstItem) (items : List Json)
    (stack : List Frame) (ts : List Token) :
    run limit ⟨.array items :: stack, e, none⟩ (.arrayClose :: ts) =
      (put (.arr items.reverse) stack).bind fun r => run limit r ts := by
  rcases he with rfl | rfl <;> rfl

theorem run_objectClose {e : Expect} (he : e = .separator ∨ e = .firstKey)
    (members : List (String × Json)) (stack : List Frame) (ts : List Token) :
    run limit ⟨.object members none :: stack, e, none⟩ (.objectClose :: ts) =
      (put (Json.ofPairs members.reverse) stack).bind fun r => run limit r ts := by
  rcases he with rfl | rfl <;> rfl

/-- Between two parts stands a comma. -/
theorem run_comma_array (items : List Json) (stack : List Frame) (ts : List Token) :
    run limit ⟨.array items :: stack, .separator, none⟩ (.comma :: ts) =
      run limit ⟨.array items :: stack, .value, none⟩ ts := rfl

theorem run_comma_object (members : List (String × Json)) (stack : List Frame) (ts : List Token) :
    run limit ⟨.object members none :: stack, .separator, none⟩ (.comma :: ts) =
      run limit ⟨.object members none :: stack, .key, none⟩ ts := rfl

/-- Before a member's value stands its key. -/
theorem run_key {e : Expect} (he : e = .key ∨ e = .firstKey) (members : List (String × Json))
    (key : String) (stack : List Frame) (ts : List Token) :
    run limit ⟨.object members none :: stack, e, none⟩ (.text key :: .colon :: ts) =
      run limit ⟨.object members (some key) :: stack, .value, none⟩ ts := by
  rcases he with rfl | rfl <;> rfl

mutual

/-- A reader that expects a value takes the tokens of one. -/
theorem run_tokens (v : Json) (h : v.Canonical) (stack : List Frame) {e : Expect}
    (he : Expect.allowsValue e = true) (hdepth : stack.length + v.depth ≤ limit) (ts : List Token) :
    run limit ⟨stack, e, none⟩ (v.tokens ++ ts) = (put v stack).bind fun r => run limit r ts := by
  cases v with
  | arr items =>
    rw [Canonical] at h
    rw [depth] at hdepth
    have hitems := run_items items h [] stack (.inr rfl) rfl (by omega) ts
    rw [← run_arrayOpen he (by omega)] at hitems
    simpa [tokens] using hitems
  | obj members =>
    rw [Canonical] at h
    rw [depth] at hdepth
    have hmembers := run_members members h.2 [] stack (.inr rfl) (by omega) ts
    -- the reader sorts the members, which are in order already
    have hself : Json.ofPairs members = .obj members :=
      congrArg Json.obj (Assoc.ofPairs_eq_self h.1)
    rw [← run_objectOpen he (by omega)] at hmembers
    simpa [tokens, hself] using hmembers
  | str text =>
    cases e with
    | value | firstItem => simp [tokens, run, step, Expect.allowsValue]
    | _ => cases he
  | _ => simp [tokens, run, step, he]

theorem run_items (items : List Json) (h : CanonicalItems items) (acc : List Json)
    (stack : List Frame) {e : Expect} (hstart : items ≠ [] ∨ e = .firstItem)
    (he : Expect.allowsValue e = true) (hdepth : stack.length + 1 + depthItems items ≤ limit)
    (ts : List Token) :
    run limit ⟨.array acc :: stack, e, none⟩
      ([.comma].intercalate (tokensOfItems items) ++ .arrayClose :: ts) =
      (put (.arr (acc.reverse ++ items)) stack).bind fun r => run limit r ts := by
  match items with
  | [] =>
    obtain rfl : e = .firstItem := by simpa using hstart
    simpa [tokensOfItems] using run_arrayClose (.inr rfl) acc stack ts
  | [v] =>
    rw [CanonicalItems] at h
    simp only [depthItems] at hdepth
    have hv := run_tokens v h.1 (.array acc :: stack) he (by simp only [List.length_cons]; omega)
      (.arrayClose :: ts)
    rw [put, Option.bind_some, run_arrayClose (.inl rfl)] at hv
    simpa [tokensOfItems] using hv
  | v :: w :: rest =>
    rw [CanonicalItems] at h
    rw [depthItems] at hdepth
    have hrest := run_items (w :: rest) h.2 (v :: acc) stack (.inl (List.cons_ne_nil _ _))
      (e := .value) rfl (by omega) ts
    have hv := run_tokens v h.1 (.array acc :: stack) he (by simp only [List.length_cons]; omega)
      (.comma :: ([.comma].intercalate (tokensOfItems (w :: rest)) ++ .arrayClose :: ts))
    rw [put, Option.bind_some, run_comma_array, hrest] at hv
    simpa [tokensOfItems] using hv

theorem run_members (members : List (String × Json)) (h : CanonicalMembers members)
    (acc : List (String × Json)) (stack : List Frame) {e : Expect}
    (hstart : members ≠ [] ∧ e = .key ∨ e = .firstKey)
    (hdepth : stack.length + 1 + depthMembers members ≤ limit) (ts : List Token) :
    run limit ⟨.object acc none :: stack, e, none⟩
        ([.comma].intercalate (tokensOfMembers members) ++ .objectClose :: ts) =
      (put (Json.ofPairs (acc.reverse ++ members)) stack).bind fun r => run limit r ts := by
  match members with
  | [] =>
    obtain rfl : e = .firstKey := by simpa using hstart
    simpa [tokensOfMembers] using run_objectClose (.inr rfl) acc stack ts
  | [(key, v)] =>
    rw [CanonicalMembers] at h
    simp only [depthMembers] at hdepth
    have hv := run_tokens v h.1 (.object acc (some key) :: stack) (e := .value) rfl
      (by simp only [List.length_cons]; omega) (.objectClose :: ts)
    rw [put, Option.bind_some, run_objectClose (.inl rfl),
      ← run_key (hstart.imp_left And.right)] at hv
    simpa [tokensOfMembers] using hv
  | (key, v) :: member :: rest =>
    rw [CanonicalMembers] at h
    rw [depthMembers] at hdepth
    have hrest := run_members (member :: rest) h.2 ((key, v) :: acc) stack
      (.inl ⟨List.cons_ne_nil _ _, rfl⟩) (by omega) ts
    have hv := run_tokens v h.1 (.object acc (some key) :: stack) (e := .value) rfl
      (by simp only [List.length_cons]; omega)
      (.comma :: ([.comma].intercalate (tokensOfMembers (member :: rest)) ++ .objectClose :: ts))
    rw [put, Option.bind_some, run_comma_object, hrest, ← run_key (hstart.imp_left And.right)] at hv
    simpa [tokensOfMembers] using hv

end

/-- Before the end of an object the reader holds its members, latest first. -/
theorem run_members_open (members : List (String × Json)) (h : CanonicalMembers members)
    (acc : List (String × Json)) {e : Expect} (hstart : e = .key ∨ e = .firstKey)
    (hdepth : 1 + depthMembers members ≤ limit) :
    ∃ e', run limit ⟨[.object acc none], e, none⟩ ([.comma].intercalate (tokensOfMembers members)) =
      some ⟨[.object (members.reverse ++ acc) none], e', none⟩ ∧
      (e' = .separator ∨ members = [] ∧ e' = e) := by
  match members with
  | [] => exact ⟨e, rfl, .inr ⟨rfl, rfl⟩⟩
  | [(key, v)] =>
    rw [CanonicalMembers] at h
    simp only [depthMembers] at hdepth
    have hroom : [Frame.object acc (some key)].length + v.depth ≤ limit := by
      simp only [List.length_singleton]; omega
    have hv := run_tokens v h.1 [.object acc (some key)] (e := .value) rfl hroom []
    rw [put, Option.bind_some, run, ← run_key hstart, List.append_nil] at hv
    exact ⟨.separator, by simpa [tokensOfMembers] using hv, .inl rfl⟩
  | (key, v) :: member :: rest =>
    rw [CanonicalMembers] at h
    rw [depthMembers] at hdepth
    have hroom : [Frame.object acc (some key)].length + v.depth ≤ limit := by
      simp only [List.length_singleton]; omega
    obtain ⟨e', hrest, hend⟩ :=
      run_members_open (member :: rest) h.2 ((key, v) :: acc) (.inl rfl) (by omega)
    have hv := run_tokens v h.1 [.object acc (some key)] (e := .value) rfl hroom
      (.comma :: [.comma].intercalate (tokensOfMembers (member :: rest)))
    rw [put, Option.bind_some, run_comma_object, hrest, ← run_key hstart] at hv
    have hseparator : e' = .separator := hend.elim id fun h => by cases h.1
    exact ⟨e', by simpa [tokensOfMembers] using hv, .inl hseparator⟩

end Reader

/-! ## What is read -/

namespace Json

theorem keys_rereadMembers (members : List (String × Json)) :
    Assoc.keys (rereadMembers members) = Assoc.keys members := by
  induction members with
  | nil => rfl
  | cons member rest ih => exact congrArg (member.1 :: ·) ih

mutual

/-- What is read of a canonical value is canonical. -/
theorem Canonical.reread (v : Json) (h : v.Canonical) : v.reread.Canonical := by
  cases v with
  | arr items => exact CanonicalItems.reread items h
  | obj members =>
    obtain ⟨hsorted, hmembers⟩ := h
    refine ⟨?_, CanonicalMembers.reread members hmembers⟩
    rw [Assoc.Sorted, keys_rereadMembers]
    exact hsorted
  | _ => exact trivial

theorem CanonicalItems.reread (items : List Json) (h : CanonicalItems items) :
    CanonicalItems (rereadItems items) := by
  match items with
  | [] => exact trivial
  | v :: rest => exact ⟨Canonical.reread v h.1, CanonicalItems.reread rest h.2⟩

theorem CanonicalMembers.reread (members : List (String × Json)) (h : CanonicalMembers members) :
    CanonicalMembers (rereadMembers members) := by
  match members with
  | [] => exact trivial
  | (key, v) :: rest => exact ⟨Canonical.reread v h.1, CanonicalMembers.reread rest h.2⟩

end

mutual

/-- What is read of a value is nested as deeply as the value. -/
theorem depth_reread (v : Json) : v.reread.depth = v.depth := by
  cases v with
  | arr items => rw [reread, depth, depth, depthItems_reread items]
  | obj members => rw [reread, depth, depth, depthMembers_reread members]
  | _ => rfl

theorem depthItems_reread (items : List Json) :
    depthItems (rereadItems items) = depthItems items := by
  match items with
  | [] => rfl
  | v :: rest => rw [rereadItems, depthItems, depthItems, depth_reread v, depthItems_reread rest]

theorem depthMembers_reread (members : List (String × Json)) :
    depthMembers (rereadMembers members) = depthMembers members := by
  match members with
  | [] => rfl
  | (key, v) :: rest =>
    rw [rereadMembers, depthMembers, depthMembers, depth_reread v, depthMembers_reread rest]

end

/-! ## Whole texts -/

/-- The compact text of a value is read back as that value. -/
def Legible (v : Json) : Prop :=
  parse? v.compact = some v

/-- The compact text of a value is read with any limit that the value keeps to. -/
theorem parseWithin?_compact {v : Json} (hcanonical : v.Canonical) {limit : Nat}
    (hdepth : v.depth ≤ limit) :
    parseWithin? limit v.compact = some v.reread := by
  have hcuts := Token.cuts_compact v [] Token.delimits_nil
  have hroom : ([] : List Frame).length + v.reread.depth ≤ limit := by
    simpa [depth_reread] using hdepth
  have hrun := Reader.run_tokens v.reread (Canonical.reread v hcanonical) [] (e := .value)
    rfl hroom []
  simp only [List.append_nil, Token.ofChars?, Option.map_some] at hcuts hrun
  rw [parseWithin?, hcuts, Option.bind_some, Reader.start, hrun]
  rfl

/-- **Reading undoes writing**: a value whose objects are in order and whose numbers are read back
is read back as a whole, unless it is nested too deeply. -/
theorem legible_of_canonical {v : Json} (hcanonical : v.Canonical) (hfaithful : v.Faithful)
    (hdepth : v.depth ≤ depthLimit) : v.Legible :=
  (parseWithin?_compact hcanonical hdepth).trans (congrArg some hfaithful)

/-- The members that the text of an object lists are those of the object. -/
theorem membersOf?_compact {members : Members} (hcanonical : (obj members).Canonical)
    (hfaithful : (obj members).Faithful) (hdepth : (obj members).depth ≤ depthLimit) :
    membersOf? (obj members).compact = some members := by
  have hcuts := Token.cuts_compact (obj members) [] Token.delimits_nil
  rw [show (obj members).reread = obj members from hfaithful] at hcuts
  simp only [List.append_nil, Token.ofChars?, Option.map_some] at hcuts
  rw [Canonical] at hcanonical
  rw [depth] at hdepth
  -- all but the closing brace
  have hlast : (obj members).tokens.getLast? = some .objectClose := by
    rw [tokens, ← List.cons_append, List.getLast?_concat]
  have hfront : (obj members).tokens.dropLast =
      .objectOpen :: [.comma].intercalate (tokensOfMembers members) := by
    rw [tokens, ← List.cons_append, List.dropLast_concat]
  obtain ⟨e, hrun, hend⟩ : ∃ e, Reader.run depthLimit Reader.start (obj members).tokens.dropLast =
      some ⟨[.object members.reverse none], e, none⟩ ∧
      (e = .separator ∨ members = [] ∧ e = .firstKey) := by
    rw [hfront, Reader.start, Reader.run_objectOpen rfl (by simp [depthLimit])]
    simpa using Reader.run_members_open members hcanonical.2 [] (.inr rfl) (by omega)
  have hclose : (Reader.step depthLimit ⟨[.object members.reverse none], e, none⟩ .objectClose).bind
      Reader.result =
      some (ofPairs members) := by
    rcases hend with rfl | ⟨-, rfl⟩ <;> simp [Reader.step, Reader.put]
  rw [membersOf?, hcuts, Option.bind_some, hrun, Option.bind_some, hlast]
  simp [hclose]

/-! ## Integers -/

instance (m : Assoc Json) : Decidable (Assoc.Sorted m) :=
  inferInstanceAs (Decidable ((Assoc.keys m).Pairwise (· < ·)))

mutual

/-- Whether a value is canonical can be decided. -/
def decCanonical : (v : Json) → Decidable v.Canonical
  | .arr items => decCanonicalItems items
  | .obj members => @instDecidableAnd _ _ inferInstance (decCanonicalMembers members)
  | .null | .bool _ | .num _ | .str _ => isTrue trivial

/-- Whether the elements are canonical can be decided. -/
def decCanonicalItems : (items : List Json) → Decidable (CanonicalItems items)
  | [] => isTrue trivial
  | v :: rest => @instDecidableAnd _ _ (decCanonical v) (decCanonicalItems rest)

/-- Whether the members are canonical can be decided. -/
def decCanonicalMembers : (members : List (String × Json)) → Decidable (CanonicalMembers members)
  | [] => isTrue trivial
  | (_, v) :: rest => @instDecidableAnd _ _ (decCanonical v) (decCanonicalMembers rest)

end

instance (v : Json) : Decidable v.Canonical := decCanonical v

mutual

/-- Whether every number in the value is an integer. -/
def isIntegral : Json → Bool
  | .num (.double _) => false
  | .arr items => areIntegral items
  | .obj members => membersAreIntegral members
  | _ => true

/-- Whether every number in the elements is an integer. -/
def areIntegral : List Json → Bool
  | [] => true
  | v :: rest => v.isIntegral && areIntegral rest

/-- Whether every number in the members is an integer. -/
def membersAreIntegral : List (String × Json) → Bool
  | [] => true
  | (_, v) :: rest => v.isIntegral && membersAreIntegral rest

end

mutual

theorem faithful_of_isIntegral (v : Json) (h : v.isIntegral = true) : v.Faithful := by
  cases v with
  | num n =>
    cases n with
    | int i => exact congrArg num (Number.reread_int i)
    | double x => cases h
  | arr items => exact congrArg arr (rereadItems_of_areIntegral items h)
  | obj members => exact congrArg obj (rereadMembers_of_membersAreIntegral members h)
  | _ => rfl

theorem rereadItems_of_areIntegral (items : List Json) (h : areIntegral items = true) :
    rereadItems items = items := by
  match items with
  | [] => rfl
  | v :: rest =>
    obtain ⟨hv, hrest⟩ := Bool.and_eq_true_iff.mp h
    have hself : v.reread = v := faithful_of_isIntegral v hv
    rw [rereadItems, hself, rereadItems_of_areIntegral rest hrest]

theorem rereadMembers_of_membersAreIntegral (members : List (String × Json))
    (h : membersAreIntegral members = true) :
    rereadMembers members = members := by
  match members with
  | [] => rfl
  | (key, v) :: rest =>
    obtain ⟨hv, hrest⟩ := Bool.and_eq_true_iff.mp h
    have hself : v.reread = v := faithful_of_isIntegral v hv
    rw [rereadMembers, hself, rereadMembers_of_membersAreIntegral rest hrest]

end

/-- Values without binary64 numbers are read back, whatever their strings are. -/
theorem legible_of_isIntegral {v : Json} (hcanonical : v.Canonical)
    (hintegral : v.isIntegral = true) (hdepth : v.depth ≤ depthLimit) : v.Legible :=
  legible_of_canonical hcanonical (faithful_of_isIntegral v hintegral) hdepth

/-! ## Bodies -/

theorem ofBytes?_toUTF8 (text : String) : ofBytes? text.toUTF8 = parse? text := by
  rw [ofBytes?, String.toUTF8_eq_toByteArray, Text.fromUTF8?_toByteArray, Option.bind_some]

theorem Legible.ofBytes? {v : Json} (h : v.Legible) : Json.ofBytes? v.compact.toUTF8 = some v :=
  (ofBytes?_toUTF8 _).trans h

end Json

end ItemStore
