import ItemStore.Proofs.Json.Fits

/-!
# What readers accept

A reader accepts no value that is nested more deeply than its limit, and a greater limit changes
nothing else. So the compact text of a value is read by exactly the readers whose limit the value
keeps to.

## Main results

- `Json.within_of_ofBytes?`: what is read from bytes has its objects in order and keeps to the
  limit;
- `Json.ofBytes?_compact_eq_some_iff`: the compact text of a value is read or refused as its depth
  decides.

## Architecture

- `Reader.Open` describes a stack of open containers by the room that it leaves for what is read
  next;
- `Reader.Sound.step` is what one token preserves, and `Reader.Sound.run` follows for lists of
  tokens;
- `Reader.run_mono` compares two limits.
-/

namespace ItemStore

/-! ## Tokens -/

namespace Token

/-- The token is no array or object as a whole. -/
def IsFlat : Token → Prop
  | .scalar v => v.Within 0
  | _ => True

private theorem isFlat_of_map_cons {t : Token} (ht : t.IsFlat) {found : Option (List Token)}
    (ih : ∀ ts, found = some ts → ∀ u ∈ ts, u.IsFlat) (ts : List Token)
    (h : found.map (t :: ·) = some ts) :
    ∀ u ∈ ts, u.IsFlat := by
  obtain ⟨rest, hrest, rfl⟩ := Option.map_eq_some_iff.mp h
  exact List.forall_mem_cons.mpr ⟨ht, ih rest hrest⟩

theorem isFlat_of_punctuation? {c : Char} {t : Token} (h : punctuation? c = some t) : t.IsFlat := by
  unfold punctuation? at h
  split at h <;> cases h <;> trivial

/-- Arrays and objects are cut into several tokens. -/
theorem isFlat_of_ofChars? (cs : List Char) : ∀ ts, ofChars? cs = some ts → ∀ t ∈ ts, t.IsFlat := by
  fun_induction ofChars? cs
  case case1 =>
    rintro ts ⟨⟩
    exact nofun
  case case2 ih | case3 ih | case4 ih =>
    refine isFlat_of_map_cons ?_ ih
    exact ⟨trivial, Nat.le_refl 0⟩
  case case5 ih => exact ih
  case case6 => exact nofun
  case case7 ih =>
    refine isFlat_of_map_cons ?_ ih
    exact trivial
  case case8 ih =>
    intro ts h
    obtain ⟨n, -, hrest⟩ := Option.bind_eq_some_iff.mp h
    have hn : (Token.scalar (.num n)).IsFlat := ⟨trivial, Nat.le_refl 0⟩
    exact isFlat_of_map_cons hn ih ts hrest
  case case9 ih =>
    intro ts h
    obtain ⟨t, ht, hrest⟩ := Option.bind_eq_some_iff.mp h
    exact isFlat_of_map_cons (isFlat_of_punctuation? ht) ih ts hrest

end Token

/-! ## Readers -/

/-- What has been read of a container keeps to a bound. -/
def Frame.Within (room : Nat) : Frame → Prop
  | .array items => ∀ v ∈ items, v.Within room
  | .object members _ => ∀ member ∈ members, member.2.Within room

namespace Reader

open Json

variable {limit room : Nat} {stack : List Frame} {r r' : Reader} {v : Json}

/-- The open containers keep to the limit, and what is read next may be nested as deeply as there is
room. -/
inductive Open (limit : Nat) : Nat → List Frame → Prop where
  | nil : Open limit limit []
  | cons {room : Nat} {frame : Frame} {stack : List Frame} (below : Open limit (room + 1) stack)
      (parts : frame.Within room) :
      Open limit room (frame :: stack)

/-- Each open container takes one level. -/
theorem Open.room_add_length (h : Open limit room stack) : room + stack.length = limit := by
  induction h with
  | nil => rfl
  | cons below parts ih =>
    rw [List.length_cons, ← ih]
    omega

/-- Where there is room a container can be opened. -/
theorem Open.push (h : Open limit room stack) (hroom : stack.length < limit) {frame : Frame}
    (hframe : ∀ n, frame.Within n) :
    Open limit (room - 1) (frame :: stack) := by
  have hpos : room - 1 + 1 = room := by
    have := h.room_add_length
    omega
  exact .cons (hpos.symm ▸ h) (hframe _)

/-- What a reader holds keeps to the limit. -/
structure Sound (limit : Nat) (r : Reader) : Prop where
  stack : ∃ room, Open limit room r.stack
  result : ∀ v, r.result = some v → v.Within limit

theorem sound_start (limit : Nat) : Sound limit start :=
  ⟨⟨limit, .nil⟩, nofun⟩

theorem Open.sound (h : Open limit room stack) (e : Expect) : Sound limit ⟨stack, e, none⟩ :=
  ⟨⟨room, h⟩, nofun⟩

/-- A value for which there is room can be put into the innermost container. -/
theorem Open.put (h : Open limit room stack) (hv : v.Within room) (hput : put v stack = some r) :
    Sound limit r := by
  cases h with
  | nil =>
    cases hput
    refine ⟨⟨limit, .nil⟩, ?_⟩
    rintro _ ⟨⟩
    exact hv
  | @cons _ frame stack below parts =>
    cases frame with
    | array items =>
      cases hput
      have hparts : (Frame.array (v :: items)).Within room := List.forall_mem_cons.mpr ⟨hv, parts⟩
      exact (Open.cons below hparts).sound _
    | object members key =>
      cases key with
      | none => cases hput
      | some key =>
        cases hput
        have hparts : (Frame.object ((key, v) :: members) none).Within room :=
          List.forall_mem_cons.mpr ⟨hv, parts⟩
        exact (Open.cons below hparts).sound _

/-- A key changes nothing about the parts that have been read. -/
theorem Open.key {members : List (String × Json)} {key : Option String}
    (h : Open limit room (.object members key :: stack)) (key' : Option String) :
    Open limit room (.object members key' :: stack) := by
  cases h with
  | cons below parts => exact .cons below parts

/-- A container that is complete keeps to what was left below it. -/
theorem Open.close {frame : Frame} (h : Open limit room (frame :: stack)) :
    Open limit (room + 1) stack ∧ frame.Within room := by
  cases h with
  | cons below parts => exact ⟨below, parts⟩

/-- One token is taken soundly. -/
theorem Sound.step {t : Token} (h : Sound limit r) (ht : t.IsFlat)
    (hstep : step limit r t = some r') : Sound limit r' := by
  obtain ⟨⟨room, hopen⟩, -⟩ := h
  unfold Reader.step at hstep
  split at hstep
  next => cases hstep
  next =>
    split at hstep
    next v =>
      obtain ⟨-, hput⟩ := Option.ite_none_right_eq_some.mp hstep
      have hv : v.Within 0 := ht
      exact hopen.put (hv.mono (Nat.zero_le _)) hput
    next key =>
      -- a key, or a text as a value
      split at hstep
      case h_1 hstack | h_2 hstack =>
        rw [hstack] at hopen
        cases hstep
        exact (hopen.key (some key)).sound _
      case h_3 =>
        obtain ⟨-, hput⟩ := Option.ite_none_right_eq_some.mp hstep
        exact hopen.put (inherited_within.str ..) hput
    -- a container is opened or closed
    case h_3 | h_4 =>
      obtain ⟨⟨-, hroom⟩, hopened⟩ := Option.ite_none_right_eq_some.mp hstep
      cases hopened
      refine (hopen.push hroom ?_).sound _
      exact fun _ => List.forall_mem_nil _
    case h_5 items stack hstack =>
      rw [hstack] at hopen
      obtain ⟨-, hput⟩ := Option.ite_none_right_eq_some.mp hstep
      obtain ⟨below, parts⟩ := hopen.close
      exact below.put (inherited_within.arr fun v hv => parts v (List.mem_reverse.mp hv)) hput
    case h_6 members stack hstack =>
      rw [hstack] at hopen
      obtain ⟨-, hput⟩ := Option.ite_none_right_eq_some.mp hstep
      obtain ⟨below, parts⟩ := hopen.close
      exact below.put (inherited_within.ofPairs fun member hmember =>
        parts member (List.mem_reverse.mp hmember)) hput
    -- a comma or a colon
    case h_7 hstack | h_8 hstack | h_9 hstack =>
      rw [hstack] at hopen
      obtain ⟨-, hnext⟩ := Option.ite_none_right_eq_some.mp hstep
      cases hnext
      exact hopen.sound _
    next => cases hstep

/-- So is a list of tokens. -/
theorem Sound.run {ts : List Token} (h : Sound limit r) (hts : ∀ t ∈ ts, t.IsFlat)
    (hrun : run limit r ts = some r') :
    Sound limit r' := by
  induction ts generalizing r with
  | nil =>
    cases hrun
    exact h
  | cons t ts ih =>
    obtain ⟨ht, hts⟩ := List.forall_mem_cons.mp hts
    obtain ⟨next, hstep, hrest⟩ := Option.bind_eq_some_iff.mp hrun
    exact ih (h.step ht hstep) hts hrest

/-! ## Limits -/

/-- A token that is taken is also taken with a greater limit, and to the same effect. -/
theorem step_mono {limit' : Nat} {t : Token} (hle : limit ≤ limit') (h : step limit r t = some r') :
    step limit' r t = some r' := by
  cases t with
  | arrayOpen | objectOpen =>
    unfold step at h ⊢
    split at h
    next => cases h
    next hopen =>
      obtain ⟨⟨hvalue, hroom⟩, hopened⟩ := Option.ite_none_right_eq_some.mp h
      rw [if_neg hopen]
      exact Option.ite_none_right_eq_some.mpr ⟨⟨hvalue, Nat.lt_of_lt_of_le hroom hle⟩, hopened⟩
  | _ =>
    -- the other tokens open nothing, whatever the stack is
    obtain ⟨_ | ⟨_ | ⟨_, _ | _⟩, _⟩, _, _⟩ := r <;> exact h

theorem run_mono {limit' : Nat} {ts : List Token} (hle : limit ≤ limit')
    (h : run limit r ts = some r') :
    run limit' r ts = some r' := by
  induction ts generalizing r with
  | nil => exact h
  | cons t ts ih =>
    obtain ⟨next, hstep, hrest⟩ := Option.bind_eq_some_iff.mp h
    exact Option.bind_eq_some_iff.mpr ⟨next, step_mono hle hstep, ih hrest⟩

end Reader

/-! ## Whole texts -/

namespace Json

variable {limit : Nat} {v w : Json}

/-- What a reader accepts has its objects in order and keeps to the limit. -/
theorem within_of_parseWithin? {text : String} (h : parseWithin? limit text = some v) :
    v.Within limit := by
  obtain ⟨tokens, htokens, h⟩ := Option.bind_eq_some_iff.mp h
  obtain ⟨r, hrun, hresult⟩ := Option.bind_eq_some_iff.mp h
  exact ((Reader.sound_start limit).run (Token.isFlat_of_ofChars? _ tokens htokens) hrun).result v
    hresult

theorem parseWithin?_mono {limit' : Nat} {text : String} (hle : limit ≤ limit')
    (h : parseWithin? limit text = some v) :
    parseWithin? limit' text = some v := by
  obtain ⟨tokens, htokens, h⟩ := Option.bind_eq_some_iff.mp h
  obtain ⟨r, hrun, hresult⟩ := Option.bind_eq_some_iff.mp h
  exact Option.bind_eq_some_iff.mpr
    ⟨tokens, htokens, Option.bind_eq_some_iff.mpr ⟨r, Reader.run_mono hle hrun, hresult⟩⟩

/-- What is read from bytes keeps to the limit that clients and servers share. -/
theorem within_of_ofBytes? {bytes : ByteArray} (h : ofBytes? bytes = some v) :
    v.Within depthLimit := by
  obtain ⟨text, -, hparse⟩ := Option.bind_eq_some_iff.mp h
  exact within_of_parseWithin? hparse

/-- The compact text of a value is read if the value keeps to the limit, and as nothing else. -/
theorem parseWithin?_compact_eq_some_iff (hv : v.Canonical) :
    parseWithin? limit v.compact = some w ↔ w = v.reread ∧ v.depth ≤ limit := by
  constructor
  · intro h
    -- with a limit that suffices for the value, it is read
    have hread : parseWithin? (max limit v.depth) v.compact = some v.reread :=
      parseWithin?_compact hv (Nat.le_max_right ..)
    obtain rfl : w = v.reread :=
      Option.some.inj ((parseWithin?_mono (Nat.le_max_left ..) h).symm.trans hread)
    exact ⟨rfl, (depth_reread v).symm.trans_le (within_of_parseWithin? h).depth_le⟩
  · rintro ⟨rfl, hdepth⟩
    exact parseWithin?_compact hv hdepth

/-- **Reading what was written**: the compact text of a value is read exactly if the value is nested
no deeper than the limit. -/
theorem ofBytes?_compact_eq_some_iff (hv : v.Canonical) :
    ofBytes? v.compact.toUTF8 = some w ↔ w = v.reread ∧ v.depth ≤ depthLimit := by
  rw [ofBytes?_toUTF8]
  exact parseWithin?_compact_eq_some_iff hv

end Json

end ItemStore
