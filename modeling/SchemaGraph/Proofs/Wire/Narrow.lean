import SchemaGraph.Proofs.Wire.Frame

/-!
# Reading by a narrower grammar

One grammar narrows another if it knows some of its fields, and of the submessages some
by their fields and some as bytes only (`Narrowing`).

Where the full reader accepts, the narrower one takes the same bytes and keeps the fields
it knows (`Narrowing.Keeps`), with one exception.  At the last admitted depth the full
reader still accepts fields that hold no submessage, and the narrower one fails on those
it would have to skip.  `Narrowing.Fits` says that there are none, and
`Narrowing.follows_readFields` that this decides whether the narrower reader accepts, by
induction on the depth, the run over the fields of one message being
`Narrowing.follows_repeatUntil`.
-/

namespace SchemaGraph.Wire

variable {σ τ : Type}

/-- A field is read in the same way, or holds a submessage whose bytes are kept. -/
inductive Slot.Narrows (whole : τ → σ) : Slot τ → Slot σ → Prop where
  | varint : Narrows whole .varint .varint
  | varints : Narrows whole .varints .varints
  | fixed64 : Narrows whole .fixed64 .fixed64
  | text : Narrows whole .text .text
  | bytes : Narrows whole .bytes .bytes
  | unread (type : σ) : Narrows whole .bytes (.record type)
  | record (type : τ) : Narrows whole (.record type) (.record (whole type))

theorem Slot.Narrows.trans {υ : Type} {whole : τ → σ} {whole' : υ → τ} {slot : Slot σ}
    {slot' : Slot τ} {slot'' : Slot υ} (h : slot''.Narrows whole' slot')
    (h' : slot'.Narrows whole slot) : slot''.Narrows (fun type => whole (whole' type)) slot := by
  cases h with
  | varint => cases h'; exact .varint
  | varints => cases h'; exact .varints
  | fixed64 => cases h'; exact .fixed64
  | text => cases h'; exact .text
  | unread type => cases h'; exact .unread _
  | record type => cases h'; exact .record type
  | bytes =>
      cases h' with
      | bytes => exact .bytes
      | unread type => exact .unread type

/-- A grammar and a narrower one. -/
structure Narrowing (σ τ : Type) where
  full : Grammar σ
  part : Grammar τ
  /-- What a message type of the narrower grammar is in the full one. -/
  whole : τ → σ
  /-- Messages of a type are only read with the depth counter at least here. -/
  floor : τ → Nat
  known : ∀ {type : τ} {number : Nat} {name : String} {slot' : Slot τ},
    part.slot type number = some (name, slot') →
      ∃ field slot, full.slot (whole type) number = some (field, slot) ∧ slot'.Narrows whole slot
  floor_le : ∀ {type inner : τ} {number : Nat} {name : String},
    part.slot type number = some (name, .record inner) → floor inner ≤ floor type - 1
  /-- A packed field may hold no number, so that nothing in the fields read tells of it. -/
  packed : ∀ {type : τ} {number : Nat} {name : String}, floor type = 0 →
    full.slot (whole type) number = some (name, .varints) → part.slot type number ≠ none

namespace Narrowing

variable (w : Narrowing σ τ)

/-- A field that only the full grammar knows. -/
def Hides (type : τ) (number : Nat) : Prop :=
  (w.full.slot (w.whole type) number).isSome ∧ w.part.slot type number = none

/-- No message at depth zero has a hidden field. -/
def Fits : (depth : Nat) → τ → Fields → Prop
  | 0, type, fs => ∀ field ∈ fs, ¬ w.Hides type field.1
  | depth + 1, type, fs => ∀ number name inner sub,
      w.part.slot type number = some (name, .record inner) → (number, .record sub) ∈ fs →
        Fits depth inner sub

/-- What the narrower grammar keeps of the fields of a message. -/
inductive Keeps : τ → Fields → Fields → Prop where
  | nil {type : τ} : Keeps type [] []
  | hidden {type : τ} {number : Nat} {value : Value} {fs kept : Fields}
      (hslot : w.part.slot type number = none) (hrest : Keeps type fs kept) :
      Keeps type ((number, value) :: fs) kept
  | same {type : τ} {number : Nat} {name : String} {slot : Slot τ} {value : Value}
      {fs kept : Fields} (hslot : w.part.slot type number = some (name, slot))
      (hplain : ∀ inner, slot ≠ .record inner) (hrest : Keeps type fs kept) :
      Keeps type ((number, value) :: fs) ((number, value) :: kept)
  | unread {type : τ} {number : Nat} {name field : String} {t : σ} {sub : Fields}
      {payload : Bytes} {fs kept : Fields} (hslot : w.part.slot type number = some (name, .bytes))
      (hfull : w.full.slot (w.whole type) number = some (field, .record t))
      (hrest : Keeps type fs kept) :
      Keeps type ((number, .record sub) :: fs) ((number, .bytes payload) :: kept)
  | record {type inner : τ} {number : Nat} {name : String} {sub subKept fs kept : Fields}
      (hslot : w.part.slot type number = some (name, .record inner))
      (hsub : Keeps inner sub subKept) (hrest : Keeps type fs kept) :
      Keeps type ((number, .record sub) :: fs) ((number, .record subKept) :: kept)

/-- What the narrower reader makes of bytes in which the full one reads some fields. -/
def Follows (depth : Nat) (type : τ) (fs : Fields) (rest : Bytes) :
    Except DecodeError (Fields × Bytes) → Prop
  | .ok (kept, after) => w.Fits depth type fs ∧ after = rest ∧ w.Keeps type fs kept
  | .error e => ¬ w.Fits depth type fs ∧ e.fault = .depth

variable {w} {type inner : τ} {depth number limit : Nat} {name : String} {slot : Slot τ}
variable {bs rest : Bytes} {fs fs' kept kept' : Fields} {values : List Value}

theorem fits_nil : w.Fits depth type [] := by
  cases depth with
  | zero => exact fun _ h => absurd h List.not_mem_nil
  | succ depth => exact fun _ _ _ _ _ h => absurd h List.not_mem_nil

theorem fits_append :
    w.Fits depth type (fs ++ fs') ↔ w.Fits depth type fs ∧ w.Fits depth type fs' := by
  cases depth with
  | zero => simp only [Fits, List.mem_append, or_imp, forall_and]
  | succ depth => simp only [Fits, List.mem_append, or_imp, forall_and]

theorem Keeps.append (h : w.Keeps type fs kept) (h' : w.Keeps type fs' kept') :
    w.Keeps type (fs ++ fs') (kept ++ kept') := by
  induction h with
  | nil => exact h'
  | hidden hslot _ ih => exact .hidden hslot (ih h')
  | same hslot hplain _ ih => exact .same hslot hplain (ih h')
  | unread hslot hfull _ ih => exact .unread hslot hfull (ih h')
  | record hslot hsub _ _ ih => exact .record hslot hsub (ih h')

/-! ## Single fields -/

/-- Of the known fields only packed ones may hold nothing. -/
theorem values_ne_nil {enter : σ → Bytes → Except DecodeError (Fields × Bytes)} {got : WireType}
    {slot : Slot σ} (hslot : slot ≠ .varints) (h : readSlot enter got slot bs = .ok (values, rest)) :
    values ≠ [] := by
  cases slot with
  | varints => exact absurd rfl hslot
  | varint =>
      obtain ⟨-, found, -, heq⟩ := of_bare_expect h
      cases heq
      exact List.cons_ne_nil _ _
  | fixed64 =>
      obtain ⟨-, found, -, heq⟩ := of_bare_expect h
      cases heq
      exact List.cons_ne_nil _ _
  | bytes =>
      obtain ⟨-, found, -, heq⟩ := of_bare_expect h
      cases heq
      exact List.cons_ne_nil _ _
  | text =>
      rw [readSlot] at h
      split at h
      · cases h
      · split at h
        · cases h
        · cases h
          exact List.cons_ne_nil _ _
  | record type =>
      rw [readSlot] at h
      split at h
      · obtain ⟨found, -, heq⟩ := exists_of_map_ok h
        cases heq
        exact List.cons_ne_nil _ _
      · cases h

/-- A field that is not a submessage of the narrower grammar fits, if it is known. -/
theorem fits_of_plain (hslot : w.part.slot type number = some (name, slot))
    (hplain : ∀ inner, slot ≠ .record inner) (values : List Value) :
    w.Fits depth type (values.map fun v => (number, v)) := by
  cases depth with
  | zero =>
      intro field hfield hhidden
      obtain ⟨v, -, rfl⟩ := List.mem_map.mp hfield
      rw [hhidden.2] at hslot
      cases hslot
  | succ depth =>
      intro n name' inner sub hinner hmem
      obtain ⟨v, -, heq⟩ := List.mem_map.mp hmem
      cases heq
      rw [hslot] at hinner
      cases hinner
      exact absurd rfl (hplain inner)

theorem keeps_same (hslot : w.part.slot type number = some (name, slot))
    (hplain : ∀ inner, slot ≠ .record inner) (values : List Value) :
    w.Keeps type (values.map fun v => (number, v)) (values.map fun v => (number, v)) := by
  induction values with
  | nil => exact .nil
  | cons v rest ih => exact .same hslot hplain ih

theorem keeps_hidden (hslot : w.part.slot type number = none) (values : List Value) :
    w.Keeps type (values.map fun v => (number, v)) [] := by
  induction values with
  | nil => exact .nil
  | cons v rest ih => exact .hidden hslot ih

/-- A submessage fits if its fields do, one level further down. -/
theorem fits_record_iff {sub : Fields}
    (hslot : w.part.slot type number = some (name, .record inner)) :
    w.Fits (depth + 1) type [(number, .record sub)] ↔ w.Fits depth inner sub := by
  constructor
  · exact fun h => h number name inner sub hslot List.mem_cons_self
  · intro h n name' inner' sub' hslot' hmem
    cases List.mem_singleton.mp hmem
    rw [hslot] at hslot'
    cases hslot'
    exact h

/-- A hidden field is skipped, unless the depth counter has run out. -/
theorem follows_hidden {key : Key} {field : String} {slot : Slot σ}
    {enter : σ → Bytes → Except DecodeError (Fields × Bytes)} (henter : Frames enter)
    (hfloor : w.floor type ≤ depth) (hpart : w.part.slot type key.number = none)
    (hfull : w.full.slot (w.whole type) key.number = some (field, slot))
    (h : readSlot enter key.type slot bs = .ok (values, rest)) :
    w.Follows depth type (values.map fun v => (key.number, v)) rest
      (match skipUnknown depth key bs with
        | .error f => .error { fault := f }
        | .ok rest => .ok ([], rest)) := by
  cases depth with
  | zero =>
      refine ⟨fun hfits => ?_, rfl⟩
      have hne : slot ≠ .varints := by
        rintro rfl
        exact w.packed (Nat.le_zero.mp hfloor) hfull hpart
      obtain ⟨v, hv⟩ := List.exists_mem_of_ne_nil _ (values_ne_nil hne h)
      exact hfits _ (List.mem_map_of_mem hv) ⟨by rw [hfull]; rfl, hpart⟩
  | succ depth =>
      rw [skipUnknown_of_readSlot henter h depth]
      refine ⟨fun n name inner sub hinner hmem => ?_, rfl, keeps_hidden hpart values⟩
      obtain ⟨v, -, heq⟩ := List.mem_map.mp hmem
      cases heq
      rw [hpart] at hinner
      cases hinner

/-- A field that both grammars know is read by both. -/
theorem follows_known {got : WireType} {field : String} {slot : Slot σ} {slot' : Slot τ}
    {enter : σ → Bytes → Except DecodeError (Fields × Bytes)}
    {enter' : τ → Bytes → Except DecodeError (Fields × Bytes)} (hframes : Frames enter)
    (henter : ∀ inner bs sub rest, w.floor inner ≤ w.floor type - 1 →
      enter (w.whole inner) bs = .ok (sub, rest) →
        ∃ d, depth = d + 1 ∧ w.Follows d inner sub rest (enter' inner bs))
    (hpart : w.part.slot type number = some (name, slot'))
    (hfull : w.full.slot (w.whole type) number = some (field, slot))
    (hnarrows : slot'.Narrows w.whole slot) (h : readSlot enter got slot bs = .ok (values, rest)) :
    w.Follows depth type (values.map fun v => (number, v)) rest
      (match readSlot enter' got slot' bs with
        | .error e => .error (e.within (w.part.name type) name)
        | .ok (values, rest) => .ok (values.map fun v => (number, v), rest)) := by
  have hsame (hread : readSlot enter' got slot' bs = .ok (values, rest))
      (hplain : ∀ inner, slot' ≠ .record inner) :
      w.Follows depth type (values.map fun v => (number, v)) rest
        (match readSlot enter' got slot' bs with
          | .error e => .error (e.within (w.part.name type) name)
          | .ok (values, rest) => .ok (values.map fun v => (number, v), rest)) := by
    rw [hread]
    exact ⟨fits_of_plain hpart hplain values, rfl, keeps_same hpart hplain values⟩
  cases hnarrows with
  | varint => exact hsame h (by intro inner heq; cases heq)
  | varints => exact hsame h (by intro inner heq; cases heq)
  | fixed64 => exact hsame h (by intro inner heq; cases heq)
  | text => exact hsame h (by intro inner heq; cases heq)
  | bytes => exact hsame h (by intro inner heq; cases heq)
  | unread t =>
      rw [readSlot] at h
      split at h
      · next hgot =>
        obtain ⟨⟨sub, after⟩, hread, heq⟩ := exists_of_map_ok h
        cases heq
        obtain ⟨payload, hpayload⟩ := hframes _ _ _ _ hread
        have hread' : readSlot enter' got .bytes bs = .ok ([.bytes payload], rest) := by
          rw [readSlot, expect, if_pos hgot, hpayload]
          rfl
        rw [hread']
        exact ⟨fits_of_plain hpart (by intro inner heq; cases heq) [.record sub], rfl,
          .unread hpart hfull .nil⟩
      · cases h
  | record inner =>
      rw [readSlot] at h
      split at h
      · next hgot =>
        obtain ⟨⟨sub, after⟩, hread, heq⟩ := exists_of_map_ok h
        cases heq
        obtain ⟨d, rfl, hfollows⟩ := henter inner bs sub rest (w.floor_le hpart) hread
        rw [readSlot, if_pos hgot]
        cases hread' : enter' inner bs with
        | error e =>
            rw [hread'] at hfollows
            exact ⟨mt (fits_record_iff hpart).mp hfollows.1, hfollows.2⟩
        | ok found =>
            obtain ⟨subKept, after⟩ := found
            rw [hread'] at hfollows
            obtain ⟨hfits, rfl, hkeeps⟩ := hfollows
            exact ⟨(fits_record_iff hpart).mpr hfits, rfl, .record hpart hkeeps .nil⟩
      · cases h

/-- One field, known or not. -/
theorem follows_readField {enter : σ → Bytes → Except DecodeError (Fields × Bytes)}
    {enter' : τ → Bytes → Except DecodeError (Fields × Bytes)} (hframes : Frames enter)
    (hfloor : w.floor type ≤ depth)
    (henter : ∀ inner bs sub rest, w.floor inner ≤ w.floor type - 1 →
      enter (w.whole inner) bs = .ok (sub, rest) →
        ∃ d, depth = d + 1 ∧ w.Follows d inner sub rest (enter' inner bs))
    (h : readField w.full (w.whole type) depth enter bs = .ok (fs, rest)) :
    w.Follows depth type fs rest (readField w.part type depth enter' bs) := by
  rw [readField] at h ⊢
  split at h
  · cases h
  next key mid hkey =>
  split at h
  · next field slot hfull =>
    split at h
    · cases h
    next values after hread =>
    cases h
    cases hpart : w.part.slot type key.number with
    | none => exact follows_hidden hframes hfloor hpart hfull hread
    | some known =>
        obtain ⟨name, slot'⟩ := known
        obtain ⟨field', slot₀, hfull', hnarrows⟩ := w.known hpart
        cases hfull.symm.trans hfull'
        exact follows_known hframes henter hpart hfull hnarrows hread
  · next hfull =>
    split at h
    · cases h
    next after hskip =>
    cases h
    cases hpart : w.part.slot type key.number with
    | none => exact ⟨fits_nil, rfl, .nil⟩
    | some known =>
        obtain ⟨field', slot₀, hfull', -⟩ := w.known hpart
        rw [hfull] at hfull'
        cases hfull'

/-! ## Whole messages -/

/-- A run over the fields of a message, if every field is followed. -/
theorem follows_repeatUntil {step step' : Bytes → Except DecodeError (Fields × Bytes)}
    (hstep : ∀ bs fs rest, step bs = .ok (fs, rest) → w.Follows depth type fs rest (step' bs))
    {found : List Fields} (h : repeatUntil limit step bs = .ok (found, rest)) :
    w.Follows depth type found.flatten rest
      ((repeatUntil limit step' bs).map fun (fields, rest) => (fields.flatten, rest)) := by
  induction bs using WellFounded.induction (measure List.length).wf generalizing found rest with
  | _ bs ih =>
    rw [repeatUntil] at h ⊢
    split at h
    · next hlimit =>
      cases h
      rw [if_pos hlimit]
      exact ⟨fits_nil, rfl, .nil⟩
    · next hlimit =>
      rw [if_neg hlimit]
      split at h
      · cases h
      next fs mid hread =>
      have hfirst := hstep bs fs mid hread
      cases hread' : step' bs with
      | error e =>
          rw [hread'] at hfirst
          refine ⟨fun hfits => hfirst.1 ?_, hfirst.2⟩
          split at h
          · split at h
            · cases h
            · cases h
              exact (fits_append.mp hfits).1
          · cases h
            simpa using hfits
      | ok first =>
          obtain ⟨kept, mid'⟩ := first
          rw [hread'] at hfirst
          obtain ⟨hfits, rfl, hkeeps⟩ := hfirst
          dsimp only
          split at h
          · next hshorter =>
            rw [if_pos hshorter]
            split at h
            · cases h
            next more last hmore =>
            cases h
            have hrest := ih mid' hshorter hmore
            cases hmore' : repeatUntil limit step' mid' with
            | error e =>
                rw [hmore'] at hrest
                exact ⟨fun hall => hrest.1 (fits_append.mp hall).2, hrest.2⟩
            | ok found' =>
                obtain ⟨more', last'⟩ := found'
                rw [hmore'] at hrest
                obtain ⟨hfits', hlast, hkeeps'⟩ := hrest
                exact ⟨fits_append.mpr ⟨hfits, hfits'⟩, hlast, hkeeps.append hkeeps'⟩
          · next hshorter =>
            rw [if_neg hshorter]
            cases h
            exact ⟨by simpa using hfits, rfl, by simpa using hkeeps⟩

theorem follows_readFramed {body body' : (limit : Nat) → Bytes → Except DecodeError (Fields × Bytes)}
    (hbody : ∀ limit bs fs rest, body limit bs = .ok (fs, rest) →
      w.Follows depth type fs rest (body' limit bs))
    (h : readFramed (fun f => { fault := f }) body bs = .ok (fs, rest)) :
    w.Follows depth type fs rest (readFramed (fun f => { fault := f }) body' bs) := by
  rw [readFramed] at h ⊢
  split at h
  · cases h
  next n mid hread =>
  dsimp only
  split at h
  · cases h
  next hn =>
  rw [if_neg hn]
  dsimp only at h ⊢
  split at h
  · cases h
  next found last hlast =>
  split at h
  · next hlength =>
    cases h
    have hfollows := hbody _ _ _ _ hlast
    cases hlast' : body' (mid.length - n) mid with
    | error e =>
        rw [hlast'] at hfollows
        exact hfollows
    | ok found' =>
        obtain ⟨kept, after⟩ := found'
        rw [hlast'] at hfollows
        obtain ⟨hfits, rfl, hkeeps⟩ := hfollows
        dsimp only
        rw [if_pos hlength]
        exact ⟨hfits, rfl, hkeeps⟩
  · cases h

/-- Where the full reader accepts, the narrower one takes the same bytes and keeps what it
knows, or the fields do not fit and it has run out of depth. -/
theorem follows_readFields (hfloor : w.floor type ≤ depth)
    (h : readFields w.full depth (w.whole type) limit bs = .ok (fs, rest)) :
    w.Follows depth type fs rest (readFields w.part depth type limit bs) := by
  induction depth generalizing type limit bs fs rest with
  | zero =>
      rw [readFields_eq] at h ⊢
      obtain ⟨⟨found, after⟩, hrun, heq⟩ := exists_of_map_ok h
      cases heq
      refine follows_repeatUntil (fun bs fs rest hread => ?_) hrun
      refine follows_readField (frames_readRecord _ _) hfloor (fun _ _ _ _ _ hsub => ?_) hread
      cases hsub
  | succ depth ih =>
      rw [readFields_eq] at h ⊢
      obtain ⟨⟨found, after⟩, hrun, heq⟩ := exists_of_map_ok h
      cases heq
      refine follows_repeatUntil (fun bs fs rest hread => ?_) hrun
      refine follows_readField (frames_readRecord _ _) hfloor (fun inner bs sub rest hinner hsub => ?_)
        hread
      refine ⟨depth, rfl, follows_readFramed (fun limit bs fs rest hbody => ?_) hsub⟩
      exact ih (by omega) hbody

/-- Reading a whole input by the narrower grammar. -/
theorem decode_of_full (hfloor : w.floor type ≤ maxDepth)
    (h : decode w.full (w.whole type) bs = .ok fs) :
    (w.Fits maxDepth type fs ∧ ∃ kept, decode w.part type bs = .ok kept ∧ w.Keeps type fs kept) ∨
      (¬ w.Fits maxDepth type fs ∧ ∃ e, decode w.part type bs = .error e ∧ e.fault = .depth) := by
  obtain ⟨⟨fields, rest⟩, hread, heq⟩ := exists_of_map_ok h
  obtain rfl : fields = fs := heq
  have hfollows := follows_readFields hfloor hread
  rw [decode]
  cases hread' : readFields w.part maxDepth type 0 bs with
  | error e =>
      rw [hread'] at hfollows
      exact Or.inr ⟨hfollows.1, e, rfl, hfollows.2⟩
  | ok found =>
      obtain ⟨kept, after⟩ := found
      rw [hread'] at hfollows
      exact Or.inl ⟨hfollows.1, kept, rfl, hfollows.2.2⟩

/-- If nothing is hidden, everything fits. -/
theorem fits_of_all_known (hknown : ∀ type number, ¬ w.Hides type number) (depth : Nat) (type : τ)
    (fs : Fields) : w.Fits depth type fs := by
  induction depth generalizing type fs with
  | zero => exact fun field _ => hknown type field.1
  | succ depth ih => exact fun _ _ inner sub _ _ => ih inner sub

end Narrowing

/-! ## What is kept -/

namespace Fields

variable {number n : Nat} {value : Value} {fs : Fields}

theorem records_cons_record (number : Nat) (sub fs : Fields) :
    records number ((number, .record sub) :: fs) = sub :: records number fs := by
  simp [records]

theorem records_cons_of_ne (h : n ≠ number) :
    records number ((n, value) :: fs) = records number fs := by
  cases value <;> simp [records, h]

theorem mem_records_iff {sub : Fields} : sub ∈ records number fs ↔ (number, .record sub) ∈ fs := by
  rw [records, List.mem_filterMap]
  constructor
  · rintro ⟨⟨n, value⟩, hmem, hsub⟩
    cases value with
    | record inner =>
        obtain ⟨rfl, rfl⟩ : n = number ∧ inner = sub := by simpa using hsub
        exact hmem
    | number k => cases hsub
    | text s => cases hsub
    | bytes b => cases hsub
  · exact fun hmem => ⟨_, hmem, by simp⟩

/-- Only the fields under a number matter for the text under it. -/
theorem text?_filter (number : Nat) (fs : Fields) :
    text? number (fs.filter fun field => field.1 = number) = text? number fs := by
  induction fs with
  | nil => rfl
  | cons field rest ih =>
      obtain ⟨n, value⟩ := field
      by_cases hn : n = number
      · cases value <;> simp [text?, ih, hn]
      · rw [List.filter_cons_of_neg (by simpa using hn), ih]
        cases value <;> cases hrest : text? number rest <;> simp [text?, hrest, hn]

/-- Only the fields under a number matter for the bytes under it. -/
theorem bytes?_filter (number : Nat) (fs : Fields) :
    bytes? number (fs.filter fun field => field.1 = number) = bytes? number fs := by
  induction fs with
  | nil => rfl
  | cons field rest ih =>
      obtain ⟨n, value⟩ := field
      by_cases hn : n = number
      · cases value <;> simp [bytes?, ih, hn]
      · rw [List.filter_cons_of_neg (by simpa using hn), ih]
        cases value <;> cases hrest : bytes? number rest <;> simp [bytes?, hrest, hn]

end Fields

namespace Narrowing.Keeps

variable {w : Narrowing σ τ} {type inner : τ} {number : Nat} {name field : String}
variable {slot : Slot σ} {slot' : Slot τ} {fs kept : Fields}

/-- Submessages that the narrower grammar knows by their fields are kept one by one. -/
theorem records (h : w.Keeps type fs kept) (number : Nat)
    (hslot : w.part.slot type number = some (name, .record inner)) :
    List.Forall₂ (w.Keeps inner) (Fields.records number fs) (Fields.records number kept) := by
  have hne {n : Nat} (hother : w.part.slot type n ≠ some (name, .record inner)) : n ≠ number := by
    rintro rfl
    exact hother hslot
  induction h with
  | nil => exact .nil
  | hidden hhidden _ ih =>
      rw [Fields.records_cons_of_ne (hne (by simp [hhidden]))]
      exact ih hslot hne
  | same hsame hplain _ ih =>
      have hn := hne (by rw [hsame]; intro heq; cases heq; exact hplain _ rfl)
      rw [Fields.records_cons_of_ne hn, Fields.records_cons_of_ne hn]
      exact ih hslot hne
  | unread hunread _ _ ih =>
      have hn := hne (by rw [hunread]; intro heq; cases heq)
      rw [Fields.records_cons_of_ne hn, Fields.records_cons_of_ne hn]
      exact ih hslot hne
  | @record _ _ n _ _ _ _ _ hrecord hsub _ _ ih =>
      by_cases hn : n = number
      · subst hn
        rw [hslot] at hrecord
        cases hrecord
        rw [Fields.records_cons_record, Fields.records_cons_record]
        exact .cons hsub (ih hslot hne)
      · rw [Fields.records_cons_of_ne hn, Fields.records_cons_of_ne hn]
        exact ih hslot hne

/-- Under the number of such submessages there is nothing else. -/
theorem exists_record {value : Value} (h : w.Keeps type fs kept)
    (hslot : w.part.slot type number = some (name, .record inner)) (hmem : (number, value) ∈ fs) :
    ∃ sub, value = .record sub := by
  induction h with
  | nil => exact absurd hmem List.not_mem_nil
  | hidden hhidden _ ih =>
      rcases List.mem_cons.mp hmem with heq | hmem
      · cases heq
        rw [hhidden] at hslot
        cases hslot
      · exact ih hslot hmem
  | same hsame hplain _ ih =>
      rcases List.mem_cons.mp hmem with heq | hmem
      · cases heq
        rw [hsame] at hslot
        cases hslot
        exact absurd rfl (hplain _)
      · exact ih hslot hmem
  | unread hunread _ _ ih =>
      rcases List.mem_cons.mp hmem with heq | hmem
      · cases heq
        exact ⟨_, rfl⟩
      · exact ih hslot hmem
  | record _ _ _ _ ih =>
      rcases List.mem_cons.mp hmem with heq | hmem
      · cases heq
        exact ⟨_, rfl⟩
      · exact ih hslot hmem

/-- Fields that hold no submessage are kept as they are. -/
theorem filter_eq (h : w.Keeps type fs kept)
    (hpart : w.part.slot type number = some (name, slot'))
    (hfull : w.full.slot (w.whole type) number = some (field, slot))
    (hplain : ∀ t, slot ≠ .record t) :
    fs.filter (fun f => f.1 = number) = kept.filter fun f => f.1 = number := by
  have hne {n : Nat} {name : String} {t : σ}
      (hother : w.full.slot (w.whole type) n = some (name, .record t)) : n ≠ number := by
    rintro rfl
    rw [hfull] at hother
    cases hother
    exact hplain t rfl
  induction h with
  | nil => rfl
  | hidden hhidden _ ih =>
      rw [List.filter_cons_of_neg, ih hpart hfull hne]
      intro hn
      obtain rfl : _ = number := of_decide_eq_true hn
      cases hhidden.symm.trans hpart
  | same _ _ _ ih => rw [List.filter_cons, List.filter_cons, ih hpart hfull hne]
  | unread _ hrecord _ ih =>
      have hn := hne hrecord
      rw [List.filter_cons_of_neg (by simpa using hn), List.filter_cons_of_neg (by simpa using hn),
        ih hpart hfull hne]
  | record hrecord _ _ _ ih =>
      obtain ⟨field', slot₀, hfull', hnarrows⟩ := w.known hrecord
      cases hnarrows with
      | record inner =>
          have hn := hne hfull'
          rw [List.filter_cons_of_neg (by simpa using hn),
            List.filter_cons_of_neg (by simpa using hn), ih hpart hfull hne]

/-- Texts are kept. -/
theorem text? (h : w.Keeps type fs kept) (number : Nat)
    (hpart : w.part.slot type number = some (name, .text)) :
    Fields.text? number kept = Fields.text? number fs := by
  obtain ⟨field, slot, hfull, hnarrows⟩ := w.known hpart
  cases hnarrows with
  | text =>
      rw [← Fields.text?_filter, ← Fields.text?_filter number fs,
        h.filter_eq hpart hfull (by intro t heq; cases heq)]

/-- Bytes are kept where they are bytes in the full grammar. -/
theorem bytes? (h : w.Keeps type fs kept) (number : Nat)
    (hpart : w.part.slot type number = some (name, .bytes))
    (hfull : w.full.slot (w.whole type) number = some (field, .bytes)) :
    Fields.bytes? number kept = Fields.bytes? number fs := by
  rw [← Fields.bytes?_filter, ← Fields.bytes?_filter number fs,
    h.filter_eq hpart hfull (by intro t heq; cases heq)]

end Narrowing.Keeps

end SchemaGraph.Wire
