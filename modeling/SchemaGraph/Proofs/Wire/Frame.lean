import Mathlib.Data.List.Basic
import SchemaGraph.Wire.Message

/-!
# What readers take

Every reader leaves a suffix of the bytes that it is given (`Trims`).  A submessage is
read without a look at where it ends, but it takes exactly the bytes that its length
names (`readDelimited_of_readFramed`).

The payload of a known field is therefore as long as it would be if the field were
skipped, whatever the field holds (`skipUnknown_of_readSlot`).  Skipping asks for more
in one respect: the depth counter must not have run out.
-/

namespace SchemaGraph

/-- What comes out of a map that does not fail has come from something. -/
theorem exists_of_map_ok {ε α β : Type} {f : α → β} {x : Except ε α} {b : β}
    (h : x.map f = .ok b) : ∃ a, x = .ok a ∧ f a = b := by
  cases x with
  | error e => cases h
  | ok a => exact ⟨a, rfl, Except.ok.inj h⟩

namespace Wire

/-- A reader that leaves the last of the bytes that it is given. -/
def Trims {ε α : Type} (read : Bytes → Except ε (α × Bytes)) : Prop :=
  ∀ bs a rest, read bs = .ok (a, rest) → rest <:+ bs

variable {ε α β τ : Type} {n : Nat} {bs front rest : Bytes}

/-! ## Primitive readers -/

theorem trims_readVarintWithin (left : Nat) : Trims (readVarintWithin left) := by
  induction left with
  | zero =>
      intro bs n rest h
      cases h
  | succ left ih =>
      intro bs n rest h
      cases bs with
      | nil => cases h
      | cons b tail =>
          rw [readVarintWithin] at h
          split at h
          · split at h
            · cases h
            · cases h
              exact List.suffix_cons b rest
          · split at h
            · cases h
            · next m mid hrest =>
              cases h
              exact (ih _ _ _ hrest).trans (List.suffix_cons b tail)

theorem trims_readVarint : Trims readVarint := trims_readVarintWithin 10

theorem trims_readKey : Trims readKey := by
  intro bs key rest h
  rw [readKey] at h
  split at h
  · cases h
  · next n mid hread =>
    split at h
    · cases h
    · cases h
      exact trims_readVarint _ _ _ hread

theorem takeExactly_eq_ok_iff :
    takeExactly n bs = .ok (front, rest) ↔
      n ≤ bs.length ∧ front = bs.take n ∧ rest = bs.drop n := by
  rw [takeExactly]
  split
  · next hn =>
    rw [Except.ok.injEq, Prod.mk.injEq, eq_comm, @eq_comm _ (bs.drop n), and_iff_right hn]
  · next hn => simp [hn]

theorem trims_takeExactly (n : Nat) : Trims (takeExactly n) := by
  intro bs front rest h
  rw [(takeExactly_eq_ok_iff.mp h).2.2]
  exact List.drop_suffix n bs

theorem trims_readDelimited : Trims readDelimited := by
  intro bs front rest h
  rw [readDelimited] at h
  split at h
  · cases h
  · next n mid hread => exact (trims_takeExactly n _ _ _ h).trans (trims_readVarint _ _ _ hread)

theorem trims_repeatUntil {step : Bytes → Except ε (α × Bytes)} (hstep : Trims step)
    (limit : Nat) : Trims (repeatUntil limit step) := by
  intro bs
  induction bs using WellFounded.induction (measure List.length).wf with
  | _ bs ih =>
    intro as rest h
    rw [repeatUntil] at h
    split at h
    · cases h
      exact List.suffix_refl bs
    · split at h
      · cases h
      · next a mid hread =>
        have hmid := hstep _ _ _ hread
        split at h
        · next hshorter =>
          split at h
          · cases h
          · next more last hmore =>
            cases h
            exact (ih mid hshorter _ _ hmore).trans hmid
        · cases h
          exact hmid

/-! ## Skipping -/

theorem skipGroup_suffix {inner : Key → Bytes → Except Fault Bytes} {number : Nat}
    (hinner : ∀ key bs rest, inner key bs = .ok rest → rest <:+ bs)
    (h : skipGroup inner number bs = .ok rest) : rest <:+ bs := by
  induction bs using WellFounded.induction (measure List.length).wf with
  | _ bs ih =>
    rw [skipGroup] at h
    split at h
    · cases h
    · next key mid hkey =>
      have hmid := trims_readKey _ _ _ hkey
      split at h
      · split at h
        · cases h
          exact hmid
        · cases h
      · split at h
        · cases h
        · next after hskip =>
          have hafter := (hinner _ _ _ hskip).trans hmid
          split at h
          · next hshorter => exact (ih after hshorter h).trans hafter
          · cases h
            exact hafter

theorem skipUnknown_suffix {depth : Nat} {key : Key} (h : skipUnknown depth key bs = .ok rest) :
    rest <:+ bs := by
  induction depth generalizing key bs rest with
  | zero => cases h
  | succ depth ih =>
      rw [skipUnknown] at h
      split at h
      · split at h
        · cases h
        · next hread =>
          cases h
          exact trims_readVarint _ _ _ hread
      · split at h
        · cases h
        · next hread =>
          cases h
          exact trims_takeExactly 8 _ _ _ hread
      · split at h
        · cases h
        · next hread =>
          cases h
          exact trims_takeExactly 4 _ _ _ hread
      · split at h
        · cases h
        · next hread =>
          cases h
          exact trims_readDelimited _ _ _ hread
      · exact skipGroup_suffix (fun _ _ _ hinner => ih hinner) h
      · cases h

/-! ## Lengths -/

/-- A body that leaves a suffix and as many bytes as it was told has taken the bytes that
the length names. -/
theorem readDelimited_of_readFramed {fault : Fault → ε}
    {body : (limit : Nat) → Bytes → Except ε (α × Bytes)} {a : α}
    (hbody : ∀ limit, Trims (body limit)) (h : readFramed fault body bs = .ok (a, rest)) :
    ∃ payload, readDelimited bs = .ok (payload, rest) := by
  rw [readFramed] at h
  split at h
  · cases h
  · next n mid hread =>
    split at h
    · cases h
    · next hn =>
      dsimp only at h
      split at h
      · cases h
      · next found last hlast =>
        split at h
        · next hlength =>
          cases h
          have hdrop : rest = mid.drop n := by
            rw [List.suffix_iff_eq_drop.mp (hbody _ _ _ _ hlast), hlength]
            congr 1
            omega
          refine ⟨mid.take n, ?_⟩
          rw [readDelimited, hread]
          exact takeExactly_eq_ok_iff.mpr ⟨Nat.le_of_not_lt hn, rfl, hdrop⟩
        · cases h

/-- Submessages are read by their lengths. -/
def Frames (enter : τ → Bytes → Except DecodeError (Fields × Bytes)) : Prop :=
  ∀ type bs fields rest, enter type bs = .ok (fields, rest) →
    ∃ payload, readDelimited bs = .ok (payload, rest)

theorem of_bare {x : Except Fault α} {a : α} (h : bare x = .ok a) : x = .ok a := by
  cases x with
  | error fault => cases h
  | ok a' => exact congrArg _ (Except.ok.inj h)

theorem of_bare_expect {want got : WireType} {read : Except Fault α} {change : α → β} {b : β}
    (h : (bare (expect want got read)).map change = .ok b) :
    got = want ∧ ∃ a, read = .ok a ∧ change a = b := by
  obtain ⟨a, hbare, hchange⟩ := exists_of_map_ok h
  have hexpect := of_bare hbare
  rw [expect] at hexpect
  split at hexpect
  · next htype => exact ⟨htype, a, hexpect, hchange⟩
  · cases hexpect

/-- The payload of a known field ends where it would if the field were skipped. -/
theorem skipUnknown_of_readSlot {enter : τ → Bytes → Except DecodeError (Fields × Bytes)}
    (henter : Frames enter) {key : Key} {slot : Slot τ} {values : List Value}
    (h : readSlot enter key.type slot bs = .ok (values, rest)) (depth : Nat) :
    skipUnknown (depth + 1) key bs = .ok rest := by
  have hvarint {change : Nat × Bytes → List Value × Bytes}
      (hchange : ∀ n rest, (change (n, rest)).2 = rest)
      (hread : (bare (expect .varint key.type (readVarint bs))).map change = .ok (values, rest)) :
      skipUnknown (depth + 1) key bs = .ok rest := by
    obtain ⟨htype, ⟨n, after⟩, hread, heq⟩ := of_bare_expect hread
    have hafter : after = rest := by rw [← hchange n after, heq]
    rw [skipUnknown, htype, hread, hafter]
  have hdelimited {payload : Bytes} (htype : key.type = .lengthDelimited)
      (hread : readDelimited bs = .ok (payload, rest)) :
      skipUnknown (depth + 1) key bs = .ok rest := by
    rw [skipUnknown, htype, hread]
  cases slot with
  | varint => exact hvarint (fun _ _ => rfl) h
  | varints =>
      rw [readSlot] at h
      split at h
      · next htype =>
        obtain ⟨⟨ns, after⟩, hread, heq⟩ := exists_of_map_ok h
        cases heq
        obtain ⟨payload, hpayload⟩ := readDelimited_of_readFramed
          (fun limit => trims_repeatUntil trims_readVarint limit) (of_bare hread)
        exact hdelimited htype hpayload
      · exact hvarint (fun _ _ => rfl) h
  | fixed64 =>
      obtain ⟨htype, ⟨b, after⟩, hread, heq⟩ := of_bare_expect h
      cases heq
      rw [skipUnknown, htype, hread]
  | text =>
      rw [readSlot, expect] at h
      split at h
      · cases h
      · next b after hread =>
        split at hread
        · next htype =>
          split at h
          · cases h
          · cases h
            exact hdelimited htype hread
        · cases hread
  | bytes =>
      obtain ⟨htype, ⟨b, after⟩, hread, heq⟩ := of_bare_expect h
      cases heq
      exact hdelimited htype hread
  | record type =>
      rw [readSlot] at h
      split at h
      · next htype =>
        obtain ⟨⟨fields, after⟩, hread, heq⟩ := exists_of_map_ok h
        cases heq
        obtain ⟨payload, hpayload⟩ := henter _ _ _ _ hread
        exact hdelimited htype hpayload
      · cases h

/-! ## Messages -/

/-- How a submessage is read at a depth. -/
def readRecord (g : Grammar τ) : (depth : Nat) → τ → Bytes → Except DecodeError (Fields × Bytes)
  | 0, _, _ => .error { fault := .depth }
  | depth + 1, type, bs => readFramed (fun f => { fault := f }) (readFields g depth type) bs

theorem readFields_eq (g : Grammar τ) (depth : Nat) (type : τ) (limit : Nat) (bs : Bytes) :
    readFields g depth type limit bs =
      (repeatUntil limit (readField g type depth (readRecord g depth)) bs).map
        fun (fields, rest) => (fields.flatten, rest) := by
  cases depth with
  | zero => rfl
  | succ depth => rfl

theorem trims_readField {enter : τ → Bytes → Except DecodeError (Fields × Bytes)}
    (henter : Frames enter) (g : Grammar τ) (type : τ) (depth : Nat) :
    Trims (readField g type depth enter) := by
  intro bs fields rest h
  rw [readField] at h
  split at h
  · cases h
  · next key mid hkey =>
    refine List.IsSuffix.trans ?_ (trims_readKey _ _ _ hkey)
    split at h
    · split at h
      · cases h
      · next hread =>
        cases h
        exact skipUnknown_suffix (skipUnknown_of_readSlot henter hread 0)
    · split at h
      · cases h
      · next hskip =>
        cases h
        exact skipUnknown_suffix hskip

theorem frames_readRecord (g : Grammar τ) (depth : Nat) : Frames (readRecord g depth) := by
  induction depth with
  | zero =>
      intro type bs fields rest h
      cases h
  | succ depth ih =>
      intro type bs fields rest h
      refine readDelimited_of_readFramed (fun limit => ?_) h
      intro bs fields rest h
      rw [readFields_eq] at h
      obtain ⟨⟨found, after⟩, hrun, heq⟩ := exists_of_map_ok h
      cases heq
      exact trims_repeatUntil (trims_readField ih g type depth) limit _ _ _ hrun

end Wire

end SchemaGraph
