import Mathlib
import SchemaGraph.Wire.Basic

/-!
# Varints and keys as they are written

Which bytes spell a number as a varint (`IsVarint`) or a field number and a wire
type as a key (`IsKey`), said without a reader, and the proof that the readers
take such bytes and leave what follows them (`readVarint_append`,
`readKey_append`).

A varint need not be the shortest one for its number.  The shortest one is
`writeVarint`, so every number of 64 bits can be spelled.
-/

namespace SchemaGraph.Wire

/-- The number that the low seven bits of some bytes spell, lowest first. -/
def sevenBits : Bytes → Nat
  | [] => 0
  | b :: rest => b.toNat % 0x80 + 0x80 * sevenBits rest

/-- Bytes that spell a number: at most ten, each but the last marked as followed
by another. -/
structure IsVarint (n : Nat) (bs : Bytes) : Prop where
  marked : ∃ front last, bs = front ++ [last] ∧ (∀ b ∈ front, 0x80 ≤ b) ∧ last < 0x80
  length : bs.length ≤ 10
  value : sevenBits bs = n
  range : n < 0x10000000000000000

/-- Bytes that spell a field number and the way its payload is written. -/
structure IsKey (number : Nat) (type : WireType) (bs : Bytes) : Prop where
  positive : 1 ≤ number
  range : number < 0x20000000
  spelled : IsVarint (8 * number + type.toNat) bs

variable {n number : Nat} {type : WireType} {bs : Bytes}

/-! ## Reading -/

/-- With `left` further bytes allowed after the first, the number has room. -/
theorem readVarintWithin_append {front : Bytes} {last : UInt8} {left : Nat}
    (hfront : ∀ b ∈ front, 0x80 ≤ b) (hlast : last < 0x80) (hlength : front.length ≤ left)
    (hrange : sevenBits (front ++ [last]) < 2 ^ (7 * left + 1)) (rest : Bytes) :
    readVarintWithin (left + 1) (front ++ last :: rest) =
      .ok (sevenBits (front ++ [last]), rest) := by
  induction front generalizing left with
  | nil =>
      have hsmall : last.toNat < 128 := UInt8.lt_iff_toNat_lt.mp hlast
      have hvalue : sevenBits [last] = last.toNat := by
        simp only [sevenBits]
        omega
      rw [List.nil_append, hvalue] at hrange
      have hbit : ¬ (left = 0 ∧ 1 < last) := by
        rintro ⟨rfl, hone⟩
        have hone' : 1 < last.toNat := UInt8.lt_iff_toNat_lt.mp hone
        omega
      rw [List.nil_append, List.nil_append, readVarintWithin, if_pos hlast, if_neg hbit, hvalue]
  | cons b front ih =>
      have hmarked : 128 ≤ b.toNat := UInt8.le_iff_toNat_le.mp (hfront b List.mem_cons_self)
      have hnot : ¬ b < 0x80 := fun hlt => by
        have hsmall : b.toNat < 128 := UInt8.lt_iff_toNat_lt.mp hlt
        omega
      have hbyte := b.toNat_lt
      obtain ⟨left, rfl⟩ : ∃ k, left = k + 1 := ⟨left - 1, by simp at hlength; omega⟩
      rw [List.cons_append, sevenBits] at hrange
      have hpow : 2 ^ (7 * (left + 1) + 1) = 0x80 * 2 ^ (7 * left + 1) := by
        rw [show 7 * (left + 1) + 1 = 7 + (7 * left + 1) by omega, Nat.pow_add]
      have hrest := ih (fun b hb => hfront b (List.mem_cons_of_mem _ hb))
        (Nat.le_of_succ_le_succ hlength) (by omega)
      have hlow : b.toNat % 0x80 = b.toNat - 0x80 := by omega
      rw [List.cons_append, List.cons_append, readVarintWithin, if_neg hnot, hrest, sevenBits, hlow]

/-- A varint is read, and what follows it is left. -/
theorem readVarint_append (h : IsVarint n bs) (rest : Bytes) :
    readVarint (bs ++ rest) = .ok (n, rest) := by
  obtain ⟨front, last, rfl, hfront, hlast⟩ := h.marked
  have hlength : front.length ≤ 9 := by
    have hten := h.length
    rw [List.length_append, List.length_singleton] at hten
    omega
  have hrange := h.range
  have hread := readVarintWithin_append hfront hlast hlength (by rw [h.value]; omega) rest
  rw [h.value] at hread
  rwa [List.append_assoc]

theorem IsVarint.ne_nil (h : IsVarint n bs) : bs ≠ [] := by
  obtain ⟨front, last, rfl, -⟩ := h.marked
  simp

theorem WireType.toNat_lt (type : WireType) : type.toNat < 8 := by
  cases type <;> decide

theorem WireType.ofNat?_toNat (type : WireType) : WireType.ofNat? type.toNat = some type := by
  cases type <;> rfl

/-- A key is read, and what follows it is left. -/
theorem readKey_append (h : IsKey number type bs) (rest : Bytes) :
    readKey (bs ++ rest) = .ok (⟨number, type⟩, rest) := by
  have htype := type.toNat_lt
  have hpositive := h.positive
  have hrange := h.range
  have hlow : (8 * number + type.toNat) % 8 = type.toNat := by omega
  have hhigh : (8 * number + type.toNat) / 8 = number := by omega
  have hkey : Key.ofNat (8 * number + type.toNat) = .ok ⟨number, type⟩ := by
    rw [Key.ofNat, if_neg (by omega), hlow, hhigh, WireType.ofNat?_toNat]
    exact if_neg (by omega)
  rw [readKey, readVarint_append h.spelled]
  dsimp only
  rw [hkey]

/-! ## Writing -/

/-- The shortest varint for a number. -/
def writeVarint (n : Nat) : Bytes :=
  if n < 0x80 then [UInt8.ofNat n] else UInt8.ofNat (n % 0x80 + 0x80) :: writeVarint (n / 0x80)
termination_by n

theorem sevenBits_writeVarint (n : Nat) : sevenBits (writeVarint n) = n := by
  induction n using Nat.strongRecOn with
  | ind n ih =>
      rw [writeVarint]
      split
      · next hsmall =>
        simp only [sevenBits, UInt8.toNat_ofNat']
        omega
      · next hlarge =>
        rw [sevenBits, ih (n / 0x80) (by omega), UInt8.toNat_ofNat']
        omega

theorem marked_writeVarint (n : Nat) :
    ∃ front last, writeVarint n = front ++ [last] ∧ (∀ b ∈ front, 0x80 ≤ b) ∧ last < 0x80 := by
  induction n using Nat.strongRecOn with
  | ind n ih =>
      rw [writeVarint]
      split
      · next hsmall =>
        refine ⟨[], UInt8.ofNat n, rfl, by simp, ?_⟩
        rw [UInt8.lt_iff_toNat_lt, UInt8.toNat_ofNat']
        have : UInt8.toNat 0x80 = 128 := rfl
        omega
      · next hlarge =>
        obtain ⟨front, last, hrest, hfront, hlast⟩ := ih (n / 0x80) (by omega)
        refine ⟨UInt8.ofNat (n % 0x80 + 0x80) :: front, last, by rw [hrest]; rfl, ?_, hlast⟩
        intro b hb
        rcases List.mem_cons.mp hb with rfl | hb
        · rw [UInt8.le_iff_toNat_le, UInt8.toNat_ofNat']
          have : UInt8.toNat 0x80 = 128 := rfl
          omega
        · exact hfront b hb

theorem length_writeVarint {n k : Nat} (h : n < 2 ^ (7 * (k + 1))) :
    (writeVarint n).length ≤ k + 1 := by
  induction k generalizing n with
  | zero =>
      have hsmall : n < 0x80 := by omega
      rw [writeVarint, if_pos hsmall]
      rfl
  | succ k ih =>
      rw [writeVarint]
      split
      · simp
      · have hpow : 2 ^ (7 * (k + 1 + 1)) = 0x80 * 2 ^ (7 * (k + 1)) := by
          rw [show 7 * (k + 1 + 1) = 7 + 7 * (k + 1) by omega, Nat.pow_add]
        have hrest := ih (n := n / 0x80) (by omega)
        rw [List.length_cons]
        omega

/-- Every number of 64 bits can be spelled. -/
theorem isVarint_writeVarint (h : n < 0x10000000000000000) : IsVarint n (writeVarint n) where
  marked := marked_writeVarint n
  length := by
    have hroom : n < 2 ^ (7 * (9 + 1)) := by omega
    exact length_writeVarint hroom
  value := sevenBits_writeVarint n
  range := h

/-- Every field number has a key of each wire type. -/
theorem exists_isKey (hpositive : 1 ≤ number) (hrange : number < 0x20000000) (type : WireType) :
    ∃ bs, IsKey number type bs :=
  ⟨_, hpositive, hrange, isVarint_writeVarint (by have := type.toNat_lt; omega)⟩

/-- The bytes of a number, lowest first. -/
def writeFixed : (count : Nat) → Nat → Bytes
  | 0, _ => []
  | count + 1, n => UInt8.ofNat (n % 256) :: writeFixed count (n / 256)

theorem length_writeFixed (count n : Nat) : (writeFixed count n).length = count := by
  induction count generalizing n with
  | zero => rfl
  | succ count ih => rw [writeFixed, List.length_cons, ih]

theorem littleEndian_writeFixed {count n : Nat} (h : n < 256 ^ count) :
    littleEndian (writeFixed count n) = n := by
  induction count generalizing n with
  | zero =>
      rw [Nat.pow_zero] at h
      simp only [writeFixed, littleEndian]
      omega
  | succ count ih =>
      rw [Nat.pow_succ] at h
      rw [writeFixed, littleEndian, ih (by omega), UInt8.toNat_ofNat']
      omega

/-! ## Records one after the other -/

/-- A step that takes some bytes off the front is the first of a run over them
and what follows. -/
theorem repeatUntil_append {ε α : Type} {step : Bytes → Except ε (α × Bytes)} {a : α}
    {front rest : Bytes} (hfront : front ≠ []) (hstep : step (front ++ rest) = .ok (a, rest)) :
    repeatUntil 0 step (front ++ rest) =
      (repeatUntil 0 step rest).map fun found => (a :: found.1, found.2) := by
  have hlength : 0 < front.length := List.length_pos_iff.mpr hfront
  rw [repeatUntil, if_neg (by rw [List.length_append]; omega), hstep]
  dsimp only
  rw [if_pos (by rw [List.length_append]; omega)]
  cases repeatUntil 0 step rest <;> rfl

theorem repeatUntil_nil {ε α : Type} (step : Bytes → Except ε (α × Bytes)) :
    repeatUntil 0 step [] = .ok ([], []) := by
  rw [repeatUntil]
  rfl

end SchemaGraph.Wire
