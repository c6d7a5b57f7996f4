import Mathlib.Data.Nat.Basic
import SchemaGraph.Text.Utf8

/-!
# Reading text back

The bytes of a text are read as the text (`decodeLossy_encode`): each character
is written in one to four bytes, and these are the ones that its lead byte
announces (`next_utf8EncodeChar`).
-/

namespace SchemaGraph.Text.Utf8

/-! ## Lead bytes -/

theorem lead_one : ∀ k < 0x80, lead (UInt8.ofNat k) = some (0, 0x80, 0xBF) ∧
    leadBits (UInt8.ofNat k) = k := by
  decide

theorem lead_two : ∀ k < 32, 2 ≤ k → lead (UInt8.ofNat (k + 0xC0)) = some (1, 0x80, 0xBF) ∧
    leadBits (UInt8.ofNat (k + 0xC0)) = k := by
  decide

theorem lead_three : ∀ k < 16, lead (UInt8.ofNat (k + 0xE0)) =
      some (2, if k = 0 then 0xA0 else 0x80, if k = 13 then 0x9F else 0xBF) ∧
    leadBits (UInt8.ofNat (k + 0xE0)) = k := by
  decide

theorem lead_four : ∀ k < 5, lead (UInt8.ofNat (k + 0xF0)) =
      some (3, if k = 0 then 0x90 else 0x80, if k = 4 then 0x8F else 0xBF) ∧
    leadBits (UInt8.ofNat (k + 0xF0)) = k := by
  decide

/-! ## Bytes that follow -/

/-- A following byte in range adds six bits. -/
theorem finish_tail {owed code x : Nat} {low high : UInt8} (hx : x < 64)
    (hlow : low.toNat ≤ x + 0x80) (hhigh : x + 0x80 ≤ high.toNat) (bs : List UInt8) :
    finish (owed + 1) code low high (UInt8.ofNat (x + 0x80) :: bs) =
      finish owed (code * 64 + x) 0x80 0xBF bs := by
  have hbyte : (UInt8.ofNat (x + 0x80)).toNat = x + 0x80 := by
    rw [UInt8.toNat_ofNat']
    omega
  have hrange : (low ≤ UInt8.ofNat (x + 0x80) && UInt8.ofNat (x + 0x80) ≤ high) = true := by
    rw [Bool.and_eq_true, decide_eq_true_eq, decide_eq_true_eq, UInt8.le_iff_toNat_le,
      UInt8.le_iff_toNat_le, hbyte]
    exact ⟨hlow, hhigh⟩
  rw [finish, if_pos hrange, hbyte, Nat.add_sub_cancel]

/-- A further following byte may be any. -/
theorem finish_tail_any {owed code x : Nat} (hx : x < 64) (bs : List UInt8) :
    finish (owed + 1) code 0x80 0xBF (UInt8.ofNat (x + 0x80) :: bs) =
      finish owed (code * 64 + x) 0x80 0xBF bs := by
  have hlow : (0x80 : UInt8).toNat = 128 := rfl
  have hhigh : (0xBF : UInt8).toNat = 191 := rfl
  exact finish_tail hx (by omega) (by omega) bs

theorem next_of_lead {b : UInt8} {owed : Nat} {low high : UInt8} (h : lead b = some (owed, low, high))
    (bs : List UInt8) : next b bs = finish owed (leadBits b) low high bs := by
  rw [next, h]

/-- The bytes of a character are read as the character. -/
theorem next_utf8EncodeChar (c : Char) :
    ∃ b bs, String.utf8EncodeChar c = b :: bs ∧ ∀ rest, next b (bs ++ rest) = (some c, rest) := by
  have hfinish (code : Nat) (rest : List UInt8) (hcode : code = c.toNat) :
      finish 0 code 0x80 0xBF rest = (some c, rest) := by
    rw [finish, hcode, Char.ofNat_toNat]
  have hvalid : c.toNat < 0xD800 ∨ 0xDFFF < c.toNat ∧ c.toNat < 0x110000 := c.valid
  rw [String.utf8EncodeChar]
  generalize hv : c.val.toNat = v
  have hcode : c.toNat = v := hv
  rw [hcode] at hvalid hfinish
  split
  · next hone =>
    obtain ⟨hlead, hbits⟩ := lead_one v (by omega)
    refine ⟨_, _, rfl, fun rest => ?_⟩
    rw [next_of_lead hlead, hbits]
    exact hfinish v rest rfl
  split
  · next hone htwo =>
    obtain ⟨hlead, hbits⟩ := lead_two (v / 64 % 0x20) (by omega) (by omega)
    refine ⟨_, _, rfl, fun rest => ?_⟩
    rw [next_of_lead hlead, hbits, List.cons_append, finish_tail_any (by omega)]
    exact hfinish _ rest (by omega)
  split
  · next hone htwo hthree =>
    obtain ⟨hlead, hbits⟩ := lead_three (v / 4096 % 0x10) (by omega)
    refine ⟨_, _, rfl, fun rest => ?_⟩
    rw [next_of_lead hlead, hbits, List.cons_append, finish_tail (by omega) ?low ?high,
      List.cons_append, finish_tail_any (by omega)]
    case low =>
      have hA0 : (0xA0 : UInt8).toNat = 160 := rfl
      have h80 : (0x80 : UInt8).toNat = 128 := rfl
      split <;> omega
    case high =>
      -- The characters between 0xD800 and 0xDFFF are missing.
      have h9F : (0x9F : UInt8).toNat = 159 := rfl
      have hBF : (0xBF : UInt8).toNat = 191 := rfl
      split <;> omega
    exact hfinish _ rest (by omega)
  · next hone htwo hthree =>
    obtain ⟨hlead, hbits⟩ := lead_four (v / 262144 % 0x08) (by omega)
    refine ⟨_, _, rfl, fun rest => ?_⟩
    rw [next_of_lead hlead, hbits, List.cons_append, finish_tail (by omega) ?low ?high,
      List.cons_append, finish_tail_any (by omega), List.cons_append, finish_tail_any (by omega)]
    case low =>
      have h90 : (0x90 : UInt8).toNat = 144 := rfl
      have h80 : (0x80 : UInt8).toNat = 128 := rfl
      split <;> omega
    case high =>
      have h8F : (0x8F : UInt8).toNat = 143 := rfl
      have hBF : (0xBF : UInt8).toNat = 191 := rfl
      split <;> omega
    exact hfinish _ rest (by omega)

/-! ## Whole texts -/

theorem scan_utf8EncodeChar (c : Char) (rest : List UInt8) :
    scan (String.utf8EncodeChar c ++ rest) = some c :: scan rest := by
  obtain ⟨b, bs, hencode, hnext⟩ := next_utf8EncodeChar c
  rw [hencode, List.cons_append, scan, hnext]

theorem scan_flatMap (cs : List Char) :
    scan (cs.flatMap String.utf8EncodeChar) = cs.map some := by
  induction cs with
  | nil => rw [List.flatMap_nil, scan, List.map_nil]
  | cons c rest ih => rw [List.flatMap_cons, scan_utf8EncodeChar, ih, List.map_cons]

theorem loop_toList (bs : ByteArray) (i : Nat) (read : List UInt8) :
    ByteArray.toList.loop bs i read = read.reverse ++ bs.data.toList.drop i := by
  fun_induction ByteArray.toList.loop bs i read with
  | case1 i read hlt ih =>
      have hlength : i < bs.data.toList.length := by simpa using hlt
      have hget : bs.get! i = bs.data.toList[i] := by
        rw [Array.getElem_toList]
        exact getElem!_pos bs.data i hlt
      rw [ih, List.drop_eq_getElem_cons hlength, hget, List.reverse_cons, List.append_assoc,
        List.singleton_append]
  | case2 i read hge =>
      have hlength : bs.data.toList.length ≤ i := by simpa using hge
      rw [List.drop_eq_nil_of_le hlength, List.append_nil]

/-- A text is written character by character. -/
theorem encode_eq_flatMap (s : String) : encode s = s.toList.flatMap String.utf8EncodeChar := by
  have hbytes : s.toByteArray = s.toList.utf8Encode := by
    rw [← String.toByteArray_ofList, String.ofList_toList]
  rw [encode, ByteArray.toList, loop_toList, String.toUTF8_eq_toByteArray, hbytes,
    List.utf8Encode, List.data_toByteArray]
  simp

/-- The bytes of a text are read as the text. -/
theorem decodeLossy_encode (s : String) : decodeLossy (encode s) = s := by
  rw [decodeLossy, encode_eq_flatMap, scan_flatMap, List.map_map]
  simp [Function.comp_def]

end SchemaGraph.Text.Utf8
