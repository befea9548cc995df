import EntityGraph.Text.Utf8
import Mathlib.Tactic.SplitIfs

/-!
# Lossy reading of well-formed bytes

Bytes that are well-formed UTF-8 lose nothing when they are read lossily: `decodeLossy` gives the text
that `decode?` gives (`decodeLossy_eq_of_decode?`). One character is read back from its bytes by the
length of its form (`decodeLossyFrom_utf8EncodeChar`), and a text character by character.
-/

namespace EntityGraph.Text

/-! ## Lead bytes -/

theorem lead?_one {b : Nat} (h : b < 0x80) : lead? b = some ⟨0, 0, 0, b⟩ :=
  if_pos h

theorem lead?_two {b : Nat} (h : 0xC2 ≤ b ∧ b < 0xE0) : lead? b = some ⟨1, 0x80, 0xBF, b - 0xC0⟩ := by
  rw [lead?, if_neg (by omega), if_neg (by omega), if_pos h.2]

theorem lead?_three {b : Nat} (h : 0xE0 ≤ b ∧ b < 0xF0) : lead? b =
    some ⟨2, if b = 0xE0 then 0xA0 else 0x80, if b = 0xED then 0x9F else 0xBF, b - 0xE0⟩ := by
  rw [lead?, if_neg (by omega), if_neg (by omega), if_neg (by omega)]
  grind

theorem lead?_four {b : Nat} (h : 0xF0 ≤ b ∧ b < 0xF5) : lead? b =
    some ⟨3, if b = 0xF0 then 0x90 else 0x80, if b = 0xF4 then 0x8F else 0xBF, b - 0xF0⟩ := by
  rw [lead?, if_neg (by omega), if_neg (by omega), if_neg (by omega), if_neg (by omega),
    if_neg (by omega), if_neg (by omega)]
  grind

/-! ## Characters -/

section Bytes

variable {b : UInt8} {n missing lowest highest bits : Nat}

/-- A lead byte that asks for more bytes makes its character pending. -/
theorem decodeLossyFrom_lead (hb : b.toNat = n)
    (h : lead? n = some ⟨missing + 1, lowest, highest, bits⟩) (rest : List UInt8) :
    decodeLossyFrom none (b :: rest) =
      decodeLossyFrom (some ⟨bits, missing + 1, lowest, highest⟩) rest := by
  rw [decodeLossyFrom, readByte, begin, hb, h]
  rfl

/-- A byte in the range that is asked for, but not the last one. -/
theorem decodeLossyFrom_more (hb : b.toNat = n) (h : lowest ≤ n ∧ n ≤ highest) (rest : List UInt8) :
    decodeLossyFrom (some ⟨bits, missing + 2, lowest, highest⟩) (b :: rest) =
      decodeLossyFrom (some ⟨bits * 64 + (n - 0x80), missing + 1, 0x80, 0xBF⟩) rest := by
  have hmissing : ¬ missing + 2 ≤ 1 := by omega
  rw [decodeLossyFrom, readByte, hb]
  simp only [if_pos h, if_neg hmissing]
  rfl

/-- The last byte completes the character. -/
theorem decodeLossyFrom_last (hb : b.toNat = n) (h : lowest ≤ n ∧ n ≤ highest) (rest : List UInt8) :
    decodeLossyFrom (some ⟨bits, 1, lowest, highest⟩) (b :: rest) =
      Char.ofNat (bits * 64 + (n - 0x80)) :: decodeLossyFrom none rest := by
  rw [decodeLossyFrom, readByte, hb]
  simp only [if_pos h]
  rfl

end Bytes

theorem toNat_ofNat_byte {n : Nat} (h : n < 256) : (UInt8.ofNat n).toNat = n := by
  rw [UInt8.toNat_ofNat', Nat.mod_eq_of_lt h]

theorem decodeLossyFrom_one {v : Nat} (h : v < 0x80) (rest : List UInt8) :
    decodeLossyFrom none (UInt8.ofNat v :: rest) = Char.ofNat v :: decodeLossyFrom none rest := by
  rw [decodeLossyFrom, readByte, begin, toNat_ofNat_byte (by omega), lead?_one h]
  rfl

theorem decodeLossyFrom_two {v : Nat} (h : 0x80 ≤ v ∧ v < 0x800) (rest : List UInt8) :
    decodeLossyFrom none (UInt8.ofNat (v / 64 % 32 + 192) :: UInt8.ofNat (v % 64 + 128) :: rest) =
      Char.ofNat v :: decodeLossyFrom none rest := by
  have h₀ : (UInt8.ofNat (v / 64 % 32 + 192)).toNat = v / 64 + 192 := by
    rw [toNat_ofNat_byte (by omega)]
    omega
  have h₁ : (UInt8.ofNat (v % 64 + 128)).toNat = v % 64 + 128 := toNat_ofNat_byte (by omega)
  have hv : (v / 64 + 192 - 0xC0) * 64 + (v % 64 + 128 - 0x80) = v := by omega
  rw [decodeLossyFrom_lead h₀ (lead?_two (by omega)), decodeLossyFrom_last h₁ (by omega), hv]

theorem decodeLossyFrom_three {v : Nat} (h : 0x800 ≤ v ∧ v < 0x10000) (hv : v < 0xD800 ∨ 0xDFFF < v)
    (rest : List UInt8) :
    decodeLossyFrom none (UInt8.ofNat (v / 4096 % 16 + 224) :: UInt8.ofNat (v / 64 % 64 + 128) ::
      UInt8.ofNat (v % 64 + 128) :: rest) = Char.ofNat v :: decodeLossyFrom none rest := by
  have h₀ : (UInt8.ofNat (v / 4096 % 16 + 224)).toNat = v / 4096 + 224 := by
    rw [toNat_ofNat_byte (by omega)]
    omega
  have h₁ : (UInt8.ofNat (v / 64 % 64 + 128)).toNat = v / 64 % 64 + 128 := toNat_ofNat_byte (by omega)
  have h₂ : (UInt8.ofNat (v % 64 + 128)).toNat = v % 64 + 128 := toNat_ofNat_byte (by omega)
  have hv : ((v / 4096 + 224 - 0xE0) * 64 + (v / 64 % 64 + 128 - 0x80)) * 64 +
    (v % 64 + 128 - 0x80) = v := by omega
  rw [decodeLossyFrom_lead h₀ (lead?_three (by omega)),
    decodeLossyFrom_more h₁ (by split_ifs <;> omega), decodeLossyFrom_last h₂ (by omega), hv]

theorem decodeLossyFrom_four {v : Nat} (h : 0x10000 ≤ v ∧ v < 0x110000) (rest : List UInt8) :
    decodeLossyFrom none (UInt8.ofNat (v / 262144 % 8 + 240) :: UInt8.ofNat (v / 4096 % 64 + 128) ::
      UInt8.ofNat (v / 64 % 64 + 128) :: UInt8.ofNat (v % 64 + 128) :: rest) =
      Char.ofNat v :: decodeLossyFrom none rest := by
  have h₀ : (UInt8.ofNat (v / 262144 % 8 + 240)).toNat = v / 262144 + 240 := by
    rw [toNat_ofNat_byte (by omega)]
    omega
  have h₁ : (UInt8.ofNat (v / 4096 % 64 + 128)).toNat = v / 4096 % 64 + 128 :=
    toNat_ofNat_byte (by omega)
  have h₂ : (UInt8.ofNat (v / 64 % 64 + 128)).toNat = v / 64 % 64 + 128 := toNat_ofNat_byte (by omega)
  have h₃ : (UInt8.ofNat (v % 64 + 128)).toNat = v % 64 + 128 := toNat_ofNat_byte (by omega)
  have hv : (((v / 262144 + 240 - 0xF0) * 64 + (v / 4096 % 64 + 128 - 0x80)) * 64 +
    (v / 64 % 64 + 128 - 0x80)) * 64 + (v % 64 + 128 - 0x80) = v := by omega
  rw [decodeLossyFrom_lead h₀ (lead?_four (by omega)),
    decodeLossyFrom_more h₁ (by split_ifs <;> omega), decodeLossyFrom_more h₂ (by omega),
    decodeLossyFrom_last h₃ (by omega), hv]

/-- A character is read back from its bytes. -/
theorem decodeLossyFrom_utf8EncodeChar (c : Char) (rest : List UInt8) :
    decodeLossyFrom none (String.utf8EncodeChar c ++ rest) = c :: decodeLossyFrom none rest := by
  have hvalid : c.val.toNat < 0xD800 ∨ 0xDFFF < c.val.toNat ∧ c.val.toNat < 0x110000 := c.valid
  have hchar : Char.ofNat c.val.toNat = c := Char.ofNat_toNat c
  show decodeLossyFrom none ((if _ then _ else if _ then _ else if _ then _ else _) ++ rest) = _
  refine Eq.trans ?_ (congrArg (· :: decodeLossyFrom none rest) hchar)
  split
  · exact decodeLossyFrom_one (by omega) rest
  split
  · exact decodeLossyFrom_two (by omega) rest
  split
  · exact decodeLossyFrom_three (by omega) (by omega) rest
  · exact decodeLossyFrom_four (by omega) rest

/-! ## Texts -/

theorem decodeLossyFrom_flatMap (cs : List Char) :
    decodeLossyFrom none (cs.flatMap String.utf8EncodeChar) = cs := by
  induction cs with
  | nil => rfl
  | cons c rest ih => rw [List.flatMap_cons, decodeLossyFrom_utf8EncodeChar, ih]

theorem toByteArray_of_decode? {bytes : ByteArray} {text : String} (h : decode? bytes = some text) :
    text.toByteArray = bytes := by
  rw [decode?, String.fromUTF8?] at h
  split at h
  · exact congrArg String.toByteArray (Option.some.inj h).symm
  · cases h

/-- Where bytes can be read as they are, they are read lossily as the same text. -/
theorem decodeLossy_eq_of_decode? {content : List UInt8} {text : String}
    (h : decode? ⟨content.toArray⟩ = some text) : decodeLossy content = text := by
  have hbytes : content = text.toList.flatMap String.utf8EncodeChar := by
    have hencoded : text.toList.utf8Encode = ⟨content.toArray⟩ := by
      rw [← String.toByteArray_ofList, String.ofList_toList]
      exact toByteArray_of_decode? h
    simpa [List.utf8Encode] using (congrArg (fun bytes => bytes.data.toList) hencoded).symm
  rw [decodeLossy, hbytes, decodeLossyFrom_flatMap, String.ofList_toList]

end EntityGraph.Text
