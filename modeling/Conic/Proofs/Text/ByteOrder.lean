import Mathlib.Data.String.Basic

/-!
# The order of texts and of their bytes

Texts are compared character by character, and that is also the order of their UTF-8 bytes
(`Text.compare_eq_lt_iff`). The first byte of a character tells how many more there are, and grows
with them; the others hold the rest of the number in base 64, the greatest digit first. So the bytes
of a smaller character differ from those of a greater one at some place inside both, and are smaller
there.
-/

namespace Conic.Text

/-- The UTF-8 bytes of a text. -/
def bytes (s : String) : List UInt8 := s.toUTF8.data.toList

/-! ## Characters -/

/-- The number of bytes after the first one. -/
def moreBytes (v : Nat) : Nat :=
  if v ≤ 127 then 0 else if v ≤ 2047 then 1 else if v ≤ 65535 then 2 else 3

/-- What marks the first byte of a character of so many more bytes. -/
def mark : Nat → Nat
  | 0 => 0
  | 1 => 192
  | 2 => 224
  | _ => 240

/-- The first byte of a character. -/
def firstByte (v : Nat) : Nat := v / 64 ^ moreBytes v + mark (moreBytes v)

/-- The last `n` digits of a number in base 64, each marked as a byte that is not the first one. -/
def digitBytes : Nat → Nat → List UInt8
  | 0, _ => []
  | n + 1, v => UInt8.ofNat (v / 64 ^ n % 64 + 128) :: digitBytes n v

theorem toNat_lt (c : Char) : c.toNat < 1114112 := by
  have hvalid := c.valid
  simp only [UInt32.isValidChar, Nat.isValidChar] at hvalid
  show c.val.toNat < 1114112
  omega

/-- The four lengths, each with its characters. -/
theorem moreBytes_cases (v : Nat) :
    v ≤ 127 ∧ moreBytes v = 0 ∨ (127 < v ∧ v ≤ 2047) ∧ moreBytes v = 1 ∨
      (2047 < v ∧ v ≤ 65535) ∧ moreBytes v = 2 ∨ 65535 < v ∧ moreBytes v = 3 := by
  rw [moreBytes]
  split
  · omega
  · split
    · omega
    · split <;> omega

theorem utf8EncodeChar_eq (c : Char) : String.utf8EncodeChar c =
    UInt8.ofNat (firstByte c.toNat) :: digitBytes (moreBytes c.toNat) c.toNat := by
  have hval : c.val.toNat = c.toNat := rfl
  have hmax := toNat_lt c
  simp only [String.utf8EncodeChar, hval, firstByte]
  generalize c.toNat = v at hmax
  rcases moreBytes_cases v with ⟨h, hmore⟩ | ⟨h, hmore⟩ | ⟨h, hmore⟩ | ⟨h, hmore⟩
  · rw [if_pos h, hmore]
    simp [mark, digitBytes]
  · rw [if_neg (by omega), if_pos h.2, hmore, Nat.mod_eq_of_lt (b := 32) (by omega)]
    simp [mark, digitBytes]
  · rw [if_neg (by omega), if_neg (by omega), if_pos h.2, hmore,
      Nat.mod_eq_of_lt (b := 16) (by omega)]
    simp [mark, digitBytes]
  · rw [if_neg (by omega), if_neg (by omega), if_neg (by omega), hmore,
      Nat.mod_eq_of_lt (b := 8) (by omega)]
    simp [mark, digitBytes]

theorem ofNat_lt_ofNat {a b : Nat} (hb : b < 256) (h : a < b) : UInt8.ofNat a < UInt8.ofNat b := by
  rw [UInt8.lt_iff_toNat_lt, UInt8.toNat_ofNat', UInt8.toNat_ofNat', Nat.mod_eq_of_lt (by omega),
    Nat.mod_eq_of_lt hb]
  exact h

theorem digitBytes_lt {n v w : Nat} (h : v % 64 ^ n < w % 64 ^ n) (s t : List UInt8) :
    digitBytes n v ++ s < digitBytes n w ++ t := by
  induction n with
  | zero => omega
  | succ n ih =>
    rw [Nat.mod_pow_succ, Nat.mod_pow_succ] at h
    show _ :: (digitBytes n v ++ s) < _ :: (digitBytes n w ++ t)
    rw [List.cons_lt_cons_iff]
    have hpos : 0 < 64 ^ n := Nat.pow_pos (by decide)
    rcases Nat.lt_trichotomy (v / 64 ^ n % 64) (w / 64 ^ n % 64) with hlt | heq | hgt
    · exact .inl (ofNat_lt_ofNat (by omega) (by omega))
    · rw [heq] at h ⊢
      exact .inr ⟨rfl, ih (by omega)⟩
    · -- a greater digit outweighs all that come after it
      have hmul : 64 ^ n * (w / 64 ^ n % 64 + 1) ≤ 64 ^ n * (v / 64 ^ n % 64) :=
        Nat.mul_le_mul_left _ hgt
      have hlow := Nat.mod_lt w hpos
      rw [Nat.mul_add] at hmul
      omega

/-- Of two numbers the smaller one has the smaller first byte, or the same one and smaller digits
after it. -/
theorem firstByte_lt {v w : Nat} (h : v < w) : firstByte v < firstByte w ∨
    firstByte v = firstByte w ∧ moreBytes v = moreBytes w ∧
      v % 64 ^ moreBytes v < w % 64 ^ moreBytes v := by
  rw [firstByte, firstByte]
  rcases moreBytes_cases v with ⟨hv, hmore⟩ | ⟨hv, hmore⟩ | ⟨hv, hmore⟩ | ⟨hv, hmore⟩ <;>
    rcases moreBytes_cases w with ⟨hw, hmore'⟩ | ⟨hw, hmore'⟩ | ⟨hw, hmore'⟩ | ⟨hw, hmore'⟩ <;>
    rw [hmore, hmore'] <;> simp only [mark, true_and] <;> omega

theorem firstByte_lt_size {v : Nat} (h : v < 1114112) : firstByte v < 256 := by
  rw [firstByte]
  rcases moreBytes_cases v with ⟨hv, hmore⟩ | ⟨hv, hmore⟩ | ⟨hv, hmore⟩ | ⟨hv, hmore⟩ <;>
    rw [hmore] <;> simp only [mark] <;> omega

/-- A smaller character decides, whatever comes after the two. -/
theorem utf8EncodeChar_append_lt {c d : Char} (h : c < d) (s t : List UInt8) :
    String.utf8EncodeChar c ++ s < String.utf8EncodeChar d ++ t := by
  rw [utf8EncodeChar_eq, utf8EncodeChar_eq, List.cons_append, List.cons_append,
    List.cons_lt_cons_iff]
  have hlt : c.toNat < d.toNat := h
  rcases firstByte_lt hlt with hfirst | ⟨hfirst, hmore, hdigits⟩
  · exact .inl (ofNat_lt_ofNat (firstByte_lt_size (toNat_lt d)) hfirst)
  · rw [hfirst, ← hmore]
    exact .inr ⟨rfl, digitBytes_lt hdigits s t⟩

/-! ## Texts -/

theorem bytes_eq (s : String) : bytes s = s.toList.flatMap String.utf8EncodeChar := by
  rw [bytes, String.toUTF8_eq_toByteArray, ← String.utf8Encode_toList, List.utf8Encode]
  simp

theorem flatMap_utf8EncodeChar_lt {s t : List Char} (h : s < t) :
    s.flatMap String.utf8EncodeChar < t.flatMap String.utf8EncodeChar := by
  change List.Lex (· < ·) s t at h
  induction h with
  | nil =>
    rw [List.flatMap_nil, List.flatMap_cons, utf8EncodeChar_eq]
    exact List.nil_lt_cons _ _
  | rel hlt =>
    rw [List.flatMap_cons, List.flatMap_cons]
    exact utf8EncodeChar_append_lt hlt _ _
  | cons _ ih =>
    rw [List.flatMap_cons, List.flatMap_cons]
    exact List.append_left_lt ih

theorem bytes_lt_bytes {s t : String} (h : s < t) : bytes s < bytes t := by
  rw [bytes_eq, bytes_eq]
  exact flatMap_utf8EncodeChar_lt (String.lt_iff_toList_lt.1 h)

/-- Texts are ordered like their bytes. -/
theorem bytes_lt_iff {s t : String} : bytes s < bytes t ↔ s < t := by
  constructor
  · intro h
    rcases lt_trichotomy s t with hlt | rfl | hgt
    · exact hlt
    · exact absurd h (List.lt_irrefl _)
    · exact absurd (bytes_lt_bytes hgt) (List.lt_asymm h)
  · exact bytes_lt_bytes

theorem eq_of_bytes_le {s t : String} (h : bytes s ≤ bytes t) (h' : bytes t ≤ bytes s) : s = t := by
  rw [← List.not_lt, bytes_lt_iff] at h h'
  exact le_antisymm (not_lt.1 h) (not_lt.1 h')

theorem compare_eq_lt_iff {s t : String} : compare s t = .lt ↔ bytes s < bytes t := by
  rw [bytes_lt_iff, compare_lt_iff_lt]

end Conic.Text
