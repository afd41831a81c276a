import Jobu.Identifiers
import Jobu.Rpc.Framing

/-!
# Base64

`encode_body` of `payload_template_priv.cpp` with `decode_base64` of `http_job_payload_priv.cpp`, and the two of
`history_output_json.cpp`.  Both encoders run the same loop, and so do both decoders; the decoders differ in their
limits.  A decoder has one way to fail.
-/

namespace Jobu.Base64

open List
open Rpc (Bytes byte text)

def symbol (value : Nat) : UInt8 :=
  (text "ABCDEFGHIJKLMNOPQRSTUVWXYZabcdefghijklmnopqrstuvwxyz0123456789+/").getD value 0

def base64Value (value : UInt8) : Option Nat :=
  if byte 'A' ≤ value ∧ value ≤ byte 'Z' then some (value - byte 'A').toNat
  else if byte 'a' ≤ value ∧ value ≤ byte 'z' then some ((value - byte 'a').toNat + 26)
  else if byte '0' ≤ value ∧ value ≤ byte '9' then some ((value - byte '0').toNat + 52)
  else if value = byte '+' then some 62
  else if value = byte '/' then some 63
  else none

def symbols (first second third : Nat) : Bytes :=
  [symbol (first >>> 2), symbol ((first &&& 3) <<< 4 ||| second >>> 4), symbol ((second &&& 15) <<< 2 ||| third >>> 6),
    symbol (third &&& 63)]

/-- The loop of the encoders; a byte that is missing counts as zero. -/
def encode : Bytes → Bytes
  | [] => []
  | [a] => (symbols a.toNat 0 0).take 2 ++ [byte '=', byte '=']
  | [a, b] => (symbols a.toNat b.toNat 0).take 3 ++ [byte '=']
  | a :: b :: c :: rest => symbols a.toNat b.toNat c.toNat ++ encode rest

def firstByte (first second : Nat) : UInt8 := .ofNat (first <<< 2 ||| second >>> 4)

def secondByte (second third : Nat) : UInt8 := .ofNat ((second &&& 15) <<< 4 ||| third >>> 2)

def thirdByte (third fourth : Nat) : UInt8 := .ofNat ((third &&& 3) <<< 6 ||| fourth)

/-- The loop of the decoders; the quantum is the final one when nothing follows. -/
def decode : Bytes → Option Bytes
  | a :: b :: c :: d :: rest => do
    let first ← base64Value a
    let second ← base64Value b
    if c = byte '=' then
      if rest ≠ [] ∨ d ≠ byte '=' ∨ second &&& 15 ≠ 0 then none else some [firstByte first second]
    else
      let third ← base64Value c
      if d = byte '=' then
        if rest ≠ [] ∨ third &&& 3 ≠ 0 then none else some [firstByte first second, secondByte second third]
      else
        let fourth ← base64Value d
        let others ← decode rest
        some (firstByte first second :: secondByte second third :: thirdByte third fourth :: others)
  | _ => some []

/-- The text of `encode_body`. -/
def encodeBody (bytes : Bytes) : Bytes := encode bytes

/-- `decode_base64` of the HTTP payload. -/
def payloadDecodeBase64 (encoded : Bytes) : Option Bytes :=
  if encoded = [] then some []
  else if encoded.length % 4 ≠ 0 ∨ (2 ^ 64 - 1) / 3 < encoded.length / 4 then none
  else decode encoded

def maximumSliceBytes : Nat := 65536

def maximumBase64Chars : Nat := (maximumSliceBytes + 2) / 3 * 4

/-- `encode_base64` of the history. -/
def encodeBase64 (bytes : Bytes) : Bytes := encode bytes

/-- `decode_base64` of the history. -/
def historyDecodeBase64 (encoded : Bytes) : Option Bytes :=
  if maximumBase64Chars < encoded.length ∨ encoded.length % 4 ≠ 0 then none
  else (decode encoded).filter fun bytes => bytes.length ≤ maximumSliceBytes

/-! ## Symbols and bits -/

theorem base64Value_symbol {value : Nat} (h : value < 64) :
    base64Value (symbol value) = some value ∧ symbol value ≠ byte '=' := by
  have hal : ∀ n : Fin 64, base64Value (symbol n) = some n.val ∧ symbol n ≠ byte '=' := by decide +kernel
  exact hal ⟨value, h⟩

theorem symbol_of_base64Value {c : UInt8} {value : Nat} (h : base64Value c = some value) : value < 64 ∧ symbol value = c := by
  have hal : ∀ c : UInt8, ∀ v ∈ base64Value c, v < 64 ∧ symbol v = c := Identifiers.forall_byte (by decide +kernel)
  exact hal c value h

theorem or_low {high low width : Nat} (h : low < 2 ^ width) : high <<< width ||| low = high * 2 ^ width + low := by
  rw [← Nat.shiftLeft_add_eq_or_of_lt h, Nat.shiftLeft_eq]

theorem and_three (value : Nat) : value &&& 3 = value % 4 := Nat.and_two_pow_sub_one_eq_mod value 2

theorem and_fifteen (value : Nat) : value &&& 15 = value % 16 := Nat.and_two_pow_sub_one_eq_mod value 4

section

variable {a b c : Nat}

theorem symbols_eq (hb : b < 256) (hc : c < 256) :
    symbols a b c = [symbol (a / 4), symbol (a % 4 * 16 + b / 16), symbol (b % 16 * 4 + c / 64), symbol (c % 64)] := by
  have hl : c &&& 63 = c % 64 := Nat.and_two_pow_sub_one_eq_mod c 6
  unfold symbols
  rw [Nat.shiftRight_eq_div_pow, Nat.shiftRight_eq_div_pow, Nat.shiftRight_eq_div_pow, or_low (by omega),
    or_low (by omega), and_three, and_fifteen, hl]
  rfl

theorem firstByte_toNat (ha : a < 64) (hb : b < 64) : (firstByte a b).toNat = a * 4 + b / 16 := by
  rw [firstByte, Nat.shiftRight_eq_div_pow, or_low (by omega), UInt8.toNat_ofNat']
  omega

theorem secondByte_toNat (hb : b < 64) : (secondByte a b).toNat = a % 16 * 16 + b / 4 := by
  rw [secondByte, Nat.shiftRight_eq_div_pow, or_low (by omega), and_fifteen, UInt8.toNat_ofNat']
  omega

theorem thirdByte_toNat (hb : b < 64) : (thirdByte a b).toNat = a % 4 * 64 + b := by
  rw [thirdByte, or_low (by omega), and_three, UInt8.toNat_ofNat']
  omega

end

/-! ## Both directions -/

variable {v w x y : Nat}

/-- Symbols of which the last may be missing are decoded together. -/
theorem decode_symbols (hv : v < 64) (hw : w < 64) (hx : x < 64) (hy : y < 64) (rest : Bytes) :
    decode (symbol v :: symbol w :: symbol x :: symbol y :: rest)
      = (decode rest).map (firstByte v w :: secondByte w x :: thirdByte x y :: ·) ∧
    (x % 4 = 0 → decode [symbol v, symbol w, symbol x, byte '='] = some [firstByte v w, secondByte w x]) ∧
    (w % 16 = 0 → decode [symbol v, symbol w, byte '=', byte '='] = some [firstByte v w]) := by
  obtain ⟨hv, -⟩ := base64Value_symbol hv
  obtain ⟨hw, -⟩ := base64Value_symbol hw
  obtain ⟨hx, hxp⟩ := base64Value_symbol hx
  obtain ⟨hy, hyp⟩ := base64Value_symbol hy
  refine ⟨?_, fun hbi => ?_, fun hbi => ?_⟩
  · cases hr : decode rest <;> simp [decode, hv, hw, hx, hy, hxp, hyp, hr]
  · simp [decode, hv, hw, hx, hxp, and_three, hbi]
  · simp [decode, hv, hw, and_fifteen, hbi]

theorem decode_encode (bytes : Bytes) : decode (encode bytes) = some bytes := by
  -- the bytes that the symbols of three bytes stand for
  have hfi (a : UInt8) {b : Nat} (hb : b < 256) : firstByte (a.toNat / 4) (a.toNat % 4 * 16 + b / 16) = a := by
    have ha := a.toNat_lt
    exact UInt8.toNat_inj.1 (by rw [firstByte_toNat (by omega) (by omega)]; omega)
  have hse (a : Nat) (b : UInt8) {c : Nat} (hc : c < 256) :
      secondByte (a % 4 * 16 + b.toNat / 16) (b.toNat % 16 * 4 + c / 64) = b := by
    have hb := b.toNat_lt
    exact UInt8.toNat_inj.1 (by rw [secondByte_toNat (by omega)]; omega)
  have hth (b : Nat) (c : UInt8) : thirdByte (b % 16 * 4 + c.toNat / 64) (c.toNat % 64) = c := by
    have hc := c.toNat_lt
    exact UInt8.toNat_inj.1 (by rw [thirdByte_toNat (by omega)]; omega)
  fun_induction encode bytes with
  | case1 => rfl
  | case2 a =>
    have ha := a.toNat_lt
    rw [symbols_eq (by omega) (by omega)]
    refine ((@decode_symbols (a.toNat / 4) (a.toNat % 4 * 16 + 0 / 16) 0 0 (by omega) (by omega) (by omega) (by omega)
      []).2.2 (by omega)).trans ?_
    rw [hfi a (by omega)]
  | case3 a b =>
    have ha := a.toNat_lt
    have hb := b.toNat_lt
    rw [symbols_eq (by omega) (by omega)]
    refine ((@decode_symbols (a.toNat / 4) (a.toNat % 4 * 16 + b.toNat / 16) (b.toNat % 16 * 4 + 0 / 64) 0 (by omega)
      (by omega) (by omega) (by omega) []).2.1 (by omega)).trans ?_
    rw [hfi a (by omega), hse _ b (by omega)]
  | case4 a b c _ ih =>
    have ha := a.toNat_lt
    have hb := b.toNat_lt
    have hc := c.toNat_lt
    rw [symbols_eq (by omega) (by omega), cons_append, cons_append, cons_append, singleton_append]
    refine (decode_symbols (by omega) (by omega) (by omega) (by omega) _).1.trans ?_
    rw [ih, hfi a (by omega), hse _ b (by omega), hth]
    rfl

theorem encode_decode : ∀ {encoded bytes : Bytes}, encoded.length % 4 = 0 → decode encoded = some bytes →
    encode bytes = encoded
  | [], _, _, h => by
    cases h
    rfl
  | [_], _, hsi, _ | [_, _], _, hsi, _ | [_, _, _], _, hsi, _ => by simp at hsi
  | a :: b :: c :: d :: rest, bytes, hsi, hde => by
    simp only [length_cons] at hsi
    obtain ⟨v, hv, hafter⟩ := Option.bind_eq_some_iff.1 hde
    obtain ⟨w, hw, h⟩ := Option.bind_eq_some_iff.1 hafter
    clear hde hafter
    obtain ⟨hv', rfl⟩ := symbol_of_base64Value hv
    obtain ⟨hw', rfl⟩ := symbol_of_base64Value hw
    have hfir := firstByte_toNat hv' hw'
    split at h
    · next hc =>
      split at h
      · cases h
      next hfi =>
      simp only [not_or, not_not, and_fifteen] at hfi
      obtain ⟨rfl, rfl, _⟩ := hfi
      cases h
      rw [encode, symbols_eq (by omega) (by omega), hfir, hc, show (v * 4 + w / 16) / 4 = v by omega,
        show (v * 4 + w / 16) % 4 * 16 + 0 / 16 = w by omega]
      rfl
    obtain ⟨x, hx, hafter⟩ := Option.bind_eq_some_iff.1 h
    clear h
    obtain ⟨hx', rfl⟩ := symbol_of_base64Value hx
    have hse := @secondByte_toNat w x hx'
    split at hafter
    · next hd =>
      split at hafter
      · cases hafter
      next hfi =>
      simp only [not_or, not_not, and_three] at hfi
      obtain ⟨rfl, _⟩ := hfi
      cases hafter
      rw [encode, symbols_eq (by omega) (by omega), hfir, hse, hd, show (v * 4 + w / 16) / 4 = v by omega,
        show (v * 4 + w / 16) % 4 * 16 + (w % 16 * 16 + x / 4) / 16 = w by omega,
        show (w % 16 * 16 + x / 4) % 16 * 4 + 0 / 64 = x by omega]
      rfl
    obtain ⟨y, hy, hafter⟩ := Option.bind_eq_some_iff.1 hafter
    obtain ⟨_, ho, hby⟩ := Option.bind_eq_some_iff.1 hafter
    obtain ⟨hy', rfl⟩ := symbol_of_base64Value hy
    have hth := @thirdByte_toNat x y hy'
    cases hby
    rw [encode, symbols_eq (by omega) (by omega), hfir, hse, hth, encode_decode (by omega) ho,
      show (v * 4 + w / 16) / 4 = v by omega,
      show (v * 4 + w / 16) % 4 * 16 + (w % 16 * 16 + x / 4) / 16 = w by omega,
      show (w % 16 * 16 + x / 4) % 16 * 4 + (x % 4 * 64 + y) / 64 = x by omega,
      show (x % 4 * 64 + y) % 64 = y by omega]
    rfl

theorem length_encode (bytes : Bytes) : (encode bytes).length = (bytes.length + 2) / 3 * 4 := by
  fun_induction encode bytes with
  | case1 => rfl
  | case2 | case3 => simp [symbols]
  | case4 _ _ _ _ ih =>
    simp only [symbols, length_append, length_cons, length_nil, ih]
    omega

theorem encode_of_payload {encoded bytes : Bytes} (h : payloadDecodeBase64 encoded = some bytes) :
    encodeBody bytes = encoded := by
  unfold payloadDecodeBase64 at h
  split at h
  · next he =>
    cases h
    exact he.symm
  split at h
  · cases h
  · exact encode_decode (by omega) h

theorem encode_of_history {encoded bytes : Bytes} (h : historyDecodeBase64 encoded = some bytes) :
    encodeBase64 bytes = encoded := by
  unfold historyDecodeBase64 at h
  split at h
  · cases h
  exact encode_decode (by omega) (Option.filter_eq_some_iff.1 h).1

/-- **Base64 is canonical.**  A text is a string, so its length is a `std::size_t`. -/
theorem base64_canonical :
    (∀ bytes, (encodeBody bytes).length < 2 ^ 64 → payloadDecodeBase64 (encodeBody bytes) = some bytes) ∧
    (∀ encoded bytes, payloadDecodeBase64 encoded = some bytes → encodeBody bytes = encoded) ∧
    (∀ bytes, bytes.length ≤ maximumSliceBytes → historyDecodeBase64 (encodeBase64 bytes) = some bytes) ∧
    (∀ encoded bytes, historyDecodeBase64 encoded = some bytes → encodeBase64 bytes = encoded) ∧
    ∀ one other bytes, (payloadDecodeBase64 one = some bytes ∧ payloadDecodeBase64 other = some bytes) ∨
      (historyDecodeBase64 one = some bytes ∧ historyDecodeBase64 other = some bytes) → one = other := by
  refine ⟨fun bytes hsize => ?_, fun _ _ => encode_of_payload, fun bytes hsize => ?_, fun _ _ => encode_of_history, ?_⟩
  · unfold payloadDecodeBase64
    rw [encodeBody] at hsize ⊢
    split
    · next hempty =>
      rw [← decode_encode bytes, hempty]
      rfl
    · rw [if_neg (by rw [length_encode] at hsize ⊢; omega), decode_encode]
  · unfold historyDecodeBase64 maximumBase64Chars encodeBase64
    rw [if_neg (by rw [length_encode]; omega), decode_encode, Option.filter_some_pos (by simpa using hsize)]
  · rintro one other bytes (⟨hone, hother⟩ | ⟨hone, hother⟩)
    · exact (encode_of_payload hone).symm.trans (encode_of_payload hother)
    · exact (encode_of_history hone).symm.trans (encode_of_history hother)

end Jobu.Base64
