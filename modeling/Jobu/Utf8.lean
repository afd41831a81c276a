import Jobu.Rpc.Framing

/-!
# UTF-8 validation

`is_valid_utf8` of `json.cpp` and of `text_validation.cpp`, which have the same text.  The position is the rest of
the string; a byte that is read beyond its end is a fault.  A `Char` is a Unicode scalar value.

  > `following_cases`: a round of the loop finds no fault, and what it accepts is a first byte with what may follow.
  > `follow_encoded`, `encoded_of_follow`: those byte strings are the encodings of the characters.
-/

namespace Jobu.Utf8

open List
open String (utf8EncodeChar)
open Rpc (Bytes)

def isContinuation (byte : Nat) : Prop := 0x80 ≤ byte ∧ byte ≤ 0xbf

instance (byte : Nat) : Decidable (isContinuation byte) := inferInstanceAs (Decidable (_ ∧ _))

/-- `valid_second`: the two first bytes named narrow the range. -/
def validSecond (first second lowest highest low high : Nat) : Prop :=
  if first = lowest then low ≤ second ∧ second ≤ 0xbf
  else if first = highest then 0x80 ≤ second ∧ second ≤ high else isContinuation second

instance (first second lowest highest low high : Nat) : Decidable (validSecond first second lowest highest low high) := by
  unfold validSecond
  infer_instance

/-- How many bytes after the first one belong to it, if they are valid; the outer `none` is a fault. -/
def following (first : Nat) (rest : List Nat) : Option (Option Nat) :=
  if first ≤ 0x7f then some (some 0)
  else if 0xc2 ≤ first ∧ first ≤ 0xdf then
    if rest.length < 1 then some none
    else do
      let second ← rest[0]?
      if isContinuation second then some (some 1) else some none
  else if 0xe0 ≤ first ∧ first ≤ 0xef then
    if rest.length < 2 then some none
    else do
      let third ← rest[1]?
      if ¬isContinuation third then some none
      else
        let second ← rest[0]?
        if validSecond first second 0xe0 0xed 0xa0 0x9f then some (some 2) else some none
  else if 0xf0 ≤ first ∧ first ≤ 0xf4 then
    if rest.length < 3 then some none
    else do
      let third ← rest[1]?
      if ¬isContinuation third then some none
      else
        let fourth ← rest[2]?
        if ¬isContinuation fourth then some none
        else
          let second ← rest[0]?
          if validSecond first second 0xf0 0xf4 0x90 0x8f then some (some 3) else some none
  else some none

/-- The loop. -/
def validate : Bytes → Option Bool
  | [] => some true
  | first :: rest =>
    match following first.toNat (rest.map UInt8.toNat) with
    | none => none
    | some none => some false
    | some (some more) => validate (rest.drop more)
termination_by bytes => bytes.length

/-- `is_valid_utf8` of `json.cpp`. -/
def jsonIsValidUtf8 (bytes : Bytes) : Option Bool := validate bytes

/-- `is_valid_utf8` of `text_validation.cpp`. -/
def isValidUtf8 (bytes : Bytes) : Option Bool := validate bytes

/-! ## One character -/

variable {first : Nat} {rest : List Nat}

/-- What may follow a first byte. -/
def Follow (first : Nat) : List Nat → Prop
  | [] => first ≤ 0x7f
  | [b] => 0xc2 ≤ first ∧ first ≤ 0xdf ∧ isContinuation b
  | [b, c] => 0xe0 ≤ first ∧ first ≤ 0xef ∧ isContinuation c ∧ validSecond first b 0xe0 0xed 0xa0 0x9f
  | [b, c, d] => 0xf0 ≤ first ∧ first ≤ 0xf4 ∧ isContinuation c ∧ isContinuation d ∧
      validSecond first b 0xf0 0xf4 0x90 0x8f
  | _ => False

theorem following_of_follow {others : List Nat} (h : Follow first others) (rest : List Nat) :
    following first (others ++ rest) = some (some others.length) := by
  unfold following
  match others, h with
  | [], h => exact if_pos h
  | [b], ⟨hl, hh, hb⟩ => rw [if_neg (by omega), if_pos ⟨hl, hh⟩]; simp [hb]
  | [b, c], ⟨hl, hh, hc, hb⟩ =>
    rw [if_neg (by omega), if_neg (by omega), if_pos ⟨hl, hh⟩]
    simp [hb, hc]
  | [b, c, d], ⟨hl, hh, hc, hd, hb⟩ =>
    rw [if_neg (by omega), if_neg (by omega), if_neg (by omega), if_pos ⟨hl, hh⟩]
    simp [hb, hc, hd]

theorem following_cases (first : Nat) (rest : List Nat) : following first rest = some none ∨
    ∃ others tail, rest = others ++ tail ∧ Follow first others ∧ following first rest = some (some others.length) := by
  have hfo {others tail : List Nat} (h : Follow first others) : following first (others ++ tail) = some none ∨
      ∃ front back, others ++ tail = front ++ back ∧ Follow first front ∧
        following first (others ++ tail) = some (some front.length) :=
    .inr ⟨others, tail, rfl, h, following_of_follow h tail⟩
  by_cases ho : first ≤ 0x7f
  · exact @hfo [] rest ho
  by_cases htw : 0xc2 ≤ first ∧ first ≤ 0xdf
  · match rest with
    | [] => exact .inl (by rw [following, if_neg ho, if_pos htw]; rfl)
    | b :: tail =>
      by_cases hb : isContinuation b
      · exact @hfo [b] tail ⟨htw.1, htw.2, hb⟩
      · exact .inl (by rw [following, if_neg ho, if_pos htw]; simp [hb])
  by_cases hth : 0xe0 ≤ first ∧ first ≤ 0xef
  · match rest with
    | [] | [_] => exact .inl (by rw [following, if_neg ho, if_neg htw, if_pos hth]; rfl)
    | b :: c :: tail =>
      by_cases hby : isContinuation c ∧ validSecond first b 0xe0 0xed 0xa0 0x9f
      · exact @hfo [b, c] tail ⟨hth.1, hth.2, hby⟩
      · refine .inl ?_
        rw [following, if_neg ho, if_neg htw, if_pos hth]
        by_cases hc : isContinuation c <;> simp_all
  by_cases hfou : 0xf0 ≤ first ∧ first ≤ 0xf4
  · match rest with
    | [] | [_] | [_, _] => exact .inl (by rw [following, if_neg ho, if_neg htw, if_neg hth, if_pos hfou]; rfl)
    | b :: c :: d :: tail =>
      by_cases hby : isContinuation c ∧ isContinuation d ∧ validSecond first b 0xf0 0xf4 0x90 0x8f
      · exact @hfo [b, c, d] tail ⟨hfou.1, hfou.2, hby⟩
      · refine .inl ?_
        rw [following, if_neg ho, if_neg htw, if_neg hth, if_pos hfou]
        by_cases hc : isContinuation c <;> by_cases hd : isContinuation d <;> simp_all
  · exact .inl (by rw [following, if_neg ho, if_neg htw, if_neg hth, if_neg hfou])

/-- The bytes of a character follow each other. -/
theorem follow_encoded (c : Char) : ∃ first others, utf8EncodeChar c = first :: others ∧
    Follow first.toNat (others.map UInt8.toNat) := by
  have hv : c.val.toNat < 0xd800 ∨ 0xdfff < c.val.toNat ∧ c.val.toNat < 0x110000 := c.valid
  unfold utf8EncodeChar
  generalize c.val.toNat = v at *
  dsimp only
  repeat' split
  all_goals refine ⟨_, _, rfl, ?_⟩
  all_goals simp only [map_cons, map_nil, Follow, UInt8.toNat_ofNat', isContinuation, validSecond]
  · omega
  · omega
  · split_ifs <;> omega
  · split_ifs <;> omega

theorem exists_char {v : Nat} (h : v < 0xd800 ∨ 0xdfff < v ∧ v < 0x110000) : ∃ c : Char, c.val.toNat = v :=
  ⟨Char.ofNatAux v h, rfl⟩

theorem encoded_of_follow {first : UInt8} {others : Bytes} (h : Follow first.toNat (others.map UInt8.toNat)) :
    ∃ c, utf8EncodeChar c = first :: others := by
  have hby {n : Nat} {b : UInt8} (hn : n = b.toNat) : UInt8.ofNat n = b := by rw [hn, UInt8.ofNat_toNat]
  match others, h with
  | [], h =>
    simp only [map_nil, Follow] at h
    obtain ⟨c, hc⟩ := @exists_char first.toNat (by omega)
    refine ⟨c, ?_⟩
    rw [utf8EncodeChar, hc, if_pos (by omega), hby rfl]
  | [b], h =>
    simp only [map_cons, map_nil, Follow, isContinuation] at h
    obtain ⟨c, hc⟩ := @exists_char ((first.toNat - 192) * 64 + (b.toNat - 128)) (by omega)
    refine ⟨c, ?_⟩
    rw [utf8EncodeChar, hc, if_neg (by omega), if_pos (by omega), @hby _ first (by omega), @hby _ b (by omega)]
  | [b, c], h =>
    simp only [map_cons, map_nil, Follow, validSecond, isContinuation] at h
    split_ifs at h
    all_goals
      obtain ⟨char, hc⟩ := @exists_char ((first.toNat - 224) * 4096 + (b.toNat - 128) * 64 + (c.toNat - 128)) (by omega)
      refine ⟨char, ?_⟩
      rw [utf8EncodeChar, hc, if_neg (by omega), if_neg (by omega), if_pos (by omega), @hby _ first (by omega),
        @hby _ b (by omega), @hby _ c (by omega)]
  | [b, c, d], h =>
    simp only [map_cons, map_nil, Follow, validSecond, isContinuation] at h
    split_ifs at h
    all_goals
      obtain ⟨char, hc⟩ := @exists_char ((first.toNat - 240) * 262144 + (b.toNat - 128) * 4096 + (c.toNat - 128) * 64
        + (d.toNat - 128)) (by omega)
      refine ⟨char, ?_⟩
      rw [utf8EncodeChar, hc, if_neg (by omega), if_neg (by omega), if_neg (by omega), @hby _ first (by omega),
        @hby _ b (by omega), @hby _ c (by omega), @hby _ d (by omega)]

/-! ## A whole text -/

/-- A text of characters begins with the bytes of one. -/
theorem following_chars {first : UInt8} {rest : Bytes} {cs : List Char} (h : first :: rest = cs.flatMap utf8EncodeChar) :
    ∃ count, ∃ cs' : List Char, following first.toNat (rest.map UInt8.toNat) = some (some count) ∧
      rest.drop count = cs'.flatMap utf8EncodeChar := by
  match cs with
  | [] => cases h
  | c :: cs =>
    obtain ⟨_, others, hc, hfo⟩ := follow_encoded c
    rw [flatMap_cons, hc, cons_append] at h
    cases h
    refine ⟨others.length, cs, ?_, by simp⟩
    rw [map_append, following_of_follow hfo, List.length_map]

/-- The loop answers, and its answer is right. -/
theorem validate_eq (bytes : Bytes) : ∃ answer, validate bytes = some answer ∧
    (answer = true ↔ ∃ cs : List Char, bytes = cs.flatMap utf8EncodeChar) := by
  -- By strong induction on the length: a character takes at least its first byte away.
  induction hl : bytes.length using Nat.strong_induction_on generalizing bytes with
  | _ n ih =>
  match bytes with
  | [] => exact ⟨true, by rw [validate], fun _ => ⟨[], rfl⟩, fun _ => rfl⟩
  | first :: rest =>
    rw [validate]
    rcases following_cases first.toNat (rest.map UInt8.toNat) with h | ⟨others, _, hr, hfo, h⟩
    · refine ⟨false, by rw [h], ⟨Bool.noConfusion, fun ⟨cs, hcs⟩ => ?_⟩⟩
      obtain ⟨_, _, hco, -⟩ := following_chars hcs
      rw [h] at hco
      cases hco
    · obtain ⟨answer, han, hi⟩ := ih (rest.drop others.length).length (by simp at hl ⊢; omega) _ rfl
      refine ⟨answer, by rw [h]; exact han, hi.trans ⟨fun ⟨cs, hcs⟩ => ?_, fun ⟨cs, hcs⟩ => ?_⟩⟩
      · have ho : others = (rest.take others.length).map UInt8.toNat := by rw [map_take, hr, take_left]
        rw [ho] at hfo
        obtain ⟨c, hc⟩ := encoded_of_follow hfo
        exact ⟨c :: cs, by rw [flatMap_cons, hc, ← hcs, cons_append, take_append_drop]⟩
      · obtain ⟨_, cs', hco, hd⟩ := following_chars hcs
        rw [h] at hco
        cases hco
        exact ⟨cs', hd⟩

/-- **UTF-8 validation is exact.** -/
theorem is_valid_utf8_exact (bytes : Bytes) : jsonIsValidUtf8 bytes = isValidUtf8 bytes ∧
    ∃ answer, isValidUtf8 bytes = some answer ∧
      (answer = true ↔ ∃ cs : List Char, bytes = cs.flatMap utf8EncodeChar) :=
  ⟨rfl, validate_eq bytes⟩

end Jobu.Utf8
