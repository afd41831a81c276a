import Mathlib.Data.List.DropRight
import Mathlib.Data.Nat.Digits.Defs
import Jobu.Domain

/-!
# Message framing

`framing.cpp`: messages of opaque bytes in a byte stream, each behind a header with its length.  The
framer keeps what is incomplete between fragments, within its limits, and stops for good at the first
byte that breaks the framing.

  > `StreamFramer`: the state of the framer, which cannot hold more than its limits.
  > `StreamFramer.append`: one fragment, as the source reads it: headers byte by byte, bodies in pieces.
  > `frameMessage`: the encoder.

A string of the source is its bytes, and a position in a string is the rest of it from there.
-/

namespace Jobu.Rpc

open List

abbrev Bytes := List UInt8

def byte (c : Char) : UInt8 := c.toNat.toUInt8

/-- The bytes of an ASCII literal. -/
def text (s : String) : Bytes := s.toList.map byte

/-- The largest `std::size_t`. -/
def maximumSize : Nat := 2 ^ 64 - 1

/-- `FramingLimits`, in sizes that a `std::size_t` holds. -/
structure FramingLimits where
  maxHeaderBytes : Nat := 16 * 1024
  maxBodyBytes : Nat := 1024 * 1024
  header_le : maxHeaderBytes ≤ maximumSize := by decide
  body_le : maxBodyBytes ≤ maximumSize := by decide

inductive FramingFailure where
  | headerTooLarge
  | invalidHeader
  | missingContentLength
  | duplicateContentLength
  | invalidContentLength
  | bodyTooLarge
  | unsupportedContentType
deriving DecidableEq, Repr

/-- `make_framing_error`. -/
def makeFramingError : FramingFailure → Error
  | .headerTooLarge =>
    { category := .resourceExhausted, code := "rpc.framing.header_too_large",
      message := "Framing header exceeds the configured limit" }
  | .invalidHeader =>
    { category := .invalidArgument, code := "rpc.framing.invalid_header", message := "Framing header is invalid" }
  | .missingContentLength =>
    { category := .invalidArgument, code := "rpc.framing.missing_content_length",
      message := "Framing header requires Content-Length" }
  | .duplicateContentLength =>
    { category := .invalidArgument, code := "rpc.framing.duplicate_content_length",
      message := "Framing header contains duplicate Content-Length fields" }
  | .invalidContentLength =>
    { category := .invalidArgument, code := "rpc.framing.invalid_content_length",
      message := "Framing Content-Length is invalid" }
  | .bodyTooLarge =>
    { category := .resourceExhausted, code := "rpc.framing.body_too_large",
      message := "Framing body exceeds the configured limit" }
  | .unsupportedContentType =>
    { category := .unsupported, code := "rpc.framing.unsupported_content_type",
      message := "Framing Content-Type must specify UTF-8" }

/-! ## Characters -/

def isOws (value : UInt8) : Bool := value == byte ' ' || value == byte '\t'

def trimOws (value : Bytes) : Bytes := (value.dropWhile isOws).rdropWhile isOws

def isTokenCharacter (value : UInt8) : Bool :=
  (byte '0' ≤ value && value ≤ byte '9') || (byte 'A' ≤ value && value ≤ byte 'Z') ||
    (byte 'a' ≤ value && value ≤ byte 'z') || (text "!#$%&\x27*+-.^_\x60|~").contains value

def isFieldValueCharacter (value : UInt8) : Bool :=
  value == byte '\t' || (0x20 ≤ value && value != 0x7f)

def lower (value : UInt8) : UInt8 :=
  if byte 'A' ≤ value ∧ value ≤ byte 'Z' then value + (byte 'a' - byte 'A') else value

def asciiEqual (lhs rhs : Bytes) : Bool := lhs.map lower == rhs.map lower

/-! ## Header fields -/

/-- The loop of `parse_content_length`. -/
def parseDigits (length : Nat) : Bytes → Except FramingFailure Nat
  | [] => .ok length
  | character :: rest =>
    if character < byte '0' ∨ byte '9' < character then .error .invalidContentLength
    else
      let digit := (character - byte '0').toNat
      if (maximumSize - digit) / 10 < length then .error .invalidContentLength
      else parseDigits (length * 10 + digit) rest

def parseContentLength (value : Bytes) : Except FramingFailure Nat :=
  if trimOws value = [] then .error .invalidContentLength else parseDigits 0 (trimOws value)

/-- `ContentTypeParser::Status`. -/
inductive ContentTypeStatus where
  | supported
  | invalid
  | unsupported
deriving DecidableEq, Repr

namespace ContentTypeParser

def skipOws (value : Bytes) : Bytes := value.dropWhile isOws

def consume (expected : Char) : Bytes → Option Bytes
  | [] => none
  | character :: rest => if character = byte expected then some rest else none

/-- The token and what follows it. -/
def parseToken (value : Bytes) : Option (Bytes × Bytes) :=
  if value.takeWhile isTokenCharacter = [] then none
  else some (value.takeWhile isTokenCharacter, value.dropWhile isTokenCharacter)

/-- The loop over a quoted value. -/
def parseQuoted (result : Bytes) : Bytes → Option (Bytes × Bytes)
  | [] => none
  | character :: rest =>
    if character = byte '\x22' then some (result, rest)
    else if character = byte '\\' then
      match rest with
      | [] => none
      | escaped :: rest =>
        if isFieldValueCharacter escaped then parseQuoted (result ++ [escaped]) rest else none
    else if isFieldValueCharacter character then parseQuoted (result ++ [character]) rest
    else none

def parseParameterValue : Bytes → Option (Bytes × Bytes)
  | [] => none
  | character :: rest =>
    if character = byte '\x22' then parseQuoted [] rest else parseToken (character :: rest)

/-- The body of the loop over parameters: a name, its value and what follows. -/
def parseParameter (value : Bytes) : Option (Bytes × Bytes × Bytes) := do
  let value ← consume ';' value
  let (name, value) ← parseToken (skipOws value)
  let value ← consume '=' (skipOws value)
  let (parameter, value) ← parseParameterValue (skipOws value)
  pure (name, parameter, skipOws value)

variable {value rest : Bytes}

theorem consume_length {expected : Char} (h : consume expected value = some rest) : rest.length < value.length := by
  cases value with
  | nil => cases h
  | cons =>
    rw [consume] at h
    split at h
    · cases h
      exact Nat.lt_succ_self _
    · cases h

theorem dropWhile_length (p : UInt8 → Bool) (value : Bytes) : (value.dropWhile p).length ≤ value.length :=
  (dropWhile_sublist p).length_le

theorem parseToken_length {token : Bytes} (h : parseToken value = some (token, rest)) : rest.length ≤ value.length := by
  unfold parseToken at h
  split at h
  · cases h
  · cases h
    exact dropWhile_length _ _

variable {parameter : Bytes}

theorem parseQuoted_length {result : Bytes}
    (h : parseQuoted result value = some (parameter, rest)) : rest.length ≤ value.length := by
  fun_induction parseQuoted result value with
  | case1 | case3 | case5 | case7 => cases h
  | case2 => grind
  | case4 _ _ _ _ _ ih =>
    have := ih h
    simp only [length_cons]
    omega
  | case6 _ _ _ _ _ _ ih =>
    have := ih h
    simp only [length_cons]
    omega

theorem parseParameterValue_length
    (h : parseParameterValue value = some (parameter, rest)) : rest.length ≤ value.length := by
  cases value with
  | nil => cases h
  | cons =>
    rw [parseParameterValue] at h
    split at h
    · have := parseQuoted_length h
      simp only [length_cons]
      omega
    · exact parseToken_length h

/-- Every parameter takes something off the value. -/
theorem parseParameter_length {name : Bytes}
    (h : parseParameter value = some (name, parameter, rest)) : rest.length < value.length := by
  simp only [parseParameter, Option.bind_eq_bind, Option.bind_eq_some_iff, Prod.exists] at h
  obtain ⟨_, h₁, token, _, h₂, _, h₃, p, v4, h₄, h⟩ := h
  obtain ⟨-, -, rfl⟩ : token = name ∧ p = parameter ∧ skipOws v4 = rest := by
    simpa using h
  have h₁ := consume_length h₁
  have h₂ := (parseToken_length h₂).trans (dropWhile_length _ _)
  have h₃ := (consume_length h₃).trans_le (dropWhile_length _ _)
  have h₄ := (parseParameterValue_length h₄).trans (dropWhile_length _ _)
  have := dropWhile_length isOws v4
  unfold skipOws
  omega

/-- The loop over parameters. -/
def parseParameters (charsetSeen charsetSupported : Bool) (value : Bytes) : ContentTypeStatus :=
  if value = [] then
    if charsetSeen && charsetSupported then .supported else .unsupported
  else
    match _h : parseParameter value with
    | none => .invalid
    | some (name, parameter, rest) =>
      if asciiEqual name (text "charset") then
        if charsetSeen then .unsupported
        else parseParameters true
          (asciiEqual parameter (text "utf-8") || asciiEqual parameter (text "utf8")) rest
      else parseParameters charsetSeen charsetSupported rest
termination_by value.length
decreasing_by all_goals exact parseParameter_length ‹_›

def parse (value : Bytes) : ContentTypeStatus :=
  let parsed := do
    let (_, value) ← parseToken (trimOws value)
    let value ← consume '/' value
    let (_, value) ← parseToken value
    pure value
  match parsed with
  | none => .invalid
  | some value => parseParameters false false (skipOws value)

end ContentTypeParser

/-! ## Headers -/

/-- A line up to its end and what follows it. -/
def splitLine : Bytes → Bytes × Bytes
  | [] => ([], [])
  | character :: rest =>
    if character = byte '\r' ∧ rest.head? = some (byte '\n') then ([], rest.tail)
    else (character :: (splitLine rest).1, (splitLine rest).2)

theorem splitLine_length (remaining : Bytes) : (splitLine remaining).2.length ≤ remaining.length - 1 := by
  induction remaining with
  | nil => exact Nat.le_refl _
  | cons _ _ ih =>
    unfold splitLine
    split
    · rw [length_tail, length_cons]
      omega
    · rw [length_cons]
      exact ih.trans (by omega)

/-- The fields of a header that are looked at. -/
structure HeaderFields where
  contentLength : Option Bytes := none
  contentType : Option Bytes := none

/-- The body of the loop over lines. -/
def parseLine (fields : HeaderFields) (line : Bytes) : Except FramingFailure HeaderFields :=
  let name := line.takeWhile (· ≠ byte ':')
  let value := (line.dropWhile (· ≠ byte ':')).drop 1
  if byte ':' ∉ line ∨ name = [] then .error .invalidHeader
  else if ¬ name.all isTokenCharacter ∨ ¬ value.all isFieldValueCharacter then .error .invalidHeader
  else if asciiEqual name (text "Content-Length") then
    if fields.contentLength.isSome then .error .duplicateContentLength
    else .ok { fields with contentLength := some value }
  else if asciiEqual name (text "Content-Type") then
    if fields.contentType.isSome then .error .invalidHeader
    else .ok { fields with contentType := some value }
  else .ok fields

def parseLines (fields : HeaderFields) (remaining : Bytes) : Except FramingFailure HeaderFields :=
  if remaining = [] then .ok fields
  else
    match parseLine fields (splitLine remaining).1 with
    | .error failure => .error failure
    | .ok fields => parseLines fields (splitLine remaining).2
termination_by remaining.length
decreasing_by
  have := splitLine_length remaining
  have : remaining.length ≠ 0 := by simpa using ‹remaining ≠ []›
  omega

/-- `parse_header`: the length of the body that follows. -/
def parseHeader (header : Bytes) (limits : FramingLimits) : Except FramingFailure Nat := do
  let fields ← parseLines {} (header.take (header.length - 4))
  let value ← fields.contentLength.elim (.error .missingContentLength) .ok
  let length ← parseContentLength value
  if limits.maxBodyBytes < length then .error .bodyTooLarge
  else
    match fields.contentType.map ContentTypeParser.parse with
    | some .invalid => .error .invalidHeader
    | some .unsupported => .error .unsupportedContentType
    | some .supported | none => .ok length

def hasHeaderTerminator (header : Bytes) : Bool := (text "\r\n\r\n").isSuffixOf header

theorem parseHeader_le {header : Bytes} {limits : FramingLimits} {length : Nat}
    (h : parseHeader header limits = .ok length) : length ≤ limits.maxBodyBytes := by
  simp only [parseHeader, bind, Except.bind] at h
  split at h
  · cases h
  split at h
  · cases h
  split at h
  · cases h
  split at h
  · cases h
  split at h
  · cases h
  · cases h
  · cases h
    omega
  · cases h
    omega

/-! ## The framer -/

/-- `StreamFramer::Private`, with the members that mean something in each of its states. -/
inductive StreamFramer (limits : FramingLimits) where
  /-- Within a header, or between frames. -/
  | header (bytes : Bytes) (fits : bytes.length ≤ limits.maxHeaderBytes)
  /-- Within a body of this length. -/
  | body (expected : Nat) (bytes : Bytes) (short : bytes.length < expected)
      (fits : expected ≤ limits.maxBodyBytes)
  /-- Poisoned. -/
  | failed (error : Error)

namespace StreamFramer

variable {limits : FramingLimits}

/-- A new framer, and one after `reset`. -/
def fresh (limits : FramingLimits) : StreamFramer limits := .header [] (Nat.zero_le _)

/-- `buffered_bytes`. -/
def bufferedBytes : StreamFramer limits → Nat
  | .header bytes _ => bytes.length
  | .body _ bytes _ _ => bytes.length
  | .failed _ => 0

/-- The error of a poisoned framer. -/
def failure : StreamFramer limits → Option Error
  | .failed error => some error
  | _ => none

/-- `poison`. -/
def poison (failure : FramingFailure) : Except Error (List Bytes) × StreamFramer limits :=
  (.error (makeFramingError failure), .failed (makeFramingError failure))

/-- The byte leaves a carriage return alone, or is a line feed without one. -/
def breaksLine (header : Bytes) (character : UInt8) : Bool :=
  (header.getLast? == some (byte '\r') && character != byte '\n') ||
    (character == byte '\n' && header.getLast? != some (byte '\r'))

/-- The loop of `append`, with the messages found so far. -/
def appendLoop (framer : StreamFramer limits) (messages : List Bytes) (bytes : Bytes) :
    Except Error (List Bytes) × StreamFramer limits :=
  match bytes with
  | [] => (.ok messages, framer)
  | character :: rest =>
    match framer with
    | .failed error => (.error error, .failed error)
    | .header received _ =>
      if room : limits.maxHeaderBytes ≤ received.length then poison .headerTooLarge
      else if breaksLine received character then poison .invalidHeader
      else if hasHeaderTerminator (received ++ [character]) = false then
        appendLoop (.header (received ++ [character]) (by rw [List.length_append]; simp; omega))
          messages rest
      else
        match parsed : parseHeader (received ++ [character]) limits with
        | .error failure => poison failure
        | .ok 0 => appendLoop (fresh limits) (messages ++ [[]]) rest
        | .ok (length + 1) =>
          appendLoop (.body (length + 1) [] (Nat.succ_pos _) (parseHeader_le parsed)) messages rest
    | .body expected received short fits =>
      let count := min (expected - received.length) (rest.length + 1)
      let collected := received ++ (character :: rest).take count
      if complete : collected.length = expected then
        appendLoop (fresh limits) (messages ++ [collected]) ((character :: rest).drop count)
      else
        appendLoop (.body expected collected (by simp [collected, count] at complete ⊢; omega) fits)
          messages ((character :: rest).drop count)
termination_by bytes.length
decreasing_by
  all_goals simp only [List.length_cons, List.length_drop]
  all_goals omega

/-- `append`: the messages that the fragment completes. -/
def append (framer : StreamFramer limits) (bytes : Bytes) : Except Error (List Bytes) × StreamFramer limits :=
  match framer with
  | .failed error => (.error error, .failed error)
  | framer => appendLoop framer [] bytes

/-- One fragment after the other, with the answer of each call. -/
def appendAll (framer : StreamFramer limits) : List Bytes → List (Except Error (List Bytes)) × StreamFramer limits
  | [] => ([], framer)
  | fragment :: rest =>
    let next := framer.append fragment
    let last := appendAll next.2 rest
    (next.1 :: last.1, last.2)

end StreamFramer

/-! ## The encoder -/

/-- `std::to_string`. -/
def decimal (n : Nat) : Bytes :=
  if n = 0 then [byte '0'] else (Nat.digits 10 n).reverse.map fun digit => byte '0' + digit.toUInt8

def frameMessage (body : Bytes) (limits : FramingLimits) : Except Error Bytes :=
  if limits.maxBodyBytes < body.length then .error (makeFramingError .bodyTooLarge)
  else
    let header := text "Content-Length: " ++ decimal body.length ++ text "\r\n\r\n"
    if limits.maxHeaderBytes < header.length then .error (makeFramingError .headerTooLarge)
    else .ok (header ++ body)

end Jobu.Rpc
