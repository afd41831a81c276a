import Jobu.Capture
import Jobu.Rpc.Framing
import Jobu.Lib.Text

/-!
# The header block of a response

`header_callback` of `curl_request_priv.cpp`: libcurl hands over the lines of every block of a leg, informational
ones, the final one and trailers, one at a time.  `Takes` says what a line that is accepted does to the open block
and the retained one; `completeBlocks` reads the blocks off the whole sequence.
-/

namespace Jobu.Http

open Lib List Capture
open Rpc (byte text isOws trimOws isTokenCharacter isFieldValueCharacter)

structure HttpHeader where
  name : Bytes
  value : Bytes
  sensitive : Bool := false

structure ParsedHeaderBlock where
  statusCode : Nat
  headers : List HttpHeader
  rawHeaders : Captured

inductive HeaderState where
  | awaitingStatus | fields | complete
deriving DecidableEq

/-- The part of `CurlRequest` that the header callback works on. -/
structure Response where
  parsedBytes : Nat := 0
  rawCapture : Buffer
  currentStatus : Option Nat := none
  currentHeaders : List HttpHeader := []
  finalBlock : Option ParsedHeaderBlock := none
  callbackError : Option Error := none
  failedWithoutError : Bool := false
  state : HeaderState := .awaitingStatus

def requestProtocolError (detail : String) : Error :=
  { category := .io, code := "net.http.protocol_error", message := "The HTTP response was not usable", detail }

def isStatusLine (content : Bytes) : Bool := (text "HTTP/").isPrefixOf content

def parseStatusCode (line : Bytes) : Except Error Nat :=
  match cut (byte ' ') line with
  | (version, some (a :: b :: c :: rest)) =>
    if isStatusLine line = false ∨ version.length ≤ 5 ∨
      [a, b, c].all (fun digit => byte '0' ≤ digit && digit ≤ byte '9') = false ∨
      rest.head?.all isOws = false then
      .error (requestProtocolError "response.invalid_status_line")
    else
      let value := (a - byte '0').toNat * 100 + (b - byte '0').toNat * 10 + (c - byte '0').toNat
      if value < 100 ∨ 599 < value then .error (requestProtocolError "response.invalid_status_code") else .ok value
  | _ => .error (requestProtocolError "response.invalid_status_line")

/-- What a callback leaves, and how it fails if it does. -/
abbrev Outcome := Response × Option Error

def reject (r : Response) (reason : String) : Outcome := (r, some (requestProtocolError reason))

/-- `complete_header_block`. -/
def completeHeaderBlock (r : Response) : Outcome :=
  match r.currentStatus with
  | none => reject r "response.header_without_status"
  | some status =>
    let raw := Capture.take r.rawCapture
    ({ r with
      rawCapture := raw.2, currentHeaders := [], currentStatus := none, state := .complete
      finalBlock := if status < 100 ∨ 200 ≤ status then some ⟨status, r.currentHeaders, raw.1⟩ else r.finalBlock },
      none)

/-- A line of a block that has its status. -/
def appendField (content : Bytes) (r : Response) : Outcome :=
  if content = [] then completeHeaderBlock r
  else if content.head?.any isOws then reject r "response.obsolete_header_folding"
  else
    match cut (byte ':') content with
    | (name, some rest) =>
      if name = [] ∨ name.all isTokenCharacter = false then reject r "response.invalid_header_name"
      else if (trimOws rest).all isFieldValueCharacter = false then reject r "response.invalid_header_value"
      else ({ r with currentHeaders := r.currentHeaders ++ [⟨name, trimOws rest, false⟩] }, none)
    | _ => reject r "response.invalid_header_name"

/-- The line is captured before `next` goes on. -/
def captureRaw (r : Response) (line : Delivery) (next : Response → Outcome) : Outcome :=
  match httpAppend r.rawCapture (some line.bytes) line.elementSize line.elementCount with
  | .error error => (r, some error)
  | .ok rawCapture => next { r with rawCapture }

def content (line : Delivery) : Bytes := line.bytes.take (line.bytes.length - 2)

/-- `append_header` once the line has been counted. -/
def appendLine (line : Delivery) (r : Response) : Outcome :=
  if line.bytes.length < 2 ∨ (text "\r\n").isSuffixOf line.bytes = false then reject r "response.invalid_header_line"
  else if isStatusLine (content line) then
    if r.state = .fields then reject r "response.incomplete_header_block"
    else
      match parseStatusCode (content line) with
      | .error error => (r, some error)
      | .ok status =>
        captureRaw { r with
          rawCapture := (Capture.take r.rawCapture).2, currentHeaders := [], currentStatus := some status
          state := .fields } line fun r => (r, none)
  -- a trailer
  else if r.state = .complete then (r, none)
  else if r.state ≠ .fields ∨ r.currentStatus = none then reject r "response.header_without_status"
  else captureRaw r line (appendField (content line))

variable (maximum : Nat)

/-- `append_header`. -/
def appendHeader (line : Delivery) (r : Response) : Outcome :=
  match checkedCaptureAppendSize r.parsedBytes line.elementSize line.elementCount with
  | .error error => (r, some error)
  | .ok byteCount =>
    if maximum < r.parsedBytes ∨ maximum - r.parsedBytes < byteCount then reject r "response.headers_too_large"
    else appendLine line { r with parsedBytes := r.parsedBytes + byteCount }

def Response.failed (r : Response) : Bool := r.callbackError.isSome || r.failedWithoutError

/-- `header_callback`; `none` is an exception. -/
def headerCallback (r : Response) (line : Option Delivery) : Response :=
  if r.failed then r
  else
    match line with
    | none => { r with failedWithoutError := true }
    | some line =>
      match appendHeader maximum line r with
      | (r, none) => r
      | (r, some error) => { r with callbackError := some error }

/-! ## The blocks of a sequence -/

abbrev Block := Nat × List (Bytes × Bytes)

def fieldOf (line : Bytes) : Bytes × Bytes :=
  ((cut (byte ':') line).1, trimOws ((cut (byte ':') line).2.getD []))

/-- The lines up to the empty one that closes a block. -/
def closed : List Bytes → Option (List Bytes)
  | [] => none
  | line :: rest =>
    if line = [] then some [] else if isStatusLine line then none else (closed rest).map (line :: ·)

/-- A block goes from a status line to the next empty line. -/
def completeBlocks : List Bytes → List Block
  | [] => []
  | line :: rest =>
    (match isStatusLine line, parseStatusCode line, closed rest with
      | true, .ok status, some fields => [(status, fields.map fieldOf)]
      | _, _, _ => []) ++ completeBlocks rest

def isFinal (block : Block) : Bool := block.1 < 100 || 200 ≤ block.1

/-- The open block and the retained one. -/
structure Leg where
  current : Option Block
  final : Option Block

def pairs (headers : List HttpHeader) : List (Bytes × Bytes) := headers.map fun header => (header.name, header.value)

def Response.leg (r : Response) : Leg where
  current := if r.state = .fields then r.currentStatus.map (·, pairs r.currentHeaders) else none
  final := r.finalBlock.map fun block => (block.statusCode, pairs block.headers)

inductive Takes : Leg → Bytes → Leg → Prop
  | status {line status final} (starts : isStatusLine line = true) (code : parseStatusCode line = .ok status) :
    Takes ⟨none, final⟩ line ⟨some (status, []), final⟩
  | trailer {line final} (other : isStatusLine line = false) : Takes ⟨none, final⟩ line ⟨none, final⟩
  | field {line status fields final} (other : isStatusLine line = false) (ne : line ≠ []) :
    Takes ⟨some (status, fields), final⟩ line ⟨some (status, fields ++ [fieldOf line]), final⟩
  | close {block final} : Takes ⟨some block, final⟩ [] ⟨none, if isFinal block then some block else final⟩

/-! ## One line -/

variable {maximum} {r r' : Response} {line : Delivery}

theorem appendField_takes (hst : r.state = .fields) {status : Nat} (hsta : r.currentStatus = some status)
    {bytes : Bytes} (ho : isStatusLine bytes = false) (h : appendField bytes r = (r', none)) :
    Takes r.leg bytes r'.leg := by
  have hl : r.leg = ⟨some (status, pairs r.currentHeaders), r.leg.final⟩ := by simp [Response.leg, hst, hsta]
  unfold appendField at h
  split at h
  · next he =>
    simp only [completeHeaderBlock, hsta, Prod.mk.injEq, and_true] at h
    subst h he
    rw [hl]
    convert Takes.close using 2
    · simp [Response.leg]
    · by_cases hfi : status < 100 ∨ 200 ≤ status <;> simp [Response.leg, isFinal, hfi]
  next hn =>
  split at h
  · cases h
  split at h
  · next name rest hc =>
    split at h
    · cases h
    split at h
    · cases h
    cases h
    have hfie : fieldOf bytes = (name, trimOws rest) := by simp [fieldOf, hc]
    rw [hl]
    convert Takes.field ho hn using 2
    · simp [Response.leg, hst, hsta, pairs, hfie]
    · rfl
  · cases h

theorem appendLine_takes (h : appendLine line r = (r', none)) : Takes r.leg (content line) r'.leg := by
  unfold appendLine at h
  split at h
  · cases h
  split at h
  · next hsta =>
    split at h
    · cases h
    next hst =>
    split at h
    · cases h
    next _ hc =>
    unfold captureRaw at h
    split at h
    · cases h
    cases h
    simpa [Response.leg, hst, pairs] using Takes.status hsta hc
  next ho =>
  split at h
  · next hst =>
    cases h
    simpa [Response.leg, hst] using Takes.trailer (Bool.eq_false_iff.2 ho)
  split at h
  · cases h
  next hfi =>
  obtain ⟨hst, hso⟩ := not_or.1 hfi
  obtain ⟨_, hstat⟩ := Option.ne_none_iff_exists'.1 hso
  unfold captureRaw at h
  split at h
  · cases h
  next rawCapture _ =>
  exact appendField_takes (r := { r with rawCapture }) (not_not.1 hst) hstat (Bool.eq_false_iff.2 ho) h

theorem appendLine_bytes (line : Delivery) (r : Response) : (appendLine line r).1.parsedBytes = r.parsedBytes := by
  unfold appendLine captureRaw appendField completeHeaderBlock
  repeat' split
  all_goals rfl

theorem appendHeader_takes (h : appendHeader maximum line r = (r', none)) : Takes r.leg (content line) r'.leg := by
  unfold appendHeader at h
  split at h
  · cases h
  split at h
  · cases h
  have hta := appendLine_takes h
  exact hta

theorem headerCallback_bytes (call : Option Delivery) (h : r.parsedBytes ≤ maximum) :
    (headerCallback maximum r call).parsedBytes ≤ maximum := by
  unfold headerCallback
  split
  · exact h
  cases call with
  | none => exact h
  | some line =>
    have hc : (appendHeader maximum line r).1.parsedBytes ≤ maximum := by
      unfold appendHeader
      split
      · exact h
      split
      · exact h
      rw [appendLine_bytes]
      dsimp only
      omega
    rcases ho : appendHeader maximum line r with ⟨_, _ | _⟩ <;> simpa only [ho] using hc

theorem headerCallback_takes {call : Option Delivery} (h : (headerCallback maximum r call).failed = false) :
    ∃ line, call = some line ∧ Takes r.leg (content line) (headerCallback maximum r call).leg := by
  unfold headerCallback at h ⊢
  split at h
  · next hfa => exact absurd hfa (by simp [h])
  next hfa =>
  rw [if_neg hfa]
  cases call with
  | none => simp [Response.failed] at h
  | some line =>
    refine ⟨line, rfl, ?_⟩
    rcases ho : appendHeader maximum line r with ⟨_, _ | _⟩
    · simpa only [ho] using appendHeader_takes ho
    · simp [ho, Response.failed] at h

/-! ## A whole leg -/

/-- The open block, if the lines close it. -/
def openBlock (leg : Leg) (lines : List Bytes) : List Block :=
  match leg.current, closed lines with
  | some (status, fields), some more => [(status, fields ++ more.map fieldOf)]
  | _, _ => []

/-- The last final block among the open one and those of the lines, or else the retained one. -/
def lastFinal (leg : Leg) (lines : List Bytes) : Option Block :=
  ((openBlock leg lines ++ completeBlocks lines).filter isFinal).getLast?.or leg.final

theorem Takes.lastFinal_eq {leg leg' : Leg} {line : Bytes} (h : Takes leg line leg') (lines : List Bytes) :
    lastFinal leg (line :: lines) = lastFinal leg' lines := by
  cases h with
  | status starts code => cases hc : closed lines <;> simp [lastFinal, openBlock, completeBlocks, starts, code, hc]
  | trailer other => simp [lastFinal, openBlock, completeBlocks, other]
  | field other ne => cases hc : closed lines <;> simp [lastFinal, openBlock, completeBlocks, closed, other, ne, hc]
  | @close block final =>
    have ho : isStatusLine [] = false := by decide
    cases hfi : isFinal block <;>
      simp [lastFinal, openBlock, completeBlocks, closed, ho, hfi, List.getLast?_cons]

/-- After an error no line changes anything. -/
theorem foldl_failed (h : r.failed = true) (calls : List (Option Delivery)) :
    calls.foldl (headerCallback maximum) r = r := by
  induction calls with
  | nil => rfl
  | cons call _ ih =>
    rw [foldl_cons, show headerCallback maximum r call = r from if_pos h, ih]

theorem foldl_bytes (calls : List (Option Delivery)) (h : r.parsedBytes ≤ maximum) :
    (calls.foldl (headerCallback maximum) r).parsedBytes ≤ maximum := by
  induction calls generalizing r with
  | nil => exact h
  | cons call _ ih => exact ih (headerCallback_bytes call h)

theorem foldl_final (calls : List (Option Delivery)) (h : (calls.foldl (headerCallback maximum) r).failed = false) :
    (calls.foldl (headerCallback maximum) r).leg.final
      = lastFinal r.leg (calls.filterMap fun call => call.map content) := by
  induction calls generalizing r with
  | nil => cases hc : r.leg.current <;> simp [lastFinal, openBlock, completeBlocks, closed, hc]
  | cons call _ ih =>
    rw [foldl_cons] at h ⊢
    -- had this line failed, so would the whole leg
    have hl : (headerCallback maximum r call).failed = false := by
      by_contra hfa
      rw [Bool.not_eq_false] at hfa
      rw [foldl_failed hfa, hfa] at h
      cases h
    obtain ⟨_, rfl, hta⟩ := headerCallback_takes hl
    rw [ih h, ← hta.lastFinal_eq]
    rfl

/-- **The final response block is the right one.** -/
theorem final_block_is_last (maximum rawLimit : Nat) (calls : List (Option Delivery)) :
    let run := fun calls => calls.foldl (headerCallback maximum) { rawCapture := { limit := rawLimit } }
    ((run calls).failed = false → (run calls).leg.final
      = ((completeBlocks (calls.filterMap fun call => call.map content)).filter isFinal).getLast?) ∧
    (run calls).parsedBytes ≤ maximum ∧ ((run calls).failed = true → ∀ more, run (calls ++ more) = run calls) := by
  intro run
  refine ⟨fun h => ?_, foldl_bytes calls (Nat.zero_le _), fun h more => ?_⟩
  · refine (foldl_final calls h).trans ?_
    simp [lastFinal, openBlock, Response.leg]
  · exact foldl_append.trans (foldl_failed h more)

end Jobu.Http
