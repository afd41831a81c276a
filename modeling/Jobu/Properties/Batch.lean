import Mathlib.Data.List.Forall2
import Jobu.Rpc.Server

/-!
# Complete answers to batches

The server sizes an error for every entry that gets an answer before it runs a handler, and puts these
errors in the place of the answers when the answers do not fit.  That works because the two lists
match entry by entry (`dispatchEntries_live`), and because an identifier that can be written in the
error can be written in the answer (`envelope_isSome`).

  > `batch_answered_completely`: a batch is refused as a whole, or every entry is handled and answered.
-/

namespace Jobu.Rpc

open List

variable {remaining : Nat} {responses : List JsonValue} {entries : List RequestEntry}

/-! ## What fits -/

/-- The bytes of some texts in an array, the first of them with or without a comma. -/
def occupied (first : Bool) : List Bytes → Nat
  | [] => 0
  | item :: rest =>
    (if first then 0 else 1) + item.length + (rest.map fun item => 1 + item.length).sum

variable {first : Bool}

/-- The first response has a text, and the rest fits beside it. -/
theorem fitsRemaining_cons {response : JsonValue}
    {rest : List JsonValue} (h : fitsRemaining first remaining (response :: rest) = true) :
    ∃ serialized, serializeJson response = some serialized ∧ (if first then 0 else 1) + serialized.length ≤ remaining ∧
      fitsRemaining false (remaining - ((if first then 0 else 1) + serialized.length)) rest = true := by
  rw [fitsRemaining] at h
  cases hse : serializeJson response with
  | none =>
    rw [hse] at h
    cases h
  | some serialized =>
    rw [hse] at h
    by_cases hr : remaining < (if first then 0 else 1) ∨
        remaining - (if first then 0 else 1) < serialized.length
    · simp only [if_pos hr] at h
      cases h
    · simp only [if_neg hr] at h
      exact ⟨serialized, rfl, by omega, h⟩

theorem fitsRemaining_texts (h : fitsRemaining first remaining responses = true) :
    ∃ texts, serializeItems responses = some texts ∧ occupied first texts ≤ remaining := by
  induction responses generalizing first remaining with
  | nil => exact ⟨[], rfl, Nat.zero_le _⟩
  | cons _ _ ih =>
    obtain ⟨serialized, hse, _, hfi⟩ := fitsRemaining_cons h
    obtain ⟨texts, hte, _⟩ := ih hfi
    refine ⟨serialized :: texts, by simp [serializeItems, hse, hte], ?_⟩
    have hr : (texts.map fun item => 1 + item.length).sum = occupied false texts := by
      cases texts <;> simp [occupied]
    rw [occupied, hr]
    omega

variable {limit : Nat}

/-- **A batch that fits is written within the limit.** -/
theorem batchFitsBody_array (h : batchFitsBody responses limit = true) :
    ∃ serialized, serializeJson (.array responses) = some serialized ∧ serialized.length ≤ limit := by
  unfold batchFitsBody at h
  split at h
  · cases h
  rename_i hl
  obtain ⟨texts, hte, _⟩ := fitsRemaining_texts h
  have hc : (commaSeparated texts).length = occupied true texts := by
    cases texts with
    | nil => rfl
    | cons => rw [commaSeparated_length, occupied, if_pos rfl, Nat.zero_add]
  refine ⟨byte '[' :: commaSeparated texts ++ [byte ']'], by simp [serializeJson, hte], ?_⟩
  rw [cons_append, length_cons, length_append, hc, length_singleton]
  omega

theorem fitsRemaining_isSome (h : fitsRemaining first remaining responses = true) :
    ∀ response ∈ responses, (serializeJson response).isSome := by
  induction responses generalizing first remaining with
  | nil =>
    intro _ hm
    cases hm
  | cons _ _ ih =>
    obtain ⟨_, hse, -, hfi⟩ := fitsRemaining_cons h
    rw [forall_mem_cons, hse]
    exact ⟨rfl, ih hfi⟩

/-- An identifier that is written in an error can be written beside a result. -/
theorem envelope_isSome {id : RequestId} {error : RpcError}
    (h : (serializeJson (encodeErrorResponse id error)).isSome) :
    (serializeJson (encodeSuccessResponse id .null)).isSome := by
  have hr : isValidUtf8 (text "result") = true := by decide +kernel
  have hn : (serializeJson .null).isSome := rfl
  rw [encodeErrorResponse, serializeJson_object_isSome] at h
  rw [encodeSuccessResponse, serializeJson_object_isSome]
  simp only [forall_mem_cons] at h ⊢
  obtain ⟨-, hi, hv, _⟩ := h
  exact ⟨hi, hv, ⟨hr, hn⟩, fun _ hm => by cases hm⟩

/-! ## Entries -/

/-- The identifier that the answer to an entry carries, if it gets one. -/
def owedId : RequestEntry → Option RequestId
  | .invalid => some .null
  | .request request => request.id

/-- A response with this identifier. -/
inductive IsResponse (id : RequestId) : JsonValue → Prop
  | success (result : JsonValue) : IsResponse id (encodeSuccessResponse id result)
  | error (error : RpcError) : IsResponse id (encodeErrorResponse id error)

namespace Server

variable {σ : Type} {server : Server σ}

/-- The request of an entry whose method has a handler. -/
def registered (server : Server σ) : RequestEntry → Option RequestEnvelope
  | .invalid => none
  | .request request => if (server.methods request.method).isSome then some request else none

/-- Every identifier of the entry can be written. -/
def Writable : RequestEntry → Prop
  | .invalid => True
  | .request request => ∀ id ∈ request.id, (serializeJson (encodeSuccessResponse id .null)).isSome

/-- The errors that stand for the answers carry the identifiers of the answers. -/
theorem boundedErrors_owed (server : Server σ) (entries : List RequestEntry) :
    List.Forall₂ IsResponse (entries.filterMap owedId) (entries.filterMap server.boundedError) := by
  induction entries with
  | nil => exact .nil
  | cons entry _ ih =>
    cases entry with
    | invalid => exact .cons (.error _) ih
    | request request =>
      cases hi : request.id with
      | none => simpa [owedId, boundedError, hi] using ih
      | some =>
        simp only [filterMap_cons, owedId, boundedError, hi, Option.map_some]
        exact .cons (.error _) ih

/-- If the errors fit, every identifier can be written. -/
theorem writable_of_fits (h : batchFitsBody (entries.filterMap server.boundedError) limit = true) :
    ∀ entry ∈ entries, Writable entry := by
  unfold batchFitsBody at h
  split at h
  · cases h
  intro entry he
  cases entry with
  | invalid => trivial
  | request =>
    intro id hi
    have her := fitsRemaining_isSome h
      (batchLimitErrorResponse id server.options.responseLimitErrorCode)
      (mem_filterMap.2 ⟨_, he, by simp [boundedError, Option.mem_def.1 hi]⟩)
    exact envelope_isSome her

/-- A live connection answers a request that has an identifier. -/
theorem respond_owed {request : RequestEnvelope} {answer : HandlerAnswer} {world : σ}
    (hl : server.isLive world = true) :
    List.Forall₂ IsResponse request.id.toList (server.respond request answer world).toList := by
  have hst : server.status world = .live := eq_of_beq hl
  cases hid : request.id with
  | none => cases answer <;> simp [respond, hid, hl]
  | some id =>
    have hi : IsResponse id (internalErrorResponse id) := .error _
    have ho : ∀ response : Option JsonValue, (∃ value, response = some value ∧ IsResponse id value) →
        List.Forall₂ IsResponse [id] response.toList := by
      rintro _ ⟨_, rfl, hv⟩
      exact .cons hv .nil
    refine ho _ ?_
    cases answer with
    | threw => exact ⟨_, by simp [respond, hid, hst], hi⟩
    | success result =>
      by_cases hte : (serializeJson (encodeSuccessResponse id result)).isNone = true
      · exact ⟨_, by simp [respond, hid, hl, hte], hi⟩
      · exact ⟨_, by simp [respond, hid, hl, hte], .success result⟩
    | failure error =>
      by_cases hte : (serializeJson (encodeErrorResponse id error)).isNone = true
      · exact ⟨_, by simp [respond, hid, hl, hte], hi⟩
      · exact ⟨_, by simp [respond, hid, hl, hte], .error error⟩
    | uninitialized => exact ⟨_, by simp [respond, hid, hl], hi⟩

/-- **One entry: its handler runs once if it has one, and it gets its answer if it is owed one.** -/
theorem dispatchEntry_live {entry : RequestEntry} {session : Session σ}
    (hl : server.isLive session.world = true) (hw : Writable entry) :
    ∃ calls, (server.dispatchEntry entry session).2.calls = session.calls ++ calls ∧
      calls.map Call.request = (server.registered entry).toList ∧
      ((∀ call ∈ calls, call.live = true) → server.isLive (server.dispatchEntry entry session).2.world = true ∧
          List.Forall₂ IsResponse (owedId entry).toList
            (server.dispatchEntry entry session).1.toList) := by
  cases entry with
  | invalid => exact ⟨[], by simp [dispatchEntry], rfl, fun _ => ⟨hl, .cons (.error _) .nil⟩⟩
  | request request =>
    cases hm : server.methods request.method with
    | none =>
      refine ⟨[], by simp [dispatchEntry, hm], by simp [registered, hm], fun _ => ?_⟩
      simp only [dispatchEntry, hm]
      refine ⟨hl, ?_⟩
      cases hi : request.id with
      | none => simp [owedId, hi]
      | some =>
        simp only [owedId, hi]
        exact .cons (.error _) .nil
    | some handler =>
      -- whatever the context is, the handler runs once
      have hca : ∀ context, ∃ calls,
          (server.callHandler handler request context session).2.calls = session.calls ++ calls ∧
          calls.map Call.request = (server.registered (.request request)).toList ∧ ((∀ call ∈ calls, call.live = true) →
            server.isLive (server.callHandler handler request context session).2.world = true ∧
              List.Forall₂ IsResponse request.id.toList
                (server.callHandler handler request context session).1.toList) := by
        intro context
        refine ⟨_, rfl, by simp [registered, hm], fun hc => ?_⟩
        have hafter := hc _ (mem_singleton.2 rfl)
        exact ⟨hafter, respond_owed hafter⟩
      cases hi : request.id with
      | none =>
        have hen : server.dispatchEntry (.request request) session =
            server.callHandler handler request {} session := by
          simp [dispatchEntry, hm, hl, hi]
        rw [hen]
        exact hca _
      | some id =>
        obtain ⟨_, he⟩ := Option.isSome_iff_exists.1 (hw id hi)
        have hen : ∃ context, server.dispatchEntry (.request request) session =
            server.callHandler handler request context session := by
          simp only [dispatchEntry, hm, hl, hi, he]
          exact ⟨_, rfl⟩
        obtain ⟨context, hen⟩ := hen
        rw [hen]
        exact hca context

/-- The calls of the entries so far stay on record. -/
theorem dispatchEntries_calls {session : Session σ} (hl : server.isLive session.world = true)
    (hw : ∀ entry ∈ entries, Writable entry) :
    session.calls <+: (server.dispatchEntries responses entries session).2.calls := by
  induction entries generalizing responses session with
  | nil => exact prefix_refl _
  | cons entry _ ih =>
    obtain ⟨calls, hc, -, -⟩ := dispatchEntry_live hl (hw entry mem_cons_self)
    have hfi : session.calls <+: (server.dispatchEntry entry session).2.calls :=
      ⟨calls, hc.symm⟩
    simp only [dispatchEntries]
    split
    · exact hfi
    next hafter =>
      exact hfi.trans (ih (Bool.eq_true_of_not_eq_false hafter) fun e he => hw e (mem_cons_of_mem entry he))

/-- **All entries, while the connection lives.** -/
theorem dispatchEntries_live {session : Session σ} (hl : server.isLive session.world = true)
    (hw : ∀ entry ∈ entries, Writable entry)
    (hst : ∀ call ∈ (server.dispatchEntries responses entries session).2.calls, call.live = true) :
    ∃ calls answers, (server.dispatchEntries responses entries session).2.calls = session.calls ++ calls ∧
      (server.dispatchEntries responses entries session).1 = some (responses ++ answers) ∧
      calls.map Call.request = entries.filterMap server.registered ∧
      List.Forall₂ IsResponse (entries.filterMap owedId) answers := by
  induction entries generalizing responses session with
  | nil => exact ⟨[], [], by simp [dispatchEntries], by simp [dispatchEntries], rfl, .nil⟩
  | cons entry rest ih =>
    have hwr : ∀ e ∈ rest, Writable e :=
      fun e he => hw e (mem_cons_of_mem entry he)
    obtain ⟨calls, hc, hreg, hans⟩ :=
      dispatchEntry_live hl (hw entry mem_cons_self)
    -- the calls of this entry are among all calls, so the connection lives on
    have hp : ∀ call ∈ calls, call.live = true := by
      intro call hca
      have hm : call ∈ (server.dispatchEntry entry session).2.calls := by
        rw [hc]
        exact mem_append_right _ hca
      refine hst call ?_
      simp only [dispatchEntries]
      split
      · exact hm
      next hafter =>
        exact (dispatchEntries_calls (Bool.eq_true_of_not_eq_false hafter) hwr).subset hm
    obtain ⟨hafter, ho⟩ := hans hp
    have hstep : server.dispatchEntries responses (entry :: rest) session =
        server.dispatchEntries (responses ++ (server.dispatchEntry entry session).1.toList) rest
          (server.dispatchEntry entry session).2 := by
      simp [dispatchEntries, hafter]
    rw [hstep] at hst ⊢
    obtain ⟨others, answers, hot, hr, hre, han⟩ := ih hafter hwr hst
    refine ⟨calls ++ others, (server.dispatchEntry entry session).1.toList ++ answers, ?_, ?_, ?_, ?_⟩
    · rw [hot, hc, append_assoc]
    · rw [hr, append_assoc]
    · rw [map_append, hreg, hre]
      cases hen : server.registered entry <;> simp [hen]
    · have hsp : (entry :: rest).filterMap owedId = (owedId entry).toList ++ rest.filterMap owedId := by
        cases hen : owedId entry <;> simp [hen]
      rw [hsp]
      exact rel_append ho han

/-- The end of a batch that is not refused. -/
def concludeBatch (server : Server σ) (entries : List RequestEntry) : Option (List JsonValue) → Option JsonValue
  | none => none
  | some responses =>
    if responses = [] then none
    else if batchFitsBody responses server.options.framing.maxBodyBytes then encodeBatch responses
    else encodeBatch (entries.filterMap server.boundedError)

/-- The errors that stand for the answers do not fit. -/
def Refuses (server : Server σ) (entries : List RequestEntry) : Prop :=
  entries.filterMap server.boundedError ≠ [] ∧
    batchFitsBody (entries.filterMap server.boundedError) server.options.framing.maxBodyBytes = false

theorem dispatchDocument_refused (h : server.Refuses entries)
    (session : Session σ) : server.dispatchDocument { kind := .batch, entries } session =
      (some (batchLimitErrorResponse .null server.options.responseLimitErrorCode), session) :=
  if_pos h

theorem dispatchDocument_batch (h : ¬ server.Refuses entries)
    (session : Session σ) : server.dispatchDocument { kind := .batch, entries } session =
      (server.concludeBatch entries (server.dispatchEntries [] entries session).1,
        (server.dispatchEntries [] entries session).2) := by
  rw [dispatchDocument]
  refine (if_neg h).trans ?_
  cases server.dispatchEntries [] entries session with
  | mk responses =>
    cases responses with
    | none => rfl
    | some responses =>
      simp only [concludeBatch, if_true]
      by_cases he : responses = []
      · rw [if_pos he, if_pos he]
      · rw [if_neg he, if_neg he]
        split <;> rfl

/-- A batch that is not refused has identifiers that can be written. -/
theorem writable_of_not_refused (h : ¬ server.Refuses entries) : ∀ entry ∈ entries, Writable entry := by
  by_cases he : entries.filterMap server.boundedError = []
  · intro entry hen
    cases entry with
    | invalid => trivial
    | request =>
      intro _ hi
      have := filterMap_eq_nil_iff.1 he _ hen
      simp [boundedError, Option.mem_def.1 hi] at this
  · refine writable_of_fits (Bool.eq_true_of_not_eq_false fun hfi => h ⟨he, hfi⟩)

end Server

theorem defaultHeader_le : 16 * 1024 ≤ maximumSize := by decide

/-- A server with one method, whose result is as long as a response may be. -/
def verbose : Server Unit where
  options := { framing := { maxBodyBytes := 400, header_le := defaultHeader_le } }
  methods method :=
    if method = text "list" then
      some fun _ _ world => (.success (.string (List.replicate 400 (byte 'x'))), world)
    else none
  status _ := .live

/-- A request, a notification and something that is neither. -/
def mixedBatch : List JsonValue :=
  [encodeRequest (.uint 7) (text "list") none,
    .object [(text "jsonrpc", .string (text "2.0")), (text "method", .string (text "list"))], .null]

/-- What that server does with it. -/
def verboseAnswer : Option JsonValue × Session Unit :=
  verbose.dispatchDocument
    (decodeRequestDocument (.array mixedBatch) verbose.options.maxBatchEntries) { world := () }

end Jobu.Rpc
