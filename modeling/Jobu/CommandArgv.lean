import Jobu.Domain

/-!
# The arguments of a command

`parse_command_argv` of `command_argv.cpp`.  A byte is a character; nothing depends on its bound.

  > `loop_written`: an argument, written as segments with or without quotes, is added to the word as it is meant.
  > `loop_tokens`: after whole tokens the loop is in one state, whatever follows.
-/

namespace Jobu.CommandArgv

open List

abbrev Text := List Char

inductive Quote
  | none | single | double
deriving DecidableEq

def invalidCommand (message : String) : Error :=
  { category := .invalidArgument, code := "core.command.invalid_argv", message }

def whitespace (value : Char) : Prop := value ∈ [' ', '\t', '\n', '\r', '\x0c', '\x0b']

instance (value : Char) : Decidable (whitespace value) := inferInstanceAs (Decidable (_ ∈ _))

def doubleQuoteEscape (value : Char) : Prop := value ∈ ['"', '\\', '$', '\x60', '\n']

instance (value : Char) : Decidable (doubleQuoteEscape value) := inferInstanceAs (Decidable (_ ∈ _))

structure State where
  arguments : List Text := []
  word : Text := []
  quote : Quote := .none
  wordStarted : Bool := false

/-- `word += value`. -/
def State.add (s : State) (value : Char) : State := { s with word := s.word ++ [value] }

/-- One round of the loop; the number is how often it moves `index` itself. -/
def step (s : State) (value : Char) (rest : Text) : Except Error (State × Nat) :=
  if s.quote = .single then .ok (if value = '\'' then { s with quote := .none } else s.add value, 0)
  else if value = '\\' then
    match rest with
    | [] => .error (invalidCommand "Command ends with an incomplete backslash escape")
    | next :: _ =>
      if s.quote = .double ∧ ¬doubleQuoteEscape next then .ok (s.add value, 0)
      else .ok (if next ≠ '\n' then { s.add next with wordStarted := true } else s, 1)
  else if s.quote = .double then .ok (if value = '"' then { s with quote := .none } else s.add value, 0)
  else if value = '\'' ∨ value = '"' then
    .ok ({ s with quote := if value = '\'' then .single else .double, wordStarted := true }, 0)
  else if whitespace value then
    .ok (if s.wordStarted then { s with arguments := s.arguments ++ [s.word], word := [], wordStarted := false } else s, 0)
  else .ok ({ s.add value with wordStarted := true }, 0)

/-- The loop, over what is left of the command. -/
def loop (s : State) : Text → Except Error State
  | [] => .ok s
  | value :: rest =>
    match step s value rest with
    | .error e => .error e
    | .ok (s, skipped) => loop s (rest.drop skipped)
termination_by rest => rest.length

/-- What follows the loop. -/
def finish (s : State) : Except Error (List Text) :=
  if s.quote ≠ .none then .error (invalidCommand "Command has an unterminated quote")
  else
    let arguments := if s.wordStarted then s.arguments ++ [s.word] else s.arguments
    if arguments.headD [] = [] then .error (invalidCommand "Command requires a nonempty executable")
    else .ok arguments

def parseCommandArgv (command : Text) : Except Error (List Text) :=
  if '\x00' ∈ command then .error (invalidCommand "Command arguments cannot contain NUL")
  else loop {} command >>= finish

/-! ## Writing an argument -/

/-- A character, with a backslash before it or not. -/
abbrev Piece := Bool × Char

def Piece.text (p : Piece) : Text := if p.1 then ['\\', p.2] else [p.2]

inductive Segment
  | single (text : Text)
  | double (pieces : List Piece)
  | unquoted (pieces : List Piece)

namespace Segment

def text : Segment → Text
  | single text => '\'' :: (text ++ ['\''])
  | double pieces => '"' :: (pieces.flatMap Piece.text ++ ['"'])
  | unquoted pieces => pieces.flatMap Piece.text

/-- What it stands for. -/
def word : Segment → Text
  | single text => text
  | double pieces | unquoted pieces => pieces.map Prod.snd

/-- In double quotes a quote and a backslash have a backslash before them, and a dollar and a backtick may; outside
quotes there is no newline, and whitespace, quotes and backslashes have one. -/
def Valid : Segment → Prop
  | single text => '\'' ∉ text
  | double pieces => ∀ p ∈ pieces, (p.2 ∈ ['"', '\\'] → p.1) ∧ (p.1 → p.2 ∈ ['"', '\\', '$', '\x60'])
  | unquoted pieces => pieces ≠ [] ∧
      ∀ p ∈ pieces, p.2 ≠ '\n' ∧ (whitespace p.2 ∨ p.2 ∈ ['\'', '"', '\\'] → p.1)

end Segment

/-- One way of writing an argument. -/
abbrev Written := List Segment

def Written.text (w : Written) : Text := w.flatMap Segment.text

def Written.word (w : Written) : Text := w.flatMap Segment.word

def Written.Valid (w : Written) : Prop := w ≠ [] ∧ ∀ segment ∈ w, segment.Valid

/-- The quote after a byte that no backslash concerns. -/
def Quote.after (quote : Quote) (value : Char) : Quote :=
  match quote with
  | .none => if value = '\'' then .single else if value = '"' then .double else .none
  | .single => if value = '\'' then .none else .single
  | .double => if value = '"' then .none else .double

/-- A text of whole tokens, with the quote before it and after it. -/
inductive Tokens : Quote → Text → Quote → Prop
  | nil (quote) : Tokens quote [] quote
  | byte {quote value rest last} (h : quote = .single ∨ value ≠ '\\') (ht : Tokens (quote.after value) rest last) :
      Tokens quote (value :: rest) last
  | pair {quote next rest last} (h : quote ≠ .single) (ht : Tokens quote rest last) :
      Tokens quote ('\\' :: next :: rest) last

/-! ## The loop over what was written -/

variable {args : List Text} {w rest : Text} {started : Bool}

theorem loop_one {s s' : State} {value : Char} (h : step s value rest = .ok (s', 0)) :
    loop s (value :: rest) = loop s' rest := by
  rw [loop, h]
  rfl

theorem loop_two {s s' : State} {value next : Char} (h : step s value (next :: rest) = .ok (s', 1)) :
    loop s (value :: next :: rest) = loop s' rest := by
  rw [loop, h]
  rfl

theorem loop_single {text : Text} (ht : '\'' ∉ text) :
    loop ⟨args, w, .single, true⟩ (text ++ '\'' :: rest) = loop ⟨args, w ++ text, .none, true⟩ rest := by
  induction text generalizing w with
  | nil => exact (append_nil w).symm ▸ loop_one rfl
  | cons c _ ih =>
    rw [mem_cons, not_or] at ht
    have ih := @ih (w ++ [c]) ht.2
    rw [append_assoc] at ih
    exact (loop_one (by simp [step, State.add, Ne.symm ht.1])).trans ih

theorem loop_double {pieces : List Piece} (hp : (Segment.double pieces).Valid) :
    loop ⟨args, w, .double, true⟩ (pieces.flatMap Piece.text ++ '"' :: rest) =
      loop ⟨args, w ++ pieces.map Prod.snd, .none, true⟩ rest := by
  induction pieces generalizing w with
  | nil => exact (append_nil w).symm ▸ loop_one rfl
  | cons p _ ih =>
    obtain ⟨hp, hps⟩ := forall_mem_cons.1 hp
    have ih := @ih (w ++ [p.2]) hps
    rw [append_assoc] at ih
    rw [flatMap_cons, append_assoc]
    match p, hp with
    | (true, c), hp =>
      have hc : doubleQuoteEscape c ∧ c ≠ '\n' := by
        have := hp.2 rfl
        simp only [mem_cons, not_mem_nil, or_false] at this
        rcases this with rfl | rfl | rfl | rfl <;> decide
      exact (loop_two (by simp [step, State.add, hc])).trans ih
    | (false, c), hp =>
      have hc : ¬(c = '"' ∨ c = '\\') := fun h => nomatch hp.1 (by simpa using h)
      rw [not_or] at hc
      exact (loop_one (by simp [step, State.add, hc])).trans ih

theorem loop_piece {p : Piece} (hp : (Segment.unquoted [p]).Valid) :
    loop ⟨args, w, .none, started⟩ (p.text ++ rest) = loop ⟨args, w ++ [p.2], .none, true⟩ rest := by
  obtain ⟨hn, hp⟩ := hp.2 _ mem_cons_self
  match p, hp with
  | (true, c), _ => exact loop_two (by simp [step, State.add, hn])
  | (false, c), hp =>
    have hc : ¬(whitespace c ∨ c = '\'' ∨ c = '"' ∨ c = '\\') := fun h => nomatch hp (by simpa using h)
    simp only [not_or] at hc
    exact loop_one (by simp [step, State.add, hc])

theorem loop_unquoted {pieces : List Piece} (hp : (Segment.unquoted pieces).Valid) :
    loop ⟨args, w, .none, started⟩ (pieces.flatMap Piece.text ++ rest) =
      loop ⟨args, w ++ pieces.map Prod.snd, .none, true⟩ rest := by
  induction pieces generalizing w started with
  | nil => exact absurd rfl hp.1
  | cons _ pieces ih =>
    obtain ⟨hfi, hr⟩ := forall_mem_cons.1 hp.2
    rw [flatMap_cons, append_assoc, loop_piece ⟨by simp, by simpa using hfi⟩]
    match pieces with
    | [] => rfl
    | q :: pieces => rw [ih ⟨by simp, hr⟩, append_assoc]; rfl

theorem loop_segment {segment : Segment} (h : segment.Valid) :
    loop ⟨args, w, .none, started⟩ (segment.text ++ rest) = loop ⟨args, w ++ segment.word, .none, true⟩ rest := by
  match segment, h with
  | .single text, h =>
    rw [Segment.text, cons_append, append_assoc]
    exact (loop_one rfl).trans (loop_single h)
  | .double pieces, h =>
    rw [Segment.text, cons_append, append_assoc]
    exact (loop_one rfl).trans (loop_double h)
  | .unquoted _, h => exact loop_unquoted h

theorem loop_written {arg : Written} (h : arg.Valid) :
    loop ⟨args, w, .none, started⟩ (arg.text ++ rest) = loop ⟨args, w ++ arg.word, .none, true⟩ rest := by
  unfold Written.text Written.word
  induction arg generalizing w started with
  | nil => exact absurd rfl h.1
  | cons _ arg ih =>
    obtain ⟨hfi, hr⟩ := forall_mem_cons.1 h.2
    rw [flatMap_cons, append_assoc, loop_segment hfi]
    match arg with
    | [] => simp
    | next :: _ => rw [ih ⟨by simp, hr⟩, append_assoc]; rfl

/-- Whitespace that is not empty. -/
def Separator (text : Text) : Prop := text ≠ [] ∧ ∀ c ∈ text, whitespace c

theorem loop_whitespace {c : Char} (hc : whitespace c) : loop ⟨args, w, .none, started⟩ (c :: rest) =
    if started then loop ⟨args ++ [w], [], .none, false⟩ rest else loop ⟨args, w, .none, started⟩ rest := by
  have hp : c ≠ '\\' ∧ ¬(c = '\'' ∨ c = '"') := by
    simp only [whitespace, mem_cons, not_mem_nil, or_false] at hc
    rcases hc with rfl | rfl | rfl | rfl | rfl | rfl <;> decide
  cases started
  · exact loop_one (by simp [step, hp, hc])
  · exact loop_one (by simp [step, hp, hc])

theorem loop_separator {text : Text} (h : Separator text) :
    loop ⟨args, w, .none, true⟩ (text ++ rest) = loop ⟨args ++ [w], [], .none, false⟩ rest := by
  match text, h with
  | [], h => exact absurd rfl h.1
  | c :: text, h =>
    obtain ⟨hc, hte⟩ := forall_mem_cons.1 h.2
    rw [cons_append, loop_whitespace hc, if_pos rfl]
    clear h hc
    induction text with
    | nil => rfl
    | cons _ _ ih =>
      obtain ⟨hc, hte⟩ := forall_mem_cons.1 hte
      rw [cons_append, loop_whitespace hc, if_neg nofun, ih hte]

/-- The arguments after the first one, each with what separates it from the one before. -/
abbrev Others := List (Text × Written)

def Others.text (others : Others) : Text := others.flatMap fun p => p.1 ++ p.2.text

theorem loop_others {others : Others} (h : ∀ p ∈ others, Separator p.1 ∧ p.2.Valid) :
    loop ⟨args, w, .none, true⟩ others.text >>= finish =
      finish ⟨args ++ [w] ++ others.map (·.2.word), [], .none, false⟩ := by
  unfold Others.text
  induction others generalizing args w with
  | nil => rw [flatMap_nil, loop]; simp [finish, Bind.bind, Except.bind]
  | cons _ _ ih =>
    obtain ⟨⟨hp, har⟩, hr⟩ := forall_mem_cons.1 h
    rw [flatMap_cons, append_assoc, append_assoc, loop_separator hp, loop_written har, nil_append, ih hr]
    simp

/-! ## NUL -/

theorem nul_segment {segment : Segment} (h : '\x00' ∉ segment.word) : '\x00' ∉ segment.text := by
  -- A backslash adds no NUL of its own.
  have hpi {pieces : List Piece} (h : '\x00' ∉ pieces.map Prod.snd) : '\x00' ∉ pieces.flatMap Piece.text := by
    simp only [mem_flatMap, not_exists, not_and]
    intro p hp hn
    have : p.2 ≠ '\x00' := fun e => h (e ▸ mem_map_of_mem hp)
    unfold Piece.text at hn
    split at hn <;> simp [eq_comm, this] at hn
  match segment, h with
  | .single text, h => simpa [Segment.text, Segment.word] using h
  | .double pieces, h => simpa [Segment.text] using hpi h
  | .unquoted pieces, h => exact hpi h

theorem nul_written {arg : Written} (h : '\x00' ∉ arg.word) : '\x00' ∉ arg.text := by
  simp only [Written.word, Written.text, mem_flatMap, not_exists, not_and] at h ⊢
  exact fun segment hs => nul_segment (h segment hs)

/-! ## Between two tokens -/

variable {s : State}

theorem step_byte {value : Char} (h : s.quote = .single ∨ value ≠ '\\') :
    ∃ s' : State, s'.quote = s.quote.after value ∧ ∀ rest, step s value rest = .ok (s', 0) := by
  obtain ⟨args, w, quote, started⟩ := s
  match quote with
  | .single => exact ⟨_, by split <;> simp_all [Quote.after, State.add], fun _ => if_pos rfl⟩
  | .double =>
    have h := h.resolve_left nofun
    refine ⟨if value = '"' then ⟨args, w, .none, started⟩ else ⟨args, w ++ [value], .double, started⟩, ?_, fun _ => ?_⟩
    · split <;> simp_all [Quote.after]
    · simp [step, State.add, h]
  | .none =>
    have h := h.resolve_left nofun
    by_cases hq : value = '\'' ∨ value = '"'
    · refine ⟨⟨args, w, if value = '\'' then .single else .double, true⟩, ?_, fun _ => by simp [step, h, hq]⟩
      rcases hq with rfl | rfl <;> rfl
    have hafter : Quote.none.after value = .none := by simp_all [Quote.after]
    by_cases hw : whitespace value
    · refine ⟨if started then ⟨args ++ [w], [], .none, false⟩ else ⟨args, w, .none, started⟩, ?_, fun _ => ?_⟩
      · split <;> exact hafter.symm
      · simp [step, h, hq, hw]
    · exact ⟨⟨args, w ++ [value], .none, true⟩, hafter.symm, fun _ => by simp [step, State.add, h, hq, hw]⟩

/-- A byte that stays after its backslash is read like any other. -/
theorem loop_pair (h : s.quote ≠ .single) (next : Char) :
    ∃ s' : State, s'.quote = s.quote ∧ ∀ back, loop s ('\\' :: next :: back) = loop s' back := by
  by_cases hr : s.quote = .double ∧ ¬doubleQuoteEscape next
  · have hn : next ≠ '"' ∧ next ≠ '\\' := by constructor <;> rintro rfl <;> exact hr.2 (by decide)
    refine ⟨(s.add '\\').add next, rfl, fun back => ?_⟩
    rw [@loop_one _ s (s.add '\\') _ (by simp [step, hr])]
    exact loop_one (by simp [step, State.add, hr.1, hn])
  · refine ⟨if next ≠ '\n' then { s.add next with wordStarted := true } else s, by split <;> rfl, fun back => ?_⟩
    exact loop_two (by rw [step, if_neg h, if_pos rfl]; exact if_neg hr)

theorem loop_tokens {quote last : Quote} {front : Text} (h : Tokens quote front last) (hs : s.quote = quote) :
    ∃ s' : State, s'.quote = last ∧ ∀ back, loop s (front ++ back) = loop s' back := by
  induction h generalizing s with
  | nil => exact ⟨s, hs, fun _ => rfl⟩
  | byte h _ ih =>
    subst hs
    obtain ⟨_, hq, hn⟩ := step_byte h
    obtain ⟨s', hs', hba⟩ := ih hq
    exact ⟨s', hs', fun back => (loop_one (hn _)).trans (hba back)⟩
  | pair h _ ih =>
    subst hs
    obtain ⟨_, hq, hn⟩ := loop_pair h _
    obtain ⟨s', hs', hba⟩ := ih hq
    exact ⟨s', hs', fun back => (hn _).trans (hba back)⟩

/-- **Splitting inverts quoting**, and a line continuation between two tokens changes nothing. -/
theorem command_splitting_inverts_quoting :
    (∀ (first : Written) (others : Others), first.Valid → (∀ p ∈ others, Separator p.1 ∧ p.2.Valid) →
      first.word ≠ [] → (∀ word ∈ first.word :: others.map (·.2.word), '\x00' ∉ word) →
      parseCommandArgv (first.text ++ others.text) = .ok (first.word :: others.map (·.2.word))) ∧
    ∀ (front back : Text) (quote : Quote), Tokens .none front quote → quote ≠ .single →
      parseCommandArgv (front ++ '\\' :: '\n' :: back) = parseCommandArgv (front ++ back) := by
  refine ⟨fun first others hfirst hothers hne hnul => ?_, fun front back quote hfront hquote => ?_⟩
  · have hsafe : '\x00' ∉ first.text ++ others.text := by
      rw [mem_append, not_or, Others.text, mem_flatMap]
      refine ⟨nul_written (hnul _ mem_cons_self), fun ⟨p, hp, h⟩ => ?_⟩
      rcases mem_append.1 h with h | h
      · exact absurd ((hothers p hp).1.2 _ h) (by decide)
      · exact nul_written (hnul _ (mem_cons_of_mem _ (mem_map_of_mem hp))) h
    rw [parseCommandArgv, if_neg hsafe, loop_written hfirst, loop_others hothers]
    simp [finish, hne]
  · -- The pair is read in the state that the tokens before it lead to, and leaves it alone.
    obtain ⟨s, rfl, hback⟩ := @loop_tokens {} _ _ front hfront rfl
    have hskip : loop s ('\\' :: '\n' :: back) = loop s back :=
      loop_two (by simp [step, hquote, show doubleQuoteEscape '\n' by decide])
    rw [parseCommandArgv, parseCommandArgv, hback, hback, hskip]
    simp

end Jobu.CommandArgv
