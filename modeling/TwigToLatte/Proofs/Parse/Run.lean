import TwigToLatte.Parse

/-!
# Runs of parsing computations

A run is followed forwards: where the tokens ahead are known, each computation that takes tokens is
replaced by its answer and by the state after it.

* `ahead` — the tokens not yet taken.
* `State.skip` — a state some tokens further.
* `bind_eq_of_ok`, `bind_eq_of_error` — a run goes on after a computation that succeeds, and stops
  where one fails.
* `current_eq`, `next_eq`, `expect_eq`, … — looking at the first token ahead, and taking it.
* `loop_eq`, `iterate_inl`, `iterate_inr` — the rounds of a repetition.
* `separatedRound_close`, … — the rounds of a list with commas.
-/

namespace TwigToLatte.Parse

variable {α β : Type} {context : Context} {state : State} {token : Token} {rest : List Token}

/-- The tokens not yet taken. -/
def ahead (context : Context) (state : State) : List Token :=
  context.tokens.toList.drop state.cursor

/-- The state after `n` more tokens. -/
def State.skip (state : State) (n : Nat) : State := { state with cursor := state.cursor + n }

@[simp] theorem State.cursor_skip (state : State) (n : Nat) :
    (state.skip n).cursor = state.cursor + n := rfl

@[simp] theorem State.skip_skip (state : State) (m n : Nat) :
    (state.skip m).skip n = state.skip (m + n) := by
  simp only [State.skip, Nat.add_assoc]

theorem ahead_skip {taken : List Token} (h : ahead context state = taken ++ rest) :
    ahead context (state.skip taken.length) = rest := by
  have : ahead context (state.skip taken.length) = (ahead context state).drop taken.length := by
    rw [ahead, ahead, List.drop_drop, State.cursor_skip]
  rw [this, h, List.drop_left]

theorem ahead_skip_one (h : ahead context state = token :: rest) :
    ahead context (state.skip 1) = rest :=
  ahead_skip (show ahead context state = [token] ++ rest from h)

/-! ## Sequences -/

variable {p : Parse α} {f : α → Parse β} {a : α} {after : State} {test : Token → Bool}
  {mark : Char} {note : Option String} {step : β → Parse (β ⊕ α)} {b : β}

theorem bind_eq_of_ok (h : p context state = .ok a after) :
    (p >>= f) context state = f a context after := by
  simp only [bind, ReaderT.bind, EStateM.bind, h]

theorem bind_eq_of_error {fault : Fault} (h : p context state = .error fault after) :
    (p >>= f) context state = .error fault after := by
  simp only [bind, ReaderT.bind, EStateM.bind, h]

theorem read_eq : (read : Parse Context) context state = .ok context state := rfl

/-! ## Tokens -/

section

variable (h : ahead context state = token :: rest)

include h

theorem tokenAt_eq : context.tokenAt state.cursor = token := by
  have hget : context.tokens[state.cursor]? = some token := by
    rw [← Array.getElem?_toList, ← List.head?_drop]
    exact congrArg List.head? h
  obtain ⟨hlt, hget⟩ := Array.getElem?_eq_some_iff.mp hget
  rw [Context.tokenAt, Nat.min_eq_left (by omega), Array.getD_eq_getD_getElem?,
    Array.getElem?_eq_getElem hlt, hget]
  rfl

theorem current_eq : current context state = .ok token state :=
  congrArg (EStateM.Result.ok · state) (tokenAt_eq h)

theorem currentLine_eq : currentLine context state = .ok token.line state := by
  rw [currentLine, bind_eq_of_ok (current_eq h)]
  rfl

theorem next_eq (heof : token.isEof = false) : next context state = .ok token (state.skip 1) := by
  rw [next, bind_eq_of_ok (current_eq h), heof]
  rfl

theorem nextIf_eq_none (htest : test token = false) :
    nextIf test context state = .ok none state := by
  rw [nextIf, bind_eq_of_ok (current_eq h), htest]
  rfl

theorem expect_eq {wanted : String} (htest : test token = true) (heof : token.isEof = false) :
    expect test wanted note context state = .ok token (state.skip 1) := by
  rw [expect, bind_eq_of_ok (current_eq h), htest]
  exact next_eq h heof

end

theorem expectPunctuation_eq {span : Span}
    (h : ahead context state = ⟨.punctuation mark, span⟩ :: rest) :
    expectPunctuation mark note context state =
      .ok ⟨.punctuation mark, span⟩ (state.skip 1) :=
  expect_eq h (by simp [Token.isPunctuation]) rfl

/-! ## Repetition -/

theorem length_ahead (context : Context) (state : State) :
    (ahead context state).length = context.tokens.size - state.cursor := by
  rw [ahead, List.length_drop, Array.length_toList]

theorem remaining_eq : remaining context state = .ok (ahead context state).length state := by
  rw [ahead, List.length_drop]
  rfl

theorem loop_eq (start : β) (step : β → Parse (β ⊕ α)) :
    loop start step context state =
      iterate step ((ahead context state).length + 1) start context state := by
  rw [loop, bind_eq_of_ok remaining_eq]

theorem iterate_inl {b' : β} (h : step b context state = .ok (.inl b') after) (limit : Nat) :
    iterate step (limit + 1) b context state = iterate step limit b' context after := by
  rw [iterate, bind_eq_of_ok h]

theorem iterate_inr (h : step b context state = .ok (.inr a) after) (limit : Nat) :
    iterate step (limit + 1) b context state = .ok a after := by
  rw [iterate, bind_eq_of_ok h]
  rfl

theorem loop_inr {start : β} (h : step start context state = .ok (.inr a) after) :
    loop start step context state = .ok a after := by
  rw [loop_eq, iterate_inr h]

/-! ### Lists with commas -/

section

variable {close : Char} {comma : String} {element : β → Parse β} {elements more : β}
  {after : State}

theorem separatedRound_close (h : ahead context state = token :: rest)
    (hclose : token.isPunctuation close = true) (first : Bool) :
    separatedRound close comma element (elements, first) context state =
      .ok (.inr elements) state := by
  rw [separatedRound, bind_eq_of_ok (current_eq h), hclose]
  rfl

theorem separatedRound_first (h : ahead context state = token :: rest)
    (hclose : token.isPunctuation close = false)
    (helement : element elements context state = .ok more after) :
    separatedRound close comma element (elements, true) context state =
      .ok (.inl (more, false)) after := by
  rw [separatedRound, bind_eq_of_ok (current_eq h)]
  simp only [hclose, Bool.false_eq_true, if_false, Bool.not_true]
  rw [bind_eq_of_ok helement]
  rfl

theorem separatedRound_comma {span : Span} (hcomma : close ≠ ',')
    (h : ahead context state = ⟨.punctuation ',', span⟩ :: token :: rest)
    (hclose : token.isPunctuation close = false)
    (helement : element elements context (state.skip 1) = .ok more after) :
    separatedRound close comma element (elements, false) context state =
      .ok (.inl (more, false)) after := by
  have hmark : Token.isPunctuation close ⟨.punctuation ',', span⟩ = false := by
    rw [Token.isPunctuation, beq_eq_false_iff_ne]
    exact fun h => hcomma (Token.Kind.punctuation.inj h).symm
  rw [separatedRound, bind_eq_of_ok (current_eq h)]
  simp only [hmark, Bool.false_eq_true, if_false, Bool.not_false, if_true]
  rw [bind_eq_of_ok (expectPunctuation_eq h), bind_eq_of_ok (current_eq (ahead_skip_one h)), hclose]
  simp only [Bool.false_eq_true, if_false]
  rw [bind_eq_of_ok helement]
  rfl

end

end TwigToLatte.Parse
