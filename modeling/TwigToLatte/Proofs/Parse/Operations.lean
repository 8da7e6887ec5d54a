import TwigToLatte.Proofs.Parse.Positions

/-!
# Taking tokens

The rules take tokens in a few ways only. Some decline a token that they are not made for, the others
complain about it, and none of them takes the end of the template.

* `Operation` — the ways to take a token, each with its test and its answers.
* `Ends`, `Operation.ends` — **what one of them does at a token**.
* `performAll` — operations in a row, whatever comes of each of them.
* `operations_spec` — **the position stays among the tokens and never goes back, and every operation
  sees the token there**.
-/

namespace TwigToLatte.Parse

def stringOf (token : Token) : String :=
  match token.kind with
  | .string value => value
  | _ => ""

/-- The ways to take a token: the tokens that they are made for, the answer for a token that is taken
and, if they may decline one, the answer without a token. -/
inductive Operation : {α : Type} → Parse α → (Token → Bool) → (Token → α) → Option α → Prop
  | next : Operation next (fun _ => true) id none
  | nextIf (test : Token → Bool) : Operation (nextIf test) test some (some none)
  | nextIfPunctuation (mark : Char) :
      Operation (nextIfPunctuation mark) (·.isPunctuation mark) some (some none)
  | nextIfOperator (symbol : String) :
      Operation (nextIfOperator symbol) (·.isOperator symbol) some (some none)
  | nextIfName (name : String) :
      Operation (nextIfName name) (·.isName name) some (some none)
  | expect (test : Token → Bool) (wanted : String) (note : Option String) :
      Operation (expect test wanted note) test id none
  | expectPunctuation (mark : Char) (note : Option String) :
      Operation (expectPunctuation mark note) (·.isPunctuation mark) id none
  | expectOperator (symbol : String) :
      Operation (expectOperator symbol) (·.isOperator symbol) id none
  | expectNameToken (note : Option String) :
      Operation (expectNameToken note) (·.name?.isSome) id none
  | expectName : Operation expectName (·.name?.isSome) (·.name?.getD "") none
  | expectNameValue (name : String) : Operation (expectNameValue name) (·.isName name) id none
  | expectString : Operation expectString (fun token => token.kind matches .string _) stringOf none
  | expectBlockEnd : Operation expectBlockEnd (·.kind == .blockEnd) id none
  | expectVarEnd : Operation expectVarEnd (·.kind == .varEnd) id none

/-! ## One operation -/

section

variable {α β : Type}

/-- How an operation ends at a token. It takes the token if it is made for it, but for the end of the
template. Otherwise it changes nothing: it declines, or complains on the line of the token. -/
inductive Ends (token : Token) (state : State) (test : Token → Bool) (answer : Token → α)
    (refusal? : Option α) : EStateM.Result Fault State α → Prop
  | takes (htest : test token = true) (heof : token.isEof = false) :
      Ends token state test answer refusal? (.ok (answer token) (state.skip 1))
  | declines {a : α} (hrefusal : refusal? = some a) (h : test token = false ∨ token.isEof = true) :
      Ends token state test answer refusal? (.ok a state)
  | fails {fault : Fault} (hrefusal : refusal? = none) (h : test token = false ∨ token.isEof = true)
      (hline : fault.line = token.line) :
      Ends token state test answer refusal? (.error fault state)

variable {context : Context} {state : State} {test : Token → Bool} {answer : Token → α}
  {refusal? : Option α} {p : Parse α}

theorem Ends.map {token : Token} (h : Ends token state test answer refusal? (p context state))
    (f : α → β) :
    Ends token state test (f ∘ answer) (refusal?.map f) ((do return f (← p)) context state) := by
  generalize hresult : p context state = result at h
  cases h with
  | takes htest heof =>
    rw [bind_eq_of_ok hresult]
    exact .takes htest heof
  | declines hrefusal htest =>
    rw [bind_eq_of_ok hresult]
    exact .declines (congrArg (Option.map f) hrefusal) htest
  | fails hrefusal htest hline =>
    rw [bind_eq_of_error hresult]
    exact .fails (congrArg (Option.map f) hrefusal) htest hline

theorem ends_nextIf : Ends (context.tokenAt state.cursor) state test some (some none)
    (nextIf test context state) := by
  show Ends _ _ _ _ _ ((if test (context.tokenAt state.cursor) &&
    !(context.tokenAt state.cursor).isEof then _ else _ : Parse (Option Token)) _ _)
  cases htest : test (context.tokenAt state.cursor) with
  | false => exact .declines rfl (.inl htest)
  | true =>
    cases heof : (context.tokenAt state.cursor).isEof with
    | true => exact .declines rfl (.inr heof)
    | false => exact .takes htest heof

theorem ends_expect {wanted : String} {note : Option String} :
    Ends (context.tokenAt state.cursor) state test id none
      (expect test wanted note context state) := by
  show Ends _ _ _ _ _ ((if test (context.tokenAt state.cursor) then next else _ : Parse Token) _ _)
  cases htest : test (context.tokenAt state.cursor) with
  | false => exact .fails rfl (.inl htest) rfl
  | true =>
    show Ends _ _ _ _ _ ((if (context.tokenAt state.cursor).isEof then _ else _ : Parse Token) _ _)
    cases heof : (context.tokenAt state.cursor).isEof with
    | true => exact .fails rfl (.inr heof) rfl
    | false => exact .takes htest heof

/-- **What an operation does at the next token.** -/
theorem Operation.ends (h : Operation p test answer refusal?) :
    Ends (context.tokenAt state.cursor) state test answer refusal? (p context state) := by
  cases h with
  | next => exact @ends_expect context state (fun _ => true) "" none
  | nextIf | nextIfPunctuation | nextIfOperator | nextIfName => exact ends_nextIf
  | expectName => exact ends_expect.map fun token => token.name?.getD ""
  | expectString =>
    have hrun : Parse.expectString = do
        return stringOf (← Parse.expect (fun token => token.kind matches .string _) "\"string\"") := by
      refine congrArg (_ >>= ·) (funext fun token => ?_)
      obtain ⟨kind, span⟩ := token
      cases kind <;> rfl
    rw [hrun]
    exact ends_expect.map stringOf
  | _ => exact ends_expect

end

/-! ## Operations in a row -/

/-- A computation that takes tokens in one of these ways. -/
def IsOperation (p : Σ α, Parse α) : Prop :=
  ∃ test answer refusal?, Operation p.2 test answer refusal?

/-- The state after a computation, whatever comes of it. -/
def perform (context : Context) (state : State) (p : Σ α, Parse α) : State :=
  match p.2 context state with
  | .ok _ after | .error _ after => after

/-- The state after several ones. -/
def performAll (context : Context) (ops : List (Σ α, Parse α)) (start : State) : State :=
  ops.foldl (perform context) start

variable {context : Context} {start : State}

theorem moves_perform (state : State) {p : Σ α, Parse α} (h : IsOperation p) :
    Moves context state (perform context state p) := by
  obtain ⟨test, answer, refusal?, h⟩ := h
  have hends : Ends _ _ _ _ _ (p.2 context state) := h.ends
  unfold perform
  generalize p.2 context state = result at hends
  cases hends with
  | takes htest heof => exact moves_skip heof
  | declines | fails => exact .refl state

theorem moves_performAll {ops : List (Σ α, Parse α)} (h : ∀ p ∈ ops, IsOperation p) (start : State) :
    Moves context start (performAll context ops start) := by
  induction ops generalizing start with
  | nil => exact .refl start
  | cons p ops ih =>
    obtain ⟨hp, hops⟩ := List.forall_mem_cons.mp h
    exact (moves_perform start hp).trans (ih hops _)

/-- **After any operations the position is that of a token, and later ones do not move it back.** The
next operation sees this token. If it takes it, it is made for it, the answer tells of it and the
position moves by one; otherwise nothing changes. The end of the template is not taken, whatever an
operation is made for. A token ahead is seen at its place, and the last one beyond that. -/
theorem operations_spec (hended : context.Ended) (hstart : start.cursor < context.tokens.size)
    {ops : List (Σ α, Parse α)} (hops : ∀ p ∈ ops, IsOperation p) {state : State}
    (hstate : state = performAll context ops start) :
    start.cursor ≤ state.cursor ∧
    (∃ token, context.tokens[state.cursor]? = some token ∧
      ∀ {α : Type} {p : Parse α} {test : Token → Bool} {answer : Token → α} {refusal? : Option α},
        Operation p test answer refusal? →
          Ends token state test answer refusal? (p context state)) ∧
    ∀ n, ∃ token, context.tokens[min (state.cursor + n) (context.tokens.size - 1)]? = some token ∧
      look n context state = .ok token state := by
  have hmoves : Moves context start state := hstate ▸ moves_performAll hops start
  have hlt := hmoves.lt_size hended hstart
  refine ⟨hmoves.le, ⟨_, getElem?_tokens hlt, Operation.ends⟩, fun n => ?_⟩
  have hlast : min (state.cursor + n) (context.tokens.size - 1) < context.tokens.size := by omega
  refine ⟨_, getElem?_tokens hlast, congrArg (EStateM.Result.ok · _) ?_⟩
  rw [Context.tokenAt, Context.tokenAt, Nat.min_assoc, Nat.min_self]

/-- The tokens of a call that is not finished. -/
def unfinished : Context where
  dialect := {}
  template := ""
  tokens := #[⟨.varStart, ⟨0, 2, 1, 1⟩⟩, ⟨.name "a", ⟨2, 3, 1, 3⟩⟩, ⟨.punctuation '(', ⟨3, 4, 1, 4⟩⟩,
    ⟨.eof, ⟨4, 4, 1, 5⟩⟩]

/-- Some attempts to take them. -/
def attempts : List (Σ α, Parse α) :=
  [⟨_, nextIfPunctuation '('⟩, ⟨_, next⟩, ⟨_, expectString⟩, ⟨_, expectName⟩, ⟨_, nextIf fun _ => true⟩]

/-- A token that is declined or complained about stays where it is, and no test takes the last one. -/
theorem operations_spec_unfinished :
    (performAll unfinished attempts {}).cursor = 3 ∧
    ∀ test, nextIf test unfinished (performAll unfinished attempts {}) =
      .ok none (performAll unfinished attempts {}) := by
  have hended : unfinished.Ended := by
    intro i hi
    have hlast : min i (unfinished.tokens.size - 1) = 3 :=
      Nat.min_eq_right (Nat.le_of_succ_le_succ hi)
    rw [Context.tokenAt, hlast]
    rfl
  have hops : ∀ p ∈ attempts, IsOperation p := by
    simp only [attempts, List.forall_mem_cons]
    exact ⟨⟨_, _, _, .nextIfPunctuation '('⟩, ⟨_, _, _, .next⟩, ⟨_, _, _, .expectString⟩,
      ⟨_, _, _, .expectName⟩, ⟨_, _, _, .nextIf _⟩, List.forall_mem_nil _⟩
  have hstart : ({} : State).cursor < unfinished.tokens.size := by decide
  have hcursor : (performAll unfinished attempts {}).cursor = 3 := rfl
  refine ⟨hcursor, fun test => ?_⟩
  obtain ⟨-, ⟨token, htoken, hends⟩, -⟩ := operations_spec hended hstart hops rfl
  rw [hcursor] at htoken
  obtain rfl := Option.some.inj htoken
  have hends := hends (.nextIf test)
  generalize nextIf test unfinished _ = result at hends ⊢
  cases hends with
  | takes _ heof => cases heof
  | declines hrefusal => rw [← Option.some.inj hrefusal]
  | fails hrefusal => cases hrefusal

end TwigToLatte.Parse
