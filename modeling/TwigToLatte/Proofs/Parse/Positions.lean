import TwigToLatte.Proofs.Parse.Run

/-!
# Positions among the tokens

* `kindAt` — the kind of the token at an index of a list of tokens.
* `kindAt_eq` — where the tokens end with the end of the template, it is that of the token which the
  rules see at the index.
* `Moves` — the position does not go back, nor beyond the end of the template.
* `Room` — no more tokens are left than the depth allows.
* `Peeks` — a computation that looks, and takes nothing.
-/

namespace TwigToLatte

/-- The kind of the token at an index; beyond the tokens the template has ended. -/
def kindAt (tokens : Array Token) (i : Nat) : Token.Kind :=
  (tokens.getD i Token.endOfTemplate).kind

theorem lt_size_of_kindAt {tokens : Array Token} {i : Nat} (h : kindAt tokens i ≠ .eof) :
    i < tokens.size := by
  refine Nat.lt_of_not_le fun hle => h ?_
  rw [kindAt, Array.getD_eq_getD_getElem?, Array.getElem?_eq_none hle]
  rfl

theorem Token.kind_eq_of_name? {token : Token} {name : String} (h : token.name? = some name) :
    token.kind = .name name := by
  rw [Token.name?] at h
  split at h <;> cases h
  assumption

namespace Parse

variable {α : Type} {context : Context} {depth : Nat} {state after : State}

/-! ## The end of the tokens -/

/-- From the last token on there is only the end of the template. -/
def Context.Ended (context : Context) : Prop :=
  ∀ i, context.tokens.size ≤ i + 1 → (context.tokenAt i).isEof = true

variable {i : Nat}

theorem getElem?_tokens (h : i < context.tokens.size) :
    context.tokens[i]? = some (context.tokenAt i) := by
  rw [Context.tokenAt, Nat.min_eq_left (by omega), Array.getD_eq_getD_getElem?,
    Array.getElem?_eq_getElem h]
  rfl

theorem kind_tokenAt_of_le (hended : context.Ended) (h : context.tokens.size ≤ i) :
    (context.tokenAt i).kind = .eof :=
  beq_iff_eq.mp (hended i (by omega))

theorem kindAt_eq (hended : context.Ended) (i : Nat) :
    kindAt context.tokens i = (context.tokenAt i).kind := by
  rw [kindAt, Array.getD_eq_getD_getElem?]
  by_cases hi : i < context.tokens.size
  · rw [getElem?_tokens hi]
    rfl
  · rw [kind_tokenAt_of_le hended (Nat.le_of_not_lt hi),
      Array.getElem?_eq_none (Nat.le_of_not_lt hi)]
    rfl

/-! ## Moving on -/

/-- The position does not go back, nor beyond the end of the template. -/
structure Moves (context : Context) (state after : State) : Prop where
  le : state.cursor ≤ after.cursor
  lt_size : context.Ended → state.cursor < context.tokens.size →
    after.cursor < context.tokens.size

theorem Moves.refl (state : State) : Moves context state state :=
  ⟨Nat.le_refl _, fun _ h => h⟩

theorem Moves.of_cursor_eq (h : after.cursor = state.cursor) : Moves context state after :=
  ⟨Nat.le_of_eq h.symm, fun _ hlt => h ▸ hlt⟩

theorem Moves.trans {s : State} (h : Moves context state s) (h' : Moves context s after) :
    Moves context state after :=
  ⟨Nat.le_trans h.le h'.le, fun hended hlt => h'.lt_size hended (h.lt_size hended hlt)⟩

/-- The position is before the end of the tokens, and at most `depth` tokens are left. -/
structure Room (context : Context) (depth : Nat) (state : State) : Prop where
  ended : context.Ended
  lt_size : state.cursor < context.tokens.size
  size_le : context.tokens.size ≤ state.cursor + depth

theorem Room.mono {depth' : Nat} (h : Room context depth state) (hle : depth ≤ depth') :
    Room context depth' state :=
  ⟨h.ended, h.lt_size, Nat.le_trans h.size_le (Nat.add_le_add_left hle _)⟩

theorem Room.moves (h : Room context depth state) (hm : Moves context state after) :
    Room context depth after :=
  ⟨h.ended, hm.lt_size h.ended h.lt_size,
    Nat.le_trans h.size_le (Nat.add_le_add_right hm.le _)⟩

/-- A token that is taken leaves room for a depth one less. -/
theorem Room.take (h : Room context (depth + 1) state) (hm : Moves context state after)
    (hlt : state.cursor < after.cursor) : Room context depth after := by
  refine ⟨h.ended, hm.lt_size h.ended h.lt_size, ?_⟩
  have := h.size_le
  omega

theorem not_room_zero : ¬ Room context 0 state := fun h =>
  absurd (Nat.lt_of_lt_of_le h.lt_size h.size_le) (Nat.lt_irrefl _)

/-- A token other than the end of the template is not the last one. -/
theorem moves_skip (h : (context.tokenAt state.cursor).isEof = false) :
    Moves context state (state.skip 1) := by
  refine ⟨Nat.le_succ _, fun hended _ => Nat.lt_of_not_le fun hge => ?_⟩
  rw [hended state.cursor hge] at h
  cases h

/-! ## Looking without taking -/

/-- The computation looks at the tokens and at the state, and leaves them as they are. -/
def Peeks (p : Parse α) : Prop := ∀ context state, ∃ a, p context state = .ok a state

theorem peeks_get : Peeks (get : Parse State) := fun _ _ => ⟨_, rfl⟩

theorem peeks_current : Peeks current := fun _ _ => ⟨_, rfl⟩

theorem peeks_getScope : Peeks getScope := fun _ _ => ⟨_, rfl⟩

theorem peeks_enclosingBlock : Peeks enclosingBlock := fun _ _ => ⟨_, rfl⟩

theorem peeks_isMainScope : Peeks isMainScope := fun _ _ => ⟨_, rfl⟩

end Parse

end TwigToLatte
