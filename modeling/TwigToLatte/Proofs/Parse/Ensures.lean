import TwigToLatte.Proofs.Parse.Run

/-!
# How runs end

What a computation answers where it succeeds, and what it complains about where it fails. Every part
of a run that succeeds has succeeded too, and the tokens that it took are known. The line of a fault
is a matter of the tokens that the run has seen, and the rules break no invariant of their own.

* `OnLines` — the tokens are on lines as wanted.
* `Fault.On` — a fault on such a line, that is no broken invariant.
* `Ensures` — **what holds of the answer of a run that succeeds, and of the state after it**; where it
  fails, it is with such a fault.
* `Ensures.bind`, `Ensures.loop` — sequences, and repetition by an invariant.
* `Token.Kind.isInner` — the tokens that neither start a statement nor end the template.
* `Passes` — **nothing is defined, and only such tokens are taken**.
* `passes_expectPunctuation`, `passes_nextIfName`, … — the ways to take a token.
-/

namespace TwigToLatte

/-- The tokens inside tags: they start no statement and do not end the template. -/
def Token.Kind.isInner : Token.Kind → Bool
  | .text _ | .comment _ | .verbatim _ | .varStart | .blockStart | .eof => false
  | _ => true

section

variable {token : Token}

theorem Token.isInner_of_name? (h : token.name?.isSome = true) : token.kind.isInner = true := by
  obtain ⟨kind, span⟩ := token
  cases kind <;> first | rfl | cases h

theorem Token.isInner_of_isPunctuation {mark : Char} (h : token.isPunctuation mark = true) :
    token.kind.isInner = true := by
  rw [beq_iff_eq.mp h]
  rfl

theorem Token.isInner_of_isName {name : String} (h : token.isName name = true) :
    token.kind.isInner = true := by
  rw [beq_iff_eq.mp h]
  rfl

theorem Token.isInner_of_isOperator {symbol : String} (h : token.isOperator symbol = true) :
    token.kind.isInner = true := by
  rw [beq_iff_eq.mp h]
  rfl

theorem Token.isEof_of_isInner (h : token.kind.isInner = true) : token.isEof = false := by
  obtain ⟨kind, span⟩ := token
  cases kind <;> first | rfl | cases h

end

theorem eq_ok_of_any {ε α : Type} {result : Except ε α} {p : α → Bool}
    (h : result.toOption.any p = true) : ∃ a, result = .ok a ∧ p a = true := by
  cases result with
  | error e => cases h
  | ok a => exact ⟨a, rfl, h⟩

/-- Whether the complaint is about an invariant of the rules: the stacks of the scope, or the names
that a loop assigns. -/
def Cause.isBroken : Cause → Bool
  | .unbalanced | .loopTargets => true
  | _ => false

theorem Cause.isBroken_eq_false {cause : Cause} (h : cause.kind ≠ .internal) :
    cause.isBroken = false := by
  cases cause with
  | unbalanced | loopTargets => exact absurd rfl h
  | _ => rfl

/-- The fault is on a line as wanted, and no broken invariant. -/
structure Fault.On (L : Nat → Prop) (fault : Fault) : Prop where
  line : L fault.line
  sound : fault.cause.isBroken = false

/-- The meaning of an imported name in a scope. -/
def Scope.symbol? (scope : Scope) (kind : SymbolKind) (name : String) : Option ImportedSymbol :=
  scope.imports.findSome? (·.lookup (kind, name))

namespace Parse

variable {α β : Type} {context : Context} {L : Nat → Prop} {state middle after : State}

/-! ## Answers -/

theorem Context.forall_tokenAt {P : Token → Prop} (hdefault : P .endOfTemplate)
    (h : ∀ token ∈ context.tokens, P token) (i : Nat) : P (context.tokenAt i) := by
  rw [Context.tokenAt, Array.getD_eq_getD_getElem?]
  cases hget : context.tokens[min i (context.tokens.size - 1)]? with
  | none => exact hdefault
  | some token => exact h token (Array.mem_of_getElem? hget)

/-- The tokens are on lines as wanted. -/
class OnLines (context : Context) (L : Nat → Prop) : Prop where
  token : ∀ i, L (context.tokenAt i).line

/-- The name is one of the tokens. -/
def Context.Names (context : Context) (name : String) : Prop :=
  ∃ i, (context.tokenAt i).name? = some name

theorem Context.names_tokenAt {i : Nat} (h : (context.tokenAt i).name?.isSome = true) :
    context.Names ((context.tokenAt i).name?.getD "") := by
  obtain ⟨name, hname⟩ := Option.isSome_iff_exists.mp h
  exact ⟨i, by rw [hname]; rfl⟩

/-- Any line will do. -/
def AnyLine (_ : Nat) : Prop := True

instance : OnLines context AnyLine := ⟨fun _ => trivial⟩

/-- Where the computation succeeds, its answer and the state after it are as `post` says, and where
it fails, its fault is on a line as wanted and no broken invariant. -/
def Ensures (context : Context) (L : Nat → Prop) (state : State) (p : Parse α)
    (post : α → State → Prop) : Prop :=
  match p context state with
  | .ok a after => post a after
  | .error fault _ => fault.On L

namespace Ensures

variable {p : Parse α} {f : α → Parse β} {post post' : α → State → Prop} {a : α}
  {outcome : Except Fault α}

section

variable (hp : Ensures context L state p post)

include hp

theorem of_ok (hrun : p context state = .ok a after) : post a after := by
  rw [Ensures, hrun] at hp
  exact hp

theorem of_error {fault : Fault} (hrun : p context state = .error fault after) : fault.On L := by
  rw [Ensures, hrun] at hp
  exact hp

theorem with_run :
    Ensures context L state p fun a after => p context state = .ok a after ∧ post a after := by
  cases hrun : p context state with
  | ok a after =>
    rw [Ensures, hrun]
    exact ⟨rfl, hp.of_ok hrun⟩
  | error fault after =>
    rw [Ensures, hrun]
    exact hp.of_error hrun

theorem weaken {L' : Nat → Prop} (hfault : ∀ {fault : Fault}, fault.On L → fault.On L')
    (h : ∀ a after, post a after → post' a after) : Ensures context L' state p post' := by
  unfold Ensures at hp ⊢
  split at hp
  · exact h _ _ hp
  · exact hfault hp

theorem mono (h : ∀ a after, post a after → post' a after) : Ensures context L state p post' :=
  hp.weaken id h

theorem and (hp' : Ensures context L state p post') :
    Ensures context L state p fun a after => post a after ∧ post' a after := by
  unfold Ensures at hp hp' ⊢
  cases hrun : p context state with
  | ok a after =>
    rw [hrun] at hp hp'
    exact ⟨hp, hp'⟩
  | error fault after =>
    rw [hrun] at hp
    exact hp

end

theorem pure (h : post a state) : Ensures context L state (Pure.pure a : Parse α) post := h

theorem fail {cause : Cause} {line : Nat} (h : L line) (hcause : cause.isBroken = false) :
    Ensures context L state (Parse.fail cause line : Parse α) post := ⟨h, hcause⟩

theorem check (hok : ∀ a, outcome = .ok a → post a state)
    (herror : ∀ fault, outcome = .error fault → fault.On L) :
    Ensures context L state (Parse.check outcome) post := by
  cases outcome with
  | ok a => exact hok a rfl
  | error fault => exact herror fault rfl

theorem checked (herror : ∀ fault, outcome = .error fault → fault.On L) :
    Ensures context L state (Parse.check outcome) fun a after => outcome = .ok a ∧ after = state :=
  check (fun _ h => ⟨h, rfl⟩) herror

section

variable {post : β → State → Prop} {mid : α → State → Prop}

theorem bind (hp : Ensures context L state p mid)
    (hf : ∀ a middle, mid a middle → Ensures context L middle (f a) post) :
    Ensures context L state (p >>= f) post := by
  cases hrun : p context state with
  | ok a middle =>
    rw [Ensures, bind_eq_of_ok hrun]
    exact hf a middle (hp.of_ok hrun)
  | error fault middle =>
    rw [Ensures, bind_eq_of_error hrun]
    exact hp.of_error hrun

theorem map {g : α → β} (hp : Ensures context L state p mid)
    (h : ∀ a after, mid a after → post (g a) after) : Ensures context L state (g <$> p) post :=
  bind (f := fun a => Pure.pure (g a)) hp fun a middle hmid => pure (h a middle hmid)

end

/-! ### Looking ahead -/

section

variable {post : β → State → Prop}

theorem pure_bind {a : α} (h : Ensures context L state (f a) post) :
    Ensures context L state (Pure.pure a >>= f) post := h

theorem read {f : Context → Parse β} (h : Ensures context L state (f context) post) :
    Ensures context L state (MonadReader.read >>= f) post := h

theorem current {f : Token → Parse β}
    (h : Ensures context L state (f (context.tokenAt state.cursor)) post) :
    Ensures context L state (Parse.current >>= f) post := h

theorem currentLine {f : Nat → Parse β}
    (h : Ensures context L state (f (context.tokenAt state.cursor).line) post) :
    Ensures context L state (Parse.currentLine >>= f) post := h

theorem getScope {f : Scope → Parse β} (h : Ensures context L state (f state.scope) post) :
    Ensures context L state (Parse.getScope >>= f) post := h

theorem enclosingBlock {f : Option String → Parse β}
    (h : Ensures context L state (f state.scope.blockStack.head?) post) :
    Ensures context L state (Parse.enclosingBlock >>= f) post := h

theorem isMainScope {f : Bool → Parse β}
    (h : Ensures context L state (f (state.scope.imports.length == 1)) post) :
    Ensures context L state (Parse.isMainScope >>= f) post := h

variable {g : Scope → Scope}

theorem modifiedScope {post : Unit → State → Prop}
    (h : post () { state with scope := g state.scope }) :
    Ensures context L state (Parse.modifyScope g) post := h

theorem modifyScope {f : Unit → Parse β}
    (h : Ensures context L { state with scope := g state.scope } (f ()) post) :
    Ensures context L state (Parse.modifyScope g >>= f) post := h

end

theorem withScope {inner : Scope}
    (h : Ensures context L { state with scope := inner } p fun a after =>
      post a { after with scope := state.scope }) :
    Ensures context L state (Parse.withScope inner p) post := by
  rw [Ensures, Parse.withScope]
  cases hrun : p context { state with scope := inner } with
  | ok a middle => exact h.of_ok hrun
  | error fault middle => exact h.of_error hrun

/-! ### Repetition -/

section

variable [OnLines context L] {step : β → Parse (β ⊕ α)} {post : α → State → Prop}

/-- What every round keeps, and what the last one gives. -/
theorem iterate (inv : β → State → Prop)
    (hstep : ∀ b s, inv b s → Ensures context L s (step b) fun outcome after =>
      outcome.elim (inv · after) (post · after)) :
    ∀ (limit : Nat) (b : β) (state : State), inv b state →
      Ensures context L state (Parse.iterate step limit b) post
  | 0, _, _, _ => currentLine (fail (OnLines.token _) rfl)
  | limit + 1, b, state, hinv => by
    refine bind (hstep b state hinv) fun outcome middle hmid => ?_
    cases outcome with
    | inl b' => exact iterate inv hstep limit b' middle hmid
    | inr answer => exact pure hmid

theorem loop (inv : β → State → Prop) {start : β} (hstart : inv start state)
    (hstep : ∀ b s, inv b s → Ensures context L s (step b) fun outcome after =>
      outcome.elim (inv · after) (post · after)) :
    Ensures context L state (Parse.loop start step) post := by
  rw [Ensures, loop_eq]
  exact iterate inv hstep _ start state hstart

end

end Ensures

/-! ## Tokens -/

/-- Between the states only tokens inside tags are taken, and nothing is defined. -/
structure Passes (context : Context) (state after : State) : Prop where
  scope_eq : after.scope = state.scope
  le : state.cursor ≤ after.cursor
  inner : ∀ i, state.cursor ≤ i → i < after.cursor → (context.tokenAt i).kind.isInner = true

namespace Passes

theorem refl (state : State) : Passes context state state :=
  ⟨rfl, Nat.le_refl _, fun _ hle hlt => absurd (Nat.lt_of_le_of_lt hle hlt) (Nat.lt_irrefl _)⟩

theorem trans (h : Passes context state middle) (h' : Passes context middle after) :
    Passes context state after := by
  refine ⟨h'.scope_eq.trans h.scope_eq, Nat.le_trans h.le h'.le, fun i hle hlt => ?_⟩
  by_cases hi : i < middle.cursor
  · exact h.inner i hle hi
  · exact h'.inner i (Nat.le_of_not_lt hi) hlt

theorem skip (h : (context.tokenAt state.cursor).kind.isInner = true) :
    Passes context state (state.skip 1) := by
  refine ⟨rfl, Nat.le_succ _, fun i hle hlt => ?_⟩
  have : i = state.cursor := by
    rw [State.cursor_skip] at hlt
    omega
  rw [this]
  exact h

end Passes

variable {test : Token → Bool}

theorem ensures_nextIf (heof : ∀ token, test token = true → token.isEof = false) :
    Ensures context L state (nextIf test) fun found after =>
      found = (if test (context.tokenAt state.cursor) then some (context.tokenAt state.cursor)
        else none) ∧ after = if found.isSome then state.skip 1 else state := by
  refine .current ?_
  cases htest : test (context.tokenAt state.cursor) with
  | true =>
    rw [heof _ htest]
    exact ⟨rfl, rfl⟩
  | false => exact .pure ⟨rfl, rfl⟩

theorem passes_nextIf (htest : ∀ token, test token = true → token.kind.isInner = true) :
    Ensures context L state (nextIf test) fun _ after => Passes context state after := by
  have heof : ∀ token : Token, test token = true → token.isEof = false :=
    fun token h => Token.isEof_of_isInner (htest token h)
  refine (ensures_nextIf heof).mono fun found after hmid => ?_
  obtain ⟨rfl, rfl⟩ := hmid
  cases hfound : test (context.tokenAt state.cursor) with
  | true => exact .skip (htest _ hfound)
  | false => exact .refl state

theorem ensures_nextIfPunctuation (mark : Char) :
    Ensures context L state (nextIfPunctuation mark) fun found after =>
      found.isSome = (context.tokenAt state.cursor).isPunctuation mark ∧
        after = if found.isSome then state.skip 1 else state := by
  refine (ensures_nextIf fun _ h => Token.isEof_of_isInner
    (Token.isInner_of_isPunctuation h)).mono fun found m hmid => ⟨?_, hmid.2⟩
  rw [hmid.1]
  cases (context.tokenAt state.cursor).isPunctuation mark <;> rfl

theorem passes_nextIfPunctuation (mark : Char) :
    Ensures context L state (nextIfPunctuation mark) fun _ after => Passes context state after :=
  passes_nextIf fun _ => Token.isInner_of_isPunctuation

theorem passes_nextIfName (name : String) :
    Ensures context L state (nextIfName name) fun _ after => Passes context state after :=
  passes_nextIf fun _ => Token.isInner_of_isName

section

variable [OnLines context L]

theorem ensures_next : Ensures context L state next fun token after =>
    token = context.tokenAt state.cursor ∧ after = state.skip 1 := by
  refine .current ?_
  split
  · exact .fail (OnLines.token _) rfl
  · exact ⟨rfl, rfl⟩

theorem passes_next (h : (context.tokenAt state.cursor).kind.isInner = true) :
    Ensures context L state next fun token after =>
      token = context.tokenAt state.cursor ∧ Passes context state after :=
  ensures_next.mono fun _ _ hmid => ⟨hmid.1, hmid.2 ▸ .skip h⟩

theorem passes_nextIfOperator (symbol : String) :
    Ensures context L state (nextIfOperator symbol) fun found after =>
      (∀ token ∈ found, L token.line) ∧ Passes context state after := by
  have hinner : ∀ token : Token, token.isOperator symbol = true → token.kind.isInner = true :=
    fun _ => Token.isInner_of_isOperator
  refine (ensures_nextIf fun _ h => Token.isEof_of_isInner (hinner _ h)).mono
    fun found after hmid => ?_
  obtain ⟨rfl, rfl⟩ := hmid
  split
  · rename_i hfound
    refine ⟨fun token htoken => ?_, .skip (hinner _ hfound)⟩
    cases htoken
    exact OnLines.token _
  · exact ⟨nofun, .refl state⟩

variable {test : Token → Bool} {wanted : String} {note : Option String} {element : Parse α}

theorem ensures_expect :
    Ensures context L state (expect test wanted note) fun token after =>
      token = context.tokenAt state.cursor ∧ after = state.skip 1 ∧ test token = true := by
  refine .current ?_
  split
  · rename_i htest
    exact ensures_next.mono fun token after hmid => ⟨hmid.1, hmid.2, hmid.1 ▸ htest⟩
  · exact .fail (OnLines.token _) rfl

theorem passes_expect (htest : ∀ token, test token = true → token.kind.isInner = true) :
    Ensures context L state (expect test wanted note) fun _ after => Passes context state after := by
  refine ensures_expect.mono fun token after hmid => ?_
  obtain ⟨rfl, rfl, hfound⟩ := hmid
  exact .skip (htest _ hfound)

theorem passes_expectPunctuation (mark : Char) (note : Option String) :
    Ensures context L state (expectPunctuation mark note) fun _ after =>
      Passes context state after :=
  passes_expect fun _ => Token.isInner_of_isPunctuation

theorem passes_expectOperator (symbol : String) :
    Ensures context L state (expectOperator symbol) fun _ after => Passes context state after :=
  passes_expect fun _ => Token.isInner_of_isOperator

theorem passes_expectNameValue (name : String) :
    Ensures context L state (expectNameValue name) fun _ after => Passes context state after :=
  passes_expect fun _ => Token.isInner_of_isName

theorem ensures_expectName : Ensures context L state expectName fun name after =>
    (context.tokenAt state.cursor).name? = some name ∧ after = state.skip 1 := by
  refine .bind ensures_expect fun token after hmid => ?_
  obtain ⟨rfl, rfl, hfound⟩ := hmid
  obtain ⟨name, hname⟩ := Option.isSome_iff_exists.mp hfound
  exact .pure ⟨by rw [hname]; rfl, rfl⟩

theorem passes_expectName :
    Ensures context L state expectName fun _ after => Passes context state after := by
  refine ensures_expectName.mono fun name after hmid => ?_
  obtain ⟨hname, rfl⟩ := hmid
  exact .skip (Token.isInner_of_name? (by rw [hname]; rfl))

theorem passes_expectBlockEnd :
    Ensures context L state expectBlockEnd fun _ after => Passes context state after :=
  passes_expect fun _ htest => by rw [beq_iff_eq.mp htest]; rfl

theorem passes_expectVarEnd :
    Ensures context L state expectVarEnd fun _ after => Passes context state after :=
  passes_expect fun _ htest => by rw [beq_iff_eq.mp htest]; rfl

/-! ### Lists -/

end

/-! ### Records and new names -/

theorem ensures_record (r : Log.Record) : Ensures context L state (record r) fun _ after =>
    after = { state with log := state.log.push r } := rfl

theorem passes_record (r : Log.Record) :
    Ensures context L state (record r) fun _ after => Passes context state after :=
  ⟨rfl, Nat.le_refl _, (Passes.refl state).inner⟩

theorem passes_freshName :
    Ensures context L state freshName fun _ after => Passes context state after :=
  ⟨rfl, Nat.le_refl _, (Passes.refl state).inner⟩

end Parse

end TwigToLatte
