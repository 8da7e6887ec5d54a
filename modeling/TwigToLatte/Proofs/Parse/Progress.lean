import TwigToLatte.Proofs.Parse.Ensures
import TwigToLatte.Proofs.Parse.Positions

/-!
# Progress of parsing computations

Repetition and nesting are bounded, and a bound that is reached is a fault of its own. A bound is
no part of what is read if it is never reached and if a larger one gives the same outcome. So two
computations are compared that differ at most in their bounds. They may run in two dialects too, as
long as the second one offers what the first one does. What the first one answers, and how it changes
the state, is known along the way.

* `Dialect.Covers` — a dialect that offers what another one does. It may know more filters and
  functions, where the fault of the other one is excused.
* `Comparison`, `Reading` — the two dialects, and what is known of the first run.
* `Reads` — **a computation never moves back, takes a token with the answers for which it is asked
  to, reaches no bound where the depth has room, gives what the second one gives, and answers as
  wanted**.
* `Reads.bind`, `Reads.take`, `Reads.descend` — sequences; a token that is taken makes the depth one
  less.
* `Reads.loop` — repetition, in which every round but the last takes a token.
* `Advances` — the same, where nothing is known of the answers.
* `Deepens`, `Deepens.eq_deepest` — **computations for all depths, of which those with a level for
  each token that is left are one**.
-/

namespace TwigToLatte

/-- The second dialect offers what the first one does. Where it knows a filter or a function that
the first one does not, the fault of the first one is excused. -/
structure Dialect.Covers (excused : Fault → Prop) (dialect dialect' : Dialect) : Prop where
  unary : dialect'.unary = dialect.unary
  binary : dialect'.binary = dialect.binary
  tests : dialect'.tests = dialect.tests
  tags : dialect'.tags = dialect.tags
  filterNames : dialect'.filters.keys = dialect.filters.keys
  functionNames : dialect'.functions.keys = dialect.functions.keys
  filter : ∀ name, dialect'.filter? name = dialect.filter? name ∨ dialect.filter? name = none ∧
    ∀ line, excused ⟨.unknownFilter name dialect.filters.keys, line⟩
  function : ∀ name, dialect'.function? name = dialect.function? name ∨
    dialect.function? name = none ∧
      ∀ line, excused ⟨.unknownFunction name dialect.functions.keys, line⟩

theorem Dialect.Covers.mono {excused excused' : Fault → Prop} {dialect dialect' : Dialect}
    (hd : dialect.Covers excused dialect') (h : ∀ fault, excused fault → excused' fault) :
    dialect.Covers excused' dialect' :=
  { hd with
    filter := fun name => (hd.filter name).imp_right fun ⟨hnone, hall⟩ =>
      ⟨hnone, fun line => h _ (hall line)⟩
    function := fun name => (hd.function name).imp_right fun ⟨hnone, hall⟩ =>
      ⟨hnone, fun line => h _ (hall line)⟩ }

/-- Whether the complaint is about a bound that was reached. -/
def Cause.isBound : Cause → Bool
  | .internal _ => true
  | _ => false

theorem Cause.isBound_eq_false {cause : Cause} (h : cause.kind ≠ .internal) :
    cause.isBound = false := by
  cases cause with
  | internal message => exact absurd rfl h
  | _ => rfl

/-- A bound on repetition or on nesting was reached. -/
def Fault.Exhausted (fault : Fault) : Prop := fault.cause.isBound = true

namespace Parse

variable {α β : Type}

/-! ## Comparisons -/

/-- The same tokens are read in two dialects. A fault of the first reading is excused if it is a
bound that was reached, or a name that only the second dialect knows. -/
structure Comparison where
  context : Context
  dialect : Dialect
  excused : Fault → Prop
  exhausted : ∀ fault, fault.Exhausted → excused fault
  covers : context.dialect.Covers excused dialect

namespace Comparison

/-- The context of the second reading. -/
def other (v : Comparison) : Context := { v.context with dialect := v.dialect }

theorem unary_other (v : Comparison) : v.other.dialect.unary = v.context.dialect.unary :=
  v.covers.unary

theorem binary_other (v : Comparison) : v.other.dialect.binary = v.context.dialect.binary :=
  v.covers.binary

theorem tests_other (v : Comparison) : v.other.dialect.tests = v.context.dialect.tests :=
  v.covers.tests

theorem tags_other (v : Comparison) : v.other.dialect.tags = v.context.dialect.tags :=
  v.covers.tags

/-- Two readings in the same dialect. -/
def same (context : Context) : Comparison where
  context := context
  dialect := context.dialect
  excused := Fault.Exhausted
  exhausted _ h := h
  covers := ⟨rfl, rfl, rfl, rfl, rfl, rfl, fun _ => .inl rfl, fun _ => .inl rfl⟩

end Comparison

/-- The position is before the end of the tokens, the last of which ends the template. -/
structure Inside (context : Context) (state : State) : Prop where
  ended : context.Ended
  lt_size : state.cursor < context.tokens.size

section

variable {context : Context} {depth : Nat} {state after : State}

theorem Inside.moves (h : Inside context state) (hm : Moves context state after) :
    Inside context after :=
  ⟨h.ended, hm.lt_size h.ended h.lt_size⟩

theorem Inside.room (h : Inside context state) (hle : context.tokens.size ≤ state.cursor + depth) :
    Room context depth state :=
  ⟨h.ended, h.lt_size, hle⟩

variable {scope : Scope} {p : Parse α} {fault : Fault}

theorem withScope_of_ok {a : α} (h : p context { state with scope } = .ok a after) :
    withScope scope p context state = .ok a { after with scope := state.scope } := by
  rw [withScope, h]

theorem withScope_of_error (h : p context { state with scope } = .error fault after) :
    withScope scope p context state = .error fault { after with scope := state.scope } := by
  rw [withScope, h]

theorem next_of_isEof (h : (context.tokenAt state.cursor).isEof = true) :
    next context state = .error ⟨.endOfTemplate, (context.tokenAt state.cursor).line⟩ state := by
  rw [next, bind_eq_of_ok (a := context.tokenAt state.cursor) rfl, if_pos h]
  rfl

theorem next_of_not_isEof (h : (context.tokenAt state.cursor).isEof = false) :
    next context state = .ok (context.tokenAt state.cursor) (state.skip 1) := by
  rw [next, bind_eq_of_ok (a := context.tokenAt state.cursor) rfl, if_neg (Bool.eq_false_iff.mp h)]
  rfl

end

/-! ## Readings -/

/-- What is known of the first of two readings: the states in which it takes place and how it
changes them, the tokens that it takes and their lines, and the faults with which it ends. -/
structure Reading extends Comparison where
  here : State → Prop
  keeps : State → State → Prop
  takes : Token.Kind → Prop
  lines : Nat → Prop
  faults : Fault → Prop
  keeps_refl : ∀ state, keeps state state
  keeps_trans : ∀ {s s' s'' : State}, keeps s s' → keeps s' s'' → keeps s s''
  keeps_skip : ∀ {state : State}, takes (context.tokenAt state.cursor).kind →
    keeps state (state.skip 1)
  keeps_log : ∀ (state : State) (log : Array Log.Record), keeps state { state with log }
  here_of_keeps : ∀ {s s' : State}, keeps s s' → here s → here s'
  takes_punctuation : ∀ mark, takes (.punctuation mark)
  lines_token : ∀ i, lines (context.tokenAt i).line
  faults_of_line : ∀ {cause : Cause} {line : Nat}, lines line → cause.isBroken = false →
    faults ⟨cause, line⟩

/-- A comparison alone, where nothing is known of the first reading. -/
def Comparison.loose (v : Comparison) : Reading :=
  { v with
    here := fun _ => True, keeps := fun _ _ => True, takes := fun _ => True, lines := fun _ => True
    faults := fun _ => True, keeps_refl := fun _ => trivial, keeps_trans := fun _ _ => trivial
    keeps_skip := fun _ => trivial, keeps_log := fun _ _ => trivial
    here_of_keeps := fun _ _ => trivial, takes_punctuation := fun _ => trivial
    lines_token := fun _ => trivial, faults_of_line := fun _ _ => trivial }

variable {v : Reading} {depth : Nat} {state after : State}

theorem Reading.takes_of_isPunctuation (v : Reading) {token : Token} {mark : Char}
    (h : token.isPunctuation mark = true) : v.takes token.kind := by
  rw [beq_iff_eq.mp h]
  exact v.takes_punctuation mark

/-- Every answer. -/
abbrev always : α → Prop := fun _ => True

/-- No answer. -/
abbrev never : α → Prop := fun _ => False

/-- An answer of the first computation, which the second one gives too. -/
structure Answers (v : Reading) (taking : α → Prop) (post : α → State → Prop) (p' : Parse α)
    (state : State) (a : α) (after : State) : Prop where
  moves : Moves v.context state after
  took : taking a → state.cursor < after.cursor
  keeps : v.keeps state after
  known : post a after
  same : Inside v.context state → p' v.other state = .ok a after

/-- A fault of the first computation, which the second one has too unless it is excused. -/
structure Faults (v : Reading) (depth : Nat) (p' : Parse α) (state : State) (fault : Fault)
    (after : State) : Prop where
  moves : Moves v.context state after
  bound : Room v.context depth state → ¬ fault.Exhausted
  known : v.faults fault
  same : Inside v.context state → p' v.other state = .error fault after ∨ v.excused fault

/-- From the state, the first computation never moves back, takes a token for the answers in
`taking`, answers as `post` says, and reaches no bound if the depth has room; the second one gives
the same outcome, unless the fault of the first is excused. -/
structure ReadsAt (v : Reading) (depth : Nat) (taking : α → Prop) (post : α → State → Prop)
    (p p' : Parse α) (state : State) : Prop where
  ok : ∀ {a after}, p v.context state = .ok a after → Answers v taking post p' state a after
  error : ∀ {fault after}, p v.context state = .error fault after →
    Faults v depth p' state fault after

/-- The same from every state where the reading takes place. -/
def Reads (v : Reading) (depth : Nat) (taking post : α → Prop) (p p' : Parse α) : Prop :=
  ∀ state, v.here state → ReadsAt v depth taking (fun a _ => post a) p p' state

/-- The first computation advances as the second one does, where nothing else is known of it. -/
abbrev Advances (v : Comparison) (depth : Nat) (taking : α → Prop) (p p' : Parse α) : Prop :=
  Reads v.loose depth taking always p p'

namespace ReadsAt

section

variable {p p' q q' : Parse α} {taking taking' : α → Prop} {post post' : α → State → Prop} {a : α}
  {fault : Fault}

theorem of_ok (h : p v.context state = .ok a after) (hanswers : Answers v taking post p' state a after) :
    ReadsAt v depth taking post p p' state where
  ok hrun := by
    cases h.symm.trans hrun
    exact hanswers
  error hrun := by cases h.symm.trans hrun

theorem of_error (h : p v.context state = .error fault after)
    (hfaults : Faults v depth p' state fault after) : ReadsAt v depth taking post p p' state where
  ok hrun := by cases h.symm.trans hrun
  error hrun := by
    cases h.symm.trans hrun
    exact hfaults

theorem congr (h : ReadsAt v depth taking post q q' state)
    (hp : p v.context state = q v.context state)
    (hp' : Inside v.context state → p' v.other state = q' v.other state) :
    ReadsAt v depth taking post p p' state where
  ok hrun :=
    have hq := h.ok (hp.symm.trans hrun)
    { hq with same := fun hin => (hp' hin).trans (hq.same hin) }
  error hrun :=
    have hq := h.error (hp.symm.trans hrun)
    { hq with same := fun hin => (hq.same hin).imp_left (hp' hin).trans }

/-- Less may be asked for, and the depth matters only where it leaves room. -/
theorem weaken {depth' : Nat} (hp : ReadsAt v depth taking post p p' state)
    (htaking : ∀ a, taking' a → taking a) (hpost : ∀ a after, post a after → post' a after)
    (hdepth : Room v.context depth' state → Room v.context depth state) :
    ReadsAt v depth' taking' post' p p' state where
  ok hrun :=
    have h := hp.ok hrun
    { h with took := fun ha => h.took (htaking _ ha), known := hpost _ _ h.known }
  error hrun :=
    have h := hp.error hrun
    { h with bound := fun hroom => h.bound (hdepth hroom) }

theorem mono (hp : ReadsAt v depth taking post p p' state) (htaking : ∀ a, taking' a → taking a) :
    ReadsAt v depth taking' post p p' state := hp.weaken htaking (fun _ _ => id) id

theorem answer (h : ¬ taking a) (hpost : post a state) :
    ReadsAt v depth taking post (Pure.pure a) (Pure.pure a) state :=
  .of_ok rfl ⟨.refl state, (absurd · h), v.keeps_refl state, hpost, fun _ => rfl⟩

theorem fail {cause : Cause} {line : Nat} (hfault : v.faults ⟨cause, line⟩)
    (h : cause.isBound = false) :
    ReadsAt v depth taking post (Parse.fail cause line) (Parse.fail cause line) state :=
  .of_error rfl ⟨.refl state, fun _ => Bool.eq_false_iff.mp h, hfault, fun _ => .inl rfl⟩

theorem ask {k k' : Context → Parse α}
    (h : ReadsAt v depth taking post (k v.context) (k' v.other) state) :
    ReadsAt v depth taking post (read >>= k) (read >>= k') state :=
  h.congr rfl fun _ => rfl

end

theorem next (h : v.takes (v.context.tokenAt state.cursor).kind) :
    ReadsAt v depth always
      (fun token after => token = v.context.tokenAt state.cursor ∧ after = state.skip 1) Parse.next
      Parse.next state := by
  cases heof : (v.context.tokenAt state.cursor).isEof with
  | true =>
    exact .of_error (next_of_isEof heof) ⟨.refl state, fun _ => Bool.false_ne_true,
      v.faults_of_line (v.lines_token _) rfl, fun _ => .inl (next_of_isEof heof)⟩
  | false =>
    exact .of_ok (next_of_not_isEof heof) ⟨moves_skip heof, fun _ => Nat.lt_succ_self _,
      v.keeps_skip h, ⟨rfl, rfl⟩, fun _ => next_of_not_isEof heof⟩

/-- A fault that comes right after a token, which may be any token. -/
theorem next_of_fail {f : Token → Parse α} {taking : α → Prop} {post : α → State → Prop}
    {cause : Cause} {line : Nat} (h : f (v.context.tokenAt state.cursor) = Parse.fail cause line)
    (hfault : v.faults ⟨cause, line⟩) (hcause : cause.isBound = false) :
    ReadsAt v depth taking post (Parse.next >>= f) (Parse.next >>= f) state := by
  cases heof : (v.context.tokenAt state.cursor).isEof with
  | true =>
    exact .of_error (bind_eq_of_error (next_of_isEof heof)) ⟨.refl state,
      fun _ => Bool.false_ne_true, v.faults_of_line (v.lines_token _) rfl,
      fun _ => .inl (bind_eq_of_error (@next_of_isEof v.other _ heof))⟩
  | false =>
    have hrun : ∀ context, f (v.context.tokenAt state.cursor) context (state.skip 1) =
        .error ⟨cause, line⟩ (state.skip 1) := fun _ => by rw [h]; rfl
    exact .of_error ((bind_eq_of_ok (next_of_not_isEof heof)).trans (hrun _)) ⟨moves_skip heof,
      fun _ => Bool.eq_false_iff.mp hcause, hfault,
      fun _ => .inl ((bind_eq_of_ok (@next_of_not_isEof v.other _ heof)).trans (hrun _))⟩

variable {p p' : Parse α} {f f' : α → Parse β} {mid : α → Prop} {taking : β → Prop}

/-- What is seen without taking a token. -/
theorem peek {post : β → State → Prop} {a : α} (h : ReadsAt v depth taking post (f a) (f' a) state)
    (hp : p v.context state = .ok a state) (hp' : p' v.other state = .ok a state) :
    ReadsAt v depth taking post (p >>= f) (p' >>= f') state :=
  h.congr (bind_eq_of_ok hp) fun _ => bind_eq_of_ok hp'

/-- A sequence. The second part may be built for another depth if there is room for it whenever
there was for the first, and it owes a token only where the first part has taken none. -/
theorem bind {known : α → State → Prop} {post : β → State → Prop} (depth' : α → Nat)
    (hp : ReadsAt v depth mid known p p' state)
    (hroom : ∀ a after, Moves v.context state after → (mid a → state.cursor < after.cursor) →
      Room v.context depth state → Room v.context (depth' a) after)
    (hf : ∀ a after, v.keeps state after → (mid a → state.cursor < after.cursor) → known a after →
      ReadsAt v (depth' a) (fun b => taking b ∧ ¬ mid a) post (f a) (f' a) after) :
    ReadsAt v depth taking post (p >>= f) (p' >>= f') state := by
  cases h : p v.context state with
  | ok a s =>
    have ha := hp.ok h
    have hfa := hf a s ha.keeps ha.took ha.known
    cases hrun : f a v.context s with
    | ok b s' =>
      have hb := hfa.ok hrun
      refine .of_ok ((bind_eq_of_ok h).trans hrun) ⟨ha.moves.trans hb.moves, fun htaking => ?_,
        v.keeps_trans ha.keeps hb.keeps, hb.known, fun hin => ?_⟩
      · by_cases hmid : mid a
        · exact Nat.lt_of_lt_of_le (ha.took hmid) hb.moves.le
        · exact Nat.lt_of_le_of_lt ha.moves.le (hb.took ⟨htaking, hmid⟩)
      · exact (bind_eq_of_ok (ha.same hin)).trans (hb.same (hin.moves ha.moves))
    | error fault s' =>
      have hb := hfa.error hrun
      refine .of_error ((bind_eq_of_ok h).trans hrun) ⟨ha.moves.trans hb.moves,
        fun hr => hb.bound (hroom a s ha.moves ha.took hr), hb.known, fun hin => ?_⟩
      exact (hb.same (hin.moves ha.moves)).imp_left (bind_eq_of_ok (ha.same hin)).trans
  | error fault s =>
    have ha := hp.error h
    exact .of_error (bind_eq_of_error h)
      { ha with same := fun hin => (ha.same hin).imp_left bind_eq_of_error }

section

variable {known : α → State → Prop} {post : β → State → Prop} (hs : v.here state)

include hs

/-- A sequence whose second part owes a token only where the first has taken none. -/
theorem owing (hp : ReadsAt v depth mid known p p' state)
    (hf : ∀ a after, v.here after → known a after →
      ReadsAt v depth (fun b => taking b ∧ ¬ mid a) post (f a) (f' a) after) :
    ReadsAt v depth taking post (p >>= f) (p' >>= f') state :=
  hp.bind (fun _ => depth) (fun _ _ hm _ hroom => hroom.moves hm) fun a after hkeeps _ hknown =>
    hf a after (v.here_of_keeps hkeeps hs) hknown

/-- A sequence whose first part takes a token, so that the second part may be built for a depth
one less. -/
theorem deeper (hp : ReadsAt v (depth + 1) always known p p' state)
    (hf : ∀ a after, v.here after → known a after → ReadsAt v depth never post (f a) (f' a) after) :
    ReadsAt v (depth + 1) taking post (p >>= f) (p' >>= f') state :=
  hp.bind (fun _ => depth) (fun _ _ hm hlt hroom => hroom.take hm (hlt trivial))
    fun a after hkeeps _ hknown =>
      (hf a after (v.here_of_keeps hkeeps hs) hknown).mono fun _ h => h.2 trivial

end

variable {post : β → Prop} {token : Token} {f f' : Token → Parse β} (hs : v.here state)
  (h : v.takes (v.context.tokenAt state.cursor).kind)

include hs h

theorem take (hf : Reads v depth never post (f (v.context.tokenAt state.cursor))
      (f' (v.context.tokenAt state.cursor))) :
    ReadsAt v depth taking (fun b _ => post b) (Parse.next >>= f) (Parse.next >>= f') state := by
  refine (next h).owing hs fun token after hafter htoken => ?_
  rw [htoken.1]
  exact (hf after hafter).mono fun _ h => h.2 trivial

theorem descend (hf : Reads v depth never post (f (v.context.tokenAt state.cursor))
      (f' (v.context.tokenAt state.cursor))) :
    ReadsAt v (depth + 1) taking (fun b _ => post b) (Parse.next >>= f) (Parse.next >>= f')
      state := by
  refine (next h).deeper hs fun token after hafter htoken => ?_
  rw [htoken.1]
  exact hf after hafter

end ReadsAt

namespace Reads

section

variable {p p' : Parse α} {f f' : α → Parse β} {mid known : α → Prop} {taking post : β → Prop}

theorem weaken {taking taking' post post' : α → Prop} (hp : Reads v depth taking post p p')
    (htaking : ∀ a, taking' a → taking a) (hpost : ∀ a, post a → post' a) :
    Reads v depth taking' post' p p' :=
  fun state hs => (hp state hs).weaken htaking (fun a _ => hpost a) id

theorem mono {taking taking' post : α → Prop} (hp : Reads v depth taking post p p')
    (h : ∀ a, taking' a → taking a) : Reads v depth taking' post p p' := hp.weaken h fun _ => id

theorem forget {taking post : α → Prop} (hp : Reads v depth taking post p p') :
    Reads v depth never post p p' := hp.mono fun _ => False.elim

theorem lower {taking post : α → Prop} (hp : Reads v (depth + 1) taking post p p') :
    Reads v depth taking post p p' := fun state hs =>
  (hp state hs).weaken (fun _ => id) (fun _ _ => id) fun hroom => hroom.mono (Nat.le_succ depth)

/-- A sequence whose second part owes a token only where the first has taken none. -/
theorem bind_owing (hp : Reads v depth mid known p p')
    (hf : ∀ a, known a → Reads v depth (fun b => taking b ∧ ¬ mid a) post (f a) (f' a)) :
    Reads v depth taking post (p >>= f) (p' >>= f') :=
  fun state hs => (hp state hs).owing hs fun a after hs ha => hf a ha after hs

/-- A sequence; what the second part promises about tokens holds of the whole. -/
theorem bind (hp : Reads v depth mid known p p')
    (hf : ∀ a, known a → Reads v depth taking post (f a) (f' a)) :
    Reads v depth taking post (p >>= f) (p' >>= f') :=
  hp.bind_owing fun a ha => (hf a ha).mono fun _ => And.left

theorem take (hp : Reads v depth always known p p')
    (hf : ∀ a, known a → Reads v depth never post (f a) (f' a)) :
    Reads v depth taking post (p >>= f) (p' >>= f') :=
  hp.bind_owing fun a ha => (hf a ha).mono fun _ h => h.2 trivial

theorem descend (hp : Reads v (depth + 1) always known p p')
    (hf : ∀ a, known a → Reads v depth never post (f a) (f' a)) :
    Reads v (depth + 1) taking post (p >>= f) (p' >>= f') :=
  fun state hs => (hp state hs).deeper hs fun a after hs ha => hf a ha after hs

/-- A choice by the next token: where it is taken, the depth may be one less. -/
theorem choose {p p' : Parse (Option Token)} {f f' : Option Token → Parse β}
    {known : Option Token → Prop} (hp : Reads v (depth + 1) (·.isSome = true) known p p')
    (hsome : ∀ token, Reads v depth never post (f (some token)) (f' (some token)))
    (hnone : Reads v (depth + 1) taking post (f none) (f' none)) :
    Reads v (depth + 1) taking post (p >>= f) (p' >>= f') := by
  refine fun state hs =>
    (hp state hs).bind (fun taken => if taken.isSome then depth else depth + 1) ?_ ?_
  · intro taken after hm hlt hroom
    cases taken with
    | some => exact hroom.take hm (hlt rfl)
    | none => exact hroom.moves hm
  · intro taken after hkeeps _ _
    have hs' := v.here_of_keeps hkeeps hs
    cases taken with
    | some token => exact (hsome token after hs').mono fun _ h => h.2 rfl
    | none => exact (hnone after hs').mono fun _ => And.left

theorem map (g : α → β) (hp : Reads v depth always known p p') (h : ∀ a, known a → post (g a)) :
    Reads v depth taking post (g <$> p) (g <$> p') :=
  hp.take fun a ha _ _ => .answer id (h a ha)

end

/-! ### Answers and faults -/

section

variable {p p' q q' : Parse α} {taking post : α → Prop} {a : α} {cause : Cause} {line : Nat}

theorem answer (h : ¬ taking a) (hpost : post a) :
    Reads v depth taking post (Pure.pure a : Parse α) (Pure.pure a) :=
  fun _ _ => .answer h hpost

theorem pure (h : post a) : Reads v depth never post (Pure.pure a : Parse α) (Pure.pure a) :=
  answer id h

theorem fail (hfault : v.faults ⟨cause, line⟩) (h : cause.isBound = false) :
    Reads v depth taking post (Parse.fail cause line : Parse α) (Parse.fail cause line) :=
  fun _ _ => .fail hfault h

/-- A fault that is excused, whatever the second computation does. -/
theorem excuse (hfault : v.faults ⟨cause, line⟩) (h : cause.isBound = false)
    (hexcused : v.excused ⟨cause, line⟩) :
    Reads v depth taking post (Parse.fail cause line : Parse α) p' :=
  fun state _ => .of_error rfl
    ⟨.refl state, fun _ => Bool.eq_false_iff.mp h, hfault, fun _ => .inr hexcused⟩

/-- A bound on nesting is reached where there is no depth. -/
theorem exhaust {message : String} :
    Reads v 0 taking post
      (do Parse.fail (.internal message) (← Parse.currentLine) : Parse α) p' :=
  fun state _ => .of_error rfl ⟨.refl state, fun hroom => absurd hroom not_room_zero,
    v.faults_of_line (v.lines_token _) rfl, fun _ => .inr (v.exhausted _ rfl)⟩

theorem check {outcome : Except Fault α} (hok : ∀ a, outcome = .ok a → post a)
    (herror : ∀ fault, outcome = .error fault → v.faults fault ∧ fault.cause.kind ≠ .internal) :
    Reads v depth never post (Parse.check outcome) (Parse.check outcome) := by
  cases outcome with
  | ok a => exact .pure (hok a rfl)
  | error fault =>
    obtain ⟨hfault, hkind⟩ := herror fault rfl
    exact .fail hfault (Cause.isBound_eq_false hkind)

theorem ite {c : Prop} [Decidable c] (hp : Reads v depth taking post p p')
    (hq : Reads v depth taking post q q') :
    Reads v depth taking post (if c then p else q) (if c then p' else q') := by
  split
  · exact hp
  · exact hq

/-- A computation that only looks, and that sees the same in the two dialects. -/
theorem peek (hp : Peeks p) (heq : ∀ state, p v.other state = p v.context state) :
    Reads v depth never always p p := by
  intro state _
  obtain ⟨a, ha⟩ := hp v.context state
  exact .of_ok ha ⟨.refl state, False.elim, v.keeps_refl state, trivial, fun _ => (heq state).trans ha⟩

end

/-! ### Looking ahead -/

section

variable {taking post : β → Prop}

theorem ask {k k' : Context → Parse β} (h : Reads v depth taking post (k v.context) (k' v.other)) :
    Reads v depth taking post (read >>= k) (read >>= k') :=
  fun state hs => (h state hs).ask

theorem current {f f' : Token → Parse β}
    (h : ∀ state, v.here state → ReadsAt v depth taking (fun b _ => post b)
      (f (v.context.tokenAt state.cursor)) (f' (v.context.tokenAt state.cursor)) state) :
    Reads v depth taking post (Parse.current >>= f) (Parse.current >>= f') :=
  fun state hs => (h state hs).peek rfl rfl

theorem currentLine {f f' : Nat → Parse β}
    (h : ∀ line, v.lines line → Reads v depth taking post (f line) (f' line)) :
    Reads v depth taking post (Parse.currentLine >>= f) (Parse.currentLine >>= f') :=
  fun state hs => (h _ (v.lines_token state.cursor) state hs).peek rfl rfl

end

theorem previous : Reads v depth never always Parse.previous Parse.previous :=
  (peek peeks_get fun _ => rfl).bind fun _ _ => .ite (.pure trivial) (.ask (.pure trivial))

theorem record (r : Log.Record) : Reads v depth never always (Parse.record r) (Parse.record r) :=
  fun state _ => .of_ok rfl
    ⟨.of_cursor_eq rfl, False.elim, v.keeps_log state _, trivial, fun _ => rfl⟩

/-! ### Tokens -/

section

variable {test : Token → Bool} (htest : ∀ token, test token = true → v.takes token.kind)

include htest

theorem nextIf :
    Reads v depth (·.isSome = true) (fun found => ∀ token ∈ found, v.lines token.line)
      (Parse.nextIf test) (Parse.nextIf test) := by
  refine current fun state _ => ?_
  split
  · rename_i htoken
    rw [Bool.and_eq_true, Bool.not_eq_true'] at htoken
    refine .of_ok rfl ⟨moves_skip htoken.2, fun _ => Nat.lt_succ_self _,
      v.keeps_skip (htest _ htoken.1), fun token hmem => ?_, fun _ => rfl⟩
    cases hmem
    exact v.lines_token _
  · exact .answer Bool.false_ne_true nofun

/-- The token that is taken is one of the tokens. -/
theorem expect (wanted : String) (note : Option String) :
    Reads v depth always (fun token => ∃ i, token = v.context.tokenAt i ∧ test token = true)
      (Parse.expect test wanted note) (Parse.expect test wanted note) := by
  refine current fun state hs => ?_
  split
  · rename_i hfound
    refine (ReadsAt.next (htest _ hfound)).weaken (fun _ => id) (fun token _ htoken => ?_) id
    exact ⟨state.cursor, htoken.1, htoken.1 ▸ hfound⟩
  · exact fail (v.faults_of_line (v.lines_token _) rfl) rfl state hs

end

theorem nextIfPunctuation (mark : Char) :
    Reads v depth (·.isSome = true) always (Parse.nextIfPunctuation mark)
      (Parse.nextIfPunctuation mark) :=
  (nextIf fun _ => v.takes_of_isPunctuation).weaken (fun _ => id) fun _ _ => trivial

theorem expectPunctuation (mark : Char) (note : Option String) :
    Reads v depth always always (Parse.expectPunctuation mark note)
      (Parse.expectPunctuation mark note) :=
  (expect (fun _ => v.takes_of_isPunctuation) _ _).weaken (fun _ => id) fun _ _ => trivial

/-! ### Repetition -/

section

variable {step step' : β → Parse (β ⊕ α)} {I : β → Prop} {taking post : α → Prop}

theorem inr {a : α} (h : post a) :
    Reads v depth (Sum.elim always never) (Sum.elim I post)
      (Pure.pure (.inr a) : Parse (β ⊕ α)) (Pure.pure (.inr a)) :=
  answer id h

/-- The limit is beyond the tokens that are left, and every round takes one of them. -/
theorem iterate
    (hstep : ∀ b, I b → Reads v depth (Sum.elim always never) (Sum.elim I post) (step b)
      (step' b)) (limit : Nat) {b : β} (hb : I b) (state : State) (hs : v.here state)
    (hlimit : v.context.tokens.size < state.cursor + limit) :
    ReadsAt v depth never (fun a _ => post a) (Parse.iterate step limit b)
      (Parse.iterate step' limit b) state := by
  induction limit generalizing b state with
  | zero =>
    exact .of_error rfl ⟨.refl state, fun hroom => absurd hlimit (Nat.lt_asymm hroom.lt_size),
      v.faults_of_line (v.lines_token _) rfl, fun hin => absurd hlimit (Nat.lt_asymm hin.lt_size)⟩
  | succ limit ih =>
    refine (hstep b hb state hs).bind (fun _ => depth) (fun _ _ hm _ hroom => hroom.moves hm) ?_
    intro result after hkeeps htook hresult
    cases result with
    | inl b' =>
      have hlt := htook trivial
      exact (ih hresult after (v.here_of_keeps hkeeps hs) (by omega)).mono fun _ => And.left
    | inr a => exact .answer (fun h => h.1) hresult

/-- Repetition, where the first round owes a token for some answers and the others owe none. -/
theorem loop_first {start : β}
    (hstart : Reads v depth (Sum.elim always taking) (Sum.elim I post) (step start) (step' start))
    (hstep : ∀ b, I b → Reads v depth (Sum.elim always never) (Sum.elim I post) (step b)
      (step' b)) :
    Reads v depth taking post (Parse.loop start step) (Parse.loop start step') := by
  intro state hs
  refine .congr ?_ (loop_eq start step) fun _ => loop_eq start step'
  refine (hstart state hs).bind (fun _ => depth) (fun _ _ hm _ hroom => hroom.moves hm) ?_
  intro result after hkeeps htook hresult
  cases result with
  | inl b =>
    have hlt := htook trivial
    refine (iterate hstep _ hresult after (v.here_of_keeps hkeeps hs) ?_).mono fun _ h => h.2 trivial
    rw [length_ahead]
    omega
  | inr a => exact .answer (fun h => h.2 h.1) hresult

variable {start : β} (hstart : I start)

include hstart

theorem loop
    (hstep : ∀ b, I b → Reads v depth (Sum.elim always never) (Sum.elim I post) (step b)
      (step' b)) : Reads v depth never post (Parse.loop start step) (Parse.loop start step') :=
  loop_first (hstep start hstart) hstep

theorem loop_always
    (hstep : ∀ b, I b → Reads v depth always (Sum.elim I post) (step b) (step' b)) :
    Reads v depth always post (Parse.loop start step) (Parse.loop start step') :=
  loop_first ((hstep start hstart).mono fun _ _ => trivial)
    fun b hb => (hstep b hb).mono fun _ _ => trivial

end

theorem separated {I : β → Prop} {start : β} (hstart : I start) {element element' : β → Parse β}
    (h : ∀ b, I b → Reads v depth always I (element b) (element' b)) (close : Char)
    (comma : String) :
    Reads v depth never I (Parse.separated close comma element start)
      (Parse.separated close comma element' start) := by
  refine loop (I := fun round => I round.1) hstart ?_
  rintro ⟨elements, first⟩ hknown
  have helement : ∀ {taking}, Reads v depth taking (Sum.elim (fun round => I round.1) I)
      (do return .inl (← element elements, false) : Parse ((β × Bool) ⊕ β))
      (do return .inl (← element' elements, false)) :=
    (h elements hknown).take fun _ hmore => .pure hmore
  refine current fun state hs => ?_
  split
  · exact .answer id hknown
  split
  · refine ((expectPunctuation _ _).take fun _ _ => current fun state hs => ?_) state hs
    split
    · exact .answer id hknown
    · exact helement state hs
  · exact helement state hs

theorem commaList {element element' : Parse α} {post : α → Prop}
    (h : Reads v depth always post element element') :
    Reads v depth always (fun list => list ≠ [] ∧ ∀ a ∈ list, post a) (Parse.commaList element)
      (Parse.commaList element') := by
  refine loop_always (I := fun list => ∀ a ∈ list, post a) (List.forall_mem_nil _)
    fun list hlist => h.take fun a ha => (nextIfPunctuation ',').bind fun _ _ => ?_
  have hall : ∀ b ∈ list ++ [a], post b :=
    List.forall_mem_append.mpr ⟨hlist, List.forall_mem_singleton.mpr ha⟩
  exact ite (.pure hall) (.pure ⟨List.concat_ne_nil a list, hall⟩)

end Reads

/-! ## Comparisons alone -/

namespace Advances

variable {v : Comparison} {p p' : Parse α}

theorem current : Advances v depth never Parse.current Parse.current :=
  .peek peeks_current fun _ => rfl

theorem getScope : Advances v depth never Parse.getScope Parse.getScope :=
  .peek peeks_getScope fun _ => rfl

theorem modifyScope (g : Scope → Scope) :
    Advances v depth never (Parse.modifyScope g) (Parse.modifyScope g) :=
  fun _ _ => .of_ok rfl ⟨.of_cursor_eq rfl, False.elim, trivial, trivial, fun _ => rfl⟩

theorem freshName : Advances v depth never Parse.freshName Parse.freshName :=
  fun _ _ => .of_ok rfl ⟨.of_cursor_eq rfl, False.elim, trivial, trivial, fun _ => rfl⟩

theorem withScope (scope : Scope) (hp : Advances v depth never p p') :
    Advances v depth never (Parse.withScope scope p) (Parse.withScope scope p') := by
  intro state _
  have hbody := hp { state with scope } trivial
  cases hrun : p v.context { state with scope } with
  | ok a s =>
    have h := hbody.ok hrun
    exact .of_ok (withScope_of_ok hrun) ⟨⟨h.moves.le, h.moves.lt_size⟩, False.elim, trivial, trivial,
      fun hin => withScope_of_ok (h.same ⟨hin.ended, hin.lt_size⟩)⟩
  | error fault s =>
    have h := hbody.error hrun
    exact .of_error (withScope_of_error hrun) ⟨⟨h.moves.le, h.moves.lt_size⟩,
      fun hr => h.bound ⟨hr.ended, hr.lt_size, hr.size_le⟩, trivial,
      fun hin => (h.same ⟨hin.ended, hin.lt_size⟩).imp_left withScope_of_error⟩

theorem next : Advances v depth always Parse.next Parse.next :=
  fun _ _ => (ReadsAt.next trivial).weaken (fun _ => id) (fun _ _ _ => trivial) id

theorem nextIf (test : Token → Bool) :
    Advances v depth (·.isSome = true) (Parse.nextIf test) (Parse.nextIf test) :=
  (Reads.nextIf fun _ _ => trivial).weaken (fun _ => id) fun _ _ => trivial

theorem expect (test : Token → Bool) (wanted : String) (note : Option String) :
    Advances v depth always (Parse.expect test wanted note) (Parse.expect test wanted note) :=
  (Reads.expect (fun _ _ => trivial) _ _).weaken (fun _ => id) fun _ _ => trivial

theorem expectName : Advances v depth always Parse.expectName Parse.expectName :=
  (expect _ _ _).take fun _ _ => .pure trivial

end Advances

/-! ## Inside tags -/

/-- Two readings inside a tag, in a scope and on tokens whose lines are as wanted. -/
structure Inner extends Comparison where
  lines : Nat → Prop
  scope : Scope
  onLines : OnLines context lines

/-- The first reading takes tokens inside tags only and defines nothing. Its faults are on lines as
wanted, and no broken invariant. -/
@[reducible] def Inner.reading (v : Inner) : Reading :=
  { v with
    here := fun state => state.scope = v.scope
    keeps := Passes v.context
    takes := fun kind => kind.isInner = true
    faults := Fault.On v.lines
    keeps_refl := .refl
    keeps_trans := .trans
    keeps_skip := .skip
    keeps_log := fun state _ => ⟨rfl, Nat.le_refl _, (Passes.refl state).inner⟩
    here_of_keeps := fun h hs => h.scope_eq.trans hs
    takes_punctuation := fun _ => rfl
    lines_token := v.onLines.token
    faults_of_line := fun hline hcause => ⟨hline, hcause⟩ }

/-- The lines do not matter. -/
def Comparison.inner (v : Comparison) (scope : Scope) : Inner :=
  { v with lines := AnyLine, scope, onLines := inferInstance }

/-- One reading by itself. -/
def Inner.alone (context : Context) (L : Nat → Prop) [h : OnLines context L] (scope : Scope) :
    Inner :=
  { Comparison.same context with lines := L, scope, onLines := h }

/-- A rule inside tags, whose answers are as `post` says. -/
abbrev Yields (v : Inner) (depth : Nat) (taking post : α → Prop) (p p' : Parse α) : Prop :=
  Reads v.reading depth taking post p p'

theorem ReadsAt.with_run {taking : α → Prop} {post : α → State → Prop} {p p' : Parse α}
    (h : ReadsAt v depth taking post p p' state) :
    ReadsAt v depth taking (fun a after => p v.context state = .ok a after ∧ post a after) p p'
      state :=
  ⟨fun hrun => { h.ok hrun with known := ⟨hrun, (h.ok hrun).known⟩ }, h.error⟩

theorem ReadsAt.and_ensures {L : Nat → Prop} {taking : α → Prop} {post post' : α → State → Prop}
    {p p' : Parse α} (h : ReadsAt v depth taking post p p' state)
    (h' : Ensures v.context L state p post') :
    ReadsAt v depth taking (fun a after => post a after ∧ post' a after) p p' state :=
  ⟨fun hrun => { h.ok hrun with known := ⟨(h.ok hrun).known, h'.of_ok hrun⟩ }, h.error⟩

theorem ReadsAt.ensures {v : Inner} {taking : α → Prop} {post : α → State → Prop} {p p' : Parse α}
    (h : ReadsAt v.reading depth taking post p p' state) :
    Ensures v.context v.lines state p fun a after => Passes v.context state after ∧ post a after := by
  unfold Ensures
  split
  · exact ⟨(h.ok ‹_›).keeps, (h.ok ‹_›).known⟩
  · exact (h.error ‹_›).known

section

variable {taking post : α → Prop} {p p' : Parse α}

/-- What holds inside tags in every scope. -/
theorem Advances.of_yields {v : Comparison}
    (h : ∀ scope, ∃ post, Yields (v.inner scope) depth taking post p p') :
    Advances v depth taking p p' := by
  intro state _
  obtain ⟨post, h⟩ := h state.scope
  refine ⟨fun hrun => ?_, fun hrun => ?_⟩
  · obtain ⟨hm, htook, -, -, hsame⟩ := (h state rfl).ok hrun
    exact ⟨hm, htook, trivial, trivial, hsame⟩
  · obtain ⟨hm, hbound, -, hsame⟩ := (h state rfl).error hrun
    exact ⟨hm, hbound, trivial, hsame⟩

/-- What a rule yields by itself, when it is compared with another one. -/
theorem Yields.compare {v : Inner} (h : Yields v depth taking post p p)
    (h' : Advances v.toComparison depth taking p p') : Yields v depth taking post p p' :=
  fun state hs =>
    ⟨fun hrun => { (h state hs).ok hrun with same := ((h' state trivial).ok hrun).same },
      fun hrun => { (h state hs).error hrun with same := ((h' state trivial).error hrun).same }⟩

variable {context : Context} {L : Nat → Prop} [OnLines context L] {scope : Scope}

theorem Yields.ensures (h : Yields (.alone context L scope) 0 taking post p p)
    (hs : state.scope = scope) :
    Ensures context L state p fun a after => Passes context state after ∧ post a :=
  (h state hs).ensures

/-- What is known of a run that succeeds. -/
theorem Yields.of_ok (h : Yields (.alone context L state.scope) 0 taking post p p) {a : α}
    (hrun : p context state = .ok a after) : Passes context state after ∧ post a :=
  (h.ensures rfl).of_ok hrun

end

namespace Yields

variable {v : Inner}

section

variable {taking post : β → Prop}

theorem getScope {f f' : Scope → Parse β}
    (h : Yields v depth taking post (f v.scope) (f' v.scope)) :
    Yields v depth taking post (Parse.getScope >>= f) (Parse.getScope >>= f') :=
  fun state hs => (h state hs).peek (congrArg (EStateM.Result.ok · state) hs)
    (congrArg (EStateM.Result.ok · state) hs)

theorem enclosingBlock {f f' : Option String → Parse β}
    (h : Yields v depth taking post (f v.scope.blockStack.head?) (f' v.scope.blockStack.head?)) :
    Yields v depth taking post (Parse.enclosingBlock >>= f) (Parse.enclosingBlock >>= f') :=
  fun state hs => (h state hs).peek (by rw [← hs]; rfl) (by rw [← hs]; rfl)

theorem symbol? {kind : SymbolKind} {name : String} {f f' : Option ImportedSymbol → Parse β}
    (h : Yields v depth taking post (f (v.scope.symbol? kind name))
      (f' (v.scope.symbol? kind name))) :
    Yields v depth taking post (Parse.symbol? kind name >>= f) (Parse.symbol? kind name >>= f') :=
  fun state hs => (h state hs).peek (by rw [← hs]; rfl) (by rw [← hs]; rfl)

end

theorem expectNameToken (note : Option String) :
    Yields v depth always (fun token => v.lines token.line ∧ v.context.Names (token.name?.getD ""))
      (Parse.expectNameToken note) (Parse.expectNameToken note) := by
  refine (Reads.expect (fun _ => Token.isInner_of_name?) _ _).weaken (fun _ => id) fun token h => ?_
  obtain ⟨i, rfl, hname⟩ := h
  exact ⟨v.onLines.token i, Context.names_tokenAt hname⟩

theorem expectName : Yields v depth always v.context.Names Parse.expectName Parse.expectName :=
  (expectNameToken _).take fun _ h => .pure h.2

end Yields

/-! ## Depth -/

/-- The computation for as many levels as there are tokens left. -/
def deepest (f : Nat → Parse α) : Parse α := do f ((← remaining) + 1)

variable {context : Context}

theorem deepest_eq (f : Nat → Parse α) :
    deepest f context state = f ((ahead context state).length + 1) context state := by
  rw [deepest, bind_eq_of_ok remaining_eq]

theorem deepest_bind (f : Nat → Parse α) (g : α → Parse β) :
    deepest (fun depth => f depth >>= g) context state = (deepest f >>= g) context state := by
  rw [deepest_eq]
  simp only [bind, ReaderT.bind, EStateM.bind, deepest_eq]

theorem Reads.deepest {f : Nat → Parse α} {taking post : α → Prop}
    (h : ∀ depth, Reads v depth taking post (f depth) (f depth)) :
    Reads v depth taking post (Parse.deepest f) (Parse.deepest f) := by
  intro state hs
  refine .congr ?_ (deepest_eq f) fun _ => deepest_eq f
  refine (h ((ahead v.context state).length + 1) state hs).weaken (fun _ => id) (fun _ _ => id)
    fun hroom => ⟨hroom.ended, hroom.lt_size, ?_⟩
  rw [length_ahead]
  omega

/-- The computations for the depths: one for a larger depth gives the same outcome, unless the
smaller depth is reached, which does not happen where it has room. -/
def Deepens (v : Comparison) (taking : α → Prop) (f : Nat → Parse α) : Prop :=
  ∀ depth depth', depth ≤ depth' → Advances v depth taking (f depth) (f depth')

theorem Deepens.mono {v : Comparison} {taking taking' : α → Prop} {f : Nat → Parse α}
    (h : Deepens v taking f) (htaking : ∀ a, taking' a → taking a) : Deepens v taking' f :=
  fun depth depth' hle => (h depth depth' hle).mono htaking

theorem Deepens.advances_deepest {v : Comparison} {taking : α → Prop} {f : Nat → Parse α}
    (h : Deepens v taking f) : Advances v depth taking (Parse.deepest f) (Parse.deepest f) :=
  .deepest fun depth => h depth depth (Nat.le_refl depth)

/-! ## One dialect -/

section

variable {context : Context} {taking : α → Prop} {post : α → State → Prop} {p p' : Parse α}
  {f : Nat → Parse α}

/-- Where the depth has room, no bound is reached, so the two outcomes are one. -/
theorem ReadsAt.eq_of_room (hp : ReadsAt (Comparison.same context).loose depth taking post p p' state)
    (hroom : Room context depth state) : p' context state = p context state := by
  have hin : Inside context state := ⟨hroom.ended, hroom.lt_size⟩
  cases h : p context state with
  | ok a after => exact (hp.ok h).same hin
  | error fault after => exact ((hp.error h).same hin).resolve_right ((hp.error h).bound hroom)

/-- **With a level for each token that is left, the depth does not matter.** -/
theorem Deepens.eq_deepest (h : Deepens (.same context) taking f)
    (hin : Inside context state) (depth : Nat)
    (hdepth : context.tokens.size ≤ state.cursor + depth) :
    f depth context state = deepest f context state := by
  have hleft := length_ahead context state
  have hleast : ∀ depth', (ahead context state).length ≤ depth' →
      f depth' context state = f (ahead context state).length context state := fun depth' hle =>
    (h _ depth' hle state trivial).eq_of_room (hin.room (by omega))
  rw [deepest_eq, hleast depth (by omega), hleast _ (Nat.le_succ _)]

/-- The computation for any depth gives what the deepest one gives, unless the depth is reached. -/
theorem Deepens.advances (h : Deepens (.same context) taking f) (depth : Nat) :
    Advances (.same context) depth taking (f depth) (deepest f) := by
  intro state _
  have hleft := length_ahead context state
  have hself := h _ _ (Nat.le_refl depth) state trivial
  rcases Nat.le_total depth ((ahead context state).length + 1) with hle | hle
  · exact (h _ _ hle state trivial).congr rfl fun _ => deepest_eq f
  · exact hself.congr rfl fun hin => (h.eq_deepest hin depth (by omega)).symm

end

end Parse

end TwigToLatte
