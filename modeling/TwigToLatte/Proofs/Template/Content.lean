import Mathlib.Data.List.Perm.Basic
import TwigToLatte.Dialect.Core
import TwigToLatte.Proofs.Lexer.Nesting
import TwigToLatte.Proofs.Parse.Positions
import TwigToLatte.Proofs.Template.Derived

/-!
# Nothing outside tags is lost

The text, comments and verbatim regions of a template are tokens of their own, and each of them
becomes one statement. While statements are read, these statements go to the body that is being
read, or with the blocks and macros that are defined to the scope of the template. So the tokens
that were taken balance with what the body and the scope hold.

* `Literal`, `Template.literals` — the pieces outside tags, of tokens and of templates, those of
  embedded templates among them.
* `macroDefinitions` — the macros that tokens define, each with the `embed` tags around it.
* `Accounts` — **the balance of tokens, statements and scope**.
* `Derives.balanced` — it holds of every derivation, by induction, if no macro replaces another one.
* `perm_literals_parse` — **parsing loses and duplicates no literal content**.
-/

namespace TwigToLatte

open List

/-! ## Literals -/

/-- The kinds of tokens outside tags. -/
inductive Literal.Kind where
  | text
  | comment
  | verbatim
  deriving DecidableEq, Repr

/-- A piece of a template outside tags, and the line on which it starts. -/
structure Literal where
  kind : Literal.Kind
  content : String
  line : Nat
  deriving DecidableEq, Repr

def Token.literal? (token : Token) : Option Literal :=
  match token.kind with
  | .text content => some ⟨.text, content, token.line⟩
  | .comment content => some ⟨.comment, content, token.line⟩
  | .verbatim content => some ⟨.verbatim, content, token.line⟩
  | _ => none

mutual

/-- The literals of a statement, at any depth. -/
def Stmt.literals : Stmt → List Literal
  | ⟨kind, line⟩ => kind.literals line

def Stmt.Kind.literals (line : Nat) : Stmt.Kind → List Literal
  | .text content => [⟨.text, content, line⟩]
  | .comment content => [⟨.comment, content, line⟩]
  | .verbatim content => [⟨.verbatim, content, line⟩]
  | .loop _ _ _ body otherwise _ => bodyLiterals body ++ optionalLiterals otherwise
  | .branch branches otherwise => branchLiterals branches ++ optionalLiterals otherwise
  | .capture _ body | .scope _ _ body | .apply _ body | .autoescape _ body | .sandbox body
  | .cache _ _ _ body => bodyLiterals body
  | .embed _ template => template.literals
  | _ => []

def bodyLiterals : List Stmt → List Literal
  | [] => []
  | stmt :: rest => stmt.literals ++ bodyLiterals rest

def optionalLiterals : Option (List Stmt) → List Literal
  | none => []
  | some body => bodyLiterals body

def branchLiterals : List (Expr × List Stmt) → List Literal
  | [] => []
  | (_, body) :: rest => bodyLiterals body ++ branchLiterals rest

def blockLiterals : List (String × Block) → List Literal
  | [] => []
  | (_, ⟨body, _⟩) :: rest => bodyLiterals body ++ blockLiterals rest

def macroLiterals : List (String × MacroDef) → List Literal
  | [] => []
  | (_, ⟨_, body, _⟩) :: rest => bodyLiterals body ++ macroLiterals rest

/-- The literals of a template: of its body, its blocks and macros, and of embedded templates. -/
def Template.literals : Template → List Literal
  | ⟨body, blocks, macros, _, _⟩ => bodyLiterals body ++ blockLiterals blocks ++ macroLiterals macros

end

theorem bodyLiterals_append (a b : List Stmt) :
    bodyLiterals (a ++ b) = bodyLiterals a ++ bodyLiterals b :=
  append_of_cons rfl (fun _ _ => rfl) a b

theorem branchLiterals_append (a b : List (Expr × List Stmt)) :
    branchLiterals (a ++ b) = branchLiterals a ++ branchLiterals b :=
  append_of_cons rfl (fun _ _ => rfl) a b

theorem blockLiterals_append (a b : List (String × Block)) :
    blockLiterals (a ++ b) = blockLiterals a ++ blockLiterals b :=
  append_of_cons (g := fun entry => bodyLiterals entry.2.body) rfl (fun ⟨_, _, _⟩ _ => rfl) a b

theorem macroLiterals_append (a b : List (String × MacroDef)) :
    macroLiterals (a ++ b) = macroLiterals a ++ macroLiterals b :=
  append_of_cons (g := fun entry => bodyLiterals entry.2.body) rfl (fun ⟨_, _, _, _⟩ _ => rfl) a b

/-- The literals of the blocks and macros of a scope. -/
def Scope.literals (scope : Scope) : List Literal :=
  blockLiterals scope.blocks.entries ++ macroLiterals scope.macros.entries

theorem bodyLiterals_sandboxed {body marked : List Stmt}
    (h : Grammar.sandboxed body = .ok marked) : bodyLiterals marked = bodyLiterals body := by
  induction body generalizing marked with
  | nil =>
    cases h
    rfl
  | cons stmt rest ih =>
    obtain ⟨marked', hrest, ⟨_, _, rfl, rfl⟩ | ⟨_, _, rfl, rfl⟩⟩ := Grammar.sandboxed_cons h
    · rw [bodyLiterals, bodyLiterals, ih hrest]
    · rw [bodyLiterals, bodyLiterals, ih hrest]
      rfl

/-! ## Tokens -/

/-- Every tag is registered under its keyword. -/
def Dialect.Keyed (dialect : Dialect) : Prop :=
  ∀ keyword tag, dialect.tag? keyword = some tag → keyword = tag.keyword

theorem Dialect.keyed_of_tags_eq {dialect : Dialect} (h : dialect.tags = Dialect.core.tags) :
    dialect.Keyed := by
  intro keyword tag htag
  rw [Dialect.tag?, h] at htag
  have hall : Dialect.core.tags.entries.all (fun entry => entry.1 = entry.2.keyword) = true := by
    decide +kernel
  have hmem := all_eq_true.mp hall _ (mem_of_lookup_eq_some htag)
  exact of_decide_eq_true hmem

/-- The keyword of the tag that starts at an index. -/
def keywordAt (tokens : Array Token) (i : Nat) : Option String :=
  match kindAt tokens i, kindAt tokens (i + 1) with
  | .blockStart, .name name => some name
  | _, _ => none

/-- The `embed` tags that are open before an index, innermost first. -/
def openEmbeds (tokens : Array Token) : Nat → List Nat
  | 0 => []
  | i + 1 =>
    match keywordAt tokens i with
    | some "embed" => i :: openEmbeds tokens i
    | some "endembed" => (openEmbeds tokens i).tail
    | _ => openEmbeds tokens i

/-- The macro that is defined at an index: the `embed` tags around it and its name. -/
def macroAt (tokens : Array Token) (i : Nat) : Option (List Nat × String) :=
  match keywordAt tokens i, kindAt tokens (i + 2) with
  | some "macro", .name name => some (openEmbeds tokens i, name)
  | _, _ => none

/-- The macros that tokens define. Macros of one template have the same `embed` tags around them. -/
def macroDefinitions (tokens : Array Token) : List (List Nat × String) :=
  (List.range tokens.size).filterMap (macroAt tokens)

/-- The literals among the first tokens. -/
def literalsBefore (tokens : Array Token) (i : Nat) : List Literal :=
  (tokens.toList.take i).filterMap Token.literal?

section

variable {tokens : Array Token} {i : Nat}

theorem openEmbeds_succ (hembed : keywordAt tokens i ≠ some "embed")
    (hend : keywordAt tokens i ≠ some "endembed") :
    openEmbeds tokens (i + 1) = openEmbeds tokens i := by
  rw [openEmbeds]
  split
  · rename_i h
    exact absurd h hembed
  · rename_i h
    exact absurd h hend
  · rfl

/-- Without repeated definitions, a macro is defined at one index. -/
theorem eq_of_macroAt (h : (macroDefinitions tokens).Nodup) {j : Nat} {d : List Nat × String}
    (hi : macroAt tokens i = some d) (hj : macroAt tokens j = some d) : i = j := by
  have hlt : ∀ {i : Nat}, macroAt tokens i = some d → i < tokens.size := by
    intro i hi
    refine lt_size_of_kindAt fun heof => ?_
    rw [macroAt, keywordAt, heof] at hi
    cases hi
  have hpair := pairwise_filterMap.mp h
  rw [pairwise_iff_getElem] at hpair
  by_contra hne
  rcases Nat.lt_or_gt_of_ne hne with hij | hij
  · refine hpair i j ?_ ?_ hij d ?_ d ?_ rfl
    all_goals simp_all
  · refine hpair j i ?_ ?_ hij d ?_ d ?_ rfl
    all_goals simp_all

end

namespace Grammar

open Parse

/-! ## Positions -/

section

variable {context : Context} {s s' : State} {i line : Nat} {name : String} {tag : Tag}
  {names : List String}

theorem keywordAt_eq (hended : context.Ended) (hstart : (context.tokenAt i).kind = .blockStart)
    (hname : (context.tokenAt (i + 1)).name? = some name) :
    keywordAt context.tokens i = some name := by
  rw [keywordAt, kindAt_eq hended, kindAt_eq hended, hstart, Token.kind_eq_of_name? hname]

theorem keywordAt_eq_none (hended : context.Ended) (h : (context.tokenAt i).kind ≠ .blockStart) :
    keywordAt context.tokens i = none := by
  rw [keywordAt]
  split
  · rename_i hstart _
    rw [kindAt_eq hended] at hstart
    exact absurd hstart h
  · rfl

theorem literalsBefore_succ (hended : context.Ended) (i : Nat) :
    literalsBefore context.tokens (i + 1) =
      literalsBefore context.tokens i ++ (context.tokenAt i).literal?.toList := by
  rw [literalsBefore, literalsBefore, take_add_one, filterMap_append,
    Array.getElem?_toList]
  congr 1
  by_cases hi : i < context.tokens.size
  · rw [getElem?_tokens hi]
    cases h : (context.tokenAt i).literal? <;> simp [h]
  · rw [Array.getElem?_eq_none (Nat.le_of_not_lt hi), Token.literal?,
      kind_tokenAt_of_le hended (Nat.le_of_not_lt hi)]
    rfl

/-- A token that is no literal, and starts no tag. -/
structure Blank (context : Context) (i : Nat) : Prop where
  literal : (context.tokenAt i).literal? = none
  start : (context.tokenAt i).kind ≠ .blockStart

theorem blank_of_isInner (h : (context.tokenAt i).kind.isInner = true) : Blank context i := by
  refine ⟨?_, fun hstart => ?_⟩
  · rw [Token.literal?]
    split
    iterate 3
      rename_i hkind
      rw [hkind] at h
      cases h
    rfl
  · rw [hstart] at h
    cases h

/-- Tokens inside tags are no literals, and open and close no template. -/
theorem literalsBefore_of_blank (hended : context.Ended) {j : Nat} (hle : i ≤ j)
    (h : ∀ k, i ≤ k → k < j → Blank context k) :
    literalsBefore context.tokens j = literalsBefore context.tokens i ∧
      openEmbeds context.tokens j = openEmbeds context.tokens i := by
  induction hle with
  | refl => exact ⟨rfl, rfl⟩
  | @step j hle ih =>
    obtain ⟨hliterals, hembeds⟩ := ih fun k hik hkj => h k hik (Nat.lt_succ_of_lt hkj)
    have hblank := h j hle (Nat.lt_succ_self j)
    have hkeyword := keywordAt_eq_none hended hblank.start
    refine ⟨?_, ?_⟩
    · rw [literalsBefore_succ hended, hblank.literal, hliterals]
      exact append_nil _
    · rw [openEmbeds_succ (by rw [hkeyword]; nofun) (by rw [hkeyword]; nofun), hembeds]

theorem literalsBefore_passes (hended : context.Ended) (h : Passes context s s') :
    literalsBefore context.tokens s'.cursor = literalsBefore context.tokens s.cursor ∧
      openEmbeds context.tokens s'.cursor = openEmbeds context.tokens s.cursor :=
  literalsBefore_of_blank hended h.le fun k hik hkj => blank_of_isInner (h.inner k hik hkj)

theorem literalsBefore_start (hended : context.Ended) (h : (context.tokenAt i).kind = .blockStart) :
    literalsBefore context.tokens (i + 1) = literalsBefore context.tokens i := by
  rw [literalsBefore_succ hended, Token.literal?, h]
  exact append_nil _

theorem Opens.keywordAt_eq (hended : context.Ended) (hkeyed : context.dialect.Keyed)
    (h : Opens context tag line s s') : keywordAt context.tokens s.cursor = some tag.keyword := by
  obtain ⟨name, hname, htag⟩ := h.keyword
  rw [Grammar.keywordAt_eq hended h.start hname, hkeyed name tag htag]

theorem Opens.blank (h : Opens context tag line s s') : Blank context (s.cursor + 1) := by
  obtain ⟨name, hname, -⟩ := h.keyword
  exact blank_of_isInner (Token.isInner_of_name? (by rw [hname]; rfl))

section

variable (hended : context.Ended)

include hended

theorem Opens.macroAt_eq (hkeyed : context.dialect.Keyed) {s2 : State}
    (h : Opens context .defineMacro line s s') (hname : expectName context s' = .ok name s2) :
    macroAt context.tokens s.cursor = some (openEmbeds context.tokens s.cursor, name) := by
  have hkind := Token.kind_eq_of_name? ((ensures_expectName (L := AnyLine)).of_ok hname).1
  rw [h.cursor_eq] at hkind
  rw [macroAt, h.keywordAt_eq hended hkeyed, kindAt_eq hended, hkind]
  rfl

theorem Opens.literalsBefore_eq (h : Opens context tag line s s') :
    literalsBefore context.tokens s'.cursor = literalsBefore context.tokens s.cursor := by
  rw [h.cursor_eq, literalsBefore_succ hended, h.blank.literal,
    literalsBefore_start hended h.start]
  exact append_nil _

theorem Opens.openEmbeds_succ (h : Opens context tag line s s') :
    openEmbeds context.tokens s'.cursor = openEmbeds context.tokens (s.cursor + 1) := by
  have hnone := keywordAt_eq_none hended h.blank.start
  rw [h.cursor_eq, TwigToLatte.openEmbeds_succ (by rw [hnone]; nofun) (by rw [hnone]; nofun)]

/-- Only `embed` tags open a template. -/
theorem Opens.openEmbeds_eq (hkeyed : context.dialect.Keyed)
    (h : Opens context tag line s s') (htag : tag ≠ .embed) :
    openEmbeds context.tokens s'.cursor = openEmbeds context.tokens s.cursor := by
  have hkeyword := h.keywordAt_eq hended hkeyed
  rw [h.openEmbeds_succ hended, TwigToLatte.openEmbeds_succ]
  all_goals
    rw [hkeyword]
    revert htag
    cases tag <;> decide

theorem Opens.openEmbeds_embed (hkeyed : context.dialect.Keyed)
    (h : Opens context .embed line s s') :
    openEmbeds context.tokens s'.cursor = s.cursor :: openEmbeds context.tokens s.cursor := by
  rw [h.openEmbeds_succ hended, openEmbeds, h.keywordAt_eq hended hkeyed]
  rfl

theorem Closes.literalsBefore_eq (h : Closes context names s s') :
    literalsBefore context.tokens s'.cursor = literalsBefore context.tokens s.cursor := by
  rw [h.after_eq]
  exact literalsBefore_start hended h.start

theorem Closes.openEmbeds_eq (h : Closes context names s s')
    (hembed : "embed" ∉ names) (hend : "endembed" ∉ names) :
    openEmbeds context.tokens s'.cursor = openEmbeds context.tokens s.cursor := by
  obtain ⟨name, hmem, hname⟩ := h.keyword
  have hkeyword := Grammar.keywordAt_eq hended h.start hname
  rw [h.after_eq]
  refine TwigToLatte.openEmbeds_succ (fun heq => hembed ?_) (fun heq => hend ?_)
  all_goals
    rw [hkeyword] at heq
    cases heq
    exact hmem

theorem Closes.openEmbeds_embed (h : Closes context ["endembed"] s s') :
    openEmbeds context.tokens s'.cursor = (openEmbeds context.tokens s.cursor).tail := by
  obtain ⟨name, hmem, hname⟩ := h.keyword
  rw [mem_singleton.mp hmem] at hname
  rw [h.after_eq]
  show openEmbeds context.tokens (s.cursor + 1) = _
  rw [openEmbeds, Grammar.keywordAt_eq hended h.start hname]
  rfl

end

end

/-! ## Accounts -/

section

variable {context : Context} {s s1 s' : State} {a b : List Literal}

/-- The macros of the scope were defined by the tokens before the cursor. -/
def Recorded (context : Context) (s : State) : Prop :=
  ∀ name ∈ s.scope.macros.keys, ∃ i < s.cursor,
    macroAt context.tokens i = some (openEmbeds context.tokens s.cursor, name)

/-- **The balance between two states**: the literals that were taken are the given ones, and those
that the scope gained. -/
structure Accounts (context : Context) (s : State) (literals : List Literal) (s' : State) :
    Prop where
  le : s.cursor ≤ s'.cursor
  embeds : openEmbeds context.tokens s'.cursor = openEmbeds context.tokens s.cursor
  blocks : s.scope.blocks.entries <+: s'.scope.blocks.entries
  /-- A macro that was not there is defined by one of the tokens that were taken. -/
  macros : ∀ name ∈ s'.scope.macros.keys, name ∈ s.scope.macros.keys ∨
    ∃ i, s.cursor ≤ i ∧ i < s'.cursor ∧
      macroAt context.tokens i = some (openEmbeds context.tokens s.cursor, name)
  count : Recorded context s → ∀ x : Literal,
    (literalsBefore context.tokens s'.cursor).count x + s.scope.literals.count x =
      (literalsBefore context.tokens s.cursor).count x + literals.count x +
        s'.scope.literals.count x

theorem Accounts.recorded (h : Accounts context s a s') (hs : Recorded context s) :
    Recorded context s' := by
  intro name hmem
  rcases h.macros name hmem with hmem | ⟨i, -, hlt, hi⟩
  · obtain ⟨i, hlt, hi⟩ := hs name hmem
    exact ⟨i, Nat.lt_of_lt_of_le hlt h.le, by rw [hi, h.embeds]⟩
  · exact ⟨i, hlt, by rw [hi, h.embeds]⟩

theorem Accounts.trans (h : Accounts context s a s1) (h' : Accounts context s1 b s') :
    Accounts context s (a ++ b) s' where
  le := Nat.le_trans h.le h'.le
  embeds := h'.embeds.trans h.embeds
  blocks := h.blocks.trans h'.blocks
  macros name hmem := by
    rcases h'.macros name hmem with hmem | ⟨i, hle, hlt, hi⟩
    · rcases h.macros name hmem with hmem | ⟨i, hle, hlt, hi⟩
      · exact .inl hmem
      · exact .inr ⟨i, hle, Nat.lt_of_lt_of_le hlt h'.le, hi⟩
    · exact .inr ⟨i, Nat.le_trans h.le hle, hlt, by rw [hi, h.embeds]⟩
  count hs x := by
    have h1 := h.count hs x
    have h2 := h'.count (h.recorded hs) x
    rw [count_append]
    omega

/-- Tokens that are no literals, where the scope has the same blocks and macros after them. -/
theorem Accounts.of_literalsBefore_eq (hle : s.cursor ≤ s'.cursor)
    (hliterals : literalsBefore context.tokens s'.cursor = literalsBefore context.tokens s.cursor)
    (hembeds : openEmbeds context.tokens s'.cursor = openEmbeds context.tokens s.cursor)
    (hblocks : s'.scope.blocks = s.scope.blocks) (hmacros : s'.scope.macros = s.scope.macros) :
    Accounts context s [] s' where
  le := hle
  embeds := hembeds
  blocks := ⟨[], by rw [hblocks, append_nil]⟩
  macros name hmem := .inl (by rwa [hmacros] at hmem)
  count _ x := by rw [hliterals, Scope.literals, Scope.literals, hblocks, hmacros]; rfl

theorem Accounts.of_passes (hended : context.Ended) (h : Passes context s s') :
    Accounts context s [] s' := by
  obtain ⟨hliterals, hembeds⟩ := literalsBefore_passes hended h
  exact .of_literalsBefore_eq h.le hliterals hembeds (by rw [h.scope_eq]) (by rw [h.scope_eq])

variable {tag : Tag} {line : Nat} {names : List String} {kind : Stmt.Kind} {name : String}
  {body : List Stmt}

theorem Accounts.of_opens (hended : context.Ended) (hkeyed : context.dialect.Keyed)
    (h : Opens context tag line s s') (htag : tag ≠ .embed) : Accounts context s [] s' :=
  .of_literalsBefore_eq (h.cursor_eq ▸ Nat.le_add_right _ _) (h.literalsBefore_eq hended)
    (h.openEmbeds_eq hended hkeyed htag) (by rw [h.scope_eq]) (by rw [h.scope_eq])

theorem Blank.accounts (h : Blank context s.cursor) (hended : context.Ended) :
    Accounts context s [] (s.skip 1) := by
  obtain ⟨hliterals, hembeds⟩ := literalsBefore_of_blank hended (Nat.le_succ s.cursor)
    fun k hle hlt => Nat.le_antisymm hle (Nat.le_of_lt_succ hlt) ▸ h
  exact .of_literalsBefore_eq (Nat.le_succ _) hliterals hembeds rfl rfl

theorem Accounts.before (h : Accounts context s a s1) (h' : Accounts context s1 [] s') :
    Accounts context s a s' :=
  append_nil a ▸ h.trans h'

theorem Accounts.pass (h : Accounts context s a s1) (hended : context.Ended)
    (h' : Passes context s1 s') : Accounts context s a s' :=
  h.before (.of_passes hended h')

theorem Accounts.withScope (h : Accounts context s a s') {scope : Scope}
    (hblocks : scope.blocks = s'.scope.blocks) (hmacros : scope.macros = s'.scope.macros) :
    Accounts context s a { s' with scope } :=
  h.before (.of_literalsBefore_eq (Nat.le_refl _) rfl rfl hblocks hmacros)

/-- The balance up to the end tag of a body. -/
def Enclosed (context : Context) (s : State) (names : List String) (literals : List Literal)
    (s' : State) : Prop :=
  ∃ m m', Accounts context s literals m ∧ Closes context names m m' ∧ Passes context m' s'

theorem Enclosed.accounts (hended : context.Ended) (h : Enclosed context s names a s')
    (hembed : "embed" ∉ names) (hend : "endembed" ∉ names) : Accounts context s a s' := by
  obtain ⟨m, m', haccounts, hcloses, hpasses⟩ := h
  have hclosed : Accounts context m [] m' :=
    .of_literalsBefore_eq (by rw [hcloses.after_eq]; exact Nat.le_succ _)
      (hcloses.literalsBefore_eq hended) (hcloses.openEmbeds_eq hended hembed hend)
      (by rw [hcloses.after_eq]; rfl) (by rw [hcloses.after_eq]; rfl)
  exact (haccounts.before hclosed).pass hended hpasses

theorem Accounts.of_literal (hended : context.Ended)
    (h : literal? (context.tokenAt s.cursor).kind = some kind) :
    Accounts context s (kind.literals (context.tokenAt s.cursor).line) (s.skip 1) := by
  have hliteral : (context.tokenAt s.cursor).literal?.toList =
      kind.literals (context.tokenAt s.cursor).line := by
    rw [Token.literal?]
    cases hkind : (context.tokenAt s.cursor).kind <;> rw [hkind] at h <;> cases h <;> rfl
  have hstart : (context.tokenAt s.cursor).kind ≠ .blockStart := by
    intro hstart
    rw [hstart] at h
    cases h
  have hnone := keywordAt_eq_none hended hstart
  exact
    { le := Nat.le_succ _
      embeds := openEmbeds_succ (by rw [hnone]; nofun) (by rw [hnone]; nofun)
      blocks := prefix_refl _
      macros := fun _ => .inl
      count := fun _ x => by
        rw [State.cursor_skip, literalsBefore_succ hended, hliteral, count_append]
        rfl }

/-- A block around statements: it is registered before them, with an empty body, and gets its
body after them. -/
theorem Accounts.block (hname : name ∉ s.scope.blocks.keys)
    (h : Accounts context { s with scope := s.scope.openBlock name line } (bodyLiterals body) s') :
    Accounts context s [] { s' with scope := s'.scope.closeBlock name ⟨body, line⟩ } := by
  have hopened : (s.scope.openBlock name line).blocks.entries =
      s.scope.blocks.entries ++ [(name, ⟨[], line⟩)] := Registry.insertEntry_of_notMem hname
  obtain ⟨added, hadded⟩ := h.blocks
  have hentries : s'.scope.blocks.entries =
      s.scope.blocks.entries ++ (name, ⟨[], line⟩) :: added := by
    rw [← hadded, hopened, List.append_assoc]
    rfl
  have hclosed : (s'.scope.closeBlock name ⟨body, line⟩).blocks.entries =
      s.scope.blocks.entries ++ (name, ⟨body, line⟩) :: added := by
    rw [Scope.closeBlock, Scope.blocks_leave, Registry.insert, hentries]
    exact Registry.insertEntry_replace hname
  have hmacros : (s'.scope.closeBlock name ⟨body, line⟩).macros = s'.scope.macros :=
    Scope.macros_leave _
  exact
    { le := h.le
      embeds := h.embeds
      blocks := ⟨_, hclosed.symm⟩
      macros := fun other hmem => h.macros other (hmacros ▸ hmem)
      count := fun hs x => by
        have hcount := h.count hs x
        simp only [Scope.literals, hopened, hclosed, hmacros, hentries, blockLiterals_append,
          blockLiterals, bodyLiterals, count_append, count_nil] at hcount ⊢
        simp only [Scope.openBlock] at hcount
        omega }

/-- A macro is not one of the scope when it is registered, as that would be defined at the same
token. -/
theorem Accounts.notMem_macros (hnodup : (macroDefinitions context.tokens).Nodup)
    (hs : Recorded context s)
    (hat : macroAt context.tokens s.cursor = some (openEmbeds context.tokens s.cursor, name))
    (hhead : Accounts context s [] s1) (hlt : s.cursor < s1.cursor) (hscope : s1.scope = s.scope)
    (h : Accounts context { s1 with scope := s1.scope.enter } a s') :
    name ∉ s'.scope.macros.keys := by
  intro hmem
  rcases h.macros name hmem with hmem | ⟨i, hle, -, hat'⟩
  · rw [hscope] at hmem
    obtain ⟨i, hi, hat'⟩ := hs name hmem
    exact Nat.ne_of_lt hi (eq_of_macroAt hnodup hat' hat)
  · have hi : s.cursor < i := Nat.lt_of_lt_of_le hlt hle
    exact Nat.ne_of_lt hi (eq_of_macroAt hnodup hat (hhead.embeds ▸ hat'))

theorem Accounts.define {params : List (String × Expr)}
    (hnodup : (macroDefinitions context.tokens).Nodup)
    (hat : macroAt context.tokens s.cursor = some (openEmbeds context.tokens s.cursor, name))
    (hhead : Accounts context s [] s1) (hlt : s.cursor < s1.cursor) (hscope : s1.scope = s.scope)
    (h : Accounts context { s1 with scope := s1.scope.enter } (bodyLiterals body) s') :
    Accounts context s [] { s' with scope := s'.scope.closeMacro name ⟨params, body, line⟩ } := by
  have hblocks : (s'.scope.closeMacro name ⟨params, body, line⟩).blocks = s'.scope.blocks :=
    Scope.blocks_leave _
  have henter : Accounts context s [] { s1 with scope := s1.scope.enter } :=
    hhead.withScope rfl rfl
  have hinside : Accounts context s (bodyLiterals body) s' := henter.trans h
  exact
    { le := hinside.le
      embeds := hinside.embeds
      blocks := hblocks ▸ hinside.blocks
      macros := by
        intro other hmem
        obtain ⟨entry, hentry, rfl⟩ := mem_map.mp hmem
        rcases Registry.mem_insertEntry hentry with rfl | hmem
        · exact .inr ⟨s.cursor, Nat.le_refl _, Nat.lt_of_lt_of_le hlt h.le, hat⟩
        · rw [Scope.macros_leave] at hmem
          exact hinside.macros entry.1 (mem_map_of_mem hmem)
      count := fun hs x => by
        have hclosed : (s'.scope.closeMacro name ⟨params, body, line⟩).macros.entries =
            s'.scope.macros.entries ++ [(name, ⟨params, body, line⟩)] := by
          rw [Scope.closeMacro, Scope.macros_leave]
          exact Registry.insertEntry_of_notMem
            (hhead.notMem_macros hnodup hs hat hlt hscope h)
        have hcount := hinside.count hs x
        simp only [Scope.literals, hblocks, hclosed, macroLiterals_append, macroLiterals,
          count_append, count_nil] at hcount ⊢
        omega }

/-- An embedded template, which has a scope of its own. -/
theorem Accounts.embed (hended : context.Ended) (hle : s.cursor ≤ s1.cursor)
    (hliterals : literalsBefore context.tokens s1.cursor = literalsBefore context.tokens s.cursor)
    (hembeds : openEmbeds context.tokens s1.cursor = s.cursor :: openEmbeds context.tokens s.cursor)
    (hscope : s1.scope = s.scope) {parent : Expr}
    (h : Enclosed context { s1 with scope := { parent := some parent } } ["endembed"] a s') :
    Accounts context s (a ++ s'.scope.literals) { s' with scope := s1.scope } := by
  obtain ⟨m, m', haccounts, hcloses, hpasses⟩ := h
  obtain ⟨hliterals', hembeds'⟩ := literalsBefore_passes hended hpasses
  have hm : m'.cursor = m.cursor + 1 := by rw [hcloses.after_eq]; rfl
  have hscope' : s'.scope = m.scope := by rw [hpasses.scope_eq, hcloses.after_eq]; rfl
  have hrecorded : Recorded context { s1 with scope := { parent := some parent } } :=
    fun _ hmem => absurd hmem (not_mem_nil)
  exact
    { le := by
        have hinside : s1.cursor ≤ m.cursor := haccounts.le
        have hend := hpasses.le
        show s.cursor ≤ s'.cursor
        omega
      embeds := by
        show openEmbeds context.tokens s'.cursor = _
        rw [hembeds', hcloses.openEmbeds_embed hended, haccounts.embeds, hembeds]
        rfl
      blocks := ⟨[], by rw [hscope, append_nil]⟩
      macros := fun name hmem => .inl (hscope ▸ hmem)
      count := fun _ x => by
        have hcount := haccounts.count hrecorded x
        rw [hliterals', hcloses.literalsBefore_eq hended, hscope, hscope', count_append]
        rw [hliterals] at hcount
        have hempty : ({ parent := some parent } : Scope).literals = [] := rfl
        rw [hempty, count_nil] at hcount
        omega }

/-- What holds of each form. -/
def Form.Balanced (context : Context) (s : State) (form : Form) (s' : State) : Prop :=
  match form with
  | .body stmts => Accounts context s (bodyLiterals stmts) s'
  | .statement stmt => Accounts context s (bodyLiterals stmt.toList) s'
  | .region names stmts => Enclosed context s names (bodyLiterals stmts) s'
  | .branches list => Accounts context s (branchLiterals list) s'
  | .alternative endName otherwise =>
    endName ≠ "embed" → endName ≠ "endembed" → Accounts context s (optionalLiterals otherwise) s'

theorem Accounts.statement (h : Accounts context s (kind.literals line) s') :
    Form.Balanced context s (.statement (some ⟨kind, line⟩)) s' := by
  show Accounts context s (kind.literals line ++ []) s'
  rwa [append_nil]

/-- What a tag opens with, and more tokens of the tag. -/
theorem Accounts.of_tag (hended : context.Ended) (hkeyed : context.dialect.Keyed)
    (h : Opens context tag line s s1) (htag : tag ≠ .embed) (hpasses : Passes context s1 s') :
    Accounts context s [] s' :=
  (Accounts.of_opens hended hkeyed h htag).pass hended hpasses

theorem Accounts.around (hended : context.Ended) (hkeyed : context.dialect.Keyed) {s2 : State}
    (h : Opens context tag line s s1) (htag : tag ≠ .embed) (hpasses : Passes context s1 s2)
    (hbody : Enclosed context s2 names a s') (hembed : "embed" ∉ names) (hend : "endembed" ∉ names) :
    Accounts context s a s' :=
  (Accounts.of_tag hended hkeyed h htag hpasses).trans (hbody.accounts hended hembed hend)

/-- **Every derivation is in balance.** -/
theorem Derives.balanced (hended : context.Ended) (hkeyed : context.dialect.Keyed)
    (hnodup : (macroDefinitions context.tokens).Nodup) {form : Form}
    (h : Derives context s form s') : form.Balanced context s s' := by
  induction h with
  | nil => exact Accounts.of_passes hended (.refl _)
  | snoc init last ihinit ihlast =>
    show Accounts _ _ (bodyLiterals (_ ++ _)) _
    rw [bodyLiterals_append]
    exact ihinit.trans ihlast
  | region head inside closes tail ih =>
    exact ⟨_, _, (Accounts.of_passes hended head).trans ih, closes, tail⟩
  | firstBranch condition inside ih =>
    have hbody := (Accounts.of_passes hended (passes_of_expression condition)).trans
      (ih.accounts hended (by decide) (by decide))
    show Accounts _ _ (_ ++ []) _
    rw [append_nil]
    exact hbody
  | nextBranch init head condition inside ihinit ih =>
    have hbody := (Accounts.of_passes hended (head.trans (passes_of_expression condition))).trans
      (ih.accounts hended (by decide) (by decide))
    show Accounts _ _ (branchLiterals (_ ++ [_])) _
    rw [branchLiterals_append, branchLiterals, branchLiterals, append_nil]
    exact ihinit.trans hbody
  | noAlternative => exact fun _ _ => Accounts.of_passes hended (.refl _)
  | alternative head inside ih =>
    intro hembed hend
    exact (Accounts.of_passes hended head).trans (ih.accounts hended
      (by rwa [mem_singleton, eq_comm]) (by rwa [mem_singleton, eq_comm]))
  | literal token => exact (Accounts.of_literal hended token).statement
  | print start expr tail =>
    have hblank : Blank context _ := ⟨by rw [Token.literal?, start], by rw [start]; nofun⟩
    exact ((hblank.accounts hended).pass hended ((passes_of_expression expr).trans tail)).statement
  | branch opens inside last tail ih ihlast =>
    exact ((Accounts.of_opens hended hkeyed opens (by decide)).trans
      (ih.trans (ihlast (by decide) (by decide)))).pass hended tail |>.statement
  | loop opens names head expr inside last tail assigned ih ihlast =>
    have hhead := ((passes_of_assignmentTargets names).trans head).trans
      (passes_of_expression expr)
    have hbody := Accounts.around hended hkeyed opens (by decide) hhead ih (by decide) (by decide)
    exact ((hbody.trans (ihlast (by decide) (by decide))).pass hended tail).statement
  | single opens holds =>
    have hpasses := holds.passes
    cases holds <;> exact (Accounts.of_tag hended hkeyed opens (by decide) hpasses).statement
  | around opens head inside ih =>
    have hpasses := head.passes
    cases head <;> exact (Accounts.around hended hkeyed opens (by decide) hpasses ih (by decide)
      (by decide)).statement
  | sandbox opens inside marked ih =>
    refine Accounts.statement ?_
    show Accounts _ _ (bodyLiterals _) _
    rw [bodyLiterals_sandboxed marked]
    exact Accounts.around hended hkeyed opens (by decide) (.refl _) ih (by decide) (by decide)
  | block opens named new inside ih =>
    have hhead := Accounts.of_tag hended hkeyed opens (by decide) (passes_of_expectName named)
    have hbody := ih.accounts hended (by decide) (by decide)
    exact (hhead.trans (.block (Registry.get?_eq_none_iff.mp new) hbody)).statement
  | shortBlock opens named new expr tail =>
    have hhead := Accounts.of_tag hended hkeyed opens (by decide) (passes_of_expectName named)
    have hbody := Accounts.of_passes hended ((passes_of_expression expr).trans tail)
    exact (hhead.trans (.block (Registry.get?_eq_none_iff.mp new) hbody)).statement
  | inherit opens _ expr tail | useBlocks opens expr tail =>
    have hhead := Accounts.of_tag hended hkeyed opens (by decide)
      ((passes_of_expression expr).trans tail)
    exact Accounts.statement (hhead.withScope rfl rfl)
  | defineMacro opens named defaults inside ih =>
    have hhead := (passes_of_expectName named).trans (passes_of_macroParams defaults)
    refine .define hnodup (opens.macroAt_eq hended hkeyed named)
      (.of_tag hended hkeyed opens (by decide) hhead) ?_ (hhead.scope_eq.trans opens.scope_eq)
      (ih.accounts hended (by decide) (by decide))
    have := hhead.le
    have := opens.cursor_eq
    omega
  | importAs opens expr tail =>
    have hhead := Accounts.of_tag hended hkeyed opens (by decide)
      ((passes_of_expression expr).trans tail)
    exact (hhead.withScope (Scope.blocks_addSymbol _ _ _ _)
      (Scope.macros_addSymbol _ _ _ _)).statement
  | importNames opens expr tail =>
    have hhead := Accounts.of_tag hended hkeyed opens (by decide)
      ((passes_of_expression expr).trans tail)
    exact (hhead.withScope (Scope.blocks_addMacros _ _ _) (Scope.macros_addMacros _ _ _)).statement
  | embed opens expr arguments inside child ih =>
    have hhead := (passes_of_expression expr).trans (passes_of_inclusion arguments)
    obtain ⟨hliterals, hembeds⟩ := literalsBefore_passes hended hhead
    refine Accounts.statement ?_
    show Accounts _ _ (_ ++ _ ++ _) _
    rw [List.append_assoc]
    refine .embed hended ?_ (hliterals.trans (opens.literalsBefore_eq hended))
      (hembeds.trans (opens.openEmbeds_embed hended hkeyed)) (hhead.scope_eq.trans opens.scope_eq) ih
    have := hhead.le
    have := opens.cursor_eq
    omega

end

/-! ## Templates -/

variable {context : Context} {text : String} {symbols : List String} {i : Nat}

/-- The tokens of a text hold the end of the template last, and nowhere else. -/
theorem size_le_of_eof (h : Lexer.tokenize text symbols = .ok context.tokens)
    (heof : (context.tokenAt i).kind = .eof) : context.tokens.size ≤ i + 1 := by
  obtain ⟨last, hrun, -, hmodes, htokens⟩ := Lexer.tokenize_eq_ok h
  have hshaped : last.WellShaped :=
    Lexer.Scan.run_preserves (Lexer.orderSymbols_ne_nil symbols)
      (fun _ _ => Lexer.Scan.Effect.wellShaped) (Lexer.Scan.wellShaped_start text) hrun
  have hnone : Token.Kind.eof ∉ last.kinds := (hshaped.items hmodes).eof_notMem
  have hsize : context.tokens.size = last.tokens.size + 1 := by
    rw [htokens]
    exact Array.size_push _
  by_contra hlt
  have hi : i < last.tokens.size := by omega
  have htoken : context.tokenAt i = last.tokens[i] := by
    refine Option.some.inj ((getElem?_tokens (by omega)).symm.trans ?_)
    rw [htokens, Lexer.Scan.take, Array.getElem?_push_lt hi]
  refine hnone (mem_map.mpr ⟨last.tokens[i], ?_, htoken ▸ heof⟩)
  exact Array.getElem_mem_toList hi

/-- All literals stand before the end of the template. -/
theorem literalsBefore_eof (h : Lexer.tokenize text symbols = .ok context.tokens)
    (heof : (context.tokenAt i).kind = .eof) :
    literalsBefore context.tokens i = context.tokens.toList.filterMap Token.literal? := by
  have hended : context.Ended := (ended_tokenize h).1
  have hblank : ∀ k, context.tokens.size - 1 ≤ k → Blank context k := by
    intro k hk
    have hkind : (context.tokenAt k).kind = .eof := beq_iff_eq.mp (hended k (by omega))
    exact ⟨by rw [Token.literal?, hkind], by rw [hkind]; nofun⟩
  have hsize := size_le_of_eof h heof
  have hall : literalsBefore context.tokens context.tokens.size =
      context.tokens.toList.filterMap Token.literal? := by
    rw [literalsBefore, take_of_length_le (Nat.le_of_eq Array.length_toList)]
  rw [(literalsBefore_of_blank hended (by omega) fun k hk _ => hblank k hk).1, ← hall]
  exact ((literalsBefore_of_blank hended (Nat.sub_le _ 1) fun k hk _ => hblank k hk).1).symm

end Grammar

/-- **Parsing loses and duplicates no literal content**: where no template defines two macros of
one name, the text, comments and verbatim regions among the tokens are, with their lines, those of
the template, over its body, blocks, macros and embedded templates. -/
theorem perm_literals_parse {dialect : Dialect} (hkeyed : dialect.Keyed) {source : Source}
    {tokens : Array Token} {t : Template}
    (htokens : Lexer.tokenize source.text dialect.operatorSymbols = .ok tokens)
    (hnodup : (macroDefinitions tokens).Nodup)
    (h : (Template.parse dialect source).result = .ok t) :
    (tokens.toList.filterMap Token.literal?).Perm t.literals := by
  obtain ⟨tokens', log, last, htokens', hfinishes⟩ := Grammar.derives_parse h
  cases htokens.symm.trans htokens'
  have hended : (Parse.Context.mk dialect source.displayName tokens).Ended :=
    (ended_tokenize htokens).1
  have hbalanced := hfinishes.derives.balanced hended hkeyed hnodup
  have hliterals : t.literals = bodyLiterals t.body ++ last.scope.literals := by
    rw [hfinishes.eq, Template.literals, List.append_assoc]
    rfl
  refine perm_iff_count.mpr fun x => ?_
  have hcount := hbalanced.count (fun _ hmem => absurd hmem not_mem_nil) x
  rw [Grammar.literalsBefore_eof htokens hfinishes.eof] at hcount
  rw [hliterals, count_append, ← Nat.zero_add (List.count x (bodyLiterals t.body))]
  exact hcount

/-- Macros of one name in a template and in one that it embeds. -/
theorem perm_literals_parse_embed :
    let dialect : Dialect := { tags := Dialect.core.tags }
    let source : Source :=
      ⟨"a\x7b# b #\x7d\x7b% macro m() %\x7dc\x7b% endmacro %\x7d\x7b% block n %\x7d" ++
        "d\x7b% embed 'p' %\x7d\x7b% macro m() %\x7de\x7b% endmacro %\x7d" ++
        "\x7b% endembed %\x7d\x7b% endblock %\x7d\x7b% verbatim %\x7da" ++
        "\x7b% endverbatim %\x7d", "", none⟩
    ∃ tokens t, Lexer.tokenize source.text dialect.operatorSymbols = .ok tokens ∧
      (macroDefinitions tokens).Nodup ∧ (Template.parse dialect source).result = .ok t ∧
      (tokens.toList.filterMap Token.literal?).Perm t.literals ∧
      t.literals.map (·.content) = ["a", " b ", "a", "d", "e", "c"] := by
  intro dialect source
  have hkeyed : dialect.Keyed := Dialect.keyed_of_tags_eq rfl
  have hnodup : (Lexer.tokenize source.text dialect.operatorSymbols).toOption.any
      (fun tokens => decide (macroDefinitions tokens).Nodup) = true := by decide +kernel
  have hparse : (Template.parse dialect source).result.toOption.any
      (fun t => t.literals.map (·.content) = ["a", " b ", "a", "d", "e", "c"]) = true := by
    decide +kernel
  obtain ⟨tokens, htokens, hnodup⟩ := eq_ok_of_any hnodup
  obtain ⟨t, hresult, hcontent⟩ := eq_ok_of_any hparse
  have hnodup := of_decide_eq_true hnodup
  refine ⟨tokens, t, htokens, hnodup, hresult, ?_, of_decide_eq_true hcontent⟩
  exact perm_literals_parse hkeyed htokens hnodup hresult

end TwigToLatte
