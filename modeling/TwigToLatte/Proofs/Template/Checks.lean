import TwigToLatte.Proofs.Template.Places
import TwigToLatte.Template.Grammar

/-!
# Checks of statements

Two tags look at statements again when they have been read: a sandbox takes nothing but inclusions, and
a template with a parent shows nothing of its own body, so text there would be lost.

* `sandboxed_cons`, `fault_of_sandboxed` — a sandbox, statement by statement.
* `bodyExposed` — statements, and those inside them that are not captured.
* `splits_body` — all others stand in a capture or in an `apply` region.
* `bodyChildFault?_eq` — the check of a body is a search for the first fault among the exposed
  statements.
* `exposed_of_checkChild`, `fault_of_checkChild` — **what it finds**.
-/

namespace TwigToLatte

open List

/-! ## Sandboxes -/

namespace Grammar

/-- Only blank text and inclusions can be sandboxed, and only the latter are marked. -/
theorem sandboxed_cons {stmt : Stmt} {rest marked : List Stmt}
    (h : sandboxed (stmt :: rest) = .ok marked) :
    ∃ marked', sandboxed rest = .ok marked' ∧
      ((∃ text line, stmt = ⟨.text text, line⟩ ∧ marked = stmt :: marked') ∨
        ∃ included line, stmt = ⟨.inclusion included, line⟩ ∧
          marked = ⟨.inclusion { included with sandboxed := true }, line⟩ :: marked') := by
  obtain ⟨kind, line⟩ := stmt
  cases hrest : sandboxed rest with
  | error fault =>
    cases kind <;> simp only [sandboxed, hrest, Except.map] at h
    · split at h <;> cases h
    all_goals cases h
  | ok marked' =>
    refine ⟨marked', rfl, ?_⟩
    cases kind <;> simp only [sandboxed, hrest, Except.map] at h
    case text text =>
      split at h <;> cases h
      exact .inl ⟨text, line, rfl, rfl⟩
    case inclusion included =>
      cases h
      exact .inr ⟨included, line, rfl, rfl⟩
    all_goals cases h

/-- A fault is one of the template, on the line of a statement. -/
theorem fault_of_sandboxed {body : List Stmt} {fault : Fault} (h : sandboxed body = .error fault) :
    (∃ stmt ∈ body, stmt.line = fault.line) ∧ fault.cause.kind ≠ .internal := by
  induction body with
  | nil => cases h
  | cons stmt rest ih =>
    have hrest : ∀ f : List Stmt → List Stmt, (sandboxed rest).map f = .error fault →
        (∃ other ∈ stmt :: rest, other.line = fault.line) ∧ fault.cause.kind ≠ .internal := by
      intro f hmap
      cases hrest : sandboxed rest with
      | ok marked =>
        rw [hrest] at hmap
        cases hmap
      | error other =>
        rw [hrest] at hmap
        cases hmap
        obtain ⟨⟨other, hother, hline⟩, hkind⟩ := ih hrest
        exact ⟨⟨other, mem_cons_of_mem _ hother, hline⟩, hkind⟩
    rw [sandboxed] at h
    split at h
    · split at h
      · exact hrest _ h
      · cases h
        exact ⟨⟨stmt, mem_cons_self, rfl⟩, nofun⟩
    · exact hrest _ h
    · cases h
      exact ⟨⟨stmt, mem_cons_self, rfl⟩, nofun⟩

end Grammar

/-! ## Exposed statements -/

mutual

/-- The statement and the exposed ones inside it. -/
def Stmt.exposed : Stmt → List Stmt
  | ⟨kind, line⟩ => ⟨kind, line⟩ :: kind.exposed

/-- The statements that a region holds and does not capture, at any depth. -/
def Stmt.Kind.exposed : Stmt.Kind → List Stmt
  | .loop _ _ _ body otherwise _ => bodyExposed body ++ optionalExposed otherwise
  | .branch branches otherwise => branchExposed branches ++ optionalExposed otherwise
  | .scope _ _ body => bodyExposed body
  | .autoescape _ body => bodyExposed body
  | .sandbox body => bodyExposed body
  | .cache _ _ _ body => bodyExposed body
  | _ => []

def bodyExposed : List Stmt → List Stmt
  | [] => []
  | stmt :: rest => stmt.exposed ++ bodyExposed rest

def optionalExposed : Option (List Stmt) → List Stmt
  | none => []
  | some body => bodyExposed body

def branchExposed : List (Expr × List Stmt) → List Stmt
  | [] => []
  | (_, body) :: rest => bodyExposed body ++ branchExposed rest

end

/-- The exposed statements that stand inside another one. -/
def bodyNested (body : List Stmt) : List Stmt := body.flatMap (·.kind.exposed)

theorem Stmt.exposed_eq (stmt : Stmt) : stmt.exposed = stmt :: stmt.kind.exposed := by
  cases stmt
  rfl

/-- The regions whose content is not shown where they stand. -/
def Stmt.Kind.captures : Stmt.Kind → Bool
  | .capture _ _ | .apply _ _ => true
  | _ => false

/-- The statements inside the captured regions among some statements. -/
def capturedParts (stmts : List Stmt) : List Stmt :=
  (stmts.filter (·.kind.captures)).flatMap (·.kind.parts)

theorem capturedParts_append (a b : List Stmt) :
    capturedParts (a ++ b) = capturedParts a ++ capturedParts b := by
  rw [capturedParts, filter_append, flatMap_append]
  rfl

/-- Statements are the exposed ones and those that these capture. -/
def Splits (parts exposed : List Stmt) : Prop :=
  ∀ stmt, stmt ∈ parts ↔ stmt ∈ exposed ∨ stmt ∈ capturedParts exposed

namespace Splits

variable {parts exposed parts' exposed' : List Stmt} {kind : Stmt.Kind} {line : Nat}

theorem nil : Splits [] [] := fun _ => (or_self_iff).symm

theorem append (h : Splits parts exposed) (h' : Splits parts' exposed') :
    Splits (parts ++ parts') (exposed ++ exposed') := by
  intro stmt
  rw [capturedParts_append, mem_append, mem_append, mem_append, h, h']
  exact or_or_or_comm

theorem shown (hshown : kind.captures = false) (h : Splits kind.parts kind.exposed) :
    Splits (Stmt.parts ⟨kind, line⟩) (Stmt.exposed ⟨kind, line⟩) := by
  intro stmt
  have hcaptured : capturedParts (⟨kind, line⟩ :: kind.exposed) = capturedParts kind.exposed := by
    rw [capturedParts, filter_cons_of_neg (by rw [hshown]; exact Bool.false_ne_true)]
    rfl
  rw [Stmt.parts, Stmt.exposed, hcaptured, mem_cons, mem_cons, h stmt, or_assoc]

theorem captured (hcaptures : kind.captures = true) (hexposed : kind.exposed = []) :
    Splits (Stmt.parts ⟨kind, line⟩) (Stmt.exposed ⟨kind, line⟩) := by
  intro stmt
  have hcaptured : capturedParts [⟨kind, line⟩] = kind.parts := by
    rw [capturedParts, filter_cons_of_pos (by exact hcaptures)]
    exact append_nil _
  rw [Stmt.parts, Stmt.exposed, hexposed, hcaptured, mem_cons, mem_singleton]

end Splits

mutual

theorem Stmt.splits : ∀ stmt : Stmt, Splits stmt.parts stmt.exposed
  | ⟨kind, line⟩ => kind.splits line

theorem Stmt.Kind.splits (line : Nat) :
    ∀ kind : Stmt.Kind, Splits (Stmt.parts ⟨kind, line⟩) (Stmt.exposed ⟨kind, line⟩)
  | .loop _ _ _ body otherwise _ => .shown rfl ((splits_body body).append (splits_optional otherwise))
  | .branch branches otherwise =>
    .shown rfl ((splits_branches branches).append (splits_optional otherwise))
  | .scope _ _ body | .autoescape _ body | .sandbox body | .cache _ _ _ body =>
    .shown rfl (splits_body body)
  | .capture _ _ | .apply _ _ => .captured rfl rfl
  | .text _ | .comment _ | .verbatim _ | .print _ | .output _ | .block _ | .assign _
  | .inclusion _ | .embed _ _ | .importAs _ _ | .useBlocks _ _ | .inherit _ | .evaluate _ | .flush
  | .deprecated _ => .shown rfl .nil

theorem splits_body : ∀ body : List Stmt, Splits (bodyParts body) (bodyExposed body)
  | [] => .nil
  | stmt :: rest => stmt.splits.append (splits_body rest)

theorem splits_optional :
    ∀ body : Option (List Stmt), Splits (optionalParts body) (optionalExposed body)
  | none => .nil
  | some body => splits_body body

theorem splits_branches :
    ∀ branches : List (Expr × List Stmt), Splits (branchParts branches) (branchExposed branches)
  | [] => .nil
  | (_, body) :: rest => (splits_body body).append (splits_branches rest)

end

/-! ## The check -/

/-- What is wrong with a statement, whatever it holds. -/
def Stmt.ownChildFault? (nested : Bool) (stmt : Stmt) : Option Fault :=
  match stmt.kind with
  | .text text => if Text.isAllBlank text then none else some ⟨.childContent, stmt.line⟩
  | .block _ => if nested then some ⟨.childNestedBlock, stmt.line⟩ else none
  | _ => none

theorem Stmt.findSome?_exposed (stmt : Stmt) :
    stmt.exposed.findSome? (ownChildFault? true) =
      (stmt.ownChildFault? true).or (stmt.kind.exposed.findSome? (ownChildFault? true)) := by
  rw [Stmt.exposed_eq, findSome?_cons]
  cases stmt.ownChildFault? true <;> rfl

mutual

theorem Stmt.childFault?_eq (nested : Bool) : ∀ stmt : Stmt,
    stmt.childFault? nested =
      (stmt.ownChildFault? nested).or (stmt.kind.exposed.findSome? (Stmt.ownChildFault? true))
  | ⟨kind, line⟩ => kind.childFault?_eq nested line

theorem Stmt.Kind.childFault?_eq (nested : Bool) (line : Nat) : ∀ kind : Stmt.Kind,
    kind.childFault? nested line =
      (Stmt.ownChildFault? nested ⟨kind, line⟩).or
        (kind.exposed.findSome? (Stmt.ownChildFault? true))
  | .loop _ _ _ body otherwise _ => by
    rw [Stmt.Kind.childFault?, bodyChildFault?_eq body, optionalChildFault?_eq otherwise]
    exact findSome?_append.symm
  | .branch branches otherwise => by
    rw [Stmt.Kind.childFault?, branchesChildFault?_eq branches, optionalChildFault?_eq otherwise]
    exact findSome?_append.symm
  | .scope _ _ body | .autoescape _ body | .sandbox body | .cache _ _ _ body => by
    rw [Stmt.Kind.childFault?, bodyChildFault?_eq body]
    rfl
  | .text _ | .block _ => by
    rw [Stmt.Kind.childFault?]
    exact (Option.or_none).symm
  | .comment _ | .verbatim _ | .print _ | .output _ | .assign _ | .capture _ _ | .apply _ _
  | .inclusion _ | .embed _ _ | .importAs _ _ | .useBlocks _ _ | .inherit _ | .evaluate _ | .flush
  | .deprecated _ => rfl

/-- **The check is a search**: the fault is that of the first exposed statement that has one. -/
theorem bodyChildFault?_eq : ∀ body : List Stmt,
    bodyChildFault? true body = (bodyExposed body).findSome? (Stmt.ownChildFault? true)
  | [] => rfl
  | stmt :: rest => by
    rw [bodyChildFault?, bodyExposed, findSome?_append, stmt.findSome?_exposed,
      stmt.childFault?_eq true, bodyChildFault?_eq rest]

theorem optionalChildFault?_eq : ∀ body : Option (List Stmt),
    optionalChildFault? body = (optionalExposed body).findSome? (Stmt.ownChildFault? true)
  | none => rfl
  | some body => bodyChildFault?_eq body

theorem branchesChildFault?_eq : ∀ branches : List (Expr × List Stmt),
    branchesChildFault? branches = (branchExposed branches).findSome? (Stmt.ownChildFault? true)
  | [] => rfl
  | (_, body) :: rest => by
    rw [branchesChildFault?, branchExposed, findSome?_append, bodyChildFault?_eq body,
      branchesChildFault?_eq rest]

end

variable {body : List Stmt} {stmt : Stmt}

theorem bodyChildFault?_eq_none_iff :
    bodyChildFault? false body = none ↔ (∀ stmt ∈ body, stmt.ownChildFault? false = none) ∧
      ∀ stmt ∈ bodyNested body, stmt.ownChildFault? true = none := by
  rw [bodyNested, forall_mem_flatMap]
  induction body with
  | nil => exact ⟨fun _ => ⟨forall_mem_nil _, forall_mem_nil _⟩, fun _ => rfl⟩
  | cons stmt rest ih =>
    rw [bodyChildFault?, Option.or_eq_none_iff, ih, stmt.childFault?_eq, Option.or_eq_none_iff,
      findSome?_eq_none_iff, forall_mem_cons, forall_mem_cons]
    exact and_and_and_comm

theorem checkChild_eq_ok_iff : checkChild body = .ok () ↔ bodyChildFault? false body = none := by
  rw [checkChild]
  cases bodyChildFault? false body <;> simp

/-- The exposed statements are those of the body and the nested ones. -/
theorem mem_bodyExposed_iff : stmt ∈ bodyExposed body ↔ stmt ∈ body ∨ stmt ∈ bodyNested body := by
  rw [bodyNested]
  induction body with
  | nil => simp [bodyExposed]
  | cons outer rest ih =>
    rw [bodyExposed, outer.exposed_eq, cons_append, mem_cons, mem_append, ih,
      flatMap_cons, mem_cons, mem_append]
    tauto

/-- A fault is one of the template, on the line of an exposed statement. -/
theorem fault_of_checkChild {fault : Fault} (h : checkChild body = .error fault) :
    (∃ stmt ∈ bodyExposed body, stmt.line = fault.line) ∧ fault.cause.kind ≠ .internal := by
  have hown : ∀ {nested : Bool} {stmt : Stmt}, stmt.ownChildFault? nested = some fault →
      stmt.line = fault.line ∧ fault.cause.kind ≠ .internal := by
    intro nested stmt hfault
    rw [Stmt.ownChildFault?] at hfault
    split at hfault
    · split at hfault <;> cases hfault
      exact ⟨rfl, nofun⟩
    · split at hfault <;> cases hfault
      exact ⟨rfl, nofun⟩
    · cases hfault
  rw [checkChild] at h
  split at h <;> cases h
  rename_i hfault
  -- The statement itself is at fault, or one inside it, or one after it.
  induction body with
  | nil => cases hfault
  | cons stmt rest ih =>
    rw [bodyChildFault?, stmt.childFault?_eq, Option.or_eq_some_iff, Option.or_eq_some_iff] at hfault
    rw [bodyExposed, stmt.exposed_eq]
    rcases hfault with (hfault | ⟨-, hfault⟩) | ⟨-, hfault⟩
    · obtain ⟨hline, hkind⟩ := hown hfault
      exact ⟨⟨stmt, mem_append_left _ mem_cons_self, hline⟩, hkind⟩
    · obtain ⟨inner, hinner, hfault⟩ := exists_of_findSome?_eq_some hfault
      obtain ⟨hline, hkind⟩ := hown hfault
      exact ⟨⟨inner, mem_append_left _ (mem_cons_of_mem _ hinner), hline⟩, hkind⟩
    · obtain ⟨⟨inner, hinner, hline⟩, hkind⟩ := ih hfault
      exact ⟨⟨inner, mem_append_right _ hinner, hline⟩, hkind⟩

theorem Stmt.isAllBlank_of_ownChildFault? {nested : Bool} {text : String}
    (h : stmt.ownChildFault? nested = none) (htext : stmt.kind = .text text) :
    Text.isAllBlank text = true := by
  rw [Stmt.ownChildFault?, htext] at h
  by_contra hblank
  cases (if_neg hblank).symm.trans h

theorem Stmt.place?_of_ownChildFault? (h : stmt.ownChildFault? true = none) :
    stmt.place? = none := by
  rw [Stmt.place?]
  split
  · rename_i name hkind
    rw [Stmt.ownChildFault?, hkind] at h
    cases h
  · rfl

theorem exposed_of_checkChild (h : checkChild body = .ok ()) :
    (∀ stmt ∈ bodyExposed body, ∀ text, stmt.kind = .text text → Text.isAllBlank text = true) ∧
      ∀ stmt ∈ bodyNested body, stmt.place? = none := by
  obtain ⟨hbody, hnested⟩ := bodyChildFault?_eq_none_iff.mp (checkChild_eq_ok_iff.mp h)
  refine ⟨fun stmt hstmt text htext => ?_, fun stmt hstmt =>
    Stmt.place?_of_ownChildFault? (hnested stmt hstmt)⟩
  rcases mem_bodyExposed_iff.mp hstmt with hstmt | hstmt
  · exact Stmt.isAllBlank_of_ownChildFault? (hbody stmt hstmt) htext
  · exact Stmt.isAllBlank_of_ownChildFault? (hnested stmt hstmt) htext

end TwigToLatte
