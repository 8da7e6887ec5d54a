import TwigToLatte.Proofs.Latte.Agreement
import TwigToLatte.Proofs.Pass.Steps
import TwigToLatte.Proofs.Template.Linking

/-!
# Blocks in their places

The body of a block is written at its place, with the bodies of the blocks inside it at theirs. This
ends because the blocks of a template cannot contain each other in a circle, and so the depth to
which blocks are written does not matter.

* `writeBlocks_succ` — a depth beyond the blocks that come later makes no difference.
* `eq_inlineBlock_iff` — there is one way to write blocks without a bound on the depth.
* `inlining_wellFounded` — **blocks refer to later blocks, so that writing them ends**.
-/

namespace TwigToLatte.Latte

open List

/-! ## One block -/

theorem lookup_blockBodies (table : List (String × Block)) (name : String) :
    (blockBodies table).lookup name =
      (table.lookup name).map fun block => statements block.body := by
  induction table with
  | nil => rfl
  | cons entry rest ih =>
    obtain ⟨other, body, line⟩ := entry
    rw [blockBodies, lookup_cons, lookup_cons, ih]
    cases name == other <;> rfl

/-- A block asks only for the blocks that it refers to. -/
theorem inlineBlock_congr {t : Template} {name : String} {block block' : BlockWriter}
    (h : ∀ other, t.RefersTo name other → block other = block' other) :
    inlineBlock (blockBodies t.blocks) block name =
      inlineBlock (blockBodies t.blocks) block' name := by
  funext line scope
  rw [inlineBlock, inlineBlock, lookup_blockBodies]
  cases hlookup : t.blocks.lookup name with
  | none => rfl
  | some found =>
    have hself : Alike block block scope scope (bodyParts found.body) :=
      ⟨.refl scope, fun _ _ _ _ => rfl⟩
    have hother : Alike block block' scope scope (bodyParts found.body) :=
      ⟨.refl scope, fun other hmem _ _ => by
        rw [h other ⟨found, mem_of_lookup_eq_some hlookup, hmem⟩]⟩
    simp only [Option.map_some, ← statements_plain found.body hself,
      statements_plain found.body hother]

/-! ## Any depth -/

section

variable {t : Template}

/-- A depth beyond the number of blocks that come later makes no difference. -/
theorem writeBlocks_succ (h : t.Linked) (depth : Nat) (name : String)
    (hdepth : t.blockNames.length - t.blockNames.idxOf name ≤ depth) :
    writeBlocks (blockBodies t.blocks) (depth + 1) name =
      writeBlocks (blockBodies t.blocks) depth name := by
  induction depth generalizing name with
  | zero =>
    have hname : t.blocks.lookup name = none := by
      rw [lookup_eq_none_iff_notMem]
      intro hmem
      have := idxOf_lt_length_iff.mpr hmem
      rw [Template.blockNames] at hdepth
      omega
    funext line scope
    rw [writeBlocks, writeBlocks, inlineBlock, lookup_blockBodies, hname]
    rfl
  | succ depth ih =>
    refine inlineBlock_congr fun other hrefers => ih other ?_
    have := (h.idxOf_lt hrefers).2
    omega

/-- **There is one way to write blocks without a bound on the depth**, and the one with a bound is
it. -/
theorem eq_inlineBlock_iff (h : t.Linked) (block : BlockWriter) :
    block = inlineBlock (blockBodies t.blocks) block ↔
      block = writeBlocks (blockBodies t.blocks) t.blocks.length := by
  have hlength : t.blockNames.length = t.blocks.length := length_map _
  have hfixed : writeBlocks (blockBodies t.blocks) t.blocks.length =
      inlineBlock (blockBodies t.blocks) (writeBlocks (blockBodies t.blocks) t.blocks.length) := by
    funext name
    exact (writeBlocks_succ h _ name (by omega)).symm
  constructor
  · intro hblock
    funext name
    induction name using h.wellFounded.induction with
    | _ name ih =>
      rw [hblock, hfixed]
      exact inlineBlock_congr fun other hrefers => ih other hrefers
  · rintro rfl
    exact hfixed

end

/-! ## Templates that have been read -/

/-- Every template in what a source holds is linked, before the passes of a conversion and after
them. -/
theorem linked_of_parse {dialect : Dialect} {source : Source} {t tree m : Template}
    (h : (Template.parse dialect source).result = .ok t)
    (htree : tree = t ∨ tree = dialect.runStages t) (hm : tree.Module m) : m.Linked := by
  have hall := allLinked_parse h
  rcases htree with rfl | rfl
  · exact hall m hm
  · exact dialect.allLinked_runStages hall m hm

/-- **Writing blocks in their places ends.** In a template that has been read, and in those embedded
in it, before and after the passes, a block refers only to blocks that are registered later. So the
relation is well founded, and the blocks can be written in their places in one way only, which needs
no greater depth than there are blocks. -/
theorem inlining_wellFounded {dialect : Dialect} {source : Source} {t tree m : Template}
    (h : (Template.parse dialect source).result = .ok t)
    (htree : tree = t ∨ tree = dialect.runStages t) (hm : tree.Module m) :
    m.blockNames.Nodup ∧
    (∀ a b, m.RefersTo a b → b ∈ m.blockNames ∧ m.blockNames.idxOf a < m.blockNames.idxOf b) ∧
    (WellFounded fun b a => m.RefersTo a b) ∧
    ∀ block : BlockWriter, block = inlineBlock (blockBodies m.blocks) block ↔
      block = writeBlocks (blockBodies m.blocks) m.blocks.length := by
  have hlinked := linked_of_parse h htree hm
  exact ⟨hlinked.nodup_blockNames, fun a b hab => hlinked.idxOf_lt hab, hlinked.wellFounded,
    eq_inlineBlock_iff hlinked⟩

/-- A block inside another one, and a template embedded in that with a block of the same name. -/
theorem inlining_wellFounded_nested :
    let dialect : Dialect := { tags := ⟨[("block", .block), ("embed", .embed)]⟩ }
    let source : Source := ⟨
      "\x7b% block a %\x7d\x7b% block b %\x7d\x7b% embed 'c' %\x7d\x7b% block a %\x7d" ++
      "\x7b% endblock %\x7d\x7b% endembed %\x7d\x7b% endblock %\x7d\x7b% endblock %\x7d", "", none⟩
    ∃ t, (Template.parse dialect source).result = .ok t ∧
      t.blocks.map (fun entry => (entry.1, bodyPlaces entry.2.body)) = [("a", ["b"]), ("b", [])] ∧
      (dialect.runStages t).blockNames.Nodup ∧
      WellFounded fun b a => (dialect.runStages t).RefersTo a b := by
  intro dialect source
  have hblocks : (Template.parse dialect source).result.toOption.any (fun t =>
      decide (t.blocks.map (fun entry => (entry.1, bodyPlaces entry.2.body)) =
        [("a", ["b"]), ("b", [])])) = true := by decide +kernel
  obtain ⟨t, hresult, hblocks⟩ := eq_ok_of_any hblocks
  obtain ⟨hnodup, -, hwellFounded, -⟩ := inlining_wellFounded hresult (.inr rfl) .self
  exact ⟨t, hresult, of_decide_eq_true hblocks, hnodup, hwellFounded⟩

end TwigToLatte.Latte
