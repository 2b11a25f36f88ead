import Lift6502.Proofs.Shape.Recognition
import Lift6502.Routine.Build

/-!
# The matches of a routine

A routine is built by recognising what stands at the front of the blocks that are left, over and
over. The matches that this makes are a list of their own here: they claim every block exactly once,
and the nodes of the routine are the code for one match after the other.
-/

namespace Lift6502.Routine

/-- What the blocks of a routine are recognised as, from the front to the back. -/
def shapes (symbols : SymbolTable) (blocks : List Block) : List Match :=
  match blocks with
  | [] => []
  | block :: rest =>
    let found := Shape.recognise symbols (block :: rest)
    found :: shapes symbols (rest.drop (found.blocks.length - 1))
termination_by blocks.length

/-- The code for matches, one after the other. -/
def codeFor (symbols : SymbolTable) (usage : Usage) : List Match → Usage × List Node
  | [] => (usage, [])
  | found :: others =>
    let usage := found.instructions.foldl (Usage.note symbols) usage
    let (usage, nodes) := structured symbols usage found
    let (usage, rest) := codeFor symbols usage others
    (usage, nodes ++ rest)

/-- What a match claims and what is left for the next one are all blocks. -/
theorem recognise_blocks_append_drop (symbols : SymbolTable) (block : Block) (rest : List Block) :
    (Shape.recognise symbols (block :: rest)).blocks
      ++ rest.drop ((Shape.recognise symbols (block :: rest)).blocks.length - 1)
        = block :: rest := by
  obtain ⟨hfits, _⟩ := Shape.recognise_promises symbols block rest
  obtain ⟨others, hothers⟩ := hfits.isPrefix
  obtain ⟨first, more, hfound⟩ := List.exists_cons_of_ne_nil hfits.nonempty
  rw [hfound, List.cons_append, List.cons.injEq] at hothers
  rw [hfound, ← hothers.1, ← hothers.2]
  simp

/-- Every block belongs to exactly one match. -/
theorem flatMap_blocks_shapes (symbols : SymbolTable) (blocks : List Block) :
    (shapes symbols blocks).flatMap (·.blocks) = blocks := by
  fun_induction shapes symbols blocks with
  | case1 => rfl
  | case2 block rest found ih =>
    rw [List.flatMap_cons, ih]
    exact recognise_blocks_append_drop symbols block rest

theorem flatMap_instructions_shapes (symbols : SymbolTable) (blocks : List Block) :
    (shapes symbols blocks).flatMap Match.instructions = Block.instructionsOf blocks := by
  have h := congrArg Block.instructionsOf (flatMap_blocks_shapes symbols blocks)
  rwa [Block.instructionsOf, List.flatMap_assoc] at h

/-- A match of a routine was recognised at the front of some blocks. -/
theorem exists_recognise_of_mem_shapes {symbols : SymbolTable} {blocks : List Block} {found : Match}
    (h : found ∈ shapes symbols blocks) :
    ∃ block rest, found = Shape.recognise symbols (block :: rest) := by
  fun_induction shapes symbols blocks with
  | case1 => cases h
  | case2 block rest first ih =>
    rcases List.mem_cons.mp h with hfirst | hothers
    · exact ⟨block, rest, hfirst⟩
    · exact ih hothers

theorem sound_of_mem_shapes {symbols : SymbolTable} {blocks : List Block} {found : Match}
    (h : found ∈ shapes symbols blocks) : found.Sound := by
  obtain ⟨block, rest, rfl⟩ := exists_recognise_of_mem_shapes h
  exact (Shape.recognise_promises symbols block rest).2

theorem anchored_of_mem_shapes {symbols : SymbolTable} {blocks : List Block} {found : Match}
    (h : found ∈ shapes symbols blocks) : ∃ i ∈ found.instructions, i.address = found.anchor := by
  obtain ⟨block, rest, rfl⟩ := exists_recognise_of_mem_shapes h
  exact (Shape.recognise_promises symbols block rest).1.anchored

theorem ascending_of_mem_shapes {symbols : SymbolTable} {blocks : List Block} {found : Match}
    (hascending : Ascending (Block.instructionsOf blocks)) (h : found ∈ shapes symbols blocks) :
    Ascending found.instructions := by
  rw [← flatMap_instructions_shapes symbols blocks] at hascending
  exact hascending.sublist (List.sublist_flatten_of_mem (List.mem_map_of_mem h))

/-- A routine is the code for its matches. -/
theorem build_eq_codeFor (symbols : SymbolTable) (usage : Usage) (blocks : List Block) :
    build symbols usage blocks = codeFor symbols usage (shapes symbols blocks) := by
  fun_induction shapes symbols blocks generalizing usage with
  | case1 => rw [build, codeFor]
  | case2 block rest found ih =>
    rw [build, codeFor]
    simp only [← ih]
    rfl

end Lift6502.Routine
