import CssSort.Proofs.Stylesheet.Concatenation
import CssSort.Proofs.Stylesheet.Slices

/-! Sorting in one pass from left to right. A pass keeps the place up to which the text is
taken, the place of the last brace if it opens, and a count of blocks. After each byte it has
written what the layout of the bytes read so far says, so at the end it has sorted the style
sheet, and the slices that it took are the pieces of the layout. -/
namespace CssSort
open Ascii

/-- What is known while a style sheet is read. -/
structure Pass where
  /-- All text in front of this place has been taken. -/
  copied : Nat := 0
  /-- The last brace, if it opens. -/
  open? : Option Nat := none
  blocks : Nat := 0
  output : Bytes := []
  /-- The parts of the text that were taken, in order. -/
  slices : List Bytes := []
  deriving DecidableEq, Repr

namespace Pass

/-- Reads one byte. A brace that closes ends the block that was opened last. -/
def step (f : Bytes → Bytes) (text : Bytes) (pass : Pass) : UInt8 × Nat → Pass
  | (byte, pos) =>
    if byte = openBrace then { pass with open? := some pos }
    else if byte = closeBrace then
      match pass.open? with
      | none => pass
      | some start =>
        let before := text.slice pass.copied (start + 1)
        let inner := text.slice (start + 1) pos
        { copied := pos
          open? := none
          blocks := pass.blocks + 1
          output := pass.output ++ before ++ f inner
          slices := pass.slices ++ [before, inner] }
    else pass

/-- Takes what is left. -/
def finish (text : Bytes) (pass : Pass) : Pass :=
  { pass with
    copied := text.length
    output := pass.output ++ text.drop pass.copied
    slices := pass.slices ++ [text.drop pass.copied] }

def run (f : Bytes → Bytes) (text : Bytes) : Pass :=
  finish text (text.zipIdx.foldl (step f text) {})

end Pass

namespace Layout

/-- A layout is joined to the last of the pieces. -/
theorem exists_pieces_join (layout : Layout) : ∃ front last, layout.pieces = front ++ [last] ∧
    ∀ later : Layout, (layout.join later).pieces =
      front ++ (last ++ later.lead) :: later.blocks.flatMap fun block =>
        [block.text, block.behind] := by
  obtain ⟨lead, blocks⟩ := layout
  simp only [join]
  induction blocks generalizing lead with
  | nil => exact ⟨[], lead, rfl, fun later => rfl⟩
  | cons block blocks ih =>
    obtain ⟨front, last, pieces, joined⟩ := ih block.behind
    refine ⟨lead :: block.text :: front, last, ?_, fun later => ?_⟩
    · have rest : block.behind :: _ = front ++ [last] := pieces
      simp only [Layout.pieces, List.flatMap_cons, List.cons_append, List.nil_append, rest]
    · have rest := joined later
      simp only [Layout.pieces] at rest
      simp only [joinFrom, Layout.pieces, List.flatMap_cons, List.cons_append, List.nil_append,
        rest]

theorem length_blocks_join (layout later : Layout) :
    (layout.join later).blocks.length = layout.blocks.length + later.blocks.length := by
  obtain ⟨lead, blocks⟩ := layout
  simp only [join]
  induction blocks generalizing lead with
  | nil => simp [joinFrom]
  | cons block blocks ih =>
    simp only [joinFrom, List.length_cons, ih]
    omega

theorem ofText_singleton (byte : UInt8) : ofText [byte] = ⟨[byte], []⟩ := by
  rw [ofText_cons]
  exact push_of_other fun block => absurd block.2 (by decide)

theorem opensLast_concat (front : Bytes) (byte : UInt8) : opensLast (front ++ [byte]) =
    if isBrace byte then byte == openBrace else opensLast front := by
  rw [opensLast, List.filter_append]
  cases brace : isBrace byte <;> simp [brace, opensLast]

/-- A block that stands behind some text. -/
theorem ofText_block {inner : Bytes} (free : ∀ byte ∈ inner, isBrace byte = false)
    (before : Bytes) :
    ofText (before ++ openBrace :: inner) = (ofText before).join ⟨openBrace :: inner, []⟩ ∧
      ofText (before ++ openBrace :: (inner ++ [closeBrace])) =
        (ofText before).join ⟨[openBrace], [⟨inner, [closeBrace]⟩]⟩ := by
  have apart (rest : Bytes) :
      ¬ (opensLast before = true ∧ closesFirst (openBrace :: rest) = true) := by
    rw [closesFirst_cons]
    rintro ⟨-, ⟨⟩⟩
  have plain := ofText_append free []
  have ended := ofText_append free [closeBrace]
  rw [List.append_nil] at plain
  constructor
  · have nowhere : closesFirst (inner ++ []) = false := by
      rw [List.append_nil, closesFirst, List.dropWhile_eq_nil_iff.mpr (by simpa using free)]
      rfl
    rw [ofText_join (apart inner), ofText_cons, plain, push_of_other fun block => ?_]
    · simp [ofText]
    · exact Bool.false_ne_true (nowhere.symm.trans block.2)
  · rw [ofText_join (apart _), ofText_cons, ended, ofText_singleton, push_cut rfl free rfl]

end Layout

namespace Pass

variable {f : Bytes → Bytes} {front : Bytes} {byte : UInt8} {pass : Pass}

/-- What was taken from the bytes read so far is what their layout says. -/
structure Taken (f : Bytes → Bytes) (front : Bytes) (pass : Pass) : Prop where
  blocks : pass.blocks = (Layout.ofText front).blocks.length
  output : pass.output ++ front.drop pass.copied = ((Layout.ofText front).mapBlocks f).toText
  slices : pass.slices ++ [front.drop pass.copied] = (Layout.ofText front).pieces
  copied : pass.copied ≤ front.length

/-- The last brace of the bytes read so far is known if it opens. -/
structure Watches (front : Bytes) (pass : Pass) : Prop where
  opened : ∀ start ∈ pass.open?, ∃ before inner, front = before ++ openBrace :: inner ∧
    (∀ byte ∈ inner, isBrace byte = false) ∧ before.length = start ∧ pass.copied ≤ start
  closed : pass.open? = none → Layout.opensLast front = false

/-- A byte that ends no block is left for later. -/
theorem Taken.extend (taken : Taken f front pass)
    (apart : ¬ (Layout.opensLast front = true ∧ byte = closeBrace)) (open? : Option Nat) :
    Taken f (front ++ [byte]) { pass with open? := open? } := by
  have joined : Layout.ofText (front ++ [byte]) = (Layout.ofText front).join ⟨[byte], []⟩ := by
    rw [Layout.ofText_join, Layout.ofText_singleton]
    rintro ⟨opens, closes⟩
    rw [Layout.closesFirst_cons] at closes
    split at closes
    · exact apart ⟨opens, eq_of_beq closes⟩
    · cases closes
  have later : (front ++ [byte]).drop pass.copied = front.drop pass.copied ++ [byte] :=
    List.drop_append_of_le_length taken.copied
  constructor
  case blocks =>
    rw [joined, Layout.length_blocks_join]
    exact taken.blocks
  case output =>
    rw [joined, Layout.mapBlocks_join, Layout.toText_join, ← taken.output, later]
    simp [Layout.mapBlocks, Layout.toText]
  case slices =>
    obtain ⟨others, last, pieces, grown⟩ := Layout.exists_pieces_join (Layout.ofText front)
    obtain ⟨same, final⟩ := List.append_inj' (taken.slices.trans pieces) rfl
    rw [joined, grown, later, same, List.cons.inj final |>.1]
    rfl
  case copied =>
    rw [List.length_append]
    exact Nat.le_add_right_of_le taken.copied

/-- A block is taken when it is closed. -/
theorem Taken.close {before inner : Bytes} (taken : Taken f (before ++ openBrace :: inner) pass)
    (free : ∀ byte ∈ inner, isBrace byte = false) (bound : pass.copied ≤ before.length) :
    Taken f (before ++ openBrace :: (inner ++ [closeBrace]))
      { copied := (before ++ openBrace :: inner).length
        open? := none
        blocks := pass.blocks + 1
        output := pass.output ++ (before.drop pass.copied ++ [openBrace]) ++ f inner
        slices := pass.slices ++ [before.drop pass.copied ++ [openBrace], inner] } := by
  obtain ⟨unclosed, joined⟩ := Layout.ofText_block free before
  obtain ⟨others, last, pieces, grown⟩ := Layout.exists_pieces_join (Layout.ofText before)
  obtain ⟨blocks, output, slices, -⟩ := taken
  have pending : (before ++ openBrace :: inner).drop pass.copied =
      before.drop pass.copied ++ openBrace :: inner := List.drop_append_of_le_length bound
  have rest : (before ++ openBrace :: (inner ++ [closeBrace])).drop
      (before ++ openBrace :: inner).length = [closeBrace] := by
    rw [← List.cons_append, ← List.append_assoc, List.drop_left]
  rw [unclosed] at blocks output slices
  constructor
  case blocks =>
    rw [Layout.length_blocks_join] at blocks
    rw [joined, Layout.length_blocks_join, blocks]
    rfl
  case output =>
    rw [Layout.mapBlocks_join, Layout.toText_join, pending, ← List.append_assoc] at output
    have written : pass.output ++ before.drop pass.copied =
        ((Layout.ofText before).mapBlocks f).toText := by
      refine List.append_cancel_right (output.trans ?_)
      simp [Layout.mapBlocks, Layout.toText]
    rw [joined, Layout.mapBlocks_join, Layout.toText_join, rest, ← written]
    simp [Layout.mapBlocks, Layout.toText]
  case slices =>
    rw [grown, pending] at slices
    obtain ⟨same, final⟩ := List.append_inj' slices rfl
    have ended : before.drop pass.copied = last :=
      List.append_cancel_right (List.cons.inj final).1
    rw [joined, grown, rest, same, ended]
    simp
  case copied => simp

/-- The two slices that are taken when a block is closed. -/
theorem slices_of_block {text before inner rest : Bytes} {copied : Nat}
    (whole : text = before ++ openBrace :: inner ++ rest) (bound : copied ≤ before.length) :
    text.slice copied (before.length + 1) = before.drop copied ++ [openBrace] ∧
      text.slice (before.length + 1) (before ++ openBrace :: inner).length = inner := by
  have cut : text = (before ++ [openBrace]) ++ (inner ++ rest) := by simp [whole]
  have size : before.length + 1 = (before ++ [openBrace]).length := by simp
  have both : before ++ openBrace :: inner = (before ++ [openBrace]) ++ inner := by simp
  constructor
  · rw [cut, size, Bytes.slice, List.take_left, List.drop_append_of_le_length bound]
  · rw [cut, size, both, Bytes.slice_append]

/-- One byte keeps what is known in step with the layout. -/
theorem step_reached {text rest : Bytes} (whole : text = front ++ byte :: rest)
    (taken : Taken f front pass) (watches : Watches front pass) :
    Taken f (front ++ [byte]) (pass.step f text (byte, front.length)) ∧
      Watches (front ++ [byte]) (pass.step f text (byte, front.length)) := by
  obtain ⟨opened, closed⟩ := watches
  by_cases opens : byte = openBrace
  · subst opens
    have stepped : pass.step f text (openBrace, front.length) =
        { pass with open? := some front.length } := by rw [step, if_pos rfl]
    rw [stepped]
    refine ⟨taken.extend (by rintro ⟨-, ⟨⟩⟩) _, ?_, nofun⟩
    rintro _ ⟨⟩
    exact ⟨front, [], rfl, List.forall_mem_nil _, rfl, taken.copied⟩
  by_cases closes : byte = closeBrace
  · subst closes
    have turned : Layout.opensLast (front ++ [closeBrace]) = false := Layout.opensLast_concat _ _
    cases known : pass.open? with
    | none =>
      have stepped : pass.step f text (closeBrace, front.length) = pass := by
        simp [step, opens, known]
      rw [stepped]
      exact ⟨taken.extend (by simp [closed known]) pass.open?, by simp [known], fun _ => turned⟩
    | some start =>
      obtain ⟨before, inner, rfl, free, rfl, bound⟩ := opened start known
      obtain ⟨first, second⟩ := slices_of_block whole bound
      simp only [step, opens, known, first, second, if_true, if_false]
      exact ⟨by simpa using taken.close free bound, nofun, fun _ => turned⟩
  · have other : isBrace byte = false := by simp [isBrace, opens, closes]
    have stepped : pass.step f text (byte, front.length) = pass := by
      simp [step, opens, closes]
    rw [stepped]
    refine ⟨taken.extend (by simp [closes]) pass.open?, ?_, ?_⟩
    · intro start known
      obtain ⟨before, inner, rfl, free, size, bound⟩ := opened start known
      refine ⟨before, inner ++ [byte], by simp, ?_, size, bound⟩
      simpa [or_imp, forall_and, other] using free
    · intro known
      rw [Layout.opensLast_concat, other]
      exact closed known

theorem foldl_reached (f : Bytes → Bytes) {text rest : Bytes} (whole : text = front ++ rest)
    (taken : Taken f front pass) (watches : Watches front pass) :
    Taken f text ((rest.zipIdx front.length).foldl (step f text) pass) := by
  induction rest generalizing front pass with
  | nil =>
    rw [List.append_nil] at whole
    rw [whole]
    exact taken
  | cons byte rest ih =>
    obtain ⟨more, watching⟩ := step_reached whole taken watches
    rw [List.zipIdx_cons, List.foldl_cons]
    have cut : text = (front ++ [byte]) ++ rest := by simpa using whole
    have next := ih cut more watching
    rwa [List.length_append] at next

/-- At the end all has been taken. -/
theorem run_eq (f : Bytes → Bytes) (text : Bytes) :
    (run f text).output = ((Layout.ofText text).mapBlocks f).toText ∧
      (run f text).slices = (Layout.ofText text).pieces ∧
      (run f text).blocks = (Layout.ofText text).blocks.length := by
  have start : Taken f [] {} := ⟨rfl, rfl, rfl, Nat.le_refl 0⟩
  have watches : Watches [] {} := ⟨nofun, fun _ => rfl⟩
  have taken := foldl_reached f (List.nil_append text).symm start watches
  exact ⟨taken.output, taken.slices, taken.blocks⟩

end Pass

/-- One pass from left to right sorts a style sheet. The slices that it takes are the pieces
of the layout, and the blocks that it counts are those that are reported. -/
theorem Stylesheet.run_eq_alphabetize (direction : Direction) (text : Bytes) :
    let pass := Pass.run (Block.arrange direction) text
    pass.output = alphabetize direction text ∧ pass.slices = (Layout.ofText text).pieces ∧
      (events text).getLast? = some (.alphabetized pass.blocks text.length) := by
  obtain ⟨output, slices, blocks⟩ := Pass.run_eq (Block.arrange direction) text
  refine ⟨output, slices, ?_⟩
  rw [blocks, events, List.getLast?_concat]

end CssSort
