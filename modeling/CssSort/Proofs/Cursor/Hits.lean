import CssSort.Proofs.Cursor.Locality

/-! Where a search stops. It steps past every place that is no hit and stops behind the first
one that is. The pieces passed on the way end in front of the hit, and none of them looks
further than the byte behind it. So the way to a hit is the same whatever follows the byte
that is hit, and only the hit itself may be read as a longer piece. -/
namespace CssSort
open Ascii

namespace Cursor

/-- The byte stands here, outside strings, comments and parentheses. -/
def isHit (cursor : Cursor) (byte : UInt8) : Bool :=
  cursor.context.isTopLevel && cursor.peek? == some byte

/-- Steps lead to a later cursor, and no place on the way is a hit. -/
inductive Misses (byte : UInt8) : Cursor → Cursor → Prop where
  | refl (cursor : Cursor) : Misses byte cursor cursor
  | step {cursor next later : Cursor} {piece : Piece} : cursor.step? = some (piece, next) →
      cursor.isHit byte = false → Misses byte next later → Misses byte cursor later

section Hit

variable {cursor next : Cursor} {piece : Piece} {byte : UInt8}

theorem isHit_iff : cursor.isHit byte = true ↔
    cursor.context.isTopLevel = true ∧ ∃ rest, cursor.rest = byte :: rest := by
  rw [isHit, Bool.and_eq_true, beq_iff_eq, peek?, List.head?_eq_some_iff]

theorem isHit_of_step? (step : cursor.step? = some (piece, next)) (byte : UInt8) :
    (cursor.context.isTopLevel && piece.first == byte) = cursor.isHit byte := by
  have ahead : cursor.rest = piece.first :: (piece.tail ++ next.rest) := (reads_of_step? step).rest
  simp [isHit, peek?, ahead]

theorem exists_step?_of_isHit (hit : cursor.isHit byte = true) :
    ∃ piece next, cursor.step? = some (piece, next) := by
  obtain ⟨-, rest, ahead⟩ := isHit_iff.mp hit
  exact ⟨_, _, step?_cons ahead⟩

theorem rest_ne_nil_of_step? (step : cursor.step? = some (piece, next)) : cursor.rest ≠ [] := by
  intro nothing
  rw [step?_eq_none_iff.mpr nothing] at step
  contradiction

/-- The first byte alone decides, so a hit does not depend on what follows. -/
theorem isHit_embed (known : cursor.rest ≠ []) (before : Nat) (behind : Bytes) (byte : UInt8) :
    (cursor.embed before behind).isHit byte = cursor.isHit byte := by
  obtain ⟨first, rest, ahead⟩ := List.exists_cons_of_ne_nil known
  simp [isHit, peek?, ahead]

end Hit

namespace Misses

variable {byte : UInt8} {cursor later : Cursor}

theorem exists_reads (misses : Misses byte cursor later) : ∃ read, cursor.Reads read later := by
  induction misses with
  | refl cursor => exact ⟨[], .refl cursor⟩
  | step step _ _ ih =>
    obtain ⟨read, reads⟩ := ih
    exact ⟨_, (reads_of_step? step).trans reads⟩

/-- Steps that leave something unread are the same steps in front of any text, since no
piece on the way is the last one of the known part. -/
theorem embed (misses : Misses byte cursor later) (unread : later.rest ≠ []) (before : Nat)
    (behind : Bytes) : Misses byte (cursor.embed before behind) (later.embed before behind) := by
  induction misses with
  | refl cursor => exact .refl _
  | @step cursor next later piece step miss rest ih =>
    have left : next.rest ≠ [] := by
      obtain ⟨read, reads⟩ := rest.exists_reads
      rw [reads.rest]
      exact List.append_ne_nil_of_right_ne_nil read unread
    refine .step (step?_embed step left before behind) ?_ (ih unread)
    rwa [isHit_embed (rest_ne_nil_of_step? step)]

/-- Steps that stop in front of the text behind are steps of the known part. -/
theorem of_embed {before : Nat} {behind : Bytes}
    (misses : Misses byte (cursor.embed before behind) later)
    (enough : behind.length < later.rest.length) :
    ∃ inner, Misses byte cursor inner ∧ inner.rest ≠ [] ∧ later = inner.embed before behind := by
  generalize whole : cursor.embed before behind = outer at misses
  induction misses generalizing cursor with
  | refl outer =>
    subst whole
    refine ⟨cursor, .refl cursor, ?_, rfl⟩
    intro nothing
    simp [nothing] at enough
  | @step outer next later piece step miss rest ih =>
    subst whole
    have less : behind.length < next.rest.length := by
      obtain ⟨read, reads⟩ := rest.exists_reads
      have := reads.length
      omega
    obtain ⟨middle, own, -, rfl⟩ := step?_of_embed step less
    obtain ⟨inner, misses, unread, here⟩ := ih enough rfl
    rw [isHit_embed (rest_ne_nil_of_step? own)] at miss
    exact ⟨inner, .step own miss misses, unread, here⟩

end Misses

section Search

variable {cursor stop : Cursor} {byte : UInt8} {place : Nat}

/-- A search stops behind the piece that the first hit starts. -/
theorem skipPast_eq_some_iff : cursor.skipPast byte = (some place, stop) ↔
    ∃ start piece, Misses byte cursor start ∧ start.isHit byte = true ∧
      start.step? = some (piece, stop) ∧ start.pos = place := by
  constructor
  · intro search
    fun_induction skipPast cursor byte with
    | case1 => simp at search
    | case2 cursor piece next step found =>
      obtain ⟨rfl, rfl⟩ : cursor.pos = place ∧ next = stop := by simpa using search
      rw [isHit_of_step? step] at found
      exact ⟨cursor, piece, .refl cursor, found, step, rfl⟩
    | case3 cursor piece next step other ih =>
      obtain ⟨start, last, misses, hit, ends, here⟩ := ih search
      rw [isHit_of_step? step, Bool.not_eq_true] at other
      exact ⟨start, last, .step step other misses, hit, ends, here⟩
  · rintro ⟨start, piece, misses, hit, ends, rfl⟩
    induction misses with
    | refl start => rw [skipPast_of_step? ends, isHit_of_step? ends, if_pos hit]
    | step step miss _ ih =>
      rw [skipPast_of_step? step, isHit_of_step? step, miss]
      exact ih hit ends

theorem fst_skipPast_eq_some_iff : (cursor.skipPast byte).1 = some place ↔
    ∃ start, Misses byte cursor start ∧ start.isHit byte = true ∧ start.pos = place := by
  constructor
  · intro found
    obtain ⟨start, _, misses, hit, -, here⟩ := skipPast_eq_some_iff.mp (Prod.ext found rfl)
    exact ⟨start, misses, hit, here⟩
  · rintro ⟨start, misses, hit, here⟩
    obtain ⟨piece, stop, ends⟩ := exists_step?_of_isHit hit
    exact congrArg Prod.fst (skipPast_eq_some_iff.mpr ⟨start, piece, misses, hit, ends, here⟩)

theorem lt_of_fst_skipPast (found : (cursor.skipPast byte).1 = some place) :
    place < cursor.pos + cursor.rest.length := by
  obtain ⟨start, misses, hit, rfl⟩ := fst_skipPast_eq_some_iff.mp found
  obtain ⟨-, rest, ahead⟩ := isHit_iff.mp hit
  obtain ⟨read, reads⟩ := misses.exists_reads
  rw [reads.pos, reads.length, ahead, List.length_cons]
  omega

/-- A hit is found in front of any text. -/
theorem fst_skipPast_embed (found : (cursor.skipPast byte).1 = some place) (before : Nat)
    (behind : Bytes) : ((cursor.embed before behind).skipPast byte).1 = some (before + place) := by
  obtain ⟨start, misses, hit, rfl⟩ := fst_skipPast_eq_some_iff.mp found
  obtain ⟨piece, next, ends⟩ := exists_step?_of_isHit hit
  have unread := rest_ne_nil_of_step? ends
  refine fst_skipPast_eq_some_iff.mpr ⟨_, misses.embed unread before behind, ?_, rfl⟩
  rwa [isHit_embed unread]

/-- A hit in front of the text behind is a hit of the known part, where a byte is left to
read at the hit. -/
theorem fst_skipPast_of_embed {before : Nat} {behind : Bytes}
    (found : ((cursor.embed before behind).skipPast byte).1 = some (before + place))
    (inside : place < cursor.pos + cursor.rest.length) :
    (cursor.skipPast byte).1 = some place := by
  obtain ⟨later, misses, hit, here⟩ := fst_skipPast_eq_some_iff.mp found
  have enough : behind.length < later.rest.length := by
    obtain ⟨read, reads⟩ := misses.exists_reads
    have pos := reads.pos
    have length := reads.length
    simp only [embed, List.length_append] at pos length
    omega
  obtain ⟨start, own, unread, rfl⟩ := misses.of_embed enough
  rw [isHit_embed unread] at hit
  exact fst_skipPast_eq_some_iff.mpr ⟨start, own, hit, Nat.add_left_cancel here⟩

/-- A plain byte is a piece of its own, so reading goes on afresh behind a hit. -/
theorem skipPast_hit (plain : IsPlain byte) (search : cursor.skipPast byte = (some place, stop)) :
    ∃ read, cursor.Reads (read ++ [byte]) stop ∧ stop.context = {} ∧
      place = cursor.pos + read.length := by
  obtain ⟨start, piece, misses, hit, ends, rfl⟩ := skipPast_eq_some_iff.mp search
  obtain ⟨top, rest, ahead⟩ := isHit_iff.mp hit
  have fresh := Context.isTopLevel_iff.mp top
  have outside : start.context.mode = .normal := by rw [fresh]
  rw [step?_plain plain outside ahead] at ends
  obtain ⟨-, rfl⟩ := Prod.mk.inj (Option.some.inj ends)
  obtain ⟨read, reads⟩ := misses.exists_reads
  exact ⟨read, reads.trans ⟨ahead, rfl⟩, fresh, reads.pos⟩

theorem skipPast_embed (plain : IsPlain byte) (search : cursor.skipPast byte = (some place, stop))
    (before : Nat) (behind : Bytes) : (cursor.embed before behind).skipPast byte =
      (some (before + place), stop.embed before behind) := by
  obtain ⟨start, piece, misses, hit, ends, rfl⟩ := skipPast_eq_some_iff.mp search
  obtain ⟨top, rest, ahead⟩ := isHit_iff.mp hit
  have unread := rest_ne_nil_of_step? ends
  have outside : start.context.mode = .normal := by rw [Context.isTopLevel_iff.mp top]
  have same : (start.embed before behind).rest = byte :: (rest ++ behind) := by
    rw [rest_embed, ahead, List.cons_append]
  refine skipPast_eq_some_iff.mpr
    ⟨_, ⟨byte, []⟩, misses.embed unread before behind, ?_, ?_, rfl⟩
  · rwa [isHit_embed unread]
  · rw [step?_plain plain outside ahead] at ends
    obtain ⟨-, rfl⟩ := Prod.mk.inj (Option.some.inj ends)
    exact step?_plain plain outside same

theorem skipPast_of_embed {before : Nat} {behind : Bytes}
    (search : (cursor.embed before behind).skipPast byte = (some place, stop))
    (enough : behind.length ≤ stop.rest.length) :
    ∃ own stop', cursor.skipPast byte = (some own, stop') := by
  obtain ⟨later, _, misses, hit, ends, -⟩ := skipPast_eq_some_iff.mp search
  have less := rest_length_of_step? ends
  obtain ⟨start, own, unread, rfl⟩ := misses.of_embed (Nat.lt_of_le_of_lt enough less)
  rw [isHit_embed unread] at hit
  obtain ⟨piece, stop', ends'⟩ := exists_step?_of_isHit hit
  exact ⟨_, stop', skipPast_eq_some_iff.mpr ⟨start, piece, own, hit, ends', rfl⟩⟩

end Search
end Cursor

section Seam

variable {text : Bytes} {byte : UInt8} {place : Nat}

theorem findTopLevel?_lt (found : findTopLevel? text byte = some place) : place < text.length := by
  have bound := Cursor.lt_of_fst_skipPast found
  rwa [Cursor.ofText, Nat.zero_add] at bound

theorem findTopLevel?_append (found : findTopLevel? text byte = some place) (behind : Bytes) :
    findTopLevel? (text ++ behind) byte = some place := by
  have same := Cursor.fst_skipPast_embed found 0 behind
  rwa [Nat.zero_add] at same

end Seam

/-- What is found in a text is found in every longer text, and what is found in the longer one
in front of the seam is found without the rest. This holds for each byte and wherever the text
is cut, in a string, in an escape or between the two bytes of a comment mark. -/
theorem findTopLevel?_local (text behind : Bytes) (byte : UInt8) :
    (∀ place < text.length, findTopLevel? (text ++ behind) byte = some place ↔
      findTopLevel? text byte = some place) ∧
    (∀ place, findTopLevel? text byte = some place →
      place < text.length ∧ findTopLevel? (text ++ behind) byte = some place) ∧
    (findTopLevel? text byte = none →
      ∀ place, findTopLevel? (text ++ behind) byte = some place → text.length ≤ place) := by
  have back : ∀ place < text.length, findTopLevel? (text ++ behind) byte = some place →
      findTopLevel? text byte = some place := by
    intro place inside found
    have outer : (((Cursor.ofText text).embed 0 behind).skipPast byte).1 = some (0 + place) := by
      rw [Nat.zero_add]
      exact found
    apply Cursor.fst_skipPast_of_embed outer
    rwa [Cursor.ofText, Nat.zero_add]
  refine ⟨fun place inside => ⟨back place inside, fun found => findTopLevel?_append found behind⟩,
    fun place found => ⟨findTopLevel?_lt found, findTopLevel?_append found behind⟩, ?_⟩
  intro nowhere place found
  refine Nat.le_of_not_lt fun inside => ?_
  rw [back place inside found] at nowhere
  contradiction

/-- Cuts inside the mark that opens a comment, behind a backslash and in a string. The slash at
the first cut is hit alone and as the start of the mark. A semicolon that is taken into the
comment or the escape does not count, and the next one is found behind the cut. -/
theorem findTopLevel?_local_cuts :
    let mark := Bytes.ofString "(/)/"
    let escape := Bytes.ofString "é\\"
    let string := Bytes.ofString "a:'"
    (findTopLevel? mark slash = some 3 ∧
      findTopLevel? (mark ++ Bytes.ofString "*;*/;") slash = some 3) ∧
    (findTopLevel? (mark ++ Bytes.ofString "*;*/;") semicolon = some 8 ∧ mark.length ≤ 8) ∧
    (findTopLevel? (escape ++ Bytes.ofString ";;") semicolon = some 4 ∧ escape.length ≤ 4) ∧
    findTopLevel? (string ++ Bytes.ofString ";';") colon = some 1 ∧
    findTopLevel? string colon = some 1 := by
  intro mark escape string
  have alone : findTopLevel? mark slash = some 3 := by decide +kernel
  have comment : findTopLevel? (mark ++ Bytes.ofString "*;*/;") semicolon = some 8 := by
    decide +kernel
  have escaped : findTopLevel? (escape ++ Bytes.ofString ";;") semicolon = some 4 := by
    decide +kernel
  have quoted : findTopLevel? (string ++ Bytes.ofString ";';") colon = some 1 := by
    decide +kernel
  obtain ⟨-, kept, -⟩ := findTopLevel?_local mark (Bytes.ofString "*;*/;") slash
  obtain ⟨-, -, afterMark⟩ := findTopLevel?_local mark (Bytes.ofString "*;*/;") semicolon
  obtain ⟨-, -, afterEscape⟩ := findTopLevel?_local escape (Bytes.ofString ";;") semicolon
  obtain ⟨same, -, -⟩ := findTopLevel?_local string (Bytes.ofString ";';") colon
  exact ⟨⟨alone, (kept 3 alone).2⟩, ⟨comment, afterMark (by decide +kernel) 8 comment⟩,
    ⟨escaped, afterEscape (by decide +kernel) 4 escaped⟩, quoted,
    (same 1 (by decide +kernel)).mp quoted⟩

end CssSort
