import CssSort.Proofs.Stylesheet.Sites

/-! Style sheets one behind the other. A block lies in the first or in the second of
them, unless its opening brace is the last brace of the one and its closing brace
the first of the other. Without such a block at the seam the two layouts are joined
there, and sorting the whole is sorting its two parts. -/
namespace CssSort
open Ascii

namespace Layout

/-- There is a brace and the last one opens. -/
def opensLast (text : Bytes) : Bool :=
  (text.filter isBrace).getLast? == some openBrace

/-- Puts a layout behind a lead and some blocks. Its own lead continues what stands
behind the last of them. -/
def joinFrom (lead : Bytes) (blocks : List InnerBlock) (later : Layout) : Layout :=
  match blocks with
  | [] => ⟨lead ++ later.lead, later.blocks⟩
  | block :: blocks =>
    let rest := joinFrom block.behind blocks later
    ⟨lead, ⟨block.text, rest.lead⟩ :: rest.blocks⟩

def join (layout later : Layout) : Layout :=
  joinFrom layout.lead layout.blocks later

theorem joinFrom_append (front lead : Bytes) (blocks : List InnerBlock) (later : Layout) :
    joinFrom (front ++ lead) blocks later =
      ⟨front ++ (joinFrom lead blocks later).lead, (joinFrom lead blocks later).blocks⟩ := by
  cases blocks with
  | nil => simp [joinFrom]
  | cons block blocks => simp [joinFrom]

theorem toText_join (layout later : Layout) :
    (layout.join later).toText = layout.toText ++ later.toText := by
  obtain ⟨lead, blocks⟩ := layout
  rw [join]
  induction blocks generalizing lead with
  | nil => simp [joinFrom, toText]
  | cons block blocks ih =>
    have rest := ih block.behind
    simp only [toText] at rest
    simp [joinFrom, toText, rest]

theorem mapBlocks_join (f : Bytes → Bytes) (layout later : Layout) :
    (layout.join later).mapBlocks f = (layout.mapBlocks f).join (later.mapBlocks f) := by
  obtain ⟨lead, blocks⟩ := layout
  simp only [join, mapBlocks]
  induction blocks generalizing lead with
  | nil => simp [joinFrom]
  | cons block blocks ih =>
    simp only [joinFrom, List.map_cons, ← ih]

/-- One byte more in front. Only a brace that is closed behind the seam sees more of
the joined layout than of the first one. -/
theorem push_join {byte : UInt8} {layout later : Layout}
    (apart : byte = openBrace → closesFirst (layout.join later).lead = true →
      closesFirst layout.lead = true) :
    (layout.join later).push byte = (layout.push byte).join later := by
  by_cases block : byte = openBrace ∧ closesFirst layout.lead = true
  · obtain ⟨rfl, closes⟩ := block
    obtain ⟨inner, after, lead, free, closes⟩ := closesFirst_iff.mp closes
    obtain ⟨tail, rfl⟩ := List.head?_eq_some_iff.mp closes
    generalize found : joinFrom (closeBrace :: tail) layout.blocks later = rest
    have joined : layout.join later = ⟨inner ++ rest.lead, rest.blocks⟩ := by
      rw [join, lead, joinFrom_append, found]
    have closes' : rest.lead.head? = some closeBrace := by
      have longer : joinFrom (closeBrace :: tail) layout.blocks later = _ :=
        joinFrom_append [closeBrace] tail layout.blocks later
      rw [← found, longer]
      rfl
    rw [push_cut lead free closes, joined, push_cut rfl free closes', ← found]
    rfl
  · have block' : ¬ (byte = openBrace ∧ closesFirst (layout.join later).lead = true) := by
      rintro ⟨opens, closes⟩
      exact block ⟨opens, apart opens closes⟩
    rw [push_of_other block, push_of_other block']
    exact (joinFrom_append [byte] layout.lead layout.blocks later).symm

theorem closesFirst_append (front back : Bytes) : closesFirst (front ++ back) =
    if front.any isBrace then closesFirst front else closesFirst back := by
  induction front with
  | nil => rfl
  | cons byte front ih =>
    rw [List.cons_append, closesFirst_cons, closesFirst_cons, ih, List.any_cons]
    cases isBrace byte <;> simp

theorem opensLast_cons {byte : UInt8} {text : Bytes} (opens : opensLast text = true) :
    opensLast (byte :: text) = true := by
  simp only [opensLast, beq_iff_eq] at opens ⊢
  rw [List.filter_cons]
  split
  · rw [List.getLast?_cons, opens]
    rfl
  · exact opens

theorem opensLast_openBrace {text : Bytes} (free : text.any isBrace = false) :
    opensLast (openBrace :: text) = true := by
  have braceless : text.filter isBrace = [] := by simpa using free
  have brace : isBrace openBrace = true := by decide
  simp [opensLast, braceless, brace]

/-- Without a block at the seam, the layout of two texts is that of the first joined
to that of the second. Nothing closes the last brace in front of the seam. -/
theorem ofText_join {front back : Bytes}
    (apart : ¬ (opensLast front = true ∧ closesFirst back = true)) :
    ofText (front ++ back) = (ofText front).join (ofText back) := by
  induction front with
  | nil => rfl
  | cons byte front ih =>
    have joined := ih fun seam => apart ⟨opensLast_cons seam.1, seam.2⟩
    rw [List.cons_append, ofText_cons, ofText_cons, joined]
    apply push_join
    rintro rfl closes
    rw [← joined, closesFirst_lead, closesFirst_append] at closes
    rw [closesFirst_lead]
    cases braces : front.any isBrace with
    | true => simpa [braces] using closes
    | false =>
      simp only [braces] at closes
      exact absurd ⟨opensLast_openBrace braces, closes⟩ apart

end Layout

namespace Stylesheet

/-- Two texts are sorted apart from each other, unless the last brace of the first
one opens a block that the first brace of the second one closes. -/
theorem alphabetize_append (direction : Direction) (front back : Bytes)
    (apart : ¬ (Layout.opensLast front = true ∧ Layout.closesFirst back = true)) :
    alphabetize direction (front ++ back) =
      alphabetize direction front ++ alphabetize direction back := by
  simp only [alphabetize, Layout.ofText_join apart, Layout.mapBlocks_join, Layout.toText_join]

/-- The brace that is open at the seam is not closed behind it. -/
theorem alphabetize_append_pending :
    let front := Bytes.ofString "\x7bb:1;a:2\x7dp\x7bq"
    let back := Bytes.ofString "r\x7bd:1;c:2\x7d\x7d"
    (Layout.opensLast front = true ∧ Layout.closesFirst back = false) ∧
    alphabetize .ascending (front ++ back) =
      alphabetize .ascending front ++ alphabetize .ascending back := by
  intro front back
  have seam : Layout.opensLast front = true ∧ Layout.closesFirst back = false := by
    decide +kernel
  refine ⟨seam, alphabetize_append .ascending front back ?_⟩
  rw [seam.2]
  simp

end Stylesheet
end CssSort
