import CssSort.Proofs.Json.Scalars

/-! Values of any depth. A run over the list of open containers reads what the grammar
derives: the list stands for what is still to come, and a value on top of it runs from its
first byte to the one behind it without a look at what encloses it. -/
namespace CssSort.Json
open Ascii

namespace Container

theorem ofByte?_opening (container : Container) : ofByte? container.opening = some container := by
  cases container <;> rfl

theorem eq_opening_of_ofByte? {byte : UInt8} {container : Container}
    (opens : ofByte? byte = some container) : byte = container.opening := by
  unfold ofByte? at opens
  split at opens
  · rename_i bracket
    rw [bracket, ← Option.some.inj opens]
    rfl
  · split at opens
    · rename_i brace
      rw [brace, ← Option.some.inj opens]
      rfl
    · cases opens

theorem isBlank_opening (container : Container) : isBlank container.opening = false := by
  cases container <;> rfl

theorem isBlank_close (container : Container) : isBlank container.close = false := by
  cases container <;> rfl

theorem comma_ne_close (container : Container) : comma ≠ container.close := by
  cases container <;> decide

end Container

section Labels

variable {container : Container} {bytes rest : Bytes}

/-- The white space on both sides of a key belongs to the label. -/
theorem label_of_skipKey {before gap : Bytes} (read : skipKey container bytes = .ok (gap ++ rest))
    (leading : IsGap before) (following : IsGap gap) :
    ∃ label, IsLabel container label ∧ before ++ bytes = label ++ rest := by
  cases container with
  | array =>
    obtain rfl := Except.ok.inj read
    exact ⟨before ++ gap, .array (leading.append following), by simp⟩
  | object =>
    simp only [skipKey] at read
    split at read
    · cases read
    · rename_i quote
      obtain ⟨more, spaced, rfl⟩ := (skipMark_eq_ok_iff rfl).mp quote
      split at read
      · cases read
      · rename_i name
        obtain ⟨key, valid, rfl⟩ := skipString_eq_ok_iff.mp name
        obtain ⟨between, spaced', rfl⟩ := (skipMark_eq_ok_iff rfl).mp read
        exact ⟨_, .object (leading.append spaced) valid spaced' following, by simp⟩

theorem skipKey_label {label : Bytes} (valid : IsLabel container label)
    (same : skipBlanks bytes = skipBlanks (label ++ rest)) :
    ∃ inner, skipKey container bytes = .ok inner ∧ skipBlanks inner = skipBlanks rest := by
  cases valid with
  | array all => exact ⟨bytes, rfl, same.trans (skipBlanks_gap all rest)⟩
  | @object before key between behind leading valid spaced following =>
    have quote : skipMark doubleQuote bytes =
        .ok (key ++ doubleQuote :: (between ++ colon :: (behind ++ rest))) := by
      rw [skipMark, same, ← skipMark, skipMark_eq_ok_iff rfl]
      exact ⟨before, leading, by simp⟩
    have mark : skipMark colon (between ++ colon :: (behind ++ rest)) = .ok (behind ++ rest) :=
      (skipMark_eq_ok_iff rfl).mpr ⟨between, spaced, rfl⟩
    refine ⟨behind ++ rest, ?_, skipBlanks_gap following rest⟩
    simp only [skipKey, quote, skipString_body valid, mark]

end Labels

section Soundness

/-- What closes the containers in a list, innermost first. -/
inductive Closes : List Container → Bytes → Prop where
  | nil : Closes [] []
  | cons {container : Container} {outer : List Container} {tail more : Bytes} :
      Derives (.tail container) tail → Closes outer more →
      Closes (container :: outer) (tail ++ container.close :: more)

/-- What a run has read once it is over. -/
def Completes : Phase → List Container → Bytes → Prop
  | .value, enclosing, text => ∃ gap value more, IsGap gap ∧ Derives .value value ∧
      Closes enclosing more ∧ text = gap ++ (value ++ more)
  | .behind, enclosing, text => Closes enclosing text

/-- A value in a container and what closes the container are members and their end. -/
theorem members_of_completes {container : Container} {enclosing : List Container}
    {before bytes inner text rest : Bytes} (key : skipKey container bytes = .ok inner)
    (leading : IsGap before) (completes : Completes .value (container :: enclosing) text)
    (split : inner = text ++ rest) :
    ∃ members more, Derives (.members container) members ∧ Closes enclosing more ∧
      before ++ bytes = members ++ container.close :: (more ++ rest) := by
  obtain ⟨gap, value, _, following, valid, closes, rfl⟩ := completes
  cases closes with
  | @cons _ _ tail more valid' closes =>
    rw [split, List.append_assoc] at key
    obtain ⟨label, labelled, whole⟩ := label_of_skipKey key leading following
    refine ⟨label ++ (value ++ tail), more, .member labelled valid valid', closes, ?_⟩
    rw [whole]
    simp

/-- A container that opens goes on the list, so the run behind it comes back with the members
and the end of that container as well as of all others. -/
theorem completes_of_skipWithin {phase : Phase} {enclosing : List Container} {bytes rest : Bytes}
    (read : skipWithin phase enclosing bytes = .ok rest) :
    ∃ text, Completes phase enclosing text ∧ bytes = text ++ rest := by
  fun_induction skipWithin phase enclosing bytes with
  | case1 => cases read
  | case2 => cases read
  | case3 enclosing bytes first behind ahead _ scalar scan ih =>
    obtain ⟨gap, all, rfl⟩ := gap_of_skipBlanks ahead
    obtain ⟨value, valid, whole⟩ := scalar_of_skipScalar scan
    obtain ⟨more, closes, rfl⟩ := ih read
    exact ⟨_, ⟨gap, value, more, all, .scalar valid, closes, rfl⟩, by rw [whole]; simp⟩
  | case4 => cases read
  | case5 enclosing bytes first behind ahead container opens closed closing ih =>
    obtain ⟨gap, all, rfl⟩ := gap_of_skipBlanks ahead
    obtain ⟨inside, all', rfl⟩ := gap_of_skipBlanks closing
    obtain ⟨more, closes, rfl⟩ := ih read
    rw [Container.eq_opening_of_ofByte? opens]
    exact ⟨_, ⟨gap, _, more, all, .empty container all', closes, rfl⟩, by simp⟩
  | case6 => cases read
  | case7 enclosing bytes first behind ahead container opens next element inner _ value key ih =>
    obtain ⟨gap, all, rfl⟩ := gap_of_skipBlanks ahead
    obtain ⟨inside, all', rfl⟩ := gap_of_skipBlanks inner
    obtain ⟨text, completes, split⟩ := ih read
    obtain ⟨members, more, valid, closes, whole⟩ := members_of_completes key all' completes split
    rw [Container.eq_opening_of_ofByte? opens, whole]
    exact ⟨_, ⟨gap, _, more, all, .filled valid, closes, rfl⟩, by simp⟩
  | case8 =>
    obtain rfl := Except.ok.inj read
    exact ⟨[], Closes.nil, rfl⟩
  | case9 => cases read
  | case10 bytes container outer behind ahead ih =>
    obtain ⟨gap, all, rfl⟩ := gap_of_skipBlanks ahead
    obtain ⟨more, closes, rfl⟩ := ih read
    exact ⟨_, Closes.cons (.last container all) closes, by simp⟩
  | case11 => cases read
  | case12 bytes container outer behind value key ahead _ ih =>
    obtain ⟨gap, all, rfl⟩ := gap_of_skipBlanks ahead
    obtain ⟨text, completes, split⟩ := ih read
    obtain ⟨members, more, valid, closes, rfl⟩ := members_of_completes key isGap_nil completes split
    exact ⟨_, Closes.cons (.more all valid) closes, by simp⟩
  | case13 => cases read

theorem value_of_skipValue {bytes rest : Bytes} (read : skipValue bytes = .ok rest) :
    ∃ gap value, IsGap gap ∧ Derives .value value ∧ bytes = gap ++ (value ++ rest) := by
  obtain ⟨_, ⟨gap, value, more, all, valid, closes, rfl⟩, rfl⟩ := completes_of_skipWithin read
  cases closes
  exact ⟨gap, value, all, valid, by simp⟩

end Soundness

section Steps

variable {container : Container} {enclosing : List Container} {bytes behind inner rest : Bytes}

theorem skipWithin_scalar {first : UInt8} (ahead : skipBlanks bytes = first :: behind)
    (noContainer : Container.ofByte? first = none) (read : skipScalar first behind = .ok rest) :
    skipWithin .value enclosing bytes = skipWithin .behind enclosing rest := by
  conv_lhs => unfold skipWithin
  grind

theorem skipWithin_empty (ahead : skipBlanks bytes = container.opening :: behind)
    (closing : skipBlanks behind = container.close :: rest) :
    skipWithin .value enclosing bytes = skipWithin .behind enclosing rest := by
  have opens := container.ofByte?_opening
  conv_lhs => unfold skipWithin
  grind

theorem skipWithin_open {next : UInt8} {element : Bytes}
    (ahead : skipBlanks bytes = container.opening :: behind)
    (inside : skipBlanks behind = next :: element) (other : next ≠ container.close)
    (key : skipKey container (next :: element) = .ok inner) :
    skipWithin .value enclosing bytes = skipWithin .value (container :: enclosing) inner := by
  have opens := container.ofByte?_opening
  conv_lhs => unfold skipWithin
  grind

theorem skipWithin_close (ahead : skipBlanks bytes = container.close :: rest) :
    skipWithin .behind (container :: enclosing) bytes = skipWithin .behind enclosing rest := by
  conv_lhs => unfold skipWithin
  grind

theorem skipWithin_comma (ahead : skipBlanks bytes = comma :: behind)
    (key : skipKey container behind = .ok inner) :
    skipWithin .behind (container :: enclosing) bytes =
      skipWithin .value (container :: enclosing) inner := by
  have other := container.comma_ne_close
  conv_lhs => unfold skipWithin
  grind

end Steps

section Boundaries

variable {container : Container} {rest : Bytes}

theorem endsNumber_nil : EndsNumber [] := by
  simp [EndsNumber]

/-- White space, a comma or a closing byte ends a number. -/
theorem endsNumber_gap {gap : Bytes} (all : IsGap gap) (stop : EndsNumber rest) :
    EndsNumber (gap ++ rest) := by
  cases gap with
  | nil => exact stop
  | cons first more =>
    have blank := all first List.mem_cons_self
    intro byte head
    obtain rfl := Option.some.inj head
    simp only [isBlank, Bool.or_eq_true, beq_iff_eq] at blank
    rcases blank with ((rfl | rfl) | rfl) | rfl <;> decide

theorem endsNumber_comma : EndsNumber (comma :: rest) := by
  intro byte head
  obtain rfl := Option.some.inj head
  decide

theorem endsNumber_close (container : Container) : EndsNumber (container.close :: rest) := by
  intro byte head
  obtain rfl := Option.some.inj head
  cases container <;> decide

theorem endsNumber_tail {tail : Bytes} (valid : Derives (.tail container) tail) :
    EndsNumber (tail ++ container.close :: rest) := by
  cases valid with
  | last _ all => exact endsNumber_gap all (endsNumber_close container)
  | more all =>
    rw [List.append_assoc]
    exact endsNumber_gap all endsNumber_comma

/-- The first byte of a scalar is its own: no other value, white space or end starts with it. -/
theorem start_of_skipScalar {first : UInt8} {bytes : Bytes}
    (read : skipScalar first bytes = .ok rest) :
    isBlank first = false ∧ Container.ofByte? first = none ∧ first ≠ closeBracket := by
  refine ⟨?_, ?_, ?_⟩
  · by_contra blank
    simp only [isBlank, Bool.not_eq_false, Bool.or_eq_true, beq_iff_eq] at blank
    rcases blank with ((rfl | rfl) | rfl) | rfl <;> cases read
  · by_contra opens
    obtain ⟨container, opens⟩ := Option.ne_none_iff_exists'.mp opens
    rw [Container.eq_opening_of_ofByte? opens] at read
    cases container <;> cases read
  · rintro rfl
    cases read

theorem head_value {value : Bytes} (valid : Derives .value value) :
    ∃ first more, value = first :: more ∧ isBlank first = false ∧ first ≠ closeBracket := by
  cases valid with
  | scalar valid =>
    obtain ⟨first, more, rfl, read⟩ := skipScalar_text valid endsNumber_nil
    obtain ⟨noBlank, -, noClose⟩ := start_of_skipScalar read
    exact ⟨first, more, rfl, noBlank, noClose⟩
  | empty container =>
    exact ⟨_, _, rfl, container.isBlank_opening, by cases container <;> decide⟩
  | @filled container =>
    exact ⟨_, _, rfl, container.isBlank_opening, by cases container <;> decide⟩

theorem skipBlanks_value {value : Bytes} (valid : Derives .value value) (rest : Bytes) :
    skipBlanks (value ++ rest) = value ++ rest := by
  obtain ⟨first, more, rfl, noBlank, -⟩ := head_value valid
  exact skipBlanks_cons noBlank (more ++ rest)

/-- Members are told from the end of an empty container by their first byte. -/
theorem head_members {members : Bytes} (valid : Derives (.members container) members)
    (rest : Bytes) :
    ∃ next element, skipBlanks (members ++ rest) = next :: element ∧ next ≠ container.close := by
  cases valid with
  | @member _ label value tail labelled valid =>
    rw [List.append_assoc]
    cases labelled with
    | array all =>
      obtain ⟨first, more, rfl, noBlank, noClose⟩ := head_value valid
      rw [skipBlanks_gap all]
      exact ⟨first, _, skipBlanks_cons noBlank _, noClose⟩
    | object leading =>
      rw [List.append_assoc, skipBlanks_gap leading]
      exact ⟨doubleQuote, _, skipBlanks_cons rfl _, by decide⟩

end Boundaries

section Completeness

/-- A text runs from its first byte to the one behind it, whatever encloses it. -/
def Runs : Symbol → Bytes → Prop
  | .value, value => ∀ (enclosing : List Container) (bytes rest : Bytes),
      skipBlanks bytes = value ++ rest → EndsNumber rest →
      skipWithin .value enclosing bytes = skipWithin .behind enclosing rest
  | .members container, members => ∀ (enclosing : List Container) (bytes rest : Bytes),
      skipBlanks bytes = skipBlanks (members ++ container.close :: rest) →
      ∃ inner, skipKey container bytes = .ok inner ∧
        skipWithin .value (container :: enclosing) inner = skipWithin .behind enclosing rest
  | .tail container, tail => ∀ (enclosing : List Container) (rest : Bytes),
      skipWithin .behind (container :: enclosing) (tail ++ container.close :: rest) =
        skipWithin .behind enclosing rest

theorem runs_scalar {text : Bytes} (valid : IsScalar text) : Runs .value text := by
  intro enclosing bytes rest ahead stop
  obtain ⟨first, more, rfl, read⟩ := skipScalar_text valid stop
  exact skipWithin_scalar ahead (start_of_skipScalar read).2.1 read

theorem runs_empty (container : Container) {gap : Bytes} (all : IsGap gap) :
    Runs .value (container.opening :: (gap ++ [container.close])) := by
  intro enclosing bytes rest ahead _
  rw [List.cons_append, List.append_assoc] at ahead
  refine skipWithin_empty ahead ?_
  rw [skipBlanks_gap all]
  exact skipBlanks_cons container.isBlank_close rest

theorem runs_filled {container : Container} {members : Bytes}
    (valid : Derives (.members container) members) (runs : Runs (.members container) members) :
    Runs .value (container.opening :: (members ++ [container.close])) := by
  intro enclosing bytes rest ahead _
  rw [List.cons_append, List.append_assoc] at ahead
  obtain ⟨next, element, inside, other⟩ := head_members valid (container.close :: rest)
  have same : skipBlanks (next :: element) = skipBlanks (members ++ container.close :: rest) := by
    rw [← inside, skipBlanks_skipBlanks]
  obtain ⟨inner, key, run⟩ := runs enclosing (next :: element) rest same
  rw [← run]
  exact skipWithin_open ahead inside other key

theorem runs_member {container : Container} {label value tail : Bytes}
    (labelled : IsLabel container label) (valid : Derives .value value)
    (valid' : Derives (.tail container) tail) (runs : Runs .value value)
    (runs' : Runs (.tail container) tail) :
    Runs (.members container) (label ++ (value ++ tail)) := by
  intro enclosing bytes rest same
  rw [List.append_assoc, List.append_assoc] at same
  obtain ⟨inner, key, ahead⟩ := skipKey_label labelled same
  rw [skipBlanks_value valid] at ahead
  refine ⟨inner, key, ?_⟩
  calc skipWithin .value (container :: enclosing) inner
      = skipWithin .behind (container :: enclosing) (tail ++ container.close :: rest) :=
        runs (container :: enclosing) inner _ ahead (endsNumber_tail valid')
    _ = skipWithin .behind enclosing rest := runs' enclosing rest

theorem runs_last (container : Container) {gap : Bytes} (all : IsGap gap) :
    Runs (.tail container) gap := by
  intro enclosing rest
  apply skipWithin_close
  rw [skipBlanks_gap all, skipBlanks_cons container.isBlank_close]

theorem runs_more {container : Container} {gap members : Bytes} (all : IsGap gap)
    (runs : Runs (.members container) members) :
    Runs (.tail container) (gap ++ comma :: members) := by
  intro enclosing rest
  obtain ⟨inner, key, run⟩ := runs enclosing (members ++ container.close :: rest) rest rfl
  rw [← run]
  refine skipWithin_comma ?_ key
  rw [List.append_assoc, skipBlanks_gap all]
  exact skipBlanks_cons rfl _

theorem runs_of_derives {symbol : Symbol} {text : Bytes} (valid : Derives symbol text) :
    Runs symbol text := by
  induction valid with
  | scalar valid => exact runs_scalar valid
  | empty container all => exact runs_empty container all
  | filled valid runs => exact runs_filled valid runs
  | member labelled valid valid' runs runs' => exact runs_member labelled valid valid' runs runs'
  | last container all => exact runs_last container all
  | more all _ runs => exact runs_more all runs

theorem skipValue_value {gap value rest : Bytes} (all : IsGap gap) (valid : Derives .value value)
    (stop : EndsNumber rest) : skipValue (gap ++ (value ++ rest)) = .ok rest := by
  have ahead : skipBlanks (gap ++ (value ++ rest)) = value ++ rest := by
    rw [skipBlanks_gap all, skipBlanks_value valid]
  calc skipValue (gap ++ (value ++ rest))
      = skipWithin .behind [] rest := runs_of_derives valid [] _ rest ahead stop
    _ = .ok rest := by
        unfold skipWithin
        rfl

end Completeness

end CssSort.Json
