import CssSort.Proofs.Json.Values
import CssSort.Settings.Json
import Mathlib.Data.List.ReduceOption

/-! The texts that settings can be read from. Such a text gives truth values for the one key
that counts, and it is accepted where there is at most one of them. What else an object
holds has to be JSON, but says nothing. -/
namespace CssSort.Settings
open Ascii Json

/-- The word for a truth value. -/
def truthWord : Bool → Bytes
  | true => Bytes.ofString "true"
  | false => Bytes.ofString "false"

/-- A key that is read as `name`, with its colon and white space on all sides. -/
inductive IsKey (name : Bytes) : Bytes → Prop where
  | spelled {before key between behind : Bytes} : IsGap before → Decodes key name →
      IsGap between → IsGap behind →
      IsKey name (before ++ doubleQuote :: (key ++ doubleQuote :: (between ++ colon :: behind)))

/-- A member of the object, and the truth value it gives. -/
inductive IsMember : Option Bool → Bytes → Prop where
  | flag {label : Bytes} (value : Bool) : IsKey ascendingKey label →
      IsMember (some value) (label ++ truthWord value)
  | other {name label value : Bytes} : name ≠ ascendingKey → IsKey name label →
      Derives .value value → IsMember none (label ++ value)

/-- Members with commas between them, and what each of them gives. -/
inductive IsMembers : List (Option Bool) → Bytes → Prop where
  | last {said : Option Bool} {member gap : Bytes} : IsMember said member → IsGap gap →
      IsMembers [said] (member ++ gap)
  | more {said : Option Bool} {others : List (Option Bool)} {member gap rest : Bytes} :
      IsMember said member → IsGap gap → IsMembers others rest →
      IsMembers (said :: others) (member ++ (gap ++ comma :: rest))

/-- All between the braces of an object. -/
inductive IsContent : List (Option Bool) → Bytes → Prop where
  | empty {gap : Bytes} : IsGap gap → IsContent [] gap
  | members {said : List (Option Bool)} {members : Bytes} : IsMembers said members →
      IsContent said members

/-- All between the brackets of an array. -/
inductive IsElement : List Bool → Bytes → Prop where
  | empty {gap : Bytes} : IsGap gap → IsElement [] gap
  | flag {before behind : Bytes} (value : Bool) : IsGap before → IsGap behind →
      IsElement [value] (before ++ (truthWord value ++ behind))

/-- A whole text and the truth values it gives, in their order. -/
inductive Gives : List Bool → Bytes → Prop where
  | array {said : List Bool} {before content behind : Bytes} : IsGap before →
      IsElement said content → IsGap behind →
      Gives said (before ++ openBracket :: (content ++ closeBracket :: behind))
  | object {said : List (Option Bool)} {before content behind : Bytes} : IsGap before →
      IsContent said content → IsGap behind →
      Gives said.reduceOption (before ++ openBrace :: (content ++ closeBrace :: behind))

/-- What truth values come to: none is fine, and a second one is not. -/
def outcome : List Bool → Except Fault (Option Bool)
  | [] => .ok none
  | [value] => .ok (some value)
  | _ :: _ :: _ => .error .mismatched

theorem outcome_eq_ok_iff {said : List Bool} {found : Option Bool} :
    outcome said = .ok found ↔ said = found.toList := by
  constructor
  · intro fine
    match said with
    | [] =>
      obtain rfl := Except.ok.inj fine
      rfl
    | [value] =>
      obtain rfl := Except.ok.inj fine
      rfl
  · rintro rfl
    cases found <;> rfl

theorem outcome_perm {said said' : List Bool} (same : said.Perm said') :
    outcome said = outcome said' := by
  match said with
  | [] => rw [same.nil_eq]
  | [value] => rw [List.singleton_perm.mp same]
  | _ :: _ :: _ =>
    match said', same.length_eq with
    | _ :: _ :: _, _ => rfl

/-- More truth values do not mend what is wrong. -/
theorem outcome_append_error {said : List Bool} {fault : Fault}
    (wrong : outcome said = .error fault) (more : List Bool) :
    outcome (said ++ more) = .error fault := by
  match said with
  | [] => cases wrong
  | [_] => cases wrong
  | _ :: _ :: _ => exact wrong

section Members

variable {found : Option Bool} {bytes rest : Bytes}

theorem readBool_eq_ok_iff {value : Bool} : readBool bytes = .ok (value, rest) ↔
    ∃ gap, IsGap gap ∧ bytes = gap ++ (truthWord value ++ rest) := by
  constructor
  · intro read
    unfold readBool at read
    split at read
    · cases read
    · rename_i first behind ahead
      obtain ⟨gap, all, rfl⟩ := gap_of_skipBlanks ahead
      split at read
      · rename_i yes
        obtain ⟨tail, word, same⟩ := exists_of_map_eq_ok read
        obtain ⟨rfl, rfl⟩ := Prod.mk.inj same
        obtain rfl := skipWord_eq_ok_iff.mp word
        exact ⟨gap, all, by rw [yes]; rfl⟩
      · split at read
        · rename_i no
          obtain ⟨tail, word, same⟩ := exists_of_map_eq_ok read
          obtain ⟨rfl, rfl⟩ := Prod.mk.inj same
          obtain rfl := skipWord_eq_ok_iff.mp word
          exact ⟨gap, all, by rw [no]; rfl⟩
        · cases read
  · rintro ⟨gap, all, rfl⟩
    unfold readBool
    rw [skipBlanks_gap all]
    cases value <;> rfl

theorem member_of_readMember {value : Option Bool}
    (read : readMember found bytes = .ok (value, rest)) :
    ∃ said member, IsMember said member ∧ bytes = member ++ rest := by
  unfold readMember at read
  split at read
  · cases read
  · rename_i quote
    obtain ⟨before, leading, rfl⟩ := (skipMark_eq_ok_iff rfl).mp quote
    split at read
    · cases read
    · rename_i name _ text
      obtain ⟨key, decodes, rfl⟩ := readString_eq_ok_iff.mp text
      split at read
      · cases read
      · split at read
        · cases read
        · rename_i mark
          obtain ⟨between, spaced, rfl⟩ := (skipMark_eq_ok_iff rfl).mp mark
          split at read
          · rename_i counts
            obtain ⟨⟨truth, tail⟩, bool, same⟩ := exists_of_map_eq_ok read
            obtain ⟨-, rfl⟩ := Prod.mk.inj same
            obtain ⟨behind, following, rfl⟩ := readBool_eq_ok_iff.mp bool
            rw [counts] at decodes
            exact ⟨_, _, .flag truth (.spelled leading decodes spaced following), by simp⟩
          · rename_i other
            obtain ⟨tail, skipped, same⟩ := exists_of_map_eq_ok read
            obtain ⟨-, rfl⟩ := Prod.mk.inj same
            obtain ⟨behind, value, following, valid, rfl⟩ := value_of_skipValue skipped
            exact ⟨_, _, .other other (.spelled leading decodes spaced following) valid, by simp⟩

/-- What is read of a member once its key is known. -/
theorem readMember_key {name label : Bytes} (valid : IsKey name label) (found : Option Bool)
    (rest : Bytes) : ∃ gap, IsGap gap ∧
    readMember found (label ++ rest) =
      if name = ascendingKey ∧ found.isSome then .error .mismatched
      else if name = ascendingKey then
        (readBool (gap ++ rest)).map fun (value, rest) => (some value, rest)
      else (skipValue (gap ++ rest)).map (found, ·) := by
  cases valid with
  | @spelled before key between behind leading decodes spaced following =>
    have quote : skipMark doubleQuote
        (before ++ doubleQuote :: (key ++ doubleQuote :: (between ++ colon :: (behind ++ rest)))) =
        .ok (key ++ doubleQuote :: (between ++ colon :: (behind ++ rest))) :=
      (skipMark_eq_ok_iff rfl).mpr ⟨before, leading, rfl⟩
    have text : readString (key ++ doubleQuote :: (between ++ colon :: (behind ++ rest))) =
        .ok (name, between ++ colon :: (behind ++ rest)) :=
      readString_eq_ok_iff.mpr ⟨key, decodes, rfl⟩
    have mark : skipMark colon (between ++ colon :: (behind ++ rest)) = .ok (behind ++ rest) :=
      (skipMark_eq_ok_iff rfl).mpr ⟨between, spaced, rfl⟩
    refine ⟨behind, following, ?_⟩
    simp only [List.append_assoc, List.cons_append, readMember, quote, text, mark]

theorem readMember_member {said : Option Bool} {member : Bytes} (valid : IsMember said member)
    (found : Option Bool) (stop : EndsNumber rest) :
    readMember found (member ++ rest) = (outcome (found.toList ++ said.toList)).map (·, rest) := by
  cases valid with
  | flag value labelled =>
    obtain ⟨gap, all, read⟩ := readMember_key labelled found (truthWord value ++ rest)
    have bool : readBool (gap ++ (truthWord value ++ rest)) = .ok (value, rest) :=
      readBool_eq_ok_iff.mpr ⟨gap, all, rfl⟩
    rw [List.append_assoc, read, bool]
    cases found <;> rfl
  | @other name label value noFlag labelled valid =>
    obtain ⟨gap, all, read⟩ := readMember_key labelled found (value ++ rest)
    rw [List.append_assoc, read, skipValue_value all valid stop]
    simp only [noFlag, false_and, if_false]
    cases found <;> rfl

theorem members_of_readMembers {value : Option Bool}
    (read : readMembers found bytes = .ok (value, rest)) :
    ∃ said members, IsMembers said members ∧ bytes = members ++ closeBrace :: rest := by
  fun_induction readMembers found bytes with
  | case1 => cases read
  | case2 => cases read
  | case3 found bytes found' behind member more ahead =>
    obtain ⟨-, rfl⟩ := Prod.mk.inj (Except.ok.inj read)
    obtain ⟨said, text, valid, rfl⟩ := member_of_readMember member
    obtain ⟨gap, all, rfl⟩ := gap_of_skipBlanks ahead
    exact ⟨_, _, .last valid all, by simp⟩
  | case4 found bytes found' behind member more ahead _ ih =>
    obtain ⟨said, text, valid, rfl⟩ := member_of_readMember member
    obtain ⟨gap, all, rfl⟩ := gap_of_skipBlanks ahead
    obtain ⟨others, members, valid', rfl⟩ := ih read
    exact ⟨_, _, .more valid all valid', by simp⟩
  | case5 => cases read

theorem readMembers_close {value : Option Bool} {behind : Bytes}
    (member : readMember found bytes = .ok (value, behind))
    (ahead : skipBlanks behind = closeBrace :: rest) :
    readMembers found bytes = .ok (value, rest) := by
  unfold readMembers
  grind

theorem readMembers_comma {value : Option Bool} {behind : Bytes}
    (member : readMember found bytes = .ok (value, behind))
    (ahead : skipBlanks behind = comma :: rest) :
    readMembers found bytes = readMembers value rest := by
  conv_lhs => unfold readMembers
  grind

theorem readMembers_error {fault : Fault} (member : readMember found bytes = .error fault) :
    readMembers found bytes = .error fault := by
  unfold readMembers
  grind

theorem reduceOption_cons (said : Option Bool) (others : List (Option Bool)) :
    (said :: others).reduceOption = said.toList ++ others.reduceOption := by
  cases said with
  | none => exact List.reduceOption_cons_of_none others
  | some value => exact List.reduceOption_cons_of_some value others

/-- What was found before a member counts as one more value in front of the rest. -/
theorem readMembers_members {said : List (Option Bool)} {members : Bytes}
    (valid : IsMembers said members) (found : Option Bool) (rest : Bytes) :
    readMembers found (members ++ closeBrace :: rest) =
      (outcome (found.toList ++ said.reduceOption)).map (·, rest) := by
  induction valid generalizing found with
  | @last said member gap valid all =>
    have stop : EndsNumber (gap ++ closeBrace :: rest) :=
      endsNumber_gap all (endsNumber_close .object)
    have ahead : skipBlanks (gap ++ closeBrace :: rest) = closeBrace :: rest := by
      rw [skipBlanks_gap all, skipBlanks_cons rfl]
    have read := readMember_member valid found stop
    rw [List.append_assoc, reduceOption_cons, List.reduceOption_nil, List.append_nil]
    cases told : outcome (found.toList ++ said.toList) with
    | error fault =>
      rw [told] at read
      exact readMembers_error read
    | ok value =>
      rw [told] at read
      exact readMembers_close read ahead
  | @more said others member gap members valid all _ ih =>
    have stop : EndsNumber (gap ++ comma :: (members ++ closeBrace :: rest)) :=
      endsNumber_gap all endsNumber_comma
    have ahead : skipBlanks (gap ++ comma :: (members ++ closeBrace :: rest)) =
        comma :: (members ++ closeBrace :: rest) := by
      rw [skipBlanks_gap all, skipBlanks_cons rfl]
    have read := readMember_member valid found stop
    have gathered : found.toList ++ (said :: others).reduceOption =
        found.toList ++ said.toList ++ others.reduceOption := by
      rw [reduceOption_cons, List.append_assoc]
    rw [gathered, List.append_assoc, List.append_assoc, List.cons_append]
    cases told : outcome (found.toList ++ said.toList) with
    | error fault =>
      rw [told] at read
      rw [outcome_append_error told]
      exact readMembers_error read
    | ok value =>
      rw [told] at read
      rw [outcome_eq_ok_iff.mp told, readMembers_comma read ahead]
      exact ih value

end Members

section Objects

variable {found : Option Bool} {bytes rest : Bytes}

theorem readMember_skipBlanks (found : Option Bool) (bytes : Bytes) :
    readMember found (skipBlanks bytes) = readMember found bytes := by
  simp only [readMember, skipMark, skipBlanks_skipBlanks]

theorem readMembers_skipBlanks (found : Option Bool) (bytes : Bytes) :
    readMembers found (skipBlanks bytes) = readMembers found bytes := by
  have same := readMember_skipBlanks found bytes
  conv_lhs => unfold readMembers
  conv_rhs => unfold readMembers
  grind

theorem readObject_eq_readMembers {next : UInt8} {behind : Bytes}
    (ahead : skipBlanks bytes = next :: behind) (other : next ≠ closeBrace) :
    readObject bytes = readMembers none bytes := by
  simp only [readObject, ahead, if_neg other]
  rw [← ahead, readMembers_skipBlanks]

theorem content_of_readObject (read : readObject bytes = .ok (found, rest)) :
    ∃ said content, IsContent said content ∧ bytes = content ++ closeBrace :: rest := by
  cases ahead : skipBlanks bytes with
  | nil =>
    rw [readObject, ahead] at read
    cases read
  | cons next behind =>
    by_cases closing : next = closeBrace
    · simp only [readObject, ahead, if_pos closing] at read
      obtain ⟨-, rfl⟩ := Prod.mk.inj (Except.ok.inj read)
      obtain ⟨gap, all, rfl⟩ := gap_of_skipBlanks ahead
      exact ⟨[], gap, .empty all, by rw [closing]⟩
    · rw [readObject_eq_readMembers ahead closing] at read
      obtain ⟨said, members, valid, whole⟩ := members_of_readMembers read
      exact ⟨said, members, .members valid, whole⟩

theorem head_member {said : Option Bool} {member : Bytes} (valid : IsMember said member)
    (rest : Bytes) : ∃ element, skipBlanks (member ++ rest) = doubleQuote :: element := by
  obtain ⟨name, label, value, labelled, rfl⟩ : ∃ name label value,
      IsKey name label ∧ member = label ++ value := by
    cases valid with
    | flag value labelled => exact ⟨_, _, _, labelled, rfl⟩
    | other _ labelled _ => exact ⟨_, _, _, labelled, rfl⟩
  cases labelled with
  | spelled leading =>
    rw [List.append_assoc, List.append_assoc, skipBlanks_gap leading]
    exact ⟨_, skipBlanks_cons rfl _⟩

theorem readObject_content {said : List (Option Bool)} {content : Bytes}
    (valid : IsContent said content) (rest : Bytes) :
    readObject (content ++ closeBrace :: rest) = (outcome said.reduceOption).map (·, rest) := by
  cases valid with
  | empty all =>
    simp only [readObject, skipBlanks_gap all]
    rfl
  | members valid =>
    obtain ⟨element, ahead⟩ : ∃ element,
        skipBlanks (content ++ closeBrace :: rest) = doubleQuote :: element := by
      cases valid with
      | last valid =>
        rw [List.append_assoc]
        exact head_member valid _
      | more valid =>
        rw [List.append_assoc]
        exact head_member valid _
    rw [readObject_eq_readMembers ahead (by decide)]
    exact readMembers_members valid none rest

end Objects

section Arrays

variable {bytes rest : Bytes}

theorem element_of_readArray {found : Option Bool} (read : readArray bytes = .ok (found, rest)) :
    ∃ said content, IsElement said content ∧ bytes = content ++ closeBracket :: rest := by
  unfold readArray at read
  split at read
  · cases read
  · rename_i next behind ahead
    obtain ⟨gap, all, rfl⟩ := gap_of_skipBlanks ahead
    split at read
    · rename_i closing
      obtain ⟨-, rfl⟩ := Prod.mk.inj (Except.ok.inj read)
      exact ⟨[], gap, .empty all, by rw [closing]⟩
    · split at read
      · cases read
      · rename_i value more bool
        obtain ⟨inside, all', whole⟩ := readBool_eq_ok_iff.mp bool
        obtain ⟨tail, mark, same⟩ := exists_of_map_eq_ok read
        obtain ⟨-, rfl⟩ := Prod.mk.inj same
        obtain ⟨behind, following, rfl⟩ := (skipMark_eq_ok_iff rfl).mp mark
        rw [whole]
        exact ⟨[value], _, .flag value (all.append all') following, by simp⟩

theorem readArray_element {said : List Bool} {content : Bytes} (valid : IsElement said content)
    (rest : Bytes) :
    readArray (content ++ closeBracket :: rest) = (outcome said).map (·, rest) := by
  cases valid with
  | empty all =>
    simp only [readArray, skipBlanks_gap all]
    rfl
  | @flag before behind value leading following =>
    obtain ⟨first, more, spelled, noBlank, other⟩ : ∃ first more,
        truthWord value = first :: more ∧ Json.isBlank first = false ∧ first ≠ closeBracket := by
      cases value <;> exact ⟨_, _, rfl, by decide, by decide⟩
    have ahead : skipBlanks (before ++ (truthWord value ++ behind) ++ closeBracket :: rest) =
        first :: (more ++ (behind ++ closeBracket :: rest)) := by
      rw [List.append_assoc, List.append_assoc, skipBlanks_gap leading, spelled]
      exact skipBlanks_cons noBlank _
    have bool : readBool (first :: (more ++ (behind ++ closeBracket :: rest))) =
        .ok (value, behind ++ closeBracket :: rest) :=
      readBool_eq_ok_iff.mpr ⟨[], isGap_nil, by rw [spelled]; rfl⟩
    have mark : skipMark closeBracket (behind ++ closeBracket :: rest) = .ok rest :=
      (skipMark_eq_ok_iff rfl).mpr ⟨behind, following, rfl⟩
    simp only [readArray, ahead, if_neg other, bool, mark]
    rfl

end Arrays

section Texts

variable {text rest : Bytes}

theorem gives_of_readJson {found : Option Bool} (read : readJson text = .ok (found, rest))
    (following : IsGap rest) : ∃ said, Gives said text := by
  unfold readJson at read
  split at read
  · cases read
  · rename_i first behind ahead
    obtain ⟨before, leading, rfl⟩ := gap_of_skipBlanks ahead
    split at read
    · rename_i opens
      rw [Container.eq_opening_of_ofByte? opens]
      obtain ⟨said, content, valid, rfl⟩ := element_of_readArray read
      exact ⟨said, .array leading valid following⟩
    · rename_i opens
      rw [Container.eq_opening_of_ofByte? opens]
      obtain ⟨said, content, valid, rfl⟩ := content_of_readObject read
      exact ⟨said.reduceOption, .object leading valid following⟩
    · cases read

theorem readJson_gives {said : List Bool} (given : Gives said text) :
    ∃ behind, IsGap behind ∧ readJson text = (outcome said).map (·, behind) := by
  cases given with
  | @array _ before content behind leading valid following =>
    refine ⟨behind, following, ?_⟩
    have ahead : skipBlanks (openBracket :: (content ++ closeBracket :: behind)) = _ :=
      skipBlanks_cons rfl _
    simp only [readJson, skipBlanks_gap leading, ahead]
    exact readArray_element valid behind
  | @object _ before content behind leading valid following =>
    refine ⟨behind, following, ?_⟩
    have ahead : skipBlanks (openBrace :: (content ++ closeBrace :: behind)) = _ :=
      skipBlanks_cons rfl _
    simp only [readJson, skipBlanks_gap leading, ahead]
    exact readObject_content valid behind

/-- The settings that a truth value stands for, where it is given. -/
def ofFound (found : Option Bool) : Settings :=
  { direction := Direction.ofAscending (found.getD true) }

theorem ofJson_gives {said : List Bool} (given : Gives said text) :
    ofJson text = (outcome said).map ofFound := by
  obtain ⟨behind, following, read⟩ := readJson_gives given
  unfold ofJson
  rw [read]
  cases outcome said with
  | error fault => rfl
  | ok found =>
    have ended : skipBlanks behind = [] := skipBlanks_eq_nil_iff.mpr following
    simp only [Except.map, ended]
    rfl

theorem gives_of_ofJson {settings : Settings} (read : ofJson text = .ok settings) :
    ∃ said, Gives said text := by
  unfold ofJson at read
  split at read
  · cases read
  · rename_i found
    split at read
    · rename_i ended
      exact gives_of_readJson found (skipBlanks_eq_nil_iff.mp ended)
    · cases read

/-- Reading takes exactly the texts that give at most one truth value, and nothing else in
a text counts. -/
theorem ofJson_accepts_language :
    (∀ text settings, ofJson text = .ok settings ↔ ∃ found : Option Bool,
      Gives found.toList text ∧ settings.direction = Direction.ofAscending (found.getD true)) ∧
    ∀ text text' said said', Gives said text → Gives said' text' → said.Perm said' →
      ofJson text = ofJson text' := by
  constructor
  · intro text settings
    constructor
    · intro read
      obtain ⟨said, given⟩ := gives_of_ofJson read
      rw [ofJson_gives given] at read
      obtain ⟨found, told, rfl⟩ := exists_of_map_eq_ok read
      rw [outcome_eq_ok_iff.mp told] at given
      exact ⟨found, given, rfl⟩
    · rintro ⟨found, given, direction⟩
      have same : settings = ofFound found := by
        cases settings
        exact congrArg Settings.mk direction
      rw [ofJson_gives given, outcome_eq_ok_iff.mpr rfl, same]
      rfl
  · intro text text' said said' given given' same
    rw [ofJson_gives given, ofJson_gives given', outcome_perm same]

/-- An escaped key behind a member with a number that is too large, a surrogate that stands
alone and a key that is empty; and two members that a text must not have. -/
theorem ofJson_accepts_language_escaped :
    let long := Bytes.ofString
      " \x7b\"x\" : [-1.5E+999, \x7b\"\":\"\\uD800\"\x7d ],\n \"\\u0061scending\":false\t\x7d"
    let short := Bytes.ofString "[false]"
    let twice := Bytes.ofString "\x7b\"ascending\":true,\"ascendin\\u0067\":true\x7d"
    Gives [false] long ∧ Gives [false] short ∧ ofJson long = ofJson short ∧
    ofJson short = .ok ⟨.descending⟩ ∧ ∀ found : Option Bool, ¬ Gives found.toList twice := by
  intro long short twice
  have gives (text : Bytes) (read : ofJson text = .ok ⟨.descending⟩) : Gives [false] text := by
    obtain ⟨found, given, direction⟩ := (ofJson_accepts_language.1 text _).mp read
    match found with
    | some false => exact given
    | some true => cases direction
    | none => cases direction
  have first : Gives [false] long := gives long (by decide +kernel)
  have second : Gives [false] short := gives short (by decide +kernel)
  refine ⟨first, second, ofJson_accepts_language.2 _ _ _ _ first second (.refl _), ?_, ?_⟩
  · exact (ofJson_accepts_language.1 short _).mpr ⟨some false, second, rfl⟩
  · intro found given
    have accepted := (ofJson_accepts_language.1 twice ⟨_⟩).mpr ⟨found, given, rfl⟩
    have refused : ofJson twice = .error .mismatched := by decide +kernel
    rw [refused] at accepted
    cases accepted

end Texts

end CssSort.Settings
