import CssSort.Proofs.Block.Stability
import CssSort.Stylesheet.Basic

/-! Where the blocks of a style sheet are. A layout finds every text between an
opening and a closing brace that holds no brace itself, from left to right, and
nothing else. Sorting a block puts no brace into it, so the sorted style sheet is
taken apart at the same places. -/
namespace CssSort
open Ascii

/-- A place in a text. -/
structure Site where
  before : Bytes
  inner : Bytes
  after : Bytes
  deriving DecidableEq, Repr

namespace Site

/-- The text at this place stands between an opening and a closing brace and has
none inside. -/
structure Innermost (text : Bytes) (site : Site) : Prop where
  whole : text = site.before ++ (site.inner ++ site.after)
  opens : site.before.getLast? = some openBrace
  closes : site.after.head? = some closeBrace
  free : ∀ byte ∈ site.inner, isBrace byte = false

/-- The same place when one byte more stands in front. -/
def shift (byte : UInt8) (site : Site) : Site :=
  { site with before := byte :: site.before }

theorem Innermost.before_ne_nil {text : Bytes} {site : Site} (valid : site.Innermost text) :
    site.before ≠ [] := by
  intro nothing
  have opens := valid.opens
  rw [nothing] at opens
  contradiction

theorem innermost_nil {site : Site} : ¬ site.Innermost [] := by
  intro valid
  exact valid.before_ne_nil (List.append_eq_nil_iff.mp valid.whole.symm).1

theorem Innermost.shift {text : Bytes} {site : Site} (valid : site.Innermost text) (byte : UInt8) :
    (site.shift byte).Innermost (byte :: text) where
  whole := congrArg (byte :: ·) valid.whole
  opens := by
    rw [Site.shift, List.getLast?_cons, valid.opens]
    rfl
  closes := valid.closes
  free := valid.free

/-- A place in a longer text is one of the text behind the first byte, or it is
right behind that byte. -/
theorem innermost_cons {byte : UInt8} {text : Bytes} {site : Site}
    (valid : site.Innermost (byte :: text)) :
    (∃ site' : Site, site'.Innermost text ∧ site = site'.shift byte) ∨
      byte = openBrace ∧ site.before = [openBrace] ∧ text = site.inner ++ site.after := by
  obtain ⟨before, inner, after⟩ := site
  obtain ⟨whole, opens, closes, free⟩ := valid
  rcases before with _ | ⟨first, _ | ⟨second, before⟩⟩
  · simp at opens
  · obtain ⟨rfl, same⟩ := List.cons.inj whole
    obtain rfl : byte = openBrace := by simpa using opens
    exact .inr ⟨rfl, rfl, same⟩
  · obtain ⟨rfl, same⟩ := List.cons.inj whole
    refine .inl ⟨⟨second :: before, inner, after⟩, ⟨same, ?_, closes, free⟩, rfl⟩
    rw [← opens, List.getLast?_cons_cons]

end Site

namespace Layout

/-- The places of the blocks behind the text `before`. -/
def sitesFrom (before : Bytes) : List InnerBlock → List Site
  | [] => []
  | block :: blocks =>
    ⟨before, block.text, block.behind ++ blocks.flatMap fun block => block.text ++ block.behind⟩ ::
      sitesFrom (before ++ (block.text ++ block.behind)) blocks

/-- The places of the blocks of a style sheet, from left to right. -/
def sites (layout : Layout) : List Site :=
  sitesFrom layout.lead layout.blocks

theorem sitesFrom_cons (byte : UInt8) (before : Bytes) (blocks : List InnerBlock) :
    sitesFrom (byte :: before) blocks = (sitesFrom before blocks).map (Site.shift byte) := by
  induction blocks generalizing before with
  | nil => rfl
  | cons block blocks ih => rw [sitesFrom, List.cons_append, ih, sitesFrom, List.map_cons, Site.shift]

theorem inner_sitesFrom (before : Bytes) (blocks : List InnerBlock) :
    (sitesFrom before blocks).map (·.inner) = blocks.map (·.text) := by
  induction blocks generalizing before with
  | nil => rfl
  | cons block blocks ih => rw [sitesFrom, List.map_cons, ih, List.map_cons]

/-- There is a brace and the first one closes. -/
def closesFirst (text : Bytes) : Bool :=
  (text.dropWhile (!isBrace ·)).head? == some closeBrace

theorem ofText_cons (byte : UInt8) (text : Bytes) :
    ofText (byte :: text) = (ofText text).push byte := rfl

theorem push_of_other {byte : UInt8} {layout : Layout}
    (other : ¬ (byte = openBrace ∧ closesFirst layout.lead = true)) :
    layout.push byte = ⟨byte :: layout.lead, layout.blocks⟩ := by
  rw [push, if_neg]
  simpa [closesFirst] using other

theorem cut_exact {inner after : Bytes} (free : ∀ byte ∈ inner, isBrace byte = false)
    (closes : after.head? = some closeBrace) :
    (inner ++ after).takeWhile (!isBrace ·) = inner ∧
      (inner ++ after).dropWhile (!isBrace ·) = after := by
  obtain ⟨rest, rfl⟩ := List.head?_eq_some_iff.mp closes
  have inside : ∀ byte ∈ inner, (!isBrace byte) = true := by
    intro byte member
    simp [free byte member]
  have brace : isBrace closeBrace = true := by decide
  constructor
  · simp [List.takeWhile_append_of_pos inside, brace]
  · simp [List.dropWhile_append_of_pos inside, brace]

/-- The first brace cuts a text in one way only. -/
theorem cut_unique {inner after inner' after' : Bytes} (same : inner ++ after = inner' ++ after')
    (free : ∀ byte ∈ inner, isBrace byte = false) (closes : after.head? = some closeBrace)
    (free' : ∀ byte ∈ inner', isBrace byte = false) (closes' : after'.head? = some closeBrace) :
    inner = inner' ∧ after = after' := by
  obtain ⟨front, back⟩ := cut_exact free closes
  obtain ⟨front', back'⟩ := cut_exact free' closes'
  rw [same] at front back
  exact ⟨front.symm.trans front', back.symm.trans back'⟩

theorem closesFirst_iff {text : Bytes} : closesFirst text = true ↔
    ∃ inner after, text = inner ++ after ∧ (∀ byte ∈ inner, isBrace byte = false) ∧
      after.head? = some closeBrace := by
  rw [closesFirst, beq_iff_eq]
  constructor
  · intro closes
    refine ⟨_, _, (List.takeWhile_append_dropWhile).symm, fun byte member => ?_, closes⟩
    simpa using List.mem_takeWhile_imp member
  · rintro ⟨inner, after, rfl, free, closes⟩
    rw [(cut_exact free closes).2, closes]

/-- An opening brace in front of a block that is closed by the lead. -/
theorem push_cut {layout : Layout} {inner after : Bytes} (lead : layout.lead = inner ++ after)
    (free : ∀ byte ∈ inner, isBrace byte = false) (closes : after.head? = some closeBrace) :
    layout.push openBrace = ⟨[openBrace], ⟨inner, after⟩ :: layout.blocks⟩ := by
  obtain ⟨front, back⟩ := cut_exact free closes
  rw [push, lead, front, back, closes]
  rfl

theorem closesFirst_cons (byte : UInt8) (text : Bytes) : closesFirst (byte :: text) =
    if isBrace byte then byte == closeBrace else closesFirst text := by
  rw [closesFirst, List.dropWhile_cons]
  cases brace : isBrace byte with
  | true => simp
  | false => simp [closesFirst]

/-- The lead goes up to the first block, so it has the first brace. -/
theorem closesFirst_lead (text : Bytes) : closesFirst (ofText text).lead = closesFirst text := by
  induction text with
  | nil => rfl
  | cons byte text ih =>
    rw [ofText_cons]
    by_cases block : byte = openBrace ∧ closesFirst (ofText text).lead = true
    · obtain ⟨rfl, closes⟩ := block
      obtain ⟨inner, after, lead, free, closes⟩ := closesFirst_iff.mp closes
      rw [push_cut lead free closes, closesFirst_cons, closesFirst_cons]
      rfl
    · rw [push_of_other block, closesFirst_cons, closesFirst_cons, ih]

theorem sites_of_block {layout : Layout} {inner after : Bytes} (lead : layout.lead = inner ++ after)
    (free : ∀ byte ∈ inner, isBrace byte = false) (closes : after.head? = some closeBrace) :
    (layout.push openBrace).sites =
      ⟨[openBrace], inner, after ++ layout.blocks.flatMap fun block => block.text ++ block.behind⟩ ::
        layout.sites.map (Site.shift openBrace) := by
  rw [push_cut lead free closes, sites, sitesFrom, List.singleton_append, ← lead, sitesFrom_cons]
  rfl

theorem sites_of_other {byte : UInt8} {layout : Layout}
    (other : ¬ (byte = openBrace ∧ closesFirst layout.lead = true)) :
    (layout.push byte).sites = layout.sites.map (Site.shift byte) := by
  rw [push_of_other other]
  exact sitesFrom_cons byte layout.lead layout.blocks

theorem mem_sites_iff (text : Bytes) (site : Site) :
    site ∈ (ofText text).sites ↔ site.Innermost text := by
  induction text generalizing site with
  | nil => exact iff_of_false List.not_mem_nil Site.innermost_nil
  | cons byte text ih =>
    rw [ofText_cons]
    have later : ∀ site ∈ (ofText text).sites.map (Site.shift byte),
        site.Innermost (byte :: text) := by
      intro site member
      obtain ⟨site, known, rfl⟩ := List.mem_map.mp member
      exact ((ih site).mp known).shift byte
    by_cases block : byte = openBrace ∧ closesFirst (ofText text).lead = true
    · obtain ⟨rfl, closes⟩ := block
      obtain ⟨inner, after, lead, free, closes⟩ := closesFirst_iff.mp closes
      have whole : text = inner ++ (after ++ (ofText text).blocks.flatMap fun block =>
          block.text ++ block.behind) := by
        rw [← List.append_assoc, ← lead]
        exact (toText_ofText text).symm
      have closes' : (after ++ (ofText text).blocks.flatMap fun block =>
          block.text ++ block.behind).head? = some closeBrace := by
        rw [List.head?_append, closes, Option.some_or]
      rw [sites_of_block lead free closes, List.mem_cons]
      constructor
      · rintro (rfl | member)
        · exact ⟨congrArg (openBrace :: ·) whole, rfl, closes', free⟩
        · exact later site member
      · intro valid
        rcases Site.innermost_cons valid with ⟨site, known, rfl⟩ | ⟨-, before, same⟩
        · exact .inr (List.mem_map_of_mem ((ih site).mpr known))
        · obtain ⟨before', inner', after'⟩ := site
          obtain rfl : before' = [openBrace] := before
          obtain ⟨rfl, rfl⟩ := cut_unique (same.symm.trans whole) valid.free valid.closes free closes'
          exact .inl rfl
    · rw [sites_of_other block]
      constructor
      · exact later site
      · intro valid
        rcases Site.innermost_cons valid with ⟨site, known, rfl⟩ | ⟨rfl, before, same⟩
        · exact List.mem_map_of_mem ((ih site).mpr known)
        · refine absurd ⟨rfl, ?_⟩ block
          rw [closesFirst_lead]
          exact closesFirst_iff.mpr ⟨_, _, same, valid.free, valid.closes⟩

/-- The places are listed from left to right. -/
theorem pairwise_sites (text : Bytes) :
    (ofText text).sites.Pairwise fun a b => a.before.length < b.before.length := by
  induction text with
  | nil => exact .nil
  | cons byte text ih =>
    have later : ((ofText text).sites.map (Site.shift byte)).Pairwise
        fun a b => a.before.length < b.before.length := by
      rw [List.pairwise_map]
      exact ih.imp fun less => Nat.succ_lt_succ less
    rw [ofText_cons]
    by_cases block : byte = openBrace ∧ closesFirst (ofText text).lead = true
    · obtain ⟨rfl, closes⟩ := block
      obtain ⟨inner, after, lead, free, closes⟩ := closesFirst_iff.mp closes
      rw [sites_of_block lead free closes, List.pairwise_cons]
      constructor
      · intro site member
        obtain ⟨site, known, rfl⟩ := List.mem_map.mp member
        have opened := List.length_pos_iff.mpr ((mem_sites_iff text site).mp known).before_ne_nil
        simp only [Site.shift, List.length_cons, List.length_nil]
        omega
      · exact later
    · rwa [sites_of_other block]

/-- Bytes that are no braces only make the lead longer. -/
theorem ofText_append {front : Bytes} (free : ∀ byte ∈ front, isBrace byte = false) (text : Bytes) :
    ofText (front ++ text) = ⟨front ++ (ofText text).lead, (ofText text).blocks⟩ := by
  induction front with
  | nil => rfl
  | cons byte front ih =>
    have noBrace := free byte List.mem_cons_self
    rw [List.cons_append, ofText_cons, ih fun byte member => free byte (List.mem_cons_of_mem _ member),
      push_of_other]
    · rfl
    · rintro ⟨rfl, -⟩
      contradiction

theorem mapBlocks_congr {f g : Bytes → Bytes} {layout : Layout}
    (same : ∀ block ∈ layout.blocks, f block.text = g block.text) :
    layout.mapBlocks f = layout.mapBlocks g := by
  have blocks : layout.blocks.map (fun block => { block with text := f block.text }) =
      layout.blocks.map fun block => { block with text := g block.text } := by
    apply List.map_congr_left
    intro block member
    rw [same block member]
  simp only [mapBlocks, blocks]

/-- Blocks that stay free of braces are found again, since what stands behind a block is
taken apart in the same way whatever the block is. -/
theorem ofText_mapBlocks {f : Bytes → Bytes}
    (keeps : ∀ inner : Bytes, (∀ byte ∈ inner, isBrace byte = false) →
      ∀ byte ∈ f inner, isBrace byte = false) (text : Bytes) :
    ofText ((ofText text).mapBlocks f).toText = (ofText text).mapBlocks f := by
  induction text with
  | nil => rfl
  | cons byte text ih =>
    rw [ofText_cons]
    by_cases block : byte = openBrace ∧ closesFirst (ofText text).lead = true
    · obtain ⟨rfl, closes⟩ := block
      obtain ⟨inner, after, lead, free, closes⟩ := closesFirst_iff.mp closes
      generalize mapped : (ofText text).mapBlocks f = layout at ih
      have lead' : layout.lead = inner ++ after := by rw [← mapped, mapBlocks, lead]
      have pushed : ((ofText text).push openBrace).mapBlocks f =
          ⟨[openBrace], ⟨f inner, after⟩ :: layout.blocks⟩ := by
        rw [push_cut lead free closes, ← mapped]
        rfl
      obtain ⟨behind, rest⟩ : ∃ behind, behind = after ++ layout.blocks.flatMap fun block =>
          block.text ++ block.behind := ⟨_, rfl⟩
      have whole : layout.toText = inner ++ behind := by
        rw [toText, lead', rest, List.append_assoc]
      have written : (((ofText text).push openBrace).mapBlocks f).toText =
          openBrace :: (f inner ++ behind) := by
        simp [pushed, toText, rest]
      have found : ofText behind = ⟨after, layout.blocks⟩ := by
        rw [whole, ofText_append free] at ih
        have leads : inner ++ (ofText behind).lead = inner ++ after :=
          (congrArg Layout.lead ih).trans lead'
        rw [← List.append_cancel_left leads, ← ih]
      rw [written, pushed, ofText_cons, ofText_append (keeps inner free), found]
      exact push_cut rfl (keeps inner free) closes
    · have same : closesFirst ((ofText text).mapBlocks f).lead = closesFirst (ofText text).lead := rfl
      rw [← same] at block
      have pushed : ((ofText text).push byte).mapBlocks f = ((ofText text).mapBlocks f).push byte := by
        rw [push_of_other block, push_of_other (same ▸ block)]
        rfl
      rw [pushed, toText_push]
      exact congrArg (push byte) ih

end Layout

theorem Block.arrange_free (direction : Direction) (block : Bytes)
    (free : ∀ byte ∈ block, isBrace byte = false) :
    ∀ byte ∈ arrange direction block, isBrace byte = false := by
  intro byte member
  rcases mem_terminate ((perm_arrange direction block).mem_iff.mp member) with inside | rfl
  · exact free byte inside
  · decide

namespace Stylesheet

theorem ofText_alphabetize (direction : Direction) (text : Bytes) :
    Layout.ofText (alphabetize direction text) =
      (Layout.ofText text).mapBlocks (Block.arrange direction) :=
  Layout.ofText_mapBlocks (Block.arrange_free direction) text

/-- Sorting touches the innermost blocks and nothing else. They are all the texts
between an opening and a closing brace without a brace inside, from left to right,
each is arranged in its place, and the result is taken apart at the same places. -/
theorem alphabetize_innermost_blocks (direction : Direction) (text : Bytes) :
    let layout := Layout.ofText text
    layout.lead ++ layout.blocks.flatMap (fun block => block.text ++ block.behind) = text ∧
    layout.sites.map (·.inner) = layout.blocks.map (·.text) ∧
    (∀ site, site ∈ layout.sites ↔ site.Innermost text) ∧
    layout.sites.Pairwise (fun a b => a.before.length < b.before.length) ∧
    alphabetize direction text = layout.lead ++ layout.blocks.flatMap
      (fun block => Block.arrange direction block.text ++ block.behind) ∧
    Layout.ofText (alphabetize direction text) =
      ⟨layout.lead, layout.blocks.map fun block =>
        ⟨Block.arrange direction block.text, block.behind⟩⟩ := by
  intro layout
  refine ⟨Layout.toText_ofText text, Layout.inner_sitesFrom _ _, Layout.mem_sites_iff text,
    Layout.pairwise_sites text, ?_, ofText_alphabetize direction text⟩
  rw [alphabetize, Layout.toText, Layout.mapBlocks, List.flatMap_map]

end Stylesheet
end CssSort
