import StackIr.Proofs.Rendering.Values

/-! # Reading documents in block style

    The text of a document in block style is read as its tokens.  The induction is over the
    document: an array or object that opens a block reads its items or members one after the
    other, and each of them leads to the next. -/

namespace StackIr.Json

open Yaml Yaml.Scanner

/-! ## Keys -/

section

variable {s : Scanner} {kinds opened : List TokenKind} {stack rest : List Int} {level : Nat}
  {text : List Char}

/-- A key leads to its value. -/
theorem run_keyText {key : String} {opens : Bool}
    (h : Next s (keyText level key opens ++ text) kinds stack (2 * level))
    (hlegible : legibleText key = true) (hstart : TokenStart text)
    (hopens : Opens (2 * level) .blockMappingStart stack 0 opened ((2 * level : Nat) :: rest)) :
    ∃ s' column, Runs s s' ∧
      AtValue s' text
        (kinds ++ (opened ++ [.key, .scalar key (textStyle key (isSimpleKey key)), .value]))
        (2 * level) rest column ∧
      (opens = true → column = 2 * (level + 1) ∧ s'.settle.keyAllowed = true) := by
  have hstyle := hasStyle_textStyle key (isSimpleKey key)
  cases hsimple : isSimpleKey key
  · rw [hsimple] at hstyle
    have h' : Next s ('?' :: ' ' :: (scalarLine (2 * (level + 1)) (textStyle key false) key.toList ++
        (indentation level ++ ':' :: ' ' :: text))) kinds stack (2 * level) := by
      simpa [keyText, hsimple] using h
    obtain ⟨s', hruns, hvalue, hallowed⟩ := run_complexKey h' hlegible hstyle hstart hopens
    exact ⟨s', _, hruns, hvalue, fun _ => ⟨rfl, hallowed⟩⟩
  · rw [hsimple] at hstyle
    have hsize : key.utf8ByteSize ≤ 128 := by
      simp only [isSimpleKey, Bool.and_eq_true, decide_eq_true_eq] at hsimple
      exact hsimple.2
    refine run_simpleKey ?_ (show 0 < 2 * (level + 1) by omega) hstyle hsize hstart hopens
    simpa [keyText, hsimple] using h

theorem tokenStart_keyText (level : Nat) (key : String) (opens : Bool) (text : List Char) :
    TokenStart (keyText level key opens ++ text) := by
  have hstyle := hasStyle_textStyle key (isSimpleKey key)
  unfold keyText
  split
  · rename_i hsimple
    rw [hsimple] at hstyle
    rw [List.append_assoc]
    exact hstyle.tokenStart
  · exact tokenStart_cons (by decide) (by decide) (by decide)

end

/-! ## Values -/

theorem tokenStart_blockText (level : Nat) {j : Json} (hfinite : j.unsupported? = none)
    (text : List Char) : TokenStart (blockText level j ++ text) := by
  have hscalar : depth j = 0 → TokenStart (blockText level j ++ text) := by
    intro hdepth
    rcases isWord_blockText level hdepth hfinite with ⟨w, htext, hw, _⟩ | ⟨str, rfl⟩
    · rw [htext, List.append_assoc]
      exact hw.tokenStart
    · rw [blockText, scalarLine, List.append_assoc]
      exact (hasStyle_textStyle str false).tokenStart
  cases j with
  | array items =>
    cases items with
    | nil => exact tokenStart_cons (by decide) (by decide) (by decide)
    | cons item items => exact tokenStart_cons (by decide) (by decide) (by decide)
  | object members =>
    rcases members with _ | ⟨⟨key, value⟩, members⟩
    · exact tokenStart_cons (by decide) (by decide) (by decide)
    · rw [blockText, List.append_assoc]
      exact tokenStart_keyText _ _ _ _
  | _ => exact hscalar rfl

/-- What follows an item: the next one, or what comes after the last. -/
def itemsTail (level : Nat) (tail : Tail) : List Json → Tail
  | [] => tail
  | item :: items =>
    { column := 2 * level
      text := '-' :: ' ' :: (blockText (level + 1) item ++ (itemsTail level tail items).whole)
      start := tokenStart_cons (by decide) (by decide) (by decide) }

/-- What follows a member. -/
def membersTail (level : Nat) (tail : Tail) : List (String × Json) → Tail
  | [] => tail
  | (key, value) :: members =>
    { column := 2 * level
      text := keyText level key (opensBlock value) ++
        (blockText (level + 1) value ++ (membersTail level tail members).whole)
      start := tokenStart_keyText _ _ _ _ }

theorem itemsText_whole (level : Nat) (tail : Tail) (items : List Json) :
    itemsText level items ++ tail.whole = (itemsTail level tail items).whole := by
  induction items with
  | nil => rfl
  | cons item items ih =>
    show _ = List.replicate (2 * level) ' ' ++
      '-' :: ' ' :: (blockText (level + 1) item ++ (itemsTail level tail items).whole)
    rw [← ih, itemsText]
    simp [indentation]

theorem membersText_whole (level : Nat) (tail : Tail) (members : List (String × Json)) :
    membersText level members ++ tail.whole = (membersTail level tail members).whole := by
  induction members with
  | nil => rfl
  | cons member members ih =>
    obtain ⟨key, value⟩ := member
    show _ = List.replicate (2 * level) ' ' ++ (keyText level key (opensBlock value) ++
      (blockText (level + 1) value ++ (membersTail level tail members).whole))
    rw [← ih, membersText]
    simp [indentation]

theorem column_itemsTail {level : Nat} {tail : Tail} (htail : tail.column ≤ 2 * level)
    (items : List Json) : (itemsTail level tail items).column ≤ 2 * level := by
  cases items with
  | nil => exact htail
  | cons item items => exact Nat.le_refl _

theorem column_membersTail {level : Nat} {tail : Tail} (htail : tail.column ≤ 2 * level)
    (members : List (String × Json)) : (membersTail level tail members).column ≤ 2 * level := by
  cases members with
  | nil => exact htail
  | cons member members => exact Nat.le_refl _

theorem depth_pos_of_opensBlock {j : Json} (h : opensBlock j = true) : 0 < depth j := by
  cases j with
  | array items => exact Nat.succ_pos _
  | object members => exact Nat.succ_pos _
  | _ => cases h

/-- A document that opens a block is read up to the end of that block, which is closed by what
    follows. -/
def ReadsBlock (j : Json) : Prop :=
  opensBlock j = true → legible j = true → j.unsupported? = none →
    ∀ (level : Nat) (s : Scanner) (kinds : List TokenKind) (i : Int) (outer : List Int) (tail : Tail),
      Next s (blockText level j ++ tail.whole) kinds (i :: outer) (2 * level) →
      i < (2 * level : Nat) → outer.length + depth j ≤ depthLimit → tail.column ≤ 2 * level →
      ∃ body, blockKinds j = body ++ [.blockEnd] ∧
        Leads s tail (kinds ++ body) ((2 * level : Nat) :: i :: outer)

section

variable {s : Scanner} {kinds : List TokenKind} {outer : List Int} {level column : Nat} {tail : Tail}

/-- A value leads to what follows it. -/
theorem ReadsBlock.run_value {j : Json} (hblock : ReadsBlock j) (hlegible : legible j = true)
    (hfinite : j.unsupported? = none)
    (h : AtValue s (blockText (level + 1) j ++ tail.whole) kinds (2 * level) outer column)
    (hopens : opensBlock j = true → column = 2 * (level + 1) ∧ s.settle.keyAllowed = true)
    (hdepth : outer.length + depth j ≤ depthLimit) (htail : tail.column ≤ 2 * level) :
    Leads s tail (kinds ++ blockKinds j) ((2 * level : Nat) :: outer) := by
  have hscalar : depth j = 0 → Leads s tail (kinds ++ blockKinds j) ((2 * level : Nat) :: outer) := by
    intro hzero
    rcases isWord_blockText (level + 1) hzero hfinite with ⟨w, htext, hw, hkinds⟩ | ⟨str, rfl⟩
    · obtain ⟨c, rest, heq, _⟩ := hw.start
      rw [htext, List.append_assoc] at h
      rw [hkinds]
      exact run_plain h htail (by simp [heq]) hw.plainAllowed
    · exact run_text h htail hlegible (hasStyle_textStyle str false)
  have hopened : opensBlock j = true →
      Leads s tail (kinds ++ blockKinds j) ((2 * level : Nat) :: outer) := by
    intro hj
    obtain ⟨rfl, hallowed⟩ := hopens hj
    obtain ⟨body, hbody, s', hruns, hnext⟩ := hblock hj hlegible hfinite (level + 1) s kinds _ outer
      tail (h.next hallowed) (by omega) (by omega) (by omega)
    -- the block of the value ends before what follows it.
    have hpops : pops tail.column (((2 * (level + 1) : Nat) : Int) :: ((2 * level : Nat) : Int) :: outer) =
        pops tail.column (((2 * level : Nat) : Int) :: outer) + 1 := by
      rw [pops, if_pos (by omega)]
    rw [hpops, List.replicate_succ, List.drop_succ_cons] at hnext
    rw [hbody]
    refine ⟨s', hruns, ?_⟩
    simpa using hnext
  cases j with
  | array items =>
    cases items with
    | nil => exact run_empty .sequence .sequence h
    | cons item items => exact hopened rfl
  | object members =>
    rcases members with _ | ⟨member, members⟩
    · exact run_empty .mapping .mapping h
    · exact hopened rfl
  | _ => exact hscalar rfl

end

/-! ## Blocks -/

mutual

/-- The induction is on the document.  A block ends only where the next token stands, so each
    part of the statement goes up to that token and no further. -/
theorem readsBlock (j : Json) : ReadsBlock j := by
  intro hopens hlegible hfinite level s kinds i outer tail h hi hdepth htail
  have hlimit : outer.length < depthLimit := by
    have hpos : 0 < depth j := depth_pos_of_opensBlock hopens
    omega
  cases j with
  | array items =>
    cases items with
    | nil => cases hopens
    | cons item items =>
      simp only [legible, legibleItems, Bool.and_eq_true] at hlegible
      simp only [unsupported?, unsupportedItem?, Option.or_eq_none_iff] at hfinite
      simp only [depth, itemsDepth] at hdepth
      rw [blockText, List.cons_append, List.cons_append, List.append_assoc, itemsText_whole] at h
      obtain ⟨s₁, hruns, hvalue, hallowed⟩ := run_dash h (tokenStart_blockText _ hfinite.1 _)
        (.new hi hlimit)
      have hitem := (readsBlock item).run_value hlegible.1 hfinite.1 hvalue (fun _ => ⟨rfl, hallowed⟩)
        (by simp only [List.length_cons]; omega) (column_itemsTail htail items)
      have hitems := reads_items items hlegible.2 hfinite.2 level s₁ _ _ tail hitem
        (by simp only [List.length_cons]; omega) htail
      refine ⟨.blockSequenceStart :: blockItems (item :: items), blockKinds_array item items,
        .of_runs hruns ?_⟩
      simpa [blockItems] using hitems
  | object members =>
    rcases members with _ | ⟨⟨key, value⟩, members⟩
    · cases hopens
    · simp only [legible, legibleMembers, legibleKey, Bool.and_eq_true] at hlegible
      simp only [unsupported?, unsupportedMember?, Option.or_eq_none_iff] at hfinite
      simp only [depth, membersDepth] at hdepth
      rw [blockText, List.append_assoc, List.append_assoc, membersText_whole] at h
      obtain ⟨s₁, column, hruns, hvalue, hallowed⟩ := run_keyText h hlegible.1.1.1
        (tokenStart_blockText _ hfinite.1 _) (.new hi hlimit)
      have hentry := (readsBlock value).run_value hlegible.1.2 hfinite.1 hvalue hallowed
        (by simp only [List.length_cons]; omega) (column_membersTail htail members)
      have hmembers := reads_members members hlegible.2 hfinite.2 level s₁ _ _ tail hentry
        (by simp only [List.length_cons]; omega) htail
      refine ⟨.blockMappingStart :: blockMembers ((key, value) :: members),
        blockKinds_object key value members, .of_runs hruns ?_⟩
      simpa [blockMembers] using hmembers
  | _ => cases hopens

theorem reads_items (items : List Json) (hlegible : legibleItems items = true)
    (hfinite : unsupportedItem? items = none) (level : Nat) (s : Scanner) (kinds : List TokenKind)
    (outer : List Int) (tail : Tail)
    (h : Leads s (itemsTail level tail items) kinds ((2 * level : Nat) :: outer))
    (hdepth : outer.length + itemsDepth items ≤ depthLimit) (htail : tail.column ≤ 2 * level) :
    Leads s tail (kinds ++ blockItems items) ((2 * level : Nat) :: outer) := by
  cases items with
  | nil =>
    rw [blockItems, List.append_nil]
    exact h
  | cons item items =>
    simp only [legibleItems, Bool.and_eq_true] at hlegible
    simp only [unsupportedItem?, Option.or_eq_none_iff] at hfinite
    simp only [itemsDepth] at hdepth
    obtain ⟨s₁, hruns₁, hnext⟩ := h.next (Int.le_refl _)
    obtain ⟨s₂, hruns₂, hvalue, hallowed⟩ := run_dash hnext (tokenStart_blockText _ hfinite.1 _)
      (.same (Int.le_refl _))
    have hitem := (readsBlock item).run_value hlegible.1 hfinite.1 hvalue (fun _ => ⟨rfl, hallowed⟩)
      (by omega) (column_itemsTail htail items)
    have hitems := reads_items items hlegible.2 hfinite.2 level s₂ _ _ tail hitem (by omega) htail
    refine .of_runs (hruns₁.trans hruns₂) ?_
    simpa [blockItems] using hitems

theorem reads_members (members : List (String × Json)) (hlegible : legibleMembers members = true)
    (hfinite : unsupportedMember? members = none) (level : Nat) (s : Scanner) (kinds : List TokenKind)
    (outer : List Int) (tail : Tail)
    (h : Leads s (membersTail level tail members) kinds ((2 * level : Nat) :: outer))
    (hdepth : outer.length + membersDepth members ≤ depthLimit) (htail : tail.column ≤ 2 * level) :
    Leads s tail (kinds ++ blockMembers members) ((2 * level : Nat) :: outer) := by
  rcases members with _ | ⟨⟨key, value⟩, members⟩
  · rw [blockMembers, List.append_nil]
    exact h
  · simp only [legibleMembers, legibleKey, Bool.and_eq_true] at hlegible
    simp only [unsupportedMember?, Option.or_eq_none_iff] at hfinite
    simp only [membersDepth] at hdepth
    obtain ⟨s₁, hruns₁, hnext⟩ := h.next (Int.le_refl _)
    obtain ⟨s₂, column, hruns₂, hvalue, hallowed⟩ := run_keyText hnext hlegible.1.1.1
      (tokenStart_blockText _ hfinite.1 _) (.same (Int.le_refl _))
    have hentry := (readsBlock value).run_value hlegible.1.2 hfinite.1 hvalue hallowed (by omega)
      (column_membersTail htail members)
    have hmembers := reads_members members hlegible.2 hfinite.2 level s₂ _ _ tail hentry (by omega)
      htail
    refine .of_runs (hruns₁.trans hruns₂) ?_
    simpa [blockMembers] using hmembers

end

/-- Reading a document in block style gives its tokens. -/
theorem scan_blockText {j : Json} {input : Input} (hopens : opensBlock j = true)
    (hlegible : legible j = true) (hfinite : j.unsupported? = none) (hdepth : depth j ≤ depthLimit)
    (hfault : input.fault = none) (hcharacters : input.characters = blockText 0 j)
    (hmark : input.characters.head? ≠ some '\ufeff') :
    ∃ tokens, scan input = ⟨tokens, none⟩ ∧ (∀ t ∈ tokens, t.comments = []) ∧
      tokens.map Token.kind = blockKinds j ++ [.streamEnd] := by
  have hcalm := calm_atStart hfault hmark
  rw [hcharacters] at hcalm
  have hstart : TokenStart (blockText 0 j) := by
    have := tokenStart_blockText 0 hfinite []
    rwa [List.append_nil] at this
  have hself := hcalm.settle_eq_self hstart (.inr rfl)
  have hnext : Next (atStart input) (blockText 0 j ++ Tail.whole ⟨0, [], tokenStart_nil⟩) [] [-1] 0 := by
    rw [show Tail.whole ⟨0, [], tokenStart_nil⟩ = [] from rfl, List.append_nil]
    refine ⟨hcalm.before_self hstart (.inr rfl), free_atStart input, ?_, ?_, ?_⟩
    · rw [hself]
      rfl
    · rw [hself]
      rfl
    · rw [hself]
      intro k hk
      cases hk
  obtain ⟨body, hbody, hleads⟩ := readsBlock j hopens hlegible hfinite 0 _ _ _ _ _ hnext (by decide)
    (by simpa using hdepth) (Nat.le_refl _)
  obtain ⟨s, hruns, hnext'⟩ := hleads.next (Int.le_refl _)
  obtain ⟨tokens, hscan, hbare, hkinds⟩ := hruns.scan_eq hnext'.before hnext'.free
  refine ⟨tokens, hscan, hbare, ?_⟩
  rw [hkinds, hbody]
  simp [pops]

end StackIr.Json
