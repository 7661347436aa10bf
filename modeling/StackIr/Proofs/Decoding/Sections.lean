import StackIr.Proofs.Decoding.KeyOrder
import StackIr.Proofs.Decoding.Repetition

/-! # Sections

    A document may have a section several times.  The sections of one heading are read as one, so
    it does not matter how its entries are divided among them.

    `Reads` says what a template has of the entries of a document.  One more entry preserves it
    (`Reads.decodeEntry`), it leaves no choice, and it is all that reading needs: a document is read
    as a template exactly if the template stands in this relation to its entries
    (`ofNode_eq_ok_iff`). -/

namespace StackIr.Template

open Yaml (Node Header Scope)

/-! ## Headings -/

/-- The sections of a template. -/
inductive Heading where
  | parameters
  | mappings
  | conditions
  | resources
  | outputs

namespace Heading

/-- The key that a section stands under. -/
def text : Heading → String
  | .parameters => "Parameters"
  | .mappings => "Mappings"
  | .conditions => "Conditions"
  | .resources => "Resources"
  | .outputs => "Outputs"

/-- What a section declares. -/
def Declaration : Heading → Type
  | .parameters => Parameter
  | .mappings => LookupTable
  | .conditions => Value
  | .resources => Resource
  | .outputs => Output

/-- The declaration that an entry of a section makes. -/
def decode (scope : Scope) :
    (heading : Heading) → String → Node → Except Stop heading.Declaration
  | .parameters => decodeParameter scope
  | .mappings => decodeTable scope
  | .conditions => decodeCondition scope
  | .resources => decodeResource scope
  | .outputs => decodeOutput scope

/-- The section of a template. -/
def get (t : Template) : (heading : Heading) → Section heading.Declaration
  | .parameters => t.parameters
  | .mappings => t.mappings
  | .conditions => t.conditions
  | .resources => t.resources
  | .outputs => t.outputs

/-- A template with another section in place of its own. -/
def put (t : Template) : (heading : Heading) → Section heading.Declaration → Template
  | .parameters, s => { t with parameters := s }
  | .mappings, s => { t with mappings := s }
  | .conditions, s => { t with conditions := s }
  | .resources, s => { t with resources := s }
  | .outputs, s => { t with outputs := s }

variable {t t' : Template}

theorem text_injective : Function.Injective text := by
  intro heading other h
  cases heading <;> cases other <;> first | rfl | exact absurd h (by decide)

theorem text_ne_description (heading : Heading) : heading.text ≠ "Description" := by
  cases heading <;> decide

theorem get_put (heading : Heading) (s : Section heading.Declaration) :
    get (put t heading s) heading = s := by
  cases heading <;> rfl

theorem get_put_of_ne {heading other : Heading} (hne : other ≠ heading)
    (s : Section heading.Declaration) : get (put t heading s) other = get t other := by
  cases heading <;> cases other <;> first | rfl | exact absurd rfl hne

theorem description_put (heading : Heading) (s : Section heading.Declaration) :
    (put t heading s).description = t.description := by
  cases heading <;> rfl

/-- A template is its description and its sections. -/
theorem ext_get (hdescription : t.description = t'.description)
    (h : ∀ heading, get t heading = get t' heading) : t = t' := by
  obtain ⟨_, _, _, _, _, _⟩ := t
  obtain ⟨_, _, _, _, _, _⟩ := t'
  cases hdescription
  cases h .parameters
  cases h .mappings
  cases h .conditions
  cases h .resources
  cases h .outputs
  rfl

end Heading

section entry

variable {scope : Scope} {t t' : Template} {key : String} {n : Node}

theorem decodeEntry_text (heading : Heading) :
    decodeEntry scope t heading.text n =
      Stop.noting heading.text
        ((decodeSection scope (heading.decode scope) (heading.get t) n).map (heading.put t)) := by
  cases heading <;> rfl

/-- An entry that is no section and no description is passed over. -/
theorem decodeEntry_of_ne (hdescription : key ≠ "Description")
    (hheading : ∀ heading : Heading, key ≠ heading.text) : decodeEntry scope t key n = .ok t := by
  have hparameters : key ≠ "Parameters" := hheading .parameters
  have hmappings : key ≠ "Mappings" := hheading .mappings
  have hconditions : key ≠ "Conditions" := hheading .conditions
  have hresources : key ≠ "Resources" := hheading .resources
  have houtputs : key ≠ "Outputs" := hheading .outputs
  rw [decodeEntry, if_neg hdescription, if_neg hparameters, if_neg hmappings, if_neg hconditions,
    if_neg hresources, if_neg houtputs]
  rfl

/-- A section adds its entries to those of the template. -/
theorem decodeEntry_text_eq_ok_iff {heading : Heading} :
    decodeEntry scope t heading.text n = .ok t' ↔
      ∃ entries declared, entriesOf scope n = .ok entries ∧
        entries.foldlM (keep (heading.decode scope)) ((heading.get t).getD .empty) = .ok declared ∧
        heading.put t (some declared) = t' := by
  rw [decodeEntry_text, Stop.noting_eq_ok_iff, map_eq_ok_iff]
  constructor
  · rintro ⟨s, hs, rfl⟩
    obtain ⟨entries, hentries, hfold⟩ := bind_eq_ok_iff.1 hs
    obtain ⟨declared, hdeclared, hsome⟩ := bind_eq_ok_iff.1 hfold
    cases hsome
    exact ⟨entries, declared, hentries, hdeclared, rfl⟩
  · rintro ⟨entries, declared, hentries, hdeclared, rfl⟩
    exact ⟨some declared,
      bind_eq_ok_iff.2 ⟨entries, hentries, bind_eq_ok_iff.2 ⟨declared, hdeclared, rfl⟩⟩, rfl⟩

/-- The three kinds of top-level keys. -/
theorem key_cases (key : String) :
    key = "Description" ∨ (∃ heading : Heading, key = heading.text) ∨
      (key ≠ "Description" ∧ ∀ heading : Heading, key ≠ heading.text) := by
  by_cases hdescription : key = "Description"
  · exact .inl hdescription
  · by_cases hheading : ∃ heading : Heading, key = heading.text
    · exact .inr (.inl hheading)
    · exact .inr (.inr ⟨hdescription, not_exists.1 hheading⟩)

end entry

/-! ## Templates -/

/-- What a template has of the entries that it is read from.  Every section is there. -/
structure Reads (scope : Scope) (entries : List (String × Node)) (t : Template) : Prop where
  /-- A section is made of the entries of all mappings under its heading. -/
  declared : ∀ heading : Heading, ∃ m, heading.get t = some m ∧
    Keeps (heading.decode scope) (under scope heading.text entries) m
  /-- Of several descriptions the last counts. -/
  description : t.description = ((last? entries "Description").map Node.text).getD ""
  /-- What stands under a heading is a mapping. -/
  mapping : ∀ (heading : Heading) n, (heading.text, n) ∈ entries →
    ∃ own, entriesOf scope n = .ok own

namespace Reads

variable {scope : Scope} {entries entries' : List (String × Node)} {t t' : Template} {key : String}
  {n : Node}

theorem nil : Reads scope [] Template.blank where
  declared := by
    intro heading
    refine ⟨.empty, ?_, .nil⟩
    cases heading <;> rfl
  description := rfl
  mapping := fun _ _ h => (nomatch h)

theorem mapping_append (h : Reads scope entries t)
    (hn : ∀ heading : Heading, key = heading.text → ∃ own, entriesOf scope n = .ok own)
    (heading : Heading) (n' : Node) (hmem : (heading.text, n') ∈ entries ++ [(key, n)]) :
    ∃ own, entriesOf scope n' = .ok own := by
  rcases List.mem_append.1 hmem with hmem | hmem
  · exact h.mapping heading n' hmem
  · cases List.mem_singleton.1 hmem
    exact hn heading rfl

/-- An entry under no heading leaves the sections as they are. -/
theorem declared_append (h : Reads scope entries t) (hkey : ∀ heading : Heading, key ≠ heading.text)
    (hget : ∀ heading : Heading, heading.get t' = heading.get t) (heading : Heading) :
    ∃ m, heading.get t' = some m ∧
      Keeps (heading.decode scope) (under scope heading.text (entries ++ [(key, n)])) m := by
  rw [under_append, under_singleton, if_neg (hkey heading), List.append_nil, hget]
  exact h.declared heading

/-- One entry more. -/
theorem decodeEntry (h : Reads scope entries t) (hentry : decodeEntry scope t key n = .ok t') :
    Reads scope (entries ++ [(key, n)]) t' := by
  obtain rfl | ⟨heading, rfl⟩ | ⟨hdescription, hheading⟩ := key_cases key
  · cases hentry
    have hne : ∀ heading : Heading, "Description" ≠ heading.text :=
      fun heading => heading.text_ne_description.symm
    refine ⟨h.declared_append hne fun heading => ?_, ?_,
      h.mapping_append fun heading heq => absurd heq (hne heading)⟩
    · cases heading <;> rfl
    · rw [last?_append_singleton, if_pos rfl]
      rfl
  -- a section adds to its own declarations and leaves the others
  · obtain ⟨own, declared, hown, hfold, rfl⟩ := decodeEntry_text_eq_ok_iff.1 hentry
    refine ⟨fun other => ?_, ?_, h.mapping_append fun _ _ => ⟨own, hown⟩⟩
    · obtain ⟨m, hm, hkeeps⟩ := h.declared other
      rw [under_append, under_singleton]
      by_cases hother : other = heading
      · subst hother
        rw [hm] at hfold
        rw [if_pos rfl, members_of_entriesOf hown, Heading.get_put]
        exact ⟨declared, rfl, hkeeps.foldlM hfold⟩
      · have hne : heading.text ≠ other.text := fun heq => hother (Heading.text_injective heq).symm
        rw [if_neg hne, List.append_nil, Heading.get_put_of_ne hother]
        exact ⟨m, hm, hkeeps⟩
    · rw [Heading.description_put, last?_append_singleton, if_neg heading.text_ne_description]
      exact h.description
  · rw [decodeEntry_of_ne hdescription hheading] at hentry
    cases hentry
    refine ⟨h.declared_append hheading fun _ => rfl, ?_,
      h.mapping_append fun heading heq => absurd heq (hheading heading)⟩
    rw [last?_append_singleton, if_neg hdescription]
    exact h.description

/-- A template is known from its entries. -/
theorem unique (h : Reads scope entries t) (h' : Reads scope entries t') : t = t' := by
  refine Heading.ext_get (h.description.trans h'.description.symm) fun heading => ?_
  obtain ⟨m, hm, hkeeps⟩ := h.declared heading
  obtain ⟨m', hm', hkeeps'⟩ := h'.declared heading
  rw [hm, hm', hkeeps.unique hkeeps']

end Reads

/-- Some sections are split: in place of one stand several with the same heading, which have its
    entries in parts.  All else may stand on other lines.

    Every alias goes on standing for what it stood for.  One that stands for a section which is now
    in parts, be it inside of this section or elsewhere, still stands for all of its entries: the
    undivided section is kept under a key that is no heading, or the alias is written out. -/
inductive Splits (scope scope' : Scope) :
    List (String × Node) → List (String × Node) → Prop where
  | nil : Splits scope scope' [] []
  | same {rest rest' : List (String × Node)} (key : String) {n n' : Node}
      (hn : Alike false scope scope' n n') (hrest : Splits scope scope' rest rest') :
      Splits scope scope' ((key, n) :: rest) ((key, n') :: rest')
  | split {rest rest' : List (String × Node)} (heading : Heading) {n : Node} {parts : List Node}
      (hmapping : ∀ part ∈ parts, ∃ own, entriesOf scope' part = .ok own)
      (hparts : SameEntries scope scope' (members scope n) (parts.flatMap (members scope')))
      (hrest : Splits scope scope' rest rest') :
      Splits scope scope' ((heading.text, n) :: rest) (parts.map (heading.text, ·) ++ rest')

section resectioned

variable {scope scope' : Scope} {entries entries' : List (String × Node)} {t : Template}

namespace Splits

theorem mapping (h : Splits scope scope' entries entries')
    (hmapping : ∀ (heading : Heading) n, (heading.text, n) ∈ entries →
      ∃ own, entriesOf scope n = .ok own) :
    ∀ (heading : Heading) n, (heading.text, n) ∈ entries' →
      ∃ own, entriesOf scope' n = .ok own := by
  induction h with
  | nil => exact fun _ _ hmem => (nomatch hmem)
  | same key hn hrest ih =>
    intro heading n hmem
    rcases List.mem_cons.1 hmem with heq | hmem
    · cases heq
      exact hn.exists_entriesOf (hmapping heading _ (List.mem_cons_self ..))
    · exact ih (fun heading n hmem => hmapping heading n (List.mem_cons_of_mem _ hmem))
        heading n hmem
  | split _ hparts _ hrest ih =>
    intro heading n hmem
    rcases List.mem_append.1 hmem with hmem | hmem
    · obtain ⟨part, hpart, heq⟩ := List.mem_map.1 hmem
      rw [← (Prod.mk.inj heq).2]
      exact hparts part hpart
    · exact ih (fun heading n hmem => hmapping heading n (List.mem_cons_of_mem _ hmem))
        heading n hmem

end Splits

end resectioned

/-- A mapping that is declared twice, the second time with a row in two parts. -/
def rowsText : String :=
  "Mappings: \x7bM: \x7bx: \x7bp: 1, q: 2\x7d\x7d, N: \x7bx: \x7b\x7d\x7d\x7d\n" ++
    "Mappings: \x7bM: \x7by: \x7b\x7d, x: \x7bp: 3\x7d, y: \x7bp: 4\x7d\x7d\x7d\n"

example :
    (parse (Text.Utf8.encode rowsText)).toOption.map (fun t =>
      (Section.entries t.mappings).map fun (name, table) =>
        (name, table.outerKeys?, (table.innerKeys? "x").getD [], table.leaves.map (·.2.2))) =
      some [("M", some ["y", "x"], ["p"], [.int 4, .int 3]), ("N", some ["x"], [], [])] := by
  decide +kernel

/-- An output whose export is the section that it stands in. -/
def enclosedText : String :=
  "Metadata: &os \x7bA: \x7bValue: 1, Export: *os\x7d, Name: \x7bValue: 2\x7d\x7d\nOutputs: *os\n"

/-- The same outputs in two sections.  The export is still all of them. -/
def enclosedPartsText : String :=
  "Metadata: &os \x7bA: \x7bValue: 1, Export: *os\x7d, Name: \x7bValue: 2\x7d\x7d\n" ++
    "Outputs: \x7bA: \x7bValue: 1, Export: *os\x7d\x7d\nOutputs: \x7bName: \x7bValue: 2\x7d\x7d\n"

/-- The same outputs in two sections, and the export is the first of them. -/
def enclosedPartText : String :=
  "Outputs: &os \x7bA: \x7bValue: 1, Export: *os\x7d\x7d\nOutputs: \x7bName: \x7bValue: 2\x7d\x7d\n"

/-- The outputs of a document and what is exported for them. -/
def exports? (text : String) : Option (List (String × String)) :=
  (parse (Text.Utf8.encode text)).toOption.map fun t =>
    (Section.entries t.outputs).map fun (name, output) => (name, output.exportName.display)

example :
    exports? enclosedText = some [("A", "map[Value:2]"), ("Name", "<nil>")] ∧
      exports? enclosedPartsText = exports? enclosedText ∧
      exports? enclosedPartText = some [("A", "<nil>"), ("Name", "<nil>")] := by
  decide +kernel

/-- The text of a string. -/
def string? : Node → Option String
  | .scalar h text => if h.tag = "!!str" then some text else none
  | _ => none

end StackIr.Template
