import CodeIndex.Proofs.Text.Bytes
import CodeIndex.Proofs.Traversal.Descent

set_option autoImplicit false

namespace CodeIndex.Extraction

def textOf (source : String) (node : Node) : String := .ofList (nodeText source.toList node)

def LiesAtNode (source : String) (node : Node) (text : String) : Prop :=
  Text.LiesAt source node.span.startByte node.span.endByte text

def Readable (source : String) (node : Node) : Prop := ∃ text, LiesAtNode source node text

def ReadAt (source : String) (node : Node) (text : String) : Prop :=
  LiesAtNode source node text ∨ text = "" ∧ ¬ Readable source node

def NameAt (source : String) (node : Node) (field fallback name : String) : Prop :=
  (node.child? field = none ∧ name = fallback) ∨ ∃ child, node.child? field = some child ∧ ReadAt source child name

def Encloses (outer inner : Node) : Prop :=
  outer.span.startByte ≤ inner.span.startByte ∧ inner.span.endByte ≤ outer.span.endByte

def Part (inner outer : String) : Prop := ∃ before after, outer = before ++ inner ++ after

instance (outer inner : Node) : Decidable (Encloses outer inner) := inferInstanceAs (Decidable (_ ∧ _))

instance (source text : String) (node : Node) : Decidable (LiesAtNode source node text) :=
  inferInstanceAs (Decidable (Text.LiesAt _ _ _ _))

structure Within (table : NodeTable) (tree : Node) (source : String) (node : Node) (element : Element) (parent : String)
    (outer : Node) (owner : Element) : Prop where
  kind : isClass table outer
  above : node ∈ preorder outer
  listed : owner ∈ extract (some table) tree source
  ownerText : ReadAt source outer owner.sourceText
  parentName : NameAt source outer table.classNameField unknownClass parent
  ownerName : table.classKind ≠ table.functionKind → owner.kind = .class ∧ owner.name = parent
  part : Encloses outer node → Readable source outer → Part element.sourceText owner.sourceText

structure ByteExact (table : NodeTable) (tree : Node) (source : String) (node : Node) (element : Element) : Prop where
  sourceText : ReadAt source node element.sourceText
  classNamed : element.kind = .class → NameAt source node table.classNameField unknownClass element.name
  functionNamed : element.kind ≠ .class → NameAt source node table.nameField unknownFunction element.name
  parentClass : ∀ parent, element.parentClass = some parent →
    ∃ outer ∈ preorder tree, ∃ owner, Within table tree source node element parent outer owner

theorem text_of_lying (source : String) (node : Node) (text : String) (lies : LiesAtNode source node text) :
    textOf source node = text := by
  rw [textOf, nodeText, (Text.lies_at_iff _ _ _ _).mp lies, Option.getD_some, String.ofList_toList]

theorem text_of_unreadable (source : String) (node : Node) (unreadable : ¬ Readable source node) : textOf source node = "" := by
  cases found : Text.slice? source.toList node.span.startByte node.span.endByte with
  | none =>
      rw [textOf, nodeText, found]
      rfl
  | some text =>
      refine absurd ⟨.ofList text, (Text.lies_at_iff _ _ _ _).mpr ?_⟩ unreadable
      rw [String.toList_ofList, found]

theorem readable_text_lies (source : String) (node : Node) (readable : Readable source node) :
    LiesAtNode source node (textOf source node) := by
  obtain ⟨text, lies⟩ := readable
  rwa [text_of_lying source node text lies]

theorem text_of_read (source : String) (node : Node) : ReadAt source node (textOf source node) := by
  by_cases readable : Readable source node
  · exact .inl (readable_text_lies source node readable)
  · exact .inr ⟨text_of_unreadable source node readable, readable⟩

theorem name_of_read (source : String) (node : Node) (field fallback : String) :
    NameAt source node field fallback (nameOf source.toList node field fallback) := by
  rw [name_of_field]
  cases named : node.child? field with
  | none => exact .inl ⟨named, rfl⟩
  | some child => exact .inr ⟨child, named, text_of_read source child⟩

theorem enclosed_text (source : String) (outer inner : Node) (around : Readable source outer) (inside : Readable source inner)
    (nested : Encloses outer inner) :
    Text.LiesAt (textOf source outer) (inner.span.startByte - outer.span.startByte)
      (inner.span.endByte - outer.span.startByte) (textOf source inner) :=
  Text.lies_within source _ _ _ _ _ _ (readable_text_lies source outer around) (readable_text_lies source inner inside)
    nested.1 nested.2

theorem enclosed_part (source : String) (outer inner : Node) (around : Readable source outer) (nested : Encloses outer inner) :
    Part (textOf source inner) (textOf source outer) := by
  by_cases inside : Readable source inner
  · obtain ⟨before, after, same, _⟩ := enclosed_text source outer inner around inside nested
    exact ⟨before, after, same⟩
  · rw [text_of_unreadable source inner inside]
    exact ⟨textOf source outer, "", by rw [String.append_empty, String.append_empty]⟩

theorem class_told (table : NodeTable) (source : List Char) (frame : Frame) (here : isClass table frame.node) :
    ∃ owner, element? table source frame = some owner ∧ owner.sourceText = .ofList (nodeText source frame.node) ∧
      (table.classKind ≠ table.functionKind →
        owner.kind = .class ∧ owner.name = nameOf source frame.node table.classNameField unknownClass) := by
  have kind : matchKind frame.node = table.classKind := by rw [matchKind, if_pos here.1, here.2]
  rw [element?]
  by_cases same : table.classKind = table.functionKind
  · rw [if_pos (kind.trans same)]
    exact ⟨_, rfl, rfl, fun distinct => absurd same distinct⟩
  · rw [if_neg (fun function => same (kind.symm.trans function)), if_pos kind]
    exact ⟨_, rfl, rfl, fun _ => ⟨rfl, rfl⟩⟩

theorem nearest_suffix (kind : String) (ancestors : List Node) (outer : Node) (found : nearest? kind ancestors = some outer) :
    (outer.named = true ∧ outer.kind = kind) ∧ ∃ rest, outer :: rest <:+ ancestors := by
  obtain ⟨fits, front, rest, rfl, _⟩ := List.find?_eq_some_iff_append.mp found
  exact ⟨by simpa using fits, rest, List.suffix_append _ _⟩

theorem class_around (table : NodeTable) (tree : Node) (source : String) (nonempty : source ≠ "") (frame : Frame)
    (reached : Frame.Leads ⟨tree, []⟩ frame) (element : Element) (text : element.sourceText = textOf source frame.node)
    (parent : String) (around : enclosingClass table source.toList frame.ancestors = some parent) :
    ∃ outer ∈ preorder tree, ∃ owner, Within table tree source frame.node element parent outer owner := by
  obtain ⟨outer, found, rfl⟩ := Option.map_eq_some_iff.mp around
  obtain ⟨kind, rest, listed⟩ := nearest_suffix table.classKind frame.ancestors outer found
  obtain ⟨begun, above⟩ := leads_ancestor tree frame reached outer rest listed
  obtain ⟨owner, made, ownerText, ownerName⟩ := class_told table source.toList ⟨outer, rest⟩ kind
  refine ⟨outer, leads_preorder _ _ begun, owner, ?_⟩
  exact {
    kind := kind
    above := leads_preorder _ _ above
    listed := by
      rw [extract, if_neg nonempty]
      exact drain_lists table source.toList _ _ _ List.mem_cons_self begun owner made
    ownerText := by
      rw [ownerText]
      exact text_of_read source outer
    parentName := name_of_read source outer _ _
    ownerName := ownerName
    part := by
      intro nested readable
      rw [text, ownerText]
      exact enclosed_part source outer frame.node readable nested }

theorem element_exact (table : NodeTable) (tree : Node) (source : String) (nonempty : source ≠ "") (frame : Frame)
    (element : Element) (reached : Frame.Leads ⟨tree, []⟩ frame)
    (found : element? table source.toList frame = some element) : ByteExact table tree source frame.node element := by
  have text := text_of_read source frame.node
  rcases element_told table source.toList frame element found with rfl | rfl
  · refine ⟨text, fun kind => ?_, fun _ => name_of_read source frame.node _ _, fun parent around => ?_⟩
    · simp only [describe] at kind
      split at kind <;> cases kind
    · exact class_around table tree source nonempty frame reached _ rfl parent around
  · refine ⟨text, fun _ => name_of_read source frame.node _ _, fun other => absurd rfl other, ?_⟩
    intro parent around
    cases around

theorem extract_exact (table : NodeTable) (tree : Node) (source : String) (nonempty : source ≠ "") :
    List.Forall₂ (ByteExact table tree source) ((preorder tree).filter fun node => Matched table node)
      (extract (some table) tree source) := by
  have follows := drain_follows table source.toList ⟨tree, []⟩ (ByteExact table tree source)
    (fun frame element => element_exact table tree source nonempty frame element) [⟨tree, []⟩]
    (fun frame member => List.mem_singleton.mp member ▸ .refl)
  rw [List.flatMap_singleton] at follows
  rwa [extract, if_neg nonempty]

theorem extract_nothing (table : Option NodeTable) (tree : Node) (source : String) (idle : table = none ∨ source = "") :
    extract table tree source = [] := by
  rcases idle with rfl | empty
  · rfl
  · cases table with
    | none => rfl
    | some own => rw [extract, if_pos empty]

theorem texts_byte_exact (source : String) :
    (∀ node, (∀ text, LiesAtNode source node text → textOf source node = text) ∧
      (¬ Readable source node → textOf source node = "") ∧
      (¬ Readable source node ↔
        node.span.endByte < node.span.startByte ∨ source.utf8ByteSize < node.span.endByte ∨
        Text.InsideCharacter source node.span.startByte ∨ Text.InsideCharacter source node.span.endByte)) ∧
    (∀ table tree, table = none ∨ source = "" → extract table tree source = []) ∧
    (∀ table tree, source ≠ "" → List.Forall₂ (ByteExact table tree source)
      ((preorder tree).filter fun node => Matched table node) (extract (some table) tree source)) ∧
    ∀ outer inner, Readable source outer → Readable source inner → Encloses outer inner →
      Text.LiesAt (textOf source outer) (inner.span.startByte - outer.span.startByte)
        (inner.span.endByte - outer.span.startByte) (textOf source inner) := by
  refine ⟨fun node => ⟨text_of_lying source node, text_of_unreadable source node, ?_⟩, ?_, ?_, enclosed_text source⟩
  · exact Text.no_text_iff source node.span.startByte node.span.endByte
  · exact fun table tree => extract_nothing table tree source
  · exact fun table tree => extract_exact table tree source

def accentedMethod : Node :=
  .mk "method" true ⟨3, 5, 0, 0⟩ [("name", 0)] [.mk "identifier" true ⟨3, 5, 0, 0⟩ [] []]

-- The letters take two bytes each, and this node begins in the middle of the second one.
def strayMethod : Node := .mk "method" true ⟨4, 6, 0, 0⟩ [] []

def accentedClass : Node :=
  .mk "class" true ⟨0, 6, 0, 0⟩ [("name", 0)] [.mk "constant" true ⟨0, 2, 0, 0⟩ [] [], accentedMethod, strayMethod]

theorem accented_class_exact :
    textOf "Ä(ß)" accentedMethod = "ß" ∧ Text.InsideCharacter "Ä(ß)" 4 ∧ textOf "Ä(ß)" strayMethod = "" ∧
    Text.LiesAt (textOf "Ä(ß)" accentedClass) 3 5 (textOf "Ä(ß)" accentedMethod) ∧
    extract none accentedClass "Ä(ß)" = [] ∧ ∃ owner ∈ extract (some rubyTable) accentedClass "Ä(ß)",
      owner.kind = .class ∧ owner.name = "Ä" ∧ Part "ß" owner.sourceText := by
  obtain ⟨texts, nothing, elements, nested⟩ := texts_byte_exact "Ä(ß)"
  have method : LiesAtNode "Ä(ß)" accentedMethod "ß" := by decide
  have whole : LiesAtNode "Ä(ß)" accentedClass "Ä(ß)" := by decide
  have inside : Text.InsideCharacter "Ä(ß)" 4 := ⟨"Ä(", ")", 'ß', by decide, by decide, by decide⟩
  refine ⟨(texts accentedMethod).1 "ß" method, inside, ?_, ?_, nothing none accentedClass (.inl rfl), ?_⟩
  · exact (texts strayMethod).2.1 ((texts strayMethod).2.2.mpr (.inr (.inr (.inl inside))))
  · exact nested accentedClass accentedMethod ⟨_, whole⟩ ⟨_, method⟩ (by decide)
  · have listed : extract (some rubyTable) accentedClass "Ä(ß)" = [⟨.class, "Ä", "Ä(ß)", none, [], none, 0, 0⟩,
        ⟨.method, "ß", "ß", none, [], some "Ä", 0, 0⟩, ⟨.method, "unknown_function", "", none, [], some "Ä", 0, 0⟩] := by
      decide +kernel
    have follows := elements rubyTable accentedClass (by decide)
    rw [listed] at follows
    change List.Forall₂ _ [accentedClass, accentedMethod, strayMethod] _ at follows
    have exactly := (List.forall₂_cons.mp (List.forall₂_cons.mp follows).2).1
    obtain ⟨outer, member, owner, within⟩ := exactly.parentClass "Ä" rfl
    have others : ∀ node ∈ preorderAll accentedClass.children, node.kind ≠ rubyTable.classKind := by decide
    have only : outer = accentedClass :=
      (List.mem_cons.mp member).resolve_right fun below => others outer below within.kind.2
    subst only
    obtain ⟨kind, name⟩ := within.ownerName (by decide)
    exact ⟨owner, within.listed, kind, name, within.part (by decide) ⟨_, whole⟩⟩

end CodeIndex.Extraction
