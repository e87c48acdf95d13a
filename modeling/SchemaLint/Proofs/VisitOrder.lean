import SchemaLint.Proofs.Visiting

namespace SchemaLint

namespace Schema

/-!
# The order of a visit

A visit comes in blocks, one for each kind of element.  The blocks of fields, methods,
messages and services are in the order of paths: entry by entry from the left, a path
before those that go on from it.  Enums are not, because the number of the list in which
messages hold their enums is larger than that of their nested messages.  They follow
their owners, and enum values follow their enums.

That fields are in the order of paths rests on the same numbers: a message holds its
fields under a smaller number than its nested messages.
-/

/-- Paths that part from each other are compared where they part, whatever follows. -/
theorem Path.append_lt_append {left right : Path} (hless : left < right)
    (hparts : ¬ left <+: right) (leftRest rightRest : Path) :
    left ++ leftRest < right ++ rightRest := by
  induction left generalizing right with
  | nil => exact absurd List.nil_prefix hparts
  | cons entry left ih =>
      cases right with
      | nil => exact absurd hless (List.not_lt_nil _)
      | cons other right =>
          rw [List.cons_append, List.cons_append, List.cons_lt_cons_iff]
          rcases List.cons_lt_cons_iff.1 hless with hentry | ⟨rfl, hrest⟩
          · exact .inl hentry
          · refine .inr ⟨rfl, ih hrest fun hextends => hparts ?_⟩
            exact List.cons_prefix_cons.2 ⟨rfl, hextends⟩

namespace Element

/-!
## Members of one owner
-/

/-- The members of a list are found one by one at their positions. -/
theorem getElem?_group (owner : Element) (tag : Int32) (position : Nat) :
    (owner.group tag)[position]? = owner.child? tag position := by
  rw [group, child?]
  cases owner.groups.lookup tag with
  | none => simp
  | some nodes => simp [List.getElem?_mapIdx]

theorem exists_child?_of_mem_group {owner element : Element} {tag : Int32}
    (h : element ∈ owner.group tag) : ∃ position, owner.child? tag position = some element := by
  obtain ⟨position, hposition⟩ := List.mem_iff_getElem?.1 h
  exact ⟨position, (owner.getElem?_group tag position).symm.trans hposition⟩

/-- `left` comes before `right` when its owner comes before the owner of `right`, or when
both are in one list and it stands further to the front. -/
inductive OwnersFirst (file : File) (order : Element → Element → Prop) :
    Element → Element → Prop where
  | owner {leftOwner rightOwner left right : Element}
      (hleft : file.Reaches leftOwner ∧ leftOwner.Holds left)
      (hright : file.Reaches rightOwner ∧ rightOwner.Holds right)
      (horder : order leftOwner rightOwner) : OwnersFirst file order left right
  | position {owner left right : Element} {tag : Int32} {position later : Nat}
      (howner : file.Reaches owner) (hleft : owner.child? tag position = some left)
      (hright : owner.child? tag later = some right) (hless : position < later) :
      OwnersFirst file order left right

end Element

namespace File

/-- The members of owners that are in order come in the order of their owners, and those of
one owner by their positions. -/
theorem members_ownersFirst {file : File} {owners : List Element}
    {order : Element → Element → Prop} (howners : ∀ owner ∈ owners, file.Reaches owner)
    (horder : owners.Pairwise order) (tag : Int32) :
    (owners.flatMap (·.group tag)).Pairwise (Element.OwnersFirst file order) := by
  rw [List.pairwise_flatMap]
  constructor
  · intro owner howner
    rw [List.pairwise_iff_getElem]
    intro position later hposition hlater hless
    have hleft := owner.getElem?_group tag position
    have hright := owner.getElem?_group tag later
    rw [List.getElem?_eq_getElem hposition] at hleft
    rw [List.getElem?_eq_getElem hlater] at hright
    exact .position (howners owner howner) hleft.symm hright.symm hless
  · refine horder.imp_of_mem ?_
    intro leftOwner rightOwner hleftOwner hrightOwner hordered left hleft right hright
    exact .owner ⟨howners _ hleftOwner, Element.holds_of_mem_group hleft⟩
      ⟨howners _ hrightOwner, Element.holds_of_mem_group hright⟩ hordered

/-!
## Members in the order of paths
-/

/-- If owners ascend, and where one stands below another it is held under a larger number
than the members, then the members ascend. -/
theorem members_ascend {file : File} (hshort : file.listsShort = true) {owners : List Element}
    {tag : Int32} (howners : ∀ owner ∈ owners, file.Reaches owner)
    (hascends : owners.Pairwise fun left right => left.path < right.path)
    (hbelow : ∀ left ∈ owners, ∀ right ∈ owners, left.path < right.path →
      left.path <+: right.path → ∃ next rest, tag < next ∧ right.path = left.path ++ next :: rest) :
    (owners.flatMap (·.group tag)).Pairwise fun left right => left.path < right.path := by
  rw [List.pairwise_flatMap]
  refine ⟨fun owner howner => (howners owner howner).group_ascends hshort tag, ?_⟩
  refine hascends.imp_of_mem ?_
  intro leftOwner rightOwner hleftOwner hrightOwner hless left hleft right hright
  obtain ⟨position, hposition⟩ := Element.exists_child?_of_mem_group hleft
  obtain ⟨later, hlater⟩ := Element.exists_child?_of_mem_group hright
  rw [(Element.holds_of_child? hposition).2, (Element.holds_of_child? hlater).2]
  by_cases hextends : leftOwner.path <+: rightOwner.path
  · -- The second owner stands below the first, in a list with a larger number.
    obtain ⟨next, rest, htag, hpath⟩ :=
      hbelow leftOwner hleftOwner rightOwner hrightOwner hless hextends
    rw [hpath, List.append_assoc]
    exact List.append_left_lt (List.cons_lt_cons_iff.2 (.inl htag))
  · exact Path.append_lt_append hless hextends _ _

/-- An element whose path goes on from that of another stands below it. -/
theorem Reaches.below_of_path_prefix {file : File} (hshort : file.listsShort = true)
    {above element : Element} (habove : file.Reaches above) (helement : file.Reaches element)
    (hextends : above.path <+: element.path) :
    Relation.ReflTransGen Element.Holds above element := by
  obtain ⟨rest, hpath⟩ := hextends
  have hfound : above.descend? rest = some element := by
    have happend : file.resolve? (above.path ++ rest) = above.descend? rest :=
      Element.descend?_append (habove.resolve?_path hshort) rest
    rw [← happend, hpath]
    exact helement.resolve?_path hshort
  exact (Element.below_of_descend? hfound).1

end File

namespace Element

/-- What stands above a message is the file or a message. -/
theorem kind_above_message {above element : Element} (hkind : element.kind = .message)
    (h : Relation.ReflTransGen Holds above element) :
    above.kind = .file ∨ above.kind = .message := by
  induction h using Relation.ReflTransGen.head_induction_on with
  | refl => exact .inr hkind
  | @head first next hholds _ ih =>
      obtain ⟨tag, htag⟩ := listNumber?_of_holds hholds
      rcases ih with hnext | hnext
      · -- Nothing holds a file.
        cases hfirst : first.kind <;> simp [hfirst, hnext, ElementKind.listNumber?] at htag
      · cases hfirst : first.kind <;>
          simp [hfirst, hnext, ElementKind.listNumber?] at htag ⊢

/-- A message below another goes on from it with the number of the nested messages. -/
theorem path_of_message_below_message {owner element : Element} (howner : owner.kind = .message)
    (hkind : element.kind = .message) (h : Relation.TransGen Holds owner element) :
    ∃ rest, element.path = owner.path ++ 3 :: rest := by
  -- The first step down leads to a message: fields and enums have no messages below them.
  obtain ⟨first, hholds, hrest⟩ := Relation.TransGen.head'_iff.1 h
  have hfirst : first.kind = .message := by
    refine (kind_above_message hkind hrest).resolve_left fun hfile => ?_
    obtain ⟨tag, htag⟩ := listNumber?_of_holds hholds
    simp [howner, hfile, ElementKind.listNumber?] at htag
  have hnumber : owner.kind.listNumber? .message = some 3 := by
    rw [howner]
    rfl
  obtain ⟨position, hposition⟩ :=
    exists_child?_of_mem_group ((mem_group_iff_holds hnumber).2 ⟨hholds, hfirst⟩)
  obtain ⟨more, hmore⟩ := path_prefix_of_below hrest
  refine ⟨pathEntry position :: more, ?_⟩
  rw [← hmore, (holds_of_child? hposition).2, List.append_assoc]
  rfl

end Element

namespace File

theorem fields_ascend {file : File} (hshort : file.listsShort = true) :
    (file.allMessages.flatMap (·.group 2)).Pairwise fun left right => left.path < right.path := by
  have hmessages : ∀ message ∈ file.allMessages,
      file.Reaches message ∧ message.kind = .message := fun message hmem =>
    (mem_allMessages_iff hshort).1 hmem
  refine members_ascend hshort (fun message hmem => (hmessages message hmem).1)
    (walk_ascends hshort _) ?_
  intro left hleft right hright hless hextends
  obtain ⟨hleftReach, hleftKind⟩ := hmessages left hleft
  obtain ⟨hrightReach, hrightKind⟩ := hmessages right hright
  have hbelow := hleftReach.below_of_path_prefix hshort hrightReach hextends
  rcases Relation.reflTransGen_iff_eq_or_transGen.1 hbelow with rfl | hbelow
  · exact absurd hless (List.lt_irrefl _)
  · obtain ⟨rest, hpath⟩ :=
      Element.path_of_message_below_message hleftKind hrightKind hbelow
    exact ⟨3, rest, by decide, hpath⟩

theorem services_ascend {file : File} (hshort : file.listsShort = true) :
    file.serviceElements.Pairwise fun left right => left.path < right.path :=
  file.reaches_root.group_ascends hshort 6

theorem methods_ascend {file : File} (hshort : file.listsShort = true) :
    (file.serviceElements.flatMap (·.group 2)).Pairwise
      fun left right => left.path < right.path := by
  have hlength : ∀ service ∈ file.serviceElements, service.path.length = 2 := by
    intro service hmem
    obtain ⟨position, hposition⟩ := Element.exists_child?_of_mem_group hmem
    rw [(Element.holds_of_child? hposition).2]
    rfl
  refine members_ascend hshort (fun service hmem => (mem_serviceElements_iff.1 hmem).1)
    (services_ascend hshort) ?_
  intro left hleft right hright hless hextends
  -- Services stand side by side, so none of them is below another.
  have hpath : left.path = right.path :=
    hextends.eq_of_length ((hlength left hleft).trans (hlength right hright).symm)
  rw [hpath] at hless
  exact absurd hless (List.lt_irrefl _)

/-!
## The blocks in order
-/

/-- What a visit sees after the file itself, part by part. -/
structure VisitParts where
  topEnums : List Element
  nestedEnums : List Element
  values : List Element
  fields : List Element
  methods : List Element
  messages : List Element
  services : List Element

namespace VisitParts

/-- All enums, in the order of the visit. -/
def enums (parts : VisitParts) : List Element := parts.topEnums ++ parts.nestedEnums

/-- The blocks of a visit, each with the kind of its elements. -/
def blocks (parts : VisitParts) : List (ElementKind × List Element) :=
  [(.enum, parts.enums), (.enumValue, parts.values), (.field, parts.fields),
    (.method, parts.methods), (.message, parts.messages), (.service, parts.services)]

/-- The parts make up the visit of the file, and each is in its order: fields, methods,
messages and services in that of their paths, the enums of the file by position, the other
enums by their messages and values by their enums. -/
structure InOrder (file : File) (parts : VisitParts) : Prop where
  visit_eq : file.visit = file.root :: parts.blocks.flatMap (·.2)
  members : ∀ block ∈ parts.blocks, ∀ element, element ∈ block.2 ↔
    file.Reaches element ∧ element.kind = block.1 ∧ ¬ file.LeftOut element
  ascending : ∀ block ∈ parts.blocks, block.1 ∈ [.field, .method, .message, .service] →
    block.2.Pairwise fun left right => left.path < right.path
  topEnums : ∀ position, parts.topEnums[position]? = file.root.child? 5 position
  nestedEnums_held : ∀ enum ∈ parts.nestedEnums,
    ∃ owner, file.Reaches owner ∧ owner.kind = .message ∧ owner.Holds enum
  nestedEnums : parts.nestedEnums.Pairwise
    (Element.OwnersFirst file fun left right => left.path < right.path)
  values_held : ∀ value ∈ parts.values, ∃ enum ∈ parts.enums, enum.Holds value
  values : parts.values.Pairwise
    (Element.OwnersFirst file fun left right => [left, right].Sublist parts.enums)

/-- The parts of the visit of a file. -/
def ofFile (file : File) : VisitParts where
  topEnums := file.root.group 5
  nestedEnums := file.writtenMessages.flatMap (·.group 4)
  values := file.writtenEnums.flatMap (·.group 2)
  fields := file.allMessages.flatMap (·.group 2)
  methods := file.serviceElements.flatMap (·.group 2)
  messages := file.writtenMessages
  services := file.serviceElements

/-- The parts are the blocks that a visit has besides the file. -/
theorem blocks_ofFile (file : File) :
    file.blocks = (.file, [file.root]) :: (ofFile file).blocks := rfl

theorem nestedEnums_ofFile_held {file : File} (hshort : file.listsShort = true) :
    ∀ enum ∈ (ofFile file).nestedEnums,
      ∃ owner, file.Reaches owner ∧ owner.kind = .message ∧ owner.Holds enum := by
  intro enum hmem
  obtain ⟨owner, howner, henum⟩ := List.mem_flatMap.1 hmem
  obtain ⟨hreach, hkind, -⟩ := (mem_writtenMessages_iff hshort).1 howner
  exact ⟨owner, hreach, hkind, Element.holds_of_mem_group henum⟩

theorem values_ofFile_held (file : File) :
    ∀ value ∈ (ofFile file).values, ∃ enum ∈ (ofFile file).enums, enum.Holds value := by
  intro value hmem
  obtain ⟨enum, henum, hvalue⟩ := List.mem_flatMap.1 hmem
  exact ⟨enum, henum, Element.holds_of_mem_group hvalue⟩

theorem nestedEnums_ofFile_ownersFirst {file : File} (hshort : file.listsShort = true) :
    (ofFile file).nestedEnums.Pairwise
      (Element.OwnersFirst file fun left right => left.path < right.path) :=
  members_ownersFirst (fun _ => reaches_of_mem_walk) (walk_ascends hshort _) 4

theorem values_ofFile_ownersFirst {file : File} (hshort : file.listsShort = true) :
    (ofFile file).values.Pairwise
      (Element.OwnersFirst file fun left right => [left, right].Sublist (ofFile file).enums) := by
  -- Every list is in the order in which it lists its members.
  have henums : file.writtenEnums.Pairwise
      fun left right => [left, right].Sublist (ofFile file).enums :=
    List.pairwise_iff_forall_sublist.2 fun hboth => hboth
  exact members_ownersFirst (fun enum hmem => ((mem_writtenEnums_iff hshort).1 hmem).1) henums 2

theorem ascending_ofFile {file : File} (hshort : file.listsShort = true) :
    ∀ block ∈ (ofFile file).blocks, block.1 ∈ [.field, .method, .message, .service] →
      block.2.Pairwise fun left right => left.path < right.path := by
  intro block hblock hkind
  simp only [blocks, List.mem_cons, List.not_mem_nil, or_false] at hblock
  rcases hblock with rfl | rfl | rfl | rfl | rfl | rfl
  · simp at hkind
  · simp at hkind
  · exact fields_ascend hshort
  · exact methods_ascend hshort
  · exact walk_ascends hshort _
  · exact services_ascend hshort

end VisitParts

/-- The order of a visit is fixed by the tree.  After the file come its enums, their values,
the fields, the methods, the messages and the services, and the elements of each block are
in one strict order that is read off the paths and the owners alone. -/
theorem visit_inOrder (file : File) (hshort : file.listsShort = true) :
    ∃ parts : VisitParts, parts.InOrder file := by
  refine ⟨.ofFile file, ?_⟩
  constructor
  case visit_eq =>
    rw [visit_eq_blocks, VisitParts.blocks_ofFile, List.flatMap_cons, List.singleton_append]
  case members =>
    intro block hblock element
    have hblocks : block ∈ file.blocks := by
      rw [VisitParts.blocks_ofFile]
      exact List.mem_cons_of_mem _ hblock
    exact mem_block_iff hshort hblocks
  case ascending => exact VisitParts.ascending_ofFile hshort
  case topEnums => exact file.root.getElem?_group 5
  case nestedEnums_held => exact VisitParts.nestedEnums_ofFile_held hshort
  case nestedEnums => exact VisitParts.nestedEnums_ofFile_ownersFirst hshort
  case values_held => exact VisitParts.values_ofFile_held file
  case values => exact VisitParts.values_ofFile_ownersFirst hshort

/-- Enums on three levels: in the file, in a message, and in a message inside that. -/
def nestedSample : File where
  name := "nested.proto"
  messages :=
    [.mk "A" [⟨"a", 1⟩]
      [.mk "B" [⟨"b", 1⟩] [] [⟨"InB", [⟨"IN_B_X", 0⟩]⟩] false]
      [⟨"InA", [⟨"IN_A_X", 0⟩, ⟨"IN_A_Y", 1⟩]⟩] false,
      .mk "C" [⟨"c", 1⟩] [] [] false]
  enums := [⟨"Top", [⟨"TOP_X", 0⟩]⟩]
  services := [⟨"S", [⟨"Get", ".A", ".A"⟩, ⟨"List", ".A", ".A"⟩]⟩]

/-- In the sample the enum of `A` comes before that of `B`, although its path is larger. -/
theorem visit_inOrder_nestedSample :
    nestedSample.listsShort = true ∧
      nestedSample.visit.map (·.path) =
        [[], [5, 0], [4, 0, 4, 0], [4, 0, 3, 0, 4, 0],
          [5, 0, 2, 0], [4, 0, 4, 0, 2, 0], [4, 0, 4, 0, 2, 1], [4, 0, 3, 0, 4, 0, 2, 0],
          [4, 0, 2, 0], [4, 0, 3, 0, 2, 0], [4, 1, 2, 0],
          [6, 0, 2, 0], [6, 0, 2, 1],
          [4, 0], [4, 0, 3, 0], [4, 1],
          [6, 0]] ∧
      ∃ parts : VisitParts, parts.InOrder nestedSample :=
  ⟨by decide, by decide, visit_inOrder nestedSample (by decide)⟩

end File

end Schema

end SchemaLint
