import Mathlib.Data.List.Nodup
import SchemaLint.Proofs.Addressing
import SchemaLint.Schema.Visit

namespace SchemaLint

namespace Schema

/-!
# What a visit sees

A visit is put together from two walks over the messages of a file, one that enters
map entries and one that does not, and from the enums, fields and services that hang
on them.  Here it is compared with the tree itself: a visit sees every element of the
file once, except the messages in and below map entries and the enums of those.

The order of a visit is not treated, beyond the fact that both walks ascend.
-/

/-- Messages are treated from the inside out. -/
@[elab_as_elim]
theorem Message.nestedInduction {motive : Message → Prop}
    (step : ∀ message, (∀ inner ∈ message.nested, motive inner) → motive message)
    (message : Message) : motive message := by
  apply step
  intro inner hinner
  have hsmaller : sizeOf inner < sizeOf message := by
    rcases message with ⟨name, fields, nested, enums, isMapEntry⟩
    have hmember := List.sizeOf_lt_of_mem hinner
    simp only [Message.nested] at hmember
    simp only [Message.mk.sizeOf_spec]
    omega
  exact Message.nestedInduction step inner
termination_by sizeOf message

/-!
## Kinds of owners and members
-/

/-- The number of the list in which elements of the first kind hold elements of the
second. -/
def ElementKind.listNumber? : ElementKind → ElementKind → Option Int32
  | file, message => some 4
  | file, enum => some 5
  | file, service => some 6
  | message, field => some 2
  | message, message => some 3
  | message, enum => some 4
  | enum, enumValue => some 2
  | service, method => some 2
  | _, _ => none

/-- Two kinds that an owner holds never share a list. -/
theorem ElementKind.eq_of_listNumber? {owner left right : ElementKind} {tag : Int32}
    (hleft : owner.listNumber? left = some tag) (hright : owner.listNumber? right = some tag) :
    left = right := by
  cases owner <;> cases left <;>
    simp only [ElementKind.listNumber?, Option.some.injEq, reduceCtorEq] at hleft <;>
    subst hleft <;> revert hright <;> cases right <;> decide

/-- Messages and enums are held by files and by messages; every other kind is held by
elements of one kind only. -/
theorem ElementKind.owner_unique {left right kind : ElementKind} {leftTag rightTag : Int32}
    (hmessage : kind ≠ .message) (henum : kind ≠ .enum)
    (hleft : left.listNumber? kind = some leftTag)
    (hright : right.listNumber? kind = some rightTag) : left = right := by
  cases kind with
  | message => exact absurd rfl hmessage
  | enum => exact absurd rfl henum
  | _ => cases left <;> cases right <;> simp_all [ElementKind.listNumber?]

@[simp] theorem File.kind_root (file : File) : file.root.kind = .file := rfl

namespace Element

theorem kind_held (owner : Element) (tag : Int32) (position : Nat) (node : Node) :
    (owner.held tag position node).kind = node.kind := rfl

/-- Every list holds nodes of one kind only, and every kind has its own list. -/
theorem listNumber?_of_mem_groups {owner : Element} {tag : Int32} {nodes : List Node}
    {node : Node} (hgroup : (tag, nodes) ∈ owner.groups) (hnode : node ∈ nodes) :
    owner.kind.listNumber? node.kind = some tag := by
  rcases owner with ⟨file, ownerNode, path, fullName⟩
  cases ownerNode with
  | file =>
      simp only [groups, Node.groups, List.mem_cons, Prod.mk.injEq, List.not_mem_nil,
        or_false] at hgroup
      rcases hgroup with ⟨rfl, rfl⟩ | ⟨rfl, rfl⟩ | ⟨rfl, rfl⟩ <;>
        obtain ⟨member, -, rfl⟩ := List.mem_map.1 hnode <;> rfl
  | message message =>
      simp only [groups, Node.groups, List.mem_cons, Prod.mk.injEq, List.not_mem_nil,
        or_false] at hgroup
      rcases hgroup with ⟨rfl, rfl⟩ | ⟨rfl, rfl⟩ | ⟨rfl, rfl⟩ <;>
        obtain ⟨member, -, rfl⟩ := List.mem_map.1 hnode <;> rfl
  | enum enum =>
      simp only [groups, Node.groups, List.mem_singleton, Prod.mk.injEq] at hgroup
      obtain ⟨rfl, rfl⟩ := hgroup
      obtain ⟨value, -, rfl⟩ := List.mem_map.1 hnode
      rfl
  | service service =>
      simp only [groups, Node.groups, List.mem_singleton, Prod.mk.injEq] at hgroup
      obtain ⟨rfl, rfl⟩ := hgroup
      obtain ⟨method, -, rfl⟩ := List.mem_map.1 hnode
      rfl
  | field field => simp [groups, Node.groups] at hgroup
  | enumValue value => simp [groups, Node.groups] at hgroup
  | method method => simp [groups, Node.groups] at hgroup

theorem listNumber?_of_holds {owner element : Element} (h : owner.Holds element) :
    ∃ tag, owner.kind.listNumber? element.kind = some tag := by
  obtain ⟨tag, nodes, position, node, hgroup, hnode, rfl⟩ := holds_iff.1 h
  exact ⟨tag, listNumber?_of_mem_groups hgroup (List.mem_of_getElem? hnode)⟩

theorem kind_of_enum_holds {owner element : Element} (hholds : owner.Holds element)
    (hkind : owner.kind = .enum) : element.kind = .enumValue := by
  obtain ⟨tag, htag⟩ := listNumber?_of_holds hholds
  rw [hkind] at htag
  cases hmember : element.kind <;> simp [hmember, ElementKind.listNumber?] at htag ⊢

/-- The members of one kind are the list with the number of that kind. -/
theorem mem_group_iff_holds {owner element : Element} {kind : ElementKind} {tag : Int32}
    (htag : owner.kind.listNumber? kind = some tag) :
    element ∈ owner.group tag ↔ owner.Holds element ∧ element.kind = kind := by
  rw [mem_group_iff, holds_iff]
  constructor
  · rintro ⟨nodes, position, node, hgroup, hnode, rfl⟩
    refine ⟨⟨tag, nodes, position, node, hgroup, hnode, rfl⟩, ?_⟩
    exact ElementKind.eq_of_listNumber?
      (listNumber?_of_mem_groups hgroup (List.mem_of_getElem? hnode)) htag
  · rintro ⟨⟨tag', nodes, position, node, hgroup, hnode, rfl⟩, hkind⟩
    have htag' := listNumber?_of_mem_groups hgroup (List.mem_of_getElem? hnode)
    rw [kind_held] at hkind
    rw [hkind, htag] at htag'
    obtain rfl := Option.some.inj htag'
    exact ⟨nodes, position, node, hgroup, hnode, rfl⟩

theorem holds_of_mem_group {owner element : Element} {tag : Int32}
    (h : element ∈ owner.group tag) : owner.Holds element := by
  obtain ⟨nodes, position, node, hgroup, hnode, rfl⟩ := mem_group_iff.1 h
  exact holds_iff.2 ⟨tag, nodes, position, node, hgroup, hnode, rfl⟩

/-!
## The walk over messages
-/

theorem kind_of_node_message {message : Message} {element : Element}
    (hnode : element.node = .message message) : element.kind = .message := by
  rw [kind, hnode]
  rfl

/-- The owner holds a message that `keep` accepts. -/
def HoldsKept (keep : Message → Bool) (owner element : Element) : Prop :=
  owner.Holds element ∧ ∃ message, element.node = .message message ∧ keep message = true

theorem holds_of_holdsKept (keep : Message → Bool) : HoldsKept keep ≤ Holds :=
  fun _ _ h => h.1

theorem mem_messagesIn_iff {keep : Message → Bool} {owner element : Element} {tag : Int32}
    {position : Nat} {messages : List Message} :
    element ∈ owner.messagesIn keep tag position messages ↔
      ∃ offset message, messages[offset]? = some message ∧
        element ∈ messagesFrom keep (owner.held tag (position + offset) (.message message))
          message := by
  induction messages generalizing position with
  | nil => simp [messagesIn]
  | cons head rest ih =>
      rw [messagesIn, List.mem_append, ih]
      constructor
      · rintro (hhead | ⟨offset, message, hmessage, hmem⟩)
        · exact ⟨0, head, rfl, hhead⟩
        · refine ⟨offset + 1, message, hmessage, ?_⟩
          rwa [Nat.add_comm offset, ← Nat.add_assoc]
      · rintro ⟨offset, message, hmessage, hmem⟩
        cases offset with
        | zero =>
            obtain rfl := Option.some.inj hmessage
            exact .inl hmem
        | succ offset =>
            refine .inr ⟨offset, message, hmessage, ?_⟩
            rwa [Nat.add_assoc, Nat.add_comm 1]

/-- What a walk finds in a list of messages that the owner holds. -/
theorem mem_messagesIn_iff_kept {keep : Message → Bool} {owner element : Element}
    {tag : Int32} {messages : List Message}
    (htag : owner.kind.listNumber? .message = some tag)
    (hgroup : (tag, messages.map Node.message) ∈ owner.groups)
    (hfrom : ∀ message ∈ messages, ∀ start : Element, start.node = .message message →
      (element ∈ messagesFrom keep start message ↔
        keep message = true ∧ Relation.ReflTransGen (HoldsKept keep) start element)) :
    element ∈ owner.messagesIn keep tag 0 messages ↔
      ∃ first, HoldsKept keep owner first ∧
        Relation.ReflTransGen (HoldsKept keep) first element := by
  rw [mem_messagesIn_iff]
  constructor
  · rintro ⟨offset, message, hmessage, hmem⟩
    have hbelow := (hfrom message (List.mem_of_getElem? hmessage) _ rfl).1 hmem
    refine ⟨_, ⟨holds_iff.2 ⟨tag, _, 0 + offset, .message message, hgroup, ?_, rfl⟩,
      message, rfl, hbelow.1⟩, hbelow.2⟩
    simp [hmessage]
  · rintro ⟨first, ⟨hholds, message, hnode, hkeep⟩, hbelow⟩
    have hfirst : first ∈ owner.group tag :=
      (mem_group_iff_holds htag).2 ⟨hholds, kind_of_node_message hnode⟩
    obtain ⟨nodes, offset, node, hgroup', hposition, rfl⟩ := mem_group_iff.1 hfirst
    have hnodes : nodes = messages.map Node.message :=
      Option.some.inj ((lookup_groups.2 hgroup').symm.trans (lookup_groups.2 hgroup))
    subst hnodes
    obtain rfl : node = .message message := hnode
    have hmessage : messages[offset]? = some message := by simpa using hposition
    refine ⟨offset, message, hmessage, ?_⟩
    rw [Nat.zero_add]
    exact (hfrom message (List.mem_of_getElem? hmessage) _ rfl).2 ⟨hkeep, hbelow⟩

theorem nested_mem_groups {message : Message} {element : Element}
    (hnode : element.node = .message message) :
    ((3 : Int32), message.nested.map Node.message) ∈ element.groups := by
  simp [groups, hnode, Node.groups]

/-- From a message a walk finds what is reached through messages that are all kept. -/
theorem mem_messagesFrom_iff {keep : Message → Bool} {message : Message}
    {start element : Element} (hnode : start.node = .message message) :
    element ∈ messagesFrom keep start message ↔
      keep message = true ∧ Relation.ReflTransGen (HoldsKept keep) start element := by
  induction message using Message.nestedInduction generalizing start with
  | step message ih =>
      have htag : start.kind.listNumber? .message = some 3 := by
        rw [kind_of_node_message hnode]
        rfl
      have hnested : element ∈ start.messagesIn keep 3 0 message.nested ↔ _ :=
        mem_messagesIn_iff_kept htag (nested_mem_groups hnode)
          fun inner hinner below hbelow => ih inner hinner hbelow
      rcases message with ⟨name, fields, nested, enums, isMapEntry⟩
      rw [messagesFrom]
      split
      · next hkeep =>
        rw [List.mem_cons, Relation.ReflTransGen.cases_head_iff, eq_comm]
        simp only [Message.nested] at hnested
        rw [hnested]
        simp [hkeep]
      · next hkeep => simp [hkeep]

/-- A walk over a list of the owner finds what is reached from the owner through
messages that are all kept. -/
theorem mem_messagesIn_iff_transGen {keep : Message → Bool} {owner element : Element}
    {tag : Int32} {messages : List Message}
    (htag : owner.kind.listNumber? .message = some tag)
    (hgroup : (tag, messages.map Node.message) ∈ owner.groups) :
    element ∈ owner.messagesIn keep tag 0 messages ↔
      Relation.TransGen (HoldsKept keep) owner element := by
  rw [mem_messagesIn_iff_kept htag hgroup fun _ _ _ hnode => mem_messagesFrom_iff hnode,
    Relation.TransGen.head'_iff]

/-!
## Walks ascend

Paths are compared entry by entry from the left, and a path comes before those that
go on from it.
-/

theorem path_lt_of_holds {owner element : Element} (h : owner.Holds element) :
    owner.path < element.path := by
  obtain ⟨tag, entry, hpath⟩ := path_of_holds h
  have hlonger : owner.path ++ [] < owner.path ++ [tag, entry] :=
    List.append_left_lt (List.nil_lt_cons _ _)
  rwa [List.append_nil, ← hpath] at hlonger

theorem path_lt_of_below {owner element : Element}
    (h : Relation.TransGen Holds owner element) : owner.path < element.path := by
  induction h with
  | single hstep => exact path_lt_of_holds hstep
  | tail _ hstep ih => exact List.lt_trans ih (path_lt_of_holds hstep)

/-- What stands below one member of a list comes before what stands below a later
member. -/
theorem path_lt_of_position_lt {owner left right : Element} {tag : Int32}
    {position later : Nat} {node laterNode : Node}
    (hleft : (owner.held tag position node).path <+: left.path)
    (hright : (owner.held tag later laterNode).path <+: right.path)
    (hlater : later < entryLimit) (hposition : position < later) : left.path < right.path := by
  obtain ⟨leftRest, hleftPath⟩ := hleft
  obtain ⟨rightRest, hrightPath⟩ := hright
  have hentry : pathEntry position < pathEntry later :=
    (pathEntry_lt_iff (Nat.lt_trans hposition hlater) hlater).2 hposition
  rw [← hleftPath, ← hrightPath]
  simp only [held, List.append_assoc, List.cons_append, List.nil_append]
  apply List.append_left_lt
  rw [List.cons_lt_cons_iff]
  exact .inr ⟨rfl, List.cons_lt_cons_iff.2 (.inl hentry)⟩

theorem path_prefix_of_mem_messagesFrom {keep : Message → Bool} {message : Message}
    {start element : Element} (hnode : start.node = .message message)
    (hmem : element ∈ messagesFrom keep start message) : start.path <+: element.path :=
  path_prefix_of_below
    (Relation.ReflTransGen.mono (holds_of_holdsKept keep) _ _
      ((mem_messagesFrom_iff hnode).1 hmem).2)

/-- A walk over a list of messages ascends if the walk over each message does. -/
theorem messagesIn_ascends {keep : Message → Bool} {owner : Element} {tag : Int32}
    {position : Nat} {messages : List Message} (hshort : position + messages.length ≤ entryLimit)
    (hfrom : ∀ message ∈ messages, ∀ start : Element, start.node = .message message →
      (messagesFrom keep start message).Pairwise fun left right => left.path < right.path) :
    (owner.messagesIn keep tag position messages).Pairwise
      fun left right => left.path < right.path := by
  induction messages generalizing position with
  | nil => exact .nil
  | cons head rest ih =>
      rw [List.length_cons] at hshort
      rw [messagesIn, List.pairwise_append]
      refine ⟨hfrom head List.mem_cons_self _ rfl, ?_, ?_⟩
      · exact ih (by omega) fun message hmem => hfrom message (List.mem_cons_of_mem _ hmem)
      · intro left hleft right hright
        obtain ⟨offset, message, hmessage, hmem⟩ := mem_messagesIn_iff.1 hright
        have hoffset := (List.getElem?_eq_some_iff.1 hmessage).1
        exact path_lt_of_position_lt (path_prefix_of_mem_messagesFrom rfl hleft)
          (path_prefix_of_mem_messagesFrom rfl hmem) (by omega) (by omega)

theorem messagesFrom_ascends {keep : Message → Bool} {message : Message}
    (hshort : message.listsShort = true) {start : Element}
    (hnode : start.node = .message message) :
    (messagesFrom keep start message).Pairwise fun left right => left.path < right.path := by
  induction message using Message.nestedInduction generalizing start with
  | step message ih =>
      have hnested : isShort message.nested = true ∧
          Message.allListsShort message.nested = true := by
        rcases message with ⟨name, fields, nested, enums, isMapEntry⟩
        simp only [Message.listsShort, Bool.and_eq_true] at hshort
        exact hshort.1.2
      rw [Message.allListsShort_eq, List.all_eq_true] at hnested
      have htag : start.kind.listNumber? .message = some 3 := by
        rw [kind_of_node_message hnode]
        rfl
      have hrest : (start.messagesIn keep 3 0 message.nested).Pairwise
          fun left right => left.path < right.path :=
        messagesIn_ascends (by have := of_decide_eq_true hnested.1; omega)
          fun inner hinner below hbelow => ih inner hinner (hnested.2 inner hinner) hbelow
      have hbelow : ∀ element ∈ start.messagesIn keep 3 0 message.nested,
          start.path < element.path := by
        intro element hmem
        have hkept := (mem_messagesIn_iff_transGen htag (nested_mem_groups hnode)).1 hmem
        exact path_lt_of_below (Relation.TransGen.mono (holds_of_holdsKept keep) _ _ hkept)
      rcases message with ⟨name, fields, nested, enums, isMapEntry⟩
      rw [messagesFrom]
      split
      · exact List.pairwise_cons.2 ⟨hbelow, hrest⟩
      · exact .nil

end Element

namespace File

theorem messages_mem_groups (file : File) :
    ((4 : Int32), file.messages.map Node.message) ∈ file.root.groups := by
  simp [Element.groups, root, Node.groups]

theorem mem_walk_iff {file : File} {keep : Message → Bool} {element : Element} :
    element ∈ file.root.messagesIn keep 4 0 file.messages ↔
      Relation.TransGen (Element.HoldsKept keep) file.root element :=
  Element.mem_messagesIn_iff_transGen rfl file.messages_mem_groups

theorem reaches_of_mem_walk {file : File} {keep : Message → Bool} {element : Element}
    (h : element ∈ file.root.messagesIn keep 4 0 file.messages) : file.Reaches element :=
  (Relation.TransGen.mono (Element.holds_of_holdsKept keep) _ _
    (mem_walk_iff.1 h)).to_reflTransGen

theorem walk_ascends {file : File} (hshort : file.listsShort = true) (keep : Message → Bool) :
    (file.root.messagesIn keep 4 0 file.messages).Pairwise
      fun left right => left.path < right.path := by
  simp only [listsShort, Bool.and_eq_true] at hshort
  obtain ⟨⟨⟨hlength, hmessages⟩, -⟩, -⟩ := hshort
  rw [Message.allListsShort_eq, List.all_eq_true] at hmessages
  have hlength := of_decide_eq_true hlength
  exact Element.messagesIn_ascends (by omega) fun message hmem _ hnode =>
    Element.messagesFrom_ascends (hmessages message hmem) hnode

/-- The root is the only element of its kind. -/
theorem Reaches.eq_root_of_kind {file : File} {element : Element} (h : file.Reaches element)
    (hkind : element.kind = .file) : element = file.root := by
  rcases h.eq_root_or_owner with hroot | ⟨owner, -, hholds⟩
  · exact hroot
  · obtain ⟨tag, htag⟩ := Element.listNumber?_of_holds hholds
    rw [hkind] at htag
    cases howner : owner.kind <;> simp [howner, ElementKind.listNumber?] at htag

/-- Nothing stands above the root. -/
theorem eq_root_of_below {file : File} {element : Element}
    (h : Relation.ReflTransGen Element.Holds element file.root) : element = file.root := by
  rcases h.cases_tail with hroot | ⟨owner, -, hholds⟩
  · exact hroot.symm
  · obtain ⟨tag, entry, hpath⟩ := Element.path_of_holds hholds
    simp [root] at hpath

/-- What is reached through kept messages has only kept messages above it.  Owners are
unique, so whatever stands above an element lies on the way to it. -/
theorem keep_above_of_kept {file : File} (hshort : file.listsShort = true)
    {keep : Message → Bool} {below above : Element} {message : Message}
    (hbelow : Relation.ReflTransGen (Element.HoldsKept keep) file.root below)
    (hreach : file.Reaches above) (habove : Relation.ReflTransGen Element.Holds above below)
    (hnode : above.node = .message message) : keep message = true := by
  -- Along the kept way down: the element above is the last one reached, or stands above
  -- the owner of that one.
  induction hbelow with
  | refl =>
      rw [eq_root_of_below habove] at hnode
      simp [root] at hnode
  | tail hbefore hstep ih =>
      have howner : file.Reaches _ :=
        Relation.ReflTransGen.mono (Element.holds_of_holdsKept keep) _ _ hbefore
      rcases habove.cases_tail with rfl | ⟨other, hother, hholds⟩
      · obtain ⟨-, kept, hkept, hkeep⟩ := hstep
        obtain rfl := Node.message.inj (hkept.symm.trans hnode)
        exact hkeep
      · have heq := Reaches.owner_unique hshort (hreach.trans hother) howner hholds hstep.1
        exact ih (heq ▸ hother)

/-- A walk finds the messages that have no refused message above them and are not
refused themselves. -/
theorem mem_walk_iff_reaches {file : File} (hshort : file.listsShort = true)
    {keep : Message → Bool} {element : Element} :
    element ∈ file.root.messagesIn keep 4 0 file.messages ↔
      file.Reaches element ∧ element.kind = .message ∧
        ∀ above message, file.Reaches above → Relation.ReflTransGen Element.Holds above element →
          above.node = .message message → keep message = true := by
  constructor
  · intro hmem
    have hkept := mem_walk_iff.1 hmem
    obtain ⟨owner, -, -, message, hnode, -⟩ := Relation.TransGen.tail'_iff.1 hkept
    refine ⟨reaches_of_mem_walk hmem, Element.kind_of_node_message hnode, ?_⟩
    intro above message habove hbelow hnode
    exact keep_above_of_kept hshort hkept.to_reflTransGen habove hbelow hnode
  · rintro ⟨hreach, hkind, hkeep⟩
    rw [mem_walk_iff]
    induction hreach with
    | refl => simp at hkind
    | @tail owner element hreach hstep ih =>
        obtain ⟨message, hnode⟩ : ∃ message, element.node = .message message := by
          cases hnode : element.node <;> simp [Element.kind, hnode, Node.kind] at hkind ⊢
        have hkept : Element.HoldsKept keep owner element :=
          ⟨hstep, message, hnode, hkeep element message (Reaches.step hreach hstep) .refl hnode⟩
        obtain ⟨tag, htag⟩ := Element.listNumber?_of_holds hstep
        rw [hkind] at htag
        -- Messages are held by the file or by another message.
        cases howner : owner.kind with
        | file =>
            have hroot := Reaches.eq_root_of_kind hreach howner
            exact .single (hroot ▸ hkept)
        | message =>
            refine .tail (ih howner fun above message habove hbelow => ?_) hkept
            exact hkeep above message habove (hbelow.tail hstep)
        | _ => simp [howner, ElementKind.listNumber?] at htag

/-!
## The blocks of a visit
-/

/-- A message that is a map entry or stands below one. -/
def InMapEntry (file : File) (element : Element) : Prop :=
  element.kind = .message ∧
    ∃ entry message, file.Reaches entry ∧ entry.node = .message message ∧
      message.isMapEntry = true ∧ Relation.ReflTransGen Element.Holds entry element

/-- What a visit leaves out: messages in and below map entries, the enums of such
messages, and the values of such enums. -/
inductive LeftOut (file : File) : Element → Prop where
  | message {element : Element} (hentry : file.InMapEntry element) : LeftOut file element
  | enum {owner element : Element} (howner : file.InMapEntry owner)
      (hholds : owner.Holds element) (hkind : element.kind = .enum) : LeftOut file element
  | enumValue {owner element : Element} (howner : LeftOut file owner)
      (hownerKind : owner.kind = .enum) (hholds : owner.Holds element) : LeftOut file element

theorem InMapEntry.reaches {file : File} {element : Element} (h : file.InMapEntry element) :
    file.Reaches element := by
  obtain ⟨-, entry, message, hreach, -, -, hbelow⟩ := h
  exact hreach.trans hbelow

theorem LeftOut.reaches {file : File} {element : Element} (h : file.LeftOut element) :
    file.Reaches element := by
  induction h with
  | message hentry => exact hentry.reaches
  | enum howner hholds _ => exact howner.reaches.step hholds
  | enumValue _ _ hholds ih => exact ih.step hholds

theorem mem_allMessages_iff {file : File} (hshort : file.listsShort = true)
    {element : Element} :
    element ∈ file.allMessages ↔ file.Reaches element ∧ element.kind = .message := by
  rw [allMessages, mem_walk_iff_reaches hshort]
  simp

theorem mem_writtenMessages_iff {file : File} (hshort : file.listsShort = true)
    {element : Element} :
    element ∈ file.writtenMessages ↔
      file.Reaches element ∧ element.kind = .message ∧ ¬ file.InMapEntry element := by
  rw [writtenMessages, mem_walk_iff_reaches hshort]
  constructor
  · rintro ⟨hreach, hkind, hkeep⟩
    refine ⟨hreach, hkind, ?_⟩
    rintro ⟨-, entry, message, hentry, hnode, hmap, hbelow⟩
    have hwritten := hkeep entry message hentry hbelow hnode
    simp [hmap] at hwritten
  · rintro ⟨hreach, hkind, hwritten⟩
    refine ⟨hreach, hkind, ?_⟩
    intro above message habove hbelow hnode
    by_contra hmap
    exact hwritten ⟨hkind, above, message, habove, hnode, by simpa using hmap, hbelow⟩

theorem Reaches.exists_owner {file : File} {element : Element} (h : file.Reaches element)
    (hkind : element.kind ≠ .file) :
    ∃ owner tag, file.Reaches owner ∧ owner.Holds element ∧
      owner.kind.listNumber? element.kind = some tag := by
  rcases h.eq_root_or_owner with rfl | ⟨owner, howner, hholds⟩
  · exact absurd rfl hkind
  · obtain ⟨tag, htag⟩ := Element.listNumber?_of_holds hholds
    exact ⟨owner, tag, howner, hholds, htag⟩

theorem mem_serviceElements_iff {file : File} {element : Element} :
    element ∈ file.serviceElements ↔ file.Reaches element ∧ element.kind = .service := by
  have htag : file.root.kind.listNumber? .service = some 6 := rfl
  rw [serviceElements, Element.mem_group_iff_holds htag]
  constructor
  · rintro ⟨hholds, hkind⟩
    exact ⟨file.reaches_root.step hholds, hkind⟩
  · rintro ⟨hreach, hkind⟩
    obtain ⟨owner, tag, howner, hholds, htag⟩ := hreach.exists_owner (by simp [hkind])
    rw [hkind] at htag
    cases hownerKind : owner.kind with
    | file => exact ⟨howner.eq_root_of_kind hownerKind ▸ hholds, hkind⟩
    | _ => simp [hownerKind, ElementKind.listNumber?] at htag

/-- The members of all owners that `keep` allows, for a kind that is neither message nor
enum and so has owners of one kind only. -/
theorem mem_members_iff {file : File} (hshort : file.listsShort = true) {owners : List Element}
    {ownerKind kind : ElementKind} {keep : Element → Prop} {tag : Int32}
    (howners : ∀ owner, owner ∈ owners ↔ file.Reaches owner ∧ owner.kind = ownerKind ∧ keep owner)
    (htag : ownerKind.listNumber? kind = some tag) (hmessage : kind ≠ .message)
    (henum : kind ≠ .enum) {element : Element} :
    element ∈ owners.flatMap (·.group tag) ↔
      file.Reaches element ∧ element.kind = kind ∧
        ∀ owner, file.Reaches owner → owner.Holds element → keep owner := by
  rw [List.mem_flatMap]
  constructor
  · rintro ⟨owner, howner, hmem⟩
    obtain ⟨hreach, hownerKind, hkeep⟩ := (howners owner).1 howner
    obtain ⟨hholds, hkind⟩ := (Element.mem_group_iff_holds (hownerKind ▸ htag)).1 hmem
    refine ⟨hreach.step hholds, hkind, ?_⟩
    intro other hother hotherHolds
    exact Reaches.owner_unique hshort hreach hother hholds hotherHolds ▸ hkeep
  · rintro ⟨hreach, hkind, hkeep⟩
    have hnotFile : element.kind ≠ .file := by
      intro hfile
      rw [← hkind, hfile] at htag
      cases ownerKind <;> simp [ElementKind.listNumber?] at htag
    obtain ⟨owner, number, howner, hholds, hnumber⟩ := hreach.exists_owner hnotFile
    rw [hkind] at hnumber
    have hownerKind := ElementKind.owner_unique hmessage henum hnumber htag
    exact ⟨owner, (howners owner).2 ⟨howner, hownerKind, hkeep owner howner hholds⟩,
      (Element.mem_group_iff_holds (hownerKind ▸ htag)).2 ⟨hholds, hkind⟩⟩

theorem mem_fields_iff {file : File} (hshort : file.listsShort = true) {element : Element} :
    element ∈ file.allMessages.flatMap (·.group 2) ↔
      file.Reaches element ∧ element.kind = .field := by
  have howners : ∀ owner, owner ∈ file.allMessages ↔
      file.Reaches owner ∧ owner.kind = .message ∧ True := by
    simp [mem_allMessages_iff hshort]
  have htag : ElementKind.message.listNumber? .field = some 2 := rfl
  rw [mem_members_iff hshort howners htag (by decide) (by decide)]
  simp

theorem mem_methods_iff {file : File} (hshort : file.listsShort = true) {element : Element} :
    element ∈ file.serviceElements.flatMap (·.group 2) ↔
      file.Reaches element ∧ element.kind = .method := by
  have howners : ∀ owner, owner ∈ file.serviceElements ↔
      file.Reaches owner ∧ owner.kind = .service ∧ True := by
    simp [mem_serviceElements_iff]
  have htag : ElementKind.service.listNumber? .method = some 2 := rfl
  rw [mem_members_iff hshort howners htag (by decide) (by decide)]
  simp

/-- An enum is left out with the message that holds it. -/
theorem leftOut_enum_iff {file : File} {element : Element} (hkind : element.kind = .enum) :
    file.LeftOut element ↔ ∃ owner, file.InMapEntry owner ∧ owner.Holds element := by
  constructor
  · intro hleft
    cases hleft with
    | message hentry => simp [hentry.1] at hkind
    | enum howner hholds _ => exact ⟨_, howner, hholds⟩
    | enumValue _ hownerKind hholds =>
        simp [Element.kind_of_enum_holds hholds hownerKind] at hkind
  · rintro ⟨owner, howner, hholds⟩
    exact .enum howner hholds hkind

/-- A value is left out with the enum that holds it. -/
theorem leftOut_enumValue_iff {file : File} {element : Element}
    (hkind : element.kind = .enumValue) :
    file.LeftOut element ↔ ∃ owner, file.LeftOut owner ∧ owner.Holds element := by
  constructor
  · intro hleft
    cases hleft with
    | message hentry => simp [hentry.1] at hkind
    | enum _ _ henum => simp [henum] at hkind
    | enumValue howner _ hholds => exact ⟨_, howner, hholds⟩
  · rintro ⟨owner, howner, hholds⟩
    obtain ⟨tag, htag⟩ := Element.listNumber?_of_holds hholds
    rw [hkind] at htag
    cases hownerKind : owner.kind with
    | enum => exact .enumValue howner hownerKind hholds
    | _ => simp [hownerKind, ElementKind.listNumber?] at htag

theorem leftOut_message_iff {file : File} {element : Element} (hkind : element.kind = .message) :
    file.LeftOut element ↔ file.InMapEntry element := by
  constructor
  · intro hleft
    cases hleft with
    | message hentry => exact hentry
    | enum _ _ henum => simp [henum] at hkind
    | enumValue _ hownerKind hholds =>
        simp [Element.kind_of_enum_holds hholds hownerKind] at hkind
  · exact .message

/-- Only messages, enums and values are ever left out. -/
theorem LeftOut.kind_cases {file : File} {element : Element} (h : file.LeftOut element) :
    element.kind = .message ∨ element.kind = .enum ∨ element.kind = .enumValue := by
  cases h with
  | message hentry => exact .inl hentry.1
  | enum _ _ hkind => exact .inr (.inl hkind)
  | enumValue _ hownerKind hholds =>
      exact .inr (.inr (Element.kind_of_enum_holds hholds hownerKind))

theorem mem_writtenEnums_iff {file : File} (hshort : file.listsShort = true)
    {element : Element} :
    element ∈ file.writtenEnums ↔
      file.Reaches element ∧ element.kind = .enum ∧ ¬ file.LeftOut element := by
  have hrootTag : file.root.kind.listNumber? .enum = some 5 := rfl
  have htag : ∀ owner : Element, owner.kind = .message →
      owner.kind.listNumber? .enum = some 4 := by
    intro owner howner
    rw [howner]
    rfl
  rw [writtenEnums, List.mem_append, Element.mem_group_iff_holds hrootTag, List.mem_flatMap]
  constructor
  · rintro (⟨hholds, hkind⟩ | ⟨owner, howner, hmem⟩)
    · refine ⟨file.reaches_root.step hholds, hkind, ?_⟩
      rw [leftOut_enum_iff hkind]
      rintro ⟨other, hother, hotherHolds⟩
      have heq := Reaches.owner_unique hshort file.reaches_root hother.reaches hholds hotherHolds
      have hotherKind := hother.1
      rw [← heq] at hotherKind
      simp at hotherKind
    · obtain ⟨hreach, hownerKind, hwritten⟩ := (mem_writtenMessages_iff hshort).1 howner
      obtain ⟨hholds, hkind⟩ := (Element.mem_group_iff_holds (htag owner hownerKind)).1 hmem
      refine ⟨hreach.step hholds, hkind, ?_⟩
      rw [leftOut_enum_iff hkind]
      rintro ⟨other, hother, hotherHolds⟩
      have heq := Reaches.owner_unique hshort hreach hother.reaches hholds hotherHolds
      exact hwritten (heq ▸ hother)
  · rintro ⟨hreach, hkind, hwritten⟩
    rw [leftOut_enum_iff hkind] at hwritten
    obtain ⟨owner, tag, howner, hholds, hnumber⟩ := hreach.exists_owner (by simp [hkind])
    rw [hkind] at hnumber
    cases hownerKind : owner.kind with
    | file => exact .inl ⟨howner.eq_root_of_kind hownerKind ▸ hholds, hkind⟩
    | message =>
        refine .inr ⟨owner, (mem_writtenMessages_iff hshort).2 ⟨howner, hownerKind, ?_⟩,
          (Element.mem_group_iff_holds (htag owner hownerKind)).2 ⟨hholds, hkind⟩⟩
        intro hentry
        exact hwritten ⟨owner, hentry, hholds⟩
    | _ => simp [hownerKind, ElementKind.listNumber?] at hnumber

theorem mem_writtenValues_iff {file : File} (hshort : file.listsShort = true)
    {element : Element} :
    element ∈ file.writtenEnums.flatMap (·.group 2) ↔
      file.Reaches element ∧ element.kind = .enumValue ∧ ¬ file.LeftOut element := by
  have htag : ElementKind.enum.listNumber? .enumValue = some 2 := rfl
  rw [mem_members_iff hshort (fun owner => mem_writtenEnums_iff hshort) htag (by decide)
    (by decide)]
  refine and_congr_right fun _ => and_congr_right fun hkind => ?_
  rw [leftOut_enumValue_iff hkind]
  constructor
  · rintro howners ⟨owner, howner, hholds⟩
    exact howners owner howner.reaches hholds howner
  · intro hnone owner _ hholds howner
    exact hnone ⟨owner, howner, hholds⟩

/-- A visit stays inside the file, however long its lists are. -/
theorem reaches_of_mem_visit {file : File} {element : Element} (h : element ∈ file.visit) :
    file.Reaches element := by
  have hmembers : ∀ {owners : List Element}, (∀ owner ∈ owners, file.Reaches owner) →
      ∀ {tag : Int32}, ∀ member ∈ owners.flatMap (·.group tag), file.Reaches member := by
    intro owners howners tag member hmem
    obtain ⟨owner, howner, hmember⟩ := List.mem_flatMap.1 hmem
    exact (howners owner howner).step (Element.holds_of_mem_group hmember)
  have hservices : ∀ service ∈ file.serviceElements, file.Reaches service := fun _ hmem =>
    file.reaches_root.step (Element.holds_of_mem_group hmem)
  have henums : ∀ enum ∈ file.writtenEnums, file.Reaches enum := by
    intro enum hmem
    rcases List.mem_append.1 hmem with hmem | hmem
    · exact file.reaches_root.step (Element.holds_of_mem_group hmem)
    · exact hmembers (fun _ => reaches_of_mem_walk) enum hmem
  simp only [visit, List.mem_cons, List.mem_append] at h
  rcases h with rfl | ((((hmem | hmem) | hmem) | hmem) | hmem) | hmem
  · exact file.reaches_root
  · exact henums element hmem
  · exact hmembers henums element hmem
  · exact hmembers (fun _ => reaches_of_mem_walk) element hmem
  · exact hmembers hservices element hmem
  · exact reaches_of_mem_walk hmem
  · exact hservices element hmem

/-!
## Each element once
-/

theorem nodup_of_ascends {elements : List Element}
    (h : elements.Pairwise fun left right => left.path < right.path) : elements.Nodup := by
  refine h.imp ?_
  rintro left right hless rfl
  exact List.lt_irrefl _ hless

theorem Reaches.group_ascends {file : File} (hshort : file.listsShort = true)
    {owner : Element} (howner : file.Reaches owner) (tag : Int32) :
    (owner.group tag).Pairwise fun left right => left.path < right.path := by
  cases hlookup : owner.groups.lookup tag with
  | none => simp [Element.group, hlookup]
  | some nodes =>
      have hlength := howner.length_lt hshort (Element.lookup_groups.1 hlookup)
      simp only [Element.group, hlookup, Option.getD_some]
      rw [List.pairwise_iff_getElem]
      intro position later hposition hlater hless
      rw [List.length_mapIdx] at hlater
      simp only [List.getElem_mapIdx]
      exact Element.path_lt_of_position_lt (List.prefix_refl _) (List.prefix_refl _)
        (Nat.lt_trans hlater hlength) hless

/-- Different owners have different members. -/
theorem nodup_flatMap_group {file : File} (hshort : file.listsShort = true)
    {owners : List Element} (hnodup : owners.Nodup)
    (howners : ∀ owner ∈ owners, file.Reaches owner) (tag : Int32) :
    (owners.flatMap (·.group tag)).Nodup := by
  rw [List.nodup_flatMap]
  constructor
  · intro owner howner
    exact nodup_of_ascends ((howners owner howner).group_ascends hshort tag)
  · refine hnodup.pairwise_of_forall_ne ?_
    intro left hleft right hright hne element hmemLeft hmemRight
    exact hne (Reaches.owner_unique hshort (howners left hleft) (howners right hright)
      (Element.holds_of_mem_group hmemLeft) (Element.holds_of_mem_group hmemRight))

theorem writtenEnums_nodup {file : File} (hshort : file.listsShort = true) :
    file.writtenEnums.Nodup := by
  have hmessages : file.writtenMessages.Nodup := nodup_of_ascends (walk_ascends hshort _)
  have hreach : ∀ message ∈ file.writtenMessages, file.Reaches message :=
    fun message hmem => ((mem_writtenMessages_iff hshort).1 hmem).1
  rw [writtenEnums, List.nodup_append]
  refine ⟨nodup_of_ascends (file.reaches_root.group_ascends hshort 5),
    nodup_flatMap_group hshort hmessages hreach 4, ?_⟩
  -- An enum of the file that a message holds too would have two owners.
  rintro element hroot other hother rfl
  obtain ⟨owner, howner, hmem⟩ := List.mem_flatMap.1 hother
  obtain ⟨-, hkind, -⟩ := (mem_writtenMessages_iff hshort).1 howner
  have heq := Reaches.owner_unique hshort file.reaches_root (hreach owner howner)
    (Element.holds_of_mem_group hroot) (Element.holds_of_mem_group hmem)
  rw [← heq] at hkind
  simp at hkind

/-- The blocks of a visit, each with the kind of its elements. -/
def blocks (file : File) : List (ElementKind × List Element) :=
  [(.file, [file.root]),
    (.enum, file.writtenEnums),
    (.enumValue, file.writtenEnums.flatMap (·.group 2)),
    (.field, file.allMessages.flatMap (·.group 2)),
    (.method, file.serviceElements.flatMap (·.group 2)),
    (.message, file.writtenMessages),
    (.service, file.serviceElements)]

theorem visit_eq_blocks (file : File) : file.visit = file.blocks.flatMap (·.2) := by
  simp [visit, blocks]

/-- A block holds the elements of its kind that are not left out. -/
theorem mem_block_iff {file : File} (hshort : file.listsShort = true) {kind : ElementKind}
    {elements : List Element} (hblock : (kind, elements) ∈ file.blocks) {element : Element} :
    element ∈ elements ↔
      file.Reaches element ∧ element.kind = kind ∧ ¬ file.LeftOut element := by
  have hnever : ∀ {kind : ElementKind}, kind ≠ .message → kind ≠ .enum → kind ≠ .enumValue →
      (file.Reaches element ∧ element.kind = kind ↔
        file.Reaches element ∧ element.kind = kind ∧ ¬ file.LeftOut element) := by
    intro kind hmessage henum hvalue
    refine and_congr_right fun _ => (and_iff_left_of_imp ?_).symm
    rintro rfl hleft
    rcases hleft.kind_cases with hkind | hkind | hkind
    · exact hmessage hkind
    · exact henum hkind
    · exact hvalue hkind
  simp only [blocks, List.mem_cons, Prod.mk.injEq, List.not_mem_nil, or_false] at hblock
  rcases hblock with ⟨rfl, rfl⟩ | ⟨rfl, rfl⟩ | ⟨rfl, rfl⟩ | ⟨rfl, rfl⟩ | ⟨rfl, rfl⟩ | ⟨rfl, rfl⟩ |
    ⟨rfl, rfl⟩
  · rw [← hnever (by decide) (by decide) (by decide), List.mem_singleton]
    constructor
    · rintro rfl
      exact ⟨file.reaches_root, rfl⟩
    · rintro ⟨hreach, hkind⟩
      exact hreach.eq_root_of_kind hkind
  · exact mem_writtenEnums_iff hshort
  · exact mem_writtenValues_iff hshort
  · rw [mem_fields_iff hshort, hnever (by decide) (by decide) (by decide)]
  · rw [mem_methods_iff hshort, hnever (by decide) (by decide) (by decide)]
  · rw [mem_writtenMessages_iff hshort]
    exact and_congr_right fun _ => and_congr_right fun hkind =>
      not_congr (leftOut_message_iff hkind).symm
  · rw [mem_serviceElements_iff, hnever (by decide) (by decide) (by decide)]

theorem mem_visit_iff {file : File} (hshort : file.listsShort = true) {element : Element} :
    element ∈ file.visit ↔ file.Reaches element ∧ ¬ file.LeftOut element := by
  rw [visit_eq_blocks, List.mem_flatMap]
  constructor
  · rintro ⟨⟨kind, elements⟩, hblock, hmem⟩
    obtain ⟨hreach, -, hleft⟩ := (mem_block_iff hshort hblock).1 hmem
    exact ⟨hreach, hleft⟩
  · rintro ⟨hreach, hleft⟩
    obtain ⟨elements, hblock⟩ : ∃ elements, (element.kind, elements) ∈ file.blocks := by
      cases element.kind <;> simp [blocks]
    exact ⟨_, hblock, (mem_block_iff hshort hblock).2 ⟨hreach, rfl, hleft⟩⟩

theorem block_nodup {file : File} (hshort : file.listsShort = true) {kind : ElementKind}
    {elements : List Element} (hblock : (kind, elements) ∈ file.blocks) : elements.Nodup := by
  have henums := writtenEnums_nodup hshort
  have hservices : file.serviceElements.Nodup :=
    nodup_of_ascends (file.reaches_root.group_ascends hshort 6)
  simp only [blocks, List.mem_cons, Prod.mk.injEq, List.not_mem_nil, or_false] at hblock
  rcases hblock with ⟨-, rfl⟩ | ⟨-, rfl⟩ | ⟨-, rfl⟩ | ⟨-, rfl⟩ | ⟨-, rfl⟩ | ⟨-, rfl⟩ | ⟨-, rfl⟩
  · exact List.nodup_singleton _
  · exact henums
  · exact nodup_flatMap_group hshort henums
      (fun enum hmem => ((mem_writtenEnums_iff hshort).1 hmem).1) 2
  · exact nodup_flatMap_group hshort (nodup_of_ascends (walk_ascends hshort _))
      (fun message hmem => ((mem_allMessages_iff hshort).1 hmem).1) 2
  · exact nodup_flatMap_group hshort hservices
      (fun service hmem => (mem_serviceElements_iff.1 hmem).1) 2
  · exact nodup_of_ascends (walk_ascends hshort _)
  · exact hservices

theorem visit_nodup {file : File} (hshort : file.listsShort = true) : file.visit.Nodup := by
  rw [visit_eq_blocks, List.nodup_flatMap]
  constructor
  · rintro ⟨kind, elements⟩ hblock
    exact block_nodup hshort hblock
  · have hkinds : file.blocks.Pairwise fun left right => left.1 ≠ right.1 := by
      simp [blocks]
    -- Blocks have different kinds, and so nothing in common.
    refine hkinds.imp_of_mem ?_
    rintro ⟨leftKind, left⟩ ⟨rightKind, right⟩ hleft hright hne element hmemLeft hmemRight
    have hleftKind := ((mem_block_iff hshort hleft).1 hmemLeft).2.1
    have hrightKind := ((mem_block_iff hshort hright).1 hmemRight).2.1
    exact hne (hleftKind.symm.trans hrightKind)

/-- A visit of a file whose lists are short sees precisely the elements of the file that
are not left out, each of them once.  Fields, services and methods are never left out,
wherever they stand. -/
theorem visit_exact (file : File) (hshort : file.listsShort = true) :
    (file.visit.map (·.path)).Nodup ∧
      (∀ element, element ∈ file.visit ↔ file.Reaches element ∧ ¬ file.LeftOut element) ∧
      ∀ element, file.Reaches element →
        element.kind = .field ∨ element.kind = .service ∨ element.kind = .method →
        element ∈ file.visit := by
  refine ⟨?_, fun element => mem_visit_iff hshort, ?_⟩
  · refine (visit_nodup hshort).map_on ?_
    intro left hleft right hright hpath
    exact Reaches.eq_of_path_eq hshort ((mem_visit_iff hshort).1 hleft).1
      ((mem_visit_iff hshort).1 hright).1 hpath
  · intro element hreach hkind
    refine (mem_visit_iff hshort).2 ⟨hreach, fun hleft => ?_⟩
    rcases hleft.kind_cases with hleftKind | hleftKind | hleftKind <;>
      simp [hleftKind] at hkind

/-- A file with a map entry that holds a message with an enum of its own. -/
def entrySample : File where
  name := "entry.proto"
  messages :=
    [.mk "Holder" [⟨"tags", 1⟩]
      [.mk "TagsEntry" [⟨"key", 1⟩, ⟨"value", 2⟩]
        [.mk "Inner" [⟨"deep", 1⟩] [] [⟨"Kind", [⟨"KIND_UNSET", 0⟩]⟩] false] [] true] [] false]
  services := [⟨"Store", [⟨"Get", ".Holder", ".Holder"⟩]⟩]

/-- In the sample the message `Holder` is the only one seen, but all four fields are. -/
theorem visit_exact_entrySample :
    entrySample.listsShort = true ∧
      entrySample.visit.map (·.path) =
        [[], [4, 0, 2, 0], [4, 0, 3, 0, 2, 0], [4, 0, 3, 0, 2, 1], [4, 0, 3, 0, 3, 0, 2, 0],
          [6, 0, 2, 0], [4, 0], [6, 0]] ∧
      (entrySample.visit.map (·.path)).Nodup ∧
      (∀ element, element ∈ entrySample.visit ↔
        entrySample.Reaches element ∧ ¬ entrySample.LeftOut element) ∧
      ∀ element, entrySample.Reaches element →
        element.kind = .field ∨ element.kind = .service ∨ element.kind = .method →
        element ∈ entrySample.visit :=
  ⟨by decide, by decide, visit_exact entrySample (by decide)⟩

end File

end Schema

end SchemaLint
