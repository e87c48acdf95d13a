import Mathlib.Logic.Relation
import SchemaLint.Schema.Element

namespace SchemaLint

namespace Schema

/-!
# Elements and their paths

The elements of a file are those reached from its root by going from an element to
its children.  As long as every list of the file is short enough for its positions
to be entries of paths, looking up the path of such an element finds the element
itself.  Hence a path belongs to at most one element, and an element has at most
one owner.

Looking up goes the other way as well: whatever a path leads to is an element of the
file with that path.  So a path leads nowhere exactly when no element has it, be it for
an odd length, a negative position or the number of a list that does not exist.
-/

namespace Element

/-- The element stands directly below `owner`. -/
def Holds (owner element : Element) : Prop := element ∈ owner.children

theorem holds_iff {owner element : Element} :
    owner.Holds element ↔
      ∃ tag nodes position node, (tag, nodes) ∈ owner.groups ∧
        nodes[position]? = some node ∧ element = owner.held tag position node := by
  simp only [Holds, children, List.mem_flatMap, List.mem_mapIdx]
  constructor
  · rintro ⟨⟨tag, nodes⟩, hgroup, position, hposition, rfl⟩
    exact ⟨tag, nodes, position, _, hgroup, List.getElem?_eq_getElem hposition, rfl⟩
  · rintro ⟨tag, nodes, position, node, hgroup, hnode, rfl⟩
    obtain ⟨hposition, rfl⟩ := List.getElem?_eq_some_iff.1 hnode
    exact ⟨(tag, nodes), hgroup, position, hposition, rfl⟩

/-- No two lists of an element have the same number. -/
theorem lookup_groups {owner : Element} {tag : Int32} {nodes : List Node} :
    owner.groups.lookup tag = some nodes ↔ (tag, nodes) ∈ owner.groups := by
  rw [List.lookup_eq_some_iff]
  constructor
  · rintro ⟨before, after, hsplit, -⟩
    simp [hsplit]
  · intro hmem
    obtain ⟨before, after, hsplit⟩ := List.append_of_mem hmem
    refine ⟨before, after, hsplit, ?_⟩
    have hdistinct : owner.groups.Pairwise fun left right => right.1 ≠ left.1 := by
      rcases owner with ⟨file, node, path, fullName⟩
      cases node <;> simp [groups, Node.groups]
    rw [hsplit, List.pairwise_append] at hdistinct
    intro group hgroup
    simpa using hdistinct.2.2 group hgroup (tag, nodes) List.mem_cons_self

theorem mem_group_iff {owner element : Element} {tag : Int32} :
    element ∈ owner.group tag ↔
      ∃ nodes position node, (tag, nodes) ∈ owner.groups ∧
        nodes[position]? = some node ∧ element = owner.held tag position node := by
  constructor
  · intro hmem
    cases hlookup : owner.groups.lookup tag with
    | none => simp [group, hlookup] at hmem
    | some nodes =>
        simp only [group, hlookup, Option.getD_some, List.mem_mapIdx] at hmem
        obtain ⟨position, hposition, rfl⟩ := hmem
        exact ⟨nodes, position, _, lookup_groups.1 hlookup,
          List.getElem?_eq_getElem hposition, rfl⟩
  · rintro ⟨nodes, position, node, hgroup, hnode, rfl⟩
    obtain ⟨hposition, rfl⟩ := List.getElem?_eq_some_iff.1 hnode
    simp only [group, lookup_groups.2 hgroup, Option.getD_some, List.mem_mapIdx]
    exact ⟨position, hposition, rfl⟩

theorem file_of_holds {owner element : Element} (h : owner.Holds element) :
    element.file = owner.file := by
  obtain ⟨tag, nodes, position, node, -, -, rfl⟩ := holds_iff.1 h
  rfl

/-- Each step down adds the number of a list and a position to the path. -/
theorem path_of_holds {owner element : Element} (h : owner.Holds element) :
    ∃ tag entry, element.path = owner.path ++ [tag, entry] := by
  obtain ⟨tag, nodes, position, node, -, -, rfl⟩ := holds_iff.1 h
  exact ⟨tag, pathEntry position, rfl⟩

/-- Whatever stands below an element has a path that goes on from its path. -/
theorem path_prefix_of_below {owner element : Element}
    (h : Relation.ReflTransGen Holds owner element) : owner.path <+: element.path := by
  induction h with
  | refl => exact List.prefix_refl _
  | tail _ hstep ih =>
      obtain ⟨tag, entry, hpath⟩ := path_of_holds hstep
      rw [hpath]
      exact ih.trans (List.prefix_append _ _)

end Element

namespace File

/-- The element belongs to the file. -/
def Reaches (file : File) (element : Element) : Prop :=
  Relation.ReflTransGen Element.Holds file.root element

theorem reaches_root (file : File) : file.Reaches file.root := .refl

theorem Reaches.step {file : File} {owner element : Element} (howner : file.Reaches owner)
    (hholds : owner.Holds element) : file.Reaches element :=
  Relation.ReflTransGen.tail howner hholds

theorem Reaches.file_eq {file : File} {element : Element} (h : file.Reaches element) :
    element.file = file := by
  induction h with
  | refl => rfl
  | tail _ hstep ih => rw [Element.file_of_holds hstep, ih]

/-- Only the root has no owner. -/
theorem Reaches.eq_root_or_owner {file : File} {element : Element} (h : file.Reaches element) :
    element = file.root ∨ ∃ owner, file.Reaches owner ∧ owner.Holds element :=
  Relation.ReflTransGen.cases_tail h

end File

/-!
## Short lists

The positions of a list are entries of paths when the list has fewer than `entryLimit`
members.  The condition is checked once for all lists of a file.
-/

/-- Whether the positions of a list are entries of paths. -/
def isShort {α : Type} (list : List α) : Bool := list.length < entryLimit

mutual

/-- Whether all lists in and below a message are short. -/
def Message.listsShort : Message → Bool
  | .mk _ fields nested enums _ =>
    isShort fields && (isShort nested && Message.allListsShort nested) &&
      (isShort enums && enums.all (isShort ·.values))

/-- Whether all lists in and below some messages are short. -/
def Message.allListsShort : List Message → Bool
  | [] => true
  | message :: rest => message.listsShort && Message.allListsShort rest

end

/-- Whether all lists of a file are short. -/
def File.listsShort (file : File) : Bool :=
  (isShort file.messages && Message.allListsShort file.messages) &&
    (isShort file.enums && file.enums.all (isShort ·.values)) &&
    (isShort file.services && file.services.all (isShort ·.methods))

theorem Message.allListsShort_eq (messages : List Message) :
    Message.allListsShort messages = messages.all (·.listsShort) := by
  induction messages with
  | nil => rfl
  | cons message rest ih => rw [Message.allListsShort, ih, List.all_cons]

/-- Whether all lists in and below a node of the file are short. -/
def Node.listsShort (file : File) : Node → Bool
  | .file => file.listsShort
  | .message m => m.listsShort
  | .enum e => isShort e.values
  | .service s => isShort s.methods
  | .field _ | .enumValue _ | .method _ => true

/-- The condition on a node is that on its own lists and on the nodes in them. -/
theorem Node.listsShort_eq (file : File) (owner : Node) :
    owner.listsShort file =
      (owner.groups file).all fun group =>
        isShort group.2 && group.2.all (·.listsShort file) := by
  cases owner with
  | file =>
      simp [Node.groups, Node.listsShort, File.listsShort, isShort, List.all_map,
        Function.comp_def, Message.allListsShort_eq, Bool.and_assoc]
  | message message =>
      rcases message with ⟨name, fields, nested, enums, isMapEntry⟩
      have hfields : (fields.all fun _ => true) = true := List.all_eq_true.2 fun _ _ => rfl
      simp [Node.groups, Node.listsShort, Message.listsShort, Message.fields, Message.nested,
        Message.enums, isShort, List.all_map, Function.comp_def, Message.allListsShort_eq,
        Bool.and_assoc, hfields]
  | enum enum => simp [Node.groups, Node.listsShort, isShort, List.all_map, Function.comp_def]
  | service service =>
      simp [Node.groups, Node.listsShort, isShort, List.all_map, Function.comp_def]
  | field field => rfl
  | enumValue value => rfl
  | method method => rfl

/-- Short lists are passed on from a node to the nodes it holds. -/
theorem Node.listsShort_of_mem_groups {file : File} {owner : Node} {tag : Int32}
    {nodes : List Node} (hshort : owner.listsShort file = true)
    (hgroup : (tag, nodes) ∈ owner.groups file) :
    nodes.length < entryLimit ∧ ∀ node ∈ nodes, node.listsShort file = true := by
  rw [Node.listsShort_eq, List.all_eq_true] at hshort
  have hnodes := hshort (tag, nodes) hgroup
  rw [Bool.and_eq_true, List.all_eq_true] at hnodes
  exact ⟨of_decide_eq_true hnodes.1, hnodes.2⟩

theorem File.Reaches.listsShort {file : File} {element : Element}
    (hshort : file.listsShort = true) (h : file.Reaches element) :
    element.node.listsShort file = true := by
  induction h with
  | refl => exact hshort
  | tail hreach hstep ih =>
      have hfile := File.Reaches.file_eq hreach
      obtain ⟨tag, nodes, position, node, hgroup, hnode, rfl⟩ := Element.holds_iff.1 hstep
      rw [Element.groups, hfile] at hgroup
      exact (Node.listsShort_of_mem_groups ih hgroup).2 node (List.mem_of_getElem? hnode)

theorem File.Reaches.length_lt {file : File} {owner : Element} {tag : Int32}
    {nodes : List Node} (hshort : file.listsShort = true) (howner : file.Reaches owner)
    (hgroup : (tag, nodes) ∈ owner.groups) : nodes.length < entryLimit := by
  rw [Element.groups, howner.file_eq] at hgroup
  exact (Node.listsShort_of_mem_groups (howner.listsShort hshort) hgroup).1

/-!
## Looking up paths
-/

theorem toInt_pathEntry {position : Nat} (h : position < entryLimit) :
    (pathEntry position).toInt = position := by
  rw [pathEntry, if_pos h, Int32.toInt_ofNat_of_lt h]

theorem pathEntry_lt_iff {left right : Nat} (hleft : left < entryLimit)
    (hright : right < entryLimit) :
    pathEntry left < pathEntry right ↔ left < right := by
  rw [Int32.lt_iff_toInt_lt, toInt_pathEntry hleft, toInt_pathEntry hright]
  omega

namespace Element

/-- A path is followed piece by piece. -/
theorem descend?_append {element middle : Element} {path : Path}
    (h : element.descend? path = some middle) (rest : Path) :
    element.descend? (path ++ rest) = middle.descend? rest := by
  fun_induction descend? element path with
  | case1 element =>
      obtain rfl := Option.some.inj h
      rfl
  | case2 element tag => simp at h
  | case3 element tag entry path hnegative => simp at h
  | case4 element tag entry path hnegative child hchild ih =>
      rw [List.cons_append, List.cons_append, descend?, if_neg hnegative, hchild]
      exact ih h
  | case5 element tag entry path hnegative hchild => simp at h

/-- The last step of a path finds the element that the step made. -/
theorem descend?_held {owner : Element} {tag : Int32} {nodes : List Node} {position : Nat}
    {node : Node} (hgroup : (tag, nodes) ∈ owner.groups)
    (hnode : nodes[position]? = some node) (hshort : nodes.length < entryLimit) :
    owner.descend? [tag, pathEntry position] = some (owner.held tag position node) := by
  have hposition : position < entryLimit :=
    Nat.lt_trans (List.getElem?_eq_some_iff.1 hnode).1 hshort
  have hnonneg : ¬ pathEntry position < 0 := by
    rw [Int32.lt_iff_toInt_lt, toInt_pathEntry hposition]
    simp
  simp [descend?, child?, hnonneg, toInt_pathEntry hposition, lookup_groups.2 hgroup, hnode]

end Element

namespace File

/-- The path of an element of the file leads to that element. -/
theorem Reaches.resolve?_path {file : File} {element : Element}
    (hshort : file.listsShort = true) (h : file.Reaches element) :
    file.resolve? element.path = some element := by
  induction h with
  | refl => rfl
  | tail hreach hstep ih =>
      obtain ⟨tag, nodes, position, node, hgroup, hnode, rfl⟩ := Element.holds_iff.1 hstep
      -- The path leads to the owner first, and from there one step further.
      have hlength := Reaches.length_lt hshort hreach hgroup
      exact (Element.descend?_append ih _).trans (Element.descend?_held hgroup hnode hlength)

/-- Different elements of a file have different paths. -/
theorem Reaches.eq_of_path_eq {file : File} {left right : Element}
    (hshort : file.listsShort = true) (hleft : file.Reaches left) (hright : file.Reaches right)
    (hpath : left.path = right.path) : left = right := by
  have hfound := hleft.resolve?_path hshort
  rw [hpath, hright.resolve?_path hshort] at hfound
  exact (Option.some.inj hfound).symm

/-- An element of a file has one owner at most. -/
theorem Reaches.owner_unique {file : File} {left right element : Element}
    (hshort : file.listsShort = true) (hleft : file.Reaches left) (hright : file.Reaches right)
    (hholds : left.Holds element) (hholds' : right.Holds element) : left = right := by
  obtain ⟨tag, entry, hpath⟩ := Element.path_of_holds hholds
  obtain ⟨tag', entry', hpath'⟩ := Element.path_of_holds hholds'
  refine hleft.eq_of_path_eq hshort hright ?_
  exact (List.append_inj' (hpath.symm.trans hpath') rfl).1

end File

/-!
## What paths lead to
-/

/-- An entry that is no negative number is the entry of a position. -/
theorem pathEntry_toNat {entry : Int32} (h : ¬ entry < 0) :
    pathEntry entry.toInt.toNat = entry := by
  have hnonneg : 0 ≤ entry.toInt := by
    rw [Int32.lt_iff_toInt_lt] at h
    simpa using h
  -- No entry is as large as the limit, so the position is not cut back to it.
  have hposition : entry.toInt.toNat < entryLimit := by
    have hbound := Int32.toInt_lt entry
    simp only [entryLimit]
    omega
  apply Int32.toInt_inj.1
  rw [toInt_pathEntry hposition]
  omega

namespace Element

/-- One step along a path goes to a child, and the path of the child records the step. -/
theorem holds_of_child? {owner child : Element} {tag : Int32} {position : Nat}
    (h : owner.child? tag position = some child) :
    owner.Holds child ∧ child.path = owner.path ++ [tag, pathEntry position] := by
  rw [child?, Option.bind_eq_some_iff] at h
  obtain ⟨nodes, hlookup, hchild⟩ := h
  obtain ⟨node, hnode, rfl⟩ := Option.map_eq_some_iff.1 hchild
  exact ⟨holds_iff.2 ⟨tag, nodes, position, node, lookup_groups.1 hlookup, hnode, rfl⟩, rfl⟩

/-- A path that leads somewhere leads to an element below, whose own path it completes. -/
theorem below_of_descend? {element found : Element} {path : Path}
    (h : element.descend? path = some found) :
    Relation.ReflTransGen Holds element found ∧ found.path = element.path ++ path := by
  fun_induction descend? element path with
  | case1 element =>
      obtain rfl := Option.some.inj h
      exact ⟨.refl, (List.append_nil _).symm⟩
  | case2 element tag => simp at h
  | case3 element tag entry path hnegative => simp at h
  | case4 element tag entry path hnegative child hchild ih =>
      obtain ⟨hholds, hstep⟩ := holds_of_child? hchild
      obtain ⟨hbelow, hpath⟩ := ih h
      refine ⟨.head hholds hbelow, ?_⟩
      rw [hpath, hstep, pathEntry_toNat hnegative, List.append_assoc]
      rfl
  | case5 element tag entry path hnegative hchild => simp at h

end Element

namespace File

/-- Paths are a faithful address of the elements of a file.  A path, whatever its entries,
leads to an element exactly when the element belongs to the file and has this path.
Elements are equal only if their files, nodes, paths and full names are, so nothing about
an element is left open by its path. -/
theorem resolve?_exact (file : File) (hshort : file.listsShort = true) :
    (∀ (path : Path) (element : Element),
      file.resolve? path = some element ↔ file.Reaches element ∧ element.path = path) ∧
    (∀ left right : Element, file.Reaches left → file.Reaches right → left ≠ right →
      left.path ≠ right.path) ∧
    ∀ element : Element, file.Reaches element → file.resolve? element.path = some element := by
  refine ⟨fun path element => ⟨fun hfound => ?_, ?_⟩, ?_, ?_⟩
  · exact Element.below_of_descend? hfound
  · rintro ⟨hreach, rfl⟩
    exact hreach.resolve?_path hshort
  · intro left right hleft hright hne hpath
    exact hne (hleft.eq_of_path_eq hshort hright hpath)
  · intro element hreach
    exact hreach.resolve?_path hshort

/-- A message inside a message, and an enum beside them. -/
def shelfSample : File where
  name := "shelf.proto"
  package := some "library"
  messages := [.mk "Shelf" [] [.mk "Book" [⟨"title", 1⟩] [] [] false] [] false]
  enums := [⟨"Genre", []⟩]

/-- In the sample the title of a book is found at its path, and nothing has a path that
stops between a list and a position, counts backwards or names a list of another kind. -/
theorem resolve?_exact_shelfSample :
    shelfSample.listsShort = true ∧
    (∃ title, shelfSample.Reaches title ∧ title.path = [4, 0, 3, 0, 2, 0] ∧
      title.fullName = "library.Shelf.Book.title") ∧
    ∀ element, shelfSample.Reaches element →
      element.path ∉ ([[4, 0, 3], [4, -1], [5, 0, 3, 0]] : List Path) := by
  have hshort : shelfSample.listsShort = true := by decide
  obtain ⟨hexact, -, hfound⟩ := resolve?_exact shelfSample hshort
  refine ⟨hshort, ?_, ?_⟩
  · obtain ⟨title, htitle⟩ : ∃ title, shelfSample.resolve? [4, 0, 3, 0, 2, 0] = some title :=
      ⟨_, rfl⟩
    obtain ⟨hreach, hpath⟩ := (hexact _ title).1 htitle
    refine ⟨title, hreach, hpath, ?_⟩
    obtain rfl := Option.some.inj htitle
    decide
  · intro element hreach hmem
    have hnowhere : ∀ path ∈ ([[4, 0, 3], [4, -1], [5, 0, 3, 0]] : List Path),
        (shelfSample.resolve? path).isNone = true := by decide
    have hnone := hnowhere element.path hmem
    rw [hfound element hreach] at hnone
    simp at hnone

end File

end Schema

end SchemaLint
