import SchemaLint.Proofs.Visiting

namespace SchemaLint

namespace Schema

/-!
# Owners and children

The owner of an element is found by looking up a part of its path from the root of the
file, whereas the children of an element are made from the lists it holds.  The two agree:
a child leads back to the element among whose children it stands, and it stands there once.

What is left of a path without its last two entries is the path of the owner, because
every step down adds the number of a list and a position.  The elements of a file other
than its root therefore always have two entries to leave out.
-/

namespace Element

theorem group_of_mem_groups {owner : Element} {tag : Int32} {nodes : List Node}
    (h : (tag, nodes) ∈ owner.groups) : owner.group tag = nodes.mapIdx (owner.held tag) := by
  rw [group, lookup_groups.2 h, Option.getD_some]

/-- The lists of an element come in the order of their numbers. -/
theorem groups_ascend (owner : Element) :
    owner.groups.Pairwise fun left right => left.1 < right.1 := by
  rcases owner with ⟨file, node, path, fullName⟩
  cases node <;> simp [groups, Node.groups]

end Element

namespace File

/-- The children of an element of a file are in the order of paths. -/
theorem Reaches.children_ascend {file : File} (hshort : file.listsShort = true)
    {owner : Element} (howner : file.Reaches owner) :
    owner.children.Pairwise fun left right => left.path < right.path := by
  rw [Element.children, List.pairwise_flatMap]
  constructor
  · rintro ⟨tag, nodes⟩ hgroup
    have hascends := howner.group_ascends hshort tag
    rwa [Element.group_of_mem_groups hgroup] at hascends
  · refine owner.groups_ascend.imp ?_
    intro leftGroup rightGroup hless left hleft right hright
    obtain ⟨position, -, rfl⟩ := List.mem_mapIdx.1 hleft
    obtain ⟨later, -, rfl⟩ := List.mem_mapIdx.1 hright
    exact List.append_left_lt (List.cons_lt_cons_iff.2 (.inl hless))

/-- A child leads back to its owner. -/
theorem Reaches.parent?_of_holds {file : File} (hshort : file.listsShort = true)
    {owner element : Element} (howner : file.Reaches owner) (hholds : owner.Holds element) :
    element.parent? = some owner := by
  obtain ⟨tag, entry, hpath⟩ := Element.path_of_holds hholds
  have hfile := (howner.step hholds).file_eq
  have hinitial : element.path.take (element.path.length - 2) = owner.path := by
    rw [hpath, List.length_append]
    exact List.take_left
  have hne : element.path.isEmpty = false := by
    rw [hpath]
    simp
  rw [Element.parent?, hne, hinitial, hfile]
  exact howner.resolve?_path hshort

/-- The file has no owner, and every other element of it has one, found by leaving out the
last two entries of its path.  Among the children of its owner it stands exactly once, and
all of these children have this owner. -/
theorem parent?_inverts_children (file : File) (hshort : file.listsShort = true)
    (element : Element) (hreach : file.Reaches element) :
    (element.parent? = none ↔ element = file.root) ∧
    (element ≠ file.root →
      2 ≤ element.path.length ∧
      ∃ owner, element.parent? = some owner ∧ file.Reaches owner ∧
        owner.path = element.path.take (element.path.length - 2) ∧
        (∃! position : Nat, owner.children[position]? = some element) ∧
        ∀ child ∈ owner.children, child.parent? = some owner) := by
  rcases hreach.eq_root_or_owner with rfl | ⟨owner, howner, hholds⟩
  · exact ⟨⟨fun _ => rfl, fun _ => rfl⟩, fun hne => absurd rfl hne⟩
  · have hparent := howner.parent?_of_holds hshort hholds
    obtain ⟨tag, entry, hpath⟩ := Element.path_of_holds hholds
    refine ⟨⟨?_, ?_⟩, fun _ => ⟨?_, owner, hparent, howner, ?_, ?_, ?_⟩⟩
    · intro hnone
      simp [hparent] at hnone
    · rintro rfl
      simp [root] at hpath
    · simp [hpath]
    · simp [hpath]
    · obtain ⟨position, hposition⟩ := List.mem_iff_getElem?.1 hholds
      have hnodup := nodup_of_ascends (howner.children_ascend hshort)
      have hlength := (List.getElem?_eq_some_iff.1 hposition).1
      refine ⟨position, hposition, fun other hother => ?_⟩
      exact ((List.getElem?_inj hlength hnodup).1 (hposition.trans hother.symm)).symm
    · intro child hchild
      exact howner.parent?_of_holds hshort hchild

/-- A library with messages inside messages, fields beside them and an enum at the end. -/
def ownedSample : File where
  name := "library.proto"
  package := some "library"
  messages :=
    [.mk "Shelf" [⟨"label", 1⟩] [.mk "Book" [⟨"title", 1⟩] [] [⟨"Genre", []⟩] false] [] false]

/-- In the sample the genre of books leads back to books, which hold it behind their title. -/
theorem parent?_inverts_children_ownedSample :
    ownedSample.listsShort = true ∧
    ∃ genre, ownedSample.Reaches genre ∧ genre ≠ ownedSample.root ∧
      genre.path = [4, 0, 3, 0, 4, 0] ∧
      ∃ book, genre.parent? = some book ∧ book.fullName = "library.Shelf.Book" ∧
        book.children.map (·.path) = [[4, 0, 3, 0, 2, 0], [4, 0, 3, 0, 4, 0]] ∧
        (∃! position : Nat, book.children[position]? = some genre) ∧
        ∀ child ∈ book.children, child.parent? = some book := by
  have hshort : ownedSample.listsShort = true := by decide
  obtain ⟨genre, hgenre⟩ : ∃ genre, ownedSample.resolve? [4, 0, 3, 0, 4, 0] = some genre :=
    ⟨_, rfl⟩
  obtain ⟨hreach, hpath⟩ := Element.below_of_descend? hgenre
  have hne : genre ≠ ownedSample.root := by
    rintro rfl
    simp [root] at hpath
  obtain ⟨-, hinverse⟩ := parent?_inverts_children ownedSample hshort genre hreach
  obtain ⟨-, book, hbook, -, -, honce, hchildren⟩ := hinverse hne
  obtain rfl := Option.some.inj hgenre
  refine ⟨hshort, _, hreach, hne, hpath, book, hbook, ?_, ?_, honce, hchildren⟩
  · obtain rfl := Option.some.inj hbook
    decide
  · obtain rfl := Option.some.inj hbook
    decide

end File

end Schema

end SchemaLint
