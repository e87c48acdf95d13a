import SchemaLint.Schema.Element

namespace SchemaLint

namespace Schema

/-!
# Visiting order

A file is visited in seven blocks: the file, its enums, their values, the fields,
the methods, the messages and the services.

Messages come in preorder.  Map entries, which nobody wrote, are left out together
with everything below them, except that their fields are visited like all others.
-/

namespace Element

mutual

/-- The message at `element` and the messages below it, each before those it holds.
A message that `keep` refuses is left out with everything below it. -/
def messagesFrom (keep : Message → Bool) (element : Element) : Message → List Element
  | .mk name fields nested enums isMapEntry =>
    if keep (.mk name fields nested enums isMapEntry) then
      element :: messagesIn keep element 3 0 nested
    else []

/-- The messages from a list that `owner` holds under `tag`; the first of the list
stands at `position`. -/
def messagesIn (keep : Message → Bool) (owner : Element) (tag : Int32) (position : Nat) :
    List Message → List Element
  | [] => []
  | message :: rest =>
    messagesFrom keep (owner.held tag position (.message message)) message ++
      messagesIn keep owner tag (position + 1) rest

end

end Element

namespace File

/-- All messages of a file in preorder. -/
def allMessages (file : File) : List Element :=
  file.root.messagesIn (fun _ => true) 4 0 file.messages

/-- The messages of a file that are no map entry and stand below none. -/
def writtenMessages (file : File) : List Element :=
  file.root.messagesIn (fun message => !message.isMapEntry) 4 0 file.messages

/-- The enums that are visited: first those of the file, then those of its messages. -/
def writtenEnums (file : File) : List Element :=
  file.root.group 5 ++ file.writtenMessages.flatMap (·.group 4)

/-- The services of a file. -/
def serviceElements (file : File) : List Element := file.root.group 6

/-- The elements of a file in the order in which rules see them. -/
def visit (file : File) : List Element :=
  file.root ::
    (file.writtenEnums ++
      file.writtenEnums.flatMap (·.group 2) ++
      file.allMessages.flatMap (·.group 2) ++
      file.serviceElements.flatMap (·.group 2) ++
      file.writtenMessages ++
      file.serviceElements)

end File

end Schema

end SchemaLint
