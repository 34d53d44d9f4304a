import AgentKnowledge.Lib.FileTree
import AgentKnowledge.Queue.Limits

/-!
The payload directory of a tree of files.

The scan reads a directory through its entries, one level inside the other, while writes act on
paths. `payloadNodes` lists a tree as the scan would read it.
-/

namespace AgentKnowledge

open FileTree

def PayloadNodes.ofNames (node : String → PayloadNode) : List String → PayloadNodes
  | [] => .nil
  | name :: names => .cons (some name) (node name) (.ofNames node names)

/-- The entry at a path of a tree with what is below it, as far down as `depth`. -/
def payloadNode (t : FileTree StoredFile) : Nat → RelPath → PayloadNode
  | 0, _ => .other
  | depth + 1, path =>
      match t.node path with
      | some (.file content) => .file content
      | some .dir =>
          .directory (.ofNames (fun name => payloadNode t depth (path ++ [name]))
            (t.childNames path))
      | none => .other

def payloadNodes (t : FileTree StoredFile) : PayloadNodes :=
  .ofNames (fun name => payloadNode t t.height [name]) (t.childNames [])

theorem PayloadPath.joinPath_components (path : PayloadPath) : joinPath path.components = path.value :=
  joinPath_splitSlash _

end AgentKnowledge
