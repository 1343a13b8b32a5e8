import Stencil.Text.Search

/-!
# Names of resources

A resource is named by a path with slashes. Inside a template a name may be relative to where the template
is; a loader of files takes only names that lead down from its roots.
-/

namespace Stencil

def pathParts (path : String) : List String := (Text.splitOn ['/'] path.toList).map String.ofList

def joinPath (root path : String) : String :=
  if root.isEmpty || root.endsWith "/" then root ++ path else root ++ "/" ++ path

/-- Whether a name is a relative path without steps upwards. -/
def isInsideName (name : String) : Bool :=
  !name.isEmpty && name.toList.head? != some '/' && !(pathParts name).contains ".."

/-- Whether a name is meant relative to the present template. -/
def isRelativeName (name : String) : Bool :=
  ['.', '/'].isPrefixOf name.toList || ['.', '.', '/'].isPrefixOf name.toList

/-- Adds a part to a path given by its parts, the last one first: `..` takes the last part away, if it is
one that can be taken away. -/
def addPart (path : List String) (part : String) : List String :=
  if part = "" ∨ part = "." then path
  else if part = ".." then
    match path with
    | last :: rest => if last = ".." then ".." :: path else rest
    | [] => [".."]
  else part :: path

/-- The name that a relative name means inside the template of a given name. Steps that lead above the top
stay in front. -/
def nameWithin (current name : String) : String :=
  let directory := (pathParts current).dropLast.reverse
  "/".intercalate ((pathParts name).foldl addPart directory).reverse

/-- A step upwards undoes a step to an ordinary name. -/
theorem addPart_up_addPart {part : String} (path : List String) (h : part ≠ "") (hd : part ≠ ".")
    (hu : part ≠ "..") : addPart (addPart path part) ".." = path := by
  simp [addPart, h, hd, hu]

/-- Adding a part never leaves an empty one or a dot that was not there. -/
theorem mem_of_mem_addPart {path : List String} {part x : String} (h : x ∈ addPart path part)
    (hx : x = "" ∨ x = ".") : x ∈ path := by
  unfold addPart at h
  split at h
  · exact h
  · next hp =>
    split at h
    · split at h
      · split at h
        · rcases List.mem_cons.mp h with rfl | h
          · simp at hx
          · exact h
        · exact List.mem_cons_of_mem _ h
      · rcases List.mem_cons.mp h with rfl | h
        · simp at hx
        · cases h
    · rcases List.mem_cons.mp h with rfl | h
      · exact absurd hx hp
      · exact h

end Stencil
