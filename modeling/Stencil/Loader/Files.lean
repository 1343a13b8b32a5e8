import Stencil.Loader
import Stencil.ResourceName

/-!
# Templates in files

A tree of files as it stands at one moment, and the loader of the files below a list of root directories.
Main statement: a file that is found lies below one of the roots, under a name without steps upwards.
-/

namespace Stencil

/-- A file: its bytes and the time of its last change. -/
structure File where
  bytes : ByteArray
  stamp : Stamp

/-- The files of a tree, each under the names of the directories on the way to it and its own, and the
directory from which paths are followed. -/
structure FileTree where
  here : List String
  files : List (List String × File)

namespace FileTree

/-- Whether there is a directory: one on the way to the present one, or one with something in it. -/
def isDirectory (t : FileTree) (place : List String) : Bool :=
  place.isPrefixOf t.here || t.files.any fun f => place.isPrefixOf f.1 && place != f.1

/-- Follows a path from a place; every step but the last has to lead to a directory. A step upwards from the
top stays there. -/
def follow (t : FileTree) (place : List String) : List String → Option (List String)
  | [] => some place
  | part :: parts =>
    if !t.isDirectory place then none
    else if part == "" || part == "." then t.follow place parts
    else if part == ".." then t.follow place.dropLast parts
    else t.follow (place ++ [part]) parts

/-- The place that a path leads to; a path that starts with a slash starts at the top. -/
def place? (t : FileTree) (path : String) : Option (List String) :=
  t.follow (if path.toList.head? = some '/' then [] else t.here) (pathParts path)

def file? (t : FileTree) (path : String) : Option File := (t.place? path).bind (t.files.lookup ·)

/-- The text at a path: none where there is no file, and a failure where the bytes are no text. -/
def text? (t : FileTree) (path : String) : Except TemplateError (Option (String × Stamp)) :=
  match t.file? path with
  | none => .ok none
  | some f =>
    match String.fromUTF8? f.bytes with
    | some text => .ok (some (text, f.stamp))
    | none => .error (.of (.io (.notUtf8 path)))

end FileTree

/-- The loader of the files below the roots, tried in order. -/
structure FileLoader where
  roots : List String

namespace FileLoader

/-- The path of a name below the first root that has it as a file. -/
def locate (l : FileLoader) (t : FileTree) (name : String) :
    Except TemplateError (Option String) :=
  if isInsideName name then
    .ok ((l.roots.map (joinPath · name)).find? fun path => (t.file? path).isSome)
  else .error (.of (.nameOutsideRoots name))

def loader (l : FileLoader) (t : FileTree) : Loader where
  load name := do
    match ← l.locate t name with
    | none => return none
    | some path => return (← t.text? path).map fun (text, stamp) => ⟨text, some stamp⟩
  stamp? name :=
    match l.locate t name with
    | .ok (some path) => (t.file? path).map File.stamp
    | _ => none

/-- A refused name is gone. -/
theorem stamp?_of_not_inside (l : FileLoader) (t : FileTree) {name : String}
    (h : isInsideName name = false) : (l.loader t).stamp? name = none := by
  simp [loader, locate, h]

/-- A file that is found lies below one of the roots, under an accepted name. -/
theorem exists_root_of_locate {l : FileLoader} {t : FileTree} {name path : String}
    (h : l.locate t name = .ok (some path)) :
    isInsideName name = true ∧ ∃ root ∈ l.roots, path = joinPath root name := by
  unfold locate at h
  split at h
  · next hn =>
    refine ⟨hn, ?_⟩
    have hf : (l.roots.map (joinPath · name)).find? (fun path => (t.file? path).isSome) =
        some path := by simpa using h
    obtain ⟨root, hr, rfl⟩ := List.mem_map.mp (List.mem_of_find?_eq_some hf)
    exact ⟨root, hr, rfl⟩
  · cases h

end FileLoader

end Stencil
