/-
A folder and the paths into it.

`Folder.content` tells what is found at a path, seen from the folder itself: its
own entries, the folders above it, and two devices that every host has.  Double
dots are followed as they come, so a path through something that is no folder
leads nowhere.

Support for runs: nothing is proved about this module, and no proof rests on it.
-/
import AnalyzerBridge.Settings.Basic

namespace AnalyzerBridge

/-- The parts of a path with double dots resolved. -/
def resolveDots (parts : List String) : List String :=
  (parts.foldl (fun acc p => if p == ".." then acc.drop 1 else p :: acc) []).reverse

/-- A folder: where it is and what it holds. -/
structure Folder where
  path : PurePath
  entries : List (String × FileContent) := []

namespace Folder

/-- The devices that every host has. -/
def devices : List (List String × FileContent) := [
  (["dev", "null"], .bytes []),
  (["proc", "self", "mem"], .unreadable)]

/-- What is at an absolute path, given by its parts. -/
def contentAt (f : Folder) (parts : List String) : FileContent :=
  if parts.isPrefixOf f.path.parts then .directory
  else if parts.dropLast == f.path.parts then
    (f.entries.lookup (parts.getLast?.getD "")).getD .missing
  else if devices.any fun d => parts.isPrefixOf d.1 && parts != d.1 then .directory
  else (devices.lookup parts).getD .missing

/-- The parts of the absolute path that a path leads to; nothing if it passes through something that is
no folder. -/
def target? (f : Folder) (path : PurePath) : Option (List String) :=
  (f.path.join path).parts.foldlM
    (fun here part =>
      match f.contentAt here with
      | .directory => some (if part == ".." then here.dropLast else here ++ [part])
      | _ => none)
    []

/-- What is at a path, seen from the folder. -/
def content (f : Folder) : Files := fun path =>
  match f.target? path with
  | some parts => f.contentAt parts
  | none => .missing

end Folder

end AnalyzerBridge
