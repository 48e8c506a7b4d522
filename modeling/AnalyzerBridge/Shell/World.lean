/-
What a host has at its paths.

`World.entry` tells what a path leads to, seen from the current folder, and
`World.program` which program a command names, or why it cannot be run.

Support for runs: nothing is proved about this module, and no proof rests on it.
-/
import AnalyzerBridge.Folder
import AnalyzerBridge.Shell.Utility

namespace AnalyzerBridge.Shell

/-- What is at a path. -/
inductive Entry where
  | absent
  | folder
  | file
  | program (name : String)
  | beneathFile
  | tooLong
  deriving DecidableEq

/-- A host: its current folder and the files that are there besides those of the system. -/
structure World where
  folder : PurePath := PurePath.parse "/"
  files : Files := fun _ => .missing

/-- The folders of the system. -/
def systemFolders : List String := [
  "/", "/bin", "/boot", "/dev", "/etc", "/home", "/lib", "/media", "/mnt", "/opt", "/proc", "/root",
  "/run", "/sbin", "/srv", "/sys", "/tmp", "/usr", "/usr/bin", "/usr/lib", "/usr/local",
  "/usr/local/bin", "/usr/sbin", "/usr/share", "/var", "/var/tmp"]

/-- The files of the system that are no programs. -/
def systemFiles : List String := [
  "/dev/null", "/dev/zero", "/dev/full", "/dev/random", "/dev/urandom", "/etc/fstab", "/etc/group",
  "/etc/hostname", "/etc/hosts", "/etc/os-release", "/etc/passwd", "/etc/profile",
  "/etc/resolv.conf", "/etc/shadow"]

/-- The names of the shell. -/
def shellNames : List String := ["sh", "dash"]

/-- The programs of the system that the shell also has as builtins. -/
def builtinPrograms : List String := ["echo", "printf", "true", "false", "test", "[", "kill"]

/-- All programs. -/
def programNames : List String := shellNames ++ utilities ++ builtinPrograms

/-- The folders that commands are looked up in. -/
def programFolders : List String := ["/bin", "/usr/bin"]

/-- The longest name of a file. -/
def longestName : Nat := 255

/-- What is at an absolute path, looking at the path alone. -/
def World.leaf (w : World) (path : PurePath) : Entry :=
  let text := path.text
  if systemFolders.contains text then .folder
  else if systemFiles.contains text then .file
  else
    let name := path.parts.getLast?.getD ""
    if programFolders.contains path.parent.text && programNames.contains name then .program name
    else
      match w.files path with
      | .missing => .absent
      | .directory => .folder
      | .unreadable | .bytes _ => .file

/-- What is at a path, seen from the current folder. -/
def World.entry (w : World) (text : String) : Entry :=
  let given := w.folder.join (PurePath.parse text)
  let path : PurePath := { root := "/", parts := resolveDots given.parts }
  let isFile := fun (e : Entry) => e == .file || e matches .program _
  let above := (List.range path.parts.length).map fun n =>
    w.leaf { path with parts := path.parts.take n }
  if path.parts.any fun p => longestName < p.utf8ByteSize then .tooLong
  else if above.any isFile then .beneathFile
  else
    let e := w.leaf path
    if isFile e && text.toList.getLast? == some '/' then .beneathFile else e

/-- What a command leads to: one with a slash is a path, any other is looked up among the programs. -/
def World.find (w : World) (command : String) : Entry :=
  if command.toList.contains '/' then w.entry command
  else if longestName < command.utf8ByteSize then .tooLong
  else if command == "." || command == ".." then .folder
  else if programNames.contains command then .program command
  else .absent

end AnalyzerBridge.Shell
